/-!
# Escape sequences

Quoted literals write some characters as a backslash followed by a letter or by
the character itself. One table says which, for the lexer, which accepts only
these, and for the decoder.

* `escaped?`: what a backslash followed by a character stands for;
* `decode`: the text that the inside of a quoted literal denotes.
-/

namespace Blockscript.Text.Escape

/-- The characters allowed after a backslash, with what they stand for. -/
def table : List (Char × Char) :=
  [('b', '\x08'), ('n', '\n'), ('r', '\r'), ('t', '\t'),
   ('\'', '\''), ('"', '"'), ('\\', '\\')]

/-- What a backslash followed by `c` stands for, if anything. -/
def escaped? (c : Char) : Option Char :=
  table.lookup c

/-- Replaces every escape sequence by the character it stands for, from left to
    right. A backslash at the very end has nothing to escape and stays. The
    error is the first character that no backslash may precede. -/
def decode : List Char → Except Char (List Char)
  | '\\' :: c :: rest =>
    match escaped? c with
    | none => .error c
    | some d => (d :: ·) <$> decode rest
  | c :: rest => (c :: ·) <$> decode rest
  | [] => .ok []

end Blockscript.Text.Escape
