import Blockscript.Token.Lexer

/-!
# Lexing step by step

A *cursor* is a place in a text from which tokens can be taken one by one. Taking
one moves the cursor right after it, or up to where the text was read when no
token could be taken. A cursor may be anywhere, beyond the end included.

* `Cursor.peek`: a character near the cursor;
* `Cursor.skipBlanks`: the cursor before the next token;
* `Cursor.take`: the token that a scanner finds at the cursor;
* `Cursor.takeAll`: all tokens from the cursor on.
-/

namespace Blockscript

open Text

/-- A place in a text. -/
structure Cursor where
  text : List Char
  index : Nat

namespace Cursor

/-- What follows the cursor. -/
def ahead (c : Cursor) : List Char :=
  c.text.drop c.index

/-- The character some places after the cursor, if there is one. Places before
    the text count from its end. -/
def peek (c : Cursor) (places : Int) : Option Char :=
  let i := (c.index : Int) + places
  let i := if i < 0 then i + c.text.length else i
  if i < 0 then none else c.text[i.toNat]?

/-- Whether an ASCII digit stands some places after the cursor. -/
def atDigit (c : Cursor) (places : Int) : Bool :=
  (c.peek places).any isDigit

/-- The cursor some characters further on. -/
def advance (c : Cursor) (n : Nat) : Cursor :=
  { c with index := c.index + n }

/-- The cursor before the next character that is no blank. -/
def skipBlanks (c : Cursor) : Cursor :=
  c.advance (c.ahead.takeWhile isBlank).length

/-- An error of a scanner at the cursor, by its place in the text. A string that
    does not end is reported at the end of the text, wherever the cursor is. -/
def locate (c : Cursor) (e : LexError) : LexError :=
  match e.cause with
  | .unterminatedString => { e.shift c.index with offset := c.text.length }
  | _ => e.shift c.index

/-- The outcome of a scanner at the cursor, and the cursor afterwards. -/
def run {α : Type} (c : Cursor) (scan : List Char → Except LexError α) (length : α → Nat) :
    Except LexError α × Cursor :=
  match scan c.ahead with
  | .ok a => (.ok a, c.advance (length a))
  | .error e => (.error (c.locate e), c.advance e.reached)

/-- The token that a scanner finds at the cursor, and the cursor afterwards. -/
def take (c : Cursor) (scan : List Char → Except LexError (Token.Kind × Nat)) :
    Except LexError Token × Cursor :=
  let (r, next) := c.run scan Prod.snd
  (r.map fun (kind, n) => ⟨kind, String.ofList (c.ahead.take n), c.index⟩, next)

/-- Skips an escape sequence at the cursor. -/
def skipEscape (c : Cursor) : Except LexError Unit × Cursor :=
  let (r, next) := c.run Lexer.scanEscape id
  (r.map fun _ => (), next)

/-- All tokens from the cursor on, and the cursor at the end of the text, or
    where it was when no token could be taken. -/
def takeAll (c : Cursor) : Except LexError (List Token) × Cursor :=
  match Lexer.tokensFrom c.index c.ahead with
  | .ok ts => (.ok ts, c.advance c.ahead.length)
  | .error e => (.error e, { c with index := e.reached })

end Cursor

end Blockscript
