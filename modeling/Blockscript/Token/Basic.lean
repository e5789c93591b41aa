/-!
# Tokens

A program is a sequence of *tokens*. A token keeps the text it is written with,
quotes and escapes included, and the place where it starts in the program.

* `Token.Kind`: the classes of tokens;
* `Token`: a token at its place;
* `Token.endOffset`: the place right after a token.
-/

namespace Blockscript

/-- The classes of tokens. Keywords are identifiers, and brackets and separators
    are operators: the grammar tells them by their text. -/
inductive Token.Kind where
  | identifier
  | integer
  | decimal
  | character
  | string
  | operator
  deriving DecidableEq, Repr

/-- The name of a class of tokens. -/
def Token.Kind.name : Token.Kind → String
  | .identifier => "IDENTIFIER"
  | .integer => "INTEGER"
  | .decimal => "DECIMAL"
  | .character => "CHARACTER"
  | .string => "STRING"
  | .operator => "OPERATOR"

/-- The class of tokens of a name. -/
def Token.Kind.ofName? (name : String) : Option Token.Kind :=
  [.identifier, .integer, .decimal, .character, .string, .operator].find? fun k => k.name == name

/-- A token: its class, its text, and the offset of its first character. -/
structure Token where
  kind : Token.Kind
  text : String
  offset : Nat
  deriving DecidableEq, Repr

/-- The offset right after a token. -/
def Token.endOffset (t : Token) : Nat :=
  t.offset + t.text.length

/-- The offset right after the last token, where a missing token is reported. -/
def Token.endOffsetOfAll (ts : List Token) : Nat :=
  (ts.getLast?.map Token.endOffset).getD 0

end Blockscript
