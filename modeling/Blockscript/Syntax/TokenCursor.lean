import Blockscript.Syntax.Parser

/-!
# Parsing step by step

A *token cursor* is a place among tokens at which single rules of the grammar can
be tried. A rule moves it over the tokens that it takes; if the rule fails, the
cursor stays before the token that cannot be there.

* `TokenCursor.run`: the outcome of a rule, and the cursor afterwards;
* `TokenCursor.token?`: a token near the cursor;
* `TokenCursor.currentOffset`: where an error at the cursor is reported.
-/

namespace Blockscript

/-- A place among tokens. -/
structure TokenCursor where
  tokens : List Token
  position : Nat

namespace TokenCursor

/-- The tokens from the cursor on. -/
def ahead (c : TokenCursor) : List Token :=
  c.tokens.drop c.position

/-- Whether the place some tokens after the cursor is before the end. -/
def has (c : TokenCursor) (places : Int) : Bool :=
  (c.position : Int) + places < c.tokens.length

/-- The token some places after the cursor, if there is one. Places before the
    first token count from the end. -/
def token? (c : TokenCursor) (places : Int) : Option Token :=
  let i := (c.position : Int) + places
  let i := if i < 0 then i + c.tokens.length else i
  if i < 0 then none else c.tokens[i.toNat]?

/-- The offset of the token at the cursor, or of the end of the last one. -/
def currentOffset (c : TokenCursor) : Nat :=
  Token.nextOffset c.tokens c.ahead

/-- The outcome of a rule at the cursor, and the cursor afterwards. -/
def run {α : Type} (c : TokenCursor) (rule : Parser α) : Except ParseError α × TokenCursor :=
  match EStateM.run rule c.ahead with
  | .ok a rest => (.ok a, { c with position := c.tokens.length - rest.length })
  | .error cause rest =>
    (.error ⟨cause, Token.nextOffset c.tokens rest⟩,
      { c with position := c.tokens.length - rest.length })

end TokenCursor

end Blockscript
