import Blockscript.Decimal.Range
import Blockscript.Text.Integer

/-!
# Reading decimal numbers

The text of a decimal is an optional sign, digits with at most one point among
or beside them, and an optional exponent. Blanks may surround it, the digits may
be those of any script, and underscores are ignored wherever they stand.

* `Decimal.read?`: the decimal that a text denotes, with the scale in which it
  is written;
* `Decimal.readAny?`: the same for numbers of any size.
-/

namespace Blockscript.Decimal

open Text

/-- The longest run of digits that starts a text, by their values, and the rest. -/
def spanDigits : List Char → List Nat × List Char
  | [] => ([], [])
  | c :: rest =>
    match digitValue? c with
    | some d =>
      let (ds, rest') := spanDigits rest
      (d :: ds, rest')
    | none => ([], c :: rest)

/-- The digits before and after the point, and the rest. -/
def spanNumber (s : List Char) : List Nat × List Nat × List Char :=
  match spanDigits s with
  | (whole, '.' :: rest) =>
    let (fraction, rest') := spanDigits rest
    (whole, fraction, rest')
  | (whole, rest) => (whole, [], rest)

/-- The exponent that a text denotes: none at all, or a letter `e` followed by
    an integer. -/
def readExponent? : List Char → Option Int
  | [] => some 0
  | c :: rest =>
    if c == 'e' || c == 'E' then
      let (negative, digits) := splitSign rest
      match spanDigits digits with
      | (d :: ds, []) =>
        let n := digitsValue (d :: ds)
        some (if negative then -(n : Int) else n)
      | _ => none
    else
      none

/-- The decimal that a text denotes, if it denotes one, in range or not. -/
def readAny? (s : List Char) : Option Decimal := do
  let (negative, number) := splitSign ((trim s).filter (· != '_'))
  let (whole, fraction, rest) := spanNumber number
  if whole.isEmpty && fraction.isEmpty then
    none
  else
    let e ← readExponent? rest
    return ⟨negative, digitsValue (whole ++ fraction), e - fraction.length⟩

/-- Whether the text of a decimal has an exponent. -/
def hasExponent (s : List Char) : Bool :=
  s.any fun c => c == 'e' || c == 'E'

/-- The decimal that a text denotes, if it denotes one. If there is an exponent,
    the number has to be in range. -/
def read? (s : List Char) : Option Decimal :=
  (readAny? s).filter fun d => !hasExponent s || d.inRange

end Blockscript.Decimal
