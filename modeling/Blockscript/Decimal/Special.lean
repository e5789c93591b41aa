import Blockscript.Decimal.Reader

/-!
# Decimals that are no numbers

Beside the numbers, two sorts of decimals stand for none: the *infinities*, one of either sign,
and what is *undefined*. Both have a sign, and what is undefined carries a number that means
nothing. It is *signaling* if no operation takes it. There are no literals for them, and no
operation makes one out of numbers, but a document can hold them.

* `Special`: the decimals that are no numbers;
* `Special.text`: their written form;
* `Special.read?`: the one that a text denotes.
-/

namespace Blockscript

/-- A decimal that is no number. -/
inductive Special where
  | infinite (negative : Bool)
  | undefined (signaling negative : Bool) (payload : Nat)
  deriving DecidableEq, Repr

namespace Special

open Text

/-- The minus sign of what is negative. -/
def signText (negative : Bool) : List Char :=
  if negative then ['-'] else []

/-- The number that something undefined carries. None is written for zero. -/
def payloadText (payload : Nat) : List Char :=
  if payload = 0 then [] else digitsOf payload

/-- The written form. -/
def text : Special → List Char
  | .infinite negative => signText negative ++ "Infinity".toList
  | .undefined signaling negative payload =>
    signText negative ++ (if signaling then "sNaN" else "NaN").toList ++ payloadText payload

/-- The one of a sign, a name in lower case and the digits after it. -/
def ofParts? (negative : Bool) (name : String) (digits : List Nat) : Option Special :=
  match name with
  | "inf" => if digits.isEmpty then some (.infinite negative) else none
  | "infinity" => if digits.isEmpty then some (.infinite negative) else none
  | "nan" => some (.undefined false negative (digitsValue digits))
  | "snan" => some (.undefined true negative (digitsValue digits))
  | _ => none

/-- The one that a text denotes, if it denotes one. It may be written in capitals or not, and
    what surrounds a number may surround it, too. -/
def read? (s : List Char) : Option Special :=
  let (negative, word) := splitSign ((trim s).filter (· != '_'))
  match Decimal.spanDigits (word.dropWhile Char.isAlpha) with
  | (digits, []) =>
    ofParts? negative (String.ofList ((word.takeWhile Char.isAlpha).map Char.toLower)) digits
  | _ => none

end Special

end Blockscript
