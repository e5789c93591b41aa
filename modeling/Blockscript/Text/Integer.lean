import Blockscript.Text.Blank
import Blockscript.Text.Digit

/-!
# Integers as text

An integer is written in decimal, with a minus sign if it is negative. Reading
is more liberal than writing: blanks may surround the number, a plus sign and
leading zeros are allowed, the digits may be those of any script, and a single
underscore may stand between two digits.

* `writeInteger`: the written form of an integer;
* `readInteger?`: the integer that a text denotes.
-/

namespace Blockscript.Text

/-- The written form of an integer. -/
def writeInteger (i : Int) : List Char :=
  if i < 0 then '-' :: digitsOf i.natAbs else digitsOf i.natAbs

/-- Splits a sign off a text: whether it is a minus, and the rest. -/
def splitSign : List Char → Bool × List Char
  | '-' :: rest => (true, rest)
  | '+' :: rest => (false, rest)
  | s => (false, s)

/-- The values of a run of digits with single underscores between them. -/
def underscoredDigits? : List Char → Option (List Nat)
  | [] => none
  | [c] => (digitValue? c).map ([·])
  | c :: '_' :: rest => do
    let d ← digitValue? c
    let ds ← underscoredDigits? rest
    return d :: ds
  | c :: rest => do
    let d ← digitValue? c
    let ds ← underscoredDigits? rest
    return d :: ds

/-- The blanks that may surround an integer: the separators `U+001C`–`U+001F`
    are none of them. -/
def isIntegerBlank (c : Char) : Bool :=
  isBlank c && !(0x1C ≤ c.toNat && c.toNat ≤ 0x1F)

/-- The integer that a text denotes, if it denotes one. -/
def readInteger? (s : List Char) : Option Int := do
  let (negative, digits) := splitSign (trimBy isIntegerBlank s)
  let n := digitsValue (← underscoredDigits? digits)
  return if negative then -(n : Int) else n

end Blockscript.Text
