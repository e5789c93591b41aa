import Blockscript.Decimal.Basic
import Blockscript.Text.Integer

/-!
# Decimal numbers as text

A decimal is written in one of two ways, both of which keep the coefficient
digit by digit.

* `Decimal.plain`: positional, as a program prints it; never with an exponent;
* `Decimal.scientific`: positional while the number has no zeros to the right of
  its last digit and at most five to the left of its first one after the point,
  and with an exponent otherwise. This form keeps the scale, so that it can be
  read back.
-/

namespace Blockscript.Decimal

open Text

/-- The minus sign of a negative number. -/
def signText (d : Decimal) : List Char :=
  if d.negative then ['-'] else []

/-- Digits with a point that leaves `places` of them to its right, and at least
    one to its left. -/
def pointed (digits : List Char) (places : Nat) : List Char :=
  if places = 0 then
    digits
  else
    let padded := List.replicate (places + 1 - digits.length) '0' ++ digits
    padded.take (padded.length - places) ++ '.' :: padded.drop (padded.length - places)

/-- The positional form. Zero has no trailing zeros before the point. -/
def plain (d : Decimal) : List Char :=
  if d.isZero && 0 < d.exponent then
    d.signText ++ ['0']
  else
    d.signText ++ pointed (digitsOf d.coefficient ++ List.replicate d.exponent.toNat '0') d.scale

/-- The power of ten of the first digit. -/
def adjustedExponent (d : Decimal) : Int :=
  d.exponent + ((digitsOf d.coefficient).length - 1 : Nat)

/-- The positional form where it keeps the scale and is short, and otherwise one
    digit before the point and a signed exponent. -/
def scientific (d : Decimal) : List Char :=
  if d.exponent ≤ 0 ∧ -6 ≤ d.adjustedExponent then
    d.plain
  else
    let digits := digitsOf d.coefficient
    let e := d.adjustedExponent
    d.signText ++ pointed digits (digits.length - 1) ++ 'E' ::
      (if e < 0 then '-' else '+') :: digitsOf e.natAbs

end Blockscript.Decimal
