import Blockscript.Decimal.Written

/-!
# The range of decimals

The exponent of a decimal has bounds. They are so wide that no number reaches
them whose digits are all written out, but a number with an exponent can.

* `Decimal.inRange`: the numbers within the bounds;
* `Decimal.fit?`: the number in range that stands for the exact result of an
  operation, which is that result itself if it is in range;
* `Decimal.isFarAbove`: the numbers that would take too many digits without an
  exponent, or in a sum.
-/

namespace Blockscript.Decimal

/-- The least exponent of a decimal. -/
def leastExponent : Int := -1999999999999999997

/-- The greatest power of ten that a digit of a decimal with a positive exponent
    can stand for. -/
def greatestExponent : Int := 999999999999999999

/-- The numbers within the bounds. The digits of a number without a positive
    exponent are all there, so that there cannot be too many of them. -/
def inRange (d : Decimal) : Bool :=
  leastExponent ≤ d.exponent && (d.exponent ≤ 0 || d.adjustedExponent ≤ greatestExponent)

/-- The number in range that stands for an exact result. Where the scale is too
    fine, it is the nearest one, a half going to the even one; a zero takes the
    nearest exponent; and there is none for other numbers that are too large. -/
def fit? (d : Decimal) : Option Decimal :=
  if d.exponent < leastExponent then
    let unit := tenToBeside (2 * d.coefficient) (leastExponent - d.exponent)
    some ⟨d.negative, divideHalfEven d.coefficient unit, leastExponent⟩
  else if d.inRange then
    some d
  else if d.isZero then
    some { d with exponent := greatestExponent }
  else
    none

/-- The most zeros that are written out for a positive exponent. The language has no such bound;
    this one stands for the memory of a host. With more zeros, a text has ten gigabytes and an
    integer four, and the host stops when it asks for the room. -/
def mostZeros : Int := 10000000000

/-- Whether a number has a positive exponent for which too many zeros would have to
    be written out in units of `10 ^ e`. -/
def isFarAbove (d : Decimal) (e : Int) : Bool :=
  !d.isZero && 0 < d.exponent && mostZeros < d.exponent - e

end Blockscript.Decimal
