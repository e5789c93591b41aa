/-!
# Decimal numbers

A *decimal* is a sign, a coefficient and a power of ten: `1.50` is the
coefficient `150` with the exponent `-2`. Trailing zeros are part of the number,
as `1.5` and `1.50` differ in scale, and so is the sign of a zero.

Addition, subtraction and multiplication are exact here, whatever the size of the
operands. Division rounds once, to the scale of the dividend. A program may find that
its host takes only so many digits into a division; they are counted before, by
whoever asks for it (`Evaluation.applyBinary`).

* `Decimal.signed`: the coefficient with its sign, so that the number denoted is
  `signed * 10 ^ exponent`;
* `Decimal.unitsAt`: the number in units of a power of ten that divides it, to
  which two decimals are brought before they are added;
* `Decimal.unitsBeside`: the same for a comparison, where a power of ten that
  decides it need not be written out;
* `Decimal.divide?`: division, defined where the divisor is not zero;
* `Decimal.lt`, `Decimal.sameNumber`: the order of the numbers, regardless of
  scale;
* `Decimal.same`: equal number and equal scale.
-/

namespace Blockscript

/-- The number `± coefficient * 10 ^ exponent`. -/
structure Decimal where
  negative : Bool
  coefficient : Nat
  exponent : Int
  deriving DecidableEq, Repr

namespace Decimal

/-- The coefficient with its sign. -/
def signed (d : Decimal) : Int :=
  if d.negative then -(d.coefficient : Int) else d.coefficient

/-- The decimal of a signed coefficient. Zero is positive here. -/
def ofSigned (i : Int) (exponent : Int) : Decimal :=
  ⟨i < 0, i.natAbs, exponent⟩

/-- A zero of either sign and any scale. -/
def isZero (d : Decimal) : Bool :=
  d.coefficient == 0

/-- Ten to a power, `1` at every negative one. -/
def tenTo (e : Int) : Nat :=
  Nat.pow 10 e.toNat

/-- The number in units of `10 ^ e`, where `e` is at most the exponent. -/
def unitsAt (d : Decimal) (e : Int) : Int :=
  if d.isZero then 0 else d.signed * tenTo (d.exponent - e)

/-- The opposite number, of the same scale. -/
def neg (d : Decimal) : Decimal :=
  { d with negative := !d.negative }

/-- The exact sum, of the finer of the two scales. A sum that is zero is
    negative only if both operands are. -/
def add (a b : Decimal) : Decimal :=
  let e := min a.exponent b.exponent
  let sum := a.unitsAt e + b.unitsAt e
  if sum = 0 then ⟨a.negative && b.negative, 0, e⟩ else ofSigned sum e

theorem add_exponent (a b : Decimal) : (a.add b).exponent = min a.exponent b.exponent := by
  rw [add]
  split <;> rfl

/-- The exact difference, of the finer of the two scales. -/
def sub (a b : Decimal) : Decimal :=
  a.add b.neg

theorem sub_exponent (a b : Decimal) : (a.sub b).exponent = min a.exponent b.exponent :=
  add_exponent a b.neg

/-- The exact product, whose exponent is the sum of the exponents. -/
def mul (a b : Decimal) : Decimal :=
  ⟨a.negative != b.negative, a.coefficient * b.coefficient, a.exponent + b.exponent⟩

/-- The number of places after the point. -/
def scale (d : Decimal) : Nat :=
  (-d.exponent).toNat

/-- The natural number nearest to `n / d`, a half going up. -/
def divideHalfUp (n d : Nat) : Nat :=
  (2 * n + d) / (2 * d)

/-- The natural number nearest to `n / d`, a half going to the even one. -/
def divideHalfEven (n d : Nat) : Nat :=
  let q := n / d
  let twice := 2 * (n % d)
  if twice < d then q else if d < twice then q + 1 else q + q % 2

/-- The quotient, rounded to the scale of the dividend, a half going away from
    zero. A quotient that rounds to zero is positive. There is none by zero. -/
def divide? (a b : Decimal) : Option Decimal :=
  if b.isZero then
    none
  else
    let shift := a.exponent + a.scale - b.exponent
    let magnitude := divideHalfUp (a.coefficient * tenTo shift) (b.coefficient * tenTo (-shift))
    some ⟨a.negative != b.negative && magnitude != 0, magnitude, -a.scale⟩

/-- The finer of the exponents of two decimals. -/
def commonExponent (a b : Decimal) : Int :=
  min a.exponent b.exponent

/-- Ten to a power, as far as it matters beside numbers up to `bound`: where even
    the same power of two exceeds the bound, `bound + 1` stands for it. -/
def tenToBeside (bound : Nat) (e : Int) : Nat :=
  if bound.log2 < e then bound + 1 else tenTo e

/-- The number in units of the finer of two scales, as far as it matters in a
    comparison with the number of the other one. -/
def unitsBeside (d other : Decimal) : Int :=
  d.signed * tenToBeside other.coefficient (d.exponent - commonExponent d other)

/-- The first number is less than the second. -/
def lt (a b : Decimal) : Bool :=
  a.unitsBeside b < b.unitsBeside a

/-- The two numbers are equal, possibly of different scale. -/
def sameNumber (a b : Decimal) : Bool :=
  a.unitsBeside b == b.unitsBeside a

/-- The two numbers are equal and have the same exponent. Zeros of either sign
    are equal numbers. -/
def same (a b : Decimal) : Bool :=
  a.sameNumber b && a.exponent == b.exponent

end Decimal

end Blockscript
