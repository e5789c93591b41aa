import Blockscript.Decimal.Basic
import Mathlib.Algebra.Order.Field.Power
import Mathlib.Algebra.Order.Ring.Rat
import Mathlib.Tactic.Linarith
import Mathlib.Tactic.Positivity
import Mathlib.Tactic.Ring

/-!
# The numbers that decimals denote

A decimal denotes a rational number. Its scale is no part of the number, nor is the sign of a
zero: many decimals denote the same one.

* `Decimal.toRat`: the number that a decimal denotes;
* `Decimal.unitsAt_mul`: it is the same in units of any power of ten that divides it;
* `Decimal.toRat_add`, `Decimal.toRat_sub`, `Decimal.toRat_mul`: sums, differences and products
  are those of the numbers;
* `Decimal.lt_iff`, `Decimal.same_iff`: so is the order, and equality but for the scale;
* `Decimal.eq_or_isZero_of_same`: only zeros are equal to anything but themselves.
-/

namespace Blockscript.Decimal

variable {a b d : Decimal} {e : Int}

/-- The number that a decimal denotes. -/
def toRat (d : Decimal) : ℚ :=
  d.signed * 10 ^ d.exponent

theorem ten_zpow_pos (e : Int) : (0 : ℚ) < 10 ^ e :=
  zpow_pos (by norm_num) e

/-! ### Units -/

/-- A power of ten is never zero, and one with a negative exponent counts as one here. -/
theorem tenTo_pos (e : Int) : 0 < tenTo e :=
  Nat.pow_pos (by decide)

theorem tenTo_of_nonpos (h : e ≤ 0) : tenTo e = 1 := by
  simp [tenTo, Int.toNat_of_nonpos h]

/-- For exponents that are not negative, a power of ten is that of the rational numbers. -/
theorem tenTo_cast (h : 0 ≤ e) : (tenTo e : ℚ) = 10 ^ e := by
  obtain ⟨n, rfl⟩ := Int.eq_ofNat_of_zero_le h
  simp [tenTo]

/-- The sign of a number does not change its digits. -/
@[simp]
theorem natAbs_signed (d : Decimal) : d.signed.natAbs = d.coefficient := by
  rw [signed]
  split <;> simp

theorem isZero_iff : d.isZero = true ↔ d.coefficient = 0 :=
  beq_iff_eq

/-- A number is zero if its signed coefficient is. -/
theorem isZero_iff_signed : d.isZero = true ↔ d.signed = 0 := by
  rw [isZero_iff, ← Int.natAbs_eq_zero, natAbs_signed]

/-- The number denoted is zero just if the digits are. -/
theorem toRat_eq_zero_iff : d.toRat = 0 ↔ d.isZero = true := by
  rw [toRat, mul_eq_zero_iff_right (ten_zpow_pos _).ne', Int.cast_eq_zero, isZero_iff_signed]

/-- The factor that a sign stands for. -/
def signFactor (negative : Bool) : ℚ :=
  if negative then -1 else 1

/-- The sign of a quotient is the quotient of the signs. -/
theorem signFactor_bne (s t : Bool) : signFactor (s != t) = signFactor s / signFactor t := by
  cases s <;> cases t <;> norm_num [signFactor]

/-- The number denoted, by sign, digits and scale. -/
theorem toRat_eq (d : Decimal) :
    d.toRat = signFactor d.negative * (d.coefficient * 10 ^ d.exponent) := by
  rw [toRat, signed, signFactor]
  split <;> push_cast <;> ring

/-- The units of a number in a finer scale are those of its own, times a power of ten. -/
theorem unitsAt_eq (d : Decimal) (e : Int) : d.unitsAt e = d.signed * tenTo (d.exponent - e) := by
  rw [unitsAt]
  split
  · next h => rw [isZero_iff_signed.1 h, zero_mul]
  · rfl

/-- A number in units of a power of ten that divides it. -/
theorem unitsAt_mul (h : e ≤ d.exponent) : (d.unitsAt e : ℚ) * 10 ^ e = d.toRat := by
  rw [unitsAt_eq, toRat, Int.cast_mul, Int.cast_natCast, tenTo_cast (by omega), mul_assoc,
    ← zpow_add₀ (by norm_num), Int.sub_add_cancel]

/-! ### Arithmetic -/

/-- A signed coefficient is split into sign and digits without loss. -/
theorem signed_ofSigned (i e : Int) : (ofSigned i e).signed = i := by
  simp only [ofSigned, signed, decide_eq_true_eq]
  split <;> omega

@[simp]
theorem signed_neg (d : Decimal) : d.neg.signed = -d.signed := by
  cases h : d.negative <;> simp [signed, neg, h]

theorem toRat_neg (d : Decimal) : d.neg.toRat = -d.toRat := by
  rw [toRat, signed_neg, Int.cast_neg, neg_mul]
  rfl

/-- A sum is that of the units in the finer scale. -/
theorem signed_add (a b : Decimal) : (a.add b).signed =
    a.unitsAt (min a.exponent b.exponent) + b.unitsAt (min a.exponent b.exponent) := by
  simp only [add]
  split
  · next h => simp [signed, h]
  · exact signed_ofSigned _ _

/-- A sum is exact: both numbers are brought to the finer scale. -/
theorem toRat_add (a b : Decimal) : (a.add b).toRat = a.toRat + b.toRat := by
  rw [toRat, add_exponent, signed_add, Int.cast_add, add_mul, unitsAt_mul (min_le_left _ _),
    unitsAt_mul (min_le_right _ _)]

/-- The signed coefficient of a product is the product of those of its factors. -/
theorem signed_mul (a b : Decimal) : (a.mul b).signed = a.signed * b.signed := by
  cases ha : a.negative <;> cases hb : b.negative <;> simp [signed, mul, ha, hb]

/-- The product is exact. -/
theorem toRat_mul (a b : Decimal) : (a.mul b).toRat = a.toRat * b.toRat := by
  have hexponent : (10 : ℚ) ^ (a.mul b).exponent = 10 ^ a.exponent * 10 ^ b.exponent :=
    zpow_add₀ (by norm_num) _ _
  rw [toRat, signed_mul, hexponent, toRat, toRat, Int.cast_mul]
  ring

/-! ### Order -/

/-- Beside a number, all greater powers of ten are the same. -/
theorem sign_mul_sub_eq {m n t u : Int} (ht : |n| < t) (hu : |n| < u) :
    (m * t - n).sign = (m * u - n).sign := by
  have hsign : ∀ {t : Int}, |n| < t → (m * t - n).sign = if m = 0 then (-n).sign else m.sign := by
    intro t ht
    obtain ⟨hlower, hupper⟩ := abs_lt.1 ht
    rcases lt_trichotomy m 0 with hm | rfl | hm
    · rw [if_neg hm.ne, Int.sign_eq_neg_one_of_neg hm, Int.sign_eq_neg_one_of_neg]
      nlinarith
    · rw [if_pos rfl, zero_mul, zero_sub]
    · rw [if_neg hm.ne', Int.sign_eq_one_of_pos hm, Int.sign_eq_one_of_pos]
      nlinarith
  rw [hsign ht, hsign hu]

theorem tenToBeside_zero (bound : Nat) : tenToBeside bound 0 = 1 := by
  rw [tenToBeside, if_neg (by omega)]
  rfl

/-- What stands for a power of ten is that power, or both of them exceed the bound. -/
theorem tenToBeside_eq_or (bound : Nat) (e : Int) :
    tenToBeside bound e = tenTo e ∨ bound < tenToBeside bound e ∧ bound < tenTo e := by
  rw [tenToBeside]
  split
  · next h =>
    obtain ⟨n, rfl⟩ := Int.eq_ofNat_of_zero_le (show 0 ≤ e by omega)
    refine .inr ⟨Nat.lt_succ_self bound, ?_⟩
    calc bound < 2 ^ (bound.log2 + 1) := Nat.lt_log2_self
      _ ≤ 2 ^ n := Nat.pow_le_pow_right (by decide) (by omega)
      _ ≤ 10 ^ n := Nat.pow_le_pow_left (by decide) n
  · exact .inl rfl

/-- The numbers in units that are large enough for a comparison are ordered as the numbers in
    units of the finer scale. -/
theorem sign_unitsBeside (a b : Decimal) : (a.unitsBeside b - b.unitsBeside a).sign =
    (a.unitsAt (min a.exponent b.exponent) - b.unitsAt (min a.exponent b.exponent)).sign := by
  -- Only the number of the coarser scale is multiplied, beside the coefficient of the other.
  have hcoarse : ∀ {a b : Decimal}, b.exponent ≤ a.exponent →
      (a.unitsBeside b - b.unitsBeside a).sign =
        (a.unitsAt b.exponent - b.unitsAt b.exponent).sign := by
    intro a b h
    rw [unitsBeside, unitsBeside, commonExponent, commonExponent, min_eq_right h, min_eq_left h,
      unitsAt_eq, unitsAt_eq, Int.sub_self, tenToBeside_zero, tenTo_of_nonpos le_rfl, Nat.cast_one,
      mul_one]
    have habs : |b.signed| = b.coefficient := by rw [Int.abs_eq_natAbs, natAbs_signed]
    rcases tenToBeside_eq_or b.coefficient (a.exponent - b.exponent) with heq | ⟨ht, hu⟩
    · rw [heq]
    · exact sign_mul_sub_eq (by omega) (by omega)
  rcases le_total b.exponent a.exponent with h | h
  · rw [min_eq_right h, hcoarse h]
  · rw [min_eq_left h, ← neg_sub (b.unitsBeside a), ← neg_sub (b.unitsAt _), Int.sign_neg,
      Int.sign_neg, hcoarse h]

/-- The difference of two numbers is that of their units in the finer scale. -/
theorem toRat_sub_toRat (a b : Decimal) : a.toRat - b.toRat =
    ((a.unitsAt (min a.exponent b.exponent) - b.unitsAt (min a.exponent b.exponent) : Int) : ℚ) *
      10 ^ min a.exponent b.exponent := by
  rw [Int.cast_sub, sub_mul, unitsAt_mul (min_le_left _ _), unitsAt_mul (min_le_right _ _)]

/-- The order of decimals is that of the numbers they denote. -/
theorem lt_iff : a.lt b = true ↔ a.toRat < b.toRat := by
  rw [lt, decide_eq_true_eq, ← sub_pos, ← Int.sign_eq_one_iff_pos, sign_unitsBeside,
    Int.sign_eq_one_iff_pos, ← sub_pos (b := a.toRat), toRat_sub_toRat,
    mul_pos_iff_of_pos_right (ten_zpow_pos _), Int.cast_pos]

/-- Two decimals are the same number if they denote the same one, whatever their scales are. -/
theorem sameNumber_iff : a.sameNumber b = true ↔ a.toRat = b.toRat := by
  rw [sameNumber, beq_iff_eq, ← sub_eq_zero, ← Int.sign_eq_zero_iff_zero, sign_unitsBeside,
    Int.sign_eq_zero_iff_zero, ← sub_eq_zero (b := b.toRat), toRat_sub_toRat,
    mul_eq_zero_iff_right (ten_zpow_pos _).ne', Int.cast_eq_zero]

/-! ### Equality -/

/-- Equal decimals denote the same number in the same scale. -/
theorem same_iff : a.same b = true ↔ a.toRat = b.toRat ∧ a.exponent = b.exponent := by
  rw [same, Bool.and_eq_true, sameNumber_iff, beq_iff_eq]

/-- A number and its scale are all of a decimal but the sign of a zero. -/
theorem eq_or_isZero_of_same (h : a.same b = true) : a = b ∨ a.isZero = true ∧ b.isZero = true := by
  obtain ⟨hnumber, hexponent⟩ := same_iff.1 h
  have hsigned : a.signed = b.signed := by
    rw [toRat, toRat, hexponent] at hnumber
    exact_mod_cast mul_right_cancel₀ (ten_zpow_pos _).ne' hnumber
  by_cases hzero : b.signed = 0
  · exact .inr ⟨isZero_iff_signed.2 (hsigned.trans hzero), isZero_iff_signed.2 hzero⟩
  · left
    obtain ⟨s, m, e⟩ := a
    obtain ⟨t, n, f⟩ := b
    obtain rfl : e = f := hexponent
    cases s <;> cases t <;> simp [signed] at hsigned hzero ⊢ <;> omega

end Blockscript.Decimal
