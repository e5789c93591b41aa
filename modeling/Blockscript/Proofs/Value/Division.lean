import Blockscript.Evaluation.Program
import Blockscript.Proofs.Decimal.Rational
import Blockscript.Proofs.Evaluation.Results
import Mathlib.Algebra.Order.Group.Unbundled.Int
import Mathlib.Algebra.Order.Round
import Mathlib.Tactic.FieldSimp
import Mathlib.Tactic.LinearCombination

/-!
# Division

Numbers of a kind are closed under division by what is not zero, at the price of exactness. A
quotient of decimals is *rounded*, once and to the scale of the dividend, and a quotient of
integers is *truncated*. Either notion tells the quotient from all other numbers.

* `IsRounded`: the nearest multiple of a unit, of two that are as near the one away from zero;
* `IsTruncated`: the integer next to a quotient, toward zero;
* `Decimal.divide?_isRounded`: a quotient of decimals is rounded to the scale of the dividend;
* `Evaluation.applyBinary_divide`: the quotients of both kinds, if the host takes their digits.
-/

namespace Blockscript

/-! ### Rounded numbers -/

/-- A multiple of a unit stands for a number: none is nearer, and of two that are as near it is
    the one away from zero. -/
structure IsRounded (x r unit : ℚ) : Prop where
  multiple : ∃ k : ℤ, r = k * unit
  nearest : 2 * |x - r| ≤ unit
  away : 2 * |x - r| = unit → |x| < |r|

namespace IsRounded

variable {x r r' unit c : ℚ}

/-- Rounding does not depend on the size of the unit. -/
theorem mul (h : IsRounded x r unit) (hc : 0 < c) : IsRounded (x * c) (r * c) (unit * c) := by
  have hdistance : 2 * |x * c - r * c| = 2 * |x - r| * c := by
    rw [← sub_mul, abs_mul, abs_of_pos hc, mul_assoc]
  obtain ⟨k, hk⟩ := h.multiple
  refine ⟨⟨k, by rw [hk, mul_assoc]⟩, ?_, fun heq => ?_⟩
  · rw [hdistance]
    exact mul_le_mul_of_nonneg_right h.nearest hc.le
  · rw [hdistance] at heq
    rw [abs_mul, abs_mul, abs_of_pos hc]
    exact mul_lt_mul_of_pos_right (h.away (mul_right_cancel₀ hc.ne' heq)) hc

/-- Rounding is the same on both sides of zero. -/
theorem neg (h : IsRounded x r unit) : IsRounded (-x) (-r) unit := by
  have hdistance : |-x - -r| = |x - r| := by rw [neg_sub_neg, abs_sub_comm]
  obtain ⟨k, hk⟩ := h.multiple
  refine ⟨⟨-k, by rw [hk, Int.cast_neg, neg_mul]⟩, ?_, ?_⟩
  · rw [hdistance]
    exact h.nearest
  · rw [hdistance, abs_neg, abs_neg]
    exact h.away

theorem signFactor_mul (h : IsRounded x r unit) (negative : Bool) :
    IsRounded (Decimal.signFactor negative * x) (Decimal.signFactor negative * r) unit := by
  cases negative with
  | false => simpa [Decimal.signFactor] using h
  | true => simpa [Decimal.signFactor] using h.neg

/-- No multiple of the unit is nearer. -/
theorem abs_sub_le_multiple (h : IsRounded x r unit) (k : ℤ) : |x - r| ≤ |x - k * unit| := by
  obtain ⟨m, hm⟩ := h.multiple
  have hunit : 0 ≤ unit := le_trans (by positivity) h.nearest
  rcases eq_or_ne m k with rfl | hne
  · rw [hm]
  · -- Two different multiples are a unit apart, of which `r` takes at most a half.
    have hapart : unit ≤ |r - k * unit| := by
      rw [hm, ← sub_mul, abs_mul, abs_of_nonneg hunit]
      refine le_mul_of_one_le_left hunit ?_
      exact_mod_cast Int.one_le_abs (sub_ne_zero.2 hne)
    have htriangle := abs_sub_le r x (k * unit)
    rw [abs_sub_comm r x] at htriangle
    linarith [h.nearest]

/-- Two integers that are neighbours cannot both be away from zero. -/
theorem not_lt_of_one {m k : ℤ} (hm : IsRounded x m 1) (hk : IsRounded x k 1) : ¬ m < k := by
  intro hlt
  have hstep : (m : ℚ) + 1 ≤ k := by exact_mod_cast hlt
  have hbelow := abs_le.1 (show |x - m| ≤ 1 / 2 by linarith [hm.nearest])
  have habove := abs_le.1 (show |x - k| ≤ 1 / 2 by linarith [hk.nearest])
  have hx : x = m + 1 / 2 := by linarith
  have hk' : (k : ℚ) = m + 1 := by linarith
  have hfirst := hm.away (by rw [hx]; norm_num)
  have hsecond := hk.away (by rw [hx, hk']; norm_num)
  rw [hk', hx] at hsecond
  rw [hx] at hfirst
  rcases le_or_gt 0 m with hm' | hm'
  · have : (0 : ℚ) ≤ m := by exact_mod_cast hm'
    rw [abs_of_nonneg this, abs_of_nonneg (by linarith)] at hfirst
    linarith
  · have : (m : ℚ) + 1 ≤ 0 := by exact_mod_cast hm'
    rw [abs_of_nonpos this, abs_of_nonpos (by linarith)] at hsecond
    linarith

/-- A number is rounded in one way only. -/
theorem unique (h : IsRounded x r unit) (h' : IsRounded x r' unit) (hunit : 0 < unit) :
    r = r' := by
  obtain ⟨m, rfl⟩ := h.multiple
  obtain ⟨k, rfl⟩ := h'.multiple
  have hone : ∀ {j : ℤ}, IsRounded x (j * unit) unit → IsRounded (x * unit⁻¹) j 1 := by
    intro j hj
    have := hj.mul (inv_pos.2 hunit)
    rwa [mul_assoc (j : ℚ), mul_inv_cancel₀ hunit.ne', mul_one] at this
  have hle := not_lt.1 (not_lt_of_one (hone h') (hone h))
  have hge := not_lt.1 (not_lt_of_one (hone h) (hone h'))
  rw [le_antisymm hle hge]

end IsRounded

/-! ### Decimals -/

namespace Decimal

/-- A half goes up, which is away from zero for a natural number. -/
theorem isRounded_divideHalfUp (n : Nat) {m : Nat} (hm : 0 < m) :
    IsRounded (n / m) (divideHalfUp n m) 1 := by
  have hm' : (0 : ℚ) < m := by exact_mod_cast hm
  generalize hq : divideHalfUp n m = q
  -- Both bounds of the quotient are those of the division that makes it.
  have hlower : 2 * m * q ≤ 2 * n + m := hq ▸ Nat.mul_div_le _ _
  have hupper : 2 * n + m < 2 * m * (q + 1) := hq ▸ Nat.lt_mul_div_succ _ (by omega)
  have hlower' : (q : ℚ) - 1 / 2 ≤ n / m := by
    rw [le_div_iff₀ hm']
    have : (2 * m * q : ℚ) ≤ 2 * n + m := by exact_mod_cast hlower
    linarith
  have hupper' : (n : ℚ) / m < q + 1 / 2 := by
    rw [div_lt_iff₀ hm']
    have : (2 * n + m : ℚ) < 2 * m * (q + 1) := by exact_mod_cast hupper
    linarith
  refine ⟨⟨q, by simp⟩, ?_, fun heq => ?_⟩
  · have hhalf : |(n : ℚ) / m - q| ≤ 1 / 2 := abs_le.2 ⟨by linarith, by linarith⟩
    linarith
  · have hdistance : |(n : ℚ) / m - q| = 1 / 2 := by linarith
    rcases (abs_eq (by norm_num)).1 hdistance with h | h
    · linarith
    · rw [abs_of_nonneg (by positivity), abs_of_nonneg (Nat.cast_nonneg q)]
      linarith

/-- A power of ten is a quotient of two natural ones, one of which is one. -/
theorem tenTo_div_tenTo (e : Int) : (tenTo e : ℚ) / tenTo (-e) = 10 ^ e := by
  rcases le_total 0 e with h | h
  · rw [tenTo_cast h, tenTo_of_nonpos (by omega), Nat.cast_one, div_one]
  · rw [tenTo_of_nonpos h, tenTo_cast (by omega), Nat.cast_one, zpow_neg, one_div, inv_inv]

/-- Division finds the rounded quotient of the coefficients, brought to the scale of the
    dividend. -/
theorem divide?_isRounded {a b : Decimal} (hb : b.toRat ≠ 0) :
    ∃ q, a.divide? b = some q ∧ q.exponent = -max (-a.exponent) 0 ∧
      IsRounded (a.toRat / b.toRat) q.toRat (10 ^ q.exponent) := by
  have hzero : ¬ b.isZero = true := mt toRat_eq_zero_iff.2 hb
  rw [divide?, if_neg hzero]
  refine ⟨_, rfl, by simp only [scale]; omega, ?_⟩
  -- The shift brings both coefficients to the scale of the dividend, whichever of them it
  -- multiplies.
  generalize hshift : a.exponent + a.scale - b.exponent = shift
  have hpositive : 0 < b.coefficient * tenTo (-shift) :=
    Nat.mul_pos (Nat.pos_of_ne_zero (mt isZero_iff.2 hzero)) (tenTo_pos _)
  have hround := isRounded_divideHalfUp (a.coefficient * tenTo shift) hpositive
  simp only
  generalize divideHalfUp (a.coefficient * tenTo shift) (b.coefficient * tenTo (-shift)) = m
    at hround
  have hscaled := (hround.mul (ten_zpow_pos (-a.scale))).signFactor_mul (a.negative != b.negative)
  -- The exact quotient is the sign, times the quotient that is rounded, times the scale.
  have hquotient : a.toRat / b.toRat = signFactor (a.negative != b.negative) *
      (((a.coefficient * tenTo shift : Nat) : ℚ) / ((b.coefficient * tenTo (-shift) : Nat) : ℚ) *
        10 ^ (-a.scale : Int)) := by
    have hexponent : (10 : ℚ) ^ a.exponent / 10 ^ b.exponent =
        10 ^ shift * 10 ^ (-a.scale : Int) := by
      rw [← zpow_sub₀ (by norm_num), ← zpow_add₀ (by norm_num), ← hshift]
      congr 1
      ring
    rw [toRat_eq, toRat_eq, signFactor_bne, Nat.cast_mul, Nat.cast_mul, mul_div_mul_comm,
      mul_div_mul_comm, mul_div_mul_comm, tenTo_div_tenTo, hexponent]
    ring
  have hresult : toRat ⟨a.negative != b.negative && m != 0, m, -a.scale⟩ =
      signFactor (a.negative != b.negative) * (m * 10 ^ (-a.scale : Int)) := by
    rw [toRat_eq]
    by_cases hm : m = 0
    · simp [hm]
    · rw [bne_iff_ne.2 hm, Bool.and_true]
  rw [hquotient, hresult]
  rwa [one_mul] at hscaled

end Decimal

/-! ### Integers -/

/-- An integer is next to the quotient of two others, toward zero. -/
structure IsTruncated (m n q : Int) : Prop where
  le : |q * n| ≤ |m|
  lt : |m - q * n| < |n|
  sign : q * n = 0 ∨ (q * n).sign = m.sign

namespace IsTruncated

variable {m n p q : Int}

/-- What is taken from the dividend lies between zero and it, and what is left is less than the
    divisor. -/
theorem between (h : IsTruncated m n q) : (0 ≤ q * n ∧ q * n ≤ m ∧ m < q * n + |n|) ∨
    (m ≤ q * n ∧ q * n ≤ 0 ∧ q * n - |n| < m) := by
  obtain ⟨hle, hlt, hsign⟩ := h
  simp only [Int.abs_eq_natAbs] at *
  generalize q * n = k at *
  rcases hsign with rfl | hsign
  · omega
  · rcases Int.lt_trichotomy m 0 with hm | rfl | hm
    · rw [Int.sign_eq_neg_one_of_neg hm, Int.sign_eq_neg_one_iff_neg] at hsign
      omega
    · omega
    · rw [Int.sign_eq_one_of_pos hm, Int.sign_eq_one_iff_pos] at hsign
      omega

/-- A quotient is truncated in one way only. -/
theorem unique (hp : IsTruncated m n p) (hq : IsTruncated m n q) (hn : n ≠ 0) : p = q := by
  have hdifference : |p * n - q * n| < |n| := by
    have := hp.between
    have := hq.between
    rw [abs_lt]
    omega
  have hdvd : n ∣ p * n - q * n := ⟨p - q, by ring⟩
  have hzero := Int.eq_zero_of_abs_lt_dvd ((abs_dvd n _).2 hdvd) hdifference
  exact mul_right_cancel₀ hn (sub_eq_zero.1 hzero)

/-- Division toward zero truncates: the remainder has the sign of the dividend, if any. -/
theorem tdiv (m : Int) (hn : n ≠ 0) : IsTruncated m n (m.tdiv n) := by
  have hdivision := Int.tdiv_mul_add_tmod m n
  have hlt : (m.tmod n).natAbs < n.natAbs := by
    rw [Int.natAbs_tmod]
    exact Nat.mod_lt _ (Int.natAbs_pos.2 hn)
  have hle : (m.tmod n).natAbs ≤ m.natAbs := by
    rw [Int.natAbs_tmod]
    exact Nat.mod_le _ _
  -- The remainder has the sign of the dividend.
  have hside : 0 ≤ m ∧ 0 ≤ m.tmod n ∨ m ≤ 0 ∧ m.tmod n ≤ 0 := by
    rcases Int.le_total 0 m with hm | hm
    · exact .inl ⟨hm, Int.tmod_nonneg n hm⟩
    · have := Int.tmod_nonneg n (Int.neg_nonneg_of_nonpos hm)
      rw [Int.neg_tmod] at this
      exact .inr ⟨hm, by omega⟩
  refine ⟨?_, ?_, ?_⟩
  · simp only [Int.abs_eq_natAbs]
    omega
  · simp only [Int.abs_eq_natAbs]
    omega
  -- The product lies between zero and the dividend, so it has the sign of it or is zero.
  · rcases Int.lt_trichotomy (m.tdiv n * n) 0 with h | h | h
    · right
      rw [Int.sign_eq_neg_one_of_neg h, Int.sign_eq_neg_one_of_neg (by omega)]
    · exact .inl h
    · right
      rw [Int.sign_eq_one_of_pos h, Int.sign_eq_one_of_pos (by omega)]

end IsTruncated

namespace Value

/-- The quotient of decimals is the only number that is rounded to the scale of the dividend, and
    no multiple of the unit of that scale is nearer. -/
theorem computeDecimal_divide (a : Decimal) {b : Decimal} (hb : b.toRat ≠ 0) :
    ∃ q, computeDecimal .divide a b = .ok q ∧ q.exponent = -max (-a.exponent) 0 ∧
      (∀ r, IsRounded (a.toRat / b.toRat) r (10 ^ q.exponent) ↔ r = q.toRat) ∧
      ∀ k : ℤ, |a.toRat / b.toRat - q.toRat| ≤ |a.toRat / b.toRat - k * 10 ^ q.exponent| := by
  obtain ⟨q, hq, hexponent, hround⟩ := Decimal.divide?_isRounded (a := a) hb
  refine ⟨q, by rw [computeDecimal, hq], hexponent, fun r => ⟨fun hr => ?_, ?_⟩,
    hround.abs_sub_le_multiple⟩
  · exact hr.unique hround (Decimal.ten_zpow_pos _)
  · rintro rfl
    exact hround

/-- The quotient of integers is the only one that is truncated. -/
theorem computeInteger_divide (m : Int) {n : Int} (hn : n ≠ 0) :
    ∃ q, computeInteger .divide m n = .ok q ∧ ∀ p, IsTruncated m n p ↔ p = q := by
  refine ⟨m.tdiv n, by rw [computeInteger, if_neg hn], fun p => ⟨fun hp => ?_, ?_⟩⟩
  · exact hp.unique (.tdiv m hn) hn
  · rintro rfl
    exact .tdiv m hn

end Value

namespace Evaluation

theorem run_divide (s : State) (a b : Value) : (applyBinary (.text "/") (pure a) (pure b)).run s =
    if s.digitLimit.any (Value.quotientExceeds (.text "/") a b) then
      .error (.fault .excessiveDigits) s
    else match Value.compute .divide a b with
      | .ok v => .ok v s
      | .error h => .error h s :=
  run_applyBinary (by simp) (by simp) a b s

theorem quotientExceeds_decimal {a b : Decimal} (hb : b.toRat ≠ 0) (limit : Nat) :
    Value.quotientExceeds (.text "/") (.decimal a) (.decimal b) limit =
      (Text.exceedsDigits a.coefficient limit || Text.exceedsDigits b.coefficient limit) := by
  have hzero : b.isZero = false := by
    rw [Bool.eq_false_iff]
    exact fun h => hb (Decimal.toRat_eq_zero_iff.2 h)
  have hexceeds : Value.quotientExceeds (.text "/") (.decimal a) (.decimal b) limit =
    (!b.isZero &&
      (Text.exceedsDigits a.coefficient limit || Text.exceedsDigits b.coefficient limit)) := rfl
  rw [hexceeds, hzero]
  rfl

/-- Division by what is not zero. If the digits of a decimal are more than the host takes, there is
    no quotient. Otherwise that of decimals is the only number that is rounded to the scale of the
    dividend, and that of integers, of any size, the only one that is truncated. -/
theorem applyBinary_divide (s : State) (a b : Decimal) (m n : Int) :
    let quotient := (applyBinary (.text "/") (pure (.decimal a)) (pure (.decimal b))).run s
    let tooLong := fun limit : Nat => 10 ^ limit ≤ a.coefficient ∨ 10 ^ limit ≤ b.coefficient
    (b.toRat ≠ 0 → (∃ limit, s.digitLimit = some limit ∧ tooLong limit) →
      quotient = .error (.fault .excessiveDigits) s) ∧
    (b.toRat ≠ 0 → (∀ limit, s.digitLimit = some limit → ¬ tooLong limit) →
      ∃ q, quotient = .ok (.decimal q) s ∧ q.exponent = -max (-a.exponent) 0 ∧
        (∀ r, IsRounded (a.toRat / b.toRat) r (10 ^ q.exponent) ↔ r = q.toRat) ∧
        ∀ k : ℤ, |a.toRat / b.toRat - q.toRat| ≤ |a.toRat / b.toRat - k * 10 ^ q.exponent|) ∧
    (n ≠ 0 → ∃ q, (applyBinary (.text "/") (pure (.integer m)) (pure (.integer n))).run s =
        .ok (.integer q) s ∧ ∀ p, IsTruncated m n p ↔ p = q) := by
  intro quotient tooLong
  have hexceeds : b.toRat ≠ 0 → ∀ limit,
      (Value.quotientExceeds (.text "/") (.decimal a) (.decimal b) limit = true ↔
        tooLong limit) := by
    intro hb limit
    simp [quotientExceeds_decimal hb, Text.exceedsDigits, tooLong]
  refine ⟨fun hb ⟨limit, hlimit, hlong⟩ => ?_, fun hb hshort => ?_, fun hn => ?_⟩
  · have hany : s.digitLimit.any
        (Value.quotientExceeds (.text "/") (.decimal a) (.decimal b)) = true := by
      rw [hlimit]
      exact (hexceeds hb limit).2 hlong
    exact (run_divide s _ _).trans (if_pos hany)
  · obtain ⟨q, hq, hround⟩ := Value.computeDecimal_divide a hb
    have hany : ¬ s.digitLimit.any
        (Value.quotientExceeds (.text "/") (.decimal a) (.decimal b)) = true := by
      cases hlimit : s.digitLimit with
      | none => exact Bool.false_ne_true
      | some limit => exact fun h => hshort limit hlimit ((hexceeds hb limit).1 h)
    refine ⟨q, (run_divide s _ _).trans ?_, hround⟩
    rw [if_neg hany, Value.compute_decimal hq]
  · obtain ⟨q, hq, hround⟩ := Value.computeInteger_divide m hn
    -- An integer is divided by what it is, not by its digits.
    have hany : ¬ s.digitLimit.any
        (Value.quotientExceeds (.text "/") (.integer m) (.integer n)) = true := by
      cases s.digitLimit <;> exact Bool.false_ne_true
    refine ⟨q, (run_divide s _ _).trans ?_, hround⟩
    rw [if_neg hany, Value.compute_integer hq]

/-- Minus fifty by twenty, neither of them with places after the point: the quotient is a tie. A
    dividend of one digit more than the host takes has none. -/
theorem applyBinary_divide_tie :
    let s := State.start .standard Store.standardScope 0 (some 4300)
    let long : Decimal := ⟨false, 10 ^ 4300, -1⟩
    let twenty : Decimal := ⟨false, 2, 1⟩
    (twenty.toRat ≠ 0 ∧ s.digitLimit = some 4300) ∧
    (∃ q, (applyBinary (.text "/") (pure (.decimal ⟨true, 5, 1⟩)) (pure (.decimal twenty))).run s =
        .ok (.decimal q) s ∧ q.exponent = -max (-1) 0 ∧
      (∀ r, IsRounded (Decimal.toRat ⟨true, 5, 1⟩ / twenty.toRat) r (10 ^ q.exponent) ↔
        r = q.toRat) ∧
      ∀ k : ℤ, |Decimal.toRat ⟨true, 5, 1⟩ / twenty.toRat - q.toRat| ≤
        |Decimal.toRat ⟨true, 5, 1⟩ / twenty.toRat - k * 10 ^ q.exponent|) ∧
    ((2 : Int) ≠ 0 ∧
      ∃ q, (applyBinary (.text "/") (pure (.integer (-7))) (pure (.integer 2))).run s =
          .ok (.integer q) s ∧ ∀ p, IsTruncated (-7) 2 p ↔ p = q) ∧
    (10 ^ 4300 ≤ long.coefficient ∧
      (applyBinary (.text "/") (pure (.decimal long)) (pure (.decimal twenty))).run s =
        .error (.fault .excessiveDigits) s) := by
  intro s long twenty
  have hb : twenty.toRat ≠ 0 := mt Decimal.toRat_eq_zero_iff.1 (by decide)
  have hdigits : ∀ limit, s.digitLimit = some limit →
      ¬ (10 ^ limit ≤ (5 : Nat) ∨ 10 ^ limit ≤ twenty.coefficient) := by
    rintro limit ⟨⟩
    decide +kernel
  obtain ⟨-, hdecimals, hintegers⟩ := applyBinary_divide s ⟨true, 5, 1⟩ twenty (-7) 2
  exact ⟨⟨hb, rfl⟩, hdecimals hb hdigits, ⟨by decide, hintegers (by decide)⟩, le_rfl,
    (applyBinary_divide s long twenty 0 0).1 hb ⟨4300, rfl, .inl le_rfl⟩⟩

example : Value.compute .divide (.decimal ⟨true, 5, 1⟩) (.decimal ⟨false, 2, 1⟩) =
    .ok (.decimal ⟨true, 3, 0⟩) := rfl

end Evaluation

end Blockscript
