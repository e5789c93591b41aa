import Blockscript.Evaluation.Program
import Blockscript.Proofs.Evaluation.Results
import Blockscript.Proofs.Text.Scientific
import Blockscript.Proofs.Value.Calculation
import Blockscript.Proofs.Value.Division
import Blockscript.Proofs.Value.Native

/-!
# Equality

Equal values are the same, but for decimals that differ in the sign of a zero. No operator can
tell such values apart: whatever it is applied to, the results are equal again, or it fails in
the same way. Only their texts differ.

Characters that are no texts, and decimals that are undefined, which a document alone can hold,
are left out: these laws are not theirs.

* `Value.Equals`, `Value.equal_eq_true_iff`: what equality means;
* `Value.Agree`, `Value.apply_agree`: operators give equal results for equal operands;
* `Value.applied_agree`: so they do in every state, the logical ones included;
* `Value.display_injective`: values of a kind that have a text of their own are told apart by it,
  zeros of either sign included;
* `Value.equal_isCongruence`: equality is an equivalence that operators respect, and that of the
  texts but for the sign of a zero;
* `Value.equal_not_isCongruence`: where it is not.
-/

namespace Blockscript

/-! ### Decimals -/

namespace Decimal

variable {a a' b b' d : Decimal} {e : Int}

/-- Equal number and equal scale make an equivalence. -/
theorem same_self (d : Decimal) : d.same d = true :=
  same_iff.2 ⟨rfl, rfl⟩

theorem same_symm (h : a.same b = true) : b.same a = true := by
  rw [same_iff] at *
  exact ⟨h.1.symm, h.2.symm⟩

theorem same_trans (hab : a.same b = true) (hbd : b.same d = true) : a.same d = true := by
  rw [same_iff] at *
  exact ⟨hab.1.trans hbd.1, hab.2.trans hbd.2⟩

/-- Two zeros of one scale are equal, whatever their signs are. -/
theorem same_of_isZero (ha : a.isZero = true) (hb : b.isZero = true)
    (h : a.exponent = b.exponent) : a.same b = true :=
  same_iff.2 ⟨by rw [toRat_eq_zero_iff.2 ha, toRat_eq_zero_iff.2 hb], h⟩

/-- A number equals zero in any scale, or in none. -/
theorem isZero_congr (h : a.same b = true) : a.isZero = b.isZero := by
  rw [Bool.eq_iff_iff, ← toRat_eq_zero_iff, ← toRat_eq_zero_iff, (same_iff.1 h).1]

/-- Whether a number has too many zeros depends on its scale, and on whether it is zero. -/
theorem isFarAbove_congr (h : a.same b = true) (e : Int) : a.isFarAbove e = b.isFarAbove e := by
  rw [isFarAbove, isFarAbove, isZero_congr h, (same_iff.1 h).2]

/-- Equal numbers are ordered alike. -/
theorem lt_congr (ha : a.same a' = true) (hb : b.same b' = true) : a.lt b = a'.lt b' := by
  rw [Bool.eq_iff_iff, lt_iff, lt_iff, (same_iff.1 ha).1, (same_iff.1 hb).1]

theorem same_congr (ha : a.same a' = true) (hb : b.same b' = true) : a.same b = a'.same b' := by
  rw [Bool.eq_iff_iff, same_iff, same_iff, (same_iff.1 ha).1, (same_iff.1 hb).1,
    (same_iff.1 ha).2, (same_iff.1 hb).2]

/-- The sum of equal numbers has the same number and the finer scale. -/
theorem same_add (ha : a.same a' = true) (hb : b.same b' = true) :
    (a.add b).same (a'.add b') = true := by
  rw [same_iff] at *
  rw [toRat_add, toRat_add, add_exponent, add_exponent, ha.1, ha.2, hb.1, hb.2]
  exact ⟨rfl, rfl⟩

theorem same_neg (h : a.same b = true) : a.neg.same b.neg = true := by
  rw [same_iff] at *
  exact ⟨by rw [toRat_neg, toRat_neg, h.1], h.2⟩

/-- The product of equal numbers has the same number and the sum of the scales. -/
theorem same_mul (ha : a.same a' = true) (hb : b.same b' = true) :
    (a.mul b).same (a'.mul b') = true := by
  rw [same_iff] at *
  rw [toRat_mul, toRat_mul, ha.1, hb.1]
  exact ⟨rfl, congrArg₂ (· + ·) ha.2 hb.2⟩

theorem tenToBeside_pos (bound : Nat) (e : Int) : 0 < tenToBeside bound e := by
  rcases tenToBeside_eq_or bound e with h | ⟨h, -⟩
  · rw [h]
    exact tenTo_pos e
  · omega

/-- Zero is rounded to zero in any unit. -/
theorem divideHalfEven_zero {n : Nat} (h : 0 < n) : divideHalfEven 0 n = 0 := by
  simp [divideHalfEven, h]

/-- A zero is brought into range by its scale, whatever its sign. -/
theorem exists_fit?_zero (e : Int) : ∃ f, ∀ s, fit? ⟨s, 0, e⟩ = some ⟨s, 0, f⟩ := by
  by_cases hfine : e < leastExponent
  · refine ⟨leastExponent, fun s => ?_⟩
    rw [fit?, if_pos hfine]
    simp only [divideHalfEven_zero (tenToBeside_pos _ _)]
  · have hsign : ∀ s, inRange ⟨s, 0, e⟩ = inRange ⟨false, 0, e⟩ := fun _ => rfl
    by_cases hrange : inRange ⟨false, 0, e⟩ = true
    · exact ⟨e, fun s => by rw [fit?, if_neg hfine, hsign, if_pos hrange]⟩
    · exact ⟨greatestExponent, fun s => by
        rw [fit?, if_neg hfine, hsign, if_neg hrange, if_pos (isZero_iff.2 rfl)]⟩

end Decimal

/-! ### Agreement -/

namespace Value

open Evaluation (applyBinary display logicalOperand run_applyBinary run_display shortCircuit
  valueOf)

/-- Two computations end alike: with results that are related, or for the same reason. -/
inductive Agree {α : Type} (R : α → α → Prop) : Except Halt α → Except Halt α → Prop
  | ok {u v : α} : R u v → Agree R (.ok u) (.ok v)
  | error (h : Halt) : Agree R (.error h) (.error h)

/-- What goes on alike from related results agrees. -/
theorem Agree.bind {α β : Type} {R : α → α → Prop} {S : β → β → Prop} {x y : Except Halt α}
    {f g : α → Except Halt β} (h : Agree R x y) (hf : ∀ u v, R u v → Agree S (f u) (g v)) :
    Agree S (x >>= f) (y >>= g) := by
  cases h with
  | ok h => exact hf _ _ h
  | error h => exact .error h

/-- A step agrees with itself if its result is related to itself. -/
theorem Agree.self {α : Type} {R : α → α → Prop} {x : Except Halt α}
    (h : ∀ u, x = .ok u → R u u) : Agree R x x := by
  cases x with
  | ok u => exact .ok (h u rfl)
  | error halt => exact .error halt

/-- Results may be related in a weaker way, which only matters for those that there are. -/
theorem Agree.mono {α : Type} {R S : α → α → Prop} {x y : Except Halt α} (h : Agree R x y)
    (hmono : ∀ u v, x = .ok u → y = .ok v → R u v → S u v) : Agree S x y := by
  cases h with
  | ok h => exact .ok (hmono _ _ rfl rfl h)
  | error h => exact .error h

/-! ### Operations on decimals -/

section Decimals

variable {a a' b b' : Decimal}

/-- Equal decimals are brought into range alike. -/
theorem fitDecimal_agree (h : a.same b = true) :
    Agree (fun x y => x.same y = true) (fitDecimal a) (fitDecimal b) := by
  rcases Decimal.eq_or_isZero_of_same h with rfl | ⟨ha, hb⟩
  · exact .self fun u _ => Decimal.same_self u
  · -- Zeros are brought into range by their scale alone, and keep their signs.
    obtain ⟨s, m, e⟩ := a
    obtain ⟨t, n, f⟩ := b
    obtain rfl : m = 0 := Decimal.isZero_iff.1 ha
    obtain rfl : n = 0 := Decimal.isZero_iff.1 hb
    obtain rfl : e = f := (Decimal.same_iff.1 h).2
    obtain ⟨g, hfit⟩ := Decimal.exists_fit?_zero e
    rw [fitDecimal, fitDecimal, hfit, hfit]
    exact .ok (Decimal.same_of_isZero rfl rfl rfl)

/-- Equal numbers are refused alike before they are added. -/
theorem checkDigits_congr (ha : a.same a' = true) (hb : b.same b' = true) :
    checkDigits a b = checkDigits a' b' := by
  rw [checkDigits, checkDigits, Decimal.isFarAbove_congr ha, Decimal.isFarAbove_congr hb,
    (Decimal.same_iff.1 ha).2, (Decimal.same_iff.1 hb).2]

/-- Rounded quotients of the same number are the same, in the same scale. -/
theorem divide?_agree (ha : a.same a' = true) (hb : b.same b' = true) :
    Agree (fun x y => x.same y = true) (computeDecimal .divide a b)
      (computeDecimal .divide a' b') := by
  rw [computeDecimal, computeDecimal]
  have hzero := Decimal.isZero_congr hb
  rw [Decimal.same_iff] at ha hb
  by_cases hb0 : b.toRat = 0
  · have hz := Decimal.toRat_eq_zero_iff.1 hb0
    rw [Decimal.divide?, if_pos hz, Decimal.divide?, if_pos (hzero ▸ hz)]
    exact .error _
  · obtain ⟨q, hq, hexponent, hround⟩ := Decimal.divide?_isRounded (a := a) hb0
    obtain ⟨q', hq', hexponent', hround'⟩ := Decimal.divide?_isRounded (a := a') (hb.1 ▸ hb0)
    -- There is only one number that is rounded from the same one to the same scale.
    rw [← ha.2, ← hexponent] at hexponent'
    rw [← ha.1, ← hb.1, hexponent'] at hround'
    rw [hq, hq']
    exact .ok (Decimal.same_iff.2
      ⟨hround.unique hround' (Decimal.ten_zpow_pos _), hexponent'.symm⟩)

/-- Operations cannot tell equal decimals apart. -/
theorem computeDecimal_agree (o : Arithmetic) (ha : a.same a' = true) (hb : b.same b' = true) :
    Agree (fun x y => x.same y = true) (computeDecimal o a b) (computeDecimal o a' b') := by
  cases o with
  | add =>
    rw [computeDecimal, computeDecimal, checkDigits_congr ha hb]
    exact Agree.bind (.self fun _ _ => rfl) fun _ _ _ => fitDecimal_agree (Decimal.same_add ha hb)
  | subtract =>
    rw [computeDecimal, computeDecimal, checkDigits_congr ha hb]
    exact Agree.bind (.self fun _ _ => rfl) fun _ _ _ =>
      fitDecimal_agree (Decimal.same_add ha (Decimal.same_neg hb))
  | multiply => exact fitDecimal_agree (Decimal.same_mul ha hb)
  | divide => exact divide?_agree ha hb

end Decimals

/-! ### Equal values -/

/-- Two values are the same, or decimals that are. -/
inductive Equals : Value → Value → Prop
  | refl (v : Value) : Equals v v
  | decimal {x y : Decimal} : x.same y = true → Equals (.decimal x) (.decimal y)

variable {a a' b b' c : Value}

/-- Equal values are related by cases: two decimals, or twice the same value. -/
theorem Equals.symm (h : Equals a b) : Equals b a := by
  cases h with
  | refl _ => exact .refl _
  | decimal h => exact .decimal (Decimal.same_symm h)

theorem Equals.trans (hab : Equals a b) (hbc : Equals b c) : Equals a c := by
  cases hab with
  | refl _ => exact hbc
  | decimal h =>
    cases hbc with
    | refl _ => exact .decimal h
    | decimal h' => exact .decimal (Decimal.same_trans h h')

/-- Equal values are of the same kind. -/
theorem Equals.kind_eq (h : Equals a b) : a.kind = b.kind := by
  cases h <;> rfl

/-- The test of equality is right when its left side is a value of the language. -/
theorem sameContent_iff (ha : a.IsNative) : sameContent a b = true ↔ Equals a b := by
  constructor
  · intro h
    unfold sameContent at h
    split at h
    · exact .refl _
    · exact eq_of_beq h ▸ .refl _
    · exact eq_of_beq h ▸ .refl _
    · exact .decimal h
    · exact eq_of_beq h ▸ .refl _
    · exact eq_of_beq h ▸ .refl _
    · exact eq_of_beq h ▸ .refl _
    · exact eq_of_beq h ▸ .refl _
    · exact eq_of_beq h ▸ .refl _
    · exact ha.elim
    · cases h
  -- A native value has the content of itself; NaN and foreign payloads, which have not, are none.
  · rintro (_ | h)
    · cases a with
      | foreign _ => exact ha.elim
      | foreignCharacter _ => exact ha.elim
      | decimal d => exact Decimal.same_self d
      | special s =>
        cases s with
        | infinite _ => exact beq_self_eq_true _
        | undefined _ _ _ => exact ha.elim
      | nil => rfl
      | _ => exact beq_self_eq_true _
    · exact h

/-- Equality gives `TRUE` just for equal values. That it asks for their kinds first makes no
    difference, as all values of the language have one. -/
theorem equal_eq_true_iff (ha : a.IsNative) (hb : b.IsNative) :
    a.equal b = .ok true ↔ Equals a b := by
  rw [equal_eq ha hb, Except.ok.injEq, sameContent_iff ha]

/-! ### Operators -/

/-- Two operands and their equals: they are all decimals, or those that are none stay what they
    are. -/
theorem Equals.pair_induction {P : Value → Value → Value → Value → Prop}
    (refl : ∀ a b, P a b a b)
    (decimals : ∀ {x x' y y' : Decimal}, x.same x' = true → y.same y' = true →
      P (.decimal x) (.decimal y) (.decimal x') (.decimal y'))
    (left : ∀ x x', x.same x' = true → ∀ b, (∀ y, b ≠ .decimal y) →
      P (.decimal x) b (.decimal x') b)
    (right : ∀ a y y', y.same y' = true → (∀ x, a ≠ .decimal x) →
      P a (.decimal y) a (.decimal y'))
    (ha : Equals a a') (hb : Equals b b') : P a b a' b' := by
  cases ha with
  | refl a =>
    cases hb with
    | refl b => exact refl a b
    | decimal hb =>
      cases a with
      | decimal x => exact decimals (Decimal.same_self x) hb
      | _ => exact right _ _ _ hb nofun
  | decimal ha =>
    cases hb with
    | refl b =>
      cases b with
      | decimal y => exact decimals ha (Decimal.same_self y)
      | _ => exact left _ _ ha _ nofun
    | decimal hb => exact decimals ha hb

/-- Equality itself does not tell equal values apart. -/
theorem equal_congr (ha : Equals a a') (hb : Equals b b') : a.equal b = a'.equal b' := by
  refine Equals.pair_induction (P := fun a b a' b' => a.equal b = a'.equal b') (fun _ _ => rfl)
    (fun hx hy => congrArg Except.ok (Decimal.same_congr hx hy)) ?_ ?_ ha hb
  · intro x x' _ b hb
    cases b with
    | decimal y => exact absurd rfl (hb y)
    | special s => cases s <;> rfl
    | _ => rfl
  · intro a y y' _ ha
    cases a with
    | decimal x => exact absurd rfl (ha x)
    | special s => cases s <;> rfl
    | _ => rfl

theorem compare_decimal (c : Comparison) (x y : Decimal) :
    compare c (.decimal x) (.decimal y) = .ok (c.holds (.ofTests (x.lt y) (y.lt x))) :=
  rfl

/-- No comparison tells equal values apart. -/
theorem compare_congr (c : Comparison) (ha : Equals a a') (hb : Equals b b') :
    compare c a b = compare c a' b' := by
  refine Equals.pair_induction (P := fun a b a' b' => compare c a b = compare c a' b')
    (fun _ _ => rfl) (fun hx hy => ?_) ?_ ?_ ha hb
  · rw [compare_decimal, compare_decimal, Decimal.lt_congr hx hy, Decimal.lt_congr hy hx]
  · intro x x' _ b hb
    cases b with
    | decimal y => exact absurd rfl (hb y)
    | special s => cases s <;> rfl
    | _ => rfl
  · intro a y y' _ ha
    cases a with
    | decimal x => exact absurd rfl (ha x)
    | special s => cases s <;> rfl
    | _ => rfl

/-- Beside a decimal that is no number, equal decimals count as the same: their signs matter in
    products only, and there only if they are not zero. -/
theorem computeSpecial_congr (o : Arithmetic) {x x' : Decimal} (h : x.same x' = true)
    (s : Special) :
    computeSpecial o (.decimal x) (.special s) = computeSpecial o (.decimal x') (.special s) ∧
      computeSpecial o (.special s) (.decimal x) = computeSpecial o (.special s) (.decimal x') := by
  rcases Decimal.eq_or_isZero_of_same h with rfl | ⟨hx, hx'⟩
  · exact ⟨rfl, rfl⟩
  · cases o <;> cases s <;>
      simp [computeSpecial, computeInfinite, addInfinities, infinity?, isZero, isSignaling,
        isUndefined, hx, hx']

/-- A number and what is none are computed with as if neither was one. -/
theorem compute_special_right (o : Arithmetic) (x : Decimal) (s : Special) :
    compute o (.decimal x) (.special s) = computeSpecial o (.decimal x) (.special s) := by
  cases o <;> rfl

theorem compute_special_left (o : Arithmetic) (s : Special) (y : Decimal) :
    compute o (.special s) (.decimal y) = computeSpecial o (.special s) (.decimal y) := by
  cases o <;> rfl

/-- No operation tells equal values apart: sums, differences and products of equal numbers are
    equal, and a division depends on number and scale of both. -/
theorem compute_agree (o : Arithmetic) (ha : Equals a a') (hb : Equals b b') :
    Agree Equals (compute o a b) (compute o a' b') := by
  refine Equals.pair_induction
    (P := fun a b a' b' => Agree Equals (compute o a b) (compute o a' b'))
    (fun _ _ => .self fun _ _ => .refl _) (fun hx hy => ?_) ?_ ?_ ha hb
  · exact (computeDecimal_agree o hx hy).bind fun _ _ h => .ok (.decimal h)
  · intro x x' hx b hb
    cases b with
    | decimal y => exact absurd rfl (hb y)
    | special s =>
      rw [compute_special_right, compute_special_right, (computeSpecial_congr o hx s).1]
      exact .self fun _ _ => .refl _
    | _ => cases o <;> exact .error _
  · intro a y y' hy ha
    cases a with
    | decimal x => exact absurd rfl (ha x)
    | special s =>
      rw [compute_special_left, compute_special_left, (computeSpecial_congr o hy s).2]
      exact .self fun _ _ => .refl _
    | _ => cases o <;> exact .error _

/-- Operators give equal results for equal operands, or fail for the same reason. -/
theorem apply_agree (operator : Label) (ha : Equals a a') (hb : Equals b b') :
    Agree Equals (apply operator a b) (apply operator a' b') := by
  rw [apply, apply]
  cases Operator.ofLabel? operator with
  | none =>
    rw [ha.kind_eq]
    exact .self fun _ _ => .refl _
  | some o =>
    cases o with
    | equal =>
      simp only [equal_congr ha hb]
      exact .self fun _ _ => .refl _
    | unequal =>
      simp only [equal_congr ha hb]
      exact .self fun _ _ => .refl _
    | comparison c =>
      simp only [compare_congr c ha hb]
      exact .self fun _ _ => .refl _
    | arithmetic o => exact compute_agree o ha hb

/-- What an operator gives for two values in a state. -/
def applied (s : State) (operator : Label) (a b : Value) : Except Halt Value :=
  valueOf ((applyBinary operator (pure a) (pure b)).run s)

/-- The logical operators take booleans, which equal nothing but themselves. -/
theorem shortCircuit_congr (operator : String) (needed : Bool) (ha : Equals a a')
    (hb : Equals b b') : shortCircuit operator needed (pure a) (pure b) =
      shortCircuit operator needed (pure a') (pure b') := by
  refine Equals.pair_induction (P := fun a b a' b' =>
    shortCircuit operator needed (pure a) (pure b) =
      shortCircuit operator needed (pure a') (pure b'))
    (fun _ _ => rfl) (fun _ _ => rfl) (fun _ _ _ _ _ => rfl) ?_ ha hb
  -- A decimal on the right is looked at only if the left operand is a boolean that asks for it.
  intro a y y' _ ha
  cases a with
  | boolean c => cases c <;> cases needed <;> rfl
  | _ => rfl

/-- Equal decimals have the same digits, as their scales are the same. -/
theorem Equals.coefficient?_eq (h : Equals a b) : a.coefficient? = b.coefficient? := by
  cases h with
  | refl _ => rfl
  | decimal h =>
    rcases Decimal.eq_or_isZero_of_same h with rfl | ⟨hx, hy⟩
    · rfl
    · rw [coefficient?, coefficient?, Decimal.isZero_iff.1 hx, Decimal.isZero_iff.1 hy]

theorem Equals.isZero_eq (h : Equals a b) : a.isZero = b.isZero := by
  cases h with
  | refl _ => rfl
  | decimal h => exact Decimal.isZero_congr h

/-- Equal decimals have the same digits, so that both have too many of them or neither. -/
theorem quotientExceeds_congr (operator : Label) (ha : Equals a a') (hb : Equals b b') :
    quotientExceeds operator a b = quotientExceeds operator a' b' := by
  funext limit
  rw [quotientExceeds, quotientExceeds, ha.coefficient?_eq, hb.coefficient?_eq, hb.isZero_eq]

/-- A logical operator looks at its operands in turn. All other operators are applied to both
    values, unless a quotient asks for too many digits. -/
theorem applied_eq_or (s : State) (operator : Label) :
    (∃ name needed, ∀ a b, applied s operator a b =
      valueOf ((shortCircuit name needed (pure a) (pure b)).run s)) ∨
    ∀ a b, applied s operator a b =
      if s.digitLimit.any (quotientExceeds operator a b) then .error (.fault .excessiveDigits)
      else apply operator a b := by
  by_cases hand : operator = .text "&&"
  · subst hand
    exact .inl ⟨"&&", true, fun _ _ => rfl⟩
  by_cases hor : operator = .text "||"
  · subst hor
    exact .inl ⟨"||", false, fun _ _ => rfl⟩
  refine .inr fun a b => ?_
  rw [applied, run_applyBinary hand hor]
  split
  · rfl
  · cases apply operator a b <;> rfl

/-- Equal operands give equal results in every state, or the same failure. -/
theorem applied_agree (s : State) (operator : Label) (ha : Equals a a') (hb : Equals b b') :
    Agree Equals (applied s operator a b) (applied s operator a' b') := by
  rcases applied_eq_or s operator with ⟨name, needed, heq⟩ | heq
  · rw [heq, heq, shortCircuit_congr name needed ha hb]
    exact .self fun _ _ => .refl _
  · rw [heq, heq, quotientExceeds_congr operator ha hb]
    split
    · exact .error _
    · exact apply_agree operator ha hb

/-- The logical operators give booleans. -/
theorem isNative_of_shortCircuit {s : State} {name : String} {needed : Bool} {v : Value}
    (h : valueOf ((shortCircuit name needed (pure a) (pure b)).run s) = .ok v) : v.IsNative := by
  -- Whichever operand decides, the answer is a boolean.
  rw [shortCircuit, pure_bind, EStateM.run_bind] at h
  cases hleft : (logicalOperand "left" name a).run s with
  | error _ _ =>
    rw [hleft] at h
    cases h
  | ok c t =>
    rw [hleft] at h
    by_cases hc : c = needed
    · simp only [if_pos hc] at h
      rw [pure_bind, EStateM.run_bind] at h
      cases hright : (logicalOperand "right" name b).run t with
      | error _ _ =>
        rw [hright] at h
        cases h
      | ok d u =>
        rw [hright] at h
        obtain rfl := Except.ok.inj h
        trivial
    · simp only [if_neg hc] at h
      obtain rfl := Except.ok.inj h
      trivial

/-- What an operator gives is a value of the language, as long as its operands are not undefined. -/
theorem isNative_of_applied {s : State} {operator : Label} {v : Value}
    (ha : a.isUndefined = false) (hb : b.isUndefined = false)
    (h : applied s operator a b = .ok v) : v.IsNative := by
  rcases applied_eq_or s operator with ⟨name, needed, heq⟩ | heq
  · rw [heq] at h
    exact isNative_of_shortCircuit h
  · rw [heq] at h
    split at h
    · cases h
    · exact isNative_of_apply ha hb h

/-- Both give values that are equal in the language, or fail for the same reason. -/
abbrev EndEqual (x y : Except Halt Value) : Prop :=
  Agree (fun u v => u.equal v = .ok true) x y

theorem Equals.isUndefined_eq (h : Equals a b) : a.isUndefined = b.isUndefined := by
  cases h <;> rfl

/-- Equal operands end every operator alike: with values that are equal in the language, or for the
    same reason. -/
theorem applied_endEqual (s : State) (operator : Label) (ha : Equals a a') (hb : Equals b b')
    (hda : a.isUndefined = false) (hdb : b.isUndefined = false) :
    EndEqual (applied s operator a b) (applied s operator a' b') := by
  have hda' := ha.isUndefined_eq ▸ hda
  have hdb' := hb.isUndefined_eq ▸ hdb
  exact (applied_agree s operator ha hb).mono fun _ _ hu hv h =>
    (equal_eq_true_iff (isNative_of_applied hda hdb hu) (isNative_of_applied hda' hdb' hv)).2 h

/-! ### Texts -/

/-- A value whose text shows all of it but its kind. A decimal with a positive exponent is
    written with zeros that do not show the scale. -/
def HasOwnText : Value → Prop
  | .nil => True
  | .boolean _ => True
  | .integer _ => True
  | .decimal d => d.exponent ≤ 0
  | .character _ => True
  | .string _ => True
  | _ => False

/-- Two zeros of one scale, of which one is negative. -/
def AreOppositeZeros (a b : Value) : Prop :=
  ∃ negative e, a = .decimal ⟨negative, 0, e⟩ ∧ b = .decimal ⟨!negative, 0, e⟩

/-- An integer is read back from its written form. -/
theorem readInteger?_writeInteger (i : Int) :
    Text.readInteger? (Text.writeInteger i) = some i := by
  obtain ⟨sign, digits, heq, hsign, hdigits, hvalue, -⟩ := Text.exists_writeInteger i
  rw [heq, Text.readInteger?_append hsign hdigits, hvalue]

/-- A decimal without a positive exponent has a text, as all of its digits are there. -/
theorem display_decimal (s : Store) {d : Decimal} (h : d.exponent ≤ 0) :
    s.display (.decimal d) = .ok (String.ofList d.plain) := by
  rw [Store.display, Decimal.isFarAbove_of_isWithinReach (.inr (.inl h))]
  rfl

theorem HasOwnText.exists_display (s : Store) (ha : a.HasOwnText) :
    ∃ t, s.display a = .ok t := by
  cases a with
  | decimal d => exact ⟨_, display_decimal s ha⟩
  | function _ => exact ha.elim
  | object _ => exact ha.elim
  | foreign _ => exact ha.elim
  | foreignCharacter _ => exact ha.elim
  | _ => exact ⟨_, rfl⟩

/-- Values of one kind are told apart by their texts, as these can be read back. -/
theorem display_injective {s : Store} (ha : a.HasOwnText) (hb : b.HasOwnText)
    (hkind : a.kind = b.kind) (h : s.display a = s.display b) : a = b := by
  cases a with
  | nil => cases b <;> cases hkind; rfl
  | boolean x =>
    cases b <;> cases hkind
    cases x <;> rename_i y <;> cases y <;> simp [Store.display] at h ⊢
  | integer i =>
    cases b <;> cases hkind
    rename_i j
    have htexts := String.ofList_injective (Except.ok.inj h)
    have hread := readInteger?_writeInteger i
    rw [htexts, readInteger?_writeInteger] at hread
    rw [Option.some.inj hread]
  | decimal x =>
    cases b <;> cases hkind
    · rename_i y
      rw [display_decimal s ha, display_decimal s hb] at h
      have htexts := String.ofList_injective (Except.ok.inj h)
      -- What is read back is the decimal itself, with its scale and the sign of a zero.
      have hread := Decimal.readAny?_plain ha
      rw [htexts, Decimal.readAny?_plain hb] at hread
      rw [Option.some.inj hread]
    · exact hb.elim
  | character x =>
    cases b <;> cases hkind
    · exact congrArg Value.character (Except.ok.inj h)
    · exact hb.elim
  | string x =>
    cases b <;> cases hkind
    exact congrArg Value.string (Except.ok.inj h)
  | _ => exact ha.elim

/-- Zeros of opposite sign are equal in the language. -/
theorem AreOppositeZeros.equals (h : AreOppositeZeros a b) : Equals a b := by
  obtain ⟨negative, e, rfl, rfl⟩ := h
  exact .decimal (Decimal.same_of_isZero rfl rfl rfl)

/-- Zeros of opposite sign are not the same value. -/
theorem AreOppositeZeros.ne (h : AreOppositeZeros a b) : a ≠ b := by
  obtain ⟨negative, e, rfl, rfl⟩ := h
  cases negative <;> simp

/-- Equal values are one and the same, or zeros that differ in sign. -/
theorem Equals.eq_or_areOppositeZeros (h : Equals a b) : a = b ∨ AreOppositeZeros a b := by
  cases h with
  | refl _ => exact .inl rfl
  | @decimal x y h =>
    rcases Decimal.eq_or_isZero_of_same h with rfl | ⟨hx, hy⟩
    · exact .inl rfl
    · obtain ⟨s, m, e⟩ := x
      obtain ⟨t, n, f⟩ := y
      obtain rfl : m = 0 := Decimal.isZero_iff.1 hx
      obtain rfl : n = 0 := Decimal.isZero_iff.1 hy
      obtain rfl : e = f := (Decimal.same_iff.1 h).2
      by_cases hsign : s = t
      · exact .inl (by rw [hsign])
      · exact .inr ⟨s, e, rfl, by rw [Bool.eq_not_of_ne (Ne.symm hsign)]⟩

/-- Values of a kind are equal if they have the same text, or are zeros that differ in sign,
    which have not. -/
theorem display_eq_iff (s : Store) (ha : a.HasOwnText) (hb : b.HasOwnText)
    (hkind : a.kind = b.kind) : (Equals a b ↔ s.display a = s.display b ∨ AreOppositeZeros a b) ∧
      (AreOppositeZeros a b → s.display a ≠ s.display b) := by
  refine ⟨⟨fun h => ?_, ?_⟩, fun hzeros h => hzeros.ne (display_injective ha hb hkind h)⟩
  · rcases h.eq_or_areOppositeZeros with rfl | hzeros
    · exact .inl rfl
    · exact .inr hzeros
  · rintro (h | hzeros)
    · rw [display_injective ha hb hkind h]
      exact .refl _
    · exact hzeros.equals

/-- The text that is found in a state, if there is one. -/
theorem run_display_eq_ok {s : State} {t : String} (h : (display a).run s = .ok t s) :
    s.store.display a = .ok t := by
  rw [run_display] at h
  cases htext : s.display a with
  | ok u =>
    rw [htext] at h
    cases h
    exact State.display_eq_ok htext
  | error _ =>
    rw [htext] at h
    cases h

/-- A value with a text of its own has one at a run, if the host takes as many digits. -/
theorem HasOwnText.run_display (s : State) (ha : a.HasOwnText)
    (hdigits : s.digitLimit.any a.textExceeds = false) :
    ∃ t, (Evaluation.display a).run s = .ok t s := by
  obtain ⟨t, ht⟩ := ha.exists_display s.store
  refine ⟨t, ?_⟩
  rw [Evaluation.run_display, State.display, hdigits, ht]
  rfl

/-- Equality of the values of the language is total, an equivalence, and respected by all
    operators in all states, beside every value that is not undefined. It is that of the texts for
    values of one kind whose texts show them, but for zeros of different sign; all of these have
    texts but integers of more digits than the host writes. -/
theorem equal_isCongruence {a b c : Value} (ha : a.IsNative) (hb : b.IsNative)
    (hc : c.IsNative) :
    (∃ r, a.equal b = .ok r) ∧
    a.equal a = .ok true ∧
    (a.equal b = .ok true → b.equal a = .ok true) ∧
    (a.equal b = .ok true → b.equal c = .ok true → a.equal c = .ok true) ∧
    (a.equal b = .ok true → ∀ d : Value, d.isUndefined = false → ∀ (s : State) (operator : Label),
      EndEqual (applied s operator a d) (applied s operator b d) ∧
        EndEqual (applied s operator d a) (applied s operator d b)) ∧
    ∀ s : State, (a.HasOwnText → s.digitLimit.any a.textExceeds = false →
        ∃ t, (display a).run s = .ok t s) ∧
      ∀ t u, a.HasOwnText → b.HasOwnText → a.kind = b.kind →
        (display a).run s = .ok t s → (display b).run s = .ok u s →
          (a.equal b = .ok true ↔ t = u ∨ AreOppositeZeros a b) ∧
          (AreOppositeZeros a b → t ≠ u) := by
  rw [equal_eq_true_iff ha ha, equal_eq_true_iff ha hb, equal_eq_true_iff hb ha,
    equal_eq_true_iff hb hc, equal_eq_true_iff ha hc]
  refine ⟨⟨_, equal_eq ha hb⟩, .refl a, .symm, .trans, fun h d hd s operator => ?_,
    fun s => ⟨(·.run_display s), fun t u hatext hbtext hkind hta hub => ?_⟩⟩
  · exact ⟨applied_endEqual s operator h (.refl d) ha.isUndefined_eq hd,
      applied_endEqual s operator (.refl d) h hd ha.isUndefined_eq⟩
  · have htexts := display_eq_iff s.store hatext hbtext hkind
    simpa only [run_display_eq_ok hta, run_display_eq_ok hub, Ne, Except.ok.injEq] using htexts

/-- Zero with a place after the point, and its negative: no sum, no quotient and no product with
    an infinity tells them apart, but their texts do. -/
theorem equal_isCongruence_zero :
    let a : Value := .decimal ⟨false, 0, -1⟩
    let b : Value := .decimal ⟨true, 0, -1⟩
    let infinity : Value := .special (.infinite false)
    let s := State.start .standard Store.standardScope 0 (some 4300)
    (a.IsNative ∧ b.IsNative ∧ infinity.IsNative ∧ infinity.isUndefined = false) ∧
    (a.equal b = .ok true ∧ b.equal a = .ok true ∧ a.equal a = .ok true) ∧
    EndEqual (applied s (.text "+") a a) (applied s (.text "+") b a) ∧
    EndEqual (applied s (.text "/") a a) (applied s (.text "/") a b) ∧
    EndEqual (applied s (.text "*") a infinity) (applied s (.text "*") b infinity) ∧
    (a.HasOwnText ∧ b.HasOwnText ∧ a.kind = b.kind ∧ AreOppositeZeros a b ∧
      ∃ t u, (display a).run s = .ok t s ∧ (display b).run s = .ok u s ∧ t ≠ u) := by
  intro a b infinity s
  obtain ⟨-, -, hsymm, htrans, hcongr, htexts⟩ :=
    equal_isCongruence (a := a) (b := b) (c := a) trivial trivial trivial
  have hab : a.equal b = .ok true := rfl
  have hba := hsymm hab
  have hzeros : AreOppositeZeros a b := ⟨false, -1, rfl, rfl⟩
  have hfine : ((-1 : Int) ≤ 0) := by decide
  obtain ⟨t, ht⟩ := (htexts s).1 hfine rfl
  obtain ⟨u, hu⟩ := HasOwnText.run_display (a := b) s hfine rfl
  have hne := ((htexts s).2 t u hfine hfine rfl ht hu).2 hzeros
  exact ⟨⟨trivial, trivial, trivial, rfl⟩, ⟨hab, hba, htrans hab hba⟩,
    (hcongr hab a rfl s _).1, (hcongr hab a rfl s _).2, (hcongr hab infinity rfl s _).1,
    hfine, hfine, rfl, hzeros, t, u, ht, hu, hne⟩

/-- What is undefined is not equal to itself, or not compared at all. The characters that hold the
    integer one and `true` are equal, although their texts are not. An integer of as many digits
    as a host does not write is equal to itself and has no text. -/
theorem equal_not_isCongruence :
    let undefined : Value := .special (.undefined false false 0)
    let signaling : Value := .special (.undefined true false 0)
    let one : Value := .foreignCharacter (.integer 1)
    let true' : Value := .foreignCharacter (.boolean true)
    let long : Value := .integer (10 ^ 4300)
    let s := State.start .standard Store.standardScope 0 (some 4300)
    (undefined.kind = .ok .decimal ∧ undefined.equal undefined = .ok false) ∧
    (signaling.kind = .ok .decimal ∧
      signaling.equal signaling = .error (.fault .invalidOperation)) ∧
    (one.kind = .ok .character ∧ true'.kind = .ok .character ∧ one.equal true' = .ok true ∧
      (display one).run s = .ok "1" s ∧ (display true').run s = .ok "True" s) ∧
    (long.kind = .ok .integer ∧ long.equal long = .ok true ∧
      (display long).run s = .error (.fault .excessiveDigits) s) := by
  intro undefined signaling one true' long s
  have hone : sameContent one true' = true := by decide +kernel
  have hlong : s.digitLimit.any long.textExceeds = true := by decide +kernel
  refine ⟨⟨rfl, rfl⟩, ⟨rfl, rfl⟩, ⟨rfl, rfl, congrArg Except.ok hone, rfl, rfl⟩, rfl, ?_, ?_⟩
  · exact congrArg Except.ok (beq_self_eq_true _)
  · rw [run_display, State.display, if_pos hlong]

end Value

end Blockscript
