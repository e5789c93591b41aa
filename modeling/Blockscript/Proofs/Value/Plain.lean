import Blockscript.Proofs.Value.Native

/-!
# Plain values

A *plain* value is one of those that literals of a program denote: it has a kind, and
is neither a function nor an object. Decimals have places after the point, which keeps
them away from all bounds of their range but the finest scale. An error is *proper* if
a program is answerable for it; the other two errors are caused by foreign values and
by operators that there are not.

* `Value.IsPlain`, `RuntimeError.IsProper`, `Halt.IsProper`: these notions;
* `Decimal.fit?_of_exponent_le`, …: decimals with places after the point keep them;
* `Value.yields_apply`: an operator makes plain values of plain values, or a proper
  error;
* `Value.ends_apply`, `Value.apply_eq_or`: no operator takes steps that are counted.
-/

namespace Blockscript

/-- A value that is of a kind that literals have. A decimal has places after the
    point, and a character is exactly one. -/
def Value.IsPlain : Value → Prop
  | .nil => True
  | .boolean _ => True
  | .integer _ => True
  | .decimal d => d.exponent ≤ -1
  | .special _ => False
  | .character s => s.length = 1
  | .string _ => True
  | .function _ => False
  | .object _ => False
  | .foreign _ => False
  | .foreignCharacter _ => False

instance Value.decidableIsPlain : DecidablePred Value.IsPlain
  | .nil => .isTrue trivial
  | .boolean _ => .isTrue trivial
  | .integer _ => .isTrue trivial
  | .decimal d => inferInstanceAs (Decidable (d.exponent ≤ -1))
  | .special _ => .isFalse id
  | .character s => inferInstanceAs (Decidable (s.length = 1))
  | .string _ => .isTrue trivial
  | .function _ => .isFalse id
  | .object _ => .isFalse id
  | .foreign _ => .isFalse id
  | .foreignCharacter _ => .isFalse id

/-- An error that a program of the grammar can run into. -/
def RuntimeError.IsProper : RuntimeError → Prop
  | .unsupportedValue _ => False
  | .unknownOperator _ => False
  | _ => True

/-- A halt that a program of the grammar can run into. -/
def Halt.IsProper : Halt → Prop
  | .error e => e.IsProper
  | .fault _ => False
  | .outOfSteps => True

/-! ### Decimals -/

namespace Decimal

variable {a b d : Decimal}

/-- A number with places after the point has none of the zeros before it that are too
    many to be written out. -/
theorem isFarAbove_of_exponent_le (h : d.exponent ≤ -1) (e : Int) : d.isFarAbove e = false := by
  have hpos : ¬ 0 < d.exponent := by omega
  rw [isFarAbove, decide_eq_false hpos, Bool.and_false, Bool.false_and]

/-- A quotient has the scale of the dividend. -/
theorem divide?_exponent {q : Decimal} (h : a.divide? b = some q) (ha : a.exponent ≤ -1) :
    q.exponent = a.exponent := by
  rw [divide?] at h
  split at h
  · cases h
  · obtain rfl := Option.some.inj h
    simp only [scale]
    omega

/-- A number with places after the point is in range, but for too fine a scale, and
    then the finest one takes its place. -/
theorem fit?_of_exponent_le (h : d.exponent ≤ -1) : ∃ e, d.fit? = some e ∧ e.exponent ≤ -1 := by
  rw [fit?]
  split
  · refine ⟨_, rfl, ?_⟩
    simp only [leastExponent]
    omega
  · have hin : d.inRange = true := by
      simp only [inRange, Bool.and_eq_true, Bool.or_eq_true, decide_eq_true_eq]
      omega
    rw [if_pos hin]
    exact ⟨d, rfl, h⟩

end Decimal

/-! ### Operators -/

namespace Value

/-- What is computed is as asked, or ends in a proper halt. -/
def Yields {α : Type} (Q : α → Prop) : Except Halt α → Prop
  | .ok a => Q a
  | .error h => h.IsProper

/-- An operation on what another one gives, as long as it gives what is asked for. -/
theorem Yields.bind {α β : Type} {P : α → Prop} {Q : β → Prop} {r : Except Halt α}
    {f : α → Except Halt β} (hr : Yields P r) (hf : ∀ a, P a → Yields Q (f a)) :
    Yields Q (r >>= f) := by
  cases r with
  | ok a => exact hf a hr
  | error e => exact hr

/-- Plain values are values of the language. -/
theorem IsPlain.isNative {v : Value} (h : v.IsPlain) : v.IsNative := by
  cases v with
  | special _ => exact h.elim
  | foreign _ => exact h.elim
  | foreignCharacter _ => exact h.elim
  | _ => trivial

/-- A plain value of the kind of decimals is a number with digits after the point. -/
theorem IsPlain.exists_eq_decimal {v : Value} (h : v.IsPlain) (hk : v.kind = .ok .decimal) :
    ∃ d, v = .decimal d := by
  cases v with
  | decimal d => exact ⟨d, rfl⟩
  | special _ => exact h.elim
  | _ => cases hk

theorem IsPlain.exists_kind {v : Value} (h : v.IsPlain) : ∃ k, v.kind = .ok k :=
  h.isNative.exists_kind

/-- Plain values of one ordered kind are in order. -/
theorem exists_order? {a b : Value} {k : Kind} (ha : a.IsPlain) (hb : b.IsPlain)
    (hak : a.kind = .ok k) (hbk : b.kind = .ok k) (hk : k ∈ orderedKinds) :
    ∃ o, a.order? b = some o := by
  cases areComparable_of_kind hk ha.isNative hb.isNative hak hbk <;> exact ⟨_, rfl⟩

/-- A number with digits after the point is in range, or it is rounded to a scale that is. -/
theorem yields_fitDecimal {d : Decimal} (h : d.exponent ≤ -1) :
    Yields (·.exponent ≤ -1) (fitDecimal d) := by
  obtain ⟨e, he, hexponent⟩ := Decimal.fit?_of_exponent_le h
  rw [fitDecimal, he]
  exact hexponent

/-- Numbers with digits after the point are not too far from each other to be added. -/
theorem checkDigits_of_exponent_le {a b : Decimal} (ha : a.exponent ≤ -1) (hb : b.exponent ≤ -1) :
    checkDigits a b = .ok () := by
  rw [checkDigits, Decimal.isFarAbove_of_exponent_le ha, Decimal.isFarAbove_of_exponent_le hb]
  rfl

/-- Numbers with places after the point keep them in every operation. -/
theorem yields_computeDecimal (o : Arithmetic) {a b : Decimal} (ha : a.exponent ≤ -1)
    (hb : b.exponent ≤ -1) : Yields (·.exponent ≤ -1) (computeDecimal o a b) := by
  cases o with
  | add =>
    rw [computeDecimal, checkDigits_of_exponent_le ha hb]
    refine yields_fitDecimal ?_
    rw [Decimal.add_exponent]
    omega
  | subtract =>
    rw [computeDecimal, checkDigits_of_exponent_le ha hb]
    refine yields_fitDecimal ?_
    rw [Decimal.sub_exponent]
    omega
  | multiply =>
    refine yields_fitDecimal ?_
    simp only [Decimal.mul]
    omega
  | divide =>
    rw [computeDecimal]
    cases h : a.divide? b with
    | none => trivial
    | some q => exact Int.le_trans (Int.le_of_eq (Decimal.divide?_exponent h ha)) ha

theorem yields_computeInteger (o : Arithmetic) (a b : Int) :
    Yields (fun _ => True) ((computeInteger o a b).mapError .error) := by
  cases o with
  | divide =>
    rw [computeInteger]
    split <;> trivial
  | _ => trivial

/-- An operation on plain values gives a plain value, or fails with an error of the language. -/
theorem yields_compute (o : Arithmetic) {a b : Value} (ha : a.IsPlain) (hb : b.IsPlain) :
    Yields IsPlain (compute o a b) := by
  obtain ⟨k, hk⟩ := ha.exists_kind
  obtain ⟨l, hl⟩ := hb.exists_kind
  rw [compute, hk, hl]
  refine Yields.bind (P := (· = k)) rfl ?_
  rintro _ rfl
  refine Yields.bind (P := (· = l)) rfl ?_
  rintro _ rfl
  split
  · exact (yields_computeInteger o _ _).bind fun _ _ => trivial
  · exact (yields_computeDecimal o ha hb).bind fun _ h => h
  · trivial
  · next hdecimals _ =>
    -- Plain decimals are numbers, and those have been dealt with.
    split
    · next h =>
      obtain ⟨x, rfl⟩ := ha.exists_eq_decimal (hk.trans (congrArg _ h.1))
      obtain ⟨y, rfl⟩ := hb.exists_eq_decimal (hl.trans (congrArg _ h.2))
      exact absurd rfl (hdecimals x y rfl)
    · trivial

/-- Plain values can be compared for equality, as no undefined decimal is plain. -/
theorem yields_equal {a b : Value} (ha : a.IsPlain) (hb : b.IsPlain) :
    Yields (fun _ => True) (a.equal b) := by
  rw [equal_eq ha.isNative hb.isNative]
  trivial

/-- A comparison of plain values fails at most with an error of the language. -/
theorem yields_compare (c : Comparison) {a b : Value} (ha : a.IsPlain) (hb : b.IsPlain) :
    Yields (fun _ => True) (compare c a b) := by
  obtain ⟨k, hk⟩ := ha.exists_kind
  obtain ⟨l, hl⟩ := hb.exists_kind
  rw [compare, hk, hl]
  refine Yields.bind (P := (· = k)) rfl ?_
  rintro _ rfl
  refine Yields.bind (P := (· = l)) rfl ?_
  rintro _ rfl
  split
  · trivial
  · next h =>
    simp only [Bool.not_eq_true', Bool.not_eq_false, Bool.and_eq_true, beq_iff_eq,
      List.contains_iff_mem] at h
    obtain ⟨hmem, rfl⟩ := h
    obtain ⟨o, ho⟩ := exists_order? ha hb hk hl hmem
    rw [ha.isNative.isUndefined_eq, hb.isNative.isUndefined_eq, ho]
    trivial

/-- An operator makes plain values of plain values, or a proper error. -/
theorem yields_apply {label : Label} {o : Operator} (ho : Operator.ofLabel? label = some o)
    {a b : Value} (ha : a.IsPlain) (hb : b.IsPlain) : Yields IsPlain (apply label a b) := by
  rw [apply, ho]
  cases o with
  | equal => exact (yields_equal ha hb).bind fun _ _ => trivial
  | unequal => exact (yields_equal ha hb).bind fun _ _ => trivial
  | comparison c => exact (yields_compare c ha hb).bind fun _ _ => trivial
  | arithmetic o => exact yields_compute o ha hb

/-! ### Halts -/

/-- A computation that is not ended by a bound on its steps. -/
def Ends {α : Type} : Except Halt α → Prop
  | .error .outOfSteps => False
  | _ => True

theorem Ends.bind {α β : Type} {r : Except Halt α} {f : α → Except Halt β} (hr : Ends r)
    (hf : ∀ a, Ends (f a)) : Ends (r >>= f) := by
  cases r with
  | ok a => exact hf a
  | error h =>
    cases h with
    | outOfSteps => exact hr.elim
    | _ => trivial

/-- An error of the language is no lack of steps. -/
theorem ends_mapError {α : Type} (x : Except RuntimeError α) : Ends (x.mapError .error) := by
  cases x <;> trivial

theorem ends_equal (a b : Value) : Ends (a.equal b) := by
  refine (ends_mapError _).bind fun k => (ends_mapError _).bind fun l => ?_
  split
  · trivial
  · split <;> trivial

theorem ends_compare (c : Comparison) (a b : Value) : Ends (compare c a b) := by
  refine (ends_mapError _).bind fun k => (ends_mapError _).bind fun l => ?_
  split
  · trivial
  · split
    · trivial
    · split <;> trivial

theorem ends_fitDecimal (d : Decimal) : Ends (fitDecimal d) := by
  rw [fitDecimal]
  split <;> trivial

theorem ends_checkDigits (a b : Decimal) : Ends (checkDigits a b) := by
  rw [checkDigits]
  split <;> trivial

theorem ends_computeDecimal (o : Arithmetic) (a b : Decimal) : Ends (computeDecimal o a b) := by
  cases o with
  | add => exact (ends_checkDigits a b).bind fun _ => ends_fitDecimal _
  | subtract => exact (ends_checkDigits a b).bind fun _ => ends_fitDecimal _
  | multiply => exact ends_fitDecimal _
  | divide =>
    rw [computeDecimal]
    split <;> trivial

theorem ends_addInfinities (m n : Option Bool) : Ends (addInfinities m n) := by
  cases m <;> cases n
  case some.some m n =>
    rw [addInfinities]
    split <;> trivial
  all_goals trivial

theorem ends_computeInfinite (o : Arithmetic) (a b : Value) : Ends (computeInfinite o a b) := by
  cases o with
  | add => exact ends_addInfinities _ _
  | subtract => exact ends_addInfinities _ _
  | multiply =>
    rw [computeInfinite]
    split <;> trivial
  | divide => trivial

theorem ends_computeSpecial (o : Arithmetic) (a b : Value) : Ends (computeSpecial o a b) := by
  rw [computeSpecial]
  split
  · split <;> trivial
  · split
    · trivial
    · split
      · trivial
      · split
        · trivial
        · exact ends_computeInfinite o a b

/-- No operation on values runs out of steps. -/
theorem ends_compute (o : Arithmetic) (a b : Value) : Ends (compute o a b) := by
  refine (ends_mapError _).bind fun k => (ends_mapError _).bind fun l => ?_
  split
  · exact (ends_mapError _).bind fun _ => trivial
  · exact (ends_computeDecimal o _ _).bind fun _ => trivial
  · trivial
  · split
    · exact ends_computeSpecial o a b
    · trivial

/-- An operator takes no steps that could be counted. -/
theorem ends_apply (label : Label) (a b : Value) : Ends (apply label a b) := by
  rw [apply]
  split
  · exact (ends_equal a b).bind fun _ => trivial
  · exact (ends_equal a b).bind fun _ => trivial
  · exact (ends_compare _ a b).bind fun _ => trivial
  · exact ends_compute _ a b
  · exact (ends_mapError _).bind fun _ => trivial

/-- An operator on plain values gives a plain one, or an error of the program. -/
theorem apply_eq_or {label : Label} {o : Operator} (ho : Operator.ofLabel? label = some o)
    {a b : Value} (ha : a.IsPlain) (hb : b.IsPlain) :
    (∃ v, apply label a b = .ok v ∧ v.IsPlain) ∨
      ∃ e, apply label a b = .error (.error e) ∧ e.IsProper := by
  have hyields := yields_apply ho ha hb
  have hends := ends_apply label a b
  cases h : apply label a b with
  | ok v =>
    rw [h] at hyields
    exact .inl ⟨v, rfl, hyields⟩
  | error h' =>
    rw [h] at hyields hends
    cases h' with
    | error e => exact .inr ⟨e, rfl, hyields⟩
    | fault f => exact hyields.elim
    | outOfSteps => exact hends.elim

end Value

end Blockscript
