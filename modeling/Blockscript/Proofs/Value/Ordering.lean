import Blockscript.Proofs.Value.Equality
import Mathlib.Data.String.Basic
import Mathlib.Data.Sum.Order

/-!
# Order

Numbers, characters and strings are compared with values of their own kind only. A value has a
*rank*, a number, an end of the numbers or a text, and all ranks are in one linear order, of which
the four comparisons are views. The order of values has the same laws, except that different
values may have the same rank: decimals do if they are the same number in different scales.
Characters that are no texts, and decimals that are undefined, have no place in it.

* `RuntimeError.IsTypeMismatch`: the errors of values that are not of the kinds they should be;
* `Value.compare_eq_error_iff`: when a comparison fails with such an error;
* `Value.rank`, `Value.holds_iff`: comparisons are those of the ranks;
* `Value.holds_lessOrEqual_both_iff`: when neither of two values comes before the other;
* `Value.comparisons_areTotalPreorder`: comparisons fail for other values, and are total
  preorders of the ordered kinds;
* `Value.comparisons_not_areTotal`: where they are not.
-/

namespace Blockscript

/-- An error that tells of values that are not of the kinds they should be. -/
inductive RuntimeError.IsTypeMismatch : RuntimeError → Prop
  | kindMismatch (expected actual : Kind) (context : String) :
      IsTypeMismatch (.kindMismatch expected actual context)
  | unsupportedValue (value : Json) : IsTypeMismatch (.unsupportedValue value)
  | incomparable (left right : Kind) : IsTypeMismatch (.incomparable left right)
  | unsupportedOperands (operator : String) (left right : Kind) :
      IsTypeMismatch (.unsupportedOperands operator left right)
  | unknownOperator (operator : Label) : IsTypeMismatch (.unknownOperator operator)

/-- The text of a comparison. -/
def Comparison.text : Comparison → String
  | .less => "<"
  | .lessOrEqual => "<="
  | .greater => ">"
  | .greaterOrEqual => ">="

namespace Value

variable {a b c : Value} {k : Kind}

/-! ### Comparable values -/

/-- A comparison by its text is the comparison itself. -/
theorem apply_comparison (o : Comparison) (a b : Value) :
    apply (.text o.text) a b = do return .boolean (← compare o a b) := by
  cases o <;> rfl

/-- The error of a value without a kind is one of the type. -/
theorem isTypeMismatch_of_kind {e : RuntimeError} (h : a.kind = .error e) : e.IsTypeMismatch := by
  cases a with
  | foreign value =>
    cases h
    exact .unsupportedValue value
  | _ => cases h

/-- What a comparison of two values with kinds gives, by cases. -/
theorem compare_of_kind {l : Kind} (o : Comparison) (ha : a.kind = .ok k) (hb : b.kind = .ok l) :
    compare o a b =
      if !(orderedKinds.contains k && k == l) then .error (.error (.incomparable k l))
      else if a.isUndefined || b.isUndefined then .error (.fault .invalidOperation)
      else match order? a b with
        | some standing => .ok (o.holds standing)
        | none => .error (.fault .unsuitableValue) := by
  rw [compare, ha, hb]
  rfl

/-- A comparison tells of the kinds of its operands exactly if they are not the same ordered
    one. -/
theorem compare_eq_error_iff (o : Comparison) (a b : Value) :
    (∃ e, compare o a b = .error (.error e) ∧ e.IsTypeMismatch) ↔
      ¬∃ k ∈ orderedKinds, a.kind = .ok k ∧ b.kind = .ok k := by
  -- A value without a kind fails before any comparison, and that error counts as well.
  cases ha : a.kind with
  | error e => exact iff_of_true ⟨e, by rw [compare, ha]; rfl, isTypeMismatch_of_kind ha⟩ (by simp)
  | ok k =>
    cases hb : b.kind with
    | error e =>
      exact iff_of_true ⟨e, by rw [compare, ha, hb]; rfl, isTypeMismatch_of_kind hb⟩ (by simp)
    | ok l =>
      rw [compare_of_kind o ha hb]
      by_cases h : k ∈ orderedKinds ∧ k = l
      · refine iff_of_false ?_ (not_not_intro ⟨k, h.1, rfl, by rw [h.2]⟩)
        rw [if_neg (by simpa using h)]
        rintro ⟨e, he, -⟩
        split at he
        · cases he
        · split at he <;> cases he
      · refine iff_of_true ⟨_, if_pos (by simpa [or_iff_not_imp_left] using h),
          .incomparable k l⟩ ?_
        rintro ⟨_, hmem, ⟨⟩, ⟨⟩⟩
        exact h ⟨hmem, rfl⟩

/-! ### Ranks -/

/-- A number, or one of the two ends beyond all of them. -/
abbrev ExtendedRat := WithBot (WithTop ℚ)

/-- The end on the side of a sign. -/
def endOf (negative : Bool) : ExtendedRat :=
  if negative then ⊥ else ⊤

/-- What a value is compared by: a number, an end of the numbers, or a text. -/
def rank : Value → ExtendedRat ⊕ₗ String
  | .integer i => Sum.inlₗ ((i : ℚ) : WithTop ℚ)
  | .decimal d => Sum.inlₗ (d.toRat : WithTop ℚ)
  | .special (.infinite negative) => Sum.inlₗ (endOf negative)
  | .character s => Sum.inrₗ s
  | .string s => Sum.inrₗ s
  | _ => Sum.inlₗ ⊥

/-- Every number lies between the two ends. -/
theorem number_lt_endOf_iff (q : ℚ) (negative : Bool) :
    (((q : WithTop ℚ) : ExtendedRat) < endOf negative) ↔ negative = false := by
  cases negative with
  | true => exact iff_of_false not_lt_bot nofun
  | false => exact iff_of_true (WithBot.coe_lt_coe.2 (WithTop.coe_lt_top q)) rfl

/-- The negative end is below all numbers. -/
theorem endOf_lt_number_iff (q : ℚ) (negative : Bool) :
    (endOf negative < ((q : WithTop ℚ) : ExtendedRat)) ↔ negative = true := by
  cases negative with
  | true => exact iff_of_true (WithBot.bot_lt_coe _) rfl
  | false => exact iff_of_false not_top_lt nofun

theorem endOf_lt_endOf_iff (m n : Bool) :
    endOf m < endOf n ↔ m = true ∧ n = false := by
  cases m <;> cases n <;> simp [endOf]

/-- Comparable values stand to each other as their ranks do. -/
theorem order?_eq (h : AreComparable a b) :
    order? a b = some (.ofTests (a.rank < b.rank) (b.rank < a.rank)) := by
  cases h with
  | integers i j => simp [order?, rank]
  | decimals x y =>
    simp only [order?, rank, Sum.Lex.inl_lt_inl_iff, WithBot.coe_lt_coe, WithTop.coe_lt_coe,
      ← Decimal.lt_iff, Bool.decide_eq_true]
  | withInfinity x negative =>
    simp only [order?, rank, Sum.Lex.inl_lt_inl_iff, number_lt_endOf_iff, endOf_lt_number_iff]
    cases negative <;> rfl
  | infinityWith negative y =>
    simp only [order?, rank, Sum.Lex.inl_lt_inl_iff, number_lt_endOf_iff, endOf_lt_number_iff]
    cases negative <;> rfl
  | infinities m n =>
    simp only [order?, rank, Sum.Lex.inl_lt_inl_iff, endOf_lt_endOf_iff]
    cases m <;> cases n <;> rfl
  | characters s t => simp [order?, rank]
  | strings s t => simp [order?, rank]

/-- Comparable values are not undefined. -/
theorem AreComparable.isUndefined_eq (h : AreComparable a b) : a.isUndefined = false := by
  cases h <;> rfl

theorem compare_eq (o : Comparison) (h : AreComparable a b) :
    compare o a b = .ok (o.holds (.ofTests (a.rank < b.rank) (b.rank < a.rank))) := by
  rw [compare, h.isUndefined_eq, h.symm.isUndefined_eq, order?_eq h]
  cases h <;> rfl

/-- An operator answers `TRUE`. -/
def Holds (operator : String) (a b : Value) : Prop :=
  apply (.text operator) a b = .ok (.boolean true)

/-- An operator of comparison on comparable values gives a boolean, by their ranks. -/
theorem apply_eq (o : Comparison) (h : AreComparable a b) : apply (.text o.text) a b =
    .ok (.boolean (o.holds (.ofTests (a.rank < b.rank) (b.rank < a.rank)))) := by
  rw [apply_comparison, compare_eq o h]
  rfl

/-- The four comparisons of a linear order, of which values are told by their ranks. -/
theorem holds_ofTests {α : Type} [LinearOrder α] (x y : α) :
    (Comparison.less.holds (.ofTests (x < y) (y < x)) = true ↔ x < y) ∧
    (Comparison.lessOrEqual.holds (.ofTests (x < y) (y < x)) = true ↔ x ≤ y) ∧
    (Comparison.greater.holds (.ofTests (x < y) (y < x)) = true ↔ y < x) ∧
    (Comparison.greaterOrEqual.holds (.ofTests (x < y) (y < x)) = true ↔ y ≤ x) := by
  rcases lt_trichotomy x y with h | rfl | h
  · simp [Standing.ofTests, Comparison.holds, h, h.le, h.not_gt, h.not_ge]
  · simp [Standing.ofTests, Comparison.holds]
  · simp [Standing.ofTests, Comparison.holds, h, h.le, h.not_gt, h.not_ge]

/-- A comparison holds if it does of how the ranks stand to each other. -/
theorem holds_iff (o : Comparison) (h : AreComparable a b) :
    Holds o.text a b ↔ o.holds (.ofTests (a.rank < b.rank) (b.rank < a.rank)) = true := by
  rw [Holds, apply_eq o h, Except.ok.injEq, boolean.injEq]

/-- The four comparisons are those of the ranks. -/
theorem holds_less_iff (h : AreComparable a b) : Holds "<" a b ↔ a.rank < b.rank :=
  (holds_iff .less h).trans (holds_ofTests a.rank b.rank).1

theorem holds_lessOrEqual_iff (h : AreComparable a b) : Holds "<=" a b ↔ a.rank ≤ b.rank :=
  (holds_iff .lessOrEqual h).trans (holds_ofTests a.rank b.rank).2.1

theorem holds_greater_iff (h : AreComparable a b) : Holds ">" a b ↔ b.rank < a.rank :=
  (holds_iff .greater h).trans (holds_ofTests a.rank b.rank).2.2.1

theorem holds_greaterOrEqual_iff (h : AreComparable a b) : Holds ">=" a b ↔ b.rank ≤ a.rank :=
  (holds_iff .greaterOrEqual h).trans (holds_ofTests a.rank b.rank).2.2.2

/-! ### Values of the same rank -/

/-- The test of equality is equality of the values of the language. -/
theorem holds_equal_iff (ha : a.IsNative) (hb : b.IsNative) : Holds "==" a b ↔ Equals a b := by
  rw [← sameContent_iff ha]
  have happly : apply (.text "==") a b = (do return .boolean (← a.equal b)) := rfl
  rw [Holds, happly, equal_eq ha hb]
  change Except.ok (boolean _) = _ ↔ _
  rw [Except.ok.injEq, boolean.injEq]

/-- Values that are no decimals are equal only if they are the same. -/
theorem equals_iff_eq (hk : a.kind ≠ .ok .decimal) : Equals a b ↔ a = b := by
  constructor
  · rintro (_ | _)
    · rfl
    · exact absurd rfl hk
  · rintro rfl
    exact .refl a

/-- Values that are no decimals have the same rank only if they are the same. -/
theorem rank_eq_iff (h : AreComparable a b) (hk : a.kind ≠ .ok .decimal) :
    a.rank = b.rank ↔ a = b := by
  cases h with
  | integers i j => simp [rank]
  | characters s t => simp [rank]
  | strings s t => simp [rank]
  | _ => exact absurd rfl hk

/-- Neither of two values comes before the other if they have the same rank. -/
theorem holds_lessOrEqual_both_iff (h : AreComparable a b) :
    Holds "<=" a b ∧ Holds "<=" b a ↔ a.rank = b.rank := by
  rw [holds_lessOrEqual_iff h, holds_lessOrEqual_iff h.symm, le_antisymm_iff]

/-- Strings are in lexicographic order of their code points. -/
theorem holds_less_string_iff (s t : String) : Holds "<" (.string s) (.string t) ↔
    List.Lex (fun c d => c.toNat < d.toNat) s.toList t.toList := by
  rw [holds_less_iff (.strings s t), rank, rank, Sum.Lex.inr_lt_inr_iff, String.lt_iff_toList_lt]
  exact List.lt_iff_lex_lt s.toList t.toList

/-- Comparisons tell of the kinds of their operands if these are not the same ordered one, and
    only then. The values of an ordered kind are in a total preorder, that of their ranks, of which
    the comparisons are views; only decimals come in the same place without being equal, if they
    are the same number in different scales. Strings are in lexicographic order. -/
theorem comparisons_areTotalPreorder (a b c : Value) :
    (∀ o : Comparison, (∃ e, apply (.text o.text) a b = .error (.error e) ∧ e.IsTypeMismatch) ↔
      ¬∃ k ∈ orderedKinds, a.kind = .ok k ∧ b.kind = .ok k) ∧
    (∀ k ∈ orderedKinds, a.IsNative → b.IsNative → c.IsNative →
      a.kind = .ok k → b.kind = .ok k → c.kind = .ok k →
      (∀ o : Comparison, ∃ r, apply (.text o.text) a b = .ok (.boolean r)) ∧
      (Holds "<=" a b ∨ Holds "<=" b a) ∧
      Holds "<=" a a ∧
      (Holds "<=" a b → Holds "<=" b c → Holds "<=" a c) ∧
      (Holds "<" a b ↔ ¬Holds "<=" b a) ∧
      (Holds ">" a b ↔ Holds "<" b a) ∧
      (Holds ">=" a b ↔ Holds "<=" b a) ∧
      (Holds "<=" a b ∧ Holds "<=" b a ↔ a.rank = b.rank) ∧
      (k ≠ .decimal → (Holds "<=" a b ∧ Holds "<=" b a ↔ Holds "==" a b))) ∧
    (∀ x y : Decimal,
      (Holds "<=" (.decimal x) (.decimal y) ∧ Holds "<=" (.decimal y) (.decimal x) ↔
        x.toRat = y.toRat) ∧
      (Holds "==" (.decimal x) (.decimal y) ↔ x.toRat = y.toRat ∧ x.exponent = y.exponent)) ∧
    ∀ s t : String, Holds "<" (.string s) (.string t) ↔
      List.Lex (fun c d => c.toNat < d.toNat) s.toList t.toList := by
  refine ⟨fun o => ?_, fun k hk ha hb hc hka hkb hkc => ?_, fun x y => ⟨?_, ?_⟩,
    holds_less_string_iff⟩
  · rw [← compare_eq_error_iff o, apply_comparison]
    cases compare o a b <;> simp [bind, Except.bind, pure, Except.pure]
  -- Native values of one ordered kind compare by their ranks, which are totally ordered.
  · have hab := areComparable_of_kind hk ha hb hka hkb
    have hbc := areComparable_of_kind hk hb hc hkb hkc
    have hac := areComparable_of_kind hk ha hc hka hkc
    have haa := areComparable_of_kind hk ha ha hka hka
    refine ⟨fun o => ⟨_, apply_eq o hab⟩, ?_, ?_, ?_, ?_, ?_, ?_,
      holds_lessOrEqual_both_iff hab, fun hdecimal => ?_⟩
    · rw [holds_lessOrEqual_iff hab, holds_lessOrEqual_iff hab.symm]
      exact le_total _ _
    · exact (holds_lessOrEqual_iff haa).2 le_rfl
    · rw [holds_lessOrEqual_iff hab, holds_lessOrEqual_iff hbc, holds_lessOrEqual_iff hac]
      exact le_trans
    · rw [holds_less_iff hab, holds_lessOrEqual_iff hab.symm, not_le]
    · rw [holds_greater_iff hab, holds_less_iff hab.symm]
    · rw [holds_greaterOrEqual_iff hab, holds_lessOrEqual_iff hab.symm]
    · have hkind : a.kind ≠ .ok .decimal := by simpa [hka] using hdecimal
      rw [holds_lessOrEqual_both_iff hab, rank_eq_iff hab hkind, holds_equal_iff ha hb,
        equals_iff_eq hkind]
  · simp [holds_lessOrEqual_both_iff (.decimals x y), rank]
  · rw [← Decimal.same_iff]
    simp [Holds, apply_equal_decimal]

/-- One in two scales, and an infinity beyond it: one comes before neither of its two forms, though
    these are not equal; a character is equal to itself; and a decimal is not compared with an
    integer. -/
theorem comparisons_areTotalPreorder_one :
    let a : Value := .decimal ⟨false, 10, -1⟩
    let b : Value := .decimal ⟨false, 100, -2⟩
    let c : Value := .special (.infinite false)
    let d : Value := .character "d"
    (Kind.decimal ∈ orderedKinds ∧ a.IsNative ∧ b.IsNative ∧ c.IsNative ∧
      a.kind = .ok .decimal ∧ b.kind = .ok .decimal ∧ c.kind = .ok .decimal) ∧
    (Holds "<=" a b ∧ Holds "<=" b c ∧ Holds "<=" a c) ∧
    (Holds "<=" b a ∧ ¬Holds "<" a b ∧ ¬Holds "==" a b) ∧
    (Kind.character ∈ orderedKinds ∧ d.IsNative ∧ d.kind = .ok .character ∧
      Kind.character ≠ .decimal ∧ Holds "<=" d d ∧ Holds "==" d d) ∧
    ∃ e, apply (.text "<") a (.integer 2) = .error (.error e) ∧ e.IsTypeMismatch := by
  intro a b c d
  obtain ⟨-, horder, hdecimals, -⟩ := comparisons_areTotalPreorder a b c
  obtain ⟨-, -, -, htrans, hless, -⟩ :=
    horder .decimal (by decide) trivial trivial trivial rfl rfl rfl
  obtain ⟨hboth, hequal⟩ := hdecimals ⟨false, 10, -1⟩ ⟨false, 100, -2⟩
  have hnumber : Decimal.toRat ⟨false, 10, -1⟩ = Decimal.toRat ⟨false, 100, -2⟩ := by
    norm_num [Decimal.toRat, Decimal.signed, zpow_neg]
  obtain ⟨hab, hba⟩ := hboth.2 hnumber
  have hbc : Holds "<=" b c := rfl
  obtain ⟨-, -, hdd, -, -, -, -, -, hsame⟩ := (comparisons_areTotalPreorder d d d).2.1
    .character (by decide) trivial trivial trivial rfl rfl rfl
  have hunordered : ¬∃ k ∈ orderedKinds, a.kind = .ok k ∧ (integer 2).kind = .ok k := by
    rintro ⟨_, -, ⟨⟩, ⟨⟩⟩
  exact ⟨⟨by decide, trivial, trivial, trivial, rfl, rfl, rfl⟩,
    ⟨hab, hbc, htrans hab hbc⟩,
    ⟨hba, fun h => hless.1 h hba, fun h => absurd (hequal.1 h).2 (by decide)⟩,
    ⟨by decide, trivial, rfl, by decide, hdd, (hsame (by decide)).1 ⟨hdd, hdd⟩⟩,
    ((comparisons_areTotalPreorder a (.integer 2) c).1 .less).2 hunordered⟩

/-- Characters that hold values without an order cannot be compared. -/
theorem apply_foreignCharacter (o : Comparison) {x y : Json} (h : x.order? y = none) :
    apply (.text o.text) (.foreignCharacter x) (.foreignCharacter y) =
      .error (.fault .unsuitableValue) := by
  have horder : order? (.foreignCharacter x) (.foreignCharacter y) = none := h
  rw [apply_comparison, compare_of_kind o rfl rfl, horder]
  rfl

/-- What is undefined does not even come before itself, and neither of two characters that hold
    `null` and an integer comes before the other, though either way the operands are of one
    ordered kind. -/
theorem comparisons_not_areTotal :
    let undefined : Value := .special (.undefined false false 0)
    let nothing : Value := .foreignCharacter .null
    let five : Value := .foreignCharacter (.integer 5)
    (Kind.decimal ∈ orderedKinds ∧ undefined.kind = .ok .decimal ∧
      apply (.text "<=") undefined undefined = .error (.fault .invalidOperation)) ∧
    (Kind.character ∈ orderedKinds ∧ nothing.kind = .ok .character ∧
      five.kind = .ok .character ∧
      apply (.text "<=") nothing five = .error (.fault .unsuitableValue) ∧
      apply (.text "<=") five nothing = .error (.fault .unsuitableValue)) := by
  intro undefined nothing five
  exact ⟨⟨by decide, rfl, rfl⟩, by decide, rfl, rfl,
    apply_foreignCharacter .lessOrEqual (by decide +kernel),
    apply_foreignCharacter .lessOrEqual (by decide +kernel)⟩

end Value

end Blockscript
