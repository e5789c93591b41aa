import Blockscript.Operators

/-!
# Values of the language

A document may hold what is no value of the language: something without a kind, a character that
is no text, or a decimal that is undefined. All other values are *native*, infinities included.
Two of them are comparable if they are of one kind, and that kind is ordered. Operators make
native values only, whatever they are applied to, unless it is undefined.

* `Value.IsNative`, `Value.isNative_of_apply`: this notion, and what operators make;
* `Value.equal_eq`: equality of native values;
* `Value.AreComparable`, `Value.areComparable_of_kind`: values of one ordered kind.
-/

namespace Blockscript.Value

/-- A value of the language: it has a kind, and is neither undefined nor a character that is no
    text. -/
def IsNative : Value → Prop
  | .special (.undefined ..) => False
  | .foreign _ => False
  | .foreignCharacter _ => False
  | _ => True

variable {a b v : Value} {k : Kind}

/-- A value of the language has a kind. -/
theorem IsNative.exists_kind (h : a.IsNative) : ∃ k, a.kind = .ok k := by
  cases a with
  | foreign _ => exact h.elim
  | _ => exact ⟨_, rfl⟩

theorem IsNative.isUndefined_eq (h : a.IsNative) : a.isUndefined = false := by
  cases a with
  | special s =>
    cases s with
    | infinite _ => rfl
    | undefined _ _ _ => exact h.elim
  | _ => rfl

/-- What no operation takes is undefined. -/
theorem isSignaling_eq (h : a.isUndefined = false) : a.isSignaling = false := by
  cases a with
  | special s =>
    cases s with
    | infinite _ => rfl
    | undefined _ _ _ => contradiction
  | _ => rfl

/-- Values of the language are equal if their contents are. -/
theorem equal_eq (ha : a.IsNative) (hb : b.IsNative) : a.equal b = .ok (sameContent a b) := by
  obtain ⟨k, hk⟩ := ha.exists_kind
  obtain ⟨l, hl⟩ := hb.exists_kind
  rw [equal, hk, hl, isSignaling_eq ha.isUndefined_eq, isSignaling_eq hb.isUndefined_eq]
  by_cases hkl : k = l
  · exact if_neg (not_not_intro hkl)
  · -- Contents of different kinds are never the same.
    have hne : sameContent a b = false := by
      rw [Bool.eq_false_iff]
      intro h
      refine hkl (Except.ok.inj (hk.symm.trans (Eq.trans ?_ hl)))
      unfold sameContent at h
      split at h <;> first | rfl | contradiction
    rw [hne]
    exact if_pos hkl

/-! ### Comparable values -/

/-- Two values of the language, of one ordered kind. -/
inductive AreComparable : Value → Value → Prop
  | integers (i j : Int) : AreComparable (.integer i) (.integer j)
  | decimals (x y : Decimal) : AreComparable (.decimal x) (.decimal y)
  | withInfinity (x : Decimal) (negative : Bool) :
      AreComparable (.decimal x) (.special (.infinite negative))
  | infinityWith (negative : Bool) (y : Decimal) :
      AreComparable (.special (.infinite negative)) (.decimal y)
  | infinities (m n : Bool) : AreComparable (.special (.infinite m)) (.special (.infinite n))
  | characters (s t : String) : AreComparable (.character s) (.character t)
  | strings (s t : String) : AreComparable (.string s) (.string t)

/-- Which of two values is first is no matter of whether they can be compared. -/
theorem AreComparable.symm (h : AreComparable a b) : AreComparable b a := by
  cases h <;> constructor

/-- A value of the kind of decimals is a number or an infinity. -/
theorem IsNative.eq_decimal_or_infinity (h : a.IsNative) (hk : a.kind = .ok .decimal) :
    (∃ d, a = .decimal d) ∨ ∃ negative, a = .special (.infinite negative) := by
  cases a with
  | decimal d => exact .inl ⟨d, rfl⟩
  | special s =>
    cases s with
    | infinite negative => exact .inr ⟨negative, rfl⟩
    | undefined _ _ _ => exact h.elim
  | _ => cases hk

/-- Values of the language of one ordered kind can be compared. -/
theorem areComparable_of_kind (hk : k ∈ orderedKinds) (ha : a.IsNative) (hb : b.IsNative)
    (hka : a.kind = .ok k) (hkb : b.kind = .ok k) : AreComparable a b := by
  simp only [orderedKinds, List.mem_cons, List.not_mem_nil, or_false] at hk
  rcases hk with rfl | rfl | rfl | rfl
  · cases a <;> cases hka
    cases b <;> cases hkb
    exact .integers _ _
  · obtain ⟨x, rfl⟩ | ⟨m, rfl⟩ := ha.eq_decimal_or_infinity hka
    · obtain ⟨y, rfl⟩ | ⟨n, rfl⟩ := hb.eq_decimal_or_infinity hkb
      · exact .decimals x y
      · exact .withInfinity x n
    · obtain ⟨y, rfl⟩ | ⟨n, rfl⟩ := hb.eq_decimal_or_infinity hkb
      · exact .infinityWith m y
      · exact .infinities m n
  · -- There are characters that are none of the language.
    cases a <;> cases hka
    · cases b <;> cases hkb
      · exact .characters _ _
      · exact hb.elim
    · exact ha.elim
  · cases a <;> cases hka
    cases b <;> cases hkb
    exact .strings _ _

/-! ### What operators make -/

/-- What an operation gives is a value of the language if its last step gives one. -/
theorem isNative_of_bind {α : Type} {x : Except Halt α} {f : α → Except Halt Value}
    (hf : ∀ u v, f u = .ok v → v.IsNative) (h : (x >>= f) = .ok v) : v.IsNative := by
  cases x with
  | ok u => exact hf u v h
  | error _ => cases h

theorem isNative_of_return {α : Type} {x : Except Halt α} {f : α → Value}
    (h : (do return f (← x)) = .ok v) (hf : ∀ u, (f u).IsNative) : v.IsNative := by
  refine isNative_of_bind (fun u v hu => ?_) h
  cases hu
  exact hf u

/-- A sum of infinities is an infinity, if there is one. -/
theorem isNative_of_addInfinities {m n : Option Bool} (h : addInfinities m n = .ok v) :
    v.IsNative := by
  unfold addInfinities at h
  split at h
  · split at h <;> cases h
    trivial
  · cases h
    trivial
  · cases h
    trivial
  · cases h

/-- What is undefined is the result only of an operation on what is undefined. -/
theorem isNative_of_computeSpecial {o : Arithmetic} (ha : a.isUndefined = false)
    (hb : b.isUndefined = false) (h : computeSpecial o a b = .ok v) : v.IsNative := by
  rw [computeSpecial, ha, hb, isSignaling_eq ha, isSignaling_eq hb] at h
  split at h
  · cases h
  · cases o with
    | add => exact isNative_of_addInfinities h
    | subtract => exact isNative_of_addInfinities h
    | multiply =>
      change computeInfinite .multiply a b = .ok v at h
      rw [computeInfinite] at h
      split at h <;> cases h
      trivial
    | divide => cases h

/-- What an operation gives is a value of the language, if its operands are not undefined. -/
theorem isNative_of_compute {o : Arithmetic} (ha : a.isUndefined = false)
    (hb : b.isUndefined = false) (h : compute o a b = .ok v) : v.IsNative := by
  refine isNative_of_bind (fun k v h => isNative_of_bind (fun l v h => ?_) h) h
  split at h
  · exact isNative_of_return h fun _ => trivial
  · exact isNative_of_return h fun _ => trivial
  · cases h
    trivial
  · split at h
    · exact isNative_of_computeSpecial ha hb h
    · cases h

/-- Operators make values of the language, whatever they are applied to that is defined. -/
theorem isNative_of_apply {operator : Label} (ha : a.isUndefined = false)
    (hb : b.isUndefined = false) (h : apply operator a b = .ok v) : v.IsNative := by
  rw [apply] at h
  split at h
  · exact isNative_of_return h fun _ => trivial
  · exact isNative_of_return h fun _ => trivial
  · exact isNative_of_return h fun _ => trivial
  · exact isNative_of_compute ha hb h
  · exact isNative_of_bind (fun _ _ h => by cases h) h

end Blockscript.Value
