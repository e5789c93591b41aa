import Mathlib.Data.List.Sort
import Blockscript.Proofs.Store.Updates

/-!
# Functions of one name

A name may be bound to functions that differ in the number of their parameters, and these may be
spread over the scopes of a chain. The number that is asked for is found in the nearest scope that
binds the name with it, even if nearer ones bind the name with others. If there is none, the error
tells with which numbers the name could be found instead; and if there are none of these, that the
name is not bound at all. The methods of an object follow the same law in its own scope.

* `sortedArities_pairwise`, `mem_sortedArities`: what an error lists;
* `Store.IsExact`: the law of lookups, with `isExact_of_table` for how they come to follow it;
* `lookups_are_exact`: functions and methods.
-/

namespace Blockscript

namespace Store

variable {s : Store} {name : Label} {arity : Int}

/-! ### The numbers that are listed -/

/-- What is in order increases once it is without repetitions, which may be anywhere behind the
    first one of a number. -/
theorem eraseDups_pairwise : {l : List Int} → l.Pairwise (· ≤ ·) → l.eraseDups.Pairwise (· < ·)
  | [], _ => .nil
  | a :: l, h => by
    obtain ⟨hle, h⟩ := List.pairwise_cons.1 h
    rw [List.eraseDups_cons, List.pairwise_cons]
    refine ⟨fun b hb => ?_, eraseDups_pairwise (h.sublist List.filter_sublist)⟩
    rw [List.mem_eraseDups, List.mem_filter, Bool.not_eq_true', beq_eq_false_iff_ne] at hb
    exact Int.lt_iff_le_and_ne.2 ⟨hle b hb.1, Ne.symm hb.2⟩
termination_by l => l.length
decreasing_by exact Nat.lt_succ_of_le (List.length_filter_le _ l)

theorem sortedArities_pairwise (l : List Int) : (sortedArities l).Pairwise (· < ·) :=
  eraseDups_pairwise (List.pairwise_mergeSort' (· ≤ ·) l)

theorem mem_sortedArities {n : Int} {l : List Int} : n ∈ sortedArities l ↔ n ∈ l := by
  rw [sortedArities, List.mem_eraseDups, List.mem_mergeSort]

/-- A scope lists the numbers under which a function can be found in it. -/
theorem mem_arities_iff {c : Scope} : arity ∈ c.arities name ↔
    (c.findFunction? name arity).isSome := by
  rw [Scope.arities, Scope.findFunction?, Option.isSome_map, List.find?_isSome]
  simp only [List.mem_map, List.mem_filter, FunctionBinding.isFor, Bool.and_eq_true, beq_iff_eq]
  constructor
  · rintro ⟨b, ⟨hb, hname⟩, rfl⟩
    exact ⟨b, hb, rfl, hname⟩
  · rintro ⟨b, hb, rfl, hname⟩
    exact ⟨b, ⟨hb, hname⟩, rfl⟩

theorem mem_functionArities_iff {e : ScopeId} : arity ∈ s.functionArities e name ↔
    (s.findFunction? e name arity).isSome := by
  rw [functionArities, mem_sortedArities, List.mem_flatMap, isSome_findFunction?_iff]
  simp only [mem_arities_iff, BindsFunction]

/-! ### The law -/

/-- A name is looked up with numbers of parameters, of which some are bound to a function. A number
    that is bound gives its function. For one that is not, there is an error of its own if nothing
    is bound; otherwise the error has the numbers that would be found, in increasing order. -/
structure IsExact (look : Int → Except RuntimeError FunctionId) (bound : Int → FunctionId → Prop)
    (unknown : RuntimeError) (wrongArity : List Int → Int → RuntimeError) : Prop where
  eq_ok_iff : ∀ n f, look n = .ok f ↔ bound n f
  eq_unknown_iff : ∀ n, look n = .error unknown ↔ ∀ m f, ¬ bound m f
  exists_wrongArity_iff : ∀ n, (∃ arities, look n = .error (wrongArity arities n)) ↔
    (∀ f, ¬ bound n f) ∧ ∃ m f, bound m f
  of_wrongArity : ∀ n arities, look n = .error (wrongArity arities n) →
    arities.Pairwise (· < ·) ∧ n ∉ arities ∧ ∀ m, m ∈ arities ↔ ∃ f, look m = .ok f

/-- Lookups follow the law if they give what is in a table, and list the numbers of the table where
    there is nothing. -/
theorem isExact_of_table {look : Int → Except RuntimeError FunctionId} {unknown : RuntimeError}
    {wrongArity : List Int → Int → RuntimeError} {find? : Int → Option FunctionId}
    {listed : List Int}
    (hlook : ∀ n, look n = match find? n with
      | some f => .ok f
      | none => match listed with
        | [] => .error unknown
        | arities => .error (wrongArity arities n))
    (hlisted : listed.Pairwise (· < ·)) (hmem : ∀ n, n ∈ listed ↔ (find? n).isSome)
    (hne : ∀ arities n, wrongArity arities n ≠ unknown)
    (hinj : ∀ as bs n, wrongArity as n = wrongArity bs n → as = bs) :
    IsExact look (fun n f => find? n = some f) unknown wrongArity := by
  -- How a lookup ends, in terms of the table and of the arities it lists.
  have hok : ∀ n f, look n = .ok f ↔ find? n = some f := by
    intro n f
    rw [hlook]
    cases find? n with
    | some g => simp
    | none => cases listed <;> simp
  have hunknown : ∀ n, look n = .error unknown ↔ find? n = none ∧ listed = [] := by
    intro n
    rw [hlook]
    cases find? n with
    | some g => simp
    | none => cases listed <;> simp [hne]
  have hwrong : ∀ n arities, look n = .error (wrongArity arities n) ↔
      find? n = none ∧ listed ≠ [] ∧ listed = arities := by
    intro n arities
    rw [hlook]
    cases find? n with
    | some g => simp
    | none =>
      cases listed with
      | nil => simp [(hne arities n).symm]
      | cons a as =>
        simp only [Except.error.injEq, true_and, ne_eq, reduceCtorEq, not_false_eq_true]
        exact ⟨hinj _ _ n, fun h => h ▸ rfl⟩
  have hmissing : ∀ n, (∀ f, find? n ≠ some f) ↔ n ∉ listed := by
    intro n
    rw [hmem, Option.not_isSome_iff_eq_none, Option.eq_none_iff_forall_ne_some]
  have hempty : (∀ m f, find? m ≠ some f) ↔ listed = [] := by
    rw [List.eq_nil_iff_forall_not_mem]
    exact forall_congr' hmissing
  refine ⟨hok, fun n => ?_, fun n => ?_, fun n arities h => ?_⟩
  · rw [hunknown, ← hempty, Option.eq_none_iff_forall_ne_some]
    exact and_iff_right_of_imp fun h => h n
  · have hsome : listed ≠ [] ↔ ∃ m f, find? m = some f := by
      rw [Ne, ← hempty]
      simp only [ne_eq, not_forall, not_not]
    simp only [hwrong, exists_and_left, exists_eq', and_true, hsome,
      Option.eq_none_iff_forall_ne_some]
  · obtain ⟨hn, -, rfl⟩ := (hwrong n arities).1 h
    refine ⟨hlisted, (hmissing n).1 (Option.eq_none_iff_forall_ne_some.1 hn), fun m => ?_⟩
    simp only [hok, hmem, Option.isSome_iff_exists]

end Store

open Store

/-- Functions that are looked up from a scope, in any store that is made of scopes inside others,
    objects, functions and updates, and methods that are looked up in an object. A function is
    found in the nearest scope that binds its name with the number of its parameters, and a method
    in the own scope of the object. -/
theorem lookups_are_exact {s : Store} (hs : s.IsForest) :
    (∀ e name, IsExact (fun arity => (lookupFunction e name arity).outcome s)
      (fun arity f => ∃ o, s.Nearest (s.BindsFunction name arity) e o ∧
        (s.scope o).findFunction? name arity = some f)
      (.undefinedFunction name) (.wrongArity name)) ∧
    ∀ o name, IsExact (fun arity => (lookupMethod o name arity).outcome s)
      (fun arity f => (s.scope (s.object o).scope).findFunction? name arity = some f)
      (.missingMethod (s.object o).name name) (.wrongMethodArity (s.object o).name name) := by
  refine ⟨fun e name => ?_, fun o name => ?_⟩
  · simp only [← findFunction?_eq_some_iff hs.isOrdered]
    refine isExact_of_table (fun n => outcome_lookupFunction s e name n)
      (sortedArities_pairwise _) (fun n => mem_functionArities_iff) nofun ?_
    rintro as bs n ⟨⟩
    rfl
  · refine isExact_of_table (fun n => outcome_lookupMethod s name o n)
      (sortedArities_pairwise _) (fun n => mem_sortedArities.trans mem_arities_iff) nofun ?_
    rintro as bs n ⟨⟩
    rfl

/-- A function with two parameters is found behind one of the same name that has one. There is none
    with three, and the error lists those of both scopes. -/
theorem lookups_are_exact_behind :
    let f := Label.text "f"
    let s : Store := ⟨#[⟨none, [], [⟨f, 2, 0⟩, ⟨f, 0, 1⟩]⟩, ⟨some 0, [], [⟨f, 1, 2⟩]⟩],
      #[.host "f" 2 (.constant .nil), .host "f" 0 (.constant .nil), .host "f" 1 (.constant .nil)],
      #[]⟩
    s.IsForest ∧ (lookupFunction 1 f 2).outcome s = .ok 0 ∧
      ∃ arities, (lookupFunction 1 f 3).outcome s = .error (.wrongArity f arities 3) ∧
        arities.Pairwise (· < ·) ∧ 3 ∉ arities ∧ 2 ∈ arities ∧ 1 ∈ arities := by
  intro f s
  have hs : s.IsForest := by
    have hfunctions := (((IsForest.empty.function (.host "f" 2 (.constant .nil))).function
      (.host "f" 0 (.constant .nil))).function (.host "f" 1 (.constant .nil)))
    have hroot := IsForest.update (.defineFunction 0 ⟨f, 0, 1⟩)
      (.update (.defineFunction 0 ⟨f, 2, 0⟩) (.root hfunctions))
    exact (IsForest.update (.defineFunction 1 ⟨f, 1, 2⟩) (hroot.inside (p := 0) (by decide)) :)
  have hexact := (lookups_are_exact hs).1 1 f
  have hone : (lookupFunction 1 f 1).outcome s = .ok 2 :=
    (hexact.eq_ok_iff 1 2).2 ⟨1, .here rfl, rfl⟩
  have htwo : (lookupFunction 1 f 2).outcome s = .ok 0 :=
    (hexact.eq_ok_iff 2 0).2 ⟨0, .outside Bool.false_ne_true rfl (.here rfl), rfl⟩
  -- Neither the scope nor the one around it binds three parameters.
  have hthree : ∀ g, ¬ ∃ o, s.Nearest (s.BindsFunction f 3) 1 o ∧
      (s.scope o).findFunction? f 3 = some g := by
    rintro g ⟨o, ho, -⟩
    cases ho with
    | here h => cases h
    | outside _ hp ho =>
      cases hp
      cases ho with
      | here h => cases h
      | outside _ hp _ => cases hp
  obtain ⟨arities, herror⟩ := (hexact.exists_wrongArity_iff 3).2
    ⟨hthree, 2, 0, (hexact.eq_ok_iff 2 0).1 htwo⟩
  obtain ⟨hpairwise, hnot, hlisted⟩ := hexact.of_wrongArity 3 arities herror
  exact ⟨hs, htwo, arities, herror, hpairwise, hnot, (hlisted 2).2 ⟨0, htwo⟩,
    (hlisted 1).2 ⟨2, hone⟩⟩

end Blockscript
