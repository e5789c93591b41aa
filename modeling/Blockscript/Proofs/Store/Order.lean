import Mathlib.Data.List.Perm.Basic
import Mathlib.Data.List.Sort
import Blockscript.Proofs.Store.Chain
import Blockscript.Proofs.Store.Permanent

/-!
# The order of functions

Where a function lies in the store, and before or after which others a scope binds it, depends
on the order in which functions were defined. A name and a number of arguments stand for the
same function in all orders, as long as no scope binds them twice. So two stores are *in
another order* of each other if they differ in nothing else, and they stay so when variables
are bound and assigned.

* `Store.boundAt`: what a scope binds to functions, wherever they lie;
* `Store.Reorders`: a store in another order;
* `Reorders.findVariable?`, `Reorders.map_findFunction?`, `Reorders.functionArities`: looking up;
* `Reorders.updateScope`, `Reorders.addScope`: updates.
-/

namespace Blockscript

/-- A function as it is looked up, by its name and a number of parameters. -/
structure BoundFunction where
  name : Label
  arity : Int
  function : Option Function

/-- Whether a function is looked up under a name and a number of parameters. -/
def BoundFunction.isFor (f : BoundFunction) (name : Label) (arity : Int) : Bool :=
  f.arity == arity && f.name.same name

/-- Functions that are looked up in the same way. -/
theorem BoundFunction.isFor_of_isFor {f g : BoundFunction} {name : Label} {arity : Int}
    (hf : f.isFor name arity) (hg : g.isFor name arity) : f.isFor g.name g.arity := by
  simp only [isFor, Bool.and_eq_true, beq_iff_eq, Label.same_iff] at *
  exact ⟨hf.1.trans hg.1.symm, hf.2.trans hg.2.symm⟩

namespace Store

/-- What a scope binds to functions, in the order in which it was bound. -/
def boundAt (s : Store) (id : ScopeId) : List BoundFunction :=
  (s.scope id).functions.map fun b => ⟨b.name, b.arity, s.functions[b.function]?⟩

/-- A store that binds the same as another one, but may do so in another order. No scope binds
    two functions under one name with one number of parameters. -/
structure Reorders (s t : Store) : Prop where
  size : s.scopes.size = t.scopes.size
  parent : ∀ i, (s.scope i).parent = (t.scope i).parent
  vars : ∀ i, (s.scope i).vars = (t.scope i).vars
  bound : ∀ i, (s.boundAt i).Perm (t.boundAt i)
  unique : ∀ i, ∀ f ∈ t.boundAt i, ∀ g ∈ t.boundAt i, f.isFor g.name g.arity → f = g

variable {s t : Store} {id : ScopeId} {name : Label}

/-! ### What a scope binds -/

/-- The function of a scope is told by what the scope binds, whatever its place in the store is. -/
theorem map_findFunction?_scope (s : Store) (id : ScopeId) (name : Label) (arity : Int) :
    ((s.scope id).findFunction? name arity).map (s.functions[·]?) =
      ((s.boundAt id).find? (·.isFor name arity)).map (·.function) := by
  rw [Scope.findFunction?, boundAt, List.find?_map, Option.map_map, Option.map_map]
  rfl

/-- The nearest function is told by what the scopes bind. -/
theorem map_findFunction? (s : Store) (id : ScopeId) (name : Label) (arity : Int) :
    (s.findFunction? id name arity).map (s.functions[·]?) = (s.chain id).findSome? fun i =>
      ((s.boundAt i).find? (·.isFor name arity)).map (·.function) := by
  rw [findFunction?, List.map_findSome?]
  congr 1
  funext i
  exact s.map_findFunction?_scope i name arity

theorem arities_scope (s : Store) (id : ScopeId) (name : Label) :
    (s.scope id).arities name = ((s.boundAt id).filter (·.name.same name)).map (·.arity) := by
  rw [Scope.arities, boundAt, List.filter_map, List.map_map]
  rfl

/-- The order of numbers is lost when they are put in increasing order. -/
theorem sortedArities_perm {l l' : List Int} (h : l.Perm l') :
    sortedArities l = sortedArities l' := by
  have hsorted : l.mergeSort (fun a b => a ≤ b) = l'.mergeSort (fun a b => a ≤ b) := by
    refine List.Perm.eq_of_pairwise' (r := (· ≤ ·)) (List.pairwise_mergeSort' _ l)
      (List.pairwise_mergeSort' _ l') ?_
    exact (List.mergeSort_perm l _).trans (h.trans (List.mergeSort_perm l' _).symm)
  rw [sortedArities, hsorted, sortedArities]

namespace Reorders

/-- A store is in its own order. -/
theorem refl (h : ∀ i, ∀ f ∈ t.boundAt i, ∀ g ∈ t.boundAt i, f.isFor g.name g.arity → f = g) :
    t.Reorders t :=
  ⟨rfl, fun _ => rfl, fun _ => rfl, fun _ => .refl _, h⟩

/-! ### Lookups -/

theorem chain (h : s.Reorders t) (id : ScopeId) : s.chain id = t.chain id :=
  chain_congr fun i _ => h.parent i

theorem findVariable? (h : s.Reorders t) (id : ScopeId) (name : Label) :
    s.findVariable? id name = t.findVariable? id name := by
  rw [Store.findVariable?, Store.findVariable?, h.chain]
  congr 1
  funext i
  rw [Scope.findVariable?, Scope.findVariable?, h.vars]

/-- Only one function can be found, whatever comes before it. -/
theorem find? (h : s.Reorders t) (id : ScopeId) (name : Label) (arity : Int) :
    (s.boundAt id).find? (·.isFor name arity) = (t.boundAt id).find? (·.isFor name arity) := by
  have hmem : ∀ f, f ∈ s.boundAt id ↔ f ∈ t.boundAt id := fun _ => (h.bound id).mem_iff
  cases hfound : (t.boundAt id).find? (·.isFor name arity) with
  | none =>
    refine List.find?_eq_none.2 fun f hf => ?_
    exact List.find?_eq_none.1 hfound f ((hmem f).1 hf)
  | some g =>
    have hg := List.mem_of_find?_eq_some hfound
    have hgfor := List.find?_some hfound
    cases hfound' : (s.boundAt id).find? (·.isFor name arity) with
    | none => exact absurd hgfor (List.find?_eq_none.1 hfound' g ((hmem g).2 hg))
    | some f =>
      have hf := (hmem f).1 (List.mem_of_find?_eq_some hfound')
      have hffor := List.find?_some hfound'
      rw [h.unique id f hf g hg (BoundFunction.isFor_of_isFor hffor hgfor)]

/-- The nearest functions of two stores that differ in order are the same. -/
theorem map_findFunction? (h : s.Reorders t) (id : ScopeId) (name : Label) (arity : Int) :
    (s.findFunction? id name arity).map (s.functions[·]?) =
      (t.findFunction? id name arity).map (t.functions[·]?) := by
  rw [s.map_findFunction?, t.map_findFunction?, h.chain]
  congr 1
  funext i
  rw [h.find?]

/-- The numbers of parameters are shown in increasing order. -/
theorem functionArities (h : s.Reorders t) (id : ScopeId) (name : Label) :
    s.functionArities id name = t.functionArities id name := by
  rw [Store.functionArities, Store.functionArities, h.chain]
  refine sortedArities_perm (List.Perm.flatMap_left _ fun i _ => ?_)
  rw [arities_scope, arities_scope]
  exact ((h.bound i).filter _).map _

/-! ### Updates -/

/-- An update of the variables of a scope, which depends on them alone. -/
theorem updateScope (h : s.Reorders t) {g : Scope → Scope} (hparent : ∀ c, (g c).parent = c.parent)
    (hfunctions : ∀ c, (g c).functions = c.functions)
    (hvars : ∀ c d, c.vars = d.vars → (g c).vars = (g d).vars) (owner : ScopeId) :
    (s.updateScope owner g).Reorders (t.updateScope owner g) := by
  have hbound : ∀ u : Store, ∀ i, (u.updateScope owner g).boundAt i = u.boundAt i := by
    intro u i
    have hscope : ((u.updateScope owner g).scope i).functions = (u.scope i).functions := by
      rw [scope_updateScope]
      split
      · exact hfunctions _
      · rfl
    rw [boundAt, boundAt, hscope]
    rfl
  refine ⟨?_, fun i => ?_, fun i => ?_, fun i => ?_, fun i => ?_⟩
  · rw [size_updateScope, size_updateScope, h.size]
  · rw [parent_updateScope hparent, parent_updateScope hparent, h.parent]
  · rw [scope_updateScope, scope_updateScope, h.size]
    split
    · exact hvars _ _ (h.vars i)
    · exact h.vars i
  · rw [hbound, hbound]
    exact h.bound i
  · rw [hbound]
    exact h.unique i

theorem addScope (h : s.Reorders t) (parent : Option ScopeId) :
    (s.addScope parent).Reorders (t.addScope parent) := by
  -- The new scope binds nothing, in either store, and has the same number in both.
  have hbound : ∀ u : Store, ∀ i, (u.addScope parent).boundAt i =
      if i = u.scopes.size then [] else u.boundAt i := by
    intro u i
    rw [boundAt, scope_addScope]
    split <;> rfl
  refine ⟨?_, fun i => ?_, fun i => ?_, fun i => ?_, fun i => ?_⟩
  · rw [size_addScope, size_addScope, h.size]
  · rw [scope_addScope, scope_addScope, h.size]
    split
    · rfl
    · exact h.parent i
  · rw [scope_addScope, scope_addScope, h.size]
    split
    · rfl
    · exact h.vars i
  · rw [hbound, hbound, h.size]
    split
    · exact .refl _
    · exact h.bound i
  · rw [hbound]
    split
    · exact nofun
    · exact h.unique i

end Reorders

end Store

end Blockscript
