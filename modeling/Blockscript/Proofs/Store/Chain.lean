import Mathlib.Data.List.Basic
import Blockscript.Proofs.Store.Scopes

/-!
# What a scope can see

The *chain* of a scope goes from parent to parent. Parents are older, so that it visits
no scope twice, and the chain of any scope on it is its end. Names are looked up in what
is *visible* from a scope, that is in what the scopes of its chain bind, wherever they lie
in the store.

* `Store.IsOrdered`: parents are older than the scopes inside them;
* `chain_of_parent`, `chain_suffix`, `nodup_chain`: the shape of a chain;
* `Store.visible`: what is bound along a chain;
* `map_findVariable?`, `findFunction?_eq`, `functionArities_eq`: looking up is looking at
  what is visible;
* `visible_addScope`, `visible_updateScope_self`, `visible_setVariable`: what is visible
  after an update.
-/

namespace Blockscript

/-- What a scope binds, wherever it lies. -/
def Scope.bindings (c : Scope) : Scope :=
  { c with parent := none }

namespace Store

/-- Parents are older than the scopes inside them. -/
def IsOrdered (s : Store) : Prop :=
  ∀ i p, (s.scope i).parent = some p → p < i

/-- What is bound along the chain of a scope, the nearest scope first. -/
def visible (s : Store) (id : ScopeId) : List Scope :=
  (s.chain id).map fun i => (s.scope i).bindings

variable {s s' : Store} {id i p : ScopeId} {name : Label}

/-! ### Chains -/

/-- A scope without a parent sees itself alone. -/
theorem chain_of_root (h : (s.scope id).parent = none) : s.chain id = [id] := by
  rw [chain, chainUpTo, h]

/-- There is always enough fuel to get to the end of a chain. -/
theorem chainUpTo_eq_chain (hs : s.IsOrdered) {fuel : Nat} (h : id < fuel) :
    s.chainUpTo fuel id = s.chain id := by
  induction fuel using Nat.strongRecOn generalizing id with
  | ind fuel ih =>
    obtain ⟨fuel, rfl⟩ := Nat.exists_eq_succ_of_ne_zero (Nat.ne_of_gt (Nat.zero_lt_of_lt h))
    cases hp : (s.scope id).parent with
    | none => rw [chain_of_root hp, chainUpTo, hp]
    | some p =>
      have hlt := hs id p hp
      have hfuel := ih fuel (Nat.lt_succ_self fuel) (Nat.lt_of_lt_of_le hlt (Nat.le_of_lt_succ h))
      rw [chain, chainUpTo, chainUpTo, hp]
      simp only
      rw [hfuel, ih id h hlt]

/-- A scope sees itself, and then what its parent sees. -/
theorem chain_of_parent (hs : s.IsOrdered) (h : (s.scope id).parent = some p) :
    s.chain id = id :: s.chain p := by
  rw [chain, chainUpTo, h]
  simp only
  rw [chainUpTo_eq_chain hs (hs id p h)]

/-- A scope is the first of those that it sees. -/
theorem exists_chain_eq (s : Store) (id : ScopeId) : ∃ ids, s.chain id = id :: ids := by
  rw [chain, chainUpTo]
  split
  · exact ⟨_, rfl⟩
  · exact ⟨[], rfl⟩

theorem mem_chain_self (s : Store) (id : ScopeId) : id ∈ s.chain id := by
  obtain ⟨ids, h⟩ := s.exists_chain_eq id
  rw [h]
  exact List.mem_cons_self

/-- A scope sees older scopes only. -/
theorem le_of_mem_chain (hs : s.IsOrdered) (h : i ∈ s.chain id) : i ≤ id := by
  induction id using Nat.strongRecOn with
  | ind id ih =>
    cases hp : (s.scope id).parent with
    | none =>
      rw [chain_of_root hp] at h
      exact Nat.le_of_eq (List.mem_singleton.1 h)
    | some p =>
      rw [chain_of_parent hs hp] at h
      have hlt := hs id p hp
      rcases List.mem_cons.1 h with rfl | h
      · exact Nat.le_refl i
      · exact Nat.le_trans (ih p hlt h) (Nat.le_of_lt hlt)

/-- No scope is seen twice from one, as they get older and older. -/
theorem nodup_chain (hs : s.IsOrdered) (id : ScopeId) : (s.chain id).Nodup := by
  induction id using Nat.strongRecOn with
  | ind id ih =>
    cases hp : (s.scope id).parent with
    | none =>
      rw [chain_of_root hp]
      exact List.pairwise_singleton _ id
    | some p =>
      have hlt := hs id p hp
      rw [chain_of_parent hs hp, List.nodup_cons]
      exact ⟨fun h => Nat.not_le_of_lt hlt (le_of_mem_chain hs h), ih p hlt⟩

/-- The chain of a scope on a chain is its end. -/
theorem chain_suffix (hs : s.IsOrdered) (h : i ∈ s.chain id) : s.chain i <:+ s.chain id := by
  induction id using Nat.strongRecOn with
  | ind id ih =>
    cases hp : (s.scope id).parent with
    | none =>
      rw [chain_of_root hp] at h
      obtain rfl := List.mem_singleton.1 h
      exact List.suffix_rfl
    | some p =>
      rw [chain_of_parent hs hp] at h
      rcases List.mem_cons.1 h with rfl | h
      · exact List.suffix_rfl
      · rw [chain_of_parent hs hp]
        exact (ih p (hs id p hp) h).trans (List.suffix_cons id _)

/-- A chain is the same in all stores in which its scopes have the same parents. -/
theorem chain_congr (h : ∀ i ∈ s.chain id, (s'.scope i).parent = (s.scope i).parent) :
    s'.chain id = s.chain id := by
  have hfuel : ∀ fuel id, (∀ i ∈ s.chainUpTo fuel id, (s'.scope i).parent = (s.scope i).parent) →
      s'.chainUpTo fuel id = s.chainUpTo fuel id := by
    intro fuel
    induction fuel with
    | zero => exact fun _ _ => rfl
    | succ fuel ih =>
      intro id h
      rw [chainUpTo] at h
      rw [chainUpTo, chainUpTo]
      cases hp : (s.scope id).parent with
      | none =>
        rw [hp] at h
        rw [h id List.mem_cons_self, hp]
      | some p =>
        rw [hp] at h
        rw [h id List.mem_cons_self, hp]
        simp only
        rw [ih p fun i hi => h i (List.mem_cons_of_mem id hi)]
  exact hfuel (id + 1) id h

/-- What is visible depends only on the parents and the bindings of the scopes that are seen. -/
theorem visible_congr (hparent : ∀ i ∈ s.chain id, (s'.scope i).parent = (s.scope i).parent)
    (h : ∀ i ∈ s.chain id, (s'.scope i).bindings = (s.scope i).bindings) :
    s'.visible id = s.visible id := by
  rw [visible, visible, chain_congr hparent]
  exact List.map_congr_left h

/-- The scope itself is seen first. -/
theorem head?_visible (s : Store) (id : ScopeId) :
    (s.visible id).head? = some (s.scope id).bindings := by
  obtain ⟨ids, h⟩ := s.exists_chain_eq id
  rw [visible, h]
  rfl

/-- What is visible from a scope is what only its own end of the chain binds, and what is
    visible from a scope on the chain. -/
theorem exists_visible_eq (hs : s.IsOrdered) (h : i ∈ s.chain id) :
    ∃ ids, s.chain id = ids ++ s.chain i ∧ (∀ j ∈ ids, j ∉ s.chain i) ∧
      s.visible id = (ids.map fun j => (s.scope j).bindings) ++ s.visible i := by
  obtain ⟨ids, heq⟩ := chain_suffix hs h
  have hnodup := nodup_chain hs id
  rw [← heq] at hnodup
  refine ⟨ids, heq.symm, fun j hj hj' => ?_, by rw [visible, ← heq, List.map_append, visible]⟩
  exact (List.nodup_append.1 hnodup).2.2 j hj j hj' rfl

/-! ### Lookups -/

/-- The nearest variable of a name is the first one among the visible bindings. -/
theorem map_findVariable? (s : Store) (id : ScopeId) (name : Label) :
    (s.findVariable? id name).map Prod.snd =
      (s.visible id).findSome? fun c => c.findVariable? name := by
  rw [findVariable?, visible, List.findSome?_map, List.map_findSome?]
  congr 1
  funext i
  rw [Function.comp_apply, Option.map_map]
  exact Option.map_id'

theorem mem_chain_of_findVariable? {owner : ScopeId} {v : Variable}
    (h : s.findVariable? id name = some (owner, v)) : owner ∈ s.chain id := by
  obtain ⟨i, hmem, hi⟩ := List.exists_of_findSome?_eq_some h
  obtain ⟨u, _, heq⟩ := Option.map_eq_some_iff.1 hi
  rwa [← (Prod.mk.inj heq).1]

/-- The nearest function of a name is the first one among the visible bindings. -/
theorem findFunction?_eq (s : Store) (id : ScopeId) (name : Label) (arity : Int) :
    s.findFunction? id name arity =
      (s.visible id).findSome? fun c => c.findFunction? name arity := by
  rw [findFunction?, visible, List.findSome?_map]
  rfl

/-- The numbers of parameters of a name are those of all visible functions. -/
theorem functionArities_eq (s : Store) (id : ScopeId) (name : Label) :
    s.functionArities id name = sortedArities ((s.visible id).flatMap fun c => c.arities name) := by
  rw [functionArities, visible, List.flatMap_map]
  rfl

/-! ### Updates -/

/-- A new scope is younger than its parent. -/
theorem isOrdered_addScope (hs : s.IsOrdered) (hp : p < s.scopes.size) :
    (s.addScope (some p)).IsOrdered := by
  intro i q hq
  rw [scope_addScope] at hq
  split at hq
  · next h =>
    obtain rfl := Option.some.inj hq
    rw [h]
    exact hp
  · exact hs i q hq

/-- An update of a scope that keeps its parent keeps the store ordered. -/
theorem isOrdered_updateScope {g : Scope → Scope} (hs : s.IsOrdered)
    (hg : ∀ c, (g c).parent = c.parent) (owner : ScopeId) : (s.updateScope owner g).IsOrdered := by
  intro i q hq
  rw [scope_updateScope] at hq
  split at hq
  · exact hs i q ((hg _).symm.trans hq)
  · exact hs i q hq

theorem size_addScope (parent : Option ScopeId) (s : Store) :
    (s.addScope parent).scopes.size = s.scopes.size + 1 :=
  Array.size_push _

theorem size_updateScope (owner : ScopeId) (g : Scope → Scope) (s : Store) :
    (s.updateScope owner g).scopes.size = s.scopes.size :=
  Array.size_modify

/-- A new scope sees nothing of its own, and what its parent sees. -/
theorem visible_addScope (hs : s.IsOrdered) (hp : p < s.scopes.size) :
    (s.addScope (some p)).visible s.scopes.size = .empty none :: s.visible p := by
  have hscope := scope_addScope (some p) s
  have hold : ∀ i ∈ s.chain p, (s.addScope (some p)).scope i = s.scope i := fun i hi =>
    (hscope i).trans (if_neg (Nat.ne_of_lt (Nat.lt_of_le_of_lt (le_of_mem_chain hs hi) hp)))
  have hnew : (s.addScope (some p)).scope s.scopes.size = .empty (some p) :=
    (hscope _).trans (if_pos rfl)
  have hparent : ((s.addScope (some p)).scope s.scopes.size).parent = some p := by
    rw [hnew]
    rfl
  rw [visible, chain_of_parent (isOrdered_addScope hs hp) hparent, List.map_cons, hnew]
  exact congrArg _ (visible_congr (fun i hi => by rw [hold i hi]) fun i hi => by rw [hold i hi])

section UpdateScope

variable {g : Scope → Scope} (hg : ∀ c, (g c).parent = c.parent)

include hg

/-- An update of bindings changes no parent. -/
theorem parent_updateScope (owner : ScopeId) :
    ((s.updateScope owner g).scope i).parent = (s.scope i).parent := by
  rw [scope_updateScope]
  split
  · exact hg _
  · rfl

/-- An update of bindings changes no chain. -/
theorem chain_updateScope (owner : ScopeId) : (s.updateScope owner g).chain id = s.chain id :=
  chain_congr fun _ _ => parent_updateScope hg owner

/-- An update of the scope itself is seen first. -/
theorem visible_updateScope_self (hs : s.IsOrdered) (hid : id < s.scopes.size)
    (hbindings : ∀ c, (g c).bindings = g c.bindings) :
    (s.updateScope id g).visible id = (s.visible id).modifyHead g := by
  obtain ⟨ids, hids⟩ := s.exists_chain_eq id
  have hnodup := nodup_chain hs id
  rw [hids, List.nodup_cons] at hnodup
  rw [visible, chain_updateScope hg, visible, hids, List.map_cons, List.map_cons,
    List.modifyHead_cons, scope_updateScope, if_pos ⟨rfl, hid⟩, hbindings]
  refine congrArg _ (List.map_congr_left fun i hi => ?_)
  have hne : i ≠ id := fun h => hnodup.1 (h ▸ hi)
  rw [scope_updateScope, if_neg fun h => hne h.1]

end UpdateScope

/-- Among scopes, an assignment changes the first one that binds the variable. -/
theorem map_bindings_setVariable {ids : List ScopeId} (hnodup : ids.Nodup)
    (hlt : ∀ i ∈ ids, i < s.scopes.size) {owner : ScopeId} {v : Variable}
    (h : (ids.findSome? fun i => ((s.scope i).findVariable? name).map (i, ·)) = some (owner, v))
    (value : Value) :
    (ids.map fun i => ((s.updateScope owner (·.setVariable name value)).scope i).bindings) =
      (ids.map fun i => (s.scope i).bindings).replaceF fun c =>
        if (c.findVariable? name).isSome then some (c.setVariable name value) else none := by
  induction ids with
  | nil => cases h
  | cons i ids ih =>
    rw [List.nodup_cons] at hnodup
    rw [List.forall_mem_cons] at hlt
    rw [List.findSome?_cons] at h
    have hbindings : (s.scope i).bindings.findVariable? name = (s.scope i).findVariable? name := rfl
    rw [List.map_cons, List.map_cons, List.replaceF_cons, hbindings, scope_updateScope]
    cases hi : (s.scope i).findVariable? name with
    | some u =>
      rw [hi] at h
      obtain ⟨rfl, rfl⟩ := Prod.mk.inj (Option.some.inj h)
      rw [if_pos ⟨rfl, hlt.1⟩]
      refine congrArg _ (List.map_congr_left fun j hj => ?_)
      have hne : j ≠ i := fun h => hnodup.1 (h ▸ hj)
      rw [scope_updateScope, if_neg fun h => hne h.1]
    | none =>
      rw [hi] at h
      -- The scope where the variable is found binds it, and this one does not.
      have hne : i ≠ owner := by
        rintro rfl
        obtain ⟨j, _, hj⟩ := List.exists_of_findSome?_eq_some h
        obtain ⟨u, hu, heq⟩ := Option.map_eq_some_iff.1 hj
        obtain ⟨rfl, rfl⟩ := Prod.mk.inj heq
        rw [hi] at hu
        cases hu
      rw [if_neg fun h => hne h.1, ih hnodup.2 hlt.2 h]
      rfl

/-- An assignment is seen at the nearest scope that binds the variable. -/
theorem visible_setVariable (hs : s.IsOrdered) (hid : id < s.scopes.size) {owner : ScopeId}
    {v : Variable} (h : s.findVariable? id name = some (owner, v)) (value : Value) :
    (s.updateScope owner (·.setVariable name value)).visible id = (s.visible id).replaceF fun c =>
      if (c.findVariable? name).isSome then some (c.setVariable name value) else none := by
  have hparent : ∀ c : Scope, (c.setVariable name value).parent = c.parent := fun _ => rfl
  rw [visible, chain_updateScope hparent, visible]
  refine map_bindings_setVariable (nodup_chain hs id) (fun i hi => ?_) h value
  exact Nat.lt_of_le_of_lt (le_of_mem_chain hs hi) hid

end Store

end Blockscript
