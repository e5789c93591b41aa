import Blockscript.Proofs.Store.Chain

/-!
# Forests of scopes

Scopes are made inside others that are there, or on their own, so that parents make a *forest* of
them. Variables and functions are bound and assigned in it, and objects have scopes of it; none of
this changes what is inside of what, whatever of it fails. Names stand for what is bound in the
*nearest* scope that binds them, which is the scope itself or is found from parent to parent.

* `Update`, `Store.IsForest`: the updates of a store, and the stores that are made by them;
* `Store.IsForest.isOrdered`: parents are older than the scopes inside them;
* `Store.Nearest`: the first scope outwards with some property;
* `findVariable?_eq_some_iff`, `findFunction?_eq_some_iff`: what is found is bound in the nearest
  scope;
* `isSome_findFunction?_iff`: something is found if any scope of the chain binds it.
-/

namespace Blockscript

namespace Storing

variable {α : Type}

/-- What a step on a store gives. -/
def outcome (step : Storing α) (s : Store) : Except RuntimeError α :=
  match step.run s with
  | .ok a _ => .ok a
  | .error e _ => .error e

/-- The store after a step, however it ends. -/
def after (step : Storing α) (s : Store) : Store :=
  match step.run s with
  | .ok _ t => t
  | .error _ t => t

end Storing

/-- What may be done to the scopes of a store. -/
inductive Update where
  | defineVariable (scope : ScopeId) (v : Variable)
  | assignVariable (scope : ScopeId) (name : Label) (value : Value)
  | defineFunction (scope : ScopeId) (b : FunctionBinding)
  | setField (object : ObjectId) (field : Label) (value : Value)

/-- An update as a step on the store. -/
def Update.step : Update → Storing Unit
  | .defineVariable scope v => Store.defineVariable scope v
  | .assignVariable scope name value => Store.assignVariable scope name value
  | .defineFunction scope b => Store.defineFunction scope b
  | .setField object field value => Store.setField object field value

namespace Store

/-- The stores that are made of nothing: by making scopes inside others or on their own, functions
    and objects, and by updates, which may fail. -/
inductive IsForest : Store → Prop
  | empty : IsForest .empty
  | root {s : Store} : IsForest s → IsForest (s.addScope none)
  | inside {s : Store} {p : ScopeId} : IsForest s → p < s.scopes.size →
      IsForest (s.addScope (some p))
  | function {s : Store} (f : Function) : IsForest s → IsForest (s.addFunction f)
  | object {s : Store} {o : Object} : IsForest s → o.scope < s.scopes.size →
      IsForest (s.addObject o)
  | update {s : Store} (u : Update) : IsForest s → IsForest (u.step.after s)

variable {s t : Store} {i o p : ScopeId} {name : Label} {arity : Int}

/-! ### Parents -/

theorem isOrdered_addScope_none (hs : s.IsOrdered) : (s.addScope none).IsOrdered := by
  intro i q hq
  rw [scope_addScope] at hq
  split at hq
  · cases hq
  · exact hs i q hq

/-- An update that fails does nothing, and one that does not changes the bindings of a scope. -/
theorem run_step_eq_or (u : Update) (s : Store) :
    (∃ e, u.step.run s = .error e s) ∨ ∃ owner g, u.step.run s = .ok () (s.updateScope owner g) ∧
      ∀ c : Scope, (g c).parent = c.parent := by
  -- Each update checks first and then changes the bindings of one scope, whose parent it leaves.
  cases u with
  | defineVariable scope v =>
    rw [Update.step, run_defineVariable]
    split
    · exact .inl ⟨_, rfl⟩
    · exact .inr ⟨_, _, rfl, fun _ => rfl⟩
  | assignVariable scope name value =>
    rw [Update.step, run_assignVariable]
    split
    · exact .inl ⟨_, rfl⟩
    · split
      · exact .inl ⟨_, rfl⟩
      · exact .inr ⟨_, _, rfl, fun _ => rfl⟩
  | defineFunction scope b =>
    rw [Update.step, run_defineFunction]
    split
    · exact .inl ⟨_, rfl⟩
    · exact .inr ⟨_, _, rfl, fun _ => rfl⟩
  | setField object field value =>
    rw [Update.step, run_setField]
    split
    · exact .inl ⟨_, rfl⟩
    · split
      · exact .inl ⟨_, rfl⟩
      · exact .inr ⟨_, _, rfl, fun _ => rfl⟩

/-- Every update keeps parents older than their children. -/
theorem isOrdered_after (hs : s.IsOrdered) (u : Update) : (u.step.after s).IsOrdered := by
  rw [Storing.after]
  rcases run_step_eq_or u s with ⟨e, hrun⟩ | ⟨owner, g, hrun, hparent⟩
  · rw [hrun]
    exact hs
  · rw [hrun]
    exact isOrdered_updateScope hs hparent owner

/-- By induction on how the forest is made. -/
theorem IsForest.isOrdered (hs : s.IsForest) : s.IsOrdered := by
  induction hs with
  | empty =>
    intro i q hq
    have hscope : Store.empty.scope i = .empty none := scope_of_size_le (Nat.zero_le i)
    rw [hscope] at hq
    cases hq
  | root _ ih => exact isOrdered_addScope_none ih
  | inside _ hp ih => exact isOrdered_addScope ih hp
  | function _ _ ih => exact ih
  | object _ _ ih => exact ih
  | update u _ ih => exact isOrdered_after ih u

/-! ### The nearest scope -/

/-- From a scope outwards, another one is the first with some property. -/
inductive Nearest (s : Store) (P : ScopeId → Prop) : ScopeId → ScopeId → Prop
  | here {i : ScopeId} : P i → Nearest s P i i
  | outside {i p o : ScopeId} : ¬ P i → (s.scope i).parent = some p → Nearest s P p o →
      Nearest s P i o

namespace Nearest

variable {P Q : ScopeId → Prop}

theorem holds (h : s.Nearest P i o) : P o := by
  induction h with
  | here hi => exact hi
  | outside _ _ _ ih => exact ih

/-- There is one nearest scope at most. -/
theorem unique {o' : ScopeId} (h : s.Nearest P i o) (h' : s.Nearest P i o') : o = o' := by
  induction h with
  | here hi =>
    cases h' with
    | here _ => rfl
    | outside hi' _ _ => exact absurd hi hi'
  | outside hi hp _ ih =>
    cases h' with
    | here hi' => exact absurd hi' hi
    | outside _ hp' h' =>
      obtain rfl := Option.some.inj (hp.symm.trans hp')
      exact ih h'

/-- A scope stays the nearest one if fewer scopes have the property, but itself has it. -/
theorem of_imp (h : s.Nearest P i o) (hQ : ∀ j, Q j → P j) (ho : Q o) : s.Nearest Q i o := by
  induction h with
  | here _ => exact .here ho
  | outside hi hp _ ih => exact .outside (fun h => hi (hQ _ h)) hp (ih ho)

/-- If one more scope is looked for, it may be nearer. -/
theorem or_eq (h : s.Nearest P i o) (e : ScopeId) :
    s.Nearest (fun j => j = e ∨ P j) i e ∨ s.Nearest (fun j => j = e ∨ P j) i o := by
  induction h with
  | here hi => exact .inr (.here (.inr hi))
  | @outside i p o hi hp _ ih =>
    by_cases hie : i = e
    · subst hie
      exact .inl (.here (.inl rfl))
    · have hi' : ¬ (i = e ∨ P i) := fun h => h.elim hie hi
      exact ih.imp (.outside hi' hp) (.outside hi' hp)

/-- Only parents and the property matter. -/
theorem congr (hparent : ∀ j, (t.scope j).parent = (s.scope j).parent) (hP : ∀ j, Q j ↔ P j) :
    t.Nearest Q i o ↔ s.Nearest P i o := by
  obtain rfl : Q = P := funext fun j => propext (hP j)
  constructor
  · intro h
    induction h with
    | here hi => exact .here hi
    | outside hi hp _ ih => exact .outside hi ((hparent _).symm.trans hp) ih
  · intro h
    induction h with
    | here hi => exact .here hi
    | outside hi hp _ ih => exact .outside hi ((hparent _).trans hp) ih

end Nearest

/-- What is found first along the chain of a scope is found in the nearest scope where there is
    something to be found. -/
theorem findSome?_chain_eq_some_iff {β : Type} (hs : s.IsOrdered) {f : ScopeId → Option β} {b : β} :
    (s.chain i).findSome? f = some b ↔
      ∃ o, s.Nearest (fun j => (f j).isSome) i o ∧ f o = some b := by
  -- By strong induction on the scope: a parent has a smaller number, so the chain ends.
  induction i using Nat.strongRecOn with
  | ind i ih =>
    cases hi : f i with
    | some a =>
      have hfound : (f i).isSome := by rw [hi]; rfl
      obtain ⟨ids, hids⟩ := s.exists_chain_eq i
      rw [hids, List.findSome?_cons, hi]
      constructor
      · rintro ⟨⟩
        exact ⟨i, .here hfound, hi⟩
      · rintro ⟨o, ho, hb⟩
        obtain rfl := ho.unique (.here hfound)
        exact hi.symm.trans hb
    | none =>
      have hmissing : ¬ (f i).isSome := by rw [hi]; exact Bool.false_ne_true
      cases hp : (s.scope i).parent with
      | none =>
        rw [chain_of_root hp, List.findSome?_cons, hi]
        constructor
        · exact nofun
        · rintro ⟨o, ho, hb⟩
          cases ho with
          | here ho => exact absurd ho hmissing
          | outside _ hp' _ => exact nomatch hp.symm.trans hp'
      | some p =>
        rw [chain_of_parent hs hp, List.findSome?_cons, hi]
        simp only
        rw [ih p (hs i p hp)]
        constructor
        · rintro ⟨o, ho, hb⟩
          exact ⟨o, .outside hmissing hp ho, hb⟩
        · rintro ⟨o, ho, hb⟩
          cases ho with
          | here ho => exact absurd ho hmissing
          | outside _ hp' ho =>
            obtain rfl := Option.some.inj (hp.symm.trans hp')
            exact ⟨o, ho, hb⟩

/-- A scope binds a variable itself. -/
def BindsVariable (s : Store) (name : Label) (i : ScopeId) : Prop :=
  ((s.scope i).findVariable? name).isSome

/-- A scope itself binds a function of a name with a number of parameters. -/
def BindsFunction (s : Store) (name : Label) (arity : Int) (i : ScopeId) : Prop :=
  ((s.scope i).findFunction? name arity).isSome

/-- A variable is found in the nearest scope that binds its name. -/
theorem findVariable?_eq_some_iff (hs : s.IsOrdered) {v : Variable} :
    s.findVariable? i name = some (o, v) ↔
      s.Nearest (s.BindsVariable name) i o ∧ (s.scope o).findVariable? name = some v := by
  rw [findVariable?, findSome?_chain_eq_some_iff hs]
  simp only [Option.isSome_map, Option.map_eq_some_iff, Prod.mk.injEq]
  constructor
  · rintro ⟨_, ho, v, hv, rfl, rfl⟩
    exact ⟨ho, hv⟩
  · rintro ⟨ho, hv⟩
    exact ⟨o, ho, v, hv, rfl, rfl⟩

/-- A function is found in the nearest scope that binds its name with that number of parameters. -/
theorem findFunction?_eq_some_iff (hs : s.IsOrdered) {f : FunctionId} :
    s.findFunction? i name arity = some f ↔ ∃ o, s.Nearest (s.BindsFunction name arity) i o ∧
      (s.scope o).findFunction? name arity = some f :=
  findSome?_chain_eq_some_iff hs

theorem isSome_findFunction?_iff : (s.findFunction? i name arity).isSome ↔
    ∃ j ∈ s.chain i, s.BindsFunction name arity j :=
  List.findSome?_isSome_iff

end Store

end Blockscript
