import Blockscript.Store.Basic

/-!
# Scopes of a store

Every update of a store changes one scope or adds one, so that what the others hold
is what they held. What is found in a scope or along a chain is one of the bindings
of the scope where it is found.

* `scope_addScope`, `scope_updateScope`: the scopes after an update;
* `exists_of_findVariable?`, `exists_of_findFunction?`: where a binding is found;
* `run_defineVariable`, `run_assignVariable`, `run_setField`, …: the outcomes of the steps
  on a store.
-/

namespace Blockscript

namespace Scope

variable {c : Scope} {name : Label}

/-- A variable that is found is one of the scope. -/
theorem mem_of_findVariable? {v : Variable} (h : c.findVariable? name = some v) : v ∈ c.vars :=
  List.mem_of_find?_eq_some h

/-- A function that is found is one of the scope, with as many parameters as asked for. -/
theorem exists_of_findFunction? {arity : Int} {f : FunctionId}
    (h : c.findFunction? name arity = some f) :
    ∃ b ∈ c.functions, b.arity = arity ∧ b.function = f := by
  rw [findFunction?, Option.map_eq_some_iff] at h
  obtain ⟨b, hb, rfl⟩ := h
  have hfor := List.find?_some hb
  simp only [FunctionBinding.isFor, Bool.and_eq_true, beq_iff_eq] at hfor
  exact ⟨b, List.mem_of_find?_eq_some hb, hfor.1, rfl⟩

/-- After an assignment, a variable is one that was there or holds the new value. -/
theorem mem_vars_setVariable {value : Value} {v : Variable}
    (h : v ∈ (c.setVariable name value).vars) : v ∈ c.vars ∨ v.value = value := by
  obtain ⟨u, hu, rfl⟩ := List.mem_map.1 h
  split
  · exact .inr rfl
  · exact .inl hu

end Scope

namespace Store

variable {s : Store}

/-! ### Updates -/

/-- A scope that is not there binds nothing. -/
theorem scope_of_size_le {i : ScopeId} (h : s.scopes.size ≤ i) : s.scope i = .empty none := by
  rw [scope, Array.getElem?_eq_none h, Option.getD_none]

/-- The new scope comes after all others, and these stay as they are. -/
theorem scope_addScope (parent : Option ScopeId) (s : Store) (i : ScopeId) :
    (s.addScope parent).scope i = if i = s.scopes.size then .empty parent else s.scope i := by
  obtain ⟨scopes, functions, objects⟩ := s
  simp only [scope, addScope, Array.getElem?_push]
  split <;> rfl

/-- An update changes one scope, if it is there. -/
theorem scope_updateScope (id : ScopeId) (f : Scope → Scope) (s : Store) (i : ScopeId) :
    (s.updateScope id f).scope i =
      if i = id ∧ i < s.scopes.size then f (s.scope i) else s.scope i := by
  obtain ⟨scopes, functions, objects⟩ := s
  simp only [scope, updateScope, Array.getElem?_modify]
  by_cases hi : id = i
  · subst hi
    by_cases hlt : id < scopes.size
    · simp [hlt]
    · simp [hlt]
  · rw [if_neg hi, if_neg fun h => hi h.1.symm]

/-! ### Lookups -/

/-- The nearest variable is found in its own scope. -/
theorem exists_of_findVariable? {id owner : ScopeId} {name : Label} {v : Variable}
    (h : s.findVariable? id name = some (owner, v)) :
    (s.scope owner).findVariable? name = some v := by
  obtain ⟨i, _, hi⟩ := List.exists_of_findSome?_eq_some h
  obtain ⟨u, hu, heq⟩ := Option.map_eq_some_iff.1 hi
  obtain ⟨rfl, rfl⟩ := Prod.mk.inj heq
  exact hu

/-- The nearest function is found in one of the scopes that are seen. -/
theorem exists_of_findFunction? {id : ScopeId} {name : Label} {arity : Int} {f : FunctionId}
    (h : s.findFunction? id name arity = some f) :
    ∃ i ∈ s.chain id, (s.scope i).findFunction? name arity = some f :=
  List.exists_of_findSome?_eq_some h

/-! ### Steps -/

variable (s) (id : ScopeId) (name : Label)

/-- What a declaration does to a store. -/
theorem run_defineVariable (v : Variable) : (defineVariable id v).run s =
    if ((s.scope id).findVariable? v.name).isSome then .error (.variableRedefinition v.name) s
    else .ok () (s.updateScope id (·.addVariable v)) := by
  rw [defineVariable, EStateM.run_bind, EStateM.run_get]
  simp only
  split <;> rfl

theorem run_lookupVariable : (lookupVariable id name).run s =
    match s.findVariable? id name with
    | some (_, v) => .ok v s
    | none => .error (.undefinedVariable name) s := by
  rw [lookupVariable, EStateM.run_bind, EStateM.run_get]
  simp only
  cases s.findVariable? id name <;> rfl

/-- What an assignment does to a store. -/
theorem run_assignVariable (value : Value) : (assignVariable id name value).run s =
    match s.findVariable? id name with
    | none => .error (.undefinedVariable name) s
    | some (owner, v) =>
      if v.isConstant then .error (.constantAssignment name) s
      else .ok () (s.updateScope owner (·.setVariable name value)) := by
  rw [assignVariable, EStateM.run_bind, EStateM.run_get]
  simp only
  cases s.findVariable? id name with
  | none => rfl
  | some found =>
    simp only
    split <;> rfl

/-- What a definition does to a store. -/
theorem run_defineFunction (b : FunctionBinding) : (defineFunction id b).run s =
    if ((s.scope id).findFunction? b.name b.arity).isSome then
      .error (.functionRedefinition b.name b.arity) s
    else .ok () (s.updateScope id (·.addFunction b)) := by
  rw [defineFunction, EStateM.run_bind, EStateM.run_get]
  simp only
  split <;> rfl

/-- A function is found, or the error tells of the numbers of parameters that there are. -/
theorem run_lookupFunction (arity : Int) : (lookupFunction id name arity).run s =
    match s.findFunction? id name arity with
    | some f => .ok f s
    | none => match s.functionArities id name with
      | [] => .error (.undefinedFunction name) s
      | arities => .error (.wrongArity name arities arity) s := by
  rw [lookupFunction, EStateM.run_bind, EStateM.run_get]
  simp only
  cases s.findFunction? id name arity with
  | some f => rfl
  | none => cases s.functionArities id name <;> rfl

variable (o : ObjectId)

/-- A field is looked for in the object alone. -/
theorem run_getField : (getField o name).run s =
    match (s.scope (s.object o).scope).findVariable? name with
    | some v => .ok v.value s
    | none => .error (.missingField (s.object o).name name) s := by
  rw [getField, EStateM.run_bind, EStateM.run_get]
  simp only
  cases (s.scope (s.object o).scope).findVariable? name <;> rfl

/-- What an assignment to a field does to a store. -/
theorem run_setField (value : Value) : (setField o name value).run s =
    match (s.scope (s.object o).scope).findVariable? name with
    | none => .error (.missingField (s.object o).name name) s
    | some v =>
      if v.isConstant then .error (.constantAssignment name) s
      else .ok () (s.updateScope (s.object o).scope (·.setVariable name value)) := by
  rw [setField, EStateM.run_bind, EStateM.run_get]
  simp only [EStateM.run_bind, EStateM.run_get]
  cases (s.scope (s.object o).scope).findVariable? name with
  | none => rfl
  | some v =>
    simp only
    split <;> rfl

/-- A method is found in the object alone, or the error tells of the numbers of parameters that
    there are. -/
theorem run_lookupMethod (arity : Int) : (lookupMethod o name arity).run s =
    match (s.scope (s.object o).scope).findFunction? name arity with
    | some f => .ok f s
    | none => match sortedArities ((s.scope (s.object o).scope).arities name) with
      | [] => .error (.missingMethod (s.object o).name name) s
      | arities => .error (.wrongMethodArity (s.object o).name name arities arity) s := by
  rw [lookupMethod, EStateM.run_bind, EStateM.run_get]
  simp only
  cases (s.scope (s.object o).scope).findFunction? name arity with
  | some f => rfl
  | none => cases sortedArities ((s.scope (s.object o).scope).arities name) <;> rfl

end Store

end Blockscript
