import Blockscript.Proofs.Store.Scopes

/-!
# Permanent bindings

What is bound stays bound. A scope *keeps* the bindings of an earlier one if every name that
was bound there still is, to a variable of the same name that is constant if it was so, and
then has the same value, and every function is where it was. A store does so if all scopes do,
and if its functions and objects are where they were. All updates of a store keep what
there was; where a variable gets another value, it must not be a constant.

* `Scope.Keeps`, `Store.Keeps`: a scope, or a store, after another one;
* `Label.same_iff`: names that are the same for a lookup have the same key;
* `keeps_addVariable`, `keeps_setVariable`, `Scope.keeps_addFunction`: updates of a scope;
* `keeps_addScope`, `Store.keeps_addFunction`, `keeps_updateScope`: updates of a store.
-/

namespace Blockscript

/-- Labels are the same name if their keys are. -/
theorem Label.same_iff (a b : Label) : a.same b ↔ a.key? = b.key? := by
  cases a with
  | text s =>
    cases b with
    | text t => simp only [same, key?, beq_iff_eq, Option.some.injEq, Key.text.injEq]
    | other v => simp only [same, beq_iff_eq]
  | other v => simp only [same, beq_iff_eq]

/-- Names that are the same as a third one are the same for every lookup. -/
theorem Label.same_congr {a b c : Label} (hb : a.same b) (hc : a.same c) (l : Label) :
    l.same b = l.same c := by
  rw [Bool.eq_iff_iff, same_iff, same_iff, ← (same_iff a b).1 hb, ← (same_iff a c).1 hc]

namespace Scope

/-- A scope after another one, in which all bindings are still there. -/
structure Keeps (c d : Scope) : Prop where
  vars (name : Label) (v : Variable) : c.findVariable? name = some v →
    ∃ v', d.findVariable? name = some v' ∧ v'.name = v.name ∧ v'.isConstant = v.isConstant ∧
      (v.isConstant → v'.value = v.value)
  functions (name : Label) (arity : Int) (f : FunctionId) :
    c.findFunction? name arity = some f → d.findFunction? name arity = some f

variable {c d e : Scope}

theorem Keeps.refl (c : Scope) : c.Keeps c :=
  ⟨fun _ v h => ⟨v, h, rfl, rfl, fun _ => rfl⟩, fun _ _ _ h => h⟩

/-- What stays bound, and stays bound further on, is bound at the end. -/
theorem Keeps.trans (h : c.Keeps d) (h' : d.Keeps e) : c.Keeps e := by
  refine ⟨fun name v hv => ?_, fun name arity f hf => ?_⟩
  · obtain ⟨u, hu, hname, hconstant, hvalue⟩ := h.vars name v hv
    obtain ⟨w, hw, hname', hconstant', hvalue'⟩ := h'.vars name u hu
    refine ⟨w, hw, hname'.trans hname, hconstant'.trans hconstant, fun hv => ?_⟩
    exact (hvalue' (hconstant.trans hv)).trans (hvalue hv)
  · exact h'.functions name arity f (h.functions name arity f hf)

/-- There is nothing to be kept of a scope that binds nothing. -/
theorem keeps_empty (parent : Option ScopeId) (d : Scope) : (empty parent).Keeps d :=
  ⟨nofun, nofun⟩

/-- New variables come last, so that others are found before them. -/
theorem keeps_addVariable (c : Scope) (v : Variable) : c.Keeps (c.addVariable v) := by
  refine ⟨fun name u hu => ⟨u, ?_, rfl, rfl, fun _ => rfl⟩, fun _ _ _ h => h⟩
  rw [findVariable?] at hu
  rw [findVariable?, addVariable, List.find?_append, hu, Option.some_or]

/-- A new function comes after those of the same name, so that it hides none. -/
theorem keeps_addFunction (c : Scope) (b : FunctionBinding) : c.Keeps (c.addFunction b) := by
  refine ⟨fun _ v h => ⟨v, h, rfl, rfl, fun _ => rfl⟩, fun name arity f hf => ?_⟩
  rw [findFunction?, Option.map_eq_some_iff] at hf
  obtain ⟨b', hb', hf⟩ := hf
  rw [findFunction?, addFunction, List.find?_append, hb', Option.some_or, Option.map_some, hf]

/-- A new variable is found by its name, unless another one is found before. -/
theorem findVariable?_addVariable (c : Scope) (v : Variable) (name : Label) :
    (c.addVariable v).findVariable? name =
      (c.findVariable? name).or (if v.name.same name then some v else none) := by
  rw [findVariable?, addVariable, List.find?_append, findVariable?, List.find?_singleton]

/-- A new function is found by its name and its number of parameters, unless another one is found
    before. -/
theorem findFunction?_addFunction (c : Scope) (b : FunctionBinding) (name : Label) (arity : Int) :
    (c.addFunction b).findFunction? name arity =
      (c.findFunction? name arity).or (if b.isFor name arity then some b.function else none) := by
  rw [findFunction?, addFunction, List.find?_append, findFunction?, List.find?_singleton,
    Option.map_or, apply_ite (Option.map _)]
  rfl

/-- An assignment changes the value of the variables of its name, and nothing else of them. -/
theorem findVariable?_setVariable (c : Scope) (name name' : Label) (value : Value) :
    (c.setVariable name value).findVariable? name' = (c.findVariable? name').map fun v =>
      if v.name.same name then { v with value } else v := by
  rw [findVariable?, setVariable, List.find?_map, findVariable?]
  refine congrArg (fun p => (List.find? p c.vars).map _) (funext fun v => ?_)
  rw [Function.comp_apply]
  split <;> rfl

/-- A variable that is found under a name is the one that is found under any other name that is
    the same for a lookup. -/
theorem findVariable?_congr {name name' : Label} {v : Variable}
    (hv : c.findVariable? name' = some v) (hsame : v.name.same name) :
    c.findVariable? name = some v := by
  rw [findVariable?] at hv ⊢
  have hname := List.find?_some hv
  rw [← hv]
  exact congrArg (List.find? · c.vars) (funext fun u => Label.same_congr hsame hname u.name)

/-- Only a variable that is not constant gets another value. -/
theorem keeps_setVariable {name : Label} {u : Variable} (hu : c.findVariable? name = some u)
    (hconstant : u.isConstant = false) (value : Value) : c.Keeps (c.setVariable name value) := by
  refine ⟨fun name' v hv => ?_, fun _ _ _ h => h⟩
  rw [findVariable?_setVariable, hv, Option.map_some]
  refine ⟨_, rfl, ?_⟩
  -- The variable that is found is the one that gets the value, or it is as it was.
  by_cases hsame : v.name.same name
  · rw [if_pos hsame]
    obtain rfl := Option.some.inj ((findVariable?_congr hv hsame).symm.trans hu)
    exact ⟨rfl, rfl, fun h => absurd h (Bool.eq_false_iff.1 hconstant)⟩
  · rw [if_neg hsame]
    exact ⟨rfl, rfl, fun _ => rfl⟩

end Scope

namespace Store

/-- A store after another one, in which all bindings are still there. -/
structure Keeps (s t : Store) : Prop where
  scopes (i : ScopeId) : (s.scope i).Keeps (t.scope i)
  functions (id : FunctionId) (f : Function) : s.functions[id]? = some f → t.functions[id]? = some f
  objects (id : ObjectId) (o : Object) : s.objects[id]? = some o → t.objects[id]? = some o

variable {s t u : Store}

theorem Keeps.refl (s : Store) : s.Keeps s :=
  ⟨fun _ => .refl _, fun _ _ h => h, fun _ _ h => h⟩

theorem Keeps.trans (h : s.Keeps t) (h' : t.Keeps u) : s.Keeps u :=
  ⟨fun i => (h.scopes i).trans (h'.scopes i),
    fun id f hf => h'.functions id f (h.functions id f hf),
    fun id o ho => h'.objects id o (h.objects id o ho)⟩

/-- A new scope changes no other one. -/
theorem keeps_addScope (parent : Option ScopeId) (s : Store) : s.Keeps (s.addScope parent) := by
  refine ⟨fun i => ?_, fun _ _ h => h, fun _ _ h => h⟩
  rw [scope_addScope]
  split
  · next hi =>
    rw [scope_of_size_le (Nat.le_of_eq hi.symm)]
    exact Scope.keeps_empty none _
  · exact .refl _

theorem keeps_addFunction (f : Function) (s : Store) : s.Keeps (s.addFunction f) := by
  refine ⟨fun _ => .refl _, fun id g hg => ?_, fun _ _ h => h⟩
  obtain ⟨scopes, functions, objects⟩ := s
  have hlt : id ≠ functions.size := Nat.ne_of_lt (Array.getElem?_eq_some_iff.1 hg).1
  rw [addFunction, Array.getElem?_push, if_neg hlt]
  exact hg

/-- An update keeps what is bound if it does so in its scope. -/
theorem keeps_updateScope {owner : ScopeId} {g : Scope → Scope}
    (h : (s.scope owner).Keeps (g (s.scope owner))) : s.Keeps (s.updateScope owner g) := by
  refine ⟨fun i => ?_, fun _ _ h => h, fun _ _ h => h⟩
  rw [scope_updateScope]
  split
  · next hi => exact hi.1 ▸ h
  · exact .refl _

end Store

end Blockscript
