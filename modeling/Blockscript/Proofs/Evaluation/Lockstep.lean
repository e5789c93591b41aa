import Blockscript.Proofs.Evaluation.Congruence
import Blockscript.Proofs.Evaluation.Scoped

/-!
# Evaluations in lockstep

Names are looked up, and variables are bound and assigned, by what is visible alone. All
other steps do not look at scopes, but open some. By that, every construct goes in
lockstep if its parts do, and so do whole expressions, statements and calls.

* `uniform_defineVariable`, `uniform_assignVariable`, `uniform_lookupFunction`, …: bindings;
* `isCongruence_lockstep`: constructs;
* `lockstep_callFunction`: calls, which run inside the globals;
* `lockstep_steps`: all of them, by induction on the number of steps.
-/

namespace Blockscript

open Node

variable {k : Setting} {s t : State}

/-! ### Objects -/

namespace Store

/-- The text of a value depends on the functions alone if there are no objects. -/
theorem display_congr {s t : Store} (hfunctions : s.functions = t.functions)
    (hs : s.objects = #[]) (ht : t.objects = #[]) (v : Value) : s.display v = t.display v := by
  cases v with
  | function id => rw [display, display, hfunctions]
  | object id => rw [display, display, object, object, hs, ht]; rfl
  | _ => rfl

/-- An object that is not there has no members. -/
theorem scope_object {s : Store} (hs : s.objects = #[]) (id : ObjectId) :
    s.object id = ⟨"", s.scopes.size⟩ ∧ s.scope (s.object id).scope = .empty none := by
  have hobject : s.object id = ⟨"", s.scopes.size⟩ := by
    rw [object, hs]
    rfl
  exact ⟨hobject, by rw [hobject, scope_of_size_le (Nat.le_refl _)]⟩

variable {s : Store} (hs : s.objects = #[]) (id : ObjectId)

include hs

/-- No object is in the store of a run without a host, so that no field is found. -/
theorem run_getField_of_no_objects (field : Label) :
    (getField id field).run s = .error (.missingField "" field) s := by
  obtain ⟨hobject, hscope⟩ := scope_object hs id
  rw [run_getField, hscope, hobject]
  rfl

theorem run_setField_of_no_objects (field : Label) (value : Value) :
    (setField id field value).run s = .error (.missingField "" field) s := by
  obtain ⟨hobject, hscope⟩ := scope_object hs id
  rw [run_setField, hscope, hobject]
  rfl

theorem run_lookupMethod_of_no_objects (name : Label) (arity : Int) :
    (lookupMethod id name arity).run s = .error (.missingMethod "" name) s := by
  obtain ⟨hobject, hscope⟩ := scope_object hs id
  have harities : sortedArities [] = [] := by simp [sortedArities]
  rw [run_lookupMethod, hscope, hobject]
  simp only [Scope.findFunction?, Scope.arities, Scope.empty, List.find?_nil, Option.map_none,
    List.filter_nil, List.map_nil, harities]

end Store

namespace State.Agrees

/-- Both states have the same functions. -/
theorem functions_eq (hs : s.IsScoped k) (ht : t.IsScoped k) (h : s.Agrees t) :
    s.store.functions = t.store.functions :=
  State.functions_eq hs ht (h.visible_globals hs ht)

/-- What the current scope binds is seen first. -/
theorem bindings_current (h : s.Agrees t) :
    (s.store.scope s.current).bindings = (t.store.scope t.current).bindings := by
  have hhead := congrArg List.head? h.visible
  rw [Store.head?_visible, Store.head?_visible] at hhead
  exact Option.some.inj hhead

/-- The nearest variable of a name is the same. -/
theorem map_findVariable? (h : s.Agrees t) (name : Label) :
    (s.store.findVariable? s.current name).map Prod.snd =
      (t.store.findVariable? t.current name).map Prod.snd := by
  rw [Store.map_findVariable?, Store.map_findVariable?, h.visible]

/-- A new variable goes to the scopes that are current in both states, which see the same. -/
theorem addVariable (hs : s.IsScoped k) (ht : t.IsScoped k) (h : s.Agrees t) (v : Variable) :
    State.Agrees { s with store := s.store.updateScope s.current (·.addVariable v) }
      { t with store := t.store.updateScope t.current (·.addVariable v) } := by
  refine ⟨h.output, ?_⟩
  simp only
  rw [Store.visible_updateScope_self _ hs.isOrdered hs.current_lt,
    Store.visible_updateScope_self _ ht.isOrdered ht.current_lt, h.visible]
  all_goals exact fun _ => rfl

/-- A variable is given a value in the scope where it is found. It may be another one in either
    state, at the same distance. -/
theorem setVariable (hs : s.IsScoped k) (ht : t.IsScoped k) (h : s.Agrees t) {name : Label}
    {owner owner' : ScopeId} {v v' : Variable}
    (hx : s.store.findVariable? s.current name = some (owner, v))
    (hy : t.store.findVariable? t.current name = some (owner', v')) (value : Value) :
    State.Agrees { s with store := s.store.updateScope owner (·.setVariable name value) }
      { t with store := t.store.updateScope owner' (·.setVariable name value) } := by
  refine ⟨h.output, ?_⟩
  simp only
  rw [Store.visible_setVariable hs.isOrdered hs.current_lt hx,
    Store.visible_setVariable ht.isOrdered ht.current_lt hy, h.visible]

end State.Agrees

namespace Evaluation

variable {α : Type}

/-! ### Steps that do not look at scopes -/

theorem uniform_fail (e : RuntimeError) : Uniform k (fail e : Evaluation α) :=
  .throw _

theorem uniform_faulty (f : Fault) : Uniform k (faulty f : Evaluation α) :=
  .throw _

theorem uniform_checkName (name : Label) : Uniform k (checkName name) := by
  rw [checkName]
  split
  · exact .pure ()
  · exact uniform_faulty _

/-- A change of the state is uniform if it keeps the states alike and in proper form. -/
theorem uniform_modify {g : State → State}
    (hagrees : ∀ s t : State, s.IsScoped k → t.IsScoped k → s.Agrees t → (g s).Agrees (g t))
    (hleads : ∀ s : State, s.IsScoped k → s.Leads k (g s)) :
    Uniform k (modify g : Evaluation PUnit) :=
  uniform_of_run fun s t hs ht h => ⟨rfl, hagrees s t hs ht h, hleads s hs, hleads t ht⟩

theorem uniform_print (line : String) : Uniform k (modify (·.print line) : Evaluation PUnit) := by
  refine uniform_modify (fun s t _ _ h => ⟨?_, h.visible⟩) fun s hs =>
    .of_store_eq hs rfl rfl rfl rfl rfl
  exact congrArg (· ++ line ++ "\n") h.output

/-- An event is logged or printed from both states. -/
theorem uniform_record (e : Event) : Uniform k (modify (·.record e) : Evaluation PUnit) := by
  refine uniform_modify (fun s t hs ht h => ?_) fun s hs => ?_
  · rw [State.record, State.record, hs.logIsOpen, ht.logIsOpen]
    split
    · exact ⟨h.output, h.visible⟩
    · exact ⟨congrArg (· ++ e.text ++ "\n") h.output, h.visible⟩
  · rw [State.record]
    split
    · exact .of_store_eq hs rfl rfl rfl rfl rfl
    · exact .of_store_eq hs rfl rfl rfl rfl rfl

/-- There is no bound on the digits of a number. -/
theorem uniform_checkDigits (exceeds : Nat → Bool) : Uniform k (checkDigits exceeds) := by
  refine uniform_of_run fun s t hs ht h => ?_
  rw [run_checkDigits, run_checkDigits, hs.digitLimit, ht.digitLimit]
  exact ⟨rfl, h, .refl hs, .refl ht⟩

/-- The text of a value does not depend on scopes. -/
theorem uniform_textOf (v : Value) : Uniform k (textOf v) := by
  refine .get (fun s t hs ht h => ?_) fun s _ => ?_
  · rw [Store.display_congr (h.functions_eq hs ht) hs.objects ht.objects v]
  · split
    · exact .pure _
    · exact .throw _

/-- An event is logged from a level on, which is the same in both states. -/
theorem lockstep_logFrom {level : Nat} {event' event : Evaluation Event}
    (h : Lockstep k event' event) : Lockstep k (logFrom level event') (logFrom level event) := by
  refine .get (fun s t hs ht _ => ?_) fun s _ => ?_
  · rw [hs.level, ht.level]
  · split
    · exact h.bind fun e => uniform_record e
    · exact .pure ()

/-! ### Bindings -/

/-- A step on the store in the current scope, by its run. -/
theorem uniform_storing {f : ScopeId → Storing α}
    (h : ∀ s t : State, s.IsScoped k → t.IsScoped k → s.Agrees t →
      Alike k s t ((storing (f s.current)).run s) ((storing (f t.current)).run t)) :
    Uniform k (do storing (f (← get).current)) :=
  uniform_of_run h

/-- A variable is bound in the current scope, or its name is bound there already. -/
theorem uniform_defineVariable (name : Label) (isConstant : Bool) (value : Value) :
    Uniform k (defineVariable name isConstant value) := by
  refine (uniform_checkName name).bind fun _ => uniform_storing
    (f := (Store.defineVariable · ⟨name, isConstant, value⟩)) fun s t hs ht h => ?_
  have hbound : ((s.store.scope s.current).findVariable? name).isSome =
      ((t.store.scope t.current).findVariable? name).isSome :=
    congrArg (fun c => (c.findVariable? name).isSome) h.bindings_current
  rw [run_storing, run_storing, Store.run_defineVariable, Store.run_defineVariable, hbound]
  by_cases hvar : ((t.store.scope t.current).findVariable? name).isSome
  · simp only [hvar, if_true]
    exact ⟨rfl, h, .refl hs, .refl ht⟩
  · simp only [hvar, Bool.false_eq_true, if_false]
    exact ⟨rfl, h.addVariable hs ht _,
      .updateScope hs (Store.mem_chain_self _ _) (fun _ => rfl) fun _ => rfl,
      .updateScope ht (Store.mem_chain_self _ _) (fun _ => rfl) fun _ => rfl⟩

/-- A variable is read in the nearest scope that binds its name. -/
theorem uniform_readVariable (name : Label) : Uniform k (readVariable name) := by
  have hassoc : readVariable name = (do
      checkName name
      let v ← (do storing (Store.lookupVariable (← get).current name))
      return v.value) := rfl
  rw [hassoc]
  refine (uniform_checkName name).bind fun _ => Lockstep.bind (uniform_storing
    (f := (Store.lookupVariable · name)) fun s t hs ht h => ?_) fun v => .pure v.value
  have hfound := h.map_findVariable? name
  rw [run_storing, run_storing, Store.run_lookupVariable, Store.run_lookupVariable]
  cases hx : s.store.findVariable? s.current name with
  | none =>
    rw [hx, Option.map_none, eq_comm, Option.map_eq_none_iff] at hfound
    rw [hfound]
    exact ⟨rfl, h, .refl hs, .refl ht⟩
  | some found =>
    rw [hx, Option.map_some, eq_comm, Option.map_eq_some_iff] at hfound
    obtain ⟨found', hy, heq⟩ := hfound
    rw [hy]
    exact ⟨congrArg Except.ok heq.symm, h, .refl hs, .refl ht⟩

/-- A variable is given a value in the nearest scope that binds its name. -/
theorem uniform_assignVariable (name : Label) (value : Value) :
    Uniform k (assignVariable name value) := by
  refine (uniform_checkName name).bind fun _ => uniform_storing
    (f := (Store.assignVariable · name value)) fun s t hs ht h => ?_
  have hfound := h.map_findVariable? name
  rw [run_storing, run_storing, Store.run_assignVariable, Store.run_assignVariable]
  -- Both states find a binding or neither does, and then in scopes their views relate.
  cases hx : s.store.findVariable? s.current name with
  | none =>
    rw [hx, Option.map_none, eq_comm, Option.map_eq_none_iff] at hfound
    rw [hfound]
    exact ⟨rfl, h, .refl hs, .refl ht⟩
  | some found =>
    rw [hx, Option.map_some, eq_comm, Option.map_eq_some_iff] at hfound
    obtain ⟨⟨owner', v'⟩, hy, heq⟩ := hfound
    obtain ⟨owner, v⟩ := found
    obtain rfl : v' = v := heq
    rw [hy]
    by_cases hconst : v'.isConstant
    · simp only [hconst, if_true]
      exact ⟨rfl, h, .refl hs, .refl ht⟩
    · simp only [hconst]
      exact ⟨rfl, h.setVariable hs ht hx hy value,
        .updateScope hs (Store.mem_chain_of_findVariable? hx) (fun _ => rfl) fun _ => rfl,
        .updateScope ht (Store.mem_chain_of_findVariable? hy) (fun _ => rfl) fun _ => rfl⟩

/-- Functions are bound in the globals alone, or by the host, so that they are the same from every
    scope. -/
theorem uniform_lookupFunction (name : Label) (arity : Int) :
    Uniform k (lookupFunction name arity) := by
  refine (uniform_checkName name).bind fun _ => uniform_storing
    (f := (Store.lookupFunction · name arity)) fun s t hs ht h => ?_
  rw [run_storing, run_storing, Store.run_lookupFunction, Store.run_lookupFunction,
    Store.findFunction?_eq, Store.findFunction?_eq, Store.functionArities_eq,
    Store.functionArities_eq, h.visible]
  cases (t.store.visible t.current).findSome? fun c => c.findFunction? name arity with
  | some f => exact ⟨rfl, h, .refl hs, .refl ht⟩
  | none =>
    cases Store.sortedArities ((t.store.visible t.current).flatMap fun c => c.arities name) with
    | nil => exact ⟨rfl, h, .refl hs, .refl ht⟩
    | cons _ _ => exact ⟨rfl, h, .refl hs, .refl ht⟩

/-- There are no objects whose members could be looked up. -/
theorem uniform_storing_of_run {step : Storing α} {e : RuntimeError}
    (h : ∀ s : Store, s.objects = #[] → step.run s = .error e s) : Uniform k (storing step) := by
  refine uniform_of_run fun s t hs ht hst => ?_
  rw [run_storing, run_storing, h s.store hs.objects, h t.store ht.objects]
  exact ⟨rfl, hst, .refl hs, .refl ht⟩

theorem uniform_getField (id : ObjectId) (field : Label) : Uniform k (getField id field) :=
  (uniform_checkName field).bind fun _ =>
    uniform_storing_of_run fun _ hs => Store.run_getField_of_no_objects hs id field

theorem uniform_setField (id : ObjectId) (field : Label) (value : Value) :
    Uniform k (setField id field value) :=
  (uniform_checkName field).bind fun _ =>
    uniform_storing_of_run fun _ hs => Store.run_setField_of_no_objects hs id field value

theorem uniform_lookupMethod (id : ObjectId) (name : Label) (arity : Int) :
    Uniform k (lookupMethod id name arity) :=
  (uniform_checkName name).bind fun _ =>
    uniform_storing_of_run fun _ hs => Store.run_lookupMethod_of_no_objects hs id name arity

/-! ### Constructs -/

/-- Being in lockstep is kept by all that an evaluation is made of. -/
theorem isCongruence_lockstep : IsCongruence (fun {_} => Lockstep k) where
  pure := .pure
  throw := .throw
  bind := .bind
  inNewScope := .inNewScope
  logFrom h _ := lockstep_logFrom h
  print := uniform_print
  checkDigits := uniform_checkDigits
  textOf := uniform_textOf
  defineVariable := uniform_defineVariable
  readVariable := uniform_readVariable
  assignVariable := uniform_assignVariable
  lookupFunction := uniform_lookupFunction
  getField := uniform_getField
  setField := uniform_setField
  lookupMethod := uniform_lookupMethod

/-- A call does not depend on the scope in which it is made. -/
theorem lockstep_callFunction {x' x : (depth : Nat) → Node → Evaluation Outcome}
    (hx : ∀ depth n, Lockstep k (x' depth n) (x depth n)) (depth : Nat) (id : FunctionId)
    (arguments : List Value) :
    Lockstep k (callFunction x' depth id arguments) (callFunction x depth id arguments) := by
  refine .get (fun s t hs ht h => ?_) fun s hs => ?_
  · rw [h.functions_eq hs ht]
  split
  · exact isCongruence_lockstep.perform _
  · next name parameters body closure hf =>
    obtain rfl := hs.closure_eq hf
    cases depth with
    | zero => exact uniform_fail _
    | succ depth =>
      have hbody := isCongruence_lockstep.executeAll fun n (_ : n ∈ body) => hx depth n
      exact isCongruence_lockstep.callDefined (Lockstep.inGlobals
        ((isCongruence_lockstep.bindParameters parameters arguments).bind fun _ => hbody))
  · exact uniform_faulty _

/-! ### Whole evaluations -/

/-- By induction on the number of steps: with one step more, parts go in lockstep as they
    did before. -/
theorem lockstep_steps {P : State → Bool} (hP : ∀ s : State, s.IsScoped k → P s) (steps : Nat) :
    (∀ depth n, Lockstep k (evaluateGuarded P steps depth n) (evaluate steps depth n)) ∧
    (∀ depth n, Lockstep k (executeGuarded P steps depth n) (execute steps depth n)) ∧
    ∀ depth id arguments,
      Lockstep k (invokeGuarded P steps depth id arguments) (invoke steps depth id arguments) := by
  induction steps with
  | zero =>
    refine ⟨fun depth n => ?_, fun depth n => ?_, fun depth id arguments => ?_⟩
    · rw [evaluateGuarded, evaluate]
      exact .throw _
    · rw [executeGuarded, execute]
      exact .throw _
    · rw [invokeGuarded, invoke]
      exact .throw _
  | succ steps ih =>
    obtain ⟨hevaluate, hexecute, hinvoke⟩ := ih
    refine ⟨fun depth n => ?_, fun depth n => ?_, fun depth id arguments => ?_⟩
    · rw [evaluateGuarded, evaluate]
      exact Lockstep.guarded hP
        (isCongruence_lockstep.evaluateNode (hevaluate depth) (hinvoke depth) n)
    · rw [executeGuarded, execute]
      exact Lockstep.guarded hP (isCongruence_lockstep.executeNode (hevaluate depth)
        (hexecute depth) steps 0 (fun _ _ _ => Lockstep.throw _) n)
    · rw [invokeGuarded, invoke]
      exact (lockstep_callFunction hexecute depth id arguments).guarded hP

end Evaluation

end Blockscript
