import Blockscript.Proofs.Evaluation.Sound

/-!
# Steps from sound states

The steps that an evaluation is made of keep states sound: what is bound to a variable
is plain, and so is what is read; a function is found under the number of arguments
that it accepts; and plain values have a text.

* `isSound_updateScope`, `isSound_addFunction`: the updates of a store;
* `run_defineVariable`, `run_readVariable`, `run_lookupFunction`, …: the outcomes of the steps
  that look at a name;
* `meets_defineVariable`, `meets_readVariable`, `meets_lookupFunction`, …: bindings;
* `meets_checkDigits`, `meets_textOf`, `Follows.logFrom`: what is written and logged.
-/

namespace Blockscript

open Node

/-- Plain values have a text. -/
theorem Value.IsPlain.exists_display {v : Value} (h : v.IsPlain) (s : Store) :
    ∃ text, s.display v = .ok text := by
  cases v with
  | decimal d =>
    rw [Store.display, Decimal.isFarAbove_of_exponent_le h]
    exact ⟨_, rfl⟩
  | foreign _ => exact h.elim
  | _ => exact ⟨_, rfl⟩

/-! ### Updates of a store -/

namespace Store

variable {s : Store}

/-- An update keeps a store sound if it binds plain values, and functions to numbers of parameters
    that they accept. -/
theorem isSound_updateScope {owner : ScopeId} {g : Scope → Scope} (h : s.IsSound)
    (hvars : ∀ c, ∀ v ∈ (g c).vars, v ∈ c.vars ∨ v.value.IsPlain)
    (hfunctions : ∀ c, ∀ b ∈ (g c).functions, b ∈ c.functions ∨ s.Accepts b.function b.arity) :
    (s.updateScope owner g).IsSound := by
  intro i
  have hscope := scope_updateScope owner g s i
  refine ⟨?_, ?_⟩ <;> rw [hscope] <;> split
  · exact fun v hv => (hvars _ v hv).elim ((h i).vars v) id
  · exact (h i).vars
  · exact fun b hb => (hfunctions _ b hb).elim ((h i).functions b) id
  · exact (h i).functions

/-- A new function is found at its place, and all others where they were. -/
theorem accepts_addFunction {f : Function} {id : FunctionId} {n : Int}
    (h : s.Accepts id n ∨ id = s.functions.size ∧ f.Accepts n) :
    (s.addFunction f).Accepts id n := by
  obtain ⟨scopes, functions, objects⟩ := s
  rcases h with ⟨f', hf, hn⟩ | ⟨rfl, hn⟩
  · refine ⟨f', ?_, hn⟩
    -- A place that holds a function is not the next one.
    have hlt : id ≠ functions.size := Nat.ne_of_lt (Array.getElem?_eq_some_iff.1 hf).1
    simp only [addFunction, Array.getElem?_push, if_neg hlt]
    exact hf
  · refine ⟨f, ?_, hn⟩
    simp only [addFunction, Array.getElem?_push, if_true]

/-- A new function is bound to nothing yet. -/
theorem isSound_addFunction (f : Function) (h : s.IsSound) : (s.addFunction f).IsSound :=
  fun id => ⟨(h id).vars, fun b hb => accepts_addFunction (.inl ((h id).functions b hb))⟩

end Store

namespace Evaluation

variable {α : Type} {s : State} {Q : α → State → Prop} {name : String} {v : Value}

/-! ### The log -/

/-- Without a bound on digits, none are too many. -/
theorem meets_checkDigits (exceeds : Nat → Bool) :
    (checkDigits exceeds).Meets s fun _ _ => True := by
  refine meets_of_run fun hs => ?_
  rw [run_checkDigits, hs.2]
  exact ⟨hs, trivial⟩

/-- A plain value has a text. -/
theorem meets_textOf (hv : v.IsPlain) : (textOf v).Meets s fun _ _ => True := by
  obtain ⟨text, htext⟩ := hv.exists_display s.store
  refine .get ?_
  simp only [htext]
  exact .pure trivial

/-- Logging does not change the store. -/
theorem isSound_record (e : Event) (hs : s.IsSound) : (s.record e).IsSound := by
  rw [State.record]
  split
  · exact hs
  · exact hs

theorem Follows.logFrom {level : Nat} {watch event : Evaluation Event}
    (h : watch.Follows event s fun _ _ => True) :
    (logFrom level watch).Follows (logFrom level event) s fun _ _ => True := by
  refine .get ?_
  by_cases hlevel : level ≤ s.level
  · rw [if_pos hlevel, if_pos hlevel]
    exact h.bind fun e _ _ => meets_modify (isSound_record e) trivial
  · rw [if_neg hlevel, if_neg hlevel]
    exact .pure trivial

/-! ### The steps of names -/

/-- A step on the store changes nothing else, and its errors are those of the
    program. -/
theorem run_storing {step : Storing α} (s : State) : (storing step).run s =
    match step.run s.store with
    | .ok a t => .ok a { s with store := t }
    | .error e t => .error (.error e) { s with store := t } := by
  obtain ⟨store, current, output, level, log, logIsOpen, digitLimit⟩ := s
  cases h : step store with
  | ok a t => simp only [EStateM.run, storing, h]
  | error e t => simp only [EStateM.run, storing, h]

section Run

variable (name : String) (s : State)

/-- What it means to read a variable, in terms of the store. -/
theorem run_readVariable : (readVariable (.text name)).run s =
    match s.store.findVariable? s.current (.text name) with
    | some (_, v) => .ok v.value s
    | none => .error (.error (.undefinedVariable (.text name))) s := by
  have hrun : (readVariable (.text name)).run s =
      (do return (← storing (Store.lookupVariable s.current (.text name))).value :
        Evaluation Value).run s := rfl
  rw [hrun, EStateM.run_bind, run_storing, Store.run_lookupVariable]
  cases s.store.findVariable? s.current (.text name) <;> rfl

/-- What it means to give a variable a value, in terms of the store. -/
theorem run_assignVariable (v : Value) : (assignVariable (.text name) v).run s =
    match s.store.findVariable? s.current (.text name) with
    | none => .error (.error (.undefinedVariable (.text name))) s
    | some (owner, u) =>
      if u.isConstant then .error (.error (.constantAssignment (.text name))) s
      else .ok ⟨⟩ { s with store := s.store.updateScope owner (·.setVariable (.text name) v) } := by
  have hrun : (assignVariable (.text name) v).run s =
      (storing (Store.assignVariable s.current (.text name) v)).run s := rfl
  rw [hrun, run_storing, Store.run_assignVariable]
  cases s.store.findVariable? s.current (.text name) with
  | none => rfl
  | some found =>
    by_cases hconstant : found.2.isConstant
    · simp only [if_pos hconstant]
    · simp only [if_neg hconstant]

/-- What it means to declare a variable, in terms of the store. -/
theorem run_defineVariable (isConstant : Bool) (v : Value) :
    (defineVariable (.text name) isConstant v).run s =
      if ((s.store.scope s.current).findVariable? (.text name)).isSome then
        .error (.error (.variableRedefinition (.text name))) s
      else .ok ⟨⟩ { s with
        store := s.store.updateScope s.current (·.addVariable ⟨.text name, isConstant, v⟩) } := by
  have hrun : (defineVariable (.text name) isConstant v).run s =
      (storing (Store.defineVariable s.current ⟨.text name, isConstant, v⟩)).run s := rfl
  rw [hrun, run_storing, Store.run_defineVariable]
  by_cases hfound : ((s.store.scope s.current).findVariable? (.text name)).isSome
  · simp only [if_pos hfound]
  · simp only [if_neg hfound]

/-- What it means to look for a function, in terms of the store. -/
theorem run_lookupFunction (arity : Int) : (lookupFunction (.text name) arity).run s =
    match s.store.findFunction? s.current (.text name) arity with
    | some f => .ok f s
    | none => match s.store.functionArities s.current (.text name) with
      | [] => .error (.error (.undefinedFunction (.text name))) s
      | arities => .error (.error (.wrongArity (.text name) arities arity)) s := by
  have hrun : (lookupFunction (.text name) arity).run s =
      (storing (Store.lookupFunction s.current (.text name) arity)).run s := rfl
  rw [hrun, run_storing, Store.run_lookupFunction]
  cases s.store.findFunction? s.current (.text name) arity with
  | some f => rfl
  | none => cases s.store.functionArities s.current (.text name) <;> rfl

/-- The function is in the store before its name is looked up, and stays there if the name is
    bound already. -/
theorem run_defineFunction (arity : Int) (f : Function) :
    (defineFunction (.text name) arity f).run s =
      if ((s.store.scope s.current).findFunction? (.text name) arity).isSome then
        .error (.error (.functionRedefinition (.text name) arity))
          { s with store := s.store.addFunction f }
      else
        let b := ⟨.text name, arity, s.store.functions.size⟩
        .ok ⟨⟩
          { s with store := (s.store.addFunction f).updateScope s.current (·.addFunction b) } := by
  have hrun : (defineFunction (.text name) arity f).run s =
      (storing (Store.defineFunction s.current ⟨.text name, arity, s.store.functions.size⟩)).run
        { s with store := s.store.addFunction f } := rfl
  have hscope : (s.store.addFunction f).scope s.current = s.store.scope s.current := rfl
  rw [hrun, run_storing, Store.run_defineFunction, hscope]
  by_cases hfound : ((s.store.scope s.current).findFunction? (.text name) arity).isSome
  · simp only [if_pos hfound]
  · simp only [if_neg hfound]

end Run

/-! ### Bindings -/

/-- A declaration binds a plain value, or it is an error that the name is bound. -/
theorem meets_defineVariable {isConstant : Bool} (hv : v.IsPlain) :
    (defineVariable (.text name) isConstant v).Meets s fun _ _ => True := by
  refine meets_of_run fun hs => ?_
  rw [run_defineVariable]
  by_cases h : ((s.store.scope s.current).findVariable? (.text name)).isSome
  · rw [if_pos h]
    exact ⟨hs, trivial⟩
  · rw [if_neg h]
    refine ⟨⟨Store.isSound_updateScope hs.store (fun c u hu => ?_) fun _ _ hb => .inl hb, hs.2⟩,
      trivial⟩
    rcases List.mem_append.1 hu with hu | hu
    · exact .inl hu
    · obtain rfl := List.mem_singleton.1 hu
      exact .inr hv

/-- A variable that is read is plain. -/
theorem meets_readVariable : (readVariable (.text name)).Meets s fun v _ => v.IsPlain := by
  refine meets_of_run fun hs => ?_
  rw [run_readVariable]
  cases h : s.store.findVariable? s.current (.text name) with
  | none => exact ⟨hs, trivial⟩
  | some found =>
    have hmem := Scope.mem_of_findVariable? (Store.exists_of_findVariable? h)
    exact ⟨hs, (hs.store found.1).vars found.2 hmem⟩

/-- A variable is given a plain value, or it is an error that there is none, or that it is constant.
    -/
theorem meets_assignVariable (hv : v.IsPlain) :
    (assignVariable (.text name) v).Meets s fun _ _ => True := by
  refine meets_of_run fun hs => ?_
  rw [run_assignVariable]
  cases s.store.findVariable? s.current (.text name) with
  | none => exact ⟨hs, trivial⟩
  | some found =>
    simp only
    by_cases h : found.2.isConstant
    · rw [if_pos h]
      exact ⟨hs, trivial⟩
    · rw [if_neg h]
      refine ⟨⟨Store.isSound_updateScope hs.store (fun c u hu => ?_) fun _ _ hb => .inl hb, hs.2⟩,
        trivial⟩
      rcases Scope.mem_vars_setVariable hu with hu | hu
      · exact .inl hu
      · exact .inr (hu ▸ hv)

/-- A function that is found accepts as many arguments as it was asked for with. -/
theorem meets_lookupFunction {arity : Int} :
    (lookupFunction (.text name) arity).Meets s fun f t => t.store.Accepts f arity := by
  refine meets_of_run fun hs => ?_
  rw [run_lookupFunction]
  cases h : s.store.findFunction? s.current (.text name) arity with
  | some f =>
    obtain ⟨i, _, hf⟩ := Store.exists_of_findFunction? h
    obtain ⟨b, hb, rfl, rfl⟩ := Scope.exists_of_findFunction? hf
    exact ⟨hs, (hs.store i).functions b hb⟩
  | none =>
    cases s.store.functionArities s.current (.text name) with
    | nil => exact ⟨hs, trivial⟩
    | cons _ _ => exact ⟨hs, trivial⟩

/-- A definition binds a function that accepts so many arguments. -/
theorem meets_defineFunction {arity : Int} {f : Function} (hf : f.Accepts arity) :
    (defineFunction (.text name) arity f).Meets s fun _ _ => True := by
  refine meets_of_run fun hs => ?_
  have hadded : (s.store.addFunction f).IsSound := Store.isSound_addFunction f hs.store
  rw [run_defineFunction]
  by_cases h : ((s.store.scope s.current).findFunction? (.text name) arity).isSome
  · rw [if_pos h]
    exact ⟨⟨hadded, hs.2⟩, trivial⟩
  · rw [if_neg h]
    refine ⟨⟨Store.isSound_updateScope hadded (fun _ _ hv => .inl hv) fun c b hb => ?_, hs.2⟩,
      trivial⟩
    rcases List.mem_append.1 hb with hb | hb
    · exact .inl hb
    · obtain rfl := List.mem_singleton.1 hb
      exact .inr (Store.accepts_addFunction (.inr ⟨rfl, hf⟩))

end Evaluation

end Blockscript
