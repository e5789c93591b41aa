import Blockscript.Proofs.Evaluation.Course

/-!
# Orderly states

The store of a run may hold anything that a host has put there, and the tree may come from
anywhere. Still the current scope is there, and so are the scopes where functions were defined,
and a scope is made after the one around it. Such a state is *orderly*. It *grows* into another
one if that one is orderly too, with the same current scope, and if all scopes keep their parents.
Every part of a run lets the orderly state in which it begins grow, so that all states that the
run reaches are orderly.

* `State.IsOrderly`, `State.Grows`: states whose scopes are there, and what becomes of them;
* `Evaluation.Orderly`: a step that lets orderly states grow, and the same step with a guard;
* `isCongruence_orderly`, `orderly_callFunction`: constructs and calls;
* `orderly_steps`, `orderly_steps_self`: expressions, statements and calls;
* `Reaches.isOrderly`: the states that a run reaches.
-/

namespace Blockscript

/-- A state whose current scope is there, and whose functions were defined in scopes that are
    there. Parents are older than the scopes inside them. -/
structure State.IsOrderly (s : State) : Prop where
  isOrdered : s.store.IsOrdered
  current_lt : s.current < s.store.scopes.size
  closure_lt {id : FunctionId} {name : Label} {parameters : List Label} {body : List Node}
    {closure : ScopeId} : s.store.functions[id]? = some (.defined name parameters body closure) →
      closure < s.store.scopes.size

/-- An orderly state after another one, with the same current scope. The scopes that were there
    have the parents that they had. -/
structure State.Grows (s t : State) : Prop where
  isOrderly : t.IsOrderly
  current : t.current = s.current
  size_le : s.store.scopes.size ≤ t.store.scopes.size
  parent : ∀ i < s.store.scopes.size, (t.store.scope i).parent = (s.store.scope i).parent

variable {s t u : State} {q : ScopeId} {n m : Nat}

namespace State

/-! ### States that grow -/

namespace Grows

/-- An orderly state grows out of itself. -/
theorem refl (hs : s.IsOrderly) : s.Grows s :=
  ⟨hs, rfl, Nat.le_refl _, fun _ _ => rfl⟩

/-- Growing further is growing. -/
theorem trans (h : s.Grows t) (h' : t.Grows u) : s.Grows u := by
  refine ⟨h'.isOrderly, h'.current.trans h.current, Nat.le_trans h.size_le h'.size_le, ?_⟩
  intro i hi
  exact (h'.parent i (Nat.lt_of_lt_of_le hi h.size_le)).trans (h.parent i hi)

/-- Output and log are not looked at. -/
theorem of_store_eq (hs : s.IsOrderly) (hstore : t.store = s.store)
    (hcurrent : t.current = s.current) : s.Grows t := by
  obtain ⟨hordered, hlt, hclosure⟩ := hs
  refine ⟨⟨?_, ?_, ?_⟩, hcurrent, Nat.le_of_eq (by rw [hstore]), fun i _ => by rw [hstore]⟩
  · exact hstore ▸ hordered
  · rwa [hstore, hcurrent]
  · rwa [hstore]

/-- An update that keeps the parent of a scope makes nothing younger. -/
theorem updateScope (hs : s.IsOrderly) (owner : ScopeId) {g : Scope → Scope}
    (hparent : ∀ c, (g c).parent = c.parent) :
    s.Grows { s with store := s.store.updateScope owner g } := by
  have hsize := Store.size_updateScope owner g s.store
  refine ⟨⟨Store.isOrdered_updateScope hs.isOrdered hparent owner, ?_, ?_⟩, rfl,
    Nat.le_of_eq hsize.symm, fun i _ => Store.parent_updateScope hparent owner⟩
  · exact Nat.lt_of_lt_of_eq hs.current_lt hsize.symm
  · exact fun h => Nat.lt_of_lt_of_eq (hs.closure_lt h) hsize.symm

/-- One more function, which was defined in a scope that is there. -/
theorem addFunction (hs : s.IsOrderly) {name : Label} {parameters : List Label}
    {body : List Node} {closure : ScopeId} (hclosure : closure < s.store.scopes.size) :
    s.Grows (s.mapStore (Store.addFunction (.defined name parameters body closure))) := by
  refine ⟨⟨hs.isOrdered, hs.current_lt, fun {id _ _ _ _} h => ?_⟩, rfl, Nat.le_refl _,
    fun _ _ => rfl⟩
  have hpush : (s.store.functions.push (.defined name parameters body closure))[id]? = _ := h
  rw [Array.getElem?_push] at hpush
  split at hpush
  · cases hpush
    exact hclosure
  · exact hs.closure_lt hpush

end Grows

/-- The scope that is entered is the youngest one. -/
theorem IsOrderly.entered (hs : s.IsOrderly) (hq : q < s.store.scopes.size) :
    (s.entered q).IsOrderly := by
  refine ⟨Store.isOrdered_addScope hs.isOrdered hq, ?_, fun h => ?_⟩
  · rw [size_entered]
    exact Nat.lt_succ_self _
  · rw [size_entered]
    exact Nat.lt_succ_of_lt (hs.closure_lt h)

/-- Leaving a new scope, after anything has been done in it. -/
theorem Grows.returning (hs : s.IsOrderly) (h : (s.entered q).Grows t) :
    s.Grows { t with current := s.current } := by
  have hle : s.store.scopes.size ≤ t.store.scopes.size :=
    Nat.le_trans (size_entered q s ▸ Nat.le_succ _) h.size_le
  refine ⟨⟨h.isOrderly.isOrdered, Nat.lt_of_lt_of_le hs.current_lt hle, h.isOrderly.closure_lt⟩,
    rfl, hle, fun i hi => ?_⟩
  rw [← scope_entered q hi]
  exact h.parent i (size_entered q s ▸ Nat.lt_succ_of_lt hi)

end State

namespace Evaluation

variable {α β : Type} {g p : Evaluation α} {g' f : α → Evaluation β}

/-! ### Steps from orderly states -/

/-- A step from an orderly state with some number of scopes lets it grow, and the same step
    with a guard does the same. -/
def Orderly (n : Nat) (guard step : Evaluation α) : Prop :=
  ∀ s, s.IsOrderly → n ≤ s.store.scopes.size →
    guard.run s = step.run s ∧ s.Grows (stateAfter (step.run s))

/-- The states that are passed one after the other. -/
theorem isCourse_grows (n : Nat) :
    IsCourse fun s t => s.IsOrderly → n ≤ s.store.scopes.size → s.Grows t where
  refl _ hs _ := .refl hs
  trans h h' hs hn :=
    (h hs hn).trans (h' (h hs hn).isOrderly (Nat.le_trans hn (h hs hn).size_le))
  record e s hs _ := by
    rw [State.record]
    split
    · exact .of_store_eq hs rfl rfl
    · exact .of_store_eq hs rfl rfl
  print _ _ hs _ := .of_store_eq hs rfl rfl
  assign _ _ _ hs _ := .updateScope hs _ fun _ => rfl

namespace Orderly

/-- What is passed in a course of growth is orderly. -/
theorem of_along (h : Along (fun s t => s.IsOrderly → n ≤ s.store.scopes.size → s.Grows t) p) :
    Orderly n p p :=
  fun s hs hn => ⟨rfl, h s hs hn⟩

/-- A step that is orderly beside another one is so by itself. -/
theorem self (h : Orderly n g p) : Orderly n p p :=
  fun s hs hn => ⟨rfl, (h s hs hn).2⟩

/-- An orderly step lets the state grow. -/
theorem grows (h : Orderly 0 g p) (hs : s.IsOrderly) : s.Grows (stateAfter (p.run s)) :=
  (h s hs (Nat.zero_le _)).2

/-- A step may be asked of stores with more scopes only. -/
theorem mono (h : Orderly n g p) (hnm : n ≤ m) : Orderly m g p :=
  fun s hs hm => h s hs (Nat.le_trans hnm hm)

theorem throw (h : Halt) : Orderly n (MonadExcept.throw h : Evaluation α) (MonadExcept.throw h) :=
  of_along ((isCourse_grows n).throw h)

/-- Steps one after the other, as the store only gets more scopes. -/
theorem bind (hp : Orderly n g p) (hf : ∀ a, Orderly n (g' a) (f a)) :
    Orderly n (g >>= g') (p >>= f) := by
  intro s hs hn
  obtain ⟨heq, hgrows⟩ := hp s hs hn
  rw [EStateM.run_bind, EStateM.run_bind, heq]
  cases hrun : p.run s with
  | error h t =>
    rw [hrun] at hgrows
    exact ⟨rfl, hgrows⟩
  | ok a t =>
    rw [hrun] at hgrows
    obtain ⟨heq', hgrows'⟩ := hf a t hgrows.isOrderly (Nat.le_trans hn hgrows.size_le)
    exact ⟨heq', hgrows.trans hgrows'⟩

theorem get {g f : State → Evaluation α}
    (h : ∀ s, s.IsOrderly → n ≤ s.store.scopes.size →
      (g s).run s = (f s).run s ∧ s.Grows (stateAfter ((f s).run s))) :
    Orderly n (MonadState.get >>= g) (MonadState.get >>= f) :=
  h

/-- In a new scope inside one that is there. -/
theorem within (h : Orderly n g p) (hq : q < n) :
    Orderly n (do Evaluation.within (← newScope (some q)) g)
      (do Evaluation.within (← newScope (some q)) p) := by
  intro s hs hn
  have hsize : n ≤ (s.entered q).store.scopes.size := by
    rw [State.size_entered]
    exact Nat.le_succ_of_le hn
  obtain ⟨heq, hgrows⟩ := h _ (hs.entered (Nat.lt_of_lt_of_le hq hn)) hsize
  rw [run_within_newScope, run_within_newScope, heq, stateAfter_returning]
  exact ⟨rfl, hgrows.returning hs⟩

/-- A step in a new scope: the scope before is there already, and is the current one again. -/
theorem inNewScope (h : Orderly n g p) :
    Orderly n (Evaluation.inNewScope g) (Evaluation.inNewScope p) :=
  .get fun s hs hn => (h.mono hn).within hs.current_lt s hs (Nat.le_refl _)

theorem logFrom {event' event : Evaluation Event} (h : Orderly n event' event) (level : Nat) :
    Orderly n (Evaluation.logFrom level event') (Evaluation.logFrom level event) := by
  have hT := isCourse_grows n
  refine (of_along hT.get).bind fun s => ?_
  split
  · exact h.bind fun e => of_along (hT.record e)
  · exact of_along (hT.pure _)

/-- A guard that all orderly states pass does not halt a step. -/
theorem guarded {P : State → Bool} (hP : ∀ s : State, s.IsOrderly → P s) (h : Orderly n g p) :
    Orderly n (Evaluation.guarded P g) p := by
  intro s hs hn
  obtain ⟨heq, hgrows⟩ := h s hs hn
  refine ⟨?_, hgrows⟩
  rw [run_guarded, if_pos (hP s hs), heq]
  cases hrun : p.run s with
  | error h t => rfl
  | ok a t =>
    rw [hrun] at hgrows
    exact if_pos (hP t hgrows.isOrderly)

end Orderly

/-! ### Constructs -/

/-- Being orderly is kept by all that an evaluation is made of. -/
theorem isCongruence_orderly (n : Nat) : IsCongruence (fun {_} => Orderly n) :=
  have hT := isCourse_grows n
  { pure := fun a => .of_along (hT.pure a)
    throw := .throw
    bind := .bind
    logFrom := fun h _ => h.logFrom _
    print := fun line => .of_along (hT.print line)
    checkDigits := fun exceeds => .of_along (hT.checkDigits exceeds)
    textOf := fun v => .of_along (hT.textOf v)
    getField := fun id field => .of_along (hT.getField id field)
    setField := fun id field v => .of_along (hT.setField id field v)
    lookupMethod := fun id name arity => .of_along (hT.lookupMethod id name arity)
    readVariable := fun name => .of_along (hT.readVariable name)
    assignVariable := fun name v => .of_along (hT.assignVariable name v)
    lookupFunction := fun name arity => .of_along (hT.lookupFunction name arity)
    inNewScope := .inNewScope
    defineVariable := fun _ _ _ => .of_along (hT.defineVariable fun _ _ hs _ =>
      .updateScope hs _ fun _ => rfl) }

/-- A call opens a scope inside the one where the function was defined, which is there. -/
theorem orderly_callFunction {x' x : (depth : Nat) → Node → Evaluation Outcome}
    (hx : ∀ depth n, Orderly 0 (x' depth n) (x depth n)) (depth : Nat) (id : FunctionId)
    (arguments : List Value) :
    Orderly 0 (callFunction x' depth id arguments) (callFunction x depth id arguments) := by
  rw [callFunction_eq, callFunction_eq]
  refine .get fun s hs hn => ?_
  cases hfound : s.store.functions[id]? with
  | none => exact Orderly.throw _ s hs hn
  | some found =>
    cases found with
    | host name arity action =>
      exact (isCongruence_orderly 0).perform (action.respond arguments) s hs hn
    | defined name parameters body closure =>
      cases depth with
      | zero => exact Orderly.throw _ s hs hn
      | succ depth =>
        -- Binding the parameters and executing the body leave the closure where it is.
        have hR := isCongruence_orderly (closure + 1)
        have hbody := hR.executeAll fun n (_ : n ∈ body) => (hx depth n).mono (Nat.zero_le _)
        have hscope := (hR.bind (hR.bindParameters parameters arguments) fun _ => hbody).within
          (Nat.lt_succ_self closure)
        exact hR.callDefined hscope s hs (hs.closure_lt hfound)

/-- Methods are defined in the current scope. -/
theorem orderly_declareMethod (n : Node) : Orderly 0 (declareMethod n) (declareMethod n) := by
  cases n with
  | method name parameters statements =>
    refine .get fun s hs _ => ?_
    -- From here on there is always the scope that is the current one now.
    have hT := isCourse_grows (s.current + 1)
    have hR := isCongruence_orderly (s.current + 1)
    refine hR.bind (.of_along (hT.bind hT.get fun t => hT.bind ?_ fun _ => ?_)) (fun _ =>
      hR.logFrom (hR.pure _) (makes_define name parameters.length)) s hs hs.current_lt
    · exact fun u hu hn => .addFunction hu hn
    · refine hT.named name (Store.defineFunction · ⟨name, parameters.length, _⟩)
        fun c => along_storing fun u hu _ => ?_
      rw [Store.run_defineFunction]
      split
      · exact .refl hu
      · exact .updateScope hu _ fun _ => rfl
  | _ => exact .throw _

/-! ### Whole evaluations -/

variable {P : State → Bool} (hP : ∀ s : State, s.IsOrderly → P s)

include hP

/-- By induction on the number of steps: with one step more, parts let a state grow as they did
    before. -/
theorem orderly_steps (steps : Nat) :
    (∀ depth n, Orderly 0 (evaluateGuarded P steps depth n) (evaluate steps depth n)) ∧
    (∀ depth n, Orderly 0 (executeGuarded P steps depth n) (execute steps depth n)) ∧
    ∀ depth id arguments,
      Orderly 0 (invokeGuarded P steps depth id arguments) (invoke steps depth id arguments) := by
  have hR := isCongruence_orderly 0
  induction steps with
  | zero =>
    refine ⟨fun depth n => ?_, fun depth n => ?_, fun depth id arguments => ?_⟩
    · rw [evaluateGuarded, evaluate]
      exact .throw _
    · rw [executeGuarded, execute]
      exact .throw _
    · rw [invokeGuarded, invoke]
      exact .throw _
  | succ steps ih =>
    obtain ⟨hevaluate, hexecute, hinvoke⟩ := ih
    refine ⟨fun depth n => ?_, fun depth n => ?_, fun depth id arguments => ?_⟩
    · rw [evaluateGuarded, evaluate]
      exact (hR.evaluateNode (hevaluate depth) (hinvoke depth) n).guarded hP
    · rw [executeGuarded, execute]
      exact (hR.executeNode (hevaluate depth) (hexecute depth) steps 0
        (fun _ _ _ => .throw _) n).guarded hP
    · rw [invokeGuarded, invoke]
      exact (orderly_callFunction hexecute depth id arguments).guarded hP

/-- The guards of a program change nothing from an orderly state. -/
theorem orderly_runNode (limits : Limits) (program : Node) :
    Orderly 0 (runNode (declareFieldGuarded P limits)
        (invokeGuarded P limits.steps limits.depth) program)
      (runNode (declareField limits) (invokeWithin limits) program) := by
  have hR := isCongruence_orderly 0
  obtain ⟨hevaluate, -, hinvoke⟩ := orderly_steps hP limits.steps
  cases program with
  | program fields methods =>
    refine hR.bind (hR.forM fun n => ?_) fun _ => hR.bind (hR.forM orderly_declareMethod) fun _ =>
      hR.bind (hR.lookupFunction _ _) fun main => hinvoke limits.depth main []
    exact (hR.declareNode (hevaluate limits.depth) n).guarded hP
  | _ => exact .throw _

omit hP

/-- What has no guard may have one that everything passes. -/
theorem orderly_steps_self (steps : Nat) :
    (∀ depth n, Orderly 0 (evaluate steps depth n) (evaluate steps depth n)) ∧
    (∀ depth n, Orderly 0 (execute steps depth n) (execute steps depth n)) ∧
    ∀ depth id arguments,
      Orderly 0 (invoke steps depth id arguments) (invoke steps depth id arguments) := by
  obtain ⟨hevaluate, hexecute, hinvoke⟩ := @orderly_steps (fun _ => true) (fun _ _ => rfl) steps
  exact ⟨fun depth n => (hevaluate depth n).self, fun depth n => (hexecute depth n).self,
    fun depth id arguments => (hinvoke depth id arguments).self⟩

/-- The states that a run reaches from an orderly one, by the guard that only such states pass. -/
theorem Reaches.isOrderly {limits : Limits} {program : Node} {start : State}
    (hstart : start.IsOrderly) (hs : Reaches limits program start s) : s.IsOrderly := by
  classical
  have hpass : ∀ t : State, t.IsOrderly → decide t.IsOrderly := fun _ => decide_eq_true
  refine of_decide_eq_true (hs (fun t => decide t.IsOrderly) ?_)
  have hrun := ((orderly_runNode hpass limits program).guarded hpass start hstart
    (Nat.zero_le _)).1
  rw [runProgramGuarded, runProgram, run_closingLog, run_closingLog, hrun]

/-- A run begins in an orderly state where nothing but the standard scope is given. -/
theorem isOrderly_start (level : Nat) :
    (State.start .standard Store.standardScope level).IsOrderly := by
  refine ⟨Store.isOrdered_addScope Store.isOrdered_standard Nat.zero_lt_one, Nat.one_lt_two,
    fun {id _ _ _ _} h => ?_⟩
  -- The only function is one of the host.
  rcases id with _ | id
  · cases h
  · cases h

end Evaluation

end Blockscript
