import Blockscript.Proofs.Evaluation.Runs
import Blockscript.Proofs.Evaluation.Scoped

/-!
# The course of a run

Some relations between states hold *along* every step: between the state before it and the one
after it, however it ends. If such a relation holds between a state and itself, and from one
state to the one after the next, it is enough to look at the updates of a state, one by one.
All constructs are made of them.

* `Evaluation.Along`: a relation between the states before and after a step;
* `Evaluation.IsCourse`: relations that hold between a state and itself, over a state between,
  and along printing, logging and assignments;
* `along_storing`: steps on the store;
* `IsCourse.isExpressive`, `IsCourse.isRunCongruence`: constructs.
-/

namespace Blockscript.Evaluation

variable {α β : Type} {T : State → State → Prop}

/-- A relation that holds between the states before and after a step, however it ends. -/
def Along (T : State → State → Prop) (p : Evaluation α) : Prop :=
  ∀ s, T s (stateAfter (p.run s))

/-- Two steps that are the same, and along which a relation holds. -/
abbrev AlongSelf (T : State → State → Prop) (p' p : Evaluation α) : Prop :=
  p' = p ∧ Along T p

/-- What is passed along a step relates it to itself. -/
theorem Along.self {p : Evaluation α} (h : Along T p) : AlongSelf T p p :=
  ⟨rfl, h⟩

/-- The store after a step on it. -/
def storeAfter : EStateM.Result RuntimeError Store α → Store
  | .ok _ s => s
  | .error _ s => s

/-- Nothing but the store is changed by a step on it. -/
theorem stateAfter_storing (step : Storing α) (s : State) :
    stateAfter ((storing step).run s) = { s with store := storeAfter (step.run s.store) } := by
  rw [run_storing]
  cases step.run s.store <;> rfl

/-- A step on the store is passed if the change of the store is. -/
theorem along_storing {step : Storing α}
    (h : ∀ s : State, T s { s with store := storeAfter (step.run s.store) }) :
    Along T (storing step) := by
  intro s
  rw [stateAfter_storing]
  exact h s

/-- A result with a change to its state. -/
def changing (f : State → State) : EStateM.Result Halt State α → EStateM.Result Halt State α
  | .ok a s => .ok a (f s)
  | .error h s => .error h (f s)

theorem stateAfter_changing (f : State → State) (x : EStateM.Result Halt State α) :
    stateAfter (changing f x) = f (stateAfter x) := by
  cases x <;> rfl

theorem valueOf_changing (f : State → State) (x : EStateM.Result Halt State α) :
    valueOf (changing f x) = valueOf x := by
  cases x <;> rfl

theorem changing_changing (f g : State → State) (x : EStateM.Result Halt State α) :
    changing g (changing f x) = changing (fun s => g (f s)) x := by
  cases x <;> rfl

/-- The log is closed after a step, however that ends. -/
theorem run_closingLog_eq (p : Evaluation α) (s : State) :
    (closingLog p).run s = changing State.closeLog (p.run s) := by
  rw [run_closingLog]
  cases p.run s <;> rfl

/-- A relation of states that are passed one after the other in a run, where nothing is done to
    them, something is printed or logged, or a variable gets another value. -/
structure IsCourse (T : State → State → Prop) : Prop where
  refl (s : State) : T s s
  trans {s t u : State} : T s t → T t u → T s u
  record (e : Event) (s : State) : T s (s.record e)
  print (line : String) (s : State) : T s (s.print line)
  assign {s : State} {owner : ScopeId} {name : Label} {v : Variable} (value : Value) :
    (s.store.scope owner).findVariable? name = some v → v.isConstant = false →
      T s { s with store := s.store.updateScope owner (·.setVariable name value) }

namespace IsCourse

variable (hT : IsCourse T) {p : Evaluation α} {f : α → Evaluation β}

include hT

/-- Nothing has happened: a course may stay where it is. -/
theorem pure (a : α) : Along T (Pure.pure a) :=
  hT.refl

theorem throw (h : Halt) : Along T (MonadExcept.throw h : Evaluation α) :=
  hT.refl

/-- Steps one after the other make one course. -/
theorem bind (hp : Along T p) (hf : ∀ a, Along T (f a)) : Along T (p >>= f) := by
  intro s
  have hs := hp s
  rw [EStateM.run_bind]
  cases hrun : p.run s with
  | error h t =>
    rw [hrun] at hs
    exact hs
  | ok a t =>
    rw [hrun] at hs
    exact hT.trans hs (hf a t)

theorem get : Along T MonadState.get :=
  hT.refl

theorem checkName (name : Label) : Along T (checkName name) := by
  rw [Evaluation.checkName]
  split
  · exact hT.pure ()
  · exact hT.throw _

/-- An event may take steps to be made, and it is recorded. -/
theorem logFrom {event : Evaluation Event} (level : Nat) (h : Along T event) :
    Along T (logFrom level event) := by
  refine hT.bind hT.get fun s => ?_
  split
  · exact hT.bind h fun e => hT.record e
  · exact hT.pure _

/-- To count digits changes nothing. -/
theorem checkDigits (exceeds : Nat → Bool) : Along T (checkDigits exceeds) := by
  refine hT.bind hT.get fun s => ?_
  split
  · exact hT.throw _
  · exact hT.pure _

/-- To look for a text changes nothing. -/
theorem textOf (v : Value) : Along T (textOf v) := by
  refine hT.bind hT.get fun s => ?_
  split
  · exact hT.pure _
  · exact hT.throw _

/-! ### Bindings -/

/-- Looking at the store does not change it. -/
theorem looking {step : Storing α} (h : ∀ s : Store, storeAfter (step.run s) = s) :
    Along T (storing step) := by
  refine along_storing fun s => ?_
  rw [h]
  exact hT.refl s

/-- A step on the store for a name, in the current scope. -/
theorem named (name : Label) (step : ScopeId → Storing α) (h : ∀ c, Along T (storing (step c))) :
    Along T (do
      Evaluation.checkName name
      storing (step (← MonadState.get).current)) :=
  hT.bind (hT.checkName name) fun _ => hT.bind hT.get fun s => h s.current

/-- To look for a name changes nothing. -/
theorem readVariable (name : Label) : Along T (readVariable name) := by
  refine hT.bind (hT.checkName name) fun _ => hT.bind hT.get fun s => ?_
  refine hT.bind (hT.looking fun t => ?_) fun v => hT.pure v.value
  rw [Store.run_lookupVariable]
  cases t.findVariable? s.current name <;> rfl

theorem lookupFunction (name : Label) (arity : Int) : Along T (lookupFunction name arity) := by
  refine hT.named name (Store.lookupFunction · name arity) fun c => hT.looking fun t => ?_
  rw [Store.run_lookupFunction]
  cases t.findFunction? c name arity with
  | some f => rfl
  | none => cases t.functionArities c name <;> rfl

theorem getField (id : ObjectId) (field : Label) : Along T (getField id field) := by
  refine hT.bind (hT.checkName field) fun _ => hT.looking fun t => ?_
  rw [Store.run_getField]
  cases (t.scope (t.object id).scope).findVariable? field <;> rfl

theorem lookupMethod (id : ObjectId) (name : Label) (arity : Int) :
    Along T (lookupMethod id name arity) := by
  refine hT.bind (hT.checkName name) fun _ => hT.looking fun t => ?_
  rw [Store.run_lookupMethod]
  cases (t.scope (t.object id).scope).findFunction? name arity with
  | some f => rfl
  | none => cases Store.sortedArities ((t.scope (t.object id).scope).arities name) <;> rfl

/-- An assignment changes the value of a variable that is there, and nothing else. -/
theorem assignVariable (name : Label) (v : Value) : Along T (assignVariable name v) := by
  refine hT.named name (Store.assignVariable · name v) fun c => along_storing fun s => ?_
  rw [Store.run_assignVariable]
  cases hfound : s.store.findVariable? c name with
  | none => exact hT.refl s
  | some found =>
    cases hconstant : found.2.isConstant with
    | true =>
      simp only [hconstant, if_true]
      exact hT.refl s
    | false =>
      simp only [hconstant, if_neg Bool.false_ne_true]
      exact hT.assign v (Store.exists_of_findVariable? hfound) hconstant

/-- A field is given its value as a variable is. -/
theorem setField (id : ObjectId) (field : Label) (v : Value) : Along T (setField id field v) := by
  refine hT.bind (hT.checkName field) fun _ => along_storing fun s => ?_
  rw [Store.run_setField]
  cases hfound : (s.store.scope (s.store.object id).scope).findVariable? field with
  | none => exact hT.refl s
  | some u =>
    cases hconstant : u.isConstant with
    | true =>
      simp only [hconstant, if_true]
      exact hT.refl s
    | false =>
      simp only [hconstant, if_neg Bool.false_ne_true]
      exact hT.assign v hfound hconstant

/-- A variable is bound in the current scope, and only where there is none of its name. -/
theorem defineVariable {name : Label} {isConstant : Bool} {value : Value}
    (h : ∀ s : State, (s.store.scope s.current).findVariable? name = none →
      T s { s with
        store := s.store.updateScope s.current (·.addVariable ⟨name, isConstant, value⟩) }) :
    Along T (defineVariable name isConstant value) := by
  refine hT.bind (hT.checkName name) fun _ s => ?_
  rw [EStateM.run_bind, EStateM.run_get]
  simp only
  rw [stateAfter_storing, Store.run_defineVariable]
  cases hfound : (s.store.scope s.current).findVariable? name with
  | some v => exact hT.refl s
  | none => exact h s hfound

/-! ### Constructs -/

/-- All that evaluations are made of is passed, if all single steps are. -/
theorem isExpressive : IsExpressive fun {_} => AlongSelf T where
  pure a := (hT.pure a).self
  throw h := (hT.throw h).self
  bind h hf := ⟨congrArg₂ _ h.1 (funext fun a => (hf a).1), hT.bind h.2 fun a => (hf a).2⟩
  logFrom h _ := ⟨congrArg _ h.1, hT.logFrom _ h.2⟩
  print line := Along.self (hT.print line)
  checkDigits exceeds := (hT.checkDigits exceeds).self
  textOf v := (hT.textOf v).self
  getField id field := (hT.getField id field).self
  setField id field v := (hT.setField id field v).self
  lookupMethod id name arity := (hT.lookupMethod id name arity).self
  readVariable name := (hT.readVariable name).self
  assignVariable name v := (hT.assignVariable name v).self
  lookupFunction name arity := (hT.lookupFunction name arity).self

/-- Every round of a loop is passed. -/
theorem repeatWhile {condition : Evaluation Bool} {body : Evaluation Outcome}
    {increment : Evaluation Unit} (hcondition : Along T condition) (hbody : Along T body)
    (hincrement : Along T increment) (rounds : Nat) :
    Along T (repeatWhile condition body increment rounds) :=
  (hT.isExpressive.repeatWhile_self hcondition.self hbody.self hincrement.self rounds).2

/-- Relations that do not look at the store hold along all constructs if they hold along steps
    in other scopes. -/
theorem isRunCongruence (hstoring : ∀ {α : Type} (step : Storing α), Along T (storing step))
    (hwithin : ∀ {α : Type} (c : ScopeId) {p : Evaluation α}, Along T p → Along T (within c p)) :
    IsRunCongruence fun {_} => AlongSelf T :=
  have hR := hT.isExpressive
  IsStoreCongruence.isRunCongruence
    { pure := hR.pure
      throw := hR.throw
      bind := hR.bind
      logFrom := hR.logFrom
      print := hR.print
      checkDigits := hR.checkDigits
      storing := fun step => (hstoring step).self
      current := Along.self hT.refl
      within := fun c h => ⟨congrArg _ h.1, hwithin c h.2⟩ }

end IsCourse

end Blockscript.Evaluation
