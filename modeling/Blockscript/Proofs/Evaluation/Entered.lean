import Blockscript.Proofs.Evaluation.Permanent

/-!
# Calls that are looked at

Something may be done whenever a function is called, with its arguments at hand and before
anything else. If it does nothing in the states that a run comes through, the run is the run
itself. A *screen* halts where a function of a program is called in a state that has not some
property, in any way that it is told to, so that no run is the same with all screens of a kind
if it has such a call.

* `evaluateEntering`, `executeEntering`, `invokeEntering`, `runProgramEntering`: evaluations with
  something done at every call;
* `Evaluation.screen`: a look at the functions of a program;
* `Evaluation.AgreesWhile`: steps that are the same while an invariant holds, which they keep;
* `isExpressive_agreesWhile`, `isRunCongruence_agreesWhile`: what is made of such steps;
* `agreesWhile_entering`: evaluations in which nothing is done at a call;
* `agreesWhile_entering_host`: expressions in which only functions of the host can be called.
-/

namespace Blockscript

/-- A function that is not one of a program. -/
def Function.IsOfHost (f : Function) : Prop :=
  ∃ name arity action, f = .host name arity action

namespace Evaluation

section Definitions

variable (enter : FunctionId → Evaluation Unit)

mutual

/-- The value of an expression, with something done at every call. -/
def evaluateEntering : (steps depth : Nat) → Node → Evaluation Value
  | 0, _, _ => throw .outOfSteps
  | steps + 1, depth, node =>
    evaluateNode (evaluateEntering steps depth) (invokeEntering steps depth) node

/-- Executes a statement, with something done at every call. -/
def executeEntering : (steps depth : Nat) → Node → Evaluation Outcome
  | 0, _, _ => throw .outOfSteps
  | steps + 1, depth, node =>
    executeNode steps (evaluateEntering steps depth) (executeEntering steps depth) node

/-- Calls a function with arguments, after something else is done. -/
def invokeEntering : (steps depth : Nat) → FunctionId → List Value → Evaluation Value
  | 0, _, _, _ => throw .outOfSteps
  | steps + 1, depth, id, arguments => do
    enter id
    callFunction (executeEntering steps) depth id arguments

end

variable (limits : Limits)

/-- Declares a field, with something done at every call. -/
def declareFieldEntering (node : Node) : Evaluation Unit :=
  declareNode (evaluateEntering enter limits.steps limits.depth) node

/-- Runs a program, with something done at every call. -/
def runProgramEntering (program : Node) : Evaluation Value :=
  closingLog (runNode (declareFieldEntering enter limits)
    (invokeEntering enter limits.steps limits.depth) program)

end Definitions

/-- Halts if a function of a program is called in a state that has not a property. -/
def screen (P : State → Bool) (alarm : Halt) (id : FunctionId) : Evaluation Unit := do
  let s ← get
  match s.store.functions[id]? with
  | some (.defined ..) => if P s then return () else throw alarm
  | _ => return ()

section Screen

variable {P : State → Bool} {s : State}

theorem run_screen (alarm : Halt) (id : FunctionId) (hP : P s) :
    (screen P alarm id).run s = .ok () s := by
  rw [screen, EStateM.run_bind, EStateM.run_get]
  simp only [hP, if_true]
  split <;> rfl

/-- The functions of a host raise no alarm. -/
theorem run_screen_host (alarm : Halt) {id : FunctionId}
    (h : ∀ f, s.store.functions[id]? = some f → f.IsOfHost) :
    (screen P alarm id).run s = .ok () s := by
  rw [screen, EStateM.run_bind, EStateM.run_get]
  simp only
  cases hf : s.store.functions[id]? with
  | none => rfl
  | some f =>
    obtain ⟨name, arity, action, rfl⟩ := h f hf
    rfl

end Screen

/-! ### Invariants -/

variable {α β : Type} {I : State → Prop}

/-- What is kept along a course is kept by what it is made of. -/
theorem IsCourse.keeping {T : State → State → Prop} (hT : IsCourse T)
    (hI : ∀ s t, I s → T s t → I t) : IsCourse fun s t => I s → I t where
  refl _ := id
  trans h h' hs := h' (h hs)
  record e s hs := hI s _ hs (hT.record e s)
  print line s hs := hI s _ hs (hT.print line s)
  assign value hfound hconstant hs := hI _ _ hs (hT.assign value hfound hconstant)

/-- From the states in which an invariant holds, two steps are the same, and the invariant holds
    after them. -/
def AgreesWhile (I : State → Prop) (p' p : Evaluation α) : Prop :=
  ∀ s, I s → p'.run s = p.run s ∧ I (stateAfter (p.run s))

/-- What keeps an invariant agrees with itself as long as it holds. -/
theorem agreesWhile_of_along {p : Evaluation α} (h : Along (fun s t => I s → I t) p) :
    AgreesWhile I p p :=
  fun s hs => ⟨rfl, h s hs⟩

namespace AgreesWhile

variable {p' p : Evaluation α} {f' f : α → Evaluation β}

theorem bind (hp : AgreesWhile I p' p) (hf : ∀ a, AgreesWhile I (f' a) (f a)) :
    AgreesWhile I (p' >>= f') (p >>= f) := by
  intro s hs
  obtain ⟨heq, hafter⟩ := hp s hs
  rw [EStateM.run_bind, EStateM.run_bind, heq]
  cases hrun : p.run s with
  | error h t =>
    rw [hrun] at hafter
    exact ⟨rfl, hafter⟩
  | ok a t =>
    rw [hrun] at hafter
    exact hf a t hafter

theorem self (h : AgreesWhile I p' p) : AgreesWhile I p p :=
  fun s hs => ⟨rfl, (h s hs).2⟩

/-- The invariant holds after a step that gives a value. -/
theorem of_run (h : AgreesWhile I p' p) {s t : State} {a : α} (hs : I s)
    (hrun : p.run s = .ok a t) : I t := by
  have hafter := (h s hs).2
  rwa [hrun] at hafter

/-- A step that does nothing may come first on one side. -/
theorem after {q : Evaluation Unit} (hq : ∀ s, I s → q.run s = .ok () s)
    (hp : AgreesWhile I p' p) : AgreesWhile I (q >>= fun _ => p') p := by
  intro s hs
  rw [EStateM.run_bind, hq s hs]
  exact hp s hs

theorem get {f' f : State → Evaluation α} (hf : ∀ s, AgreesWhile I (f' s) (f s)) :
    AgreesWhile I (MonadState.get >>= f') (MonadState.get >>= f) :=
  fun s hs => hf s s hs

theorem within (hI : ∀ {s : State} (c : ScopeId), I s → I { s with current := c })
    (h : AgreesWhile I p' p) (c : ScopeId) :
    AgreesWhile I (Evaluation.within c p') (Evaluation.within c p) := by
  intro s hs
  obtain ⟨heq, hafter⟩ := h _ (hI c hs)
  rw [run_within, run_within, heq, stateAfter_returning]
  exact ⟨rfl, hI _ hafter⟩

end AgreesWhile

theorem agreesWhile_logFrom (hrecord : ∀ {s : State} (e : Event), I s → I (s.record e))
    {event' event : Evaluation Event} (h : AgreesWhile I event' event) (level : Nat) :
    AgreesWhile I (logFrom level event') (logFrom level event) := by
  refine .get fun s => ?_
  split
  · exact h.bind fun e t ht => ⟨rfl, hrecord e ht⟩
  · exact fun t ht => ⟨rfl, ht⟩

/-- Expressions keep an invariant that is kept along their steps. -/
theorem isExpressive_agreesWhile (hT : IsCourse fun s t => I s → I t) :
    IsExpressive (fun {_} => AgreesWhile I) where
  pure a := agreesWhile_of_along (hT.pure a)
  throw h := agreesWhile_of_along (hT.throw h)
  bind := .bind
  logFrom h _ := agreesWhile_logFrom (hT.record · _) h _
  print line := agreesWhile_of_along (hT.print line)
  checkDigits exceeds := agreesWhile_of_along (hT.checkDigits exceeds)
  textOf v := agreesWhile_of_along (hT.textOf v)
  getField id field := agreesWhile_of_along (hT.getField id field)
  setField id field v := agreesWhile_of_along (hT.setField id field v)
  lookupMethod id name arity := agreesWhile_of_along (hT.lookupMethod id name arity)
  readVariable name := agreesWhile_of_along (hT.readVariable name)
  assignVariable name v := agreesWhile_of_along (hT.assignVariable name v)
  lookupFunction name arity := agreesWhile_of_along (hT.lookupFunction name arity)

/-- Everything keeps an invariant of all later states. -/
theorem isRunCongruence_agreesWhile (hI : ∀ s t : State, I s → s.Precedes t → I t) :
    IsRunCongruence (fun {_} => AgreesWhile I) :=
  have hT := isCourse_precedes
  have hcurrent : ∀ {s : State} (c : ScopeId), I s → I { s with current := c } :=
    fun _ hs => hI _ _ hs (.of_keeps (.refl _) rfl)
  have hself : ∀ {α : Type} {p : Evaluation α}, Along State.Precedes p → AgreesWhile I p p :=
    fun h => agreesWhile_of_along fun s hs => hI s _ hs (h s)
  { isExpressive_agreesWhile (hT.keeping hI) with
    inNewScope := fun h => .get fun _ => (hself (precedes_newScope _)).bind
      fun c => h.within hcurrent c
    defineVariable := fun _ _ _ => hself (hT.defineVariable fun _ _ =>
      .of_keeps (Store.keeps_updateScope (Scope.keeps_addVariable _ _)) rfl)
    inScope := fun _ h => (hself (precedes_newScope _)).bind fun c => h.within hcurrent c
    getCurrent := fun h => .get fun s => h s.current
    getFunction := fun id h => .get fun s => h s.store.functions[id]?
    defineFunction := fun name arity f => hself (precedes_defineFunction name arity f) }

section Entering

variable {enter : FunctionId → Evaluation Unit}

/-- Nothing is done at any call from states in which an invariant holds. By induction on the number
    of steps. -/
theorem agreesWhile_entering (hR : IsRunCongruence (fun {_} => AgreesWhile I))
    (henter : ∀ id s, I s → (enter id).run s = .ok () s) (steps : Nat) :
    (∀ depth n, AgreesWhile I (evaluateEntering enter steps depth n) (evaluate steps depth n)) ∧
    (∀ depth n, AgreesWhile I (executeEntering enter steps depth n) (execute steps depth n)) ∧
    ∀ depth id arguments, AgreesWhile I (invokeEntering enter steps depth id arguments)
      (invoke steps depth id arguments) := by
  induction steps with
  | zero =>
    refine ⟨fun depth n => ?_, fun depth n => ?_, fun depth id arguments => ?_⟩
    · rw [evaluateEntering, evaluate]
      exact hR.throw _
    · rw [executeEntering, execute]
      exact hR.throw _
    · rw [invokeEntering, invoke]
      exact hR.throw _
  | succ steps ih =>
    obtain ⟨hevaluate, hexecute, hinvoke⟩ := ih
    refine ⟨fun depth n => ?_, fun depth n => ?_, fun depth id arguments => ?_⟩
    · rw [evaluateEntering, evaluate]
      exact hR.evaluateNode (hevaluate depth) (hinvoke depth) n
    · rw [executeEntering, execute]
      exact hR.executeNode (hevaluate depth) (hexecute depth) steps 0
        (fun _ _ _ => hR.throw _) n
    · rw [invokeEntering, invoke]
      exact .after (henter id) (hR.callFunction hexecute depth id arguments)

/-- While there are only functions of the host, expressions do not need to execute statements. By
    induction on the number of steps. -/
theorem agreesWhile_entering_host (hR : IsExpressive (fun {_} => AgreesWhile I))
    (hhost : ∀ (s : State) (id : FunctionId) f, I s → s.store.functions[id]? = some f → f.IsOfHost)
    (henter : ∀ id s, I s → (enter id).run s = .ok () s) (steps depth : Nat) :
    (∀ n, AgreesWhile I (evaluateEntering enter steps depth n) (evaluate steps depth n)) ∧
    ∀ id arguments, AgreesWhile I (invokeEntering enter steps depth id arguments)
      (invoke steps depth id arguments) := by
  induction steps with
  | zero =>
    refine ⟨fun n => ?_, fun id arguments => ?_⟩
    · rw [evaluateEntering, evaluate]
      exact hR.throw _
    · rw [invokeEntering, invoke]
      exact hR.throw _
  | succ steps ih =>
    obtain ⟨hevaluate, hinvoke⟩ := ih
    refine ⟨fun n => ?_, fun id arguments => ?_⟩
    · rw [evaluateEntering, evaluate]
      exact hR.evaluateNode hevaluate hinvoke n
    · rw [invokeEntering, invoke]
      refine .after (henter id) fun s hs => ?_
      rw [callFunction_eq, callFunction_eq, EStateM.run_bind, EStateM.run_bind, EStateM.run_get]
      simp only
      cases hf : s.store.functions[id]? with
      | none => exact hR.throw _ s hs
      | some f =>
        -- A function of the host has no body, so the induction needs no case for statements.
        obtain ⟨name, arity, action, rfl⟩ := hhost s id f hs hf
        exact hR.perform (action.respond arguments) s hs

end Entering

end Evaluation

end Blockscript
