import Blockscript.Proofs.Evaluation.Runs
import Blockscript.Proofs.Evaluation.Scoped

/-!
# Larger limits

The limits of an evaluation say how far it may go, and nothing else: an evaluation that
they do not end is the same with larger ones. So two evaluations that end of themselves
can be looked at as if they had had the same limits.

* `Halt.IsLimit`: the halts that limits are the cause of;
* `Evaluation.Finishes`: a step that ends of itself;
* `Evaluation.AgreesUnless`: a step that does the same as another one, unless that one ends in
  a certain way;
* `agreesUnless_steps`, `agreesUnless_runProgram`: whole evaluations with larger limits;
* `Evaluation.Extends`, `extends_steps`, `extends_runProgram`: the same where they finish.
-/

namespace Blockscript

open Node

/-- Halts that say nothing of a program, but that it was not given enough. -/
def Halt.IsLimit : Halt → Prop
  | .outOfSteps => True
  | .error .callDepthExceeded => True
  | _ => False

namespace Evaluation

variable {α β : Type}

/-- A step ends of itself. -/
def Finishes : EStateM.Result Halt State α → Prop
  | .ok _ _ => True
  | .error h _ => ¬ h.IsLimit

/-- An evaluation that gives a value has not been ended by its limits. -/
theorem finishes_of_isOk {x : EStateM.Result Halt State α} (h : (valueOf x).isOk) :
    Finishes x := by
  cases x with
  | ok a s => trivial
  | error e s => cases h

/-- A step does the same as another one from all states from which that one does not end in one
    of some halts. -/
def AgreesUnless (L : Halt → Prop) (q p : Evaluation α) : Prop :=
  ∀ s, (∀ h, valueOf (p.run s) = .error h → ¬ L h) → q.run s = p.run s

variable {L : Halt → Prop} {p q : Evaluation α}

namespace AgreesUnless

theorem refl (p : Evaluation α) : AgreesUnless L p p :=
  fun _ _ => rfl

/-- There is nothing to be said of a step that ends in one of the halts. -/
theorem throw {h : Halt} (hh : L h) : AgreesUnless L q (MonadExcept.throw h) :=
  fun _ hends => absurd hh (hends h rfl)

/-- If the first step is not ended by a limit, the second one goes on from the same state. -/
theorem bind {f g : α → Evaluation β} (hp : AgreesUnless L q p)
    (hf : ∀ a, AgreesUnless L (g a) (f a)) : AgreesUnless L (q >>= g) (p >>= f) := by
  intro s h
  rw [EStateM.run_bind] at h
  rw [EStateM.run_bind, EStateM.run_bind]
  have heq := hp s
  cases hrun : p.run s with
  | ok a t =>
    rw [hrun] at h heq
    rw [heq nofun]
    exact hf a t h
  | error e t =>
    rw [hrun] at h heq
    rw [heq fun e' he => h e' (by cases he; rfl)]

/-- The scope before is the current one again on both sides. -/
theorem within (hp : AgreesUnless L q p) (c : ScopeId) :
    AgreesUnless L (Evaluation.within c q) (Evaluation.within c p) := by
  intro s h
  rw [run_within, valueOf_returning] at h
  rw [run_within, run_within, hp _ h]

theorem logFrom {event' event : Evaluation Event} (h : AgreesUnless L event' event) (level : Nat) :
    AgreesUnless L (Evaluation.logFrom level event') (Evaluation.logFrom level event) := by
  refine (refl _).bind fun s => ?_
  split
  · exact h.bind fun e => refl _
  · exact refl _

theorem closingLog (hp : AgreesUnless L q p) :
    AgreesUnless L (Evaluation.closingLog q) (Evaluation.closingLog p) := by
  intro s h
  rw [run_closingLog] at h
  rw [run_closingLog, run_closingLog, hp s]
  cases hrun : p.run s with
  | ok a t => exact nofun
  | error e t =>
    rw [hrun] at h
    exact h

end AgreesUnless

/-- What a step does to the store is the same on both sides. -/
theorem isStoreCongruence_agreesUnless : IsStoreCongruence (fun {_} => AgreesUnless L) where
  pure _ := .refl _
  throw _ := .refl _
  bind := .bind
  logFrom h _ := h.logFrom _
  print _ := .refl _
  checkDigits _ := .refl _
  storing _ := .refl _
  current := .refl _
  within c h := h.within c

/-- Agreeing up to the limits is kept by all that runs are made of. -/
theorem isRunCongruence_agreesUnless : IsRunCongruence (fun {_} => AgreesUnless L) :=
  isStoreCongruence_agreesUnless.isRunCongruence

/-! ### Larger limits -/

section Larger

variable {deeper : Nat} (hsteps : L .outOfSteps)
  (hdepth : deeper = 0 ∨ L (.error .callDepthExceeded))

include hdepth

/-- Calls may be nested deeper. -/
theorem agreesUnless_callFunction {x' x : (depth : Nat) → Node → Evaluation Outcome}
    (hx : ∀ depth n, AgreesUnless L (x' (depth + deeper) n) (x depth n)) (depth : Nat)
    (id : FunctionId) (arguments : List Value) :
    AgreesUnless L (callFunction x' (depth + deeper) id arguments)
      (callFunction x depth id arguments) := by
  have hR := isRunCongruence_agreesUnless (L := L)
  rw [callFunction_eq, callFunction_eq]
  refine hR.getFunction id fun o => ?_
  rcases o with _ | (⟨name, parameters, body, closure⟩ | ⟨_, _, action⟩)
  · exact .refl _
  · cases depth with
    | zero =>
      rcases hdepth with rfl | hdepth
      · exact .refl _
      · exact .throw hdepth
    | succ depth =>
      rw [Nat.succ_add]
      have hbody : AgreesUnless L (executeAll (x' (depth + deeper)) body)
          (executeAll (x depth) body) := hR.executeAll fun n _ => hx depth n
      exact hR.callDefined closure hbody arguments
  · exact .refl _

include hsteps

/-- By induction on the smaller number of steps. -/
theorem agreesUnless_steps (steps more : Nat) :
    (∀ depth n, AgreesUnless L (evaluate (steps + more) (depth + deeper) n)
      (evaluate steps depth n)) ∧
    (∀ depth n, AgreesUnless L (execute (steps + more) (depth + deeper) n)
      (execute steps depth n)) ∧
    ∀ depth id arguments, AgreesUnless L (invoke (steps + more) (depth + deeper) id arguments)
      (invoke steps depth id arguments) := by
  have hR := isRunCongruence_agreesUnless (L := L)
  -- By induction on the steps of the tighter run; without steps it ends in the one error that is
  -- excepted.
  induction steps with
  | zero =>
    refine ⟨fun depth n => ?_, fun depth n => ?_, fun depth id arguments => ?_⟩
    · rw [evaluate.eq_def 0]
      exact .throw hsteps
    · rw [execute.eq_def 0]
      exact .throw hsteps
    · rw [invoke.eq_def 0]
      exact .throw hsteps
  | succ steps ih =>
    obtain ⟨hevaluate, hexecute, hinvoke⟩ := ih
    rw [Nat.succ_add]
    refine ⟨fun depth n => ?_, fun depth n => ?_, fun depth id arguments => ?_⟩
    · rw [evaluate, evaluate]
      exact hR.evaluateNode (hevaluate depth) (hinvoke depth) n
    · rw [execute, execute]
      exact hR.executeNode (hevaluate depth) (hexecute depth) steps more
        (fun _ _ _ => .throw hsteps) n
    · rw [invoke, invoke]
      exact agreesUnless_callFunction hdepth hexecute depth id arguments

/-- A program does the same within larger limits, unless the smaller ones end it. -/
theorem agreesUnless_runProgram (limits : Limits) (more : Nat) (n : Node) :
    AgreesUnless L (runProgram ⟨limits.depth + deeper, limits.steps + more⟩ n)
      (runProgram limits n) := by
  have hR := isRunCongruence_agreesUnless (L := L)
  obtain ⟨hevaluate, _, hinvoke⟩ := agreesUnless_steps hsteps hdepth limits.steps more
  exact (hR.runNode (hR.declareNode (hevaluate limits.depth)) (hinvoke limits.depth) n).closingLog

end Larger

/-! ### Evaluations that finish -/

/-- A step goes on where another one is ended by its limits. -/
def Extends (q p : Evaluation α) : Prop :=
  ∀ s, Finishes (p.run s) → q.run s = p.run s

/-- Runs that agree up to all limits are such that one extends the other. -/
theorem AgreesUnless.extends (h : AgreesUnless Halt.IsLimit q p) : Extends q p := by
  intro s hfinishes
  refine h s fun e he => ?_
  cases hrun : p.run s with
  | ok a t =>
    rw [hrun] at he
    cases he
  | error e' t =>
    rw [hrun] at he hfinishes
    cases he
    exact hfinishes

/-- Larger limits extend all evaluations. -/
theorem extends_steps (steps more : Nat) :
    (∀ depth deeper n,
      Extends (evaluate (steps + more) (depth + deeper) n) (evaluate steps depth n)) ∧
    (∀ depth deeper n,
      Extends (execute (steps + more) (depth + deeper) n) (execute steps depth n)) ∧
    ∀ depth deeper id arguments, Extends (invoke (steps + more) (depth + deeper) id arguments)
      (invoke steps depth id arguments) := by
  have h := fun deeper =>
    @agreesUnless_steps Halt.IsLimit deeper trivial (.inr trivial) steps more
  exact ⟨fun depth deeper n => ((h deeper).1 depth n).extends,
    fun depth deeper n => ((h deeper).2.1 depth n).extends,
    fun depth deeper id arguments => ((h deeper).2.2 depth id arguments).extends⟩

/-- Larger limits extend the run of a program. -/
theorem extends_runProgram (limits : Limits) (deeper more : Nat) (n : Node) :
    Extends (runProgram ⟨limits.depth + deeper, limits.steps + more⟩ n) (runProgram limits n) :=
  (agreesUnless_runProgram (L := Halt.IsLimit) trivial (.inr trivial) limits more n).extends

end Evaluation

end Blockscript
