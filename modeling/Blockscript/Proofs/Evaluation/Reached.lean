import Blockscript.Proofs.Evaluation.Guarded
import Blockscript.Proofs.Evaluation.Safety
import Blockscript.Proofs.Evaluation.Scoped

/-!
# Reached states are sound

A run of a program begins in a sound state, and every part of it leads from a sound state to a
sound one. A guard that all sound states pass changes nothing, so that all states that the run
reaches are sound.

* `Follows.guarded`: a guard that all sound states pass;
* `guarded_steps`, `follows_runProgramGuarded`: whole evaluations with such a guard;
* `reaches_of_fault`, `Reaches.isSound`: the states that the run of a program reaches.
-/

namespace Blockscript.Evaluation

open Node

variable {P : State → Bool} (hP : ∀ s : State, s.IsSound → P s)

include hP

theorem Follows.guarded {α : Type} {watch step : Evaluation α} {s : State}
    {Q : α → State → Prop} (h : watch.Follows step s Q) :
    (Evaluation.guarded P watch).Follows step s Q := by
  intro hs
  obtain ⟨heq, h⟩ := h hs
  refine ⟨?_, h⟩
  rw [run_guarded, if_pos (hP s hs), heq]
  cases hrun : step.run s with
  | ok a t =>
    rw [hrun] at h
    exact if_pos (hP t h.1)
  | error e t => rfl

/-- By induction on the number of steps. -/
theorem guarded_steps (steps : Nat) :
    (∀ depth, FollowsExpressions (evaluateGuarded P steps depth) (evaluate steps depth)) ∧
    (∀ depth, FollowsStatements (executeGuarded P steps depth) (execute steps depth)) ∧
    ∀ depth, FollowsCalls (invokeGuarded P steps depth) (invoke steps depth) := by
  induction steps with
  | zero =>
    refine ⟨fun depth k n _ s => ?_, fun depth n _ s => ?_, fun depth id arguments s _ _ => ?_⟩
    · rw [evaluateGuarded, evaluate]
      exact .throw trivial
    · rw [executeGuarded, execute]
      exact .throw trivial
    · rw [invokeGuarded, invoke]
      exact .throw trivial
  | succ steps ih =>
    obtain ⟨hevaluate, hexecute, hinvoke⟩ := ih
    refine ⟨fun depth k n hn s => ?_, fun depth n hn s => ?_, fun depth id arguments s hf ha => ?_⟩
    · rw [evaluateGuarded, evaluate]
      exact (follows_evaluateNode (hevaluate depth) (hinvoke depth) hn s).guarded hP
    · rw [executeGuarded, execute]
      exact (follows_executeNode steps (hevaluate depth) (hexecute depth) hn s).guarded hP
    · rw [invokeGuarded, invoke]
      exact (follows_callFunction hexecute depth hf ha).guarded hP

theorem follows_runProgramGuarded (limits : Limits) {program : Node} (hn : IsProgram program)
    (s : State) : (runProgramGuarded P limits program).Follows (runProgram limits program) s
      fun v _ => v.IsPlain := by
  obtain ⟨hevaluate, _, hinvoke⟩ := guarded_steps hP limits.steps
  refine .closingLog ((follows_runNode hn (fun hfield t => ?_) (hinvoke limits.depth) s).guarded hP)
  exact (follows_declareNode (hevaluate limits.depth) hfield).guarded hP

omit hP

/-- A state is reached if a guard that it does not pass is the cause of a fault that the run does
    not end in. -/
theorem reaches_of_fault {limits : Limits} {program : Node} {start s : State}
    (hend : valueOf ((runProgram limits program).run start) ≠ .error (.fault .unsuitableValue))
    (hfault : ∀ P : State → Bool, P s = false →
      valueOf ((runProgramGuarded P limits program).run start) =
        .error (.fault .unsuitableValue)) : Reaches limits program start s := by
  intro P heq
  cases hP : P s with
  | true => rfl
  | false => exact absurd (heq ▸ hfault P hP) hend

/-- The states that a run of a program reaches are sound, by the guard that only these pass. -/
theorem Reaches.isSound {limits : Limits} {program : Node} {start s : State}
    (hn : IsProgram program) (hstart : start.IsSound) (hs : Reaches limits program start s) :
    s.IsSound := by
  classical
  have hpass : ∀ t : State, t.IsSound → decide t.IsSound := fun _ => decide_eq_true
  exact of_decide_eq_true (hs _ (follows_runProgramGuarded hpass limits hn start hstart).1)

end Blockscript.Evaluation
