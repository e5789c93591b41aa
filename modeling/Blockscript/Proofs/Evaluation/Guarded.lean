import Blockscript.Proofs.Evaluation.Watched

/-!
# Reachable states

A *guarded* run halts with a fault as soon as a state at the beginning or at the end of
some part of it has not a given property. In all else it is the run itself, so that a run
is not changed by a guard if all states that it comes through have the property. The
states that it *reaches* are those that have every property that can guard it.

* `Evaluation.guarded`: a step with a guard;
* `run_guarded`, `of_run_guarded`: what a guard does, and what is known once it is passed;
* `evaluateGuarded`, `executeGuarded`, `invokeGuarded`: expressions, statements and
  calls, every part of which has the guard;
* `runProgramGuarded`: the same for a program;
* `Reaches`: the states that a run comes through.
-/

namespace Blockscript.Evaluation

/-- A step that halts if a state before it or after it has not a property. -/
def guarded {α : Type} (P : State → Bool) (step : Evaluation α) : Evaluation α := do
  ensure (P (← get))
  let a ← step
  ensure (P (← get))
  return a

/-- A step with a guard is the step itself if the guard holds, and a fault otherwise. -/
theorem run_guarded {α : Type} (P : State → Bool) (step : Evaluation α) (s : State) :
    (guarded P step).run s =
      if P s then
        match step.run s with
        | .ok a t => if P t then .ok a t else .error (.fault .unsuitableValue) t
        | .error h t => .error h t
      else .error (.fault .unsuitableValue) s := by
  rw [guarded, EStateM.run_bind, EStateM.run_get]
  simp only [EStateM.run_bind, run_ensure]
  by_cases hs : P s
  · simp only [if_pos hs]
    cases step.run s with
    | error h t => rfl
    | ok a t =>
      simp only [EStateM.run_get]
      by_cases ht : P t
      · simp only [if_pos ht]
        rfl
      · simp only [if_neg ht]
  · simp only [if_neg hs]

/-- A guard is passed before a step and after it. -/
theorem of_run_guarded {α : Type} {P : State → Bool} {step : Evaluation α} {s t : State} {a : α}
    (h : (guarded P step).run s = .ok a t) : P s ∧ step.run s = .ok a t ∧ P t := by
  rw [run_guarded] at h
  by_cases hs : P s
  · rw [if_pos hs] at h
    cases hrun : step.run s with
    | error e u =>
      rw [hrun] at h
      cases h
    | ok b u =>
      simp only [hrun] at h
      by_cases hu : P u
      · rw [if_pos hu] at h
        cases h
        exact ⟨hs, rfl, hu⟩
      · rw [if_neg hu] at h
        cases h
  · rw [if_neg hs] at h
    cases h

/-- Closing the log changes neither the value nor what else is in the state. -/
theorem run_closingLog {α : Type} (step : Evaluation α) (s : State) :
    (closingLog step).run s =
      match step.run s with
      | .ok a t => .ok a t.closeLog
      | .error h t => .error h t.closeLog :=
  rfl

mutual

/-- The value of an expression, with a guard on all parts. -/
def evaluateGuarded (P : State → Bool) : (steps depth : Nat) → Node → Evaluation Value
  | 0, _, _ => throw .outOfSteps
  | steps + 1, depth, node =>
    guarded P (evaluateNode (evaluateGuarded P steps depth) (invokeGuarded P steps depth) node)

/-- Executes a statement, with a guard on all parts. -/
def executeGuarded (P : State → Bool) : (steps depth : Nat) → Node → Evaluation Outcome
  | 0, _, _ => throw .outOfSteps
  | steps + 1, depth, node =>
    guarded P
      (executeNode steps (evaluateGuarded P steps depth) (executeGuarded P steps depth) node)

/-- Calls a function with arguments, with a guard on all parts. -/
def invokeGuarded (P : State → Bool) :
    (steps depth : Nat) → FunctionId → List Value → Evaluation Value
  | 0, _, _, _ => throw .outOfSteps
  | steps + 1, depth, id, arguments =>
    guarded P (callFunction (executeGuarded P steps) depth id arguments)

end

/-- Declares a field, with a guard on all parts. -/
def declareFieldGuarded (P : State → Bool) (limits : Limits) (node : Node) : Evaluation Unit :=
  guarded P (declareNode (evaluateGuarded P limits.steps limits.depth) node)

/-- Runs a program, with a guard on all parts. -/
def runProgramGuarded (P : State → Bool) (limits : Limits) (program : Node) : Evaluation Value :=
  closingLog (guarded P (runNode (declareFieldGuarded P limits)
    (invokeGuarded P limits.steps limits.depth) program))

/-- A run reaches the states that have every property by which it can be guarded
    without becoming another run. -/
def Reaches (limits : Limits) (program : Node) (start s : State) : Prop :=
  ∀ P : State → Bool, (runProgramGuarded P limits program).run start =
    (runProgram limits program).run start → P s

end Blockscript.Evaluation
