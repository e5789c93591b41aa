import Blockscript.Evaluation.Program
import Blockscript.Proofs.Value.Plain

/-!
# Watched runs

A *watched* run is a run that is looked at wherever a part of it begins or ends: it
halts with a fault as soon as a variable of any scope holds a value that is not plain,
an expression, a call or a `RETURN` gives one, or a function is called with another
number of arguments than it has parameters. In all else it is the run itself, of the
same parts in the same order.

* `Store.HoldsPlain`, `Store.IsCall`: what is asked of variables and of calls;
* `Evaluation.watched`: a step that is looked at, with `run_watched` for what it does;
* `evaluateWatched`, `executeWatched`, `invokeWatched`: expressions, statements and
  calls, every part of which is looked at;
* `runProgramWatched`: the same for a program.
-/

namespace Blockscript

/-- All variables of all scopes hold plain values. -/
def Store.HoldsPlain (s : Store) : Prop :=
  ∀ c ∈ s.scopes.toList, ∀ v ∈ c.vars, v.value.IsPlain

instance (s : Store) : Decidable s.HoldsPlain :=
  inferInstanceAs (Decidable (∀ c ∈ s.scopes.toList, ∀ v ∈ c.vars, v.value.IsPlain))

/-- The number of parameters of a function. -/
def Function.arity : Function → Int
  | .defined _ parameters _ _ => parameters.length
  | .host _ arity _ => arity

/-- A place of the store holds a function, which has as many parameters as there are
    arguments. These are plain. -/
def Store.IsCall (s : Store) (id : FunctionId) (arguments : List Value) : Prop :=
  s.functions[id]?.map Function.arity = some (arguments.length : Int) ∧
    ∀ a ∈ arguments, a.IsPlain

instance (s : Store) (id : FunctionId) (arguments : List Value) :
    Decidable (s.IsCall id arguments) :=
  inferInstanceAs (Decidable (_ ∧ ∀ a ∈ arguments, a.IsPlain))

namespace Evaluation

/-- Goes on only if a condition holds. -/
def ensure (p : Prop) [Decidable p] : Evaluation Unit :=
  if p then return () else faulty .unsuitableValue

/-- A step that is looked at: all variables hold plain values before it and after it,
    and its result is as asked. -/
def watched {α : Type} (Q : α → Prop) [DecidablePred Q] (step : Evaluation α) :
    Evaluation α := do
  ensure (← get).store.HoldsPlain
  let a ← step
  ensure (← get).store.HoldsPlain
  ensure (Q a)
  return a

theorem run_ensure (p : Prop) [Decidable p] (s : State) : (ensure p).run s =
    if p then .ok () s else .error (.fault .unsuitableValue) s := by
  rw [ensure]
  split <;> rfl

/-- A step that is looked at is the step itself if nothing is found, and a fault
    otherwise. -/
theorem run_watched {α : Type} (Q : α → Prop) [DecidablePred Q] (step : Evaluation α) (s : State) :
    (watched Q step).run s =
      if s.store.HoldsPlain then
        match step.run s with
        | .ok a t =>
          if t.store.HoldsPlain ∧ Q a then .ok a t else .error (.fault .unsuitableValue) t
        | .error h t => .error h t
      else .error (.fault .unsuitableValue) s := by
  rw [watched, EStateM.run_bind, EStateM.run_get]
  simp only [EStateM.run_bind, run_ensure]
  by_cases hs : s.store.HoldsPlain
  · simp only [if_pos hs]
    cases step.run s with
    | error h t => rfl
    | ok a t =>
      simp only [EStateM.run_get]
      by_cases ht : t.store.HoldsPlain
      · by_cases ha : Q a
        · simp only [if_pos ht, if_pos ha, if_pos (And.intro ht ha)]
          rfl
        · simp only [if_pos ht, if_neg ha, if_neg fun h : _ ∧ _ => ha h.2]
      · simp only [if_neg ht, if_neg fun h : _ ∧ _ => ht h.1]
  · simp only [if_neg hs]

/-- What a document holds need not be plain. -/
example : (watched Value.IsPlain (return .foreign .null)).run
    (.start .standard Store.standardScope 0) =
      .error (.fault .unsuitableValue) (.start .standard Store.standardScope 0) := by cbv

mutual

/-- The value of an expression, which is looked at with all parts. -/
def evaluateWatched : (steps depth : Nat) → Node → Evaluation Value
  | 0, _, _ => throw .outOfSteps
  | steps + 1, depth, node =>
    watched Value.IsPlain
      (evaluateNode (evaluateWatched steps depth) (invokeWatched steps depth) node)

/-- Executes a statement, which is looked at with all parts. -/
def executeWatched : (steps depth : Nat) → Node → Evaluation Outcome
  | 0, _, _ => throw .outOfSteps
  | steps + 1, depth, node =>
    watched (fun o => o.value.IsPlain)
      (executeNode steps (evaluateWatched steps depth) (executeWatched steps depth) node)

/-- Calls a function with arguments. The call is looked at, and so are all parts of the
    body. -/
def invokeWatched : (steps depth : Nat) → FunctionId → List Value → Evaluation Value
  | 0, _, _, _ => throw .outOfSteps
  | steps + 1, depth, id, arguments => do
    ensure ((← get).store.IsCall id arguments)
    watched Value.IsPlain (callFunction (executeWatched steps) depth id arguments)

end

/-- Declares a field, which is looked at with all parts. -/
def declareFieldWatched (limits : Limits) (node : Node) : Evaluation Unit :=
  watched (fun _ => True) (declareNode (evaluateWatched limits.steps limits.depth) node)

/-- Runs a program, which is looked at with all parts. -/
def runProgramWatched (limits : Limits) (program : Node) : Evaluation Value :=
  closingLog
    (runNode (declareFieldWatched limits) (invokeWatched limits.steps limits.depth) program)

end Evaluation

end Blockscript
