import Blockscript.Proofs.Evaluation.Nodes
import Blockscript.Proofs.Syntax.Program

/-!
# Safety of programs

Whatever text is run, nothing happens that the language has no words for. A text that
is no program is refused by the lexer, or by the parser for a reason that the grammar
gives. A program ends with a plain value or with an error that it is answerable for,
and at no moment of its run does an expression or a variable have another value, or is
a function called with a wrong number of arguments: looking for it changes nothing.

* `follows_steps`: expressions, statements and calls, in any number of steps;
* `follows_runNode`, `follows_runProgram`: the run of a program;
* `parseSource_runProgram_isSafe`: the run of a text.
-/

namespace Blockscript

open Node

namespace Evaluation

/-- By induction on the number of steps: with one step more, parts are evaluated with
    what was there before. -/
theorem follows_steps (steps : Nat) :
    (∀ depth, FollowsExpressions (evaluateWatched steps depth) (evaluate steps depth)) ∧
    (∀ depth, FollowsStatements (executeWatched steps depth) (execute steps depth)) ∧
    ∀ depth, FollowsCalls (invokeWatched steps depth) (invoke steps depth) := by
  induction steps with
  | zero =>
    refine ⟨fun depth k n _ s => ?_, fun depth n _ s => ?_, fun depth id arguments s _ _ => ?_⟩
    · rw [evaluateWatched, evaluate]
      exact .throw trivial
    · rw [executeWatched, execute]
      exact .throw trivial
    · rw [invokeWatched, invoke]
      exact .throw trivial
  | succ steps ih =>
    obtain ⟨hevaluate, hexecute, hinvoke⟩ := ih
    refine ⟨fun depth k n hn s => ?_, fun depth n hn s => ?_, fun depth id arguments s hf ha => ?_⟩
    · rw [evaluateWatched, evaluate]
      exact (follows_evaluateNode (hevaluate depth) (hinvoke depth) hn s).watched fun _ _ h => h
    · rw [executeWatched, execute]
      exact (follows_executeNode steps (hevaluate depth) (hexecute depth) hn s).watched
        fun _ _ h => h
    · rw [invokeWatched, invoke]
      refine .ensured (hf.isCall ha) ?_
      exact (follows_callFunction hexecute depth hf ha).watched fun _ _ h => h

/-- The globals and the scope of the host are sound before anything has run. -/
theorem isSound_start (level : Nat) :
    (State.start .standard Store.standardScope level).IsSound := by
  refine ⟨isSound_addScope (s := .standard) _ fun id => ?_, rfl⟩
  cases id with
  | zero =>
    refine ⟨nofun, fun b hb => ?_⟩
    obtain rfl := List.mem_singleton.1 hb
    exact ⟨_, rfl, rfl, rfl, rfl⟩
  | succ id => exact ⟨nofun, nofun⟩

/-- A program is followed where its fields and all calls are. -/
theorem follows_runNode {d' d : Node → Evaluation Unit}
    {c' c : FunctionId → List Value → Evaluation Value} {program : Node} (hn : IsProgram program)
    (hd : ∀ {n}, IsField n → ∀ s, (d' n).Follows (d n) s fun _ _ => True) (hc : FollowsCalls c' c)
    (s : State) : (runNode d' c' program).Follows (runNode d c program) s fun v _ => v.IsPlain := by
  cases hn with
  | @program fields methods hfields hmethods =>
    refine (isProgramCongruence_follows.forM (fun n hn => hd (hfields n hn)) s).bind fun _ t _ => ?_
    refine (isProgramCongruence_follows.forM (fun n hn t => ?_) t).bind fun _ _ _ => ?_
    · exact meets_declareMethod (hmethods n hn)
    · exact meets_lookupFunction.bind fun f t hf => hc hf nofun

theorem follows_runProgram (limits : Limits) {program : Node} (hn : IsProgram program) (s : State) :
    (runProgramWatched limits program).Follows (runProgram limits program) s
      fun v _ => v.IsPlain := by
  obtain ⟨hevaluate, _, hinvoke⟩ := follows_steps limits.steps
  refine .closingLog (follows_runNode hn (fun hfield t => ?_) (hinvoke limits.depth) s)
  exact (follows_declareNode (hevaluate limits.depth) hfield).watched fun _ _ _ => trivial

/-- A text is refused by the lexer, or by the parser for a reason that the grammar
    gives, or it is run. The run goes on as if it was not looked at, so that there is
    nothing to be found: all values and variables are plain, and functions are called
    with as many arguments as they have parameters. If it ends within the steps, it ends
    with a plain value or with an error that a program is answerable for. -/
theorem parseSource_runProgram_isSafe (limits : Limits) (source : String) (level : Nat) :
    match parseSource source with
    | .error (.lex _) => True
    | .error (.parse e) => e.cause.IsGrammatical
    | .ok n =>
      let start := State.start .standard Store.standardScope level
      (runProgramWatched limits n).run start = (runProgram limits n).run start ∧
        match (runProgram limits n).run start with
        | .ok v s => s.IsSound ∧ v.IsPlain
        | .error h s => s.IsSound ∧ h.IsProper := by
  have hmeets := parseSource_meets source
  split
  · trivial
  · next h =>
    rw [h] at hmeets
    exact hmeets
  · next n h =>
    rw [h] at hmeets
    obtain ⟨heq, hend⟩ := follows_runProgram limits hmeets _ (isSound_start level)
    refine ⟨heq, ?_⟩
    cases hrun : (runProgram limits n).run (State.start .standard Store.standardScope level) with
    | ok v s =>
      rw [hrun] at hend
      exact hend
    | error h s =>
      rw [hrun] at hend
      exact hend

end Evaluation

end Blockscript
