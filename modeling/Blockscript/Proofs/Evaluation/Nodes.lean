import Blockscript.Proofs.Evaluation.Programs
import Blockscript.Proofs.Evaluation.Steps

/-!
# Watched nodes

If the parts of an expression, of a statement or of a call are followed, so are these
themselves: none of the cases that are left to trees from elsewhere is reached. Following
is a relation that the single steps of programs respect; the recursion is left to those who
use it.

* `FollowsExpressions`, `FollowsStatements`, `FollowsCalls`: the parts are followed;
* `isProgramCongruence_follows`: single steps are;
* `follows_evaluateNode`, `follows_executeNode`, `follows_callFunction`: so is what is
  made of them;
* `follows_declareNode`, `meets_declareMethod`: the parts of a program.
-/

namespace Blockscript.Evaluation

open Node

/-- Expressions are followed, and their values are plain. -/
def FollowsExpressions (watch evaluate : Node → Evaluation Value) : Prop :=
  ∀ {k n}, IsExpression k n → ∀ s, (watch n).Follows (evaluate n) s fun v _ => v.IsPlain

/-- Statements are followed, and they answer with plain values. -/
def FollowsStatements (watch execute : Node → Evaluation Outcome) : Prop :=
  ∀ {n}, n.IsExecuted → ∀ s, (watch n).Follows (execute n) s fun o _ => o.value.IsPlain

/-- Calls are followed where a function accepts the number of arguments, and their
    values are plain. -/
def FollowsCalls (watch invoke : FunctionId → List Value → Evaluation Value) : Prop :=
  ∀ {id arguments s}, s.store.Accepts id (arguments.length : Int) → (∀ a ∈ arguments, a.IsPlain) →
    (watch id arguments).Follows (invoke id arguments) s fun v _ => v.IsPlain

/-- What is claimed of a result does not depend on the state that the step began in. -/
theorem isProgramCongruence_follows :
    IsProgramCongruence (fun {_} Q p' p => ∀ s, p'.Follows p s fun a _ => Q a) where
  pure h _ := .pure h
  fail h _ := meets_fail h
  bind hp hf s := (hp s).bind fun a t h => hf a h t
  logFrom h s := (h s).logFrom
  print _ _ := meets_modify id trivial
  checkDigits exceeds _ := meets_checkDigits exceeds
  textOf hv _ := meets_textOf hv
  readVariable _ _ := meets_readVariable
  assignVariable _ _ hv _ := meets_assignVariable hv
  defineVariable _ _ _ hv _ := meets_defineVariable hv
  inNewScope h _ := .inNewScope h
  inScope _ h _ := meets_newScope.bind fun _ _ _ => .within (h _)

variable {s : State} {e' e : Node → Evaluation Value} {x' x : Node → Evaluation Outcome}
  {c' c : FunctionId → List Value → Evaluation Value}

/-- A call of a function that accepts the number of arguments is followed where the
    statements of its body are. -/
theorem follows_callFunction {x' x : (depth : Nat) → Node → Evaluation Outcome}
    (hx : ∀ depth, FollowsStatements (x' depth) (x depth)) (depth : Nat) :
    FollowsCalls (callFunction x' depth) (callFunction x depth) := by
  rintro id arguments s ⟨f, hf, haccepts⟩ ha
  rw [callFunction_eq, callFunction_eq]
  refine .get ?_
  rw [hf]
  exact isProgramCongruence_follows.callFound haccepts ha (fun d _ _ _ hn => hx d hn) s

/-- An expression is followed where its parts and calls are. -/
theorem follows_evaluateNode (he : FollowsExpressions e' e) (hc : FollowsCalls c' c) :
    FollowsExpressions (evaluateNode e' c') (evaluateNode e c) := by
  refine fun hn => isProgramCongruence_follows.evaluateNode (fun _ => he) hn fun _ hvalues s => ?_
  exact meets_lookupFunction.bind fun f t hf => hc hf hvalues

/-- A statement is followed where its parts are. -/
theorem follows_executeNode (rounds : Nat) (he : FollowsExpressions e' e)
    (hx : FollowsStatements x' x) :
    FollowsStatements (executeNode rounds e' x') (executeNode rounds e x) :=
  fun hn => isProgramCongruence_follows.executeNode (fun _ => he) (fun _ => hx)
    (fun _ _ => .throw trivial) rounds hn

/-! ### Parts of a program -/

theorem follows_declareNode {n : Node} (he : FollowsExpressions e' e) (hn : IsField n) :
    (declareNode e' n).Follows (declareNode e n) s fun _ _ => True :=
  isProgramCongruence_follows.declareNode (fun _ => he) hn s

/-- A method defines a function that accepts as many arguments as it has parameters. -/
theorem accepts_parameters {parameters : List String} {statements : List Node}
    (hbody : ∀ s ∈ statements, IsStatement ["END"] s) (name : Label) (closure : ScopeId) :
    Function.Accepts (parameters.map Label.text).length
      (.defined name (parameters.map .text) statements closure) := by
  refine ⟨rfl, fun p hp => ?_, hbody⟩
  obtain ⟨text, _, rfl⟩ := List.mem_map.1 hp
  exact ⟨text, rfl⟩

/-- A method is bound under the number of its parameters. -/
theorem meets_declareMethod {n : Node} (hn : IsMethod n) :
    (declareMethod n).Meets s fun _ _ => True := by
  cases hn with
  | @method name parameters statements _ _ hbody =>
    exact .get ((meets_defineFunction (accepts_parameters hbody _ _)).bind fun _ _ _ =>
      Follows.logFrom (.pure trivial))

end Blockscript.Evaluation
