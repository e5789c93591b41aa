import Blockscript.Evaluation.Program
import Blockscript.Proofs.Evaluation.Runs

/-!
# Wrapped runs

An evaluation is made of parts: expressions, statements, calls, fields. Something may be done
around every part, as it begins and as it ends, while the parts are made of each other as
ever. Such an evaluation is *wrapped*. What functions of the host do may be left open as well: a
*host* says it for each of them, and may do anything. If nothing is done around the parts, and the
functions of the host do what they are known to do, it is the evaluation itself; and a relation
between what is done around two parts, and by two hosts, is one between the whole evaluations.

* `Evaluation.Host`, `Evaluation.callHosted`: what functions of the host do, and calls by it;
* `evaluateHosted`, `executeHosted`, `invokeHosted`, `declareFieldHosted`, `runProgramHosted`:
  expressions, statements, calls, fields and programs;
* `hosted_id`: evaluations around which nothing is done;
* `IsRunCongruence.steps`, `IsRunCongruence.program`: related evaluations;
* `IsRunCongruence.steps_self`, `IsRunCongruence.program_self`: the evaluations themselves.
-/

namespace Blockscript.Evaluation

/-- What functions of the host do, by their places and with arguments. -/
abbrev Host := FunctionId → List Value → Evaluation Value

/-- What a function of the host does, once it is found. -/
def performFound (arguments : List Value) : Option Function → Evaluation Value
  | some (.host _ _ action) => perform (action.respond arguments)
  | _ => faulty .missingPart

/-- The host whose functions do what the store tells of them. -/
def Host.ofStore : Host := fun id arguments => do
  performFound arguments (← get).store.functions[id]?

/-- A call, once the function is found, where something is known to be done if it is one of the
    host. -/
def callFoundBy (performed : Evaluation Value)
    (execute : (depth : Nat) → Node → Evaluation Outcome) (depth : Nat)
    (arguments : List Value) : Option Function → Evaluation Value
  | some (.host ..) => performed
  | some (.defined name parameters body closure) =>
    match depth with
    | 0 => fail .callDepthExceeded
    | depth + 1 =>
      callDefined name parameters closure (executeAll (execute depth) body) arguments
  | none => faulty .missingPart

/-- Calls a function with arguments, by what a host does, and what the statements of its body do at
    the depth that remains. -/
def callHosted (host : Host) (execute : (depth : Nat) → Node → Evaluation Outcome) (depth : Nat)
    (id : FunctionId) (arguments : List Value) : Evaluation Value := do
  callFoundBy (host id arguments) execute depth arguments (← get).store.functions[id]?

/-- The store is looked at a second time by the host, and is still the same. -/
theorem callHosted_ofStore : callHosted .ofStore = callFunction := by
  funext execute depth id arguments s
  have hhosted : (callHosted .ofStore execute depth id arguments).run s =
      (callFunction execute depth id arguments).run s := by
    rw [callHosted, callFunction, EStateM.run_bind, EStateM.run_bind, EStateM.run_get]
    simp only
    cases hf : s.store.functions[id]? with
    | none => rfl
    | some f =>
      cases f with
      | defined _ _ _ _ => rfl
      | host _ _ action =>
        rw [callFoundBy, Host.ofStore, EStateM.run_bind, EStateM.run_get]
        simp only [hf]
        rfl
  exact hhosted

section Definitions

variable (host : Host) (wrap : {α : Type} → Evaluation α → Evaluation α)

mutual

/-- The value of an expression, wrapped with all parts. -/
def evaluateHosted : (steps depth : Nat) → Node → Evaluation Value
  | 0, _, _ => throw .outOfSteps
  | steps + 1, depth, node =>
    wrap (evaluateNode (evaluateHosted steps depth) (invokeHosted steps depth) node)

/-- Executes a statement, wrapped with all parts. -/
def executeHosted : (steps depth : Nat) → Node → Evaluation Outcome
  | 0, _, _ => throw .outOfSteps
  | steps + 1, depth, node =>
    wrap (executeNode steps (evaluateHosted steps depth) (executeHosted steps depth) node)

/-- Calls a function with arguments, wrapped with all parts. -/
def invokeHosted : (steps depth : Nat) → FunctionId → List Value → Evaluation Value
  | 0, _, _, _ => throw .outOfSteps
  | steps + 1, depth, id, arguments =>
    wrap (callHosted host (executeHosted steps) depth id arguments)

end

variable (limits : Limits)

/-- Declares a field, wrapped with all parts. -/
def declareFieldHosted (node : Node) : Evaluation Unit :=
  wrap (declareNode (evaluateHosted host wrap limits.steps limits.depth) node)

/-- Runs a program, wrapped with all parts. -/
def runProgramHosted (program : Node) : Evaluation Value :=
  closingLog (wrap (runNode (declareFieldHosted host wrap limits)
    (invokeHosted host wrap limits.steps limits.depth) program))

end Definitions

/-- An evaluation around whose parts nothing is done is the evaluation itself, if the functions of
    the host are as they are. -/
theorem hosted_id (steps : Nat) :
    evaluateHosted .ofStore id steps = evaluate steps ∧
      executeHosted .ofStore id steps = execute steps ∧
      invokeHosted .ofStore id steps = invoke steps := by
  induction steps with
  | zero =>
    refine ⟨?_, ?_, ?_⟩
    · funext depth n
      rw [evaluateHosted, evaluate]
    · funext depth n
      rw [executeHosted, execute]
    · funext depth id arguments
      rw [invokeHosted, invoke]
  | succ steps ih =>
    obtain ⟨hevaluate, hexecute, hinvoke⟩ := ih
    refine ⟨?_, ?_, ?_⟩
    · funext depth n
      rw [evaluateHosted, evaluate, hevaluate, hinvoke, id]
    · funext depth n
      rw [executeHosted, execute, hevaluate, hexecute, id]
    · funext depth f arguments
      rw [invokeHosted, invoke, hexecute, callHosted_ofStore, id]

theorem declareFieldHosted_id (limits : Limits) :
    declareFieldHosted .ofStore id limits = declareField limits := by
  funext n
  rw [declareFieldHosted, (hosted_id limits.steps).1]
  rfl

/-- The run of a program with nothing around its steps, by the host of the store, is the run itself.
    -/
theorem runProgramHosted_id (limits : Limits) :
    runProgramHosted .ofStore id limits = runProgram limits := by
  funext n
  rw [runProgramHosted, declareFieldHosted_id, (hosted_id limits.steps).2.2]
  rfl

namespace IsRunCongruence

section Hosts

variable {R : {α : Type} → Evaluation α → Evaluation α → Prop} (hR : IsRunCongruence R)
  {host' host : Host} (hhost : ∀ id arguments, R (host' id arguments) (host id arguments))

include hR hhost

/-- A call looks up the function, and asks the host if the program does not define it. -/
theorem callHosted {x' x : (depth : Nat) → Node → Evaluation Outcome}
    (hx : ∀ depth n, R (x' depth n) (x depth n)) (depth : Nat) (id : FunctionId)
    (arguments : List Value) : R (Evaluation.callHosted host' x' depth id arguments)
      (Evaluation.callHosted host x depth id arguments) := by
  refine hR.getFunction id fun o => ?_
  rcases o with _ | (⟨name, parameters, body, closure⟩ | ⟨_, _, _⟩)
  · exact hR.throw _
  · cases depth with
    | zero => exact hR.throw _
    | succ depth => exact hR.callDefined closure (hR.executeAll fun n _ => hx depth n) arguments
  · exact hhost id arguments

variable {w' w : {α : Type} → Evaluation α → Evaluation α}
  (hw : ∀ {α : Type} {p' p : Evaluation α}, R p' p → R (w' p') (w p))

include hw

/-- Evaluations are related if what is done around related parts is. By induction on the
    number of steps. -/
theorem steps (steps : Nat) :
    (∀ depth n, R (evaluateHosted host' w' steps depth n) (evaluateHosted host w steps depth n)) ∧
    (∀ depth n, R (executeHosted host' w' steps depth n) (executeHosted host w steps depth n)) ∧
    ∀ depth id arguments, R (invokeHosted host' w' steps depth id arguments)
      (invokeHosted host w steps depth id arguments) := by
  induction steps with
  | zero =>
    refine ⟨fun depth n => ?_, fun depth n => ?_, fun depth id arguments => ?_⟩
    · rw [evaluateHosted, evaluateHosted]
      exact hR.throw _
    · rw [executeHosted, executeHosted]
      exact hR.throw _
    · rw [invokeHosted, invokeHosted]
      exact hR.throw _
  | succ steps ih =>
    obtain ⟨hevaluate, hexecute, hinvoke⟩ := ih
    refine ⟨fun depth n => ?_, fun depth n => ?_, fun depth id arguments => ?_⟩
    · rw [evaluateHosted, evaluateHosted]
      exact hw (hR.evaluateNode (hevaluate depth) (hinvoke depth) n)
    · rw [executeHosted, executeHosted]
      exact hw (hR.executeNode (hevaluate depth) (hexecute depth) steps 0
        (fun _ _ _ => hR.throw _) n)
    · rw [invokeHosted, invokeHosted]
      exact hw (hR.callHosted hhost hexecute depth id arguments)

variable (limits : Limits) (n : Node)

theorem field :
    R (declareFieldHosted host' w' limits n) (declareFieldHosted host w limits n) :=
  hw (hR.declareNode ((hR.steps hhost hw limits.steps).1 limits.depth) n)

/-- A program is related if its parts are, up to the closing of the log. -/
theorem program : R
    (w' (Evaluation.runNode (declareFieldHosted host' w' limits)
      (invokeHosted host' w' limits.steps limits.depth) n))
    (w (Evaluation.runNode (declareFieldHosted host w limits)
      (invokeHosted host w limits.steps limits.depth) n)) :=
  hw (hR.runNode (hR.field hhost hw limits) ((hR.steps hhost hw limits.steps).2.2 limits.depth) n)

end Hosts

variable {R : {α : Type} → Evaluation α → Evaluation α → Prop} (hR : IsRunCongruence R)

include hR

/-- Functions of the host do what a relation respects, as they are. -/
theorem ofStore (id : FunctionId) (arguments : List Value) :
    R (Host.ofStore id arguments) (Host.ofStore id arguments) := by
  refine hR.getFunction id fun o => ?_
  rcases o with _ | (⟨name, parameters, body, closure⟩ | ⟨_, _, action⟩)
  · exact hR.throw _
  · exact hR.throw _
  · exact hR.perform _

end IsRunCongruence

namespace IsRunCongruence

variable {R : {α : Type} → Evaluation α → Evaluation α → Prop} (hR : IsRunCongruence R)
  (limits : Limits) (n : Node)

include hR

/-- Nothing is done around the parts of an evaluation itself. -/
theorem steps_self (steps : Nat) :
    (∀ depth n, R (evaluate steps depth n) (evaluate steps depth n)) ∧
    (∀ depth n, R (execute steps depth n) (execute steps depth n)) ∧
    ∀ depth id arguments,
      R (invoke steps depth id arguments) (invoke steps depth id arguments) := by
  have h := @IsRunCongruence.steps R hR _ _ hR.ofStore id id (fun h => h) steps
  obtain ⟨hevaluate, hexecute, hinvoke⟩ := hosted_id steps
  rw [hevaluate, hexecute, hinvoke] at h
  exact h

/-- The declaration of a field is related to itself. -/
theorem field_self : R (declareField limits n) (declareField limits n) :=
  hR.declareNode ((hR.steps_self limits.steps).1 limits.depth) n

theorem program_self : R (Evaluation.runNode (declareField limits) (invokeWithin limits) n)
    (Evaluation.runNode (declareField limits) (invokeWithin limits) n) :=
  hR.runNode (hR.field_self limits) ((hR.steps_self limits.steps).2.2 limits.depth) n

end IsRunCongruence

end Blockscript.Evaluation
