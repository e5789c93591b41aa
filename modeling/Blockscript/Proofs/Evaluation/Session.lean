import Blockscript.Proofs.Evaluation.Scoped
import Blockscript.Proofs.Evaluation.Wrapped

/-!
# Sessions

A host may run programs, but also single statements and expressions, declare fields and
methods one by one and call functions. What it asks for, one thing after the other, is a
*session*. The state is kept from one request to the next, also after one that fails.

* `Request`, `Session`: what is asked for;
* `Evaluation.serve`, `Session.after`: what is done then, and the state that this leads to;
* `Evaluation.serveHosted`, `Session.afterHosted`: the same, by what a host does and with something
  around all parts;
* `IsRunCongruence.serveHosted`, `IsRunCongruence.serve_self`: related requests.
-/

namespace Blockscript

/-- What a host may ask for. -/
inductive Request where
  | run (program : Node)
  | execute (statement : Node)
  | evaluate (expression : Node)
  | declareField (field : Node)
  | declareMethod (method : Node)
  | invoke (function : FunctionId) (arguments : List Value)

/-- What is asked for, one thing after the other, each within limits of its own. -/
abbrev Session := List (Limits × Request)

namespace Evaluation

/-- Does what is asked for, by what programs and their parts do. -/
def serveRequest (run : Node → Evaluation Value) (execute : Node → Evaluation Outcome)
    (evaluate : Node → Evaluation Value) (declareField : Node → Evaluation Unit)
    (invoke : FunctionId → List Value → Evaluation Value) : Request → Evaluation Unit
  | .run program => do
    let _ ← run program
  | .execute statement => do
    let _ ← execute statement
  | .evaluate expression => do
    let _ ← evaluate expression
  | .declareField field => declareField field
  | .declareMethod method => declareMethod method
  | .invoke function arguments => do
    let _ ← invoke function arguments

/-- Does what is asked for, within the limits. -/
def serve (limits : Limits) : Request → Evaluation Unit :=
  serveRequest (runProgram limits) (executeWithin limits) (evaluateWithin limits)
    (declareField limits) (invokeWithin limits)

/-- Does what is asked for by what a host does, wrapped with all parts. -/
def serveHosted (host : Host) (wrap : {α : Type} → Evaluation α → Evaluation α) (limits : Limits)
    (request : Request) : Evaluation Unit :=
  wrap (serveRequest (runProgramHosted host wrap limits)
    (executeHosted host wrap limits.steps limits.depth)
    (evaluateHosted host wrap limits.steps limits.depth) (declareFieldHosted host wrap limits)
    (invokeHosted host wrap limits.steps limits.depth) request)

/-- A request with nothing around its steps, by the host of the store, is the request itself. -/
theorem serveHosted_id : serveHosted .ofStore id = serve := by
  funext limits request
  obtain ⟨hevaluate, hexecute, hinvoke⟩ := hosted_id limits.steps
  rw [serveHosted, runProgramHosted_id, declareFieldHosted_id, hevaluate, hexecute, hinvoke]
  rfl

end Evaluation

open Evaluation

namespace Session

/-- The state after a session, if every request is served by what a host does, wrapped with all
    parts. -/
def afterHosted (host : Host) (wrap : {α : Type} → Evaluation α → Evaluation α)
    (session : Session) (s : State) : State :=
  session.foldl (fun s step => stateAfter ((serveHosted host wrap step.1 step.2).run s)) s

/-- The state after a session. -/
def after (session : Session) (s : State) : State :=
  session.foldl (fun s step => stateAfter ((serve step.1 step.2).run s)) s

theorem afterHosted_id : afterHosted .ofStore id = after := by
  funext session s
  rw [afterHosted, serveHosted_id]
  rfl

end Session

namespace Evaluation.IsRunCongruence

variable {R : {α : Type} → Evaluation α → Evaluation α → Prop} (hR : IsRunCongruence R)
  {w' w : {α : Type} → Evaluation α → Evaluation α}

include hR

/-- A request is one of a run, a statement, an expression, a declaration or a call. -/
theorem serveRequest {r' r : Node → Evaluation Value} (hr : ∀ n, R (r' n) (r n))
    {x' x : Node → Evaluation Outcome} (hx : ∀ n, R (x' n) (x n))
    {e' e : Node → Evaluation Value} (he : ∀ n, R (e' n) (e n))
    {d' d : Node → Evaluation Unit} (hd : ∀ n, R (d' n) (d n))
    {c' c : FunctionId → List Value → Evaluation Value}
    (hc : ∀ id arguments, R (c' id arguments) (c id arguments)) (request : Request) :
    R (Evaluation.serveRequest r' x' e' d' c' request)
      (Evaluation.serveRequest r x e d c request) := by
  cases request with
  | run program => exact hR.bind (hr program) fun _ => hR.pure _
  | execute statement => exact hR.bind (hx statement) fun _ => hR.pure _
  | evaluate expression => exact hR.bind (he expression) fun _ => hR.pure _
  | declareField field => exact hd field
  | declareMethod method => exact hR.declareMethod method
  | invoke function arguments => exact hR.bind (hc function arguments) fun _ => hR.pure _

/-- What is left to a relation is the closing of the log. -/
theorem serveHosted {host' host : Host}
    (hhost : ∀ id arguments, R (host' id arguments) (host id arguments))
    (hw : ∀ {α : Type} {p' p : Evaluation α}, R p' p → R (w' p') (w p))
    (hclosing : ∀ {p' p : Evaluation Value}, R p' p → R (closingLog p') (closingLog p))
    (limits : Limits) (request : Request) : R (Evaluation.serveHosted host' w' limits request)
      (Evaluation.serveHosted host w limits request) := by
  obtain ⟨hevaluate, hexecute, hinvoke⟩ := hR.steps hhost hw limits.steps
  exact hw (hR.serveRequest (fun n => hclosing (hR.program hhost hw limits n))
    (hexecute limits.depth) (hevaluate limits.depth) (hR.field hhost hw limits)
    (hinvoke limits.depth) request)

theorem serve_self
    (hclosing : ∀ {p' p : Evaluation Value}, R p' p → R (closingLog p') (closingLog p))
    (limits : Limits) (request : Request) : R (serve limits request) (serve limits request) := by
  have h := @IsRunCongruence.serveHosted R hR id id _ _ hR.ofStore (fun h => h) hclosing limits
    request
  rw [serveHosted_id] at h
  exact h

end Evaluation.IsRunCongruence

end Blockscript
