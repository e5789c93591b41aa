import Blockscript.Proofs.Evaluation.Course
import Blockscript.Proofs.Evaluation.Session

/-!
# The current scope is restored

Loops and calls are done in scopes of their own. Whatever is done there, and however it ends,
the scope before is the current one again afterwards: the only step that takes another scope
for the current one gives the one before back. This is so in all states, and for all trees,
whether or not their parts belong where they are.

* `Evaluation.Restores`: a step after which the current scope is what it was before;
* `isRunCongruence_restores`: all single steps, and so all that is made of them;
* `restores_steps`: expressions, statements and calls;
* `Session.current_after`: whole sessions;
* `current_restored`: all of them together.
-/

namespace Blockscript

namespace Evaluation

variable {α : Type}

/-- However a step ends, the current scope is the one before. -/
abbrev Restores (p : Evaluation α) : Prop :=
  Along (fun s t => t.current = s.current) p

/-- The current scope is the same at the beginning and at the end. -/
theorem isCourse_restores : IsCourse fun s t => t.current = s.current where
  refl _ := rfl
  trans h h' := h'.trans h
  record e s := by
    rw [State.record]
    split <;> rfl
  print _ _ := rfl
  assign _ _ _ := rfl

/-- Whatever a step does in another scope. -/
theorem restores_within (c : ScopeId) (p : Evaluation α) : Restores (within c p) := by
  intro s
  rw [run_within, stateAfter_returning]

theorem isRunCongruence_restores :
    IsRunCongruence fun {_} => AlongSelf fun s t => t.current = s.current :=
  isCourse_restores.isRunCongruence (fun _ => along_storing fun _ => rfl)
    fun c _ _ => restores_within c _

theorem restores_closingLog {p : Evaluation α} (h : Restores p) : Restores (closingLog p) := by
  intro s
  rw [run_closingLog_eq, stateAfter_changing]
  exact h s

variable (limits : Limits)

/-- All evaluations give the current scope back, however they end. -/
theorem restores_steps :
    (∀ n, Restores (evaluateWithin limits n)) ∧ (∀ n, Restores (executeWithin limits n)) ∧
      ∀ id arguments, Restores (invokeWithin limits id arguments) := by
  obtain ⟨he, hx, hc⟩ := isRunCongruence_restores.steps_self limits.steps
  exact ⟨fun n => (he limits.depth n).2, fun n => (hx limits.depth n).2,
    fun id arguments => (hc limits.depth id arguments).2⟩

/-- The statements of a list give the current scope back, one after the other. -/
theorem restores_executeAll (ns : List Node) : Restores (executeAll (executeWithin limits) ns) :=
  (isRunCongruence_restores.executeAll fun n _ => ((restores_steps limits).2.1 n).self).2

/-- A call gives the current scope back, as its body runs in a scope of its own. -/
theorem restores_callDefined {body : Evaluation Outcome} (h : Restores body) (name : Label)
    (parameters : List Label) (closure : ScopeId) (arguments : List Value) :
    Restores (callDefined name parameters closure body arguments) :=
  (isRunCongruence_restores.callDefined closure h.self arguments).2

theorem restores_serve (request : Request) : Restores (serve limits request) :=
  (isRunCongruence_restores.serve_self (fun h => ⟨congrArg _ h.1, restores_closingLog h.2⟩)
    limits request).2

end Evaluation

open Evaluation

/-- A session gives the current scope back. By induction on its requests. -/
theorem Session.current_after (session : Session) (s : State) :
    (session.after s).current = s.current := by
  induction session generalizing s with
  | nil => rfl
  | cons step session ih => exact (ih _).trans (restores_serve step.1 step.2 s)

/-- From whatever state something is done, with whatever limits and however it ends, the
    current scope is the one before: after a statement, a list of statements, also in a
    scope of its own, an expression, a call, a declaration of a field or of a method, a program,
    and any number of requests, which begin and end in the globals. -/
theorem current_restored (limits : Limits) :
    (∀ n, Restores (executeWithin limits n)) ∧
    (∀ ns, Restores (executeAll (executeWithin limits) ns)) ∧
    (∀ c ns, Restores (within c (executeAll (executeWithin limits) ns))) ∧
    (∀ n, Restores (evaluateWithin limits n)) ∧
    (∀ id arguments, Restores (invokeWithin limits id arguments)) ∧
    (∀ name parameters closure ns arguments, Restores
      (callDefined name parameters closure (executeAll (executeWithin limits) ns) arguments)) ∧
    (∀ n, Restores (declareField limits n)) ∧
    (∀ n, Restores (declareMethod n)) ∧
    (∀ n, Restores (runProgram limits n)) ∧
    ∀ (session : Session),
      (∀ s, (session.after s).current = s.current) ∧
      ∀ store parent level,
        (session.after (.start store parent level)).current = store.scopes.size := by
  have hR := isRunCongruence_restores
  obtain ⟨hevaluate, hexecute, hinvoke⟩ := restores_steps limits
  have hall := restores_executeAll limits
  have hblock : ∀ c ns, Restores (within c (executeAll (executeWithin limits) ns)) :=
    fun c ns => restores_within c _
  have hcall := fun name parameters closure ns arguments =>
    restores_callDefined (hall ns) name parameters closure arguments
  have hprogram := fun n => restores_closingLog (hR.program_self limits n).2
  refine ⟨hexecute, hall, hblock, hevaluate, hinvoke, hcall, fun n => (hR.field_self limits n).2,
    fun n => (hR.declareMethod n).2, hprogram, fun session => ?_⟩
  exact ⟨session.current_after, fun _ _ _ => session.current_after _⟩

end Blockscript
