import Blockscript.Proofs.Evaluation.Course
import Blockscript.Proofs.Evaluation.Wrapped

/-!
# What functions of a host do

A program does not tell what the functions of its host do, so that it has to be assumed. A host that
*acts on fields* does nothing to scopes but give values to the fields of objects. Its functions may
look at all that there is but the output, compute whatever they like, print, catch the errors of
what they ask for and raise others of their own, in any order. What they remember from call to call
is a field of an object that nothing binds. So they only do what is a course of a run, as the
functions do of which a store tells.

* `Evaluation.Looks`: steps that change nothing;
* `Evaluation.ActsOnFields`, `Host.ActsOnFields`: what is assumed of a step, and of a host;
* `ActsOnFields.along`: such steps are passed in the course of a run;
* `Host.actsOnFields_ofStore`: the functions of which a store tells;
* `scaling`, `State.ofPoint`: a host whose function reads a field and gives it a value.
-/

namespace Blockscript

/-- A state with another output. -/
def State.printed (output : String) (s : State) : State :=
  { s with output := output }

namespace Evaluation

variable {α β : Type}

/-- A step that changes nothing, and does not depend on what has been printed. -/
structure Looks (p : Evaluation α) : Prop where
  stateAfter_run (s : State) : stateAfter (p.run s) = s
  run_printed (s : State) (output : String) :
    p.run (s.printed output) = changing (State.printed output) (p.run s)

/-- A step made of others that act on scopes through the fields of objects alone. -/
inductive ActsOnFields : {α : Type} → Evaluation α → Prop
  | look {α : Type} {p : Evaluation α} : Looks p → ActsOnFields p
  | print (line : String) : ActsOnFields (modify (·.print line))
  | getField (object : ObjectId) (field : Label) : ActsOnFields (getField object field)
  | setField (object : ObjectId) (field : Label) (value : Value) :
      ActsOnFields (setField object field value)
  | bind {α β : Type} {p : Evaluation α} {f : α → Evaluation β} :
      ActsOnFields p → (∀ a, ActsOnFields (f a)) → ActsOnFields (p >>= f)
  | attempt {α : Type} {p : Evaluation α} {handler : Halt → Evaluation α} :
      ActsOnFields p → (∀ h, ActsOnFields (handler h)) → ActsOnFields (tryCatch p handler)

/-- A host whose functions act on scopes through the fields of objects alone. -/
def Host.ActsOnFields (host : Host) : Prop :=
  ∀ id arguments, Evaluation.ActsOnFields (host id arguments)

/-- The handler goes on from the state in which the step has failed. -/
theorem run_attempt (p : Evaluation α) (handler : Halt → Evaluation α) (s : State) :
    (tryCatch p handler).run s =
      match p.run s with
      | .ok a t => .ok a t
      | .error h t => (handler h).run t := by
  change EStateM.tryCatch p handler s = _
  rw [EStateM.tryCatch]
  cases hrun : p.run s with
  | ok a t =>
    rw [EStateM.run] at hrun
    rw [hrun]
  | error h t =>
    rw [EStateM.run] at hrun
    rw [hrun]
    rfl

/-! ### Steps that change nothing -/

theorem looks_pure (a : α) : Looks (pure a : Evaluation α) :=
  ⟨fun _ => rfl, fun _ _ => rfl⟩

theorem looks_throw (h : Halt) : Looks (throw h : Evaluation α) :=
  ⟨fun _ => rfl, fun _ _ => rfl⟩

/-- All may be looked at but the output. -/
theorem looks_reading {f : State → α} (h : ∀ s output, f (s.printed output) = f s) :
    Looks (f <$> get) :=
  ⟨fun _ => rfl, fun s output => congrArg (EStateM.Result.ok · _) (h s output)⟩

/-- What is read of a state, and what is done with it. -/
theorem get_bind_reading (f : State → α) (g : α → Evaluation β) :
    (do g (f (← get))) = (f <$> get : Evaluation α) >>= g :=
  rfl

/-- To look for a text changes nothing, and output is none of what is looked at. -/
theorem looks_display (v : Value) : Looks (display v) := by
  refine ⟨fun s => ?_, fun s output => ?_⟩
  · rw [run_display]
    split <;> rfl
  · have hdisplay : (s.printed output).display v = s.display v := rfl
    rw [run_display, run_display, hdisplay]
    split <;> rfl

/-! ### The course of a run -/

/-- Whatever holds along the steps of a run holds along those of a host. By induction on how they
    are made. -/
theorem ActsOnFields.along {T : State → State → Prop} (hT : IsCourse T) {p : Evaluation α}
    (h : ActsOnFields p) : Along T p := by
  induction h with
  | look h =>
    intro s
    rw [h.stateAfter_run]
    exact hT.refl s
  | print line => exact hT.print line
  | getField object field => exact hT.getField object field
  | setField object field value => exact hT.setField object field value
  | bind _ _ ihp ihf => exact hT.bind ihp ihf
  | @attempt _ p handler _ _ ihp ihhandler =>
    intro s
    have hs := ihp s
    rw [run_attempt]
    cases hrun : p.run s with
    | ok a t =>
      rw [hrun] at hs
      exact hs
    | error h t =>
      rw [hrun] at hs
      exact hT.trans hs (ihhandler h t)

/-- By induction on the exchange: every request is such a step. -/
theorem actsOnFields_perform (exchange : Exchange) : ActsOnFields (perform exchange) := by
  induction exchange with
  | answer value => exact .look (looks_pure value)
  | fail e => exact .look (looks_throw _)
  | faulty f => exact .look (looks_throw _)
  | print value next ih =>
    exact .bind (.look (looks_display value)) fun line => .bind (.print line) fun _ => ih
  | getField object field next ih => exact .bind (.getField object field) ih
  | setField object field value next ih => exact .bind (.setField object field value) fun _ => ih

/-- The functions of which a store tells go on by getting and giving values to fields, and by
    printing. -/
theorem Host.actsOnFields_ofStore : Host.ofStore.ActsOnFields := by
  intro id arguments
  rw [ofStore, get_bind_reading (·.store.functions[id]?)]
  refine .bind (.look (looks_reading fun _ _ => rfl)) fun o => ?_
  rcases o with _ | (⟨name, parameters, body, closure⟩ | ⟨_, _, action⟩)
  · exact .look (looks_throw _)
  · exact .look (looks_throw _)
  · exact actsOnFields_perform _

/-! ### An example -/

/-- A host whose functions multiply the field `x` of the first object by an argument, and tell
    whether the field could be given its new value. -/
def scaling : Host := fun _ arguments => do
  match ← getField 0 (.text "x"), arguments with
  | .integer x, [.integer factor] =>
    tryCatch
      (do
        setField 0 (.text "x") (.integer (factor * x))
        return .boolean true)
      fun _ => return .boolean false
  | _, _ => faulty .unsuitableValue

/-- The example reads a field, gives it a value, and catches the error if that fails. -/
theorem actsOnFields_scaling : scaling.ActsOnFields := by
  intro id arguments
  refine .bind (.getField 0 _) fun v => ?_
  split
  · exact .attempt (.bind (.setField 0 _ _) fun _ => .look (looks_pure _)) fun _ =>
      .look (looks_pure _)
  · exact .look (looks_throw _)

end Evaluation

/-- A scope that binds an object, with a field and a constant one, and a function of the host. -/
def State.ofPoint : State :=
  let globals : Scope := ⟨none, [⟨.text "p", false, .object 0⟩], [⟨.text "scale", 1, 0⟩]⟩
  let fields : List Variable :=
    [⟨.text "x", false, .integer 21⟩, ⟨.text "origin", true, .integer 0⟩]
  { store := ⟨#[globals, ⟨none, fields, []⟩], #[.host "scale" 1 .print], #[⟨"point", 1⟩]⟩
    current := 0
    output := ""
    level := 0
    log := []
    logIsOpen := false
    digitLimit := none }

end Blockscript
