import Blockscript.Proofs.Evaluation.Hosts
import Blockscript.Proofs.Evaluation.Session

/-!
# The moments of a session

Whenever a part of an evaluation begins or ends, there is a *moment* at which one may look at
the state. To tell moments apart they are counted by a *clock*: it prints an empty line
at every moment, so that the text printed so far is longer and longer. When it is over with a
clock, by what has been printed, everything halts. So the clock that is over at some time leads
to the state at that time, and a clock that is never over changes nothing but the output. The
functions of a host do not hear the clock: what they do is a single step.

* `Evaluation.clocked`: a step with a clock, with `run_clocked` for what it does;
* `Session.stateAt`: the state at some time of a session, by what a host does;
* `Evaluation.Echoes`: a step that differs from another one in what it prints;
* `Session.store_afterHosted_clocked`: a session with a clock that is never over.
-/

namespace Blockscript

namespace Evaluation

variable {α β : Type}

/-- A moment: the clock goes on, unless it is over. -/
def tick (isOver : Nat → Bool) : Evaluation Unit := do
  if isOver (← get).output.length then
    throw .outOfSteps
  modify (·.print "")

/-- A step with a clock. -/
def clocked (isOver : Nat → Bool) (step : Evaluation α) : Evaluation α := do
  tick isOver
  let a ← step
  tick isOver
  return a

/-- A tick prints a line, unless time is over. -/
theorem run_tick (isOver : Nat → Bool) (s : State) : (tick isOver).run s =
    if isOver s.output.length then .error .outOfSteps s else .ok () (s.print "") := by
  rw [tick, EStateM.run_bind, EStateM.run_get]
  simp only
  split <;> rfl

/-- A step halts where its clock is over, and otherwise only prints something more. -/
theorem run_clocked (isOver : Nat → Bool) (step : Evaluation α) (s : State) :
    (clocked isOver step).run s =
      if isOver s.output.length then .error .outOfSteps s
      else match step.run (s.print "") with
        | .ok a t => if isOver t.output.length then .error .outOfSteps t else .ok a (t.print "")
        | .error h t => .error h t := by
  rw [clocked, EStateM.run_bind, run_tick]
  by_cases hs : isOver s.output.length
  · rw [if_pos hs, if_pos hs]
  · rw [if_neg hs, if_neg hs]
    simp only [EStateM.run_bind]
    cases step.run (s.print "") with
    | error h t => rfl
    | ok a t =>
      simp only [run_tick]
      by_cases ht : isOver t.output.length
      · simp only [if_pos ht]
      · simp only [if_neg ht]
        rfl

end Evaluation

open Evaluation

/-- The state at some time of a session: when that much has been printed, with a clock. -/
def Session.stateAt (host : Host) (time : Nat) (session : Session) (s : State) : State :=
  session.afterHosted host (clocked (time ≤ ·)) s

/-! ### Clocks that are never over -/

namespace Evaluation

variable {α β : Type}

/-- A step that does what another one does, but for what is printed. -/
def Echoes (p' p : Evaluation α) : Prop :=
  ∀ s output, ∃ output', p'.run (s.printed output) = changing (State.printed output') (p.run s)

namespace Echoes

variable {p' p : Evaluation α} {f' f : α → Evaluation β}

/-- Steps one after the other do the same, and print more. -/
theorem bind (hp : Echoes p' p) (hf : ∀ a, Echoes (f' a) (f a)) :
    Echoes (p' >>= f') (p >>= f) := by
  intro s output
  obtain ⟨output', hrun⟩ := hp s output
  rw [EStateM.run_bind, EStateM.run_bind, hrun]
  cases p.run s with
  | ok a t => exact hf a t output'
  | error h t => exact ⟨output', rfl⟩

theorem record (e : Event) : Echoes (modify (·.record e)) (modify (·.record e)) := by
  intro s output
  have hrun : ∃ output', (s.printed output).record e = (s.record e).printed output' := by
    rw [State.record, State.record]
    have hopen : (s.printed output).logIsOpen = s.logIsOpen := rfl
    rw [hopen]
    split
    · exact ⟨output, rfl⟩
    · exact ⟨output ++ e.text ++ "\n", rfl⟩
  obtain ⟨output', heq⟩ := hrun
  exact ⟨output', congrArg (EStateM.Result.ok _) heq⟩

theorem logFrom {event' event : Evaluation Event} (h : Echoes event' event) (level : Nat) :
    Echoes (logFrom level event') (logFrom level event) := by
  intro s output
  have hstep : Echoes
      (if level ≤ s.level then event' >>= fun e => modify (·.record e) else pure ⟨⟩)
      (if level ≤ s.level then event >>= fun e => modify (·.record e) else pure ⟨⟩) := by
    split
    · exact h.bind record
    · exact fun _ output => ⟨output, rfl⟩
  exact hstep s output

/-- Whether there are too many digits does not depend on what has been printed. -/
theorem checkDigits (exceeds : Nat → Bool) :
    Echoes (Evaluation.checkDigits exceeds) (Evaluation.checkDigits exceeds) := by
  intro s output
  refine ⟨output, ?_⟩
  have hlimit : (s.printed output).digitLimit = s.digitLimit := rfl
  rw [run_checkDigits, run_checkDigits, hlimit]
  split <;> rfl

/-- A step on the store does not depend on what has been printed. -/
theorem storing (step : Storing α) :
    Echoes (Evaluation.storing step) (Evaluation.storing step) := by
  intro s output
  refine ⟨output, ?_⟩
  rw [run_storing, run_storing]
  have hstore : (s.printed output).store = s.store := rfl
  rw [hstore]
  cases step.run s.store <;> rfl

theorem within (h : Echoes p' p) (c : ScopeId) :
    Echoes (Evaluation.within c p') (Evaluation.within c p) := by
  intro s output
  obtain ⟨output', hrun⟩ := h { s with current := c } output
  refine ⟨output', ?_⟩
  rw [run_within, run_within]
  have hprinted : { s.printed output with current := c } =
      State.printed output { s with current := c } := rfl
  rw [hprinted, hrun]
  cases p.run { s with current := c } <;> rfl

theorem closingLog (h : Echoes p' p) :
    Echoes (Evaluation.closingLog p') (Evaluation.closingLog p) := by
  intro s output
  obtain ⟨output', hrun⟩ := h s output
  refine ⟨output', ?_⟩
  rw [run_closingLog_eq, run_closingLog_eq, hrun]
  cases p.run s <;> rfl

/-- A line is printed after all that has been printed. -/
theorem print (line : String) : Echoes (modify (·.print line)) (modify (·.print line)) :=
  fun _ output => ⟨output ++ line ++ "\n", rfl⟩

theorem getField (object : ObjectId) (field : Label) :
    Echoes (Evaluation.getField object field) (Evaluation.getField object field) := by
  rw [Evaluation.getField, checkName]
  split
  · exact bind (fun _ output => ⟨output, rfl⟩) fun _ => storing _
  · exact bind (fun _ output => ⟨output, rfl⟩) fun _ => storing _

theorem setField (object : ObjectId) (field : Label) (value : Value) :
    Echoes (Evaluation.setField object field value) (Evaluation.setField object field value) := by
  rw [Evaluation.setField, checkName]
  split
  · exact bind (fun _ output => ⟨output, rfl⟩) fun _ => storing _
  · exact bind (fun _ output => ⟨output, rfl⟩) fun _ => storing _

/-- What a host that acts on fields does is not changed by what has been printed. -/
theorem of_actsOnFields (h : ActsOnFields p) : Echoes p p := by
  induction h with
  | look h => exact fun s output => ⟨output, h.run_printed s output⟩
  | print line => exact print line
  | getField object field => exact getField object field
  | setField object field value => exact setField object field value
  | bind _ _ ihp ihf => exact ihp.bind ihf
  | @attempt _ p handler _ _ ihp ihhandler =>
    intro s output
    obtain ⟨output', hrun⟩ := ihp s output
    rw [run_attempt, run_attempt, hrun]
    cases p.run s with
    | ok a t => exact ⟨output', rfl⟩
    | error h t => exact ihhandler h t output'

/-- A clock that is never over is only heard. -/
theorem clocked (h : Echoes p' p) : Echoes (Evaluation.clocked (fun _ => false) p') p := by
  intro s output
  obtain ⟨output', hrun⟩ := h s (output ++ "" ++ "\n")
  have hprinted : (s.printed output).print "" = s.printed (output ++ "" ++ "\n") := rfl
  rw [run_clocked, hprinted, hrun]
  cases p.run s with
  | ok a t => exact ⟨output' ++ "" ++ "\n", rfl⟩
  | error e t => exact ⟨output', rfl⟩

end Echoes

/-- Printing more is kept by all that runs are made of. -/
theorem isRunCongruence_echoes : IsRunCongruence (fun {_} => Echoes) :=
  IsStoreCongruence.isRunCongruence
    { pure := fun _ _ output => ⟨output, rfl⟩
      throw := fun _ _ output => ⟨output, rfl⟩
      bind := .bind
      logFrom := fun h _ => h.logFrom _
      print := .print
      checkDigits := .checkDigits
      storing := .storing
      current := fun _ output => ⟨output, rfl⟩
      within := fun c h => h.within c }

/-- A request is served with a clock as without one. -/
theorem echoes_serveHosted {host : Host} (hhost : host.ActsOnFields) (limits : Limits)
    (request : Request) : Echoes (serveHosted host (clocked fun _ => false) limits request)
      (serveHosted host id limits request) :=
  @IsRunCongruence.serveHosted _ isRunCongruence_echoes (clocked fun _ => false) id _ _
    (fun id arguments => .of_actsOnFields (hhost id arguments)) Echoes.clocked Echoes.closingLog
    limits request

end Evaluation

namespace Session

variable {host : Host} (hhost : host.ActsOnFields)

include hhost

/-- A session by a clock that is never over does what the session does. By induction on its
    requests. -/
theorem exists_afterHosted_clocked (session : Session) (s : State) (output : String) :
    ∃ output', session.afterHosted host (clocked fun _ => false) (s.printed output) =
      (session.afterHosted host id s).printed output' := by
  induction session generalizing s output with
  | nil => exact ⟨output, rfl⟩
  | cons step session ih =>
    obtain ⟨output', hrun⟩ := echoes_serveHosted hhost step.1 step.2 s output
    -- The next request begins where this one has ended, but for the output.
    obtain ⟨output'', hafter⟩ := ih (stateAfter ((serveHosted host id step.1 step.2).run s)) output'
    refine ⟨output'', ?_⟩
    have hstate := stateAfter_changing (State.printed output')
      ((serveHosted host id step.1 step.2).run s)
    rw [← hstate, ← hrun] at hafter
    exact hafter

/-- A clock that is never over does nothing to the store. -/
theorem store_afterHosted_clocked (session : Session) (s : State) :
    (session.afterHosted host (clocked fun _ => false) s).store =
      (session.afterHosted host id s).store := by
  obtain ⟨output', h⟩ := session.exists_afterHosted_clocked hhost s s.output
  have hprinted : s.printed s.output = s := rfl
  rw [hprinted] at h
  rw [h]
  rfl

end Session

end Blockscript
