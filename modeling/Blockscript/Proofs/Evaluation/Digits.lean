import Blockscript.Proofs.Evaluation.Course
import Blockscript.Proofs.Evaluation.Wrapped

/-!
# Runs with a bound on digits

The host may refuse to turn a number of too many digits into a text. A run halts where it meets this
bound. Up to there it is the run that there would be without a bound: nothing else in it depends on
how many digits are allowed.

* `State.unlimited`: a state without the bound;
* `ExceedsDigits`: a result of meeting the bound;
* `WithinDigits`: a step without the bound, beside a step that may meet it;
* `isRunCongruence_withinDigits`: single steps, and all that is made of them;
* `runProgram_withinDigits`: programs;
* `digitLimit_runProgram`: the bound is the same after a run.
-/

namespace Blockscript

/-- A state in which numbers may have any number of digits. -/
def State.unlimited (s : State) : State :=
  { s with digitLimit := none }

namespace Evaluation

variable {α β : Type}

/-- A step has halted because a number has too many digits. -/
def ExceedsDigits (x : EStateM.Result Halt State α) : Prop :=
  valueOf x = .error (.fault .excessiveDigits)

instance (x : EStateM.Result Halt State α) : Decidable (ExceedsDigits x) :=
  match x with
  | .error (.fault f) _ => decidable_of_iff (f = .excessiveDigits)
      ⟨fun h => congrArg (Except.error ∘ Halt.fault) h,
        fun h => Halt.fault.inj (Except.error.inj h)⟩
  | .ok _ _ => isFalse nofun
  | .error (.error _) _ => isFalse nofun
  | .error .outOfSteps _ => isFalse nofun

/-- To change the state afterwards does not change that there have been too many digits. -/
theorem exceedsDigits_changing (f : State → State) (x : EStateM.Result Halt State α) :
    ExceedsDigits (changing f x) ↔ ExceedsDigits x := by
  rw [ExceedsDigits, ExceedsDigits, valueOf_changing]

/-- A run that gives a value has not met the bound. -/
theorem not_exceedsDigits_of_isOk {x : EStateM.Result Halt State α} (h : (valueOf x).isOk) :
    ¬ ExceedsDigits x := by
  intro hexceeds
  rw [hexceeds] at h
  cases h

/-- A step meets the bound on digits, or another one does the same without the bound. -/
def WithinDigits (p' p : Evaluation α) : Prop :=
  ∀ s, ExceedsDigits (p.run s) ∨ p'.run s.unlimited = changing State.unlimited (p.run s)

namespace WithinDigits

variable {p' p : Evaluation α} {f' f : α → Evaluation β}

theorem pure (a : α) : WithinDigits (Pure.pure a) (Pure.pure a) :=
  fun _ => .inr rfl

theorem throw (h : Halt) :
    WithinDigits (MonadExcept.throw h : Evaluation α) (MonadExcept.throw h) :=
  fun _ => .inr rfl

/-- If the first step does not meet the bound, the second one goes on from the same state. -/
theorem bind (hp : WithinDigits p' p) (hf : ∀ a, WithinDigits (f' a) (f a)) :
    WithinDigits (p' >>= f') (p >>= f) := by
  intro s
  rw [EStateM.run_bind, EStateM.run_bind]
  rcases hp s with hexceeds | heq
  · -- What comes next is not done.
    cases hrun : p.run s with
    | ok a t =>
      rw [hrun] at hexceeds
      cases hexceeds
    | error h t =>
      rw [hrun] at hexceeds
      cases hexceeds
      exact .inl rfl
  · rw [heq]
    cases p.run s with
    | ok a t => exact hf a t
    | error h t => exact .inr rfl

/-- This is where the bound is met, if it is. -/
theorem checkDigits (exceeds : Nat → Bool) :
    WithinDigits (Evaluation.checkDigits exceeds) (Evaluation.checkDigits exceeds) := by
  intro s
  rw [run_checkDigits, run_checkDigits]
  by_cases h : s.digitLimit.any exceeds
  · rw [if_pos h]
    exact .inl rfl
  · rw [if_neg h]
    exact .inr rfl

/-- What is recorded has been written already. -/
theorem record (e : Event) : WithinDigits (modify (·.record e)) (modify (·.record e)) := by
  intro s
  have hrecord : s.unlimited.record e = (s.record e).unlimited := by
    rw [State.record, State.record]
    have hopen : s.unlimited.logIsOpen = s.logIsOpen := rfl
    rw [hopen]
    split <;> rfl
  exact .inr (congrArg (EStateM.Result.ok _) hrecord)

theorem logFrom {event' event : Evaluation Event} (h : WithinDigits event' event) (level : Nat) :
    WithinDigits (logFrom level event') (logFrom level event) := by
  intro s
  have hstep : WithinDigits
      (if level ≤ s.level then event' >>= fun e => modify (·.record e) else Pure.pure ⟨⟩)
      (if level ≤ s.level then event >>= fun e => modify (·.record e) else Pure.pure ⟨⟩) := by
    split
    · exact h.bind record
    · exact pure _
  exact hstep s

/-- A step on the store writes no number. -/
theorem storing (step : Storing α) :
    WithinDigits (Evaluation.storing step) (Evaluation.storing step) := by
  intro s
  rw [run_storing, run_storing]
  have hstore : s.unlimited.store = s.store := rfl
  rw [hstore]
  cases step.run s.store <;> exact .inr rfl

theorem within (h : WithinDigits p' p) (c : ScopeId) :
    WithinDigits (Evaluation.within c p') (Evaluation.within c p) := by
  intro s
  have hcurrent : { s.unlimited with current := c } = State.unlimited { s with current := c } := rfl
  rw [run_within, run_within, hcurrent]
  rcases h { s with current := c } with hexceeds | heq
  · exact .inl ((valueOf_returning _ _).trans hexceeds)
  · rw [heq]
    refine .inr ?_
    cases p.run { s with current := c } <;> rfl

theorem closingLog (h : WithinDigits p' p) :
    WithinDigits (Evaluation.closingLog p') (Evaluation.closingLog p) := by
  intro s
  rw [run_closingLog_eq, run_closingLog_eq]
  rcases h s with hexceeds | heq
  · exact .inl ((exceedsDigits_changing _ _).2 hexceeds)
  · rw [heq]
    refine .inr ?_
    rw [changing_changing, changing_changing]
    rfl

end WithinDigits

/-- Being the same up to the bound is kept by all that runs are made of, as digits are counted by
    steps of their own. -/
theorem isRunCongruence_withinDigits : IsRunCongruence (fun {_} => WithinDigits) :=
  IsStoreCongruence.isRunCongruence
    { pure := .pure
      throw := .throw
      bind := .bind
      logFrom := fun h _ => h.logFrom _
      print := fun _ _ => .inr rfl
      checkDigits := .checkDigits
      storing := .storing
      current := fun _ => .inr rfl
      within := fun c h => h.within c }

/-- A program meets the bound on digits, or it runs as it does without one. -/
theorem runProgram_withinDigits (limits : Limits) (n : Node) :
    WithinDigits (runProgram limits n) (runProgram limits n) :=
  .closingLog (isRunCongruence_withinDigits.program_self limits n)

/-! ### The bound itself -/

/-- No step of a run changes the bound. -/
theorem isCourse_keepsLimit : IsCourse fun s t => t.digitLimit = s.digitLimit where
  refl _ := rfl
  trans h h' := h'.trans h
  record e s := by
    rw [State.record]
    split <;> rfl
  print _ _ := rfl
  assign _ _ _ := rfl

/-- A program does nothing to the bound on digits. -/
theorem digitLimit_runProgram (limits : Limits) (n : Node) (s : State) :
    (stateAfter ((runProgram limits n).run s)).digitLimit = s.digitLimit := by
  have hR := isCourse_keepsLimit.isRunCongruence (fun _ => along_storing fun _ => rfl)
    fun c p hp s => by
      rw [run_within, stateAfter_returning]
      exact hp { s with current := c }
  rw [runProgram, run_closingLog_eq, stateAfter_changing]
  exact (hR.program_self limits n).2 s

end Evaluation

end Blockscript
