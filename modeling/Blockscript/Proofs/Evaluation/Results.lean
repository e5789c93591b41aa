import Blockscript.Evaluation.Evaluator

/-!
# Results of steps

A step gives a value or halts, and leaves a state behind in either case. Texts of values and
operators on values do nothing to the state, but look at the bound on digits, if there is one.

* `Evaluation.valueOf`, `Evaluation.stateAfter`: the two parts of a result;
* `State.display`, `Evaluation.run_display`: the text of a value in a state;
* `Evaluation.run_applyBinary`: an operator on two values.
-/

namespace Blockscript

/-- The text of a value in a state, in which there may be a bound on digits. -/
def State.display (s : State) (v : Value) : Except Halt String :=
  if s.digitLimit.any v.textExceeds then .error (.fault .excessiveDigits) else s.store.display v

/-- A bound decides whether there is a text, and not what it is. -/
theorem State.display_eq_ok {s : State} {v : Value} {text : String} (h : s.display v = .ok text) :
    s.store.display v = .ok text := by
  rw [State.display] at h
  split at h
  · cases h
  · exact h

namespace Evaluation

variable {α : Type}

/-- The value that a step gives, or how it halts. -/
def valueOf : EStateM.Result Halt State α → Except Halt α
  | .ok a _ => .ok a
  | .error h _ => .error h

/-- The state after a step. -/
def stateAfter : EStateM.Result Halt State α → State
  | .ok _ s => s
  | .error _ s => s

theorem run_display (v : Value) (s : State) : (display v).run s =
    match s.display v with
    | .ok text => .ok text s
    | .error h => .error h s := by
  rw [display, EStateM.run_bind, run_checkDigits, State.display]
  by_cases h : s.digitLimit.any v.textExceeds
  · simp only [if_pos h]
  · simp only [if_neg h]
    rw [textOf, EStateM.run_bind, EStateM.run_get]
    simp only
    cases s.store.display v <;> rfl

/-- All operators but the logical ones are applied to the values of both operands. -/
theorem applyBinary_of_ne {o : Label} {left right : Evaluation Value} (hand : o ≠ .text "&&")
    (hor : o ≠ .text "||") : applyBinary o left right = (do
      let a ← left
      let b ← right
      checkDigits (Value.quotientExceeds o a b)
      match Value.apply o a b with
      | .ok v => return v
      | .error h => throw h) := by
  unfold applyBinary
  split
  · exact (hand rfl).elim
  · exact (hor rfl).elim
  · rfl

theorem run_applyBinary {o : Label} (hand : o ≠ .text "&&") (hor : o ≠ .text "||")
    (a b : Value) (s : State) : (applyBinary o (pure a) (pure b)).run s =
      if s.digitLimit.any (Value.quotientExceeds o a b) then
        .error (.fault .excessiveDigits) s
      else match Value.apply o a b with
        | .ok v => .ok v s
        | .error h => .error h s := by
  rw [applyBinary_of_ne hand hor, pure_bind, pure_bind, EStateM.run_bind, run_checkDigits]
  by_cases h : s.digitLimit.any (Value.quotientExceeds o a b)
  · simp only [if_pos h]
  · simp only [if_neg h]
    cases Value.apply o a b <;> rfl

end Evaluation

end Blockscript
