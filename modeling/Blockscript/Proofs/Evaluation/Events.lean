import Blockscript.Proofs.Evaluation.Results
import Blockscript.Proofs.Value.Plain

/-!
# Events

What is logged is only looked at. The step that makes an event leaves the state as it is,
and it halts only where a value has no kind or no text, which no value of a program is
the cause of.

* `Event.level`: the least level at which an event is logged;
* `Evaluation.Reads`: a step that looks at the state and does nothing to it;
* `Evaluation.Makes`: a step that makes an event;
* `makes_condition`, `makes_declare`, `makes_call`, …: the events of a run.
-/

namespace Blockscript

/-- The least level at which an event is logged. -/
def Event.level : Event → Nat
  | .call .. => callLevel
  | .answer .. => callLevel
  | .declare .. => declarationLevel
  | .define .. => declarationLevel
  | .condition .. => conditionLevel

/-- Nothing is logged at level zero. -/
theorem Event.level_pos (e : Event) : 0 < e.level := by
  cases e <;> exact Nat.zero_lt_succ _

/-- The level of conditions is the highest one. -/
theorem Event.level_le (e : Event) : e.level ≤ conditionLevel := by
  cases e <;> exact Nat.le_of_ble_eq_true rfl

/-- Only values that no program has are without a text. -/
theorem Store.not_isProper_of_display {s : Store} {v : Value} {h : Halt}
    (hv : s.display v = .error h) : ¬ h.IsProper := by
  cases v with
  | decimal d =>
    rw [display] at hv
    split at hv
    · cases hv
      exact id
    · cases hv
  | foreign _ =>
    cases hv
    exact id
  | _ => cases hv

/-- A value without a text is no matter of a proper end: it is foreign, or has too many digits. -/
theorem State.not_isProper_of_display {s : State} {v : Value} {h : Halt}
    (hv : s.display v = .error h) : ¬ h.IsProper := by
  rw [State.display] at hv
  split at hv
  · cases hv
    exact id
  · exact Store.not_isProper_of_display hv

theorem Value.not_isProper_of_kind {v : Value} {e : RuntimeError} (hv : v.kind = .error e) :
    ¬ e.IsProper := by
  cases v <;> cases hv
  exact id

namespace Evaluation

variable {α β : Type}

/-- A step that does nothing to the state and gives a value as claimed. It halts only at
    what no program has. -/
def Reads (Q : α → Prop) (p : Evaluation α) : Prop :=
  ∀ s, match p.run s with
    | .ok a t => t = s ∧ Q a
    | .error h _ => ¬ h.IsProper

namespace Reads

variable {P : α → Prop} {Q : β → Prop} {p : Evaluation α} {f : α → Evaluation β}

theorem pure {a : α} (h : P a) : Reads P (Pure.pure a) :=
  fun _ => ⟨rfl, h⟩

theorem throw {h : Halt} (hh : ¬ h.IsProper) : Reads P (MonadExcept.throw h) :=
  fun _ => hh

/-- To read one thing after the other changes nothing. -/
theorem bind (hp : Reads P p) (hf : ∀ a, Reads Q (f a)) : Reads Q (p >>= f) := by
  intro s
  have hs := hp s
  rw [EStateM.run_bind]
  cases hrun : p.run s with
  | error h t =>
    rw [hrun] at hs
    exact hs
  | ok a t =>
    rw [hrun] at hs
    obtain ⟨rfl, -⟩ := hs
    exact hf a t

/-- A list of things is read one by one. -/
theorem mapM {ns : List β} {f : β → Evaluation α} (h : ∀ n, Reads P (f n)) :
    Reads (fun _ => True) (ns.mapM f) := by
  induction ns with
  | nil => exact pure trivial
  | cons n ns ih =>
    rw [List.mapM_cons]
    exact (h n).bind fun _ => ih.bind fun _ => pure trivial

/-- To look for a text changes nothing, and a value without one is no proper end. -/
theorem display (v : Value) : Reads (fun _ => True) (display v) := by
  intro s
  rw [run_display]
  cases hv : s.display v with
  | ok text => exact ⟨rfl, trivial⟩
  | error h => exact State.not_isProper_of_display hv

theorem kind (v : Value) : Reads (fun _ => True) (ofExcept v.kind) := by
  cases hv : v.kind with
  | ok k => exact pure trivial
  | error e => exact throw (Value.not_isProper_of_kind hv)

end Reads

/-- What logging does, by what making the event does. -/
theorem run_logFrom (level : Nat) (event : Evaluation Event) (s : State) :
    (logFrom level event).run s =
      if level ≤ s.level then
        match event.run s with
        | .ok e t => .ok ⟨⟩ (t.record e)
        | .error h t => .error h t
      else .ok ⟨⟩ s := by
  rw [logFrom, EStateM.run_bind, EStateM.run_get]
  simp only
  split
  · rw [EStateM.run_bind]
    cases event.run s <;> rfl
  · rfl

/-! ### The events of a run -/

/-- A step that makes an event of a level, which is one of those that there are. -/
structure Makes (level : Nat) (event : Evaluation Event) : Prop where
  level_le : level ≤ Event.conditionLevel
  reads : Reads (·.level = level) event

/-- What is logged of a condition is of the level of conditions. -/
theorem makes_condition (construct : Construct) (v : Value) :
    Makes Event.conditionLevel (return .condition construct (← display v)) :=
  ⟨Nat.le_refl _, (Reads.display v).bind fun _ => .pure rfl⟩

/-- What is logged of a declaration is of the level of declarations, as is what is logged of a
    definition. -/
theorem makes_declare (name : Label) (isConstant : Bool) (v : Value) :
    Makes Event.declarationLevel
      (return .declare isConstant name (← ofExcept v.kind) (← display v)) :=
  ⟨by decide, (Reads.kind v).bind fun _ => (Reads.display v).bind fun _ => .pure rfl⟩

theorem makes_define (name : Label) (arity : Nat) :
    Makes Event.declarationLevel (return .define name arity) :=
  ⟨by decide, .pure rfl⟩

/-- The texts of arguments are read, and change nothing. -/
theorem reads_argumentTexts (arguments : List Value) :
    Reads (fun _ => True) (argumentTexts arguments) := by
  refine (Reads.mapM Reads.display).bind fun texts => ?_
  split
  · exact Reads.bind (P := fun _ => True) (.throw id) fun _ => .pure trivial
  · exact .pure trivial

/-- What is logged of a call is of the level of calls, as is what is logged of its value. -/
theorem makes_call (name : Label) (arguments : List Value) :
    Makes Event.callLevel (return .call name (← argumentTexts arguments)) :=
  ⟨by decide, (reads_argumentTexts arguments).bind fun _ => .pure rfl⟩

theorem makes_answer (name : Label) (v : Value) :
    Makes Event.callLevel (return .answer name (← display v)) :=
  ⟨by decide, (Reads.display v).bind fun _ => .pure rfl⟩

end Evaluation

end Blockscript
