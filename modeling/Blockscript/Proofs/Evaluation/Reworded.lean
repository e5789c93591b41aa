import Mathlib.Data.List.Forall2
import Blockscript.Proofs.Evaluation.Course
import Blockscript.Proofs.Evaluation.Wrapped

/-!
# Words in messages

What a run does depends neither on its log nor on the text printed so far. Two loops that differ
in nothing but the word for them do the same, up to that word in what is logged of their
conditions and in the error of a condition that is no boolean. A state is *reworded* if that
is all in which it differs: what has been bound is the same, and so is what has been printed,
unless conditions are printed.

* `Event.Reworded`, `Halt.Reworded`, `State.Reworded`: with `FOR` here and `WHILE` there;
* `Evaluation.EndsReworded`: two results that differ in words alone;
* `Evaluation.Rewords`, `isRunCongruence_rewords`: steps that do not look at words;
* `rewords_condition`: the conditions of the two loops.
-/

namespace Blockscript

open Evaluation

/-- The same event, or the condition of a loop under the other word. -/
inductive Event.Reworded : Event → Event → Prop
  | refl (e : Event) : Reworded e e
  | condition (value : String) : Reworded (.condition .forLoop value) (.condition .whileLoop value)

/-- A printed text, with some messages of conditions under the other word. -/
inductive OutputReworded : String → String → Prop
  | refl (text : String) : OutputReworded text text
  | append {before after : String} (more : String) : OutputReworded before after →
      OutputReworded (before ++ more) (after ++ more)
  | event {before after : String} {e e' : Event} : e.Reworded e' → OutputReworded before after →
      OutputReworded (before ++ e.text ++ "\n") (after ++ e'.text ++ "\n")

/-- The same halt, or the error of a condition under the other word. -/
inductive Halt.Reworded : Halt → Halt → Prop
  | refl (h : Halt) : Reworded h h
  | condition (expected actual : Kind) : Reworded
      (.error (.kindMismatch expected actual (Construct.forLoop.keyword ++ " condition")))
      (.error (.kindMismatch expected actual (Construct.whileLoop.keyword ++ " condition")))

/-- Conditions are printed: they are to be logged, and the log is closed. -/
def State.PrintsConditions (s : State) : Prop :=
  Event.conditionLevel ≤ s.level ∧ s.logIsOpen = false

/-- The same state but for words. What has been printed is the same if no conditions are. -/
structure State.Reworded (s t : State) : Prop where
  store : s.store = t.store
  current : s.current = t.current
  level : s.level = t.level
  logIsOpen : s.logIsOpen = t.logIsOpen
  digitLimit : s.digitLimit = t.digitLimit
  log : List.Forall₂ Event.Reworded s.log t.log
  output : OutputReworded s.output t.output
  output_eq : ¬ s.PrintsConditions → s.output = t.output

namespace State.Reworded

variable {s t : State}

/-- A state differs from itself in no word. -/
theorem refl (s : State) : s.Reworded s :=
  ⟨rfl, rfl, rfl, rfl, rfl, List.forall₂_same.2 fun e _ => .refl e, .refl _, fun _ => rfl⟩

/-- The same is done to the stores, in the same scope. -/
theorem moved (h : s.Reworded t) {a b : Store} (hstore : a = b) {c d : ScopeId}
    (hcurrent : c = d) :
    State.Reworded { s with store := a, current := c } { t with store := b, current := d } :=
  ⟨hstore, hcurrent, h.level, h.logIsOpen, h.digitLimit, h.log, h.output, h.output_eq⟩

theorem print (h : s.Reworded t) (line : String) : (s.print line).Reworded (t.print line) := by
  refine ⟨h.store, h.current, h.level, h.logIsOpen, h.digitLimit, h.log,
    (h.output.append line).append "\n", ?_⟩
  exact fun hquiet => congrArg (· ++ line ++ "\n") (h.output_eq hquiet)

/-- The same event is logged or printed, or the conditions of the two loops are. -/
theorem record (h : s.Reworded t) {e e' : Event} (he : e.Reworded e') (hlevel : e.level ≤ s.level) :
    (s.record e).Reworded (t.record e') := by
  rw [State.record, State.record, ← h.logIsOpen]
  by_cases hopen : s.logIsOpen
  · rw [if_pos hopen, if_pos hopen]
    exact ⟨h.store, h.current, h.level, rfl, h.digitLimit, .cons he h.log, h.output, h.output_eq⟩
  · rw [if_neg hopen, if_neg hopen]
    refine ⟨h.store, h.current, h.level, h.logIsOpen, h.digitLimit, h.log, .event he h.output,
      fun hquiet => ?_⟩
    -- The event is printed. If it is a condition, conditions are.
    cases he with
    | refl e => exact congrArg (· ++ e.text ++ "\n") (h.output_eq hquiet)
    | condition value => exact absurd ⟨hlevel, Bool.not_eq_true _ ▸ hopen⟩ hquiet

end State.Reworded

namespace Evaluation

variable {α β : Type}

/-- Two results that are the same but for words. -/
inductive EndsReworded : EStateM.Result Halt State α → EStateM.Result Halt State α → Prop
  | ok (a : α) {s t : State} : s.Reworded t → EndsReworded (.ok a s) (.ok a t)
  | error {h h' : Halt} {s t : State} : h.Reworded h' → s.Reworded t →
      EndsReworded (.error h s) (.error h' t)

/-- From states that are the same but for words, two steps end in the same way but for words. -/
def Rewords (q p : Evaluation α) : Prop :=
  ∀ s t, s.Reworded t → EndsReworded (q.run s) (p.run t)

namespace Rewords

variable {q p : Evaluation α} {g f : α → Evaluation β}

theorem pure (a : α) : Rewords (Pure.pure a) (Pure.pure a) :=
  fun _ _ hst => .ok a hst

/-- Halts may differ in the word of the construct, if there is one. -/
theorem throw {h h' : Halt} (hh : h.Reworded h') :
    Rewords (MonadExcept.throw h : Evaluation α) (MonadExcept.throw h') :=
  fun _ _ hst => .error hh hst

/-- Steps one after the other differ in the words of their logs. -/
theorem bind (hp : Rewords q p) (hf : ∀ a, Rewords (g a) (f a)) :
    Rewords (q >>= g) (p >>= f) := by
  intro s t hst
  have hends := hp s t hst
  rw [EStateM.run_bind, EStateM.run_bind]
  generalize q.run s = x, p.run t = y at hends
  cases hends with
  | ok a hst => exact hf a _ _ hst
  | error hh hst => exact .error hh hst

theorem within (hp : Rewords q p) (c : ScopeId) :
    Rewords (Evaluation.within c q) (Evaluation.within c p) := by
  intro s t hst
  have hends := hp _ _ (hst.moved hst.store (rfl : c = c))
  rw [run_within, run_within]
  generalize q.run { s with current := c } = x, p.run { t with current := c } = y at hends
  cases hends with
  | ok a h => exact .ok a (h.moved h.store hst.current)
  | error hh h => exact .error hh (h.moved h.store hst.current)

/-- A step on the store tells no construct. -/
theorem storing (step : Storing α) :
    Rewords (Evaluation.storing step) (Evaluation.storing step) := by
  intro s t hst
  rw [run_storing, run_storing, ← hst.store]
  cases step.run s.store with
  | ok a store => exact .ok a (hst.moved rfl hst.current)
  | error e store => exact .error (.refl _) (hst.moved rfl hst.current)

/-- Events that differ in their word alone are of the same level. -/
theorem logFrom {event' event : Evaluation Event} {level : Nat} (h : Rewords event' event)
    (hmakes : Makes level event) :
    Rewords (Evaluation.logFrom level event') (Evaluation.logFrom level event) := by
  intro s t hst
  rw [run_logFrom, run_logFrom, ← hst.level]
  split
  · next hlevel =>
    have hends := h s t hst
    have hreads := hmakes.reads t
    generalize event'.run s = x, event.run t = y at hends hreads
    cases hends with
    | ok e hst' =>
      -- Making the event has changed nothing, so that it is recorded at the level of before.
      obtain ⟨rfl, he⟩ := hreads
      refine .ok _ (hst'.record (.refl e) ?_)
      rw [hst'.level, ← hst.level, he]
      exact hlevel
    | error hh hst' => exact .error hh hst'
  · exact .ok _ hst

theorem checkDigits (exceeds : Nat → Bool) :
    Rewords (Evaluation.checkDigits exceeds) (Evaluation.checkDigits exceeds) := by
  intro s t hst
  rw [run_checkDigits, run_checkDigits, hst.digitLimit]
  split
  · exact .error (.refl _) hst
  · exact .ok () hst

end Rewords

/-- Differing in words is kept by all that runs are made of. -/
theorem isRunCongruence_rewords : IsRunCongruence (fun {_} => Rewords) :=
  IsStoreCongruence.isRunCongruence
    { pure := .pure
      throw := fun h => .throw (.refl h)
      bind := .bind
      logFrom := .logFrom
      print := fun line _ _ hst => .ok _ (hst.print line)
      checkDigits := .checkDigits
      storing := .storing
      current := fun s t hst => by
        have hrun : (do return (← get).current : Evaluation ScopeId).run t = .ok s.current t :=
          hst.current ▸ rfl
        rw [hrun]
        exact .ok s.current hst
      within := fun c h => h.within c }

/-! ### The conditions of loops -/

/-- That a condition is a boolean is required by a word that is part of the error. -/
theorem rewords_require (v : Value) :
    Rewords (ofExcept (v.require .boolean (Construct.forLoop.keyword ++ " condition")))
      (ofExcept (v.require .boolean (Construct.whileLoop.keyword ++ " condition"))) := by
  have hrequire : ∀ context, v.require .boolean context =
      match v.kind with
      | .ok actual =>
        if actual = .boolean then .ok v else .error (.kindMismatch .boolean actual context)
      | .error e => .error e := by
    intro context
    rw [Value.require]
    cases v.kind <;> rfl
  rw [hrequire, hrequire]
  cases v.kind with
  | error e => exact .throw (.refl _)
  | ok actual =>
    by_cases hkind : actual = .boolean
    · simp only [if_pos hkind]
      exact .pure v
    · simp only [if_neg hkind]
      exact .throw (.condition .boolean actual)

/-- What is logged of the condition of a loop differs in the word alone. -/
theorem rewords_logCondition (v : Value) :
    Rewords (logFrom Event.conditionLevel (return .condition .forLoop (← display v)))
      (logFrom Event.conditionLevel (return .condition .whileLoop (← display v))) := by
  intro s t hst
  have hends := isRunCongruence_rewords.display v s t hst
  have hreads := Reads.display v s
  rw [run_logFrom, run_logFrom, EStateM.run_bind, EStateM.run_bind, ← hst.level]
  split
  · next hlevel =>
    generalize (display v).run s = x, (display v).run t = y at hends hreads
    cases hends with
    | ok text hst' =>
      obtain ⟨rfl, -⟩ := hreads
      exact .ok _ (hst'.record (.condition text) hlevel)
    | error hh hst' => exact .error hh hst'
  · exact .ok _ hst

/-- The condition of a loop is the same under either word. -/
theorem rewords_condition {q p : Evaluation Value} (h : Rewords q p) :
    Rewords (condition .forLoop q) (condition .whileLoop p) := by
  refine h.bind fun v => (rewords_require v).bind fun w => ?_
  refine (rewords_logCondition w).bind fun _ => ?_
  split
  · exact .pure _
  · exact .pure _

end Evaluation

end Blockscript
