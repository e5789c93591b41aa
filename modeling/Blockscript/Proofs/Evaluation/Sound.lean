import Blockscript.Proofs.Evaluation.Watched
import Blockscript.Proofs.Store.Scopes
import Blockscript.Proofs.Syntax.Grammar

/-!
# Sound states

What a program can reach from a text is bounded by its grammar. In a *sound* state
variables hold plain values, and a function is bound under the number of arguments
that it accepts, with statements for its body. A watched step *follows* a step if from
a sound state both do the same, with a sound state at the end and a result as claimed,
or with a proper halt.

* `State.IsSound`: the states that programs reach;
* `Evaluation.Follows`: a watched step beside the step itself;
* `Follows.bind`, `Follows.within`, `Follows.inNewScope`: steps made of others;
* `Follows.watched`: nothing that is looked at for is found.
-/

namespace Blockscript

open Node

/-- A function can be called with a number of arguments: it has that many
    parameters, and statements for its body. Of the host there is only `print`. -/
def Function.Accepts (arity : Int) : Function → Prop
  | .defined _ parameters body _ => parameters.length = arity ∧
    (∀ p ∈ parameters, ∃ name, p = .text name) ∧ ∀ s ∈ body, IsStatement ["END"] s
  | .host _ a action => action = .print ∧ a = 1 ∧ arity = 1

/-- A place holds a function that can be called with a number of arguments. -/
def Store.Accepts (s : Store) (id : FunctionId) (arity : Int) : Prop :=
  ∃ f, s.functions[id]? = some f ∧ f.Accepts arity

/-- The bindings of a scope are sound: variables hold plain values, and functions
    accept the number of arguments under which they are bound. -/
structure Store.IsSoundAt (s : Store) (id : ScopeId) : Prop where
  vars : ∀ v ∈ (s.scope id).vars, v.value.IsPlain
  functions : ∀ b ∈ (s.scope id).functions, s.Accepts b.function b.arity

/-- All scopes of a store are sound. -/
def Store.IsSound (s : Store) : Prop :=
  ∀ id, s.IsSoundAt id

/-- The store of a state is sound, and no number has too many digits. -/
def State.IsSound (s : State) : Prop :=
  s.store.IsSound ∧ s.digitLimit = none

/-- The store of a sound state is sound. -/
theorem State.IsSound.store {s : State} (h : s.IsSound) : s.store.IsSound :=
  h.1

/-- A function that accepts some number of arguments has as many parameters. -/
theorem Function.Accepts.arity_eq {f : Function} {n : Int} (h : f.Accepts n) : f.arity = n := by
  cases f with
  | defined _ _ _ _ => exact h.1
  | host _ _ _ => exact h.2.1.trans h.2.2.symm

/-- In a sound state, a function that accepts a number of arguments is called with as
    many. -/
theorem Store.Accepts.isCall {s : Store} {id : FunctionId} {arguments : List Value}
    (h : s.Accepts id arguments.length) (ha : ∀ a ∈ arguments, a.IsPlain) :
    s.IsCall id arguments := by
  obtain ⟨f, hf, haccepts⟩ := h
  refine ⟨?_, ha⟩
  rw [hf, Option.map_some, haccepts.arity_eq]

/-- All values of a sound state are plain. -/
theorem State.IsSound.holdsPlain {s : State} (h : s.IsSound) : s.store.HoldsPlain := by
  intro c hc v hv
  obtain ⟨id, hid⟩ := List.getElem?_of_mem hc
  refine (h.store id).vars v ?_
  rw [Array.getElem?_toList] at hid
  rw [Store.scope, hid]
  exact hv

namespace Evaluation

/-- From a sound state, a watched step does what the step does. It leads to a sound
    state, with a result as claimed or with a proper halt. -/
def Follows {α : Type} (watch step : Evaluation α) (s : State) (Q : α → State → Prop) : Prop :=
  s.IsSound → watch.run s = step.run s ∧ match step.run s with
    | .ok a t => t.IsSound ∧ Q a t
    | .error h t => t.IsSound ∧ h.IsProper

/-- From a sound state, a step leads to a sound state, with a result as claimed or
    with a proper halt. -/
abbrev Meets {α : Type} (step : Evaluation α) (s : State) (Q : α → State → Prop) : Prop :=
  step.Follows step s Q

variable {α β : Type} {watch step : Evaluation α} {g f : α → Evaluation β} {s : State}
  {P Q : α → State → Prop} {R : β → State → Prop}

/-- A step without watched parts, by its run. -/
theorem meets_of_run (h : s.IsSound → match step.run s with
    | .ok a t => t.IsSound ∧ Q a t
    | .error h t => t.IsSound ∧ h.IsProper) : step.Meets s Q :=
  fun hs => ⟨rfl, h hs⟩

namespace Follows

theorem pure {a : α} (h : Q a s) : (Pure.pure a : Evaluation α).Follows (Pure.pure a) s Q :=
  meets_of_run fun hs => ⟨hs, h⟩

/-- A run may end in a proper way. -/
theorem throw {h : Halt} (hh : h.IsProper) :
    (MonadExcept.throw h : Evaluation α).Follows (MonadExcept.throw h) s Q :=
  meets_of_run fun hs => ⟨hs, hh⟩

/-- Steps one after the other, on both sides. -/
theorem bind (hstep : watch.Follows step s P) (hf : ∀ a t, P a t → (g a).Follows (f a) t R) :
    (watch >>= g).Follows (step >>= f) s R := by
  intro hs
  obtain ⟨heq, hstep⟩ := hstep hs
  -- Both are in the same state after the first step, so that only there the second steps
  -- are compared.
  rw [EStateM.run_bind, EStateM.run_bind, heq]
  cases h : step.run s with
  | ok a t =>
    rw [h] at hstep
    exact hf a t hstep.2 hstep.1
  | error e t =>
    rw [h] at hstep
    exact ⟨rfl, hstep⟩

theorem get {g f : State → Evaluation α} (h : (g s).Follows (f s) s Q) :
    (MonadState.get >>= g).Follows (MonadState.get >>= f) s Q :=
  h

end Follows

/-- A change of the state is right if it keeps it sound. -/
theorem meets_modify {g : State → State} {Q : PUnit → State → Prop}
    (hg : s.IsSound → (g s).IsSound) (h : Q ⟨⟩ (g s)) : (modify g : Evaluation PUnit).Meets s Q :=
  meets_of_run fun hs => ⟨hg hs, h⟩

/-- A proper error is a right end. -/
theorem meets_fail {e : RuntimeError} (he : e.IsProper) : (fail e : Evaluation α).Meets s Q :=
  .throw he

/-! ### What is looked for -/

/-- What is looked for is there, so that looking for it changes nothing. -/
theorem Follows.ensured {p : State → Prop} [DecidablePred p] (hp : p s)
    (h : watch.Follows step s Q) :
    (do ensure (p (← MonadState.get)); watch).Follows step s Q := by
  intro hs
  rw [EStateM.run_bind, EStateM.run_get]
  simp only
  rw [EStateM.run_bind, run_ensure, if_pos hp]
  exact h hs

/-- Nothing that is looked for is found where a step leads from a sound state to a
    sound state, with a result as asked. -/
theorem Follows.watched {F : α → Prop} [DecidablePred F] (h : watch.Follows step s Q)
    (hF : ∀ a t, Q a t → F a) : (Evaluation.watched F watch).Follows step s Q := by
  intro hs
  obtain ⟨heq, h⟩ := h hs
  refine ⟨?_, h⟩
  rw [run_watched, if_pos hs.holdsPlain, heq]
  cases hrun : step.run s with
  | ok a t =>
    rw [hrun] at h
    exact if_pos ⟨h.1.holdsPlain, hF a t h.2⟩
  | error e t => rfl

/-! ### Scopes -/

/-- A step in another scope does what it does there. -/
theorem Follows.within {scope : ScopeId} (h : watch.Follows step { s with current := scope }
    fun a t => Q a { t with current := s.current }) :
    (within scope watch).Follows (within scope step) s Q := by
  intro hs
  obtain ⟨heq, h⟩ := h hs
  rw [EStateM.run, EStateM.run] at *
  simp only [Evaluation.within, heq]
  cases hrun : step { s with current := scope } with
  | ok a t =>
    rw [hrun] at h
    exact ⟨trivial, h⟩
  | error e t =>
    rw [hrun] at h
    exact ⟨trivial, h⟩

/-- To close the log keeps a state sound. -/
theorem Follows.closingLog {Q : α → Prop} (h : watch.Follows step s fun a _ => Q a) :
    (closingLog watch).Follows (closingLog step) s fun a _ => Q a := by
  intro hs
  obtain ⟨heq, h⟩ := h hs
  rw [EStateM.run, EStateM.run] at *
  simp only [Evaluation.closingLog, heq]
  cases hrun : step s with
  | ok a t =>
    rw [hrun] at h
    exact ⟨trivial, h⟩
  | error e t =>
    rw [hrun] at h
    exact ⟨trivial, h⟩

/-- A new scope binds nothing that could be unsound. -/
theorem isSound_addScope {s : Store} (parent : Option ScopeId) (h : s.IsSound) :
    (s.addScope parent).IsSound := by
  intro id
  -- The new scope binds nothing, and functions stay where they are.
  have hscope := Store.scope_addScope parent s id
  by_cases hid : id = s.scopes.size
  · rw [if_pos hid] at hscope
    refine ⟨?_, ?_⟩ <;> rw [hscope] <;> exact nofun
  · rw [if_neg hid] at hscope
    refine ⟨?_, ?_⟩ <;> rw [hscope]
    · exact (h id).vars
    · exact (h id).functions

theorem meets_newScope {parent : Option ScopeId} : (newScope parent).Meets s fun _ _ => True := by
  refine .get ((meets_modify (Q := fun _ _ => True) ?_ trivial).bind fun _ _ _ => .pure trivial)
  exact fun hs => ⟨isSound_addScope parent hs.store, hs.2⟩

/-- A step in a new scope is right if it is from all states. -/
theorem Follows.inNewScope {Q : α → Prop} (h : ∀ t, watch.Follows step t fun a _ => Q a) :
    (inNewScope watch).Follows (inNewScope step) s fun a _ => Q a :=
  .get (meets_newScope.bind fun _ _ _ => .within (h _))

end Evaluation

end Blockscript
