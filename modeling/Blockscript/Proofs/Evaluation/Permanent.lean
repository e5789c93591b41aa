import Blockscript.Proofs.Evaluation.Moments
import Blockscript.Proofs.Store.Permanent

/-!
# Bindings are permanent

Every step keeps the bindings of all scopes. So do all that are made of such steps, however
they end, and this is more than that what is bound before a run is bound after it: if a run
is halted by a clock, it has come to a state through which the run with any later clock comes
too, so that the bindings of that state are kept from there on.

* `State.Precedes`: a state and a later one;
* `Evaluation.Halts`: a step with an early clock, beside the same step with a later one;
* `isRunCongruence_halts`: single steps, and all that is made of them;
* `bindings_permanent`: the states of a session, whatever a host does to fields.
-/

namespace Blockscript

/-- A later state: nothing that was bound or printed is gone. -/
structure State.Precedes (s t : State) : Prop where
  store : s.store.Keeps t.store
  output : s.output.length ≤ t.output.length

namespace State.Precedes

variable {s t u : State}

/-- Every state comes before itself. -/
theorem refl (s : State) : s.Precedes s :=
  ⟨.refl _, Nat.le_refl _⟩

/-- What comes after a later state comes after the earlier one. -/
theorem trans (h : s.Precedes t) (h' : t.Precedes u) : s.Precedes u :=
  ⟨h.store.trans h'.store, Nat.le_trans h.output h'.output⟩

theorem print (line : String) (s : State) : s.Precedes (s.print line) := by
  refine ⟨.refl _, ?_⟩
  have houtput : (s.print line).output = s.output ++ line ++ "\n" := rfl
  rw [houtput, String.length_append, String.length_append]
  omega

/-- A change of the store that keeps what is bound goes on from the state before. -/
theorem of_keeps (h : s.store.Keeps t.store) (houtput : t.output = s.output) : s.Precedes t :=
  ⟨h, Nat.le_of_eq (congrArg String.length houtput.symm)⟩

end State.Precedes

namespace Evaluation

variable {α β : Type}

/-- All single steps of a run keep what is bound and what has been printed. -/
theorem isCourse_precedes : IsCourse State.Precedes where
  refl := .refl
  trans := .trans
  record e s := by
    rw [State.record]
    split
    · exact .of_keeps (.refl _) rfl
    · exact .print _ s
  print := .print
  assign value hfound hconstant :=
    .of_keeps (Store.keeps_updateScope (Scope.keeps_setVariable hfound hconstant value)) rfl

/-- A step and one that is made with an early clock. Where the clock is not over in time, they
    do the same; and where it is, it halts at a state before the one after the step. -/
def Halts (isOver : Nat → Bool) (p' p : Evaluation α) : Prop :=
  ∀ s, s.Precedes (stateAfter (p.run s)) ∧ (p'.run s = p.run s ∨
    ∃ t, p'.run s = .error .outOfSteps t ∧ isOver t.output.length ∧
      t.Precedes (stateAfter (p.run s)))

variable {isOver : Nat → Bool}

/-- A step that keeps what is bound may be broken off before it or go through it. -/
theorem halts_of_along {p : Evaluation α} (h : Along State.Precedes p) : Halts isOver p p :=
  fun s => ⟨h s, .inl rfl⟩

namespace Halts

variable {p' p : Evaluation α} {f' f : α → Evaluation β}

/-- A run that is broken off keeps what is bound, up to where it is. -/
theorem along (h : Halts isOver p' p) : Along State.Precedes p :=
  fun s => (h s).1

/-- Steps one after the other. If the first is broken off, the second does not begin. -/
theorem bind (hp : Halts isOver p' p) (hf : ∀ a, Halts isOver (f' a) (f a)) :
    Halts isOver (p' >>= f') (p >>= f) := by
  intro s
  refine ⟨isCourse_precedes.bind hp.along (fun a => (hf a).along) s, ?_⟩
  rw [EStateM.run_bind, EStateM.run_bind]
  rcases (hp s).2 with heq | ⟨t, heq, hover, hprecedes⟩
  · rw [heq]
    cases hrun : p.run s with
    | error h u => exact .inl rfl
    | ok a u => exact (hf a u).2
  · rw [heq]
    refine .inr ⟨t, rfl, hover, ?_⟩
    -- Whatever is done next leads to a state that is later still.
    cases hrun : p.run s with
    | error h u =>
      rw [hrun] at hprecedes
      exact hprecedes
    | ok a u =>
      rw [hrun] at hprecedes
      exact hprecedes.trans (hf a u).1

theorem get {f' f : State → Evaluation α} (hf : ∀ s, Halts isOver (f' s) (f s)) :
    Halts isOver (MonadState.get >>= f') (MonadState.get >>= f) :=
  (halts_of_along isCourse_precedes.get).bind hf

theorem logFrom {event' event : Evaluation Event} (h : Halts isOver event' event) (level : Nat) :
    Halts isOver (logFrom level event') (logFrom level event) := by
  refine get fun s => ?_
  split
  · exact h.bind fun e => halts_of_along (isCourse_precedes.record e)
  · exact halts_of_along (isCourse_precedes.pure _)

theorem within (h : Halts isOver p' p) (c : ScopeId) :
    Halts isOver (Evaluation.within c p') (Evaluation.within c p) := by
  intro s
  obtain ⟨hprecedes, hhalts⟩ := h { s with current := c }
  rw [run_within, run_within, stateAfter_returning]
  refine ⟨⟨hprecedes.store, hprecedes.output⟩, ?_⟩
  rcases hhalts with heq | ⟨t, heq, hover, hprecedes⟩
  · exact .inl (congrArg _ heq)
  · rw [heq]
    exact .inr ⟨_, rfl, hover, hprecedes.store, hprecedes.output⟩

theorem closingLog (h : Halts isOver p' p) :
    Halts isOver (Evaluation.closingLog p') (Evaluation.closingLog p) := by
  intro s
  obtain ⟨hprecedes, hhalts⟩ := h s
  rw [run_closingLog_eq, run_closingLog_eq, stateAfter_changing]
  refine ⟨⟨hprecedes.store, hprecedes.output⟩, ?_⟩
  rcases hhalts with heq | ⟨t, heq, hover, hprecedes⟩
  · exact .inl (congrArg _ heq)
  · rw [heq]
    exact .inr ⟨_, rfl, hover, hprecedes.store, hprecedes.output⟩

section Clocks

variable {later : Nat → Bool} (hlater : ∀ time, later time → isOver time)

include hlater

/-- Where a clock is over, the state is passed by one that is over later. -/
theorem tick : Halts isOver (Evaluation.tick isOver) (Evaluation.tick later) := by
  intro s
  rw [run_tick, run_tick]
  -- The later clock may be over as well; if it is not, it prints a line.
  have hprecedes : s.Precedes (stateAfter (if later s.output.length then
      .error .outOfSteps s else .ok () (s.print ""))) := by
    split
    · exact .refl s
    · exact .print "" s
  refine ⟨hprecedes, ?_⟩
  by_cases hover : isOver s.output.length
  · rw [if_pos hover]
    exact .inr ⟨s, rfl, hover, hprecedes⟩
  · rw [if_neg hover, if_neg fun h => hover (hlater _ h)]
    exact .inl rfl

/-- A clock breaks a step off before it begins. With a later clock, it may be broken off later or
    not at all. -/
theorem clocked (h : Halts isOver p' p) :
    Halts isOver (Evaluation.clocked isOver p') (Evaluation.clocked later p) :=
  (tick hlater).bind fun _ => h.bind fun a => (tick hlater).bind fun _ =>
    halts_of_along (isCourse_precedes.pure a)

end Clocks

end Halts

/-- A new scope binds nothing yet, and changes no other one. -/
theorem precedes_newScope (parent : Option ScopeId) : Along State.Precedes (newScope parent) := by
  have hT := isCourse_precedes
  refine hT.bind hT.get fun s => hT.bind (fun t => ?_) fun _ => hT.pure _
  exact .of_keeps (Store.keeps_addScope parent t.store) rfl

/-- A definition binds a name that is not bound yet. -/
theorem precedes_defineFunction (name : Label) (arity : Int) (f : Function) :
    Along State.Precedes (defineFunction name arity f) := by
  have hT := isCourse_precedes
  refine hT.bind hT.get fun s => hT.bind (fun t => ?_) fun _ => ?_
  · exact .of_keeps (Store.keeps_addFunction f t.store) rfl
  · refine hT.named name (Store.defineFunction · ⟨name, arity, s.store.functions.size⟩)
      fun c => along_storing fun t => ?_
    rw [Store.run_defineFunction]
    split
    · exact .refl t
    · exact .of_keeps (Store.keeps_updateScope (Scope.keeps_addFunction _ _)) rfl

/-- Being broken off is kept by all that runs are made of. -/
theorem isRunCongruence_halts : IsRunCongruence (fun {_} => Halts isOver) :=
  have hT := isCourse_precedes
  { pure := fun a => halts_of_along (hT.pure a)
    throw := fun h => halts_of_along (hT.throw h)
    bind := .bind
    logFrom := fun h _ => h.logFrom _
    print := fun line => halts_of_along (hT.print line)
    checkDigits := fun exceeds => halts_of_along (hT.checkDigits exceeds)
    textOf := fun v => halts_of_along (hT.textOf v)
    getField := fun id field => halts_of_along (hT.getField id field)
    setField := fun id field v => halts_of_along (hT.setField id field v)
    lookupMethod := fun id name arity => halts_of_along (hT.lookupMethod id name arity)
    readVariable := fun name => halts_of_along (hT.readVariable name)
    assignVariable := fun name v => halts_of_along (hT.assignVariable name v)
    lookupFunction := fun name arity => halts_of_along (hT.lookupFunction name arity)
    inNewScope := fun h => .get fun _ => (halts_of_along (precedes_newScope _)).bind
      fun c => h.within c
    defineVariable := fun _ _ _ => halts_of_along (hT.defineVariable fun _ _ =>
      .of_keeps (Store.keeps_updateScope (Scope.keeps_addVariable _ _)) rfl)
    inScope := fun _ h => (halts_of_along (precedes_newScope _)).bind fun c => h.within c
    getCurrent := fun h => .get fun s => h s.current
    getFunction := fun id h => .get fun s => h s.store.functions[id]?
    defineFunction := fun name arity f =>
      halts_of_along (precedes_defineFunction name arity f) }

/-- Once a clock is over, it is over for all requests to come. -/
theorem stateAfter_serveHosted {s : State} (h : isOver s.output.length) (host : Host)
    (limits : Limits) (request : Request) :
    stateAfter ((serveHosted host (clocked isOver) limits request).run s) = s := by
  rw [serveHosted, run_clocked, if_pos h]
  rfl

end Evaluation

namespace Session

open Evaluation

variable {isOver later : Nat → Bool}

/-- A state is the same as one with a later clock, or the early clock is over and it comes
    before that one. -/
def Passes (isOver : Nat → Bool) (s t : State) : Prop :=
  s = t ∨ isOver s.output.length ∧ s.Precedes t

/-- Nothing has been done at the beginning. -/
theorem stateAt_zero (host : Host) (session : Session) (s : State) :
    session.stateAt host 0 s = s := by
  have hover : ∀ t : State, decide (0 ≤ t.output.length) := fun t => decide_eq_true (Nat.zero_le _)
  rw [stateAt, afterHosted]
  induction session with
  | nil => rfl
  | cons step session ih =>
    rw [List.foldl_cons, stateAfter_serveHosted (hover s)]
    exact ih

section Hosts

variable {host : Host} (hhost : host.ActsOnFields)

include hhost

/-- A request that is broken off has passed by the state in which a later clock breaks it off. -/
theorem passes_serveHosted (hlater : ∀ time, later time → isOver time) {s t : State}
    (h : Passes isOver s t) (limits : Limits) (request : Request) :
    Passes isOver (stateAfter ((serveHosted host (clocked isOver) limits request).run s))
      (stateAfter ((serveHosted host (clocked later) limits request).run t)) := by
  obtain ⟨halong, hhalts⟩ := isRunCongruence_halts.serveHosted
    (fun id arguments => halts_of_along ((hhost id arguments).along isCourse_precedes))
    (Halts.clocked hlater) Halts.closingLog limits request t
  rcases h with rfl | ⟨hover, hprecedes⟩
  · rcases hhalts with heq | ⟨u, heq, hover, hprecedes⟩
    · exact .inl (congrArg stateAfter heq)
    · rw [heq]
      exact .inr ⟨hover, hprecedes⟩
  · rw [stateAfter_serveHosted hover]
    exact .inr ⟨hover, hprecedes.trans halong⟩

/-- A session that is broken off has passed by the state in which a later clock breaks it off. By
    induction on its requests. -/
theorem passes_afterHosted (hlater : ∀ time, later time → isOver time) (session : Session)
    {s t : State} (h : Passes isOver s t) :
    Passes isOver (session.afterHosted host (clocked isOver) s)
      (session.afterHosted host (clocked later) t) := by
  induction session generalizing s t with
  | nil => exact h
  | cons step session ih => exact ih (passes_serveHosted hhost hlater h step.1 step.2)

/-- The states of a session come one after the other. -/
theorem keeps_stateAt (session : Session) (s : State) (time more : Nat) :
    (session.stateAt host time s).store.Keeps (session.stateAt host (time + more) s).store := by
  have hlater : ∀ t : Nat, decide (time + more ≤ t) → decide (time ≤ t) :=
    fun t h => decide_eq_true (Nat.le_of_add_right_le (of_decide_eq_true h))
  have hpasses : Passes (time ≤ ·) (session.stateAt host time s)
      (session.stateAt host (time + more) s) :=
    session.passes_afterHosted hhost hlater (.inl rfl)
  rcases hpasses with h | ⟨-, hprecedes⟩
  · rw [h]
    exact .refl _
  · exact hprecedes.store

/-- After some time, the state is the one at the end of the session, but for the output. -/
theorem exists_store_stateAt (session : Session) (s : State) :
    ∃ time, ∀ more, (session.stateAt host (time + more) s).store =
      (session.afterHosted host id s).store := by
  have hend := session.store_afterHosted_clocked hhost s
  generalize htime : (session.afterHosted host (clocked fun _ => false) s).output.length = time
  refine ⟨time + 1, fun more => ?_⟩
  have hpasses : Passes (time + 1 + more ≤ ·) (session.stateAt host (time + 1 + more) s)
      (session.afterHosted host (clocked fun _ => false) s) :=
    session.passes_afterHosted hhost (fun _ h => absurd h Bool.false_ne_true) (.inl rfl)
  rcases hpasses with h | ⟨hover, hprecedes⟩
  · rw [h, hend]
  · -- Less has been printed at the end than a clock would need that is over before.
    have hle := Nat.le_trans (of_decide_eq_true hover) hprecedes.output
    rw [htime] at hle
    omega

end Hosts

end Session

open Evaluation

/-- Let the functions of a host act on scopes through the fields of objects alone. At any time of a
    session, from any state and with any requests, whatever fails, everything that is bound in any
    scope stays bound at all later times: a variable under its name, as a constant or not, and to
    its value if it is one; a function to the same function. The times go from the beginning of
    the session to its end, which is that of the session itself if the host does what the store
    tells of it. A step of the host keeps what is bound as well, and so does every part of it. -/
theorem bindings_permanent (host : Evaluation.Host) (hhost : host.ActsOnFields) (session : Session)
    (s : State) :
    session.stateAt host 0 s = s ∧
    (∀ time more,
      (session.stateAt host time s).store.Keeps (session.stateAt host (time + more) s).store) ∧
    (∃ time, ∀ more,
      (session.stateAt host (time + more) s).store = (session.afterHosted host id s).store) ∧
    (host = .ofStore → session.afterHosted host id s = session.after s) ∧
    ∀ {α : Type} (p : Evaluation α), ActsOnFields p → ∀ t : State,
      t.store.Keeps (stateAfter (p.run t)).store := by
  refine ⟨session.stateAt_zero host s, session.keeps_stateAt hhost s,
    session.exists_store_stateAt hhost s, ?_, fun p hp t => (hp.along isCourse_precedes t).store⟩
  rintro rfl
  rw [Session.afterHosted_id]

/-- The field of an object is doubled by a call of a function of the host, and its constant
    stays. -/
theorem bindings_permanent_scaling :
    let session : Session := [(⟨9, 9⟩,
      .evaluate (.call .absent (.text "scale") [.literal (.text "Integer") (.json (.integer 2))]))]
    let s := session.afterHosted scaling id .ofPoint
    scaling.ActsOnFields ∧
    (s.store.scope 1).vars.map (fun v =>
      (v.name.display, v.isConstant, (s.store.display v.value).toOption)) =
      [("x", false, some "42"), ("origin", true, some "0")] ∧
    ∀ time more, (session.stateAt scaling time .ofPoint).store.Keeps
      (session.stateAt scaling (time + more) .ofPoint).store := by
  intro session s
  have hstates := bindings_permanent scaling actsOnFields_scaling session .ofPoint
  exact ⟨actsOnFields_scaling, by decide +kernel, hstates.2.1⟩

end Blockscript
