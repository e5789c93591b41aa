import Blockscript.Proofs.Evaluation.Enough
import Blockscript.Proofs.Evaluation.Restored

/-!
# On the way to a `RETURN`

A statement that answers has come to one `RETURN` inside it: through the branches of `IF`s,
the bodies of loops, in whatever round, and lists of statements, of which those in front have
ended normally. Nothing is done after it but to leave the scopes of the loops around it, so that
the statement ends as the expression of the `RETURN` does.

* `Task`: what is left to do inside of a body: a statement, statements, or rounds of a loop;
* `Task.Arrives`: in doing so, a `RETURN` is reached in some state;
* `Task.Arrives.ends`: the task then ends as the expression of the `RETURN` does, in the same
  state but for the current scope;
* `exists_arrives_of_ends`: a task that answers has reached a `RETURN`.
-/

namespace Blockscript

open Evaluation

/-- What is left to do inside of the body of a function. -/
inductive Task where
  | statement (n : Node)
  | statements (ns : List Node)
  | rounds (construct : Construct) (test : Node) (body : List Node) (increment : Node)

namespace Task

/-- Does what is left to do. -/
def run (depth : Nat) : Task → (steps : Nat) → Evaluation Outcome
  | .statement n, steps => execute steps depth n
  | .statements ns, steps => executeAll (execute steps depth) ns
  | .rounds construct test body increment, steps =>
    repeatWhile (condition construct (evaluate steps depth test))
      (inNewScope (executeAll (execute steps depth) body))
      (executeOptional (execute steps depth) increment) steps

/-- From the state `s`, a task comes to a `RETURN` of an expression, in the state `t`. What is
    done before it has ended normally. -/
inductive Arrives (depth : Nat) : Task → (s : State) → (expression : Node) → (t : State) → Prop
  | answer {e : Node} {s : State} : Arrives depth (.statement (.answer e)) s e s
  | thenBranch {test e : Node} {thens elses : List Node} {s s' t : State} :
      Ends (fun steps => condition .choice (evaluate steps depth test)) s (.ok true s') →
      Arrives depth (.statements thens) s' e t →
      Arrives depth (.statement (.choice test thens elses)) s e t
  | elseBranch {test e : Node} {thens elses : List Node} {s s' t : State} :
      Ends (fun steps => condition .choice (evaluate steps depth test)) s (.ok false s') →
      Arrives depth (.statements elses) s' e t →
      Arrives depth (.statement (.choice test thens elses)) s e t
  | whileLoop {test e : Node} {body : List Node} {s t : State} :
      Arrives depth (.rounds .whileLoop test body .absent) s e t →
      Arrives depth (.statement (.whileLoop test body)) s e t
  | forLoop {initializer test increment e : Node} {body : List Node} {s s' t : State} :
      Ends (fun steps => executeOptional (execute steps depth) initializer)
        (s.entered s.current) (.ok () s') →
      Arrives depth (.rounds .forLoop test body increment) s' e t →
      Arrives depth (.statement (.forLoop initializer test increment body)) s e t
  | here {n e : Node} {ns : List Node} {s t : State} :
      Arrives depth (.statement n) s e t → Arrives depth (.statements (n :: ns)) s e t
  | next {n e : Node} {ns : List Node} {s s' t : State} :
      Ends (fun steps => execute steps depth n) s (.ok .normal s') →
      Arrives depth (.statements ns) s' e t → Arrives depth (.statements (n :: ns)) s e t
  | inRound {construct : Construct} {test increment e : Node} {body : List Node}
      {s s' t : State} :
      Ends (fun steps => condition construct (evaluate steps depth test)) s (.ok true s') →
      Arrives depth (.statements body) (s'.entered s'.current) e t →
      Arrives depth (.rounds construct test body increment) s e t
  | afterRound {construct : Construct} {test increment e : Node} {body : List Node}
      {s s₁ s₂ s₃ t : State} :
      Ends (fun steps => condition construct (evaluate steps depth test)) s (.ok true s₁) →
      Ends (fun steps => inNewScope (executeAll (execute steps depth) body)) s₁
        (.ok .normal s₂) →
      Ends (fun steps => executeOptional (execute steps depth) increment) s₂ (.ok () s₃) →
      Arrives depth (.rounds construct test body increment) s₃ e t →
      Arrives depth (.rounds construct test body increment) s e t

end Task

namespace Evaluation

variable {α β : Type} {depth : Nat} {s t : State} {e : Node}

/-- The result of a `RETURN`, by that of its expression. -/
def answering : EStateM.Result Halt State Value → EStateM.Result Halt State Outcome
  | .ok v t => .ok (.answered v) t
  | .error h t => .error h t

/-! ### The current scope of the parts -/

section Restored

variable (steps depth : Nat)

theorem restores_condition (construct : Construct) (test : Node) :
    Restores (condition construct (evaluate steps depth test)) :=
  (isRunCongruence_restores.condition
    ((isRunCongruence_restores.steps_self steps).1 depth test)).2

/-- A statement leaves the current scope as it was. -/
theorem restores_execute (n : Node) : Restores (execute steps depth n) :=
  ((isRunCongruence_restores.steps_self steps).2.1 depth n).2

theorem restores_executeOptional (n : Node) :
    Restores (executeOptional (execute steps depth) n) :=
  (isRunCongruence_restores.executeOptional
    (fun n => (isRunCongruence_restores.steps_self steps).2.1 depth n) n).2

end Restored

/-- A step in a new scope goes on in the scope before. -/
theorem run_inNewScope (p : Evaluation α) (s : State) :
    (inNewScope p).run s = returning s.current (p.run (s.entered s.current)) :=
  run_within_newScope s.current s

theorem restores_inNewScope (p : Evaluation α) : Restores (inNewScope p) := by
  intro s
  rw [run_inNewScope, stateAfter_returning]

/-- Only the outer one of two returns to a scope counts. -/
theorem returning_returning (c d : ScopeId) (x : EStateM.Result Halt State α) :
    returning c (returning d x) = returning c x := by
  cases x <;> rfl

/-- The current scope after an end is the one before. -/
theorem Ends.current {p : (steps : Nat) → Evaluation α} {x : EStateM.Result Halt State α}
    (h : Ends p s x) (hp : ∀ steps, Restores (p steps)) : (stateAfter x).current = s.current := by
  obtain ⟨-, steps, h⟩ := h
  rw [← h 0]
  exact hp _ s

/-- An end in a new scope is one of the step in that scope. -/
theorem Ends.inNewScope {p : (steps : Nat) → Evaluation α} {x : EStateM.Result Halt State α}
    (h : Ends p (s.entered s.current) x) :
    Ends (fun steps => Evaluation.inNewScope (p steps)) s (returning s.current x) := by
  obtain ⟨hx, steps, h⟩ := h
  refine ⟨by rwa [valueOf_returning], steps, fun more => ?_⟩
  rw [run_inNewScope, h]

/-- A result whose current scope is the one to return to. -/
theorem returning_eq_self {c : ScopeId} {x : EStateM.Result Halt State α}
    (h : (stateAfter x).current = c) : returning c x = x := by
  subst h
  cases x <;> rfl

/-! ### What follows a `RETURN` -/

/-- What follows a part that answers is not done, if it only passes on what is answered. -/
theorem Ends.bind_answering {p : (steps : Nat) → Evaluation Outcome}
    {f : (steps : Nat) → Outcome → Evaluation Outcome} {c : ScopeId}
    {x : EStateM.Result Halt State Value} (hp : Ends p s (returning c (answering x)))
    (hf : ∀ steps v, f steps (.answered v) = pure (.answered v)) :
    Ends (fun steps => p steps >>= f steps) s (returning c (answering x)) := by
  cases x with
  | ok v t =>
    refine hp.bind ?_
    simp only [hf]
    exact ends_const rfl
  | error h t => exact hp.bind_error

end Evaluation

open Evaluation

variable {depth : Nat} {s t : State} {e : Node}

/-- A task that comes to a `RETURN` ends as its expression does: it answers with the value of
    the expression, or halts like it. In between nothing else is done, and only the scope
    before is the current one again. By induction on the way to the `RETURN`. -/
theorem Task.Arrives.ends {task : Task} {x : EStateM.Result Halt State Value}
    (h : task.Arrives depth s e t) (hx : Ends (fun steps => evaluate steps depth e) t x) :
    Ends (task.run depth) s (returning s.current (answering x)) := by
  -- By induction on the way the task arrives at the RETURN. Each step restores the scope it began
  -- in, so the enclosing task returns to the same scope as the part that answers.
  induction h with
  | @answer e s =>
    have hcurrent : (stateAfter (answering x)).current = s.current := by
      have := hx.current fun steps => ((isRunCongruence_restores.steps_self steps).1 depth e).2
      cases x <;> exact this
    rw [returning_eq_self hcurrent]
    refine Ends.succ_iff.1 ?_
    simp only [Task.run, execute, executeNode]
    cases x with
    | ok v u => exact hx.bind (ends_const rfl)
    | error h u => exact hx.bind_error
  | @thenBranch test e thens elses s s' t hcondition _ ih =>
    have hcurrent : s'.current = s.current :=
      hcondition.current fun steps => restores_condition steps depth .choice test
    refine Ends.succ_iff.1 ?_
    simp only [Task.run, execute, executeNode]
    exact hcondition.bind (hcurrent ▸ ih hx)
  | @elseBranch test e thens elses s s' t hcondition _ ih =>
    have hcurrent : s'.current = s.current :=
      hcondition.current fun steps => restores_condition steps depth .choice test
    refine Ends.succ_iff.1 ?_
    simp only [Task.run, execute, executeNode]
    exact hcondition.bind (hcurrent ▸ ih hx)
  | whileLoop _ ih =>
    refine Ends.succ_iff.1 ?_
    simp only [Task.run, execute, executeNode]
    exact ih hx
  -- The initializer and the rounds share one new scope, which the loop leaves as it ends.
  | @forLoop initializer test increment e body s s' t hinitializer _ ih =>
    refine Ends.succ_iff.1 ?_
    simp only [Task.run, execute, executeNode]
    have hloop := (hinitializer.bind
      (f := fun steps _ => Task.run depth (.rounds .forLoop test body increment) steps)
      (ih hx)).inNewScope
    rwa [returning_returning] at hloop
  | here _ ih => exact (ih hx).bind_answering fun _ _ => rfl
  | @next n e ns s s' t hn _ ih =>
    have hcurrent : s'.current = s.current := hn.current fun steps => restores_execute steps depth n
    exact hn.bind (hcurrent ▸ ih hx)
  -- The body answers in this round: its scope is left, and no increment is evaluated.
  | @inRound construct test increment e body s s' t hcondition _ ih =>
    have hcurrent : s'.current = s.current :=
      hcondition.current fun steps => restores_condition steps depth construct test
    have hbody := (ih hx).inNewScope
    rw [returning_returning, hcurrent] at hbody
    exact .repeatWhile (steady_condition depth construct test) (steady_block depth body)
      (steady_executeOptional depth increment)
      (hcondition.bind (hbody.bind_answering fun _ _ => rfl))
  -- A whole round is behind: test, body and increment each give the scope back.
  | @afterRound construct test increment e body s s₁ s₂ s₃ t hcondition hbody hincrement _ ih =>
    have hcurrent : s₃.current = s.current := calc
      s₃.current = s₂.current :=
        hincrement.current fun steps => restores_executeOptional steps depth increment
      _ = s₁.current := hbody.current fun steps => restores_inNewScope _
      _ = s.current :=
        hcondition.current fun steps => restores_condition steps depth construct test
    exact .repeatWhile (steady_condition depth construct test) (steady_block depth body)
      (steady_executeOptional depth increment)
      (hcondition.bind (hbody.bind (hincrement.bind (hcurrent ▸ ih hx))))

/-! ### Tasks that answer -/

/-- A task comes to a `RETURN` whose expression gives a value. -/
def Task.Returns (depth : Nat) (task : Task) (s : State) (v : Value) : Prop :=
  ∃ e t u, task.Arrives depth s e t ∧ Ends (fun steps => evaluate steps depth e) t (.ok v u)

/-- What returns by way of a task returns by way of another one that leads there. -/
theorem Task.Returns.of_arrives {task task' : Task} {v : Value} (h : task.Returns depth t v)
    (hforth : ∀ e u, task.Arrives depth t e u → task'.Arrives depth s e u) :
    task'.Returns depth s v := by
  obtain ⟨e, u, w, harrives, hends⟩ := h
  exact ⟨e, u, w, hforth e u harrives, hends⟩

namespace Evaluation

/-- If steps one after the other give a value, so does the first, and the second from there. -/
theorem exists_of_run_bind {α β : Type} {p : Evaluation α} {f : α → Evaluation β} {b : β}
    (h : (p >>= f).run s = .ok b t) : ∃ a u, p.run s = .ok a u ∧ (f a).run u = .ok b t := by
  rw [EStateM.run_bind] at h
  cases hp : p.run s with
  | ok a u =>
    rw [hp] at h
    exact ⟨a, u, rfl, h⟩
  | error e u =>
    rw [hp] at h
    cases h

/-- If a step in a new scope gives a value, it does so from the scope that is entered. -/
theorem exists_of_run_inNewScope {α : Type} {p : Evaluation α} {a : α}
    (h : (inNewScope p).run s = .ok a t) : ∃ u, p.run (s.entered s.current) = .ok a u := by
  rw [run_inNewScope] at h
  cases hp : p.run (s.entered s.current) with
  | ok b u =>
    rw [hp] at h
    cases h
    exact ⟨u, rfl⟩
  | error e u =>
    rw [hp] at h
    cases h

section Answers

variable {steps : Nat} {v : Value}

/-- By induction on the list: the first statement that does not end normally answers. -/
theorem returns_statements {ns : List Node}
    (hn : ∀ n ∈ ns, ∀ s t, (execute steps depth n).run s = .ok (.answered v) t →
      (Task.statement n).Returns depth s v)
    (h : (executeAll (execute steps depth) ns).run s = .ok (.answered v) t) :
    (Task.statements ns).Returns depth s v := by
  induction ns generalizing s with
  | nil => cases h
  | cons n ns ih =>
    rw [List.forall_mem_cons] at hn
    obtain ⟨o, u, hfirst, hrest⟩ := exists_of_run_bind h
    cases o with
    | normal =>
      refine (ih hn.2 hrest).of_arrives fun e u' => .next ?_
      exact ((steady_steps depth).2.1 n).ends_ok hfirst
    | answered w =>
      cases hrest
      exact (hn.1 s _ hfirst).of_arrives fun e u' => .here

/-- By induction on the rounds: the body answers in the last one. -/
theorem returns_rounds {construct : Construct} {test increment : Node} {body : List Node}
    {rounds : Nat}
    (hbody : ∀ s t, (executeAll (execute steps depth) body).run s = .ok (.answered v) t →
      (Task.statements body).Returns depth s v)
    (h : (repeatWhile (condition construct (evaluate steps depth test))
      (inNewScope (executeAll (execute steps depth) body))
      (executeOptional (execute steps depth) increment) rounds).run s = .ok (.answered v) t) :
    (Task.rounds construct test body increment).Returns depth s v := by
  induction rounds generalizing s with
  | zero => cases h
  | succ rounds ih =>
    obtain ⟨b, s₁, hcondition, h⟩ := exists_of_run_bind h
    cases b with
    | false => cases h
    | true =>
      have hcondition := (steady_condition depth construct test).ends_ok hcondition
      obtain ⟨o, s₂, hround, h⟩ := exists_of_run_bind h
      cases o with
      | normal =>
        obtain ⟨_, s₃, hincrement, h⟩ := exists_of_run_bind h
        have hround := (steady_block depth body).ends_ok hround
        have hincrement := (steady_executeOptional depth increment).ends_ok hincrement
        exact (ih h).of_arrives fun e u => .afterRound hcondition hround hincrement
      | answered w =>
        cases h
        obtain ⟨u, hround⟩ := exists_of_run_inNewScope hround
        exact (hbody _ u hround).of_arrives fun e u => .inRound hcondition

/-- By induction on the number of steps. -/
theorem returns_statement {n : Node}
    (h : (execute steps depth n).run s = .ok (.answered v) t) :
    (Task.statement n).Returns depth s v := by
  induction steps generalizing n s t with
  | zero =>
    rw [execute] at h
    cases h
  -- By induction on the step limit: only RETURN, a choice and the loops can answer, and each
  -- answers through a part that runs on fewer steps.
  | succ steps ih =>
    have hall : ∀ ns s t, (executeAll (execute steps depth) ns).run s = .ok (.answered v) t →
        (Task.statements ns).Returns depth s v :=
      fun ns s t => returns_statements fun n _ s t => ih
    rw [execute] at h
    cases n with
    | answer e =>
      obtain ⟨w, u, he, h⟩ := exists_of_run_bind h
      cases h
      exact ⟨e, s, t, .answer, ((steady_steps depth).1 e).ends_ok he⟩
    | choice test thens elses =>
      obtain ⟨b, s', hcondition, h⟩ := exists_of_run_bind h
      have hcondition := (steady_condition depth .choice test).ends_ok hcondition
      cases b with
      | true => exact (hall thens s' t h).of_arrives fun e u => .thenBranch hcondition
      | false => exact (hall elses s' t h).of_arrives fun e u => .elseBranch hcondition
    | whileLoop test body =>
      have hrounds := @returns_rounds _ _ _ _ _ .whileLoop test .absent body _ (hall body) h
      exact hrounds.of_arrives fun e u => .whileLoop
    | forLoop initializer test increment body =>
      obtain ⟨u, hloop⟩ := exists_of_run_inNewScope h
      obtain ⟨_, s', hinitializer, hrounds⟩ := exists_of_run_bind hloop
      refine (returns_rounds (hall body) hrounds).of_arrives fun e u => .forLoop ?_
      exact (steady_executeOptional depth initializer).ends_ok hinitializer
    -- The other statements go on, whatever they compute.
    | discard e =>
      obtain ⟨_, _, _, h⟩ := exists_of_run_bind h
      cases h
    | declaration name initializer =>
      obtain ⟨_, _, _, h⟩ := exists_of_run_bind h
      obtain ⟨_, _, _, h⟩ := exists_of_run_bind h
      cases h
    | assignment receiver value =>
      obtain ⟨_, _, _, h⟩ := exists_of_run_bind h
      cases h
    -- No other node is a statement.
    | _ => cases h

end Answers

/-- A list of statements that answers has come to a `RETURN`, whose expression has given the
    answer. -/
theorem returns_of_ends {ns : List Node} {v : Value}
    (h : Ends (fun steps => executeAll (execute steps depth) ns) s (.ok (.answered v) t)) :
    (Task.statements ns).Returns depth s v := by
  obtain ⟨-, steps, h⟩ := h
  exact returns_statements (fun n _ s t => returns_statement) (h 0)

end Evaluation

end Blockscript
