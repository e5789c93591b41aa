import Blockscript.Proofs.Evaluation.Limits

/-!
# Enough steps

The number of steps is no part of the language. An evaluation *ends* in some way if it does so
in all large enough numbers of steps. It can end in one way only, and if it does not end at all,
it runs out of steps whatever their number is.

* `Evaluation.Ends`: an evaluation ends in some way;
* `Evaluation.Steady`: evaluations that are the same in more steps, unless they run out of them;
* `steady_steps`, `steady_repeatWhile`, `steady_runProgram`, …: expressions, statements and calls,
  loops, programs;
* `Steady.ends`, `Ends.bind`, `Ends.repeatWhile`: evaluations made of others.
-/

namespace Blockscript.Evaluation

variable {α β : Type}

/-- An evaluation is not ended by the number of its steps, and has the same result in all
    larger numbers. -/
structure Ends (p : (steps : Nat) → Evaluation α) (s : State)
    (x : EStateM.Result Halt State α) : Prop where
  ofItself : valueOf x ≠ .error .outOfSteps
  enough : ∃ steps, ∀ more, (p (steps + more)).run s = x

/-- In more steps an evaluation does the same, unless it runs out of them. -/
def Steady (p : (steps : Nat) → Evaluation α) : Prop :=
  ∀ steps more, AgreesUnless (· = .outOfSteps) (p (steps + more)) (p steps)

variable {s t : State} {a : α} {h : Halt}

/-- Where a step does not run out of steps, one with more of them does the same. -/
theorem AgreesUnless.run_eq {q p : Evaluation α} (hq : AgreesUnless (· = .outOfSteps) q p)
    (hp : valueOf (p.run s) ≠ .error .outOfSteps) : q.run s = p.run s := by
  refine hq s ?_
  rintro e he rfl
  exact hp he

/-! ### Evaluations that are the same in more steps -/

section Parts

variable (depth : Nat)

/-- More steps change nothing that ends: the congruence of runs with different fuel, at all nodes.
    -/
theorem steady_steps :
    (∀ n, Steady fun steps => evaluate steps depth n) ∧
    (∀ n, Steady fun steps => execute steps depth n) ∧
    ∀ id arguments, Steady fun steps => invoke steps depth id arguments := by
  have h := fun steps more =>
    @agreesUnless_steps (· = .outOfSteps) 0 rfl (.inl rfl) steps more
  exact ⟨fun n steps more => (h steps more).1 depth n,
    fun n steps more => (h steps more).2.1 depth n,
    fun id arguments steps more => (h steps more).2.2 depth id arguments⟩

/-- A condition ends in the same way with more steps. -/
theorem steady_condition (construct : Construct) (test : Node) :
    Steady fun steps => condition construct (evaluate steps depth test) :=
  fun steps more => isRunCongruence_agreesUnless.condition ((steady_steps depth).1 test steps more)

/-- The statements of a list end in the same way with more steps. -/
theorem steady_executeAll (ns : List Node) :
    Steady fun steps => executeAll (execute steps depth) ns :=
  fun steps more => isRunCongruence_agreesUnless.executeAll fun n _ =>
    (steady_steps depth).2.1 n steps more

theorem steady_block (ns : List Node) :
    Steady fun steps => inNewScope (executeAll (execute steps depth) ns) :=
  fun steps more => isRunCongruence_agreesUnless.inNewScope (steady_executeAll depth ns steps more)

theorem steady_executeOptional (n : Node) :
    Steady fun steps => executeOptional (execute steps depth) n :=
  fun steps more => isRunCongruence_agreesUnless.executeOptional
    (fun n => (steady_steps depth).2.1 n steps more) n

/-- A program ends in the same way with more steps. -/
theorem steady_runProgram (n : Node) : Steady fun steps => runProgram ⟨depth, steps⟩ n :=
  fun steps more =>
    @agreesUnless_runProgram (· = .outOfSteps) 0 rfl (.inl rfl) ⟨depth, steps⟩ more n

end Parts

section Loops

variable {condition : (steps : Nat) → Evaluation Bool} {body : (steps : Nat) → Evaluation Outcome}
  {increment : (steps : Nat) → Evaluation Unit} (hcondition : Steady condition)
  (hbody : Steady body) (hincrement : Steady increment)

include hcondition hbody hincrement

/-- Both the parts of a loop and the loop itself may have more steps. -/
theorem agreesUnless_repeatWhile (steps more rounds moreRounds : Nat) :
    AgreesUnless (· = .outOfSteps)
      (repeatWhile (condition (steps + more)) (body (steps + more)) (increment (steps + more))
        (rounds + moreRounds))
      (repeatWhile (condition steps) (body steps) (increment steps) rounds) :=
  isRunCongruence_agreesUnless.repeatWhile (hcondition steps more) (hbody steps more)
    (hincrement steps more) (.throw rfl)

/-- A loop may have more rounds than it takes. By induction on the rounds: each of them ends in the
    same way with more steps. -/
theorem steady_repeatWhile : Steady fun steps =>
    repeatWhile (condition steps) (body steps) (increment steps) steps :=
  fun steps more => agreesUnless_repeatWhile hcondition hbody hincrement steps more steps more

end Loops

/-! ### Evaluations that end -/

variable {p q : (steps : Nat) → Evaluation α} {f : (steps : Nat) → α → Evaluation β}
  {x y : EStateM.Result Halt State α} {z : EStateM.Result Halt State β}

theorem valueOf_error_ne {h k : Halt}
    (hne : valueOf (.error h s : EStateM.Result Halt State α) ≠ .error k) :
    valueOf (.error h t : EStateM.Result Halt State β) ≠ .error k :=
  fun he => hne (congrArg Except.error (Except.error.inj he))

/-- It is enough that an evaluation does not run out of some number of steps. -/
theorem Steady.ends (hp : Steady p) {steps : Nat} (h : (p steps).run s = x)
    (hx : valueOf x ≠ .error .outOfSteps) : Ends p s x := by
  refine ⟨hx, steps, fun more => ?_⟩
  subst h
  exact (hp steps more).run_eq hx

/-- A step that gives a value with some fuel ends with it. -/
theorem Steady.ends_ok (hp : Steady p) {steps : Nat} (h : (p steps).run s = .ok a t) :
    Ends p s (.ok a t) :=
  hp.ends h nofun

/-- A step ends as it does with any fuel. -/
theorem ends_ok (h : ∀ steps, (p steps).run s = .ok a t) : Ends p s (.ok a t) :=
  ⟨nofun, 0, fun _ => h _⟩

theorem ends_error {e : RuntimeError} (h : ∀ steps, (p steps).run s = .error (.error e) t) :
    Ends p s (.error (.error e) t) :=
  ⟨nofun, 0, fun _ => h _⟩

/-- An evaluation that does not need steps. -/
theorem ends_const {p : Evaluation α} (h : p.run s = .ok a t) : Ends (fun _ => p) s (.ok a t) :=
  ends_ok fun _ => h

namespace Ends

/-- A step ends in one way at most: with the greater of two fuels, it ends both ways. -/
theorem unique (hx : Ends p s x) (hy : Ends p s y) : x = y := by
  obtain ⟨steps, hx⟩ := hx.enough
  obtain ⟨steps', hy⟩ := hy.enough
  rw [← hx steps', ← hy steps, Nat.add_comm]

/-- The first step does not count. -/
theorem succ_iff : Ends (fun steps => p (steps + 1)) s x ↔ Ends p s x := by
  refine ⟨fun ⟨hx, steps, h⟩ => ⟨hx, steps + 1, fun more => ?_⟩,
    fun ⟨hx, steps, h⟩ => ⟨hx, steps, fun more => h (more + 1)⟩⟩
  rw [Nat.add_right_comm]
  exact h more

/-- Steps one after the other end if the first ends with a value, and the second from there. -/
theorem bind (hp : Ends p s (.ok a t)) (hf : Ends (fun steps => f steps a) t z) :
    Ends (fun steps => p steps >>= f steps) s z := by
  obtain ⟨-, steps, hp⟩ := hp
  obtain ⟨hz, steps', hf⟩ := hf
  refine ⟨hz, steps + steps', fun more => ?_⟩
  rw [EStateM.run_bind, Nat.add_assoc, hp]
  simp only
  rw [← hf (steps + more), Nat.add_left_comm]

/-- Steps one after the other end with the first if that halts. -/
theorem bind_error (hp : Ends p s (.error h t)) :
    Ends (fun steps => p steps >>= f steps) s (.error h t) := by
  obtain ⟨hx, steps, hp⟩ := hp
  refine ⟨valueOf_error_ne hx, steps, fun more => ?_⟩
  rw [EStateM.run_bind, hp]

/-- A loop that needs one round more than its parts have steps. -/
theorem repeatWhile {condition : (steps : Nat) → Evaluation Bool}
    {body : (steps : Nat) → Evaluation Outcome} {increment : (steps : Nat) → Evaluation Unit}
    (hcondition : Steady condition) (hbody : Steady body) (hincrement : Steady increment)
    {x : EStateM.Result Halt State Outcome}
    (h : Ends (fun steps => Evaluation.repeatWhile (condition steps) (body steps) (increment steps)
      (steps + 1)) s x) :
    Ends (fun steps => Evaluation.repeatWhile (condition steps) (body steps) (increment steps)
      steps) s x := by
  obtain ⟨hx, steps, h⟩ := h
  have hrun : (Evaluation.repeatWhile (condition steps) (body steps) (increment steps)
      (steps + 1)).run s = x := h 0
  have hagrees := agreesUnless_repeatWhile hcondition hbody hincrement steps 1 (steps + 1) 0
  have hmore := (hagrees.run_eq (hrun ▸ hx)).trans hrun
  exact (steady_repeatWhile hcondition hbody hincrement).ends hmore hx

end Ends

@[simp]
theorem ends_pure_iff : Ends (fun _ => pure a) s x ↔ x = .ok a s := by
  have hp : Ends (fun _ => (pure a : Evaluation α)) s (.ok a s) := ends_const rfl
  exact ⟨fun hx => hx.unique hp, fun hx => hx ▸ hp⟩

theorem ends_throw_iff (hh : h ≠ .outOfSteps) :
    Ends (fun _ => (throw h : Evaluation α)) s x ↔ x = .error h s := by
  have hp : Ends (fun _ => (throw h : Evaluation α)) s (.error h s) :=
    ⟨fun he => hh (Except.error.inj he), 0, fun _ => rfl⟩
  exact ⟨fun hx => hx.unique hp, fun hx => hx ▸ hp⟩

/-- An evaluation goes on with another one if it gives a value, and ends with it if it halts. -/
theorem Steady.ends_bind_iff (hp : Steady p) :
    Ends (fun steps => p steps >>= f steps) s z ↔
      (∃ h t, Ends p s (.error h t) ∧ z = .error h t) ∨
        ∃ a t, Ends p s (.ok a t) ∧ Ends (fun steps => f steps a) t z := by
  constructor
  · rintro ⟨hz, steps, h⟩
    have hfirst := h 0
    rw [Nat.add_zero, EStateM.run_bind] at hfirst
    cases hrun : (p steps).run s with
    | error e t =>
      rw [hrun] at hfirst
      obtain rfl : .error e t = z := hfirst
      exact .inl ⟨e, t, hp.ends hrun (valueOf_error_ne hz), rfl⟩
    | ok a t =>
      have hends := hp.ends_ok hrun
      obtain ⟨steps', hmore⟩ := hends.enough
      refine .inr ⟨a, t, hends, hz, steps + steps', fun more => ?_⟩
      have hrest := h (steps' + more)
      rw [EStateM.run_bind, Nat.add_left_comm, hmore, ← Nat.add_left_comm, ← Nat.add_assoc] at hrest
      exact hrest
  · rintro (⟨h, t, hp, rfl⟩ | ⟨a, t, hp, hf⟩)
    · exact hp.bind_error
    · exact hp.bind hf

end Blockscript.Evaluation
