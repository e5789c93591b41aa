import Blockscript.Proofs.Evaluation.Course
import Blockscript.Proofs.Evaluation.Enough
import Blockscript.Proofs.Evaluation.Wrapped

/-!
# Calls that may be nested deeper

How deep calls may be nested is seen nowhere but where they cannot be nested deeper. So a program
that does not get there ends in the same way if they may be nested deeper. One that does get
there goes on from there in the deeper run: all that it has printed is printed there, too, and
perhaps more after it.

* `Evaluation.Prints`: what has been printed in a state is the beginning of what has been in
  another one;
* `Evaluation.Continues`, `Evaluation.GoesOn`: results and steps that are the same as other
  ones, or go on where those have met the limit of calls;
* `goesOn_callFunction`, `goesOn_steps`: a call, and evaluations with the same number of steps;
* `ends_runProgram_deeper`: programs.
-/

namespace Blockscript.Evaluation

variable {α β : Type}

/-- What has been printed in one state is the beginning of what has been printed in another. -/
def Prints (s t : State) : Prop :=
  s.output.toList <+: t.output.toList

theorem prints_print (line : String) (s : State) : Prints s (s.print line) := by
  have houtput : (s.print line).output = s.output ++ line ++ "\n" := rfl
  rw [Prints, houtput, String.append_assoc, String.toList_append]
  exact List.prefix_append _ _

/-- The output of a run grows at its end. -/
theorem isCourse_prints : IsCourse Prints where
  refl s := List.prefix_refl _
  trans := List.IsPrefix.trans
  record e s := by
    rw [State.record]
    split
    · exact List.prefix_refl _
    · exact prints_print e.text s
  print := prints_print
  assign _ _ _ := List.prefix_refl _

theorem along_prints_within (c : ScopeId) {p : Evaluation α} (hp : Along Prints p) :
    Along Prints (within c p) := by
  intro s
  have hs := hp { s with current := c }
  rw [run_within]
  cases hrun : p.run { s with current := c } <;> rw [hrun] at hs <;> exact hs

/-- The text printed is never taken back. -/
theorem isRunCongruence_prints : IsRunCongruence fun {_} => AlongSelf Prints :=
  isCourse_prints.isRunCongruence (fun _ => along_storing fun _ => List.prefix_refl _)
    along_prints_within

/-! ### Going on -/

/-- A result is the same as another one, or that one is met by the limit of calls, and what it
    has printed is the beginning of what this one has. -/
def Continues (y x : EStateM.Result Halt State α) : Prop :=
  y = x ∨ ∃ t, x = .error (.error .callDepthExceeded) t ∧ Prints t (stateAfter y)

/-- A change to the states that does not change what has been printed. -/
theorem Continues.changing {y x : EStateM.Result Halt State α} (h : Continues y x)
    {f : State → State} (hf : ∀ s, (f s).output = s.output) :
    Continues (changing f y) (changing f x) := by
  rcases h with rfl | ⟨t, rfl, hprints⟩
  · exact .inl rfl
  · refine .inr ⟨f t, rfl, ?_⟩
    rw [Prints, stateAfter_changing, hf, hf]
    exact hprints

/-- A step only adds to what has been printed, and goes on where another one is met by the limit
    of calls. -/
structure GoesOn (q p : Evaluation α) : Prop where
  prints : Along Prints q
  continues (s : State) : Continues (q.run s) (p.run s)

namespace GoesOn

variable {p q : Evaluation α}

theorem refl (hp : Along Prints p) : GoesOn p p :=
  ⟨hp, fun _ => .inl rfl⟩

/-- Whatever is done instead of a call that is too deep. -/
theorem too_deep (hq : Along Prints q) : GoesOn q (fail .callDepthExceeded) :=
  ⟨hq, fun s => .inr ⟨s, rfl, hq s⟩⟩

/-- If the first step is cut off, the output so far is the beginning of that of the longer run;
    otherwise both go on from the same state. -/
theorem bind {f g : α → Evaluation β} (hp : GoesOn q p) (hf : ∀ a, GoesOn (g a) (f a)) :
    GoesOn (q >>= g) (p >>= f) := by
  have hg := fun a => (hf a).prints
  refine ⟨isCourse_prints.bind hp.prints hg, fun s => ?_⟩
  rw [EStateM.run_bind, EStateM.run_bind]
  rcases hp.continues s with heq | ⟨t, hlimit, hprints⟩
  · rw [heq]
    cases p.run s with
    | error h t => exact .inl rfl
    | ok a t => exact (hf a).continues t
  · -- What comes next is done by the deeper step only.
    rw [hlimit]
    refine .inr ⟨t, rfl, ?_⟩
    cases hq : q.run s with
    | error h u =>
      rw [hq] at hprints
      exact hprints
    | ok a u =>
      rw [hq] at hprints
      exact hprints.trans (hg a u)

theorem logFrom {event' event : Evaluation Event} (h : GoesOn event' event) (level : Nat) :
    GoesOn (Evaluation.logFrom level event') (Evaluation.logFrom level event) := by
  refine (refl isCourse_prints.get).bind fun s => ?_
  split
  · exact h.bind fun e => refl (isCourse_prints.record e)
  · exact refl (isCourse_prints.pure _)

theorem within (h : GoesOn q p) (c : ScopeId) :
    GoesOn (Evaluation.within c q) (Evaluation.within c p) := by
  refine ⟨along_prints_within c h.prints, fun s => ?_⟩
  have hreturning : ∀ x : EStateM.Result Halt State α,
      returning s.current x = changing (fun t => { t with current := s.current }) x := by
    rintro (_ | _) <;> rfl
  rw [run_within, run_within, hreturning, hreturning]
  exact (h.continues _).changing fun _ => rfl

end GoesOn

/-- Going on is kept by all that runs are made of. -/
theorem isRunCongruence_goesOn : IsRunCongruence (fun {_} => GoesOn) :=
  have hself {α : Type} {p : Evaluation α} (h : AlongSelf Prints p p) : GoesOn p p := .refl h.2
  IsStoreCongruence.isRunCongruence
    { pure := fun a => hself (isRunCongruence_prints.pure a)
      throw := fun h => hself (isRunCongruence_prints.throw h)
      bind := .bind
      logFrom := fun h _ => h.logFrom _
      print := fun line => hself (isRunCongruence_prints.print line)
      checkDigits := fun exceeds => hself (isRunCongruence_prints.checkDigits exceeds)
      storing := fun _ => .refl (along_storing fun _ => List.prefix_refl _)
      current := .refl isCourse_prints.refl
      within := fun c h => h.within c }

/-! ### Evaluations with the same number of steps -/

section Deeper

variable (deeper : Nat)

/-- A call that is too deep for one evaluation may be made in the other one. -/
theorem goesOn_callFunction {x' x : (depth : Nat) → Node → Evaluation Outcome}
    (hx : ∀ depth n, GoesOn (x' (depth + deeper) n) (x depth n))
    (hprints : ∀ depth n, Along Prints (x' depth n)) (depth : Nat) (id : FunctionId)
    (arguments : List Value) :
    GoesOn (callFunction x' (depth + deeper) id arguments) (callFunction x depth id arguments) := by
  have hR := isRunCongruence_goesOn
  rw [callFunction_eq, callFunction_eq]
  refine hR.getFunction id fun o => ?_
  rcases o with _ | (⟨name, parameters, body, closure⟩ | ⟨_, _, action⟩)
  · exact hR.throw _
  · cases depth with
    | zero =>
      refine .too_deep ?_
      cases 0 + deeper with
      | zero => exact isCourse_prints.throw _
      | succ depth =>
        have hbody : AlongSelf Prints (executeAll (x' depth) body) (executeAll (x' depth) body) :=
          isRunCongruence_prints.executeAll fun n _ => (hprints depth n).self
        exact (isRunCongruence_prints.callDefined closure hbody arguments).2
    | succ depth =>
      rw [Nat.succ_add]
      have hbody : GoesOn (executeAll (x' (depth + deeper)) body) (executeAll (x depth) body) :=
        hR.executeAll fun n _ => hx depth n
      exact hR.callDefined closure hbody arguments
  · exact hR.perform (action.respond arguments)

/-- By induction on the number of steps. -/
theorem goesOn_steps (steps : Nat) :
    (∀ depth n, GoesOn (evaluate steps (depth + deeper) n) (evaluate steps depth n)) ∧
    (∀ depth n, GoesOn (execute steps (depth + deeper) n) (execute steps depth n)) ∧
    ∀ depth id arguments,
      GoesOn (invoke steps (depth + deeper) id arguments) (invoke steps depth id arguments) := by
  have hR := isRunCongruence_goesOn
  induction steps with
  | zero =>
    simp only [evaluate.eq_def 0, execute.eq_def 0, invoke.eq_def 0]
    exact ⟨fun _ _ => hR.throw _, fun _ _ => hR.throw _, fun _ _ _ => hR.throw _⟩
  | succ steps ih =>
    obtain ⟨hevaluate, hexecute, hinvoke⟩ := ih
    refine ⟨fun depth n => ?_, fun depth n => ?_, fun depth id arguments => ?_⟩
    · rw [evaluate, evaluate]
      exact hR.evaluateNode (hevaluate depth) (hinvoke depth) n
    · rw [execute, execute]
      exact hR.executeNode (hevaluate depth) (hexecute depth) steps 0 (fun _ _ _ => hR.throw _) n
    · rw [invoke, invoke]
      exact goesOn_callFunction deeper hexecute
        (fun depth n => ((isRunCongruence_prints.steps_self steps).2.1 depth n).2) depth id
        arguments

/-- A program that may call deeper goes on where the other one is cut off. -/
theorem continues_runProgram (limits : Limits) (n : Node) (s : State) :
    Continues ((runProgram ⟨limits.depth + deeper, limits.steps⟩ n).run s)
      ((runProgram limits n).run s) := by
  have hR := isRunCongruence_goesOn
  obtain ⟨hevaluate, _, hinvoke⟩ := goesOn_steps deeper limits.steps
  have hnode : GoesOn
      (runNode (declareField ⟨limits.depth + deeper, limits.steps⟩)
        (invokeWithin ⟨limits.depth + deeper, limits.steps⟩) n)
      (runNode (declareField limits) (invokeWithin limits) n) :=
    hR.runNode (hR.declareNode (hevaluate limits.depth)) (hinvoke limits.depth) n
  rw [runProgram, runProgram, run_closingLog_eq, run_closingLog_eq]
  exact (hnode.continues s).changing fun _ => rfl

end Deeper

/-! ### Programs -/

/-- The limit of calls is seen by its own error only. A program that ends in any other way, or
    with a value, ends in the same way if calls may be nested deeper: with the same result, the
    same text printed, and the same store. If it ends by that error, then what it has printed is
    the beginning of what is printed if calls may be nested deeper, however that run ends or
    whether it does at all. -/
theorem ends_runProgram_deeper {depth depth' : Nat} (hdepth : depth ≤ depth') (n : Node)
    (s : State) {x : EStateM.Result Halt State Value}
    (hx : Ends (fun steps => runProgram ⟨depth, steps⟩ n) s x) :
    (valueOf x ≠ .error (.error .callDepthExceeded) →
      Ends (fun steps => runProgram ⟨depth', steps⟩ n) s x) ∧
    (valueOf x = .error (.error .callDepthExceeded) → ∃ steps, ∀ more,
      Prints (stateAfter x) (stateAfter ((runProgram ⟨depth', steps + more⟩ n).run s))) := by
  obtain ⟨deeper, rfl⟩ := Nat.exists_eq_add_of_le hdepth
  obtain ⟨hsteps, steps, hx⟩ := hx
  have hcontinues : ∀ more,
      Continues ((runProgram ⟨depth + deeper, steps + more⟩ n).run s) x := fun more =>
    hx more ▸ continues_runProgram deeper ⟨depth, steps + more⟩ n s
  refine ⟨fun hne => ⟨hsteps, steps, fun more => ?_⟩, fun _ => ⟨steps, fun more => ?_⟩⟩
  · rcases hcontinues more with heq | ⟨t, rfl, -⟩
    · exact heq
    · exact absurd rfl hne
  · rcases hcontinues more with heq | ⟨t, rfl, hprints⟩
    · rw [heq]
      exact List.prefix_refl _
    · exact hprints

/-- One call is not enough for a program that makes one in another. Two are, and so are three. -/
theorem ends_runProgram_deeper_two :
    let n := Node.program [] [
      .method (.text "f") [] [.discard (.call .absent (.text "print") [.integer 2])],
      .method (.text "main") [] [.discard (.call .absent (.text "print") [.integer 1]),
        .discard (.call .absent (.text "f") [])]]
    let start := State.start .standard Store.standardScope 0
    let one := (runProgram ⟨1, 9⟩ n).run start
    let two := (runProgram ⟨2, 9⟩ n).run start
    parseSource "DEF f() DO print(2); END DEF main() DO print(1); f(); END" = .ok n ∧
      valueOf one = .error (.error .callDepthExceeded) ∧ valueOf two = .ok .nil ∧
      (stateAfter one).output = "1\n" ∧ (stateAfter two).output = "1\n2\n" ∧
      (∃ steps, ∀ more,
        Prints (stateAfter one) (stateAfter ((runProgram ⟨2, steps + more⟩ n).run start))) ∧
      Ends (fun steps => runProgram ⟨3, steps⟩ n) start two := by
  intro n start one two
  have hlex : lex "DEF f() DO print(2); END DEF main() DO print(1); f(); END" = .ok
      [⟨.identifier, "DEF", 0⟩, ⟨.identifier, "f", 4⟩, ⟨.operator, "(", 5⟩, ⟨.operator, ")", 6⟩,
        ⟨.identifier, "DO", 8⟩, ⟨.identifier, "print", 11⟩, ⟨.operator, "(", 16⟩,
        ⟨.integer, "2", 17⟩, ⟨.operator, ")", 18⟩, ⟨.operator, ";", 19⟩, ⟨.identifier, "END", 21⟩,
        ⟨.identifier, "DEF", 25⟩, ⟨.identifier, "main", 29⟩, ⟨.operator, "(", 33⟩,
        ⟨.operator, ")", 34⟩, ⟨.identifier, "DO", 36⟩, ⟨.identifier, "print", 39⟩,
        ⟨.operator, "(", 44⟩, ⟨.integer, "1", 45⟩, ⟨.operator, ")", 46⟩, ⟨.operator, ";", 47⟩,
        ⟨.identifier, "f", 49⟩, ⟨.operator, "(", 50⟩, ⟨.operator, ")", 51⟩, ⟨.operator, ";", 52⟩,
        ⟨.identifier, "END", 54⟩] := by
    decide +kernel
  have hparse :
      parseSource "DEF f() DO print(2); END DEF main() DO print(1); f(); END" = .ok n := by
    rw [parseSource, hlex]
    rfl
  have hone : valueOf one = .error (.error .callDepthExceeded) := by with_unfolding_all rfl
  have htwo : valueOf two = .ok .nil := by with_unfolding_all rfl
  have hends : ∀ depth, valueOf ((runProgram ⟨depth, 9⟩ n).run start) ≠ .error .outOfSteps →
      Ends (fun steps => runProgram ⟨depth, steps⟩ n) start
        ((runProgram ⟨depth, 9⟩ n).run start) :=
    fun depth => (steady_runProgram depth n).ends rfl
  exact ⟨hparse, hone, htwo, by decide +kernel, by decide +kernel,
    (ends_runProgram_deeper (by decide) n start (hends 1 (by rw [hone]; nofun))).2 hone,
    (ends_runProgram_deeper (by decide) n start (hends 2 (by rw [htwo]; nofun))).1
      (by rw [htwo]; nofun)⟩

end Blockscript.Evaluation
