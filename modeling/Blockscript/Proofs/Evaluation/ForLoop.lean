import Blockscript.Proofs.Evaluation.Overlooked
import Blockscript.Proofs.Evaluation.Returned
import Blockscript.Proofs.Evaluation.Reworded

/-!
# FOR as WHILE

A `FOR` is a `WHILE` with its increment at the end of the body, in a block that begins with the
initializer. The two differ in one point: the increment is executed around the scope of the body
in a `FOR`, and in that scope in a `WHILE`. That makes no difference if the body declares no
variable that the increment names. A body that answers skips the increment in both of them, and
an error in any part ends both.

* `Node.IsInitializer`, `Node.IsIncrement`, `Node.whileForm`: a `FOR`, and the block that does
  the same;
* `repeatWhile_thenIncrement`, `orderly_thenIncrement`: the increment goes into the body, by
  induction on the rounds, and then into its scope;
* `endsReworded_forLoop`: the two statements, with the same number of steps for their parts;
* `ends_whileForm_iff`, `forLoop_agrees`: the two statements with any number of steps, in any state
  that a run reaches.
-/

namespace Blockscript

namespace Node

/-- The first part of a `FOR`: a declaration, or nothing. -/
inductive IsInitializer : Node → Prop
  | absent : IsInitializer .absent
  | declaration (name : Label) (value : Node) : IsInitializer (.declaration name value)

/-- The last part of the head of a `FOR`: an assignment, or nothing. -/
inductive IsIncrement : Node → Prop
  | absent : IsIncrement .absent
  | assignment (receiver value : Node) : IsIncrement (.assignment receiver value)

/-- A statement that may be missing, as a list of statements. -/
def asStatements : Node → List Node
  | .absent => []
  | n => [n]

/-- The statements of the block that does what a `FOR` does. -/
def whileForm (initializer test increment : Node) (body : List Node) : List Node :=
  initializer.asStatements ++ [.whileLoop test (body ++ increment.asStatements)]

end Node

open Node

namespace Evaluation

variable {α : Type} {s : State} {initializer test increment n : Node} {body : List Node}

/-! ### Lists of statements -/

section Statements

variable (x : Node → Evaluation Outcome)

/-- Executes an increment after a body that has not answered. -/
def thenIncrement (body : Evaluation Outcome) (increment : Evaluation Unit) :
    Evaluation Outcome := do
  match ← body with
  | .normal => do
    increment
    return .normal
  | .answered value => return .answered value

theorem executeAll_append (ns ms : List Node) : executeAll x (ns ++ ms) = (do
    match ← executeAll x ns with
    | .normal => executeAll x ms
    | .answered value => return .answered value) := by
  induction ns with
  | nil => rfl
  | cons n ns ih =>
    rw [List.cons_append, executeAll, executeAll, bind_assoc]
    refine bind_congr fun o => ?_
    cases o with
    | normal => exact ih
    | answered v => rfl

theorem executeAll_singleton (n : Node) : executeAll x [n] = x n := by
  have hpure : ∀ o : Outcome, (match o with
      | .normal => executeAll x []
      | .answered value => return .answered value) = pure o := by
    rintro (_ | v) <;> rfl
  rw [executeAll]
  exact (bind_congr hpure).trans (bind_pure _)

end Statements

section Parts

variable (steps depth : Nat)

/-- Initializers and increments do not answer. -/
theorem execute_eq_normal (hn : n.IsInitializer ∨ n.IsIncrement) (habsent : n ≠ .absent) :
    ∃ p : Evaluation Unit, execute steps depth n = (do p; return .normal) := by
  cases steps with
  | zero =>
    refine ⟨throw .outOfSteps, ?_⟩
    rw [execute]
    rfl
  | succ steps =>
    rcases hn with (_ | ⟨name, value⟩) | (_ | ⟨receiver, value⟩)
    · contradiction
    · exact ⟨initialValue (evaluate steps depth) value >>= declare name false,
        by rw [execute, executeNode, bind_assoc]⟩
    · contradiction
    · exact ⟨_, by rw [execute, executeNode]⟩

theorem executeAll_asStatements (hn : n.IsInitializer ∨ n.IsIncrement) :
    executeAll (execute steps depth) n.asStatements = (do
      executeOptional (execute steps depth) n
      return .normal) := by
  by_cases habsent : n = .absent
  · rw [habsent]
    rfl
  · obtain ⟨p, hp⟩ := execute_eq_normal steps depth hn habsent
    rw [asStatements, executeAll_singleton, executeOptional, hp]
    · simp only [bind_assoc, pure_bind]
    · exact habsent
    · exact habsent

/-- A body with an increment behind it. -/
theorem executeAll_append_asStatements (hn : increment.IsIncrement) :
    executeAll (execute steps depth) (body ++ increment.asStatements) =
      thenIncrement (executeAll (execute steps depth) body)
        (executeOptional (execute steps depth) increment) := by
  rw [executeAll_append, executeAll_asStatements steps depth (.inr hn)]
  rfl

/-- The block of a `WHILE` with an initializer in front of it. -/
theorem executeAll_whileForm (hn : initializer.IsInitializer) :
    executeAll (execute steps depth) (whileForm initializer test increment body) = (do
      executeOptional (execute steps depth) initializer
      execute steps depth (.whileLoop test (body ++ increment.asStatements))) := by
  rw [whileForm, executeAll_append, executeAll_asStatements steps depth (.inl hn),
    executeAll_singleton]
  simp only [bind_assoc, pure_bind]

end Parts

/-! ### The increment at the end of the body -/

theorem thenIncrement_bind (body : Evaluation Outcome) (increment : Evaluation Unit)
    (f : Outcome → Evaluation α) : thenIncrement body increment >>= f = (do
      match ← body with
      | .normal => do
        increment
        f .normal
      | .answered value => f (.answered value)) := by
  rw [thenIncrement, bind_assoc]
  refine bind_congr fun o => ?_
  cases o with
  | normal => simp only [bind_assoc, pure_bind]
  | answered v => rw [pure_bind]

/-- Whether the increment belongs to the body is of no matter in the same scope. By induction on
    the rounds. -/
theorem repeatWhile_thenIncrement (condition : Evaluation Bool) (body : Evaluation Outcome)
    (increment : Evaluation Unit) (rounds : Nat) :
    repeatWhile condition body increment rounds =
      repeatWhile condition (thenIncrement body increment) (return ()) rounds := by
  induction rounds with
  | zero => rfl
  | succ rounds ih =>
    rw [repeatWhile, repeatWhile]
    refine bind_congr fun b => ?_
    cases b with
    | false => rfl
    | true =>
      rw [if_pos rfl, if_pos rfl, thenIncrement_bind]
      refine bind_congr fun o => ?_
      cases o with
      | normal => simp only [pure_bind, ih]
      | answered v => rfl

section Scope

variable {N M : Label → Prop} {body : Evaluation Outcome} {increment : Evaluation Unit}
  (hbody : Orderly 0 body body) (hadds : Adds M body)
  (hnames : ∀ x y, N x → M y → y.same x = false)

include hbody hadds hnames

/-- After a body, its scope binds what the body has declared, and nothing else. -/
theorem hides_stateAfter (hs : s.IsOrderly) :
    (stateAfter (body.run (s.entered s.current))).Hides N s.current := by
  have hentered := hs.entered hs.current_lt
  have hgrows := hbody.grows hentered
  have hgains := hadds (s.entered s.current)
  obtain ⟨hvars, hfunctions⟩ := binds_entered s.current s
  obtain ⟨added, hadded, hM⟩ := hgains.names _ hentered.current_lt
  refine ⟨?_, ?_, fun x hx => ?_⟩
  · rw [hgrows.current, hgrows.parent _ hentered.current_lt]
    exact s.parent_entered s.current
  · rw [hgrows.current, hgains.functions]
    exact hfunctions
  · rw [hgrows.current, Scope.findVariable?_eq_none_iff, hadded, Scope.names, hvars]
    exact fun y hy => hnames x y hx (hM y hy).2

/-- An increment that names nothing that the body declares does in its scope what it does around
    it. -/
theorem orderly_thenIncrement (hincrement : Overlooks N increment) :
    Orderly 0 (inNewScope (thenIncrement body increment))
      (thenIncrement (inNewScope body) increment) := by
  have hR := isCongruence_orderly 0
  have horderly : Orderly 0 (thenIncrement (inNewScope body) increment)
      (thenIncrement (inNewScope body) increment) := by
    refine (hR.inNewScope hbody).bind fun o => ?_
    cases o with
    | normal => exact hincrement.orderly.bind fun _ => hR.pure _
    | answered v => exact hR.pure _
  intro s hs hn
  refine ⟨?_, (horderly s hs hn).2⟩
  have hblock : ∀ p : Evaluation Outcome,
      (inNewScope p).run s = returning s.current (p.run (s.entered s.current)) :=
    fun p => run_within_newScope s.current s
  have hhides := hides_stateAfter hbody hadds hnames hs
  have hgrows := hbody.grows (hs.entered hs.current_lt)
  rw [hblock, thenIncrement, thenIncrement, EStateM.run_bind, EStateM.run_bind, hblock]
  cases hrun : body.run (s.entered s.current) with
  | error h t => rfl
  | ok o t =>
    rw [hrun] at hhides hgrows
    cases o with
    | answered v => rfl
    | normal =>
      -- The scope of the body is still the current one in a `WHILE`, and is left in a `FOR`.
      have hend := hincrement.run t s.current hgrows.isOrderly hhides
      simp only [returning, EStateM.run_bind, hend]
      cases increment.run t <;> rfl

end Scope

/-! ### The two statements -/

section Loops

variable (steps depth : Nat)

theorem overlooks_increment {N : Label → Prop} (hn : increment.IsIncrement)
    (hnames : ∀ x, .access .absent x ∈ increment.nodes → N x) :
    Overlooks N (executeOptional (execute steps depth) increment) := by
  have hR := @isCompatible_overlooks N
  cases hn with
  | absent => exact (hR.pure ()).2
  | assignment receiver value =>
    refine Overlooks.bind ?_ fun _ => (hR.pure ()).2
    cases steps with
    | zero =>
      rw [execute]
      exact .throw _
    | succ steps =>
      rw [execute, executeNode]
      have hpart : ∀ m ∈ (Node.assignment receiver value).parts, ∀ x,
          .access .absent x ∈ m.nodes → N x :=
        fun m hm x hx => hnames x (mem_nodes_of_mem_parts hm hx)
      exact (overlooks_assign steps depth (hpart receiver List.mem_cons_self)
        (hpart value (List.mem_cons_of_mem _ List.mem_cons_self))).bind fun _ => (hR.pure _).2

variable (hinitializer : initializer.IsInitializer) (hincrement : increment.IsIncrement)
  (hnames : ∀ x, .access .absent x ∈ increment.nodes → ∀ y ∈ declaredByAll body, y.same x = false)

include hincrement hnames

/-- With the same number of steps for the parts of the loops, the two statements end in the same
    way but for words. -/
theorem endsReworded_forLoop (hs : s.IsOrderly) :
    EndsReworded ((execute (steps + 1) depth (.forLoop initializer test increment body)).run s)
      ((inNewScope do
        executeOptional (execute steps depth) initializer
        execute (steps + 1) depth (.whileLoop test (body ++ increment.asStatements))).run s) := by
  have hR := isCongruence_orderly 0
  have hW := isRunCongruence_rewords
  obtain ⟨hevaluate, hexecute, -⟩ := orderly_steps_self steps
  obtain ⟨hevaluate', hexecute', -⟩ := hW.steps_self steps
  have hbody : Orderly 0 (executeAll (execute steps depth) body)
      (executeAll (execute steps depth) body) := hR.executeAll fun n _ => hexecute depth n
  have hadds : Adds (· ∈ declaredByAll body) (executeAll (execute steps depth) body) :=
    ((isCourse_gains _).isExpressive.executeAll fun n hn =>
      (((adds_steps steps).2.1 depth n).mono fun _ => mem_declaredByAll hn).self).2
  have hmoved := orderly_thenIncrement hbody hadds (fun x y hx hy => hx y hy)
    (overlooks_increment steps depth hincrement hnames)
  -- The word first, and then the place of the increment.
  have hwords : Rewords (execute (steps + 1) depth (.forLoop initializer test increment body))
      (inNewScope do
        executeOptional (execute steps depth) initializer
        repeatWhile (condition .whileLoop (evaluate steps depth test))
          (inNewScope (executeAll (execute steps depth) body))
          (executeOptional (execute steps depth) increment) steps) := by
    rw [execute, executeNode]
    refine hW.inNewScope (hW.bind (hW.executeOptional (hexecute' depth) _) fun _ => ?_)
    exact hW.repeatWhile_self (rewords_condition (hevaluate' depth test))
      (hW.inNewScope (hW.executeAll fun n _ => hexecute' depth n))
      (hW.executeOptional (hexecute' depth) _) steps
  have hplace : Orderly 0
      (inNewScope do
        executeOptional (execute steps depth) initializer
        execute (steps + 1) depth (.whileLoop test (body ++ increment.asStatements)))
      (inNewScope do
        executeOptional (execute steps depth) initializer
        repeatWhile (condition .whileLoop (evaluate steps depth test))
          (inNewScope (executeAll (execute steps depth) body))
          (executeOptional (execute steps depth) increment) steps) := by
    rw [repeatWhile_thenIncrement, execute, executeNode,
      executeAll_append_asStatements steps depth hincrement]
    refine hR.inNewScope (hR.bind (hR.executeOptional (hexecute depth) _) fun _ => ?_)
    exact hR.repeatWhile_self (hR.condition (hevaluate depth test)) hmoved (hR.pure ()) steps
  rw [(hplace s hs (Nat.zero_le _)).1]
  exact hwords s s (.refl s)

end Loops

/-- Neither statement has to be executed with as many steps as the other. -/
theorem agreesUnless_block (depth a b i j : Nat) (loop : Node) :
    AgreesUnless (· = .outOfSteps)
      (inNewScope do
        executeOptional (execute (a + i) depth) initializer
        execute (b + j) depth loop)
      (inNewScope do
        executeOptional (execute a depth) initializer
        execute b depth loop) :=
  isRunCongruence_agreesUnless.inNewScope (isRunCongruence_agreesUnless.bind
    (steady_executeOptional depth initializer a i) fun _ => (steady_steps depth).2.1 loop b j)

/-- Results that are the same but for words do not differ in whether there have been enough
    steps. -/
theorem EndsReworded.outOfSteps_iff {x y : EStateM.Result Halt State α} (h : EndsReworded x y) :
    valueOf x = .error .outOfSteps ↔ valueOf y = .error .outOfSteps := by
  cases h with
  | ok a _ => exact ⟨nofun, nofun⟩
  | error hh _ => cases hh <;> simp [valueOf]

/-- The two statements in an orderly state. One of them ends with some number of steps, and then
    the other one does. -/
theorem ends_whileForm_iff (hs : s.IsOrderly) (hinitializer : initializer.IsInitializer)
    (hincrement : increment.IsIncrement)
    (hnames : ∀ x, .access .absent x ∈ increment.nodes →
      ∀ y ∈ declaredByAll body, y.same x = false) (depth : Nat) :
    let loop := fun steps => execute steps depth (.forLoop initializer test increment body)
    let block := fun steps =>
      inNewScope (executeAll (execute steps depth) (whileForm initializer test increment body))
    (∀ x, Ends loop s x → ∃ y, Ends block s y ∧ EndsReworded x y) ∧
      ∀ y, Ends block s y → ∃ x, Ends loop s x ∧ EndsReworded x y := by
  intro loop block
  have hagrees := fun steps =>
    @endsReworded_forLoop _ initializer test increment body steps depth hincrement hnames hs
  have hblock : ∀ steps, block steps = (inNewScope do
      executeOptional (execute steps depth) initializer
      execute steps depth (.whileLoop test (body ++ increment.asStatements))) :=
    fun steps => congrArg inNewScope (executeAll_whileForm steps depth hinitializer)
  constructor
  · rintro x ⟨hx, steps, hends⟩
    have hloop : (execute (steps + 1) depth (.forLoop initializer test increment body)).run s = x :=
      hends 1
    have hsame := hagrees steps
    rw [hloop] at hsame
    have hy := mt hsame.outOfSteps_iff.2 hx
    -- The initializer is given one step less than in the block.
    have hmore := (agreesUnless_block depth steps (steps + 1) 1 0 _).run_eq hy
    rw [Nat.add_zero, ← hblock] at hmore
    exact ⟨_, (steady_block depth _).ends hmore hy, hsame⟩
  · rintro y ⟨hy, steps, hends⟩
    have hrun : (block steps).run s = y := hends 0
    rw [hblock] at hrun
    have hmore := (agreesUnless_block depth steps steps 0 1 _).run_eq (hrun ▸ hy)
    rw [Nat.add_zero, hrun] at hmore
    have hsame := hagrees steps
    rw [hmore] at hsame
    exact ⟨_, ((steady_steps depth).2.1 _).ends rfl (mt hsame.outOfSteps_iff.1 hy), hsame⟩

/-- In any state that a run reaches, of any tree and whatever the host has put in the store, a
    `FOR` and the block that is its `WHILE` form both end or both do not, if the body declares no
    variable outside of its loops that the increment names. Where they end, they do so with the
    same outcome or with the same error, the same store and the same output; but a condition is
    one of a `FOR` in one of them, and of a `WHILE` in the other, in its error and where it is
    logged or printed. -/
theorem forLoop_agrees {limits : Limits} {program : Node} {start : State}
    (hstart : start.IsOrderly) (hs : Reaches limits program start s)
    (hinitializer : initializer.IsInitializer) (hincrement : increment.IsIncrement)
    (hnames : ∀ x, .access .absent x ∈ increment.nodes →
      ∀ y ∈ declaredByAll body, y.same x = false) (depth : Nat) :
    let loop := fun steps => execute steps depth (.forLoop initializer test increment body)
    let block := fun steps =>
      inNewScope (executeAll (execute steps depth) (whileForm initializer test increment body))
    (∀ x, Ends loop s x → ∃ y, Ends block s y ∧ EndsReworded x y) ∧
      ∀ y, Ends block s y → ∃ x, Ends loop s x ∧ EndsReworded x y :=
  ends_whileForm_iff (hs.isOrderly hstart) hinitializer hincrement hnames depth

/-- The numbers below two are printed by a `FOR` whose body declares a variable. -/
theorem forLoop_agrees_print :
    let i := Node.access .absent (.text "i")
    let x := Node.access .absent (.text "x")
    let initializer := Node.declaration (.text "i") (.integer 0)
    let test := Node.binary (.text "<") i (.integer 2)
    let increment := Node.assignment i (.binary (.text "+") i (.integer 1))
    let body := [Node.declaration (.text "x") i, .discard (.call .absent (.text "print") [x])]
    let loop := Node.forLoop initializer test increment body
    let main := Node.method (.text "main") [] [loop]
    let start := State.start .standard Store.standardScope 0
    let b := (defined main ⟨.text "main", 0, 1⟩ start).entered Store.globals
    parseSource "DEF main() DO FOR (i = 0; i < 2; i = i + 1) LET x = i; print(x); END END" =
        .ok (.program [] [main]) ∧
      start.IsOrderly ∧ Reaches ⟨1, 2⟩ (.program [] [main]) start b ∧
      initializer.IsInitializer ∧ increment.IsIncrement ∧
      (∀ x, .access .absent x ∈ increment.nodes → ∀ y ∈ declaredByAll body, y.same x = false) ∧
      ∃ x y, Ends (fun steps => execute steps 0 loop) b x ∧
        Ends (fun steps => inNewScope (executeAll (execute steps 0)
          (whileForm initializer test increment body))) b y ∧
        EndsReworded x y ∧ (stateAfter x).output = "0\n1\n" := by
  intro i x initializer test increment body loop main start b
  have hlex : lex "DEF main() DO FOR (i = 0; i < 2; i = i + 1) LET x = i; print(x); END END" =
      .ok [⟨.identifier, "DEF", 0⟩, ⟨.identifier, "main", 4⟩, ⟨.operator, "(", 8⟩,
        ⟨.operator, ")", 9⟩, ⟨.identifier, "DO", 11⟩, ⟨.identifier, "FOR", 14⟩,
        ⟨.operator, "(", 18⟩, ⟨.identifier, "i", 19⟩, ⟨.operator, "=", 21⟩, ⟨.integer, "0", 23⟩,
        ⟨.operator, ";", 24⟩, ⟨.identifier, "i", 26⟩, ⟨.operator, "<", 28⟩, ⟨.integer, "2", 30⟩,
        ⟨.operator, ";", 31⟩, ⟨.identifier, "i", 33⟩, ⟨.operator, "=", 35⟩,
        ⟨.identifier, "i", 37⟩, ⟨.operator, "+", 39⟩, ⟨.integer, "1", 41⟩, ⟨.operator, ")", 42⟩,
        ⟨.identifier, "LET", 44⟩, ⟨.identifier, "x", 48⟩, ⟨.operator, "=", 50⟩,
        ⟨.identifier, "i", 52⟩, ⟨.operator, ";", 53⟩, ⟨.identifier, "print", 55⟩,
        ⟨.operator, "(", 60⟩, ⟨.identifier, "x", 61⟩, ⟨.operator, ")", 62⟩, ⟨.operator, ";", 63⟩,
        ⟨.identifier, "END", 65⟩, ⟨.identifier, "END", 69⟩] := by
    decide +kernel
  have hparse : parseSource
      "DEF main() DO FOR (i = 0; i < 2; i = i + 1) LET x = i; print(x); END END" =
      .ok (.program [] [main]) := by
    rw [parseSource, hlex]
    rfl
  have hb : BeginsCall (defined main ⟨.text "main", 0, 1⟩ start) 1 [] (.text "main") [loop] b :=
    ⟨[], Store.globals, _, rfl, rfl, rfl, rfl⟩
  have hs : Reaches ⟨1, 2⟩ (.program [] [main]) start b := by
    refine reaches_of_fault ?_ fun P hP => ?_
    · have hrun : (runNode (declareField ⟨1, 2⟩) (invokeWithin ⟨1, 2⟩) (.program [] [main])).run
          start = (invoke 2 1 1 []).run (defined main ⟨.text "main", 0, 1⟩ start) := rfl
      rw [runProgram, run_closingLog, hrun, run_invoke hb 1 0, executeAll_singleton, execute,
        executeNode, executeOptional, execute]
      · rintro ⟨⟩
      · simp [initializer]
    · have hrun : (runNode (declareFieldGuarded P ⟨1, 2⟩) (invokeGuarded P 2 1)
          (.program [] [main])).run start =
            (invokeGuarded P 2 1 1 []).run (defined main ⟨.text "main", 0, 1⟩ start) := rfl
      have hbody : (executeAll (executeGuarded P 1 0) [loop]).run b =
          .error (.fault .unsuitableValue) b := by
        rw [executeAll_singleton, executeGuarded, run_guarded, hP, if_neg Bool.false_ne_true]
      have hcall := run_callFunction hb (executeGuarded P 1) 0
      rw [hbody] at hcall
      -- The two guards before the body may be the cause as well.
      rw [runProgramGuarded, run_closingLog, run_guarded, hrun, invokeGuarded, run_guarded, hcall]
      by_cases hstart : P start
      · rw [if_pos hstart]
        by_cases hcalled : P (defined main ⟨.text "main", 0, 1⟩ start)
        · rw [if_pos hcalled]
          rfl
        · rw [if_neg hcalled]
          rfl
      · rw [if_neg hstart]
        rfl
  have hinitializer : initializer.IsInitializer := .declaration _ _
  have hincrement : increment.IsIncrement := .assignment _ _
  have hnames : ∀ x, .access .absent x ∈ increment.nodes →
      ∀ y ∈ declaredByAll body, y.same x = false := by
    intro y hy z hz
    have hi : y = .text "i" := by
      simpa [increment, i, nodes, Node.integer] using hy
    have hx : z = .text "x" := by
      simpa [body, declaredByAll, declared] using hz
    rw [hi, hx]
    rfl
  have hloop : valueOf ((execute 20 0 loop).run b) ≠ .error .outOfSteps := by
    intro heq
    have hok : (valueOf ((execute 20 0 loop).run b)).isOk := by decide +kernel
    rw [heq] at hok
    contradiction
  have houtput : (stateAfter ((execute 20 0 loop).run b)).output = "0\n1\n" := by decide +kernel
  have hends := ((steady_steps 0).2.1 loop).ends rfl hloop
  obtain ⟨y, hy, hsame⟩ :=
    (forLoop_agrees (isOrderly_start 0) hs hinitializer hincrement hnames 0).1 _ hends
  exact ⟨hparse, isOrderly_start 0, hs, hinitializer, hincrement, hnames, _, y, hends, hy, hsame,
    houtput⟩

end Evaluation

end Blockscript
