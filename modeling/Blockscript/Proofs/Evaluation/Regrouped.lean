import Blockscript.Proofs.Evaluation.Course
import Blockscript.Proofs.Evaluation.Enough
import Blockscript.Proofs.Store.Bodies

/-!
# Trees with other parentheses

The value of an expression in parentheses is that of the expression. So two trees that are the same
but for parentheses around expressions do the same, though one of them needs more steps: one more
for every pair of parentheses that it meets. The bodies of functions are in the store, where
they may differ in parentheses as well. In everything else the states of both runs are the same.

* `Node.IsRegrouping`: relations of trees that differ in parentheses alone, no two pairs around one
  expression;
* `State.Resembles`: states that differ in the bodies of functions alone;
* `Evaluation.Simulates`: a step that does the same as another one, if that has enough steps;
* `isCongruence_simulates`, `simulates_callFunction`: constructs and calls;
* `simulates_steps`: twice the number of steps is enough;
* `endsLike_runProgram`: programs.
-/

namespace Blockscript

open Node Evaluation

/-- A relation of trees that differ in parentheses alone, with a wider one for the places of
    expressions, where one tree may have a pair of parentheses that the other one has not. -/
structure Node.IsRegrouping (Q X : Node → Node → Prop) : Prop where
  matched {m n : Node} : X m n → m.Matches Q X n
  expression {m n : Node} : X m n → Q m n
  grouped {m n : Node} : Q m n → X m n ∨ (∃ e, m = .group e ∧ n ≠ .absent ∧ X e n) ∨
    ∃ e, n = .group e ∧ m ≠ .absent ∧ X m e

/-- A state that is the same as another one but for the bodies of functions. -/
structure State.Resembles (X : Node → Node → Prop) (s t : State) : Prop where
  store : s.store.Resembles X t.store
  current : s.current = t.current
  output : s.output = t.output
  level : s.level = t.level
  log : s.log = t.log
  logIsOpen : s.logIsOpen = t.logIsOpen
  digitLimit : s.digitLimit = t.digitLimit

variable {Q X : Node → Node → Prop} {s t : State}

namespace Node.IsRegrouping

/-- Two trees of which one is the other regrouped have matching parts. -/
theorem isMatching (hX : IsRegrouping Q X) : IsMatching Q X where
  matched := hX.matched
  expression := hX.expression
  absent_iff {m n} h := by
    rcases hX.grouped h with h | ⟨e, rfl, hn, -⟩ | ⟨e, rfl, hm, -⟩
    · exact (hX.matched h).absent_iff
    · exact ⟨nofun, fun h => absurd h hn⟩
    · exact ⟨fun h => absurd h hm, nofun⟩

/-- Regrouping may be undone. -/
theorem swap (hX : IsRegrouping Q X) : IsRegrouping (fun n m => Q m n) (fun n m => X m n) where
  matched h := (hX.matched h).swap
  expression h := hX.expression h
  grouped h := by
    rcases hX.grouped h with h | h | h
    · exact .inl h
    · exact .inr (.inr h)
    · exact .inr (.inl h)

end Node.IsRegrouping

namespace State.Resembles

/-- A state resembles itself, with nothing regrouped. -/
theorem refl (hX : ∀ n, X n n) (s : State) : s.Resembles X s :=
  ⟨.refl hX s.store, rfl, rfl, rfl, rfl, rfl, rfl⟩

theorem swap (h : s.Resembles X t) : t.Resembles (fun n m => X m n) s :=
  ⟨h.store.swap, h.current.symm, h.output.symm, h.level.symm, h.log.symm, h.logIsOpen.symm,
    h.digitLimit.symm⟩

/-- The same is done to the stores, in the same scope. -/
theorem moved (h : s.Resembles X t) {a b : Store} (hstore : a.Resembles X b) {c d : ScopeId}
    (hcurrent : c = d) :
    State.Resembles X { s with store := a, current := c } { t with store := b, current := d } :=
  ⟨hstore, hcurrent, h.output, h.level, h.log, h.logIsOpen, h.digitLimit⟩

/-- States that resemble each other do so after the same line is printed. -/
theorem print (h : s.Resembles X t) (line : String) :
    (s.print line).Resembles X (t.print line) :=
  ⟨h.store, h.current, congrArg (· ++ line ++ "\n") h.output, h.level, h.log, h.logIsOpen,
    h.digitLimit⟩

theorem record (h : s.Resembles X t) (e : Event) : (s.record e).Resembles X (t.record e) := by
  rw [State.record, State.record, h.logIsOpen]
  split
  · exact ⟨h.store, h.current, h.output, h.level, congrArg (e :: ·) h.log, rfl, h.digitLimit⟩
  · exact h.print e.text

theorem closeLog (h : s.Resembles X t) : s.closeLog.Resembles X t.closeLog :=
  ⟨h.store, h.current, h.output, h.level, h.log, rfl, h.digitLimit⟩

/-- The scope that a call opens is the same in both states. -/
theorem entered (h : s.Resembles X t) (closure : ScopeId) :
    (s.entered closure).Resembles X (t.entered closure) :=
  h.moved (h.store.addScope _) (congrArg Array.size h.store.scopes)

end State.Resembles

/-- Related ends are ends with the same value, or for the same reason. -/
theorem EndsRelated.value {α : Type} {T : State → State → Prop} {x y : EStateM.Result Halt State α}
    (h : EndsRelated T x y) : valueOf x = valueOf y := by
  cases h <;> rfl

theorem EndsRelated.changing {α : Type} {T : State → State → Prop} {f : State → State}
    (hf : ∀ {s t}, T s t → T (f s) (f t)) {x y : EStateM.Result Halt State α}
    (h : EndsRelated T x y) : EndsRelated T (changing f x) (changing f y) := by
  cases h with
  | ok a hst => exact .ok a (hf hst)
  | error h hst => exact .error h (hf hst)

namespace Evaluation

variable {α β : Type} {q p : Evaluation α}

/-- From two states that differ in the bodies of functions alone, a step ends in the same way as
    another one, if that does not run out of steps. -/
def Simulates (X : Node → Node → Prop) (q p : Evaluation α) : Prop :=
  ∀ s t : State, s.Resembles X t → valueOf (p.run t) ≠ .error .outOfSteps →
    EndsRelated (State.Resembles X) (q.run s) (p.run t)

/-! ### Single steps -/

namespace Simulates

/-- Nothing is to be said of a step that runs out of steps. -/
theorem outOfSteps : Simulates X q (MonadExcept.throw .outOfSteps) :=
  fun _ _ _ hsteps => absurd rfl hsteps

theorem pure (a : α) : Simulates X (Pure.pure a) (Pure.pure a) :=
  fun _ _ hst _ => .ok a hst

/-- Both runs stop for the same reason. -/
theorem throw (h : Halt) :
    Simulates X (MonadExcept.throw h : Evaluation α) (MonadExcept.throw h) :=
  fun _ _ hst _ => .error h hst

/-- Steps one after the other go on with the same value in both runs. -/
theorem bind {g f : α → Evaluation β} (hp : Simulates X q p) (hf : ∀ a, Simulates X (g a) (f a)) :
    Simulates X (q >>= g) (p >>= f) := by
  intro s t hst hsteps
  have hends := hp s t hst
  rw [EStateM.run_bind] at hsteps
  rw [EStateM.run_bind, EStateM.run_bind]
  generalize q.run s = x, p.run t = y at hsteps hends
  cases y with
  | ok a t =>
    cases hends nofun with
    | ok _ hst => exact hf a _ _ hst hsteps
  | error h t =>
    cases hends (valueOf_error_ne hsteps) with
    | error _ hst => exact .error h hst

/-- A step on the store goes the same way in both runs, as it does not look into the bodies of
    functions. -/
theorem storing {step : Storing α} (h : step.IgnoresBodies X) :
    Simulates X (Evaluation.storing step) (Evaluation.storing step) := by
  intro s t hst _
  have hends := h _ _ hst.store
  rw [run_storing, run_storing]
  generalize step.run s.store = x, step.run t.store = y at hends
  cases hends with
  | ok a hstore => exact .ok a (hst.moved hstore hst.current)
  | error e hstore => exact .error _ (hst.moved hstore hst.current)

/-- The current scope is the same in both runs. -/
theorem getCurrent {g f : ScopeId → Evaluation α} (h : ∀ c, Simulates X (g c) (f c)) :
    Simulates X (do g (← get).current) (do f (← get).current) := by
  intro s t hst
  have hrun : (do g (← get).current : Evaluation α).run s = (g s.current).run s := rfl
  rw [hrun, hst.current]
  exact h t.current s t hst

theorem checkName (name : Label) :
    Simulates X (Evaluation.checkName name) (Evaluation.checkName name) := by
  rw [Evaluation.checkName]
  split
  · exact .pure ()
  · exact .throw _

/-- A step on the store for a name, in the current scope. -/
theorem named (name : Label) {step : ScopeId → Storing α} (h : ∀ c, (step c).IgnoresBodies X) :
    Simulates X (do Evaluation.checkName name; Evaluation.storing (step (← get).current))
      (do Evaluation.checkName name; Evaluation.storing (step (← get).current)) :=
  (checkName name).bind fun _ => getCurrent fun c => storing (h c)

/-- What is logged is the same in both runs: an event tells values and names, no bodies. -/
theorem logFrom {event' event : Evaluation Event} (h : Simulates X event' event) (level : Nat) :
    Simulates X (Evaluation.logFrom level event') (Evaluation.logFrom level event) := by
  intro s t hst hsteps
  have hends := h s t hst
  rw [run_logFrom] at hsteps
  rw [run_logFrom, run_logFrom, hst.level]
  split at hsteps
  · next hlevel =>
    rw [if_pos hlevel, if_pos hlevel]
    generalize event'.run s = x, event.run t = y at hsteps hends
    cases y with
    | ok e t =>
      cases hends nofun with
      | ok _ hst => exact .ok _ (hst.record e)
    | error h t =>
      cases hends (valueOf_error_ne hsteps) with
      | error _ hst => exact .error h hst
  · next hlevel =>
    rw [if_neg hlevel, if_neg hlevel]
    exact .ok _ hst

theorem checkDigits (exceeds : Nat → Bool) :
    Simulates X (Evaluation.checkDigits exceeds) (Evaluation.checkDigits exceeds) := by
  intro s t hst _
  rw [run_checkDigits, run_checkDigits, hst.digitLimit]
  split
  · exact .error _ hst
  · exact .ok () hst

/-- The text of a value is the same in both runs, as a function is shown by its name and its number
    of parameters. -/
theorem textOf (v : Value) : Simulates X (Evaluation.textOf v) (Evaluation.textOf v) := by
  intro s t hst _
  rw [Evaluation.textOf, EStateM.run_bind, EStateM.run_bind, EStateM.run_get, EStateM.run_get]
  simp only [hst.store.display]
  cases t.store.display v with
  | ok text => exact .ok text hst
  | error h => exact .error h hst

theorem inScope (h : Simulates X q p) (closure : ScopeId) :
    Simulates X (do within (← newScope (some closure)) q)
      (do within (← newScope (some closure)) p) := by
  intro s t hst hsteps
  rw [run_within_newScope, valueOf_returning] at hsteps
  have hends := h _ _ (hst.entered closure) hsteps
  rw [run_within_newScope, run_within_newScope]
  generalize q.run (s.entered closure) = x, p.run (t.entered closure) = y at hends
  cases hends with
  | ok a h => exact .ok a (h.moved h.store hst.current)
  | error e h => exact .error e (h.moved h.store hst.current)

theorem closingLog (h : Simulates X q p) :
    Simulates X (Evaluation.closingLog q) (Evaluation.closingLog p) := by
  intro s t hst hsteps
  rw [run_closingLog_eq, valueOf_changing] at hsteps
  rw [run_closingLog_eq, run_closingLog_eq]
  exact (h s t hst hsteps).changing State.Resembles.closeLog

end Simulates

/-- The relation between runs is kept by all that an evaluation is made of. -/
theorem isCongruence_simulates : IsCongruence (fun {_} => Simulates X) where
  pure := .pure
  throw := .throw
  bind := .bind
  logFrom h _ := h.logFrom _
  print line _ _ hst _ := .ok _ (hst.print line)
  checkDigits := .checkDigits
  textOf := .textOf
  getField id field := (Simulates.checkName field).bind fun _ =>
    .storing (Store.ignoresBodies_getField field id)
  setField id field v := (Simulates.checkName field).bind fun _ =>
    .storing (Store.ignoresBodies_setField field id v)
  lookupMethod id name arity := (Simulates.checkName name).bind fun _ =>
    .storing (Store.ignoresBodies_lookupMethod name id arity)
  readVariable name := (Simulates.checkName name).bind fun _ => .getCurrent fun c =>
    (Simulates.storing (Store.ignoresBodies_lookupVariable c name)).bind fun v => .pure v.value
  assignVariable name v := .named name fun c => Store.ignoresBodies_assignVariable c name v
  lookupFunction name arity := .named name fun c => Store.ignoresBodies_lookupFunction c name arity
  inNewScope h := .getCurrent fun c => h.inScope c
  defineVariable name isConstant v :=
    .named name fun c => Store.ignoresBodies_defineVariable c ⟨name, isConstant, v⟩

/-! ### Calls and programs -/

/-- Functions are in the same places. Where one is defined by a program, the bodies in the two
    stores are related. -/
theorem simulates_callFunction {x' x : (depth : Nat) → Node → Evaluation Outcome}
    (hx : ∀ depth {m n}, X m n → Simulates X (x' depth m) (x depth n)) (depth : Nat)
    (id : FunctionId) (arguments : List Value) :
    Simulates X (callFunction x' depth id arguments) (callFunction x depth id arguments) := by
  have hR := isCongruence_simulates (X := X)
  intro s t hst
  have hfound : ∀ {f g : Option Function}, Option.Rel (Function.Resembles X) f g →
      Simulates X (callFound x' depth arguments f) (callFound x depth arguments g) := by
    intro f g hfg
    cases hfg with
    | none => exact .throw _
    | some hfg =>
      cases hfg with
      | host _ _ action => exact hR.perform (action.respond arguments)
      | defined name parameters closure hbody =>
        cases depth with
        | zero => exact .throw _
        | succ depth =>
          have hall := hR.executeAll_of_forall₂ (hbody.imp fun _ _ h => hx depth h)
          exact hR.callDefined (((hR.bindParameters parameters arguments).bind fun _ =>
            hall).inScope closure)
  exact hfound (hst.store.function id) s t hst

/-- The functions that are defined in both runs have bodies that match. -/
theorem simulates_defineFunction (name : Label) (arity : Int) {f g : Function}
    (hfg : f.Resembles X g) :
    Simulates X (defineFunction name arity f) (defineFunction name arity g) := by
  intro s t hst
  -- The name is bound to the place of the function, which is the same in both stores.
  have hrun : ∀ f (u : State), (defineFunction name arity f).run u = (do
      checkName name
      storing (Store.defineFunction (← get).current ⟨name, arity, u.store.functions.size⟩)).run
        { u with store := u.store.addFunction f } := fun _ _ => rfl
  rw [hrun, hrun, hst.store.size_functions]
  exact Simulates.named name (fun c => Store.ignoresBodies_defineFunction c _) _ _
    (hst.moved (hst.store.addFunction hfg) hst.current)

theorem simulates_declareMethod (hX : IsRegrouping Q X) {m n : Node} (h : X m n) :
    Simulates X (declareMethod m) (declareMethod n) := by
  cases hX.matched h with
  | method name parameters hstatements =>
    have hR := isCongruence_simulates (X := X)
    exact .getCurrent fun scope => (simulates_defineFunction name _
      (.defined name parameters scope hstatements)).bind fun _ =>
        (Simulates.pure _).logFrom _
  | _ => exact .throw _

/-- A pair of parentheses takes a step. If a tree has some that the other one has not, then there
    is none directly inside of it. By induction on the number of steps. -/
theorem simulates_steps (hX : IsRegrouping Q X) (steps : Nat) :
    (∀ more depth {m n}, Q m n →
      Simulates X (evaluate (2 * steps + more) depth m) (evaluate steps depth n)) ∧
    (∀ more depth {m n}, X m n →
      Simulates X (execute (2 * steps + more) depth m) (execute steps depth n)) ∧
    ∀ more depth id arguments, Simulates X (invoke (2 * steps + more) depth id arguments)
      (invoke steps depth id arguments) := by
  have hR := isCongruence_simulates (X := X)
  have hmatching := hX.isMatching
  -- By induction on the steps of the tree without parentheses. The other one may spend a step on
  -- each pair, so twice as many are always enough.
  induction steps with
  | zero =>
    simp only [evaluate.eq_def 0, execute.eq_def 0, invoke.eq_def 0]
    exact ⟨fun _ _ _ _ _ => .outOfSteps, fun _ _ _ _ _ => .outOfSteps,
      fun _ _ _ _ => .outOfSteps⟩
  | succ steps ih =>
    obtain ⟨hevaluate, hexecute, hinvoke⟩ := ih
    have hmatched : ∀ more depth {m n}, X m n → Simulates X
        (evaluate (2 * steps + more + 1) depth m) (evaluate (steps + 1) depth n) := by
      intro more depth m n h
      rw [evaluate, evaluate]
      exact hR.evaluateNode_of_matches hmatching (hevaluate more depth) (hinvoke more depth)
        (hX.matched h)
    have htwo : ∀ more, 2 * (steps + 1) + more = 2 * steps + (more + 1) + 1 := by
      omega
    refine ⟨fun more depth m n h => ?_, fun more depth m n h => ?_,
      fun more depth id arguments => ?_⟩
    · rw [htwo]
      rcases hX.grouped h with h | ⟨e, rfl, -, h⟩ | ⟨e, rfl, -, h⟩
      · exact hmatched (more + 1) depth h
      · -- The parentheses take the step that is left over.
        rw [evaluate]
        exact hmatched more depth h
      · -- Only the other evaluation takes a step here, so that two more are left over.
        rw [evaluate.eq_def (steps + 1)]
        exact hevaluate (more + 2) depth (hX.expression h)
    · rw [htwo, execute, execute]
      have hrounds : 2 * steps + (more + 1) = steps + (steps + (more + 1)) := by omega
      have h := hR.executeNode_of_matches hmatching (hevaluate (more + 1) depth)
        (hexecute (more + 1) depth) steps (steps + (more + 1)) (fun _ _ _ => .outOfSteps)
        (hX.matched h)
      rw [← hrounds] at h
      exact h
    · rw [htwo, invoke, invoke]
      exact simulates_callFunction (hexecute (more + 1)) depth id arguments

/-- The regrouped program runs with twice the steps, as each level of nesting may be one of a group,
    too. -/
theorem simulates_runProgram (hX : IsRegrouping Q X) {m n : Node} (h : X m n) (limits : Limits) :
    Simulates X (runProgram ⟨limits.depth, 2 * limits.steps⟩ m) (runProgram limits n) := by
  have hR := isCongruence_simulates (X := X)
  obtain ⟨hevaluate, -, hinvoke⟩ := simulates_steps hX limits.steps
  refine Simulates.closingLog ?_
  cases hX.matched h with
  | program hfields hmethods =>
    refine (hR.forM_of_forall₂ (hfields.imp fun _ _ h => ?_)).bind fun _ =>
      (hR.forM_of_forall₂ (hmethods.imp fun _ _ h => simulates_declareMethod hX h)).bind fun _ =>
        (hR.lookupFunction _ _).bind fun main => hinvoke 0 limits.depth main []
    exact hR.declareNode_of_matches hX.isMatching (hevaluate 0 limits.depth) (hX.matched h)
  | _ => exact .throw _

/-- Two evaluations end in the same way, in states that are the same but for the bodies of
    functions, or neither of them ends. -/
structure EndsLike (X : Node → Node → Prop) (q p : (steps : Nat) → Evaluation α) (s : State) :
    Prop where
  forward {x : EStateM.Result Halt State α} : Ends p s x →
    ∃ y, Ends q s y ∧ EndsRelated (State.Resembles X) y x
  backward {y : EStateM.Result Halt State α} : Ends q s y →
    ∃ x, Ends p s x ∧ EndsRelated (State.Resembles X) y x

/-- However one of the programs ends, the other one ends alike. -/
theorem exists_ends_runProgram (hX : IsRegrouping Q X) {m n : Node} (h : X m n) (depth : Nat)
    (hst : s.Resembles X t) {x : EStateM.Result Halt State Value}
    (hx : Ends (fun steps => runProgram ⟨depth, steps⟩ n) t x) :
    ∃ y, Ends (fun steps => runProgram ⟨depth, steps⟩ m) s y ∧
      EndsRelated (State.Resembles X) y x := by
  obtain ⟨hsteps, steps, hx⟩ := hx
  have hrun : (runProgram ⟨depth, steps⟩ n).run t = x := hx 0
  have hends := simulates_runProgram hX h ⟨depth, steps⟩ s t hst
  rw [hrun] at hends
  -- Twice the steps are enough, and so more do not matter.
  refine ⟨_, (steady_runProgram depth m).ends rfl ?_, hends hsteps⟩
  rw [(hends hsteps).value]
  exact hsteps

/-- Programs that differ in parentheses alone end in the same way. -/
theorem endsLike_runProgram (hX : IsRegrouping Q X) {m n : Node} (h : X m n) (depth : Nat)
    (hs : s.Resembles X s) : EndsLike X (fun steps => runProgram ⟨depth, steps⟩ m)
      (fun steps => runProgram ⟨depth, steps⟩ n) s where
  forward hx := exists_ends_runProgram hX h depth hs hx
  backward hy := by
    obtain ⟨x, hx, hends⟩ := exists_ends_runProgram hX.swap h depth hs.swap hy
    exact ⟨x, hx, hends.swap State.Resembles.swap⟩

end Evaluation

end Blockscript
