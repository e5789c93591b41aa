import Blockscript.Proofs.Evaluation.Limits
import Blockscript.Proofs.Evaluation.Lockstep
import Blockscript.Proofs.Syntax.Program

/-!
# Lexical scopes

What a statement or an expression does in a run of a program depends on the chain of its
scope and on the output so far, and it changes no other scope that was there before. A call
depends on its arguments and on the globals alone: the variables of the caller are neither
read nor changed, however the call ends.

* `Indifferent`: steps that do not depend on the current scope, as calls are;
* `Reaches.isScoped`: all states that a run reaches are states of a run, as `State.IsScoped`
  has it;
* `SameEffect`: steps from two states with the same effect on a chain;
* `ActsAlike`: the same, for all limits that can be compared;
* `parseSource_isLexical`: the states that the run of a text reaches.
-/

namespace Blockscript

open Node

variable {k : Setting} {s s' t : State}

namespace Evaluation

variable {α β : Type}

/-! ### Calls do not depend on the current scope -/

/-- A step does the same in any scope. -/
def Indifferent (p : Evaluation α) : Prop :=
  ∀ s c, p.run { s with current := c } = returning c (p.run s)

namespace Indifferent

variable {p : Evaluation α} {f : α → Evaluation β}

theorem pure (a : α) : Indifferent (Pure.pure a : Evaluation α) :=
  fun _ _ => rfl

theorem throw (h : Halt) : Indifferent (MonadExcept.throw h : Evaluation α) :=
  fun _ _ => rfl

/-- Steps one after the other, neither of which looks at the current scope. -/
theorem bind (hp : Indifferent p) (hf : ∀ a, Indifferent (f a)) : Indifferent (p >>= f) := by
  intro s c
  rw [EStateM.run_bind, EStateM.run_bind, hp s c]
  cases p.run s with
  | ok a t => exact hf a t c
  | error h t => rfl

/-- What is read of a state may decide, if it is not its current scope. -/
theorem get {f : State → Evaluation α} (hcongr : ∀ s c, f { s with current := c } = f s)
    (hf : ∀ s, Indifferent (f s)) : Indifferent (MonadState.get >>= f) := by
  intro s c
  have hrun : (MonadState.get >>= f).run { s with current := c } =
      (f s).run { s with current := c } := by
    rw [← hcongr s c]
    rfl
  rw [hrun, hf s s c]
  rfl

/-- A change of the state may leave the current scope alone. -/
theorem of_modify {g : State → State}
    (hg : ∀ s c, g { s with current := c } = { g s with current := c }) :
    Indifferent (modify g : Evaluation PUnit) :=
  fun s c => congrArg (EStateM.Result.ok PUnit.unit) (hg s c)

theorem checkName (name : Label) : Indifferent (checkName name) := by
  rw [Evaluation.checkName]
  split
  · exact .pure ()
  · exact .throw _

/-- A step on the store that is told in advance which scopes to use. -/
theorem storing (step : Storing α) : Indifferent (storing step) := by
  intro s c
  rw [run_storing, run_storing]
  simp only
  cases step.run s.store <;> rfl

theorem checkDigits (exceeds : Nat → Bool) : Indifferent (checkDigits exceeds) := by
  refine .get (fun _ _ => rfl) fun s => ?_
  split
  · exact .throw _
  · exact .pure _

theorem textOf (v : Value) : Indifferent (textOf v) := by
  refine .get (fun _ _ => rfl) fun s => ?_
  split
  · exact .pure _
  · exact .throw _

theorem logFrom {level : Nat} {event : Evaluation Event} (h : Indifferent event) :
    Indifferent (logFrom level event) := by
  refine .get (fun _ _ => rfl) fun s => ?_
  split
  · refine h.bind fun e => .of_modify fun s c => ?_
    simp only [State.record]
    split <;> rfl
  · exact .pure ()

/-- A new scope inside a given one is the same wherever it is entered from. -/
theorem within (q : ScopeId) :
    Indifferent (do Evaluation.within (← newScope (some q)) p) := by
  intro s c
  rw [run_within_newScope, run_within_newScope]
  change returning c (p.run (s.entered q)) = _
  cases p.run (s.entered q) <;> rfl

/-- A step that is related to itself if it is indifferent: what is made of such steps is. -/
theorem isCompatible : IsCompatible (fun {_} p' p => p' = p ∧ Indifferent p) where
  pure a := ⟨rfl, pure a⟩
  throw h := ⟨rfl, throw h⟩
  bind := by
    rintro _ _ p _ f' f ⟨rfl, hp⟩ hf
    obtain rfl : f' = f := funext fun a => (hf a).1
    exact ⟨rfl, hp.bind fun a => (hf a).2⟩
  logFrom := by
    rintro _ _ _ ⟨rfl, h⟩ _
    exact ⟨rfl, h.logFrom⟩
  print line := ⟨rfl, of_modify fun _ _ => rfl⟩
  checkDigits exceeds := ⟨rfl, checkDigits exceeds⟩
  textOf v := ⟨rfl, textOf v⟩
  getField id field := ⟨rfl, (checkName field).bind fun _ => storing _⟩
  setField id field v := ⟨rfl, (checkName field).bind fun _ => storing _⟩
  lookupMethod id name arity := ⟨rfl, (checkName name).bind fun _ => storing _⟩

/-- A call opens a scope inside the one where its function was defined, not inside the current one.
    -/
theorem callDefined (name : Label) (parameters : List Label) (closure : ScopeId)
    (body : Evaluation Outcome) (arguments : List Value) :
    Indifferent (callDefined name parameters closure body arguments) :=
  (isCompatible.callDefined ⟨rfl, within closure⟩).2

/-- A call does the same wherever it is made: its body runs inside the scope where the
    function was defined. -/
theorem invoke (steps depth : Nat) (id : FunctionId) (arguments : List Value) :
    Indifferent (invoke steps depth id arguments) := by
  cases steps with
  | zero =>
    rw [Evaluation.invoke]
    exact .throw _
  | succ steps =>
    rw [Evaluation.invoke]
    refine .get (fun _ _ => rfl) fun s => ?_
    split
    · exact (isCompatible.perform _).2
    · cases depth with
      | zero => exact .throw _
      | succ depth => exact callDefined _ _ _ _ arguments
    · exact .throw _

end Indifferent

/-! ### The states of a run -/

/-- A run begins in the globals, with no function of a program. -/
theorem isScoped_start (methods : List Node) (level : Nat) :
    (State.start .standard Store.standardScope level).IsScoped ⟨methods, level⟩ := by
  refine ⟨Store.isOrdered_addScope Store.isOrdered_standard Nat.zero_lt_one, Nat.one_lt_two, ?_,
    rfl, rfl, rfl, rfl, rfl, rfl⟩
  exact Store.mem_chain_self _ _

/-- The state after a method is bound in the current scope. -/
def defined (n : Node) (b : FunctionBinding) (s : State) : State :=
  { s with store := (s.store.addFunction n.function).updateScope s.current (·.addFunction b) }

/-- A method is bound in the globals, after those that are there. -/
theorem functions_defined (hs : s.IsScoped k) (hcurrent : s.current = Store.globals) (n : Node)
    (b : FunctionBinding) : ((defined n b s).store.scope Store.globals).functions =
      (s.store.scope Store.globals).functions ++ [b] := by
  have hlt := hs.current_lt
  obtain ⟨⟨scopes, functions, objects⟩, current, output, level, log, logIsOpen, digitLimit⟩ := s
  subst hcurrent
  simp only [defined, Store.scope_updateScope]
  rw [if_pos ⟨trivial, hlt⟩]
  rfl

/-- The globals bind one more of the methods. -/
theorem isScoped_defined (hs : s.IsScoped k) (hcurrent : s.current = Store.globals)
    {done rest : List Node} {n : Node} (hmethods : k.methods = done ++ n :: rest)
    (hlength : (s.store.scope Store.globals).functions.length = done.length)
    (b : FunctionBinding) : (defined n b s).IsScoped k := by
  have hparent : ∀ i, ((defined n b s).store.scope i).parent = (s.store.scope i).parent :=
    fun _ => Store.parent_updateScope (g := (·.addFunction b)) (fun _ => rfl) s.current
  have hfunctions := hs.functions
  rw [hlength, hmethods, List.take_left] at hfunctions
  refine ⟨?_, ?_, ?_, ?_, ?_, hs.objects, hs.level, hs.logIsOpen, hs.digitLimit⟩
  · exact fun i p hp => hs.isOrdered i p ((hparent i).symm.trans hp)
  · exact Nat.lt_of_lt_of_eq hs.current_lt (Store.size_updateScope _ _ _).symm
  · have hchain : (defined n b s).store.chain s.current = s.store.chain s.current :=
      Store.chain_congr fun i _ => hparent i
    exact hchain ▸ hs.globals_mem
  · exact (hparent _).trans hs.globals_parent
  · have htake : (done ++ n :: rest).take (done.length + 1) = done ++ [n] := by
      rw [List.append_cons]
      exact List.take_left' List.length_append
    have hpush : (defined n b s).store.functions.toList =
        s.store.functions.toList ++ [n.function] := Array.toList_push
    rw [functions_defined hs hcurrent, List.length_append, hlength, hmethods,
      List.length_singleton, htake, hpush, hfunctions, List.map_append]
    rfl

/-- What it means to declare a method, in terms of the state. -/
theorem run_declareMethod (name : String) (parameters : List Label) (statements : List Node)
    (hcurrent : s.current = Store.globals) :
    (declareMethod (.method (.text name) parameters statements)).run s =
      if ((s.store.scope s.current).findFunction? (.text name) parameters.length).isSome then
        .error (.error (.functionRedefinition (.text name) parameters.length))
          { s with store := s.store.addFunction (.defined (.text name) parameters statements
              Store.globals) }
      else
        (logFrom Event.declarationLevel (return .define (.text name) parameters.length)).run
          (defined (.method (.text name) parameters statements)
            ⟨.text name, parameters.length, s.store.functions.size⟩ s) := by
  obtain ⟨store, current, output, level, log, logIsOpen, digitLimit⟩ := s
  subst hcurrent
  have hrun : (declareMethod (.method (.text name) parameters statements)).run
        ⟨store, Store.globals, output, level, log, logIsOpen, digitLimit⟩ =
      (storing (Store.defineFunction Store.globals
          ⟨.text name, parameters.length, store.functions.size⟩) >>= fun _ =>
        logFrom Event.declarationLevel (return .define (.text name) parameters.length)).run
        ⟨store.addFunction (.defined (.text name) parameters statements Store.globals),
          Store.globals, output, level, log, logIsOpen, digitLimit⟩ := rfl
  have hscope : ∀ f i, (store.addFunction f).scope i = store.scope i := fun _ _ => rfl
  rw [hrun, EStateM.run_bind, run_storing, Store.run_defineFunction, hscope]
  by_cases hfound : ((store.scope Store.globals).findFunction? (.text name)
      parameters.length).isSome
  · simp only [if_pos hfound]
  · simp only [if_neg hfound]
    rfl

/-- A method is bound in the globals when it is declared. -/
theorem isScoped_declareMethod {done rest : List Node} {n : Node} (hn : IsMethod n)
    (hmethods : k.methods = done ++ n :: rest) (hs : s.IsScoped k)
    (hcurrent : s.current = Store.globals)
    (hlength : (s.store.scope Store.globals).functions.length = done.length) {a : Unit}
    (h : (declareMethod n).run s = .ok a t) : t.IsScoped k ∧ t.current = Store.globals ∧
      (t.store.scope Store.globals).functions.length = (done ++ [n]).length := by
  obtain @⟨name, parameters, statements, _, _, _⟩ := hn
  rw [run_declareMethod _ _ _ hcurrent] at h
  split at h
  · cases h
  · have hscoped := isScoped_defined hs hcurrent hmethods hlength
      ⟨.text name, (parameters.map Label.text).length, s.store.functions.size⟩
    have hevent : Uniform k
        (pure (.define (.text name) (parameters.map Label.text).length) : Evaluation Event) :=
      .pure _
    have hleads := (@lockstep_logFrom _ Event.declarationLevel _ _ hevent).leads hscoped
    rw [h] at hleads
    refine ⟨hleads.isScoped, hleads.current.trans hcurrent, ?_⟩
    have hfunctions := hleads.functions _ (hscoped.lt_of_mem hscoped.globals_mem)
    rw [functions_defined hs hcurrent] at hfunctions
    rw [stateAfter] at hfunctions
    rw [hfunctions, List.length_append, List.length_append, hlength]
    rfl

/-- Methods are bound one after the other. -/
theorem isScoped_declareMethods {done rest : List Node} (hrest : ∀ n ∈ rest, IsMethod n)
    (hmethods : k.methods = done ++ rest) (hs : s.IsScoped k) (hcurrent : s.current = Store.globals)
    (hlength : (s.store.scope Store.globals).functions.length = done.length) {a : PUnit}
    (h : (rest.forM declareMethod).run s = .ok a t) : t.IsScoped k := by
  induction rest generalizing done s with
  | nil =>
    cases h
    exact hs
  | cons n rest ih =>
    rw [List.forall_mem_cons] at hrest
    have hbind : (declareMethod n >>= fun _ => rest.forM declareMethod).run s = .ok a t := h
    rw [EStateM.run_bind] at hbind
    cases hn : (declareMethod n).run s with
    | error e u =>
      rw [hn] at hbind
      cases hbind
    | ok b u =>
      rw [hn] at hbind
      obtain ⟨hu, hcurrent', hlength'⟩ :=
        isScoped_declareMethod hrest.1 hmethods hs hcurrent hlength hn
      exact ih hrest.2 (hmethods.trans (List.append_cons _ _ _)) hu hcurrent' hlength' hbind

section Program

variable {P : State → Bool} {fields methods : List Node} {level : Nat}
  (hP : ∀ s : State, s.IsScoped ⟨methods, level⟩ → P s) (limits : Limits)

include hP

/-- Fields are declared in the globals, before any method is bound. -/
theorem run_declareFields (fields : List Node) :
    let start := State.start .standard Store.standardScope level
    (fields.forM (declareFieldGuarded P limits)).run start =
        (fields.forM (declareField limits)).run start ∧
      start.Leads ⟨methods, level⟩
        (stateAfter ((fields.forM (declareField limits)).run start)) := by
  obtain ⟨hevaluate, -, -⟩ := lockstep_steps hP limits.steps
  have hfields : Lockstep ⟨methods, level⟩ (fields.forM (declareFieldGuarded P limits))
      (fields.forM (declareField limits)) :=
    isCongruence_lockstep.forM fun n =>
      Lockstep.guarded hP (isCongruence_lockstep.declareNode (hevaluate limits.depth) n)
  have hstart := isScoped_start methods level
  exact ⟨(hfields _ _ hstart hstart (.refl _)).1, hfields.leads hstart⟩

/-- The methods are bound between two phases that go in lockstep: the declaration of the
    fields, and the call of `main`. -/
theorem run_runNode_guarded (hmethods : ∀ m ∈ methods, IsMethod m) :
    let start := State.start .standard Store.standardScope level
    let run :=
      (runNode (declareField limits) (invokeWithin limits) (.program fields methods)).run start
    (runNode (declareFieldGuarded P limits) (invokeGuarded P limits.steps limits.depth)
        (.program fields methods)).run start = run ∧
      ∀ v s, run = .ok v s → s.IsScoped ⟨methods, level⟩ := by
  -- Fields and methods are declared alike with and without the guard; from the call of main on, the
  -- two runs go in lockstep.
  obtain ⟨-, -, hinvoke⟩ := lockstep_steps hP limits.steps
  obtain ⟨hfields, hleads⟩ := run_declareFields hP limits fields
  simp only [runNode]
  rw [EStateM.run_bind, EStateM.run_bind, hfields]
  cases hdeclared : (fields.forM (declareField limits)).run
      (State.start .standard Store.standardScope level) with
  | error e s => exact ⟨rfl, nofun⟩
  | ok _ s =>
    rw [hdeclared] at hleads
    simp only
    rw [EStateM.run_bind, EStateM.run_bind]
    cases hbound : (methods.forM declareMethod).run s with
    | error e t => exact ⟨rfl, nofun⟩
    | ok _ t =>
      have hlength : (s.store.scope Store.globals).functions.length = 0 :=
        congrArg List.length (hleads.functions Store.globals Nat.one_lt_two)
      have hscoped : t.IsScoped ⟨methods, level⟩ := isScoped_declareMethods hmethods
        (List.nil_append methods).symm hleads.isScoped hleads.current hlength hbound
      have hmain : Lockstep ⟨methods, level⟩
          (lookupFunction (.text "main") 0 >>= (invokeGuarded P limits.steps limits.depth · []))
          (lookupFunction (.text "main") 0 >>= (invokeWithin limits · [])) :=
        (uniform_lookupFunction _ _).bind fun id => hinvoke limits.depth id []
      obtain ⟨heq, halike⟩ := hmain t t hscoped hscoped (.refl _)
      simp only
      refine ⟨heq, fun v u hu => ?_⟩
      have hleft := halike.left.isScoped
      rwa [hu] at hleft

/-- A run does not meet a guard that all its states pass. -/
theorem run_runProgramGuarded {n : Node} (hn : n = .program fields methods)
    (hmethods : ∀ m ∈ methods, IsMethod m) :
    let start := State.start .standard Store.standardScope level
    (runProgramGuarded P limits n).run start = (runProgram limits n).run start := by
  subst hn
  obtain ⟨heq, hend⟩ := @run_runNode_guarded P fields methods level hP limits hmethods
  have hguarded : (guarded P (runNode (declareFieldGuarded P limits)
        (invokeGuarded P limits.steps limits.depth) (.program fields methods))).run
          (State.start .standard Store.standardScope level) =
      (runNode (declareField limits) (invokeWithin limits) (.program fields methods)).run
        (State.start .standard Store.standardScope level) := by
    rw [run_guarded, if_pos (hP _ (isScoped_start methods level)), heq]
    cases hrun : (runNode (declareField limits) (invokeWithin limits) (.program fields methods)).run
        (State.start .standard Store.standardScope level) with
    | error e s => rfl
    | ok v s => exact if_pos (hP s (hend v s hrun))
  intro start
  rw [runProgramGuarded, runProgram, run_closingLog, run_closingLog, hguarded]

end Program

/-- The states that a run reaches, by the guard that is passed by no other states. -/
theorem Reaches.isScoped {limits : Limits} {n : Node} {level : Nat} {fields methods : List Node}
    (hn : n = .program fields methods) (hmethods : ∀ m ∈ methods, IsMethod m)
    (hs : Reaches limits n (.start .standard Store.standardScope level) s) :
    s.IsScoped ⟨methods, level⟩ := by
  classical
  have hpass : ∀ t : State, t.IsScoped ⟨methods, level⟩ → decide (t.IsScoped ⟨methods, level⟩) :=
    fun _ => decide_eq_true
  exact of_decide_eq_true (hs _ (run_runProgramGuarded hpass limits hn hmethods))

/-! ### The same from two states -/

/-- What a step may change: the scopes of a chain, but not which scopes these are. Scopes
    that are made anew may hold anything. -/
structure ChangesOnly (c : ScopeId) (s s' : State) : Prop where
  current : s'.current = s.current
  chain : s'.store.chain c = s.store.chain c
  scope : ∀ i < s.store.scopes.size, i ∉ s.store.chain c → s'.store.scope i = s.store.scope i

/-- Steps from two states end in the same way and with the same output. They change nothing
    but a chain, on which the same is visible afterwards. -/
structure SameEffect (s t : State) (c d : ScopeId) (x y : EStateM.Result Halt State α) : Prop where
  value : valueOf x = valueOf y
  output : (stateAfter x).output = (stateAfter y).output
  visible : (stateAfter x).store.visible c = (stateAfter y).store.visible d
  left : ChangesOnly c s (stateAfter x)
  right : ChangesOnly d t (stateAfter y)

/-- A step has the same effect from two states, with the same limits or with any limits that
    do not end it. -/
def ActsAlike (s t : State) (c d : ScopeId) (p : Limits → Evaluation α) : Prop :=
  ∀ l m : Limits, l = m ∨ Finishes ((p l).run s) ∧ Finishes ((p m).run t) →
    SameEffect s t c d ((p l).run s) ((p m).run t)

/-- Steps that their limits do not end are looked at with limits that are enough for both. -/
theorem actsAlike_of_extends {c d : ScopeId} {p : Limits → Evaluation α}
    (hextends : ∀ (l : Limits) (deeper more : Nat),
      Extends (p ⟨l.depth + deeper, l.steps + more⟩) (p l))
    (h : ∀ l, SameEffect s t c d ((p l).run s) ((p l).run t)) : ActsAlike s t c d p := by
  rintro l m (rfl | ⟨hl, hm⟩)
  · exact h l
  · have heq := hextends l m.depth m.steps s hl
    have heq' := hextends m l.depth l.steps t hm
    rw [Nat.add_comm m.depth, Nat.add_comm m.steps] at heq'
    rw [← heq, ← heq']
    exact h _

/-- In lockstep, only the chain of the current scope changes. -/
theorem Alike.sameEffect (hs : s.IsScoped k) (ht : t.IsScoped k)
    {x y : EStateM.Result Halt State α} (h : Alike k s t x y) :
    SameEffect s t s.current t.current x y := by
  have hvisible := h.agrees.visible
  rw [h.left.current, h.right.current] at hvisible
  exact ⟨h.value, h.agrees.output, hvisible,
    ⟨h.left.current, h.left.chain_eq hs hs.current_lt, h.left.scope⟩,
    ⟨h.right.current, h.right.chain_eq ht ht.current_lt, h.right.scope⟩⟩

/-- A step that does not depend on the current scope has the effect that it would have in the
    globals. -/
theorem Indifferent.sameEffect (hs : s.IsScoped k) (ht : t.IsScoped k) {p : Evaluation α}
    (hp : Indifferent p) (hstep : Uniform k p) (houtput : s.output = t.output)
    (hvisible : s.store.visible Store.globals = t.store.visible Store.globals) :
    SameEffect s t Store.globals Store.globals (p.run s) (p.run t) := by
  obtain ⟨-, halike⟩ := hstep _ _ hs.inGlobals ht.inGlobals ⟨houtput, hvisible⟩
  have heffect := halike.sameEffect hs.inGlobals ht.inGlobals
  rw [hp s, hp t] at heffect
  obtain ⟨hvalue, houtput', hvisible', hleft, hright⟩ := heffect
  rw [valueOf_returning, valueOf_returning] at hvalue
  rw [stateAfter_returning, stateAfter_returning] at houtput' hvisible'
  rw [stateAfter_returning] at hleft hright
  exact ⟨hvalue, houtput', hvisible', ⟨(hstep.leads hs).current, hleft.chain, hleft.scope⟩,
    ⟨(hstep.leads ht).current, hright.chain, hright.scope⟩⟩

/-- In the run of a text, expressions and statements do the same in any two states in which
    the output is the same and the same is visible from the current scope, and they change
    no scopes that are not on its chain. For a call it is enough that the arguments are the
    same and that the same is visible from the globals, and it changes no other scopes. -/
theorem parseSource_isLexical (limits : Limits) {source : String} {n : Node} (level : Nat)
    (hn : parseSource source = .ok n)
    (hs : Reaches limits n (.start .standard Store.standardScope level) s)
    (ht : Reaches limits n (.start .standard Store.standardScope level) t)
    (houtput : s.output = t.output) :
    (s.store.visible s.current = t.store.visible t.current → ∀ node : Node,
      ActsAlike s t s.current t.current (evaluateWithin · node) ∧
        ActsAlike s t s.current t.current (executeWithin · node)) ∧
    (s.store.visible Store.globals = t.store.visible Store.globals →
      ∀ (id : FunctionId) (arguments : List Value),
        ActsAlike s t Store.globals Store.globals (invokeWithin · id arguments)) := by
  have hprogram := parseSource_meets source
  rw [hn] at hprogram
  cases hprogram with
  | @program fields methods _ hmethods =>
    have hs := hs.isScoped rfl hmethods
    have ht := ht.isScoped rfl hmethods
    have hsteps (l : Limits) := lockstep_steps (k := ⟨methods, level⟩) (P := fun _ => true)
      (fun _ _ => rfl) l.steps
    refine ⟨fun hvisible node => ⟨?_, ?_⟩, fun hvisible id arguments => ?_⟩
    · refine actsAlike_of_extends
        (fun l deeper more => (extends_steps l.steps more).1 _ deeper node) fun l => ?_
      exact ((hsteps l).1 l.depth node s t hs ht ⟨houtput, hvisible⟩).2.sameEffect hs ht
    · refine actsAlike_of_extends
        (fun l deeper more => (extends_steps l.steps more).2.1 _ deeper node) fun l => ?_
      exact ((hsteps l).2.1 l.depth node s t hs ht ⟨houtput, hvisible⟩).2.sameEffect hs ht
    · refine actsAlike_of_extends
        (fun l deeper more => (extends_steps l.steps more).2.2 _ deeper id arguments) fun l => ?_
      exact (Indifferent.invoke l.steps l.depth id arguments).sameEffect hs ht
        ((hsteps l).2.2 l.depth id arguments).uniform houtput hvisible

/-- The states before and after a call of an empty `main`: all that is left of the call is a
    scope that nothing refers to. -/
theorem parseSource_isLexical_main :
    let main := Node.method (.text "main") [] []
    let start := State.start .standard Store.standardScope 0
    let s := defined main ⟨.text "main", 0, 1⟩ start
    let t := { s with store := s.store.addScope (some Store.globals) }
    parseSource "DEF main() DO END" = .ok (.program [] [main]) ∧
      Reaches ⟨1, 1⟩ (.program [] [main]) start s ∧ Reaches ⟨1, 1⟩ (.program [] [main]) start t ∧
      s.store.scopes.size ≠ t.store.scopes.size ∧
      (∀ node : Node, ActsAlike s t s.current t.current (evaluateWithin · node) ∧
        ActsAlike s t s.current t.current (executeWithin · node)) ∧
      ∀ (id : FunctionId) (arguments : List Value),
        ActsAlike s t Store.globals Store.globals (invokeWithin · id arguments) := by
  intro main start s t
  have hlex : lex "DEF main() DO END" = .ok [⟨.identifier, "DEF", 0⟩, ⟨.identifier, "main", 4⟩,
      ⟨.operator, "(", 8⟩, ⟨.operator, ")", 9⟩, ⟨.identifier, "DO", 11⟩,
      ⟨.identifier, "END", 14⟩] := by
    decide +kernel
  have hparse : parseSource "DEF main() DO END" = .ok (.program [] [main]) := by
    rw [parseSource, hlex]
    rfl
  -- A guard that changes nothing has let both states pass, the one main is called in and the one
  -- its body leaves.
  have hreached : ∀ P : State → Bool, (runProgramGuarded P ⟨1, 1⟩ (.program [] [main])).run start =
      (runProgram ⟨1, 1⟩ (.program [] [main])).run start → P s ∧ P t := by
    intro P h
    have hnode : (runNode (declareField ⟨1, 1⟩) (invokeWithin ⟨1, 1⟩)
        (.program [] [main])).run start = (invoke 1 1 1 []).run s := rfl
    have hguarded : (runNode (declareFieldGuarded P ⟨1, 1⟩) (invokeGuarded P 1 1)
        (.program [] [main])).run start = (invokeGuarded P 1 1 1 []).run s := rfl
    have hcall : (callFunction (execute 0) 1 1 []).run s = .ok .nil t := rfl
    rw [runProgram, runProgramGuarded, run_closingLog, run_closingLog, hnode, invoke, hcall] at h
    cases hrun : (guarded P (runNode (declareFieldGuarded P ⟨1, 1⟩) (invokeGuarded P 1 1)
        (.program [] [main]))).run start with
    | error e u =>
      rw [hrun] at h
      cases h
    | ok v u =>
      obtain ⟨-, hinvoke, hu⟩ := of_run_guarded hrun
      rw [hguarded, invokeGuarded] at hinvoke
      obtain ⟨hs, hbody, -⟩ := of_run_guarded hinvoke
      have hbody' : (callFunction (executeGuarded P 0) 1 1 []).run s = .ok .nil t := rfl
      rw [hbody'] at hbody
      cases hbody
      exact ⟨hs, hu⟩
  have hs : Reaches ⟨1, 1⟩ (.program [] [main]) start s := fun P h => (hreached P h).1
  have ht : Reaches ⟨1, 1⟩ (.program [] [main]) start t := fun P h => (hreached P h).2
  obtain ⟨hnode, hcall⟩ := parseSource_isLexical ⟨1, 1⟩ 0 hparse hs ht rfl
  exact ⟨hparse, hs, ht, by decide, hnode rfl, hcall rfl⟩

end Evaluation

end Blockscript
