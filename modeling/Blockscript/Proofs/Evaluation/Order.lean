import Blockscript.Proofs.Evaluation.Levels
import Blockscript.Proofs.Evaluation.Lexicality
import Blockscript.Proofs.Store.Order

/-!
# The order of methods

Methods are bound before any of them is called, so that it does not matter in which order
a program has them. Runs of the same program with its methods in two orders differ in
where functions lie, and go on in parallel: they look up the same functions and print the same,
and end in the same way, with the same bound in every scope.

* `State.Reorders`: a state in which functions are in another order;
* `Evaluation.Parallel`: a step from such a state, beside a step from the other one;
* `isProgramCongruence_parallel`: all single steps go on in parallel;
* `parallel_steps`: so do expressions, statements and calls;
* `run_declareMethods`, `reorders_declareMethods`: what is bound after the methods;
* `parseSource_perm`: the run of a program with its methods in another order.
-/

namespace Blockscript

open Node

/-- A state that is the same as another one but for the order of the functions. -/
structure State.Reorders (s t : State) : Prop where
  store : s.store.Reorders t.store
  current : s.current = t.current
  output : s.output = t.output
  level : s.level = t.level
  log : s.log = t.log
  logIsOpen : s.logIsOpen = t.logIsOpen
  digitLimit : s.digitLimit = t.digitLimit

/-- The text of a plain value is the same in every store. -/
theorem Value.IsPlain.display_eq {v : Value} (h : v.IsPlain) (s t : Store) :
    s.display v = t.display v := by
  cases v with
  | function _ => exact h.elim
  | object _ => exact h.elim
  | _ => rfl

namespace State.Reorders

variable {s t : State}

/-- The same is done to the stores, in the same scope. -/
theorem moved (h : s.Reorders t) {a b : Store} (hstore : a.Reorders b) (c : ScopeId) :
    State.Reorders { s with store := a, current := c } { t with store := b, current := c } :=
  ⟨hstore, rfl, h.output, h.level, h.log, h.logIsOpen, h.digitLimit⟩

/-- The same line is printed in both states. -/
theorem print (h : s.Reorders t) (line : String) : (s.print line).Reorders (t.print line) :=
  ⟨h.store, h.current, congrArg (· ++ line ++ "\n") h.output, h.level, h.log, h.logIsOpen,
    h.digitLimit⟩

theorem record (h : s.Reorders t) (e : Event) : (s.record e).Reorders (t.record e) := by
  rw [State.record, State.record, h.logIsOpen]
  split
  · exact ⟨h.store, h.current, h.output, h.level, congrArg (e :: ·) h.log, rfl, h.digitLimit⟩
  · exact h.print e.text

theorem closeLog (h : s.Reorders t) : s.closeLog.Reorders t.closeLog :=
  ⟨h.store, h.current, h.output, h.level, h.log, rfl, h.digitLimit⟩

/-- A call opens scopes with the same place, one of which has its functions in another order. -/
theorem entered (h : s.Reorders t) (closure : ScopeId) :
    (s.entered closure).Reorders (t.entered closure) :=
  ⟨h.store.addScope _, h.store.size, h.output, h.level, h.log, h.logIsOpen, h.digitLimit⟩

end State.Reorders

namespace Evaluation

variable {α β : Type} {s t : State} {q p : Evaluation α} {P Q : α → State → Prop}

/-- Two steps end in the same way, in states that differ in the order of the functions. -/
inductive EndsAlike : EStateM.Result Halt State α → EStateM.Result Halt State α → Prop
  | ok (a : α) {s t : State} : s.Reorders t → EndsAlike (.ok a s) (.ok a t)
  | error (h : Halt) {s t : State} : s.Reorders t → EndsAlike (.error h s) (.error h t)

/-- From two states that differ in the order of the functions, two steps end in the same way. The
    second one keeps states sound, and its result is as claimed. -/
structure Parallel (q p : Evaluation α) (s t : State) (Q : α → State → Prop) : Prop where
  meets : p.Meets t Q
  endsAlike : t.IsSound → s.Reorders t → EndsAlike (q.run s) (p.run t)

/-! ### Single steps -/

/-- Runs that end alike give the same value, or halt for the same reason. -/
theorem EndsAlike.value {x y : EStateM.Result Halt State α} (h : EndsAlike x y) :
    valueOf x = valueOf y := by
  cases h <;> rfl

/-- Runs that end alike end in states that differ in the order of functions alone. -/
theorem EndsAlike.state {x y : EStateM.Result Halt State α} (h : EndsAlike x y) :
    (stateAfter x).Reorders (stateAfter y) := by
  cases h <;> assumption

theorem EndsAlike.changing {f : State → State} {x y : EStateM.Result Halt State α}
    (h : EndsAlike x y) (hf : ∀ {s t : State}, s.Reorders t → (f s).Reorders (f t)) :
    EndsAlike (changing f x) (changing f y) := by
  cases h with
  | ok a hst => exact .ok a (hf hst)
  | error h hst => exact .error h (hf hst)

namespace Parallel

theorem pure {a : α} (h : Q a t) : Parallel (Pure.pure a) (Pure.pure a) s t Q :=
  ⟨.pure h, fun _ hst => .ok a hst⟩

theorem throw {h : Halt} (hh : h.IsProper) :
    Parallel (MonadExcept.throw h : Evaluation α) (MonadExcept.throw h) s t Q :=
  ⟨.throw hh, fun _ hst => .error h hst⟩

/-- Steps one after the other go on with the same value, of which what is asked for holds. -/
theorem bind {g f : α → Evaluation β} {R : β → State → Prop} (h : Parallel q p s t P)
    (hf : ∀ a s' t', P a t' → Parallel (g a) (f a) s' t' R) :
    Parallel (q >>= g) (p >>= f) s t R := by
  refine ⟨h.meets.bind fun a t' ha => (hf a s t' ha).meets, fun ht hst => ?_⟩
  have halike := h.endsAlike ht hst
  obtain ⟨-, hmeets⟩ := h.meets ht
  rw [EStateM.run_bind, EStateM.run_bind]
  generalize q.run s = x, p.run t = y at halike hmeets
  cases halike with
  | ok a hst => exact (hf a _ _ hmeets.2).endsAlike hmeets.1 hst
  | error h hst => exact .error h hst

theorem logFrom {event' event : Evaluation Event} {level : Nat}
    (h : Parallel event' event s t fun _ _ => True) :
    Parallel (Evaluation.logFrom level event') (Evaluation.logFrom level event) s t
      fun _ _ => True := by
  refine ⟨h.meets.logFrom, fun ht hst => ?_⟩
  have halike := h.endsAlike ht hst
  rw [run_logFrom, run_logFrom, hst.level]
  generalize event'.run s = x, event.run t = y at halike
  split
  · cases halike with
    | ok e hst => exact .ok _ (hst.record e)
    | error h hst => exact .error h hst
  · exact .ok _ hst

theorem checkDigits (exceeds : Nat → Bool) :
    Parallel (Evaluation.checkDigits exceeds) (Evaluation.checkDigits exceeds) s t
      fun _ _ => True := by
  refine ⟨meets_checkDigits exceeds, fun ht hst => ?_⟩
  rw [run_checkDigits, run_checkDigits, hst.digitLimit, ht.2]
  exact .ok () hst

/-- Plain values have the same text in both states: an object or a function, which are shown by the
    store, is not among them. -/
theorem textOf {v : Value} (hv : v.IsPlain) :
    Parallel (Evaluation.textOf v) (Evaluation.textOf v) s t fun _ _ => True := by
  refine ⟨meets_textOf hv, fun _ hst => ?_⟩
  rw [Evaluation.textOf, EStateM.run_bind, EStateM.run_bind, EStateM.run_get, EStateM.run_get]
  simp only [hv.display_eq s.store t.store]
  cases t.store.display v with
  | ok text => exact .ok text hst
  | error h => exact .error h hst

/-- A variable is found in the same scope, as the order of variables is kept. -/
theorem readVariable (name : String) :
    Parallel (Evaluation.readVariable (.text name)) (Evaluation.readVariable (.text name)) s t
      fun v _ => v.IsPlain := by
  refine ⟨meets_readVariable, fun _ hst => ?_⟩
  rw [run_readVariable, run_readVariable, hst.current, hst.store.findVariable?]
  split
  · exact .ok _ hst
  · exact .error _ hst

/-- A variable is given its value in the same scope. -/
theorem assignVariable (name : String) {v : Value} (hv : v.IsPlain) :
    Parallel (Evaluation.assignVariable (.text name) v) (Evaluation.assignVariable (.text name) v)
      s t fun _ _ => True := by
  refine ⟨meets_assignVariable hv, fun _ hst => ?_⟩
  rw [run_assignVariable, run_assignVariable, hst.current, hst.store.findVariable?]
  cases t.store.findVariable? t.current (.text name) with
  | none => exact .error _ hst
  | some found =>
    simp only
    split
    · exact .error _ hst
    · have hstore := hst.store.updateScope (g := (·.setVariable (.text name) v)) (fun _ => rfl)
        (fun _ => rfl) (fun c d h => congrArg (List.map _) h) found.1
      exact .ok _ (hst.moved hstore _)

theorem defineVariable (name : String) (isConstant : Bool) {v : Value} (hv : v.IsPlain) :
    Parallel (Evaluation.defineVariable (.text name) isConstant v)
      (Evaluation.defineVariable (.text name) isConstant v) s t fun _ _ => True := by
  refine ⟨meets_defineVariable hv, fun _ hst => ?_⟩
  have hfound : (s.store.scope s.current).findVariable? (.text name) =
      (t.store.scope t.current).findVariable? (.text name) := by
    rw [Scope.findVariable?, Scope.findVariable?, hst.current, hst.store.vars]
  rw [run_defineVariable, run_defineVariable, hfound, hst.current]
  split
  · exact .error _ hst
  · have hstore := hst.store.updateScope (g := (·.addVariable ⟨.text name, isConstant, v⟩))
      (fun _ => rfl) (fun _ => rfl) (fun c d h => congrArg (· ++ _) h) t.current
    exact .ok _ (hst.moved hstore _)

theorem inScope {Q : α → Prop} (closure : ScopeId) (h : ∀ s t, Parallel q p s t fun a _ => Q a) :
    Parallel (do within (← newScope (some closure)) q) (do within (← newScope (some closure)) p)
      s t fun a _ => Q a := by
  refine ⟨meets_newScope.bind fun _ u _ => .within (h u _).meets, fun ht hst => ?_⟩
  have hsound : (t.entered closure).IsSound := ⟨isSound_addScope _ ht.store, ht.2⟩
  have hentered := (h _ _).endsAlike hsound (hst.entered closure)
  rw [run_within_newScope, run_within_newScope, hst.current]
  generalize q.run (s.entered closure) = x, p.run (t.entered closure) = y at hentered
  cases hentered with
  | ok a hst => exact .ok a (hst.moved hst.store _)
  | error h hst => exact .error h (hst.moved hst.store _)

theorem get {g f : State → Evaluation α} (h : Parallel (g s) (f t) s t Q) :
    Parallel (MonadState.get >>= g) (MonadState.get >>= f) s t Q :=
  ⟨.get h.meets, h.endsAlike⟩

/-- What is done with a function depends on what it is, not on where it lies. -/
theorem lookupFunction (name : String) {arity : Int} {g f : FunctionId → Evaluation α}
    (hf : ∀ {i j a s' t'}, s'.store.functions[i]? = some a → t'.store.functions[j]? = some a →
      a.Accepts arity → Parallel (g i) (f j) s' t' Q) :
    Parallel (do g (← Evaluation.lookupFunction (.text name) arity))
      (do f (← Evaluation.lookupFunction (.text name) arity)) s t Q := by
  have hlookup : (Evaluation.lookupFunction (.text name) arity).Meets t
      fun j t' => t'.store.Accepts j arity := meets_lookupFunction
  refine ⟨hlookup.bind fun j t' ⟨a, hj, ha⟩ => (hf hj hj ha).meets, fun ht hst => ?_⟩
  obtain ⟨-, hlookup⟩ := hlookup ht
  have hfound := hst.store.map_findFunction? t.current (.text name) arity
  rw [run_lookupFunction] at hlookup
  rw [EStateM.run_bind, EStateM.run_bind, run_lookupFunction, run_lookupFunction, hst.current,
    hst.store.functionArities]
  cases hj : t.store.findFunction? t.current (.text name) arity with
  | some j =>
    rw [hj] at hfound hlookup
    obtain ⟨i, hi, heq⟩ := Option.map_eq_some_iff.1 hfound
    obtain ⟨-, a, haj, ha⟩ := hlookup
    rw [hi]
    exact (hf (heq.trans haj) haj ha).endsAlike ht hst
  | none =>
    rw [hj, Option.map_none, Option.map_eq_none_iff] at hfound
    rw [hfound]
    cases t.store.functionArities t.current (.text name) with
    | nil => exact .error _ hst
    | cons _ _ => exact .error _ hst

end Parallel

/-- The relation is kept by all parts of a program, as long as values are plain. -/
theorem isProgramCongruence_parallel :
    IsProgramCongruence (fun {_} Q q p => ∀ s t, Parallel q p s t fun a _ => Q a) where
  pure h _ _ := .pure h
  fail h _ _ := .throw h
  bind hp hf s t := (hp s t).bind fun a s' t' h => hf a h s' t'
  logFrom h s t := (h s t).logFrom
  print line _ _ := ⟨meets_modify id trivial, fun _ hst => .ok _ (hst.print line)⟩
  checkDigits exceeds _ _ := .checkDigits exceeds
  textOf hv _ _ := .textOf hv
  readVariable name _ _ := .readVariable name
  assignVariable name _ hv _ _ := .assignVariable name hv
  defineVariable name isConstant _ hv _ _ := .defineVariable name isConstant hv
  inNewScope h s t := by
    refine ⟨.inNewScope fun t => (h t t).meets, fun ht hst => ?_⟩
    have hscope := (Parallel.inScope s.current h).endsAlike ht hst
    have hrun : ∀ {γ : Type} (p : Evaluation γ), (Evaluation.inNewScope p).run t =
        (do within (← newScope (some t.current)) p).run t := fun _ => rfl
    rw [hrun, ← hst.current]
    exact hscope
  inScope closure h _ _ := .inScope closure h

/-! ### Expressions, statements and calls -/

/-- By induction on the number of steps. -/
theorem parallel_steps (steps : Nat) :
    (∀ {k depth n}, IsExpression k n → ∀ s t,
      Parallel (evaluate steps depth n) (evaluate steps depth n) s t fun v _ => v.IsPlain) ∧
    (∀ {depth n}, n.IsExecuted → ∀ s t,
      Parallel (execute steps depth n) (execute steps depth n) s t fun o _ => o.value.IsPlain) ∧
    ∀ {depth i j f arguments s t}, s.store.functions[i]? = some f →
      t.store.functions[j]? = some f → f.Accepts arguments.length → (∀ a ∈ arguments, a.IsPlain) →
      Parallel (invoke steps depth i arguments) (invoke steps depth j arguments) s t
        fun v _ => v.IsPlain := by
  have hR := isProgramCongruence_parallel
  -- By induction on the step limit. A call runs the body of one function in both programs, whatever
  -- its two indices.
  induction steps with
  | zero =>
    refine ⟨fun _ s t => ?_, fun _ s t => ?_, fun _ _ _ _ => ?_⟩
    · rw [evaluate]
      exact .throw trivial
    · rw [execute]
      exact .throw trivial
    · rw [invoke, invoke]
      exact .throw trivial
  | succ steps ih =>
    obtain ⟨hevaluate, hexecute, hinvoke⟩ := ih
    refine ⟨fun hn => ?_, fun hn => ?_, fun hi hj hf ha => ?_⟩
    · rw [evaluate]
      refine hR.evaluateNode (fun _ => hevaluate) hn fun _ hvalues s t => ?_
      exact .lookupFunction _ fun hi hj hf => hinvoke hi hj hf hvalues
    · rw [execute]
      exact hR.executeNode (fun _ => hevaluate) (fun _ => hexecute)
        (fun _ _ _ => .throw trivial) steps hn
    · rw [invoke, invoke, callFunction_eq, callFunction_eq]
      refine .get ?_
      rw [hi, hj]
      exact hR.callFound hf ha (fun _ _ _ _ hn => hexecute hn) _ _

end Evaluation

/-! ### What methods bind -/

/-- The name of a method, and the number of its parameters. -/
def Node.signature : Node → Label × Int
  | .method name parameters _ => (name, parameters.length)
  | _ => (.text "", 0)

/-- What a method binds in the globals. -/
def Node.bound (n : Node) : BoundFunction :=
  ⟨n.signature.1, n.signature.2, some n.function⟩

/-- A state in which the globals bind some more functions than in another one, and nothing else
    is different. -/
structure State.Defines (fs : List BoundFunction) (s t : State) : Prop where
  size : t.store.scopes.size = s.store.scopes.size
  parent : ∀ i, (t.store.scope i).parent = (s.store.scope i).parent
  vars : ∀ i, (t.store.scope i).vars = (s.store.scope i).vars
  bound : ∀ i, t.store.boundAt i = s.store.boundAt i ++ if i = Store.globals then fs else []
  current : t.current = s.current
  output : t.output = s.output
  level : t.level = s.level
  log : t.log = s.log
  logIsOpen : t.logIsOpen = s.logIsOpen
  digitLimit : t.digitLimit = s.digitLimit

/-- Methods are looked up in the same way only if their names and numbers of parameters are the
    same. -/
theorem Node.IsMethod.signature_eq {m n : Node} (hm : IsMethod m) (hn : IsMethod n)
    (h : m.bound.isFor n.signature.1 n.signature.2) : m.signature = n.signature := by
  cases hm
  cases hn
  simp only [bound, signature, BoundFunction.isFor, Label.same, Bool.and_eq_true, beq_iff_eq] at h
  simp only [signature, h.1, h.2]

/-- Methods with distinct names or numbers of parameters are never taken for each other. -/
theorem unique_bound {methods : List Node} (hmethods : ∀ m ∈ methods, IsMethod m)
    (hdistinct : (methods.map signature).Nodup) :
    ∀ f ∈ methods.map bound, ∀ g ∈ methods.map bound, f.isFor g.name g.arity → f = g := by
  intro f hf g hg h
  obtain ⟨m, hm, rfl⟩ := List.mem_map.1 hf
  obtain ⟨n, hn, rfl⟩ := List.mem_map.1 hg
  have hsignature := (hmethods m hm).signature_eq (hmethods n hn) h
  exact congrArg bound (List.inj_on_of_nodup_map hdistinct hm hn hsignature)

namespace State.Defines

variable {s t u : State} {fs gs : List BoundFunction}

/-- No method binds nothing. -/
theorem refl (s : State) : s.Defines [] s :=
  ⟨rfl, fun _ => rfl, fun _ => rfl, fun i => by rw [ite_self, List.append_nil], rfl, rfl, rfl, rfl,
    rfl, rfl⟩

/-- Methods one after the other bind their functions one after the other. -/
theorem trans (h : s.Defines fs t) (h' : t.Defines gs u) : s.Defines (fs ++ gs) u := by
  refine ⟨h'.size.trans h.size, fun i => (h'.parent i).trans (h.parent i),
    fun i => (h'.vars i).trans (h.vars i), fun i => ?_, h'.current.trans h.current,
    h'.output.trans h.output, h'.level.trans h.level, h'.log.trans h.log,
    h'.logIsOpen.trans h.logIsOpen, h'.digitLimit.trans h.digitLimit⟩
  rw [h'.bound, h.bound, List.append_assoc]
  split <;> rfl

/-- The same functions may be bound in another order. -/
theorem reorders (h : s.Defines fs t) (h' : s.Defines gs u) (hperm : fs.Perm gs)
    (hs : s.Reorders s) (hbound : s.store.boundAt Store.globals = [])
    (hgs : ∀ f ∈ gs, ∀ g ∈ gs, f.isFor g.name g.arity → f = g) : t.Reorders u := by
  refine ⟨⟨h.size.trans h'.size.symm, fun i => (h.parent i).trans (h'.parent i).symm,
    fun i => (h.vars i).trans (h'.vars i).symm, fun i => ?_, fun i => ?_⟩,
    h.current.trans h'.current.symm, h.output.trans h'.output.symm, h.level.trans h'.level.symm,
    h.log.trans h'.log.symm, h.logIsOpen.trans h'.logIsOpen.symm,
    h.digitLimit.trans h'.digitLimit.symm⟩
  · rw [h.bound, h'.bound]
    refine List.Perm.append_left _ ?_
    split
    · exact hperm
    · exact .refl _
  · rw [h'.bound]
    split
    · next hi =>
      rw [hi, hbound]
      exact hgs
    · rw [List.append_nil]
      exact hs.store.unique i

end State.Defines

namespace Evaluation

variable {s : State}

/-- A method is the last function that the globals bind. -/
theorem defines_defined (hs : s.IsSound) (hcurrent : s.current = Store.globals)
    (hsize : Store.globals < s.store.scopes.size) (n : Node) :
    s.Defines [n.bound] (defined n ⟨n.signature.1, n.signature.2, s.store.functions.size⟩ s) := by
  have hscope := Store.scope_updateScope s.current (·.addFunction
    ⟨n.signature.1, n.signature.2, s.store.functions.size⟩) (s.store.addFunction n.function)
  have hadded : ∀ i, (s.store.addFunction n.function).scope i = s.store.scope i := fun _ => rfl
  -- The functions that are there keep their places, for the new one is added at the end.
  have hpush : ∀ i, ((s.store.scope i).functions.map fun b => BoundFunction.mk b.name b.arity
      (s.store.functions.push n.function)[b.function]?) = s.store.boundAt i := by
    refine fun i => List.map_congr_left fun b hb => ?_
    obtain ⟨f, hf, -⟩ := (hs.store i).functions b hb
    have hlt := (Array.getElem?_eq_some_iff.1 hf).1
    rw [Array.getElem?_push, if_neg (Nat.ne_of_lt hlt)]
  refine ⟨Store.size_updateScope _ _ _, fun i => ?_, fun i => ?_, fun i => ?_, rfl, rfl, rfl, rfl,
    rfl, rfl⟩
  · exact Store.parent_updateScope (g := (·.addFunction _)) (fun _ => rfl) s.current
  · rw [defined, hscope]
    split <;> rfl
  · have hfunctions : (defined n ⟨n.signature.1, n.signature.2, s.store.functions.size⟩
        s).store.functions = s.store.functions.push n.function := rfl
    rw [Store.boundAt, hfunctions, defined, hscope, hadded, hcurrent]
    by_cases hi : i = Store.globals
    · subst hi
      rw [if_pos ⟨rfl, hsize⟩, if_pos rfl, Scope.addFunction, List.map_append, hpush,
        List.map_singleton, Array.getElem?_push_size]
      rfl
    · rw [if_neg fun h => hi h.1, if_neg hi, hpush, List.append_nil]

/-- Where nothing is logged and no function of the same name has as many parameters, a method is
    bound. -/
theorem run_declareMethod_of_fresh {n : Node} (hn : IsMethod n) (hs : s.IsSound)
    (hcurrent : s.current = Store.globals) (hsize : Store.globals < s.store.scopes.size)
    (hlevel : s.level = 0)
    (hfresh : ∀ f ∈ s.store.boundAt Store.globals, ¬ f.isFor n.signature.1 n.signature.2) :
    ∃ t, (declareMethod n).run s = .ok ⟨⟩ t ∧ t.IsSound ∧ s.Defines [n.bound] t := by
  have hdefines := defines_defined hs hcurrent hsize n
  obtain ⟨-, hmeets⟩ := meets_declareMethod (s := s) hn hs
  obtain @⟨name, parameters, statements, _, _, _⟩ := hn
  have hfound : (s.store.scope s.current).findFunction? (.text name)
      (parameters.map Label.text).length = none := by
    have hnone : (s.store.boundAt Store.globals).find?
        (·.isFor (.text name) (parameters.map Label.text).length) = none :=
      List.find?_eq_none.2 hfresh
    have hmap := s.store.map_findFunction?_scope Store.globals (.text name)
      (parameters.map Label.text).length
    rw [hnone, Option.map_none, Option.map_eq_none_iff] at hmap
    rw [hcurrent]
    exact hmap
  have hrun := run_declareMethod name (parameters.map .text) statements hcurrent
  -- At level 0 the declaration is not recorded.
  have hunlogged : ∀ n b, ¬ Event.declarationLevel ≤ (defined n b s).level := by
    intro n b
    rw [defined, hlevel]
    decide
  rw [hfound, if_neg (by simp), run_logFrom, if_neg (hunlogged _ _)] at hrun
  rw [hrun] at hmeets
  exact ⟨_, hrun, hmeets.1, hdefines⟩

/-- Methods with distinct names or numbers of parameters are bound in the order in which they
    stand. -/
theorem run_declareMethods {methods : List Node} (hmethods : ∀ m ∈ methods, IsMethod m)
    (hdistinct : (methods.map signature).Nodup) (hs : s.IsSound)
    (hcurrent : s.current = Store.globals) (hsize : Store.globals < s.store.scopes.size)
    (hlevel : s.level = 0) (hfresh : ∀ f ∈ s.store.boundAt Store.globals, ∀ m ∈ methods,
      ¬ f.isFor m.signature.1 m.signature.2) :
    ∃ t, (methods.forM declareMethod).run s = .ok ⟨⟩ t ∧ t.IsSound ∧
      s.Defines (methods.map bound) t := by
  induction methods generalizing s with
  | nil => exact ⟨s, rfl, hs, .refl s⟩
  -- A method that is declared first is bound under another signature than the later ones ask for.
  | cons n methods ih =>
    rw [List.forall_mem_cons] at hmethods
    rw [List.map_cons, List.nodup_cons] at hdistinct
    obtain ⟨t, hrun, ht, hdefines⟩ := run_declareMethod_of_fresh hmethods.1 hs hcurrent hsize hlevel
      fun f hf => hfresh f hf n List.mem_cons_self
    obtain ⟨u, hrest, hu, hdefines'⟩ := ih hmethods.2 hdistinct.2 ht
      (hdefines.current.trans hcurrent) (hdefines.size.symm ▸ hsize) (hdefines.level.trans hlevel)
      (by
        intro f hf m hm hfor
        rw [hdefines.bound, if_pos rfl] at hf
        rcases List.mem_append.1 hf with hf | hf
        · exact hfresh f hf m (List.mem_cons_of_mem n hm) hfor
        · obtain rfl := List.mem_singleton.1 hf
          have hsame := hmethods.1.signature_eq (hmethods.2 m hm) hfor
          exact hdistinct.1 (List.mem_map.2 ⟨m, hm, hsame.symm⟩))
    refine ⟨u, ?_, hu, hdefines.trans hdefines'⟩
    have hbind : ((n :: methods).forM declareMethod).run s =
        (declareMethod n >>= fun _ => methods.forM declareMethod).run s := rfl
    rw [hbind, EStateM.run_bind, hrun]
    exact hrest

/-- From a state where the globals bind no functions, methods in two orders lead to states that
    are in another order of each other. -/
theorem reorders_declareMethods {methods methods' : List Node}
    (hmethods : ∀ m ∈ methods, IsMethod m) (hdistinct : (methods.map signature).Nodup)
    (hperm : methods'.Perm methods) (hs : s.IsSound) (hcurrent : s.current = Store.globals)
    (hsize : Store.globals < s.store.scopes.size) (hlevel : s.level = 0)
    (hbound : s.store.boundAt Store.globals = []) (hst : s.Reorders s) :
    ∃ t t', (methods.forM declareMethod).run s = .ok ⟨⟩ t ∧
      (methods'.forM declareMethod).run s = .ok ⟨⟩ t' ∧ t.IsSound ∧ t'.Reorders t := by
  have hfresh : ∀ ms : List Node, ∀ f ∈ s.store.boundAt Store.globals, ∀ m ∈ ms,
      ¬ f.isFor m.signature.1 m.signature.2 := by
    intro ms f hf
    rw [hbound] at hf
    cases hf
  obtain ⟨t, hrun, ht, hdefines⟩ :=
    run_declareMethods hmethods hdistinct hs hcurrent hsize hlevel (hfresh _)
  obtain ⟨t', hrun', -, hdefines'⟩ := run_declareMethods
    (fun m hm => hmethods m (hperm.mem_iff.1 hm)) ((hperm.map _).nodup_iff.2 hdistinct) hs
    hcurrent hsize hlevel (hfresh _)
  exact ⟨t, t', hrun, hrun', ht, hdefines'.reorders hdefines (hperm.map _) hst hbound
    (unique_bound hmethods hdistinct)⟩

/-! ### Programs -/

/-- The host binds one function, and the globals none before a program has run. -/
theorem reorders_start (level : Nat) : State.Reorders
    (.start .standard Store.standardScope level) (.start .standard Store.standardScope level) := by
  refine ⟨.refl fun i f hf g hg _ => ?_, rfl, rfl, rfl, rfl, rfl, rfl⟩
  match i with
  | 0 => rw [List.mem_singleton.1 hf, List.mem_singleton.1 hg]
  | 1 => cases hf
  | _ + 2 => cases hf

/-- Fields are declared in parallel. -/
theorem parallel_declareFields (limits : Limits) {fields : List Node}
    (hfields : ∀ f ∈ fields, IsField f) (s t : State) :
    Parallel (fields.forM (declareField limits)) (fields.forM (declareField limits)) s t
      fun _ _ => True :=
  isProgramCongruence_parallel.forM (fun f hf => isProgramCongruence_parallel.declareNode
    (fun _ => (parallel_steps limits.steps).1) (hfields f hf)) s t

/-- The call of `main` goes on in parallel. -/
theorem parallel_invokeMain (limits : Limits) (s t : State) :
    Parallel (do invokeWithin limits (← lookupFunction (.text "main") 0) [])
      (do invokeWithin limits (← lookupFunction (.text "main") 0) []) s t fun v _ => v.IsPlain :=
  .lookupFunction "main" fun hi hj hf =>
    (parallel_steps limits.steps).2.2 hi hj hf (List.forall_mem_nil _)

section Program

variable {fields methods methods' : List Node} (hfields : ∀ f ∈ fields, IsField f)
  (hmethods : ∀ m ∈ methods, IsMethod m) (hdistinct : (methods.map signature).Nodup)
  (hperm : methods'.Perm methods) (limits : Limits)

include hfields hmethods hdistinct hperm

/-- Until the fields are declared, both runs are the same. When the methods are bound they differ
    in their order, and the call of `main` goes on in parallel. -/
theorem endsAlike_runNode : EndsAlike
    ((runNode (declareField limits) (invokeWithin limits) (.program fields methods')).run
      (.start .standard Store.standardScope 0))
    ((runNode (declareField limits) (invokeWithin limits) (.program fields methods)).run
      (.start .standard Store.standardScope 0)) := by
  have hparallel := parallel_declareFields limits hfields (.start .standard Store.standardScope 0)
    (.start .standard Store.standardScope 0)
  obtain ⟨-, hmeets⟩ := hparallel.meets (isSound_start 0)
  have halike := hparallel.endsAlike (isSound_start 0) (reorders_start 0)
  have hleads := (@run_declareFields (fun _ => true) methods 0 (fun _ _ => rfl) limits fields).2
  simp only [runNode]
  rw [EStateM.run_bind, EStateM.run_bind]
  generalize (fields.forM (declareField limits)).run
    (.start .standard Store.standardScope 0) = x at hmeets halike hleads ⊢
  cases halike with
  | error h hst => exact .error h hst
  | @ok _ s _ hst =>
    -- No functions are bound yet.
    have hbound : s.store.boundAt Store.globals = [] :=
      congrArg (List.map _) (hleads.functions Store.globals Nat.one_lt_two)
    have hsize : Store.globals < s.store.scopes.size :=
      Nat.lt_of_lt_of_le Nat.one_lt_two hleads.size_le
    obtain ⟨t, t', hrun, hrun', ht, hreorders⟩ := reorders_declareMethods hmethods hdistinct hperm
      hmeets.1 hleads.current hsize hleads.isScoped.level hbound hst
    simp only
    rw [EStateM.run_bind, EStateM.run_bind, hrun, hrun']
    exact (parallel_invokeMain limits t' t).endsAlike ht hreorders

end Program

/-- The methods of a program may stand in any order, if no two of them have the same name and as
    many parameters. Where nothing is logged, the run ends with the same value or with the same
    error, everything that is printed is the same, and so are the variables of the globals; and the
    globals bind the same functions, in some order. -/
theorem parseSource_perm {source : String} {fields methods methods' : List Node}
    (hparse : parseSource source = .ok (.program fields methods))
    (hdistinct : (methods.map signature).Nodup) (hperm : methods'.Perm methods) (limits : Limits) :
    let x := runFresh limits 0 (.program fields methods)
    let y := runFresh limits 0 (.program fields methods')
    valueOf y = valueOf x ∧ (stateAfter y).output = (stateAfter x).output ∧
      ((stateAfter y).store.scope Store.globals).vars =
        ((stateAfter x).store.scope Store.globals).vars ∧
      ((stateAfter y).store.boundAt Store.globals).Perm
        ((stateAfter x).store.boundAt Store.globals) := by
  have hprogram := parseSource_meets source
  rw [hparse] at hprogram
  obtain ⟨hfields, hmethods⟩ := hprogram
  have halike := endsAlike_runNode hfields hmethods hdistinct hperm limits
  have hclosed := halike.changing State.Reorders.closeLog
  rw [← run_closingLog_eq, ← run_closingLog_eq] at hclosed
  have hstate := hclosed.state
  exact ⟨hclosed.value, hstate.output, hstate.store.vars _, hstate.store.bound _⟩

/-- Two functions of one name, the second of which calls the first. -/
theorem parseSource_perm_overloads :
    let methods := [
      Node.method (.text "f") [.text "x"] [.answer (.access .absent (.text "x"))],
      .method (.text "f") [] [.answer (.call .absent (.text "f") [.integer 2])],
      .method (.text "main") [] [.answer (.call .absent (.text "f") [])]]
    let x := runFresh ⟨9, 99⟩ 0 (.program [] methods)
    let y := runFresh ⟨9, 99⟩ 0 (.program [] methods.reverse)
    parseSource
      "DEF f(x) DO RETURN x; END DEF f() DO RETURN f(2); END DEF main() DO RETURN f(); END" =
        .ok (.program [] methods) ∧
      (methods.map signature).Nodup ∧ methods.reverse.Perm methods ∧
      (valueOf x matches .ok (.integer 2)) ∧ valueOf y = valueOf x ∧
      ((stateAfter y).store.boundAt Store.globals).Perm
        ((stateAfter x).store.boundAt Store.globals) := by
  intro methods x y
  have hlex : lex
      "DEF f(x) DO RETURN x; END DEF f() DO RETURN f(2); END DEF main() DO RETURN f(); END" =
      .ok
        [⟨.identifier, "DEF", 0⟩, ⟨.identifier, "f", 4⟩, ⟨.operator, "(", 5⟩,
          ⟨.identifier, "x", 6⟩, ⟨.operator, ")", 7⟩, ⟨.identifier, "DO", 9⟩,
          ⟨.identifier, "RETURN", 12⟩, ⟨.identifier, "x", 19⟩, ⟨.operator, ";", 20⟩,
          ⟨.identifier, "END", 22⟩, ⟨.identifier, "DEF", 26⟩, ⟨.identifier, "f", 30⟩,
          ⟨.operator, "(", 31⟩, ⟨.operator, ")", 32⟩, ⟨.identifier, "DO", 34⟩,
          ⟨.identifier, "RETURN", 37⟩, ⟨.identifier, "f", 44⟩, ⟨.operator, "(", 45⟩,
          ⟨.integer, "2", 46⟩, ⟨.operator, ")", 47⟩, ⟨.operator, ";", 48⟩,
          ⟨.identifier, "END", 50⟩, ⟨.identifier, "DEF", 54⟩, ⟨.identifier, "main", 58⟩,
          ⟨.operator, "(", 62⟩, ⟨.operator, ")", 63⟩, ⟨.identifier, "DO", 65⟩,
          ⟨.identifier, "RETURN", 68⟩, ⟨.identifier, "f", 75⟩, ⟨.operator, "(", 76⟩,
          ⟨.operator, ")", 77⟩, ⟨.operator, ";", 78⟩, ⟨.identifier, "END", 80⟩] := by
    decide +kernel
  have hparse : parseSource
      "DEF f(x) DO RETURN x; END DEF f() DO RETURN f(2); END DEF main() DO RETURN f(); END" =
        .ok (.program [] methods) := by
    rw [parseSource, hlex]
    rfl
  have hdistinct : (methods.map signature).Nodup := by simp [methods, signature]
  have hperm : methods.reverse.Perm methods := List.reverse_perm methods
  obtain ⟨hvalue, -, -, hbound⟩ := parseSource_perm hparse hdistinct hperm ⟨9, 99⟩
  exact ⟨hparse, hdistinct, hperm, by decide +kernel, hvalue, hbound⟩

end Evaluation

end Blockscript
