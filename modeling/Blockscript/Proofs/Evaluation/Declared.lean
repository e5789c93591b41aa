import Blockscript.Proofs.Evaluation.Hosts

/-!
# Declarations stay in their scope

A statement binds names in the current scope alone, and only those of its declarations that
lie outside of all loops in it. A loop gives every round a scope of its own, a call gives one to
the function, and an expression does no more than call. So no other scope that was there
before gets a new name, and no scope at all a function. When the body of a loop begins, its
scope is empty; when that of a function begins, its scope holds the parameters.

* `Node.declared`: the names that a statement may bind in its scope;
* `State.Gains`: a state after which scopes have more names, but only the current one, and only
  some;
* `Evaluation.Adds`: steps that lead to such states, with `adds_entered` for new scopes;
* `Host.DefinesNothing`: what is assumed of the functions of a host;
* `adds_hosted`, `adds_steps`: expressions, statements and calls;
* `inNewScope_starting`, `callDefined_starting`: how the bodies of loops and functions begin;
* `declarations_stay`: all of them together.
-/

namespace Blockscript

namespace Node

mutual

/-- The names that a statement may bind in the scope where it is executed: those of the
    declarations in it that are in no loop. -/
def declared : Node → List Label
  | .declaration name _ => [name]
  | .choice _ thenStatements elseStatements =>
    declaredByAll thenStatements ++ declaredByAll elseStatements
  | _ => []

/-- The names that statements may bind in the scope where they are executed. -/
def declaredByAll : List Node → List Label
  | [] => []
  | n :: ns => declared n ++ declaredByAll ns

end

/-- A name that is declared by a statement is declared by a list with it. -/
theorem mem_declaredByAll {n : Node} {ns : List Node} (hn : n ∈ ns) {x : Label}
    (hx : x ∈ n.declared) : x ∈ declaredByAll ns := by
  induction ns with
  | nil => cases hn
  | cons first rest ih =>
    rw [declaredByAll, List.mem_append]
    rcases List.mem_cons.1 hn with rfl | hn
    · exact .inl hx
    · exact .inr (ih hn)

example (test : Node) : declared (.choice test
      [.declaration (.text "x") .absent]
      [.whileLoop test [.declaration (.text "y") .absent]]) = [.text "x"] :=
  rfl

end Node

/-- The names of the variables of a scope. -/
def Scope.names (c : Scope) : List Label :=
  c.vars.map (·.name)

/-- A variable keeps its name with another value. -/
theorem Scope.names_setVariable (c : Scope) (name : Label) (value : Value) :
    (c.setVariable name value).names = c.names := by
  rw [names, setVariable, List.map_map, names]
  refine List.map_congr_left fun v _ => ?_
  rw [Function.comp_apply]
  split <;> rfl

namespace State

/-- A state after another one, where the current scope may have more variables, with names that
    are asked for. The other scopes that were there have the names that they had, and all
    scopes have their functions. -/
structure Gains (N : Label → Prop) (s t : State) : Prop where
  current : t.current = s.current
  size_le : s.store.scopes.size ≤ t.store.scopes.size
  functions : ∀ i, (t.store.scope i).functions = (s.store.scope i).functions
  names : ∀ i < s.store.scopes.size, ∃ added,
    (t.store.scope i).names = (s.store.scope i).names ++ added ∧ ∀ x ∈ added, i = s.current ∧ N x

namespace Gains

variable {N M : Label → Prop} {s t u : State}

/-- Nothing is gained where nothing happens. -/
theorem refl (s : State) : s.Gains N s :=
  ⟨rfl, Nat.le_refl _, fun _ => rfl,
    fun _ _ => ⟨[], (List.append_nil _).symm, List.forall_mem_nil _⟩⟩

/-- What is gained in two parts of a run is gained in both together, and in the scope that is
    current at the end of both. -/
theorem trans (h : s.Gains N t) (h' : t.Gains N u) : s.Gains N u := by
  refine ⟨h'.current.trans h.current, Nat.le_trans h.size_le h'.size_le,
    fun i => (h'.functions i).trans (h.functions i), fun i hi => ?_⟩
  obtain ⟨added, hnames, hadded⟩ := h.names i hi
  obtain ⟨added', hnames', hadded'⟩ := h'.names i (Nat.lt_of_lt_of_le hi h.size_le)
  refine ⟨added ++ added', by rw [hnames', hnames, List.append_assoc], fun x hx => ?_⟩
  rcases List.mem_append.1 hx with hx | hx
  · exact hadded x hx
  · rw [← h.current]
    exact hadded' x hx

/-- Names that are gained are among any more. -/
theorem mono (h : s.Gains N t) (hNM : ∀ x, N x → M x) : s.Gains M t := by
  refine ⟨h.current, h.size_le, h.functions, fun i hi => ?_⟩
  obtain ⟨added, hnames, hadded⟩ := h.names i hi
  exact ⟨added, hnames, fun x hx => ⟨(hadded x hx).1, hNM x (hadded x hx).2⟩⟩

/-- Only the store and the current scope matter. -/
theorem of_store_eq (hstore : t.store = s.store) (hcurrent : t.current = s.current) :
    s.Gains N t := by
  refine ⟨hcurrent, Nat.le_of_eq (by rw [hstore]), fun i => by rw [hstore], fun i _ => ?_⟩
  exact ⟨[], by rw [hstore, List.append_nil], List.forall_mem_nil _⟩

/-- A scope is changed, without a change to its functions. -/
theorem updateScope {owner : ScopeId} {f : Scope → Scope} (added : List Label)
    (hfunctions : ∀ c, (f c).functions = c.functions) (hnames : ∀ c, (f c).names = c.names ++ added)
    (hadded : ∀ x ∈ added, owner = s.current ∧ N x) :
    s.Gains N { s with store := s.store.updateScope owner f } := by
  have hsize := Nat.le_of_eq (Store.size_updateScope owner f s.store).symm
  refine ⟨rfl, hsize, fun i => ?_, fun i hi => ?_⟩
  · simp only [Store.scope_updateScope]
    split
    · exact hfunctions _
    · rfl
  · simp only [Store.scope_updateScope]
    split
    · next h => exact ⟨added, hnames _, fun x hx => h.1 ▸ hadded x hx⟩
    · exact ⟨[], (List.append_nil _).symm, List.forall_mem_nil _⟩

theorem functions_entered (q : ScopeId) (s : State) (i : ScopeId) :
    ((s.entered q).store.scope i).functions = (s.store.scope i).functions := by
  simp only [entered, Store.scope_addScope]
  split
  · next h => rw [Store.scope_of_size_le (Nat.le_of_eq h.symm), Scope.empty, Scope.empty]
  · rfl

/-- What is bound in a new scope is bound in none of those that were there. -/
theorem returning {q : ScopeId} (h : (s.entered q).Gains M t) :
    s.Gains N { t with current := s.current } := by
  have hsize : (s.entered q).store.scopes.size = s.store.scopes.size + 1 :=
    Store.size_addScope (some q) s.store
  refine ⟨rfl, ?_, fun i => ?_, fun i hi => ⟨[], ?_, List.forall_mem_nil _⟩⟩
  · exact Nat.le_trans (Nat.le_succ _) (Nat.le_trans (Nat.le_of_eq hsize.symm) h.size_le)
  · exact (h.functions i).trans (functions_entered q s i)
  · -- The current scope was the new one all the time.
    obtain ⟨added, hnames, hadded⟩ := h.names i (hsize ▸ Nat.lt_succ_of_lt hi)
    have hnil : added = [] := by
      refine List.eq_nil_iff_forall_not_mem.2 fun x hx => ?_
      exact Nat.ne_of_lt hi (hadded x hx).1
    rw [List.append_nil, hnames, hnil, List.append_nil, scope_entered q hi]

end Gains

end State

namespace Evaluation

variable {α : Type} {N M : Label → Prop}

/-- A step that binds nothing but variables with names that are asked for, in the current
    scope. -/
abbrev Adds (N : Label → Prop) (p : Evaluation α) : Prop :=
  Along (State.Gains N) p

/-- All single steps of a run that define nothing gain nothing. -/
theorem isCourse_gains (N : Label → Prop) : IsCourse (State.Gains N) where
  refl := .refl
  trans := .trans
  record e s := by
    rw [State.record]
    split <;> exact .of_store_eq rfl rfl
  print _ _ := .of_store_eq rfl rfl
  assign value _ _ := by
    refine .updateScope [] (fun _ => rfl) (fun c => ?_) (List.forall_mem_nil _)
    rw [List.append_nil, Scope.names_setVariable]

variable {p : Evaluation α}

theorem Adds.mono (h : Adds N p) (hNM : ∀ x, N x → M x) : Adds M p :=
  fun s => (h s).mono hNM

/-- In a new scope, anything may be bound. -/
theorem adds_entered (h : Adds M p) (q : ScopeId) :
    Adds N (do within (← newScope (some q)) p) := by
  intro s
  rw [run_within_newScope, stateAfter_returning]
  exact (h _).returning

/-- What is declared in a new scope is gained by that scope, which was not there before. -/
theorem adds_inNewScope (h : Adds M p) : Adds N (inNewScope p) :=
  fun s => adds_entered h s.current s

/-- A declaration gains its name alone. -/
theorem adds_defineVariable {name : Label} (hname : N name) (isConstant : Bool) (v : Value) :
    Adds N (defineVariable name isConstant v) := by
  refine (isCourse_gains N).defineVariable fun s _ => ?_
  refine .updateScope [name] (fun _ => rfl) (fun c => ?_) fun x hx => ?_
  · rw [Scope.names, Scope.addVariable, List.map_append]
    rfl
  · obtain rfl := List.mem_singleton.1 hx
    exact ⟨rfl, hname⟩

/-- All names may be bound where nothing is asked of them. -/
theorem isCongruence_gains : IsCongruence fun {_} => AlongSelf (State.Gains fun _ => True) where
  toIsExpressive := (isCourse_gains _).isExpressive
  inNewScope h := ⟨congrArg _ h.1, adds_inNewScope h.2⟩
  defineVariable _ isConstant v := (adds_defineVariable trivial isConstant v).self

/-! ### Constructs -/

section Constructs

variable {e : Node → Evaluation Value} (he : ∀ n N, Adds N (e n))

include he

theorem adds_condition (construct : Construct) (n : Node) : Adds N (condition construct (e n)) :=
  ((isCourse_gains N).isExpressive.condition (he n N).self).2

/-- A statement adds the names of its declarations outside of loops, if its parts do. The body of a
    loop adds them to a scope of its own, and the branches of a choice to the current one. -/
theorem adds_executeNode {x : Node → Evaluation Outcome} (hx : ∀ n, Adds (· ∈ n.declared) (x n))
    (rounds : Nat) (n : Node) : Adds (· ∈ n.declared) (executeNode rounds e x n) := by
  have hT := isCourse_gains (· ∈ n.declared)
  have hR := hT.isExpressive
  -- The statements of a loop are in a scope of their own.
  have hx' : ∀ n, Adds (fun _ => True) (x n) := fun n => (hx n).mono fun _ _ => trivial
  have hbody : ∀ ns, Adds (fun _ => True) (executeAll x ns) := fun ns =>
    (isCongruence_gains.executeAll fun n _ => (hx' n).self).2
  cases n with
  | discard expression => exact hT.bind (he expression _) fun _ => hT.pure _
  | declaration name initializer =>
    refine hT.bind (hR.initialValue (fun n => (he n _).self) initializer).2 fun v => ?_
    refine hT.bind (hR.declare (adds_defineVariable ?_ false v).self).2 fun _ => hT.pure _
    rw [Node.declared, List.mem_singleton]
  | assignment receiver value =>
    exact hT.bind (hR.assign (fun n => (he n _).self) receiver value).2 fun _ => hT.pure _
  | choice test thenStatements elseStatements =>
    refine hT.bind (adds_condition he .choice test) fun b => ?_
    cases b with
    | true =>
      refine (hR.executeAll fun n hn => ((hx n).mono fun y hy => ?_).self).2
      rw [Node.declared, List.mem_append]
      exact .inl (Node.mem_declaredByAll hn hy)
    | false =>
      refine (hR.executeAll fun n hn => ((hx n).mono fun y hy => ?_).self).2
      rw [Node.declared, List.mem_append]
      exact .inr (Node.mem_declaredByAll hn hy)
  | whileLoop test statements =>
    exact hT.repeatWhile (adds_condition he .whileLoop test) (adds_inNewScope (hbody statements))
      (hT.pure ()) rounds
  | forLoop initializer test increment statements =>
    have hT' := isCourse_gains fun _ => True
    have hoptional : ∀ n, Adds (fun _ => True) (executeOptional x n) := fun n =>
      (isCongruence_gains.executeOptional (fun n => (hx' n).self) n).2
    exact adds_inNewScope (hT'.bind (hoptional initializer) fun _ =>
      hT'.repeatWhile (adds_condition he .forLoop test) (adds_inNewScope (hbody statements))
        (hoptional increment) rounds)
  | answer value => exact hT.bind (he value _) fun v => hT.pure _
  | _ => exact hT.throw _

end Constructs

/-- A call binds the parameters in a new scope, and so does nothing to the others. -/
theorem adds_callDefined {name : Label} {parameters : List Label} {closure : ScopeId}
    {body : Evaluation Outcome} (h : Adds M body) (arguments : List Value) :
    Adds N (callDefined name parameters closure body arguments) := by
  have hR := isCongruence_gains
  have hbody := hR.bind (hR.bindParameters parameters arguments) fun _ =>
    (h.mono fun _ _ => trivial).self
  exact ((isCourse_gains N).isExpressive.callDefined (adds_entered hbody.2 closure).self).2

/-- A host whose functions bind nothing, neither variables nor functions, in any scope. -/
def Host.DefinesNothing (host : Host) : Prop :=
  ∀ id arguments, Adds (fun _ => False) (host id arguments)

/-- To give values to fields is to bind nothing. -/
theorem Host.ActsOnFields.definesNothing {host : Host} (h : host.ActsOnFields) :
    host.DefinesNothing :=
  fun id arguments => (h id arguments).along (isCourse_gains _)

section Hosts

variable {host : Host} (hhost : host.DefinesNothing)

include hhost

/-- A call adds nothing, as its body is executed in a scope of its own. -/
theorem adds_callHosted {x : (depth : Nat) → Node → Evaluation Outcome}
    (hx : ∀ depth n, Adds (· ∈ n.declared) (x depth n)) (depth : Nat) (id : FunctionId)
    (arguments : List Value) : Adds N (callHosted host x depth id arguments) := by
  have hT := isCourse_gains N
  rw [callHosted]
  refine hT.bind hT.get fun s => ?_
  rcases s.store.functions[id]? with _ | (⟨name, parameters, body, closure⟩ | ⟨_, _, _⟩)
  · exact hT.throw _
  · cases depth with
    | zero => exact hT.throw _
    | succ depth =>
      have hbody := isCongruence_gains.executeAll fun n (_ : n ∈ body) =>
        ((hx depth n).mono fun _ _ => trivial).self
      exact adds_callDefined hbody.2 arguments
  · exact (hhost id arguments).mono fun _ => False.elim

/-- By induction on the number of steps. -/
theorem adds_hosted (steps : Nat) :
    (∀ depth n N, Adds N (evaluateHosted host id steps depth n)) ∧
    (∀ depth n, Adds (· ∈ n.declared) (executeHosted host id steps depth n)) ∧
    ∀ depth f arguments N, Adds N (invokeHosted host id steps depth f arguments) := by
  induction steps with
  | zero =>
    refine ⟨fun depth n N => ?_, fun depth n => ?_, fun depth f arguments N => ?_⟩
    · rw [evaluateHosted]
      exact (isCourse_gains N).throw _
    · rw [executeHosted]
      exact (isCourse_gains _).throw _
    · rw [invokeHosted]
      exact (isCourse_gains N).throw _
  | succ steps ih =>
    obtain ⟨hevaluate, hexecute, hinvoke⟩ := ih
    refine ⟨fun depth n N => ?_, fun depth n => ?_, fun depth f arguments N => ?_⟩
    · rw [evaluateHosted]
      exact ((isCourse_gains N).isExpressive.evaluateNode (fun n => (hevaluate depth n N).self)
        (fun id arguments => (hinvoke depth id arguments N).self) n).2
    · rw [executeHosted]
      exact adds_executeNode (hevaluate depth) (hexecute depth) steps n
    · rw [invokeHosted]
      exact adds_callHosted hhost hexecute depth f arguments

end Hosts

/-- The functions of which a store tells bind nothing. -/
theorem adds_steps (steps : Nat) :
    (∀ depth n N, Adds N (evaluate steps depth n)) ∧
    (∀ depth n, Adds (· ∈ n.declared) (execute steps depth n)) ∧
    ∀ depth f arguments N, Adds N (invoke steps depth f arguments) := by
  have h := adds_hosted Host.actsOnFields_ofStore.definesNothing steps
  obtain ⟨hevaluate, hexecute, hinvoke⟩ := hosted_id steps
  rw [hevaluate, hexecute, hinvoke] at h
  exact h

/-! ### Beginnings of bodies -/

/-- A step that begins only in a state with some property. -/
def starting (P : State → Bool) (step : Evaluation α) : Evaluation α := do
  ensure (P (← get))
  step

/-- A step whose beginning is as asked for is the step itself. -/
theorem run_starting {P : State → Bool} {s : State} (h : P s) (step : Evaluation α) :
    (starting P step).run s = step.run s := by
  rw [starting, EStateM.run_bind, EStateM.run_get]
  simp only
  rw [EStateM.run_bind, run_ensure, if_pos h]

end Evaluation

/-- The current scope binds some variables, and nothing else. -/
def State.Binds (vars : List Variable) (s : State) : Prop :=
  (s.store.scope s.current).vars = vars ∧ (s.store.scope s.current).functions = []

namespace Evaluation

/-- One more variable, bound in the current scope. -/
theorem binds_addVariable {vars : List Variable} {s : State} (hs : s.Binds vars)
    (hcurrent : s.current < s.store.scopes.size) (v : Variable) : State.Binds (vars ++ [v])
      { s with store := s.store.updateScope s.current (·.addVariable v) } := by
  have hscope := Store.scope_updateScope s.current (·.addVariable v) s.store s.current
  rw [if_pos ⟨rfl, hcurrent⟩] at hscope
  rw [State.Binds, hscope]
  exact ⟨congrArg (· ++ _) hs.1, hs.2⟩

/-- The scope that a call or a round of a loop opens binds nothing yet. -/
theorem binds_entered (q : ScopeId) (s : State) : (s.entered q).Binds [] := by
  have hscope : (s.entered q).store.scope (s.entered q).current = .empty (some q) := by
    simp only [State.entered, Store.scope_addScope, if_true]
  rw [State.Binds, hscope]
  exact ⟨rfl, rfl⟩

/-- The body of a loop begins in an empty scope. -/
theorem inNewScope_starting {P : State → Bool} (hP : ∀ s : State, s.Binds [] → P s)
    (step : Evaluation α) : inNewScope (starting P step) = inNewScope step := by
  funext s
  have hrun : ∀ step : Evaluation α, (inNewScope step).run s =
      returning s.current (step.run (s.entered s.current)) :=
    fun step => run_within_newScope s.current s
  have hstarting := run_starting (hP _ (binds_entered s.current s)) step
  exact (hrun _).trans ((congrArg _ hstarting).trans (hrun step).symm)

/-- The variables that the parameters of a function are. -/
def parameterVariables : List Label → List Value → List Variable :=
  List.zipWith fun name value => ⟨name, false, value⟩

/-- A variable that could be bound is in the current scope. -/
theorem of_run_defineVariable {name : Label} {isConstant : Bool} {value : Value} {s t : State}
    (h : (defineVariable name isConstant value).run s = .ok () t) :
    (s.store.scope s.current).findVariable? name = none ∧ t = { s with
      store := s.store.updateScope s.current (·.addVariable ⟨name, isConstant, value⟩) } := by
  rw [defineVariable, EStateM.run_bind, checkName] at h
  cases hkey : name.key? with
  | none =>
    rw [hkey] at h
    cases h
  | some key =>
    rw [hkey] at h
    have hstoring : (storing (Store.defineVariable s.current ⟨name, isConstant, value⟩)).run s =
        .ok () t := h
    rw [run_storing, Store.run_defineVariable] at hstoring
    cases hfound : (s.store.scope s.current).findVariable? name with
    | none =>
      rw [hfound] at hstoring
      cases hstoring
      exact ⟨rfl, rfl⟩
    | some v =>
      rw [hfound] at hstoring
      cases hstoring

/-- By induction on the parameters: each is bound after those before it. -/
theorem binds_bindParameters {vars : List Variable} {parameters : List Label}
    {arguments : List Value} {s t : State} (hs : s.Binds vars)
    (hcurrent : s.current < s.store.scopes.size)
    (hrun : (bindParameters parameters arguments).run s = .ok () t) :
    t.Binds (vars ++ parameterVariables parameters arguments) := by
  -- By induction on the parameters, which end where the arguments do.
  induction parameters generalizing arguments vars s with
  | nil =>
    cases hrun
    rw [parameterVariables, List.zipWith_nil_left, List.append_nil]
    exact hs
  | cons name names ih =>
    cases arguments with
    | nil =>
      cases hrun
      rw [parameterVariables, List.zipWith_nil_right, List.append_nil]
      exact hs
    | cons value values =>
      rw [bindParameters, EStateM.run_bind] at hrun
      cases hdefine : (defineVariable name false value).run s with
      | error h u =>
        rw [hdefine] at hrun
        cases hrun
      | ok _ u =>
        rw [hdefine] at hrun
        obtain ⟨-, rfl⟩ := of_run_defineVariable hdefine
        have hnext := binds_addVariable hs hcurrent ⟨name, false, value⟩
        have hsize := (Store.size_updateScope s.current (·.addVariable ⟨name, false, value⟩)
          s.store).symm
        have hbinds := ih hnext (Nat.lt_of_lt_of_eq hcurrent hsize) hrun
        rw [List.append_assoc] at hbinds
        exact hbinds

/-- The body of a function begins in a scope that binds the parameters, each to its argument. -/
theorem callDefined_starting {name : Label} {parameters : List Label} {arguments : List Value}
    {P : State → Bool}
    (hP : ∀ s : State, s.Binds (parameterVariables parameters arguments) → P s)
    (closure : ScopeId) (body : Evaluation Outcome) :
    callDefined name parameters closure (starting P body) arguments =
      callDefined name parameters closure body arguments := by
  have hscope : (do within (← newScope (some closure)) do
        bindParameters parameters arguments
        starting P body) =
      (do within (← newScope (some closure)) do
        bindParameters parameters arguments
        body) := by
    funext s
    refine (run_within_newScope closure s).trans ?_
    refine Eq.trans (congrArg _ ?_) (run_within_newScope closure s).symm
    rw [EStateM.run_bind, EStateM.run_bind]
    -- Where the parameters cannot be bound, the body does not begin.
    cases hrun : (bindParameters parameters arguments).run (s.entered closure) with
    | error h t => rfl
    | ok _ t =>
      have hcurrent : (s.entered closure).current < (s.entered closure).store.scopes.size :=
        Nat.lt_of_lt_of_eq (Nat.lt_succ_self _) (Store.size_addScope _ _).symm
      exact run_starting (hP t (binds_bindParameters (binds_entered closure s) hcurrent hrun)) body
  rw [callDefined, callDefined]
  split
  · rfl
  · refine congrArg _ (funext fun _ => ?_)
    rw [← bind_assoc, ← bind_assoc, hscope]

/-- Let the functions of a host define nothing. In any run and from any state, however it ends, a
    statement gives no scope that was there a new name but the current one, and this one only
    names of its declarations outside of all loops in it; an expression and a call give none at
    all. No function of a scope is lost or new. This is the run itself if the host does what the
    store tells of it. The body of a loop, made of any parts, begins in an empty scope in every
    round, and the body of a function in one that binds exactly the parameters: that nothing else
    is asked to begin there changes nothing. -/
theorem declarations_stay (host : Host) (hhost : host.DefinesNothing) (limits : Limits) :
    (∀ n, Adds (· ∈ n.declared) (executeHosted host id limits.steps limits.depth n)) ∧
    (∀ n, Adds (fun _ => False) (evaluateHosted host id limits.steps limits.depth n)) ∧
    (∀ f arguments,
      Adds (fun _ => False) (invokeHosted host id limits.steps limits.depth f arguments)) ∧
    (host = .ofStore →
      executeHosted host id limits.steps limits.depth = executeWithin limits ∧
      evaluateHosted host id limits.steps limits.depth = evaluateWithin limits ∧
      invokeHosted host id limits.steps limits.depth = invokeWithin limits) ∧
    (∀ (rounds : Nat) (e : Node → Evaluation Value) (x : Node → Evaluation Outcome)
        (P : State → Bool), (∀ s : State, s.Binds [] → P s) →
      (∀ test statements, executeNode rounds e x (.whileLoop test statements) =
        repeatWhile (condition .whileLoop (e test))
          (inNewScope (starting P (executeAll x statements))) (return ()) rounds) ∧
      ∀ initializer test increment statements,
        executeNode rounds e x (.forLoop initializer test increment statements) = inNewScope do
          executeOptional x initializer
          repeatWhile (condition .forLoop (e test))
            (inNewScope (starting P (executeAll x statements))) (executeOptional x increment)
            rounds) ∧
    ∀ (name : Label) (parameters : List Label) (closure : ScopeId) (body : Evaluation Outcome)
        (arguments : List Value) (P : State → Bool),
      (∀ s : State, s.Binds (parameterVariables parameters arguments) → P s) →
      callDefined name parameters closure body arguments =
        callDefined name parameters closure (starting P body) arguments := by
  obtain ⟨hevaluate, hexecute, hinvoke⟩ := adds_hosted hhost limits.steps
  refine ⟨hexecute limits.depth, fun n => hevaluate limits.depth n _,
    fun f arguments => hinvoke limits.depth f arguments _, ?_, fun rounds e x P hP => ⟨?_, ?_⟩,
    fun name parameters closure body arguments P hP => (callDefined_starting hP closure body).symm⟩
  · rintro rfl
    obtain ⟨hevaluate, hexecute, hinvoke⟩ := hosted_id limits.steps
    rw [hevaluate, hexecute, hinvoke]
    exact ⟨rfl, rfl, rfl⟩
  · intro test statements
    rw [inNewScope_starting hP, executeNode]
  · intro initializer test increment statements
    rw [inNewScope_starting hP, executeNode]

/-- A choice declares a name after a call of a function of the host, which gives a field its value;
    a loop declares none. -/
theorem declarations_stay_scaling :
    let factor : Node := .literal (.text "Integer") (.json (.integer 2))
    let call : Node := .call .absent (.text "scale") [factor]
    let n : Node := .choice call [.declaration (.text "y") call,
      .whileLoop call [.declaration (.text "z") .absent, .answer factor]] []
    scaling.DefinesNothing ∧
    Adds (· ∈ n.declared) (executeHosted scaling id 99 9 n) ∧
    n.declared = [.text "y"] ∧
    (stateAfter ((executeHosted scaling id 99 9 n).run .ofPoint)).store.scopes.toList.map
      (·.names.map Label.display) = [["p", "y"], ["x", "origin"], ["z"]] := by
  intro factor call n
  have hhost := actsOnFields_scaling.definesNothing
  obtain ⟨hexecute, -⟩ := declarations_stay scaling hhost ⟨9, 99⟩
  exact ⟨hhost, hexecute n, rfl, by decide +kernel⟩

end Evaluation

end Blockscript
