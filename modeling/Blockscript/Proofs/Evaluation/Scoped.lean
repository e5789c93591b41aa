import Blockscript.Proofs.Evaluation.Guarded
import Blockscript.Proofs.Evaluation.Results
import Blockscript.Proofs.Evaluation.Steps
import Blockscript.Proofs.Store.Chain

/-!
# Steps in lockstep

A step sees the scopes of the chain of the current scope, and no others. From two states
that *agree*, in their output and in all that is visible, it goes *in lockstep*: it gives
the same value or halts in the same way, and the states agree again. Scopes that are not
on the chain stay as they were; what a new scope holds is not seen any more when it is
left.

* `State.IsScoped`: the states of a run. All functions run inside the globals, which are on
  every chain;
* `State.Agrees`: two states in which the same is visible;
* `State.Leads`: a state and one after it;
* `Evaluation.Lockstep`: a step from two states, and the same step with a guard;
* `Lockstep.bind`, `Lockstep.guarded`, `Lockstep.inNewScope`, `Lockstep.inGlobals`: steps made
  of others.
-/

namespace Blockscript

/-- The place of the globals. -/
def Store.globals : ScopeId := 1

/-- The function that a method defines. -/
def Node.function : Node → Function
  | .method name parameters statements => .defined name parameters statements Store.globals
  | _ => .host "" 0 (.constant .nil)

/-- The standard store is ordered, as its one scope has no parent. -/
theorem Store.isOrdered_standard : Store.standard.IsOrdered := by
  rintro (_ | i) p hp
  · cases hp
  · cases hp

/-- What is given to a run: the methods of the program, and how much is logged. -/
structure Setting where
  methods : List Node
  level : Nat

/-- The states of a run with no values of the host. The globals have the scope of the host
    for a parent, and are on the chain of the current scope. The functions are those of the
    first methods, as many as the globals bind. -/
structure State.IsScoped (k : Setting) (s : State) : Prop where
  isOrdered : s.store.IsOrdered
  current_lt : s.current < s.store.scopes.size
  globals_mem : Store.globals ∈ s.store.chain s.current
  globals_parent : (s.store.scope Store.globals).parent = some Store.standardScope
  functions : s.store.functions.toList = .host "print" 1 .print ::
    (k.methods.take (s.store.scope Store.globals).functions.length).map Node.function
  objects : s.store.objects = #[]
  level : s.level = k.level
  logIsOpen : s.logIsOpen = decide (0 < k.level)
  digitLimit : s.digitLimit = none

/-- Two states with the same output, and with the same to be seen in their current scopes. -/
structure State.Agrees (s t : State) : Prop where
  output : s.output = t.output
  visible : s.store.visible s.current = t.store.visible t.current

/-- A state that follows another one in a run. Scopes are made, but those that were there
    keep their parents and functions, and change only on the chain of the current scope. -/
structure State.Leads (k : Setting) (s s' : State) : Prop where
  isScoped : s'.IsScoped k
  current : s'.current = s.current
  size_le : s.store.scopes.size ≤ s'.store.scopes.size
  parent : ∀ i < s.store.scopes.size, (s'.store.scope i).parent = (s.store.scope i).parent
  functions : ∀ i < s.store.scopes.size,
    (s'.store.scope i).functions = (s.store.scope i).functions
  scope : ∀ i < s.store.scopes.size, i ∉ s.store.chain s.current →
    s'.store.scope i = s.store.scope i

variable {k : Setting} {s s' s'' t : State} {i q r : ScopeId}

namespace State

/-! ### States of a run -/

/-- What is seen from the current scope is in the store. -/
theorem IsScoped.lt_of_mem (hs : s.IsScoped k) (h : i ∈ s.store.chain s.current) :
    i < s.store.scopes.size :=
  Nat.lt_of_le_of_lt (Store.le_of_mem_chain hs.isOrdered h) hs.current_lt

/-- The globals are seen inside the scope of the host. -/
theorem IsScoped.chain_globals (hs : s.IsScoped k) :
    s.store.chain Store.globals = [Store.globals, Store.standardScope] := by
  rw [Store.chain_of_parent hs.isOrdered hs.globals_parent]
  refine congrArg _ (Store.chain_of_root ?_)
  cases h : (s.store.scope Store.standardScope).parent with
  | none => rfl
  | some p => exact absurd (hs.isOrdered _ p h) (Nat.not_lt_zero p)

/-- The globals may be the current scope. -/
theorem IsScoped.inGlobals (hs : s.IsScoped k) :
    State.IsScoped k { s with current := Store.globals } :=
  ⟨hs.isOrdered, hs.lt_of_mem hs.globals_mem, Store.mem_chain_self _ _, hs.globals_parent,
    hs.functions, hs.objects, hs.level, hs.logIsOpen, hs.digitLimit⟩

/-- The output and what is logged do not matter. -/
theorem IsScoped.congr (hs : s.IsScoped k) (hstore : s'.store = s.store)
    (hcurrent : s'.current = s.current) (hlevel : s'.level = s.level)
    (hopen : s'.logIsOpen = s.logIsOpen) (hlimit : s'.digitLimit = s.digitLimit) :
    s'.IsScoped k := by
  obtain ⟨h₁, h₂, h₃, h₄, h₅, h₆, h₇, h₈, h₉⟩ := hs
  refine ⟨?_, ?_, ?_, ?_, ?_, ?_, hlevel.trans h₇, hopen.trans h₈, hlimit.trans h₉⟩ <;> rw [hstore]
  · exact h₁
  · exact hcurrent ▸ h₂
  · exact hcurrent ▸ h₃
  · exact h₄
  · exact h₅
  · exact h₆

/-- All functions of a program run inside the globals. -/
theorem IsScoped.closure_eq (hs : s.IsScoped k) {id : FunctionId} {name : Label}
    {parameters : List Label} {body : List Node} {closure : ScopeId}
    (h : s.store.functions[id]? = some (.defined name parameters body closure)) :
    closure = Store.globals := by
  rw [← Array.getElem?_toList, hs.functions] at h
  rcases List.mem_cons.1 (List.mem_of_getElem? h) with h | h
  · cases h
  · obtain ⟨n, _, hn⟩ := List.mem_map.1 h
    cases n <;> cases hn
    rfl

namespace Agrees

theorem refl (s : State) : s.Agrees s :=
  ⟨rfl, rfl⟩

/-- What is seen from the globals is the end of what is seen from any scope. -/
theorem visible_globals (hs : s.IsScoped k) (ht : t.IsScoped k) (h : s.Agrees t) :
    s.store.visible Store.globals = t.store.visible Store.globals := by
  obtain ⟨ids, _, _, heq⟩ := Store.exists_visible_eq hs.isOrdered hs.globals_mem
  obtain ⟨ids', _, _, heq'⟩ := Store.exists_visible_eq ht.isOrdered ht.globals_mem
  have hvisible := h.visible
  rw [heq, heq'] at hvisible
  refine (List.append_inj' hvisible ?_).2
  rw [Store.visible, Store.visible, List.length_map, List.length_map, hs.chain_globals,
    ht.chain_globals]

end Agrees

/-- States in which the same is seen from the globals have the same functions. -/
theorem functions_eq (hs : s.IsScoped k) (ht : t.IsScoped k)
    (h : s.store.visible Store.globals = t.store.visible Store.globals) :
    s.store.functions = t.store.functions := by
  rw [Store.visible, Store.visible, hs.chain_globals, ht.chain_globals] at h
  have hfunctions := congrArg Scope.functions (List.cons.inj h).1
  rw [← Array.toList_inj, hs.functions, ht.functions]
  exact congrArg (fun l : List FunctionBinding =>
    Function.host "print" 1 .print :: (k.methods.take l.length).map Node.function) hfunctions

/-! ### One state after the other -/

namespace Leads

theorem refl (hs : s.IsScoped k) : s.Leads k s :=
  ⟨hs, rfl, Nat.le_refl _, fun _ _ => rfl, fun _ _ => rfl, fun _ _ _ => rfl⟩

/-- A scope keeps its chain, as parents do not change. -/
theorem chain_eq (hs : s.IsScoped k) (h : s.Leads k s') (hi : i < s.store.scopes.size) :
    s'.store.chain i = s.store.chain i :=
  Store.chain_congr fun j hj =>
    h.parent j (Nat.lt_of_le_of_lt (Store.le_of_mem_chain hs.isOrdered hj) hi)

theorem trans (hs : s.IsScoped k) (h : s.Leads k s') (h' : s'.Leads k s'') : s.Leads k s'' := by
  refine ⟨h'.isScoped, h'.current.trans h.current, Nat.le_trans h.size_le h'.size_le, ?_, ?_, ?_⟩
  · exact fun i hi => (h'.parent i (Nat.lt_of_lt_of_le hi h.size_le)).trans (h.parent i hi)
  · exact fun i hi => (h'.functions i (Nat.lt_of_lt_of_le hi h.size_le)).trans (h.functions i hi)
  · intro i hi hmem
    refine (h'.scope i (Nat.lt_of_lt_of_le hi h.size_le) ?_).trans (h.scope i hi hmem)
    rw [h.current, h.chain_eq hs hs.current_lt]
    exact hmem

/-- Output and log are not looked at. -/
theorem of_store_eq (hs : s.IsScoped k) (hstore : s'.store = s.store)
    (hcurrent : s'.current = s.current) (hlevel : s'.level = s.level)
    (hopen : s'.logIsOpen = s.logIsOpen) (hlimit : s'.digitLimit = s.digitLimit) :
    s.Leads k s' := by
  refine ⟨hs.congr hstore hcurrent hlevel hopen hlimit, hcurrent, ?_, fun i _ => ?_, fun i _ => ?_,
    fun i _ _ => ?_⟩
  · exact Nat.le_of_eq (by rw [hstore])
  all_goals rw [hstore]

/-- Variables of the chain may be bound and may change. -/
theorem updateScope (hs : s.IsScoped k) {owner : ScopeId} {g : Scope → Scope}
    (howner : owner ∈ s.store.chain s.current) (hparent : ∀ c, (g c).parent = c.parent)
    (hfunctions : ∀ c, (g c).functions = c.functions) :
    s.Leads k { s with store := s.store.updateScope owner g } := by
  have hscope := Store.scope_updateScope owner g s.store
  have hsize := Store.size_updateScope owner g s.store
  -- Only the variables of one scope on the chain change.
  have hbound : ∀ i, ((s.store.updateScope owner g).scope i).functions =
      (s.store.scope i).functions := by
    intro i
    rw [hscope]
    split
    · exact hfunctions _
    · rfl
  refine ⟨⟨Store.isOrdered_updateScope hs.isOrdered hparent owner, ?_, ?_, ?_, ?_, hs.objects,
    hs.level, hs.logIsOpen, hs.digitLimit⟩, rfl, Nat.le_of_eq hsize.symm, ?_,
    fun i _ => hbound i, ?_⟩
  · exact hsize ▸ hs.current_lt
  · simp only [Store.chain_updateScope hparent]
    exact hs.globals_mem
  · simp only [Store.parent_updateScope hparent]
    exact hs.globals_parent
  · simp only [hbound]
    exact hs.functions
  · exact fun i _ => Store.parent_updateScope hparent owner
  · intro i _ hi
    have hne : i ≠ owner := fun h => hi (h ▸ howner)
    simp only [hscope, if_neg fun h : i = owner ∧ _ => hne h.1]

end Leads

/-! ### Entering and leaving a scope -/

/-- The state in a new scope inside another one. -/
def entered (q : ScopeId) (s : State) : State :=
  { s with store := s.store.addScope (some q), current := s.store.scopes.size }

/-- Entering a scope changes no other one. -/
theorem scope_entered (q : ScopeId) (hi : i < s.store.scopes.size) :
    (s.entered q).store.scope i = s.store.scope i := by
  simp only [entered, Store.scope_addScope, if_neg (Nat.ne_of_lt hi)]

/-- Entering a scope adds one. -/
theorem size_entered (q : ScopeId) (s : State) :
    (s.entered q).store.scopes.size = s.store.scopes.size + 1 :=
  Store.size_addScope (some q) s.store

theorem parent_entered (q : ScopeId) (s : State) :
    ((s.entered q).store.scope (s.entered q).current).parent = some q := by
  simp only [entered, Store.scope_addScope, if_true]
  rfl

section Entered

variable (hs : s.IsScoped k) (hq : q ∈ s.store.chain s.current)

include hs hq

theorem isOrdered_entered : (s.entered q).store.IsOrdered :=
  Store.isOrdered_addScope hs.isOrdered (hs.lt_of_mem hq)

/-- What is seen from the scope that is entered is the scope itself and what its parent sees. -/
theorem chain_entered : (s.entered q).store.chain (s.entered q).current =
    (s.entered q).current :: s.store.chain q := by
  rw [Store.chain_of_parent (isOrdered_entered hs hq) (s.parent_entered q)]
  refine congrArg _ (Store.chain_congr fun j hj => ?_)
  have hle := Store.le_of_mem_chain hs.isOrdered hj
  rw [scope_entered q (Nat.lt_of_le_of_lt hle (hs.lt_of_mem hq))]

/-- The scope that is entered binds nothing yet. -/
theorem visible_entered : (s.entered q).store.visible (s.entered q).current =
    .empty none :: s.store.visible q :=
  Store.visible_addScope hs.isOrdered (hs.lt_of_mem hq)

/-- Inside any scope from which the globals are seen, the run goes on in a proper state. -/
theorem IsScoped.entered (hglobals : Store.globals ∈ s.store.chain q) :
    (s.entered q).IsScoped k := by
  have hlt : Store.globals < s.store.scopes.size := hs.lt_of_mem hs.globals_mem
  refine ⟨isOrdered_entered hs hq, ?_, ?_, ?_, ?_, hs.objects, hs.level, hs.logIsOpen,
    hs.digitLimit⟩
  · exact Nat.lt_of_lt_of_eq (Nat.lt_succ_self _) (Store.size_addScope (some q) s.store).symm
  · rw [chain_entered hs hq]
    exact List.mem_cons_of_mem _ hglobals
  · rw [scope_entered q hlt]
    exact hs.globals_parent
  · rw [scope_entered q hlt]
    exact hs.functions

/-- What is not on the chain of the parent is the same when a new scope is left. -/
theorem Leads.scope_returning (h : (s.entered q).Leads k s') (hi : i < s.store.scopes.size)
    (hmem : i ∉ s.store.chain q) : s'.store.scope i = s.store.scope i := by
  have hlt := Nat.lt_of_lt_of_eq (Nat.lt_succ_of_lt hi) (Store.size_addScope (some q) s.store).symm
  refine (h.scope i hlt ?_).trans (scope_entered q hi)
  rw [chain_entered hs hq]
  -- The new scope is none of those that were there.
  rintro (_ | ⟨_, hmem'⟩)
  · exact Nat.lt_irrefl _ hi
  · exact hmem hmem'

/-- Leaving a new scope, after anything has been done in it. -/
theorem Leads.returning (h : (s.entered q).Leads k s') :
    s.Leads k { s' with current := s.current } := by
  have hsize := Store.size_addScope (some q) s.store
  have hle : s.store.scopes.size ≤ s'.store.scopes.size :=
    Nat.le_trans (hsize ▸ Nat.le_succ _) h.size_le
  have hparent : ∀ i < s.store.scopes.size,
      (s'.store.scope i).parent = (s.store.scope i).parent := fun i hi =>
    (h.parent i (Nat.lt_of_lt_of_eq (Nat.lt_succ_of_lt hi) hsize.symm)).trans
      (by rw [scope_entered q hi])
  have hfunctions : ∀ i < s.store.scopes.size,
      (s'.store.scope i).functions = (s.store.scope i).functions := fun i hi =>
    (h.functions i (Nat.lt_of_lt_of_eq (Nat.lt_succ_of_lt hi) hsize.symm)).trans
      (by rw [scope_entered q hi])
  have hchain : s'.store.chain s.current = s.store.chain s.current :=
    Store.chain_congr fun i hi => hparent i (hs.lt_of_mem hi)
  obtain ⟨h₁, _, _, h₄, h₅, h₆, h₇, h₈, h₉⟩ := h.isScoped
  refine ⟨⟨h₁, Nat.lt_of_lt_of_le hs.current_lt hle, ?_, h₄, h₅, h₆, h₇, h₈, h₉⟩, rfl, hle, hparent,
    hfunctions, fun i hi hmem => ?_⟩
  · exact hchain ▸ hs.globals_mem
  · have hmem' : i ∉ s.store.chain q :=
      fun h => hmem ((Store.chain_suffix hs.isOrdered hq).subset h)
    exact (h.scope_returning hs hq hi hmem' :)

/-- What is seen after a new scope has been left: what was seen before its parent, and what
    has been seen inside, but for the new scope itself. -/
theorem Leads.exists_visible_returning (hglobals : Store.globals ∈ s.store.chain q)
    (h : (s.entered q).Leads k s') : ∃ own, s.store.visible s.current = own ++ s.store.visible q ∧
      s'.store.visible s.current = own ++ (s'.store.visible s'.current).tail := by
  obtain ⟨ids, hchain, hids, hvisible⟩ := Store.exists_visible_eq hs.isOrdered hq
  refine ⟨_, hvisible, ?_⟩
  have hentered := hs.entered hq hglobals
  have houter : s'.store.chain s.current = s.store.chain s.current :=
    ((h.returning hs hq).chain_eq hs hs.current_lt :)
  have hinner : s'.store.chain s'.current = (s.entered q).current :: s.store.chain q := by
    rw [h.current, h.chain_eq hentered hentered.current_lt, chain_entered hs hq]
  rw [Store.visible, Store.visible, houter, hinner, hchain, List.map_append, List.map_cons,
    List.tail_cons]
  refine congrArg (· ++ _) (List.map_congr_left fun j hj => ?_)
  have hmem : j ∈ s.store.chain s.current := hchain ▸ List.mem_append_left _ hj
  rw [h.scope_returning hs hq (hs.lt_of_mem hmem) (hids j hj)]

end Entered

end State

namespace Evaluation

variable {α β : Type}

/-- Steps from two states end in the same way, in states that agree. -/
structure Alike (k : Setting) (s t : State) (x y : EStateM.Result Halt State α) : Prop where
  value : valueOf x = valueOf y
  agrees : (stateAfter x).Agrees (stateAfter y)
  left : s.Leads k (stateAfter x)
  right : t.Leads k (stateAfter y)

/-- From states that agree, a step ends in the same way, and so does the same step with a
    guard. -/
def Lockstep (k : Setting) (guard step : Evaluation α) : Prop :=
  ∀ s t, s.IsScoped k → t.IsScoped k → s.Agrees t →
    guard.run s = step.run s ∧ Alike k s t (step.run s) (step.run t)

/-- From states that agree, a step ends in the same way. -/
abbrev Uniform (k : Setting) (step : Evaluation α) : Prop :=
  Lockstep k step step

variable {g p : Evaluation α} {g' f : α → Evaluation β}

/-- A step without guarded parts, by its run. -/
theorem uniform_of_run (h : ∀ s t, s.IsScoped k → t.IsScoped k → s.Agrees t →
    Alike k s t (p.run s) (p.run t)) : Uniform k p :=
  fun s t hs ht hst => ⟨rfl, h s t hs ht hst⟩

namespace Lockstep

/-- A step that is in step with another one does the same from states that agree. -/
theorem uniform (h : Lockstep k g p) : Uniform k p :=
  uniform_of_run fun s t hs ht hst => (h s t hs ht hst).2

/-- The state after a step is led to by the one before. -/
theorem leads (h : Lockstep k g p) (hs : s.IsScoped k) : s.Leads k (stateAfter (p.run s)) :=
  (h s s hs hs (.refl s)).2.left

theorem pure (a : α) : Uniform k (Pure.pure a : Evaluation α) :=
  uniform_of_run fun _ _ hs ht h => ⟨rfl, h, .refl hs, .refl ht⟩

theorem throw (h : Halt) : Uniform k (MonadExcept.throw h : Evaluation α) :=
  uniform_of_run fun _ _ hs ht h => ⟨rfl, h, .refl hs, .refl ht⟩

/-- Steps one after the other stay in step. -/
theorem bind (hp : Lockstep k g p) (hf : ∀ a, Lockstep k (g' a) (f a)) :
    Lockstep k (g >>= g') (p >>= f) := by
  -- Both runs fail alike or both go on, for their values are equal; the states they go on in still
  -- agree.
  intro s t hs ht hst
  obtain ⟨heq, hvalue, hagrees, hleft, hright⟩ := hp s t hs ht hst
  rw [EStateM.run_bind, EStateM.run_bind, EStateM.run_bind, heq]
  cases hx : p.run s with
  | error h s' =>
    rw [hx] at hvalue hagrees hleft
    cases hy : p.run t with
    | error h' t' =>
      rw [hy] at hvalue hagrees hright
      obtain rfl := Except.error.inj hvalue
      exact ⟨rfl, rfl, hagrees, hleft, hright⟩
    | ok b t' =>
      rw [hy] at hvalue
      exact nomatch hvalue
  | ok a s' =>
    rw [hx] at hvalue hagrees hleft
    cases hy : p.run t with
    | error h' t' =>
      rw [hy] at hvalue
      exact nomatch hvalue
    | ok b t' =>
      rw [hy] at hvalue hagrees hright
      obtain rfl := Except.ok.inj hvalue
      obtain ⟨heq', hvalue', hagrees', hleft', hright'⟩ :=
        hf a s' t' hleft.isScoped hright.isScoped hagrees
      exact ⟨heq', hvalue', hagrees', hleft.trans hs hleft', hright.trans ht hright'⟩

/-- What is read from the state has to be the same in states that agree. -/
theorem get {g f : State → Evaluation α}
    (hcongr : ∀ s t, s.IsScoped k → t.IsScoped k → s.Agrees t → f s = f t)
    (h : ∀ s, s.IsScoped k → Lockstep k (g s) (f s)) :
    Lockstep k (MonadState.get >>= g) (MonadState.get >>= f) := by
  intro s t hs ht hst
  obtain ⟨heq, halike⟩ := h s hs s t hs ht hst
  refine ⟨heq, ?_⟩
  have hright : (MonadState.get >>= f).run t = (f s).run t := by
    rw [hcongr s t hs ht hst]
    rfl
  rw [hright]
  exact halike

/-- A guard that all states of a run have does not halt it. -/
theorem guarded {P : State → Bool} (hP : ∀ s, s.IsScoped k → P s) (h : Lockstep k g p) :
    Lockstep k (Evaluation.guarded P g) p := by
  intro s t hs ht hst
  obtain ⟨heq, halike⟩ := h s t hs ht hst
  refine ⟨?_, halike⟩
  have hleft := halike.left.isScoped
  rw [run_guarded, if_pos (hP s hs), heq]
  cases hx : p.run s with
  | error h s' => rfl
  | ok a s' =>
    rw [hx] at hleft
    exact if_pos (hP s' hleft)

end Lockstep

/-! ### Scopes -/

/-- A state with another current scope. -/
def returning (c : ScopeId) : EStateM.Result Halt State α → EStateM.Result Halt State α
  | .ok a s => .ok a { s with current := c }
  | .error h s => .error h { s with current := c }

/-- That the scope before is the current one again does not change the value. -/
theorem valueOf_returning (c : ScopeId) (x : EStateM.Result Halt State α) :
    valueOf (returning c x) = valueOf x := by
  cases x <;> rfl

theorem stateAfter_returning (c : ScopeId) (x : EStateM.Result Halt State α) :
    stateAfter (returning c x) = { stateAfter x with current := c } := by
  cases x <;> rfl

/-- A step in another scope, and the scope before. -/
theorem run_within (c : ScopeId) (s : State) :
    (within c p).run s = returning s.current (p.run { s with current := c }) := by
  have hrun : (within c p).run s = match p.run { s with current := c } with
      | .ok a t => EStateM.Result.ok a { t with current := s.current }
      | .error h t => EStateM.Result.error h { t with current := s.current } := rfl
  rw [hrun]
  cases p.run { s with current := c } <;> rfl

/-- A step in a new scope, and the scope before. -/
theorem run_within_newScope (q : ScopeId) (s : State) :
    (do within (← newScope (some q)) p).run s = returning s.current (p.run (s.entered q)) := by
  obtain ⟨store, current, output, level, log, logIsOpen, digitLimit⟩ := s
  exact run_within store.scopes.size _

/-- What is seen when new scopes are left in which the same was done. -/
theorem Alike.returning (hs : s.IsScoped k) (ht : t.IsScoped k) (hst : s.Agrees t)
    (hq : q ∈ s.store.chain s.current) (hr : r ∈ t.store.chain t.current)
    (hglobals : Store.globals ∈ s.store.chain q) (hglobals' : Store.globals ∈ t.store.chain r)
    (hvisible : s.store.visible q = t.store.visible r) {x y : EStateM.Result Halt State α}
    (h : Alike k (s.entered q) (t.entered r) x y) :
    Alike k s t (Evaluation.returning s.current x) (Evaluation.returning t.current y) := by
  refine ⟨?_, ?_, ?_, ?_⟩
  · rw [valueOf_returning, valueOf_returning]
    exact h.value
  · rw [stateAfter_returning, stateAfter_returning]
    obtain ⟨own, hown, hseen⟩ := h.left.exists_visible_returning hs hq hglobals
    obtain ⟨own', hown', hseen'⟩ := h.right.exists_visible_returning ht hr hglobals'
    refine ⟨h.agrees.output, ?_⟩
    -- What is seen before the parent is the same on both sides, as it was before.
    have heq := hst.visible
    rw [hown, hown', hvisible] at heq
    rw [List.append_cancel_right heq, h.agrees.visible, ← hseen'] at hseen
    exact hseen
  · rw [stateAfter_returning]
    exact h.left.returning hs hq
  · rw [stateAfter_returning]
    exact h.right.returning ht hr

namespace Lockstep

/-- A step does the same in new scopes if the same is seen from their parents. -/
theorem within (h : Lockstep k g p) (hs : s.IsScoped k) (ht : t.IsScoped k) (hst : s.Agrees t)
    (hq : q ∈ s.store.chain s.current) (hr : r ∈ t.store.chain t.current)
    (hglobals : Store.globals ∈ s.store.chain q) (hglobals' : Store.globals ∈ t.store.chain r)
    (hvisible : s.store.visible q = t.store.visible r) :
    (do Evaluation.within (← newScope (some q)) g).run s =
        (do Evaluation.within (← newScope (some q)) p).run s ∧
      Alike k s t ((do Evaluation.within (← newScope (some q)) p).run s)
        ((do Evaluation.within (← newScope (some r)) p).run t) := by
  have hagrees : (s.entered q).Agrees (t.entered r) := by
    refine ⟨hst.output, ?_⟩
    rw [State.visible_entered hs hq, State.visible_entered ht hr, hvisible]
  obtain ⟨heq, halike⟩ := h _ _ (hs.entered hq hglobals) (ht.entered hr hglobals') hagrees
  rw [run_within_newScope, run_within_newScope, run_within_newScope, heq]
  exact ⟨rfl, halike.returning hs ht hst hq hr hglobals hglobals' hvisible⟩

theorem inNewScope (h : Lockstep k g p) :
    Lockstep k (Evaluation.inNewScope g) (Evaluation.inNewScope p) :=
  fun _ _ hs ht hst => h.within hs ht hst (Store.mem_chain_self _ _) (Store.mem_chain_self _ _)
    hs.globals_mem ht.globals_mem hst.visible

/-- A call opens a scope inside the globals, wherever it is made. -/
theorem inGlobals (h : Lockstep k g p) :
    Lockstep k (do Evaluation.within (← newScope (some Store.globals)) g)
      (do Evaluation.within (← newScope (some Store.globals)) p) :=
  fun _ _ hs ht hst => h.within hs ht hst hs.globals_mem ht.globals_mem
    (Store.mem_chain_self _ _) (Store.mem_chain_self _ _) (hst.visible_globals hs ht)

end Lockstep

end Evaluation

end Blockscript
