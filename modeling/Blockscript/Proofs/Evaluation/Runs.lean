import Blockscript.Proofs.Evaluation.Congruence

/-!
# Relations that whole runs respect

A congruence that also respects entering the scope of a call, wherever that is, and binding a
function is respected by calls, by the definition of methods, and so by whole runs. Most
relations of this kind do not look at the store at all: they respect every step on it.

* `Evaluation.IsRunCongruence`: what single steps have to respect;
* `IsRunCongruence.callFunction`, `IsRunCongruence.declareMethod`, `IsRunCongruence.runNode`:
  calls, methods and programs;
* `Evaluation.IsStoreCongruence`: relations that do not look at the store.
-/

namespace Blockscript.Evaluation

/-- A relation of steps that is also respected by entering a scope inside any other one, and by
    binding a function. -/
structure IsRunCongruence (R : {α : Type} → Evaluation α → Evaluation α → Prop)
    (E : Nat → Evaluation Event → Prop := Makes) : Prop extends IsCongruence R E where
  inScope {α : Type} {p' p : Evaluation α} (closure : ScopeId) : R p' p →
    R (do within (← newScope (some closure)) p') (do within (← newScope (some closure)) p)
  getCurrent {α : Type} {f' f : ScopeId → Evaluation α} : (∀ c, R (f' c) (f c)) →
    R (do f' (← get).current) (do f (← get).current)
  getFunction {α : Type} {f' f : Option Function → Evaluation α} (id : FunctionId) :
    (∀ o, R (f' o) (f o)) →
    R (do f' (← get).store.functions[id]?) (do f (← get).store.functions[id]?)
  defineFunction (name : Label) (arity : Int) (f : Function) :
    R (Evaluation.defineFunction name arity f) (Evaluation.defineFunction name arity f)

variable {R : {α : Type} → Evaluation α → Evaluation α → Prop}
  {E : Nat → Evaluation Event → Prop}

namespace IsRunCongruence

section Calls

variable (hR : IsRunCongruence R)

include hR

/-- A call of a function that a program defines binds its parameters in a new scope, and runs its
    body there. -/
theorem callDefined {name : Label} {parameters : List Label} (closure : ScopeId)
    {body' body : Evaluation Outcome} (h : R body' body) (arguments : List Value) :
    R (Evaluation.callDefined name parameters closure body' arguments)
      (Evaluation.callDefined name parameters closure body arguments) :=
  hR.toIsCompatible.callDefined (hR.inScope closure
    (hR.bind (hR.bindParameters parameters arguments) fun _ => h))

/-- A call looks up the function, and does what its body or its host does. -/
theorem callFunction {x' x : (depth : Nat) → Node → Evaluation Outcome}
    (hx : ∀ depth n, R (x' depth n) (x depth n)) (depth : Nat) (id : FunctionId)
    (arguments : List Value) : R (Evaluation.callFunction x' depth id arguments)
      (Evaluation.callFunction x depth id arguments) := by
  rw [callFunction_eq, callFunction_eq]
  refine hR.getFunction id fun o => ?_
  rcases o with _ | (⟨name, parameters, body, closure⟩ | ⟨_, _, action⟩)
  · exact hR.throw _
  · cases depth with
    | zero => exact hR.throw _
    | succ depth =>
      exact hR.callDefined closure (hR.executeAll fun n _ => hx depth n) arguments
  · exact hR.perform (action.respond arguments)

end Calls

variable (hR : IsRunCongruence R E)

include hR

/-- A method is defined, whatever its body is. -/
theorem declareMethod (n : Node) :
    R (Evaluation.declareMethod n) (Evaluation.declareMethod n) := by
  cases n with
  | method name parameters statements =>
    exact hR.getCurrent fun scope => hR.bind (hR.defineFunction name _ _) fun _ =>
      hR.logFrom (hR.pure _) (hR.makes (by decide) (makes_define name parameters.length))
  | _ => exact hR.throw _

/-- A program declares its fields and methods, calls `main`, and closes the log. -/
theorem runNode {d' d : Node → Evaluation Unit} (hd : ∀ n, R (d' n) (d n))
    {c' c : FunctionId → List Value → Evaluation Value}
    (hc : ∀ id arguments, R (c' id arguments) (c id arguments)) (n : Node) :
    R (Evaluation.runNode d' c' n) (Evaluation.runNode d c n) := by
  cases n with
  | program fields methods =>
    exact hR.bind (hR.forM hd) fun _ => hR.bind (hR.forM hR.declareMethod) fun _ =>
      hR.bind (hR.lookupFunction _ _) fun main => hc main []
  | _ => exact hR.throw _

end IsRunCongruence

/-! ### Relations that do not look at the store -/

/-- A relation of steps that is respected by all steps on the store. -/
structure IsStoreCongruence (R : {α : Type} → Evaluation α → Evaluation α → Prop)
    (E : Nat → Evaluation Event → Prop := Makes) : Prop where
  pure {α : Type} (a : α) : R (Pure.pure a) (Pure.pure a)
  throw {α : Type} (h : Halt) :
    R (MonadExcept.throw h : Evaluation α) (MonadExcept.throw h : Evaluation α)
  bind {α β : Type} {p' p : Evaluation α} {f' f : α → Evaluation β} :
    R p' p → (∀ a, R (f' a) (f a)) → R (p' >>= f') (p >>= f)
  logFrom {event' event : Evaluation Event} {level : Nat} : R event' event → E level event →
    R (Evaluation.logFrom level event') (Evaluation.logFrom level event)
  makes {event : Evaluation Event} {level : Nat} : Event.callLevel < level → Makes level event →
    E level event := by exact fun _ h => h
  print (line : String) :
    R (modify (·.print line) : Evaluation PUnit) (modify (·.print line) : Evaluation PUnit)
  checkDigits (exceeds : Nat → Bool) :
    R (Evaluation.checkDigits exceeds) (Evaluation.checkDigits exceeds)
  storing {α : Type} (step : Storing α) : R (Evaluation.storing step) (Evaluation.storing step)
  current : R (do return (← get).current) (do return (← get).current)
  within {α : Type} {p' p : Evaluation α} (c : ScopeId) : R p' p →
    R (Evaluation.within c p') (Evaluation.within c p)

namespace IsStoreCongruence

variable (hR : IsStoreCongruence R E) {α : Type}

include hR

theorem getCurrent {f' f : ScopeId → Evaluation α} (h : ∀ c, R (f' c) (f c)) :
    R (do f' (← get).current) (do f (← get).current) := by
  have hbind := hR.bind hR.current h
  exact hbind

/-- What follows may depend on the store, if that is the same on both sides. -/
theorem getStore {f' f : Store → Evaluation α} (h : ∀ t, R (f' t) (f t)) :
    R (do f' (← get).store) (do f (← get).store) := by
  have hbind := hR.bind (hR.storing MonadState.get) h
  exact hbind

theorem storingCurrent (step : ScopeId → Storing α) :
    R (do Evaluation.storing (step (← get).current))
      (do Evaluation.storing (step (← get).current)) :=
  hR.getCurrent fun c => hR.storing (step c)

/-- A change of the store is the same on both sides. -/
theorem mapStore (g : Store → Store) :
    R (modify (·.mapStore g) : Evaluation PUnit) (modify (·.mapStore g) : Evaluation PUnit) :=
  hR.storing (modify g)

theorem checkName (name : Label) : R (Evaluation.checkName name) (Evaluation.checkName name) := by
  rw [Evaluation.checkName]
  split
  · exact hR.pure ()
  · exact hR.throw _

theorem newScope (parent : Option ScopeId) :
    R (Evaluation.newScope parent) (Evaluation.newScope parent) :=
  hR.getStore fun t => hR.bind (hR.mapStore _) fun _ => hR.pure t.scopes.size

/-- The text of a value is a matter of the store alone. -/
theorem textOf (v : Value) : R (Evaluation.textOf v) (Evaluation.textOf v) := by
  -- Only the store is looked at: what cannot be written is thrown afterwards.
  have htext : ∀ x : Except Halt String, R (MonadExcept.ofExcept x) (MonadExcept.ofExcept x) := by
    intro x
    cases x with
    | ok text => exact hR.pure text
    | error h => exact hR.throw h
  have heq : Evaluation.textOf v =
      (do MonadExcept.ofExcept ((← get).store.display v)) := by
    refine bind_congr fun s => ?_
    cases s.store.display v <;> rfl
  rw [heq]
  exact hR.getStore fun t => htext (t.display v)

theorem readVariable (name : Label) :
    R (Evaluation.readVariable name) (Evaluation.readVariable name) := by
  refine hR.bind (hR.checkName name) fun _ => ?_
  have hvalue := fun c =>
    hR.bind (hR.storing (Store.lookupVariable c name)) fun v => hR.pure v.value
  exact hR.getCurrent hvalue

/-- A relation that does not look at the store is kept by all that runs are made of: their other
    steps look at it, or change it. -/
theorem isRunCongruence : IsRunCongruence R E where
  pure := hR.pure
  throw := hR.throw
  bind := hR.bind
  logFrom := hR.logFrom
  makes := hR.makes
  print := hR.print
  checkDigits := hR.checkDigits
  textOf := hR.textOf
  getField _ field := hR.bind (hR.checkName field) fun _ => hR.storing _
  setField _ field _ := hR.bind (hR.checkName field) fun _ => hR.storing _
  lookupMethod _ name _ := hR.bind (hR.checkName name) fun _ => hR.storing _
  readVariable := hR.readVariable
  assignVariable name v := hR.bind (hR.checkName name) fun _ =>
    hR.storingCurrent (Store.assignVariable · name v)
  lookupFunction name arity := hR.bind (hR.checkName name) fun _ =>
    hR.storingCurrent (Store.lookupFunction · name arity)
  inNewScope h := hR.getCurrent fun _ => hR.bind (hR.newScope _) fun c => hR.within c h
  defineVariable name isConstant v := hR.bind (hR.checkName name) fun _ =>
    hR.storingCurrent (Store.defineVariable · ⟨name, isConstant, v⟩)
  inScope _ h := hR.bind (hR.newScope _) fun c => hR.within c h
  getCurrent := hR.getCurrent
  getFunction id h := hR.getStore fun t => h t.functions[id]?
  defineFunction name arity f := hR.getStore fun t => hR.bind (hR.mapStore (Store.addFunction f))
    fun _ => hR.bind (hR.checkName name) fun _ =>
      hR.storingCurrent (Store.defineFunction · ⟨name, arity, t.functions.size⟩)

end IsStoreCongruence

end Blockscript.Evaluation
