import Blockscript.Proofs.Evaluation.Declared
import Blockscript.Proofs.Evaluation.Lexicality
import Blockscript.Proofs.Evaluation.Orderly
import Blockscript.Proofs.Syntax.Size

/-!
# Scopes that are overlooked

A scope that binds no functions, and none of the variables that an expression names, is
*overlooked* by it: the expression does in that scope what it does in the scope around it. The
functions that it calls do not make a difference, because their bodies begin in the globals
wherever they are called.

* `State.Hides`: a current scope that binds no functions and none of some variables;
* `Hides.findVariable?_eq`, `Hides.findFunction?_eq`, `Hides.functionArities_eq`: what is looked
  up from it is found in the scope around it;
* `Evaluation.Overlooks`: a step that does the same in the scope around the current one;
* `isCompatible_overlooks`, `Overlooks.readVariable`, …: steps, and what is made of them;
* `overlooks_evaluate`, `overlooks_assign`: expressions and assignments.
-/

namespace Blockscript

open Node

/-- There is no variable of a name where no variable has it. -/
theorem Scope.findVariable?_eq_none_iff {c : Scope} {x : Label} :
    c.findVariable? x = none ↔ ∀ y ∈ c.names, y.same x = false := by
  rw [findVariable?, List.find?_eq_none, names, List.forall_mem_map]
  simp only [Bool.not_eq_true]

/-- A current scope inside another one, which binds no functions and none of some variables. -/
structure State.Hides (N : Label → Prop) (d : ScopeId) (s : State) : Prop where
  parent : (s.store.scope s.current).parent = some d
  functions : (s.store.scope s.current).functions = []
  findVariable? : ∀ x, N x → (s.store.scope s.current).findVariable? x = none

namespace State.Hides

variable {N : Label → Prop} {d : ScopeId} {s t : State} (hs : s.IsOrderly) (h : s.Hides N d)

include hs h

/-- As long as nothing is bound in it, the scope stays what it is. -/
theorem of_grows (hgrows : s.Grows t) (hgains : s.Gains (fun _ => False) t) : t.Hides N d := by
  obtain ⟨hparent, hfunctions, hvars⟩ := h
  rw [← hgrows.current] at hparent hfunctions hvars
  have hlt : t.current < s.store.scopes.size := hgrows.current ▸ hs.current_lt
  obtain ⟨added, hnames, hadded⟩ := hgains.names t.current hlt
  -- What has been added to the names of the scope is nothing.
  have hnil : added = [] := List.eq_nil_iff_forall_not_mem.2 fun x hx => (hadded x hx).2
  refine ⟨(hgrows.parent _ hlt).trans hparent, (hgains.functions _).trans hfunctions,
    fun x hx => ?_⟩
  rw [Scope.findVariable?_eq_none_iff, hnames, hnil, List.append_nil]
  exact Scope.findVariable?_eq_none_iff.1 (hvars x hx)

/-- From inside, the scope that hides some names is seen first, and then what is seen from outside.
    -/
theorem chain_eq : s.store.chain s.current = s.current :: s.store.chain d :=
  Store.chain_of_parent hs.isOrdered h.parent

/-- A name that is not hidden is found in the same scope from inside. -/
theorem findVariable?_eq {x : Label} (hx : N x) :
    s.store.findVariable? s.current x = s.store.findVariable? d x := by
  rw [Store.findVariable?, h.chain_eq hs, List.findSome?_cons, h.findVariable? x hx]
  rfl

/-- Functions are not hidden. -/
theorem findFunction?_eq (x : Label) (arity : Int) :
    s.store.findFunction? s.current x arity = s.store.findFunction? d x arity := by
  rw [Store.findFunction?, h.chain_eq hs, List.findSome?_cons, Scope.findFunction?, h.functions]
  rfl

theorem functionArities_eq (x : Label) :
    s.store.functionArities s.current x = s.store.functionArities d x := by
  rw [Store.functionArities, h.chain_eq hs, List.flatMap_cons, Scope.arities, h.functions]
  rfl

end State.Hides

namespace Evaluation

variable {α β : Type} {N : Label → Prop}

/-- A step that binds nothing in an orderly state, and does the same in the scope around the
    current one if that hides nothing of it. -/
structure Overlooks (N : Label → Prop) (p : Evaluation α) : Prop where
  orderly : Orderly 0 p p
  adds : Adds (fun _ => False) p
  run : ∀ s d, s.IsOrderly → s.Hides N d →
    p.run { s with current := d } = returning d (p.run s)

/-! ### Steps -/

namespace Overlooks

variable {p : Evaluation α} {f : α → Evaluation β}

/-- A step that does the same in all scopes. -/
theorem of_indifferent (h : Indifferent p) (horderly : Orderly 0 p p)
    (hadds : Adds (fun _ => False) p) : Overlooks N p :=
  ⟨horderly, hadds, fun s d _ _ => h s d⟩

theorem throw (h : Halt) : Overlooks N (MonadExcept.throw h : Evaluation α) :=
  .of_indifferent (.throw h) (.throw h) ((isCourse_gains _).throw h)

/-- Steps one after the other overlook a scope, as it goes on hiding the same names. -/
theorem bind (hp : Overlooks N p) (hf : ∀ a, Overlooks N (f a)) : Overlooks N (p >>= f) := by
  refine ⟨hp.orderly.bind fun a => (hf a).orderly,
    (isCourse_gains _).bind hp.adds fun a => (hf a).adds, fun s d hs hd => ?_⟩
  have hgrows := hp.orderly.grows hs
  have hgains := hp.adds s
  rw [EStateM.run_bind, EStateM.run_bind, hp.run s d hs hd]
  cases hrun : p.run s with
  | error h t => rfl
  | ok a t =>
    rw [hrun] at hgrows hgains
    exact (hf a).run t d hgrows.isOrderly (hd.of_grows hs hgrows hgains)

theorem logFrom {event : Evaluation Event} (h : Overlooks N event) (level : Nat) :
    Overlooks N (Evaluation.logFrom level event) := by
  refine ⟨h.orderly.logFrom level, (isCourse_gains _).logFrom level h.adds, fun s d hs hd => ?_⟩
  rw [run_logFrom, run_logFrom, h.run s d hs hd]
  simp only
  split
  · cases event.run s with
    | error h t => rfl
    | ok e t =>
      simp only [returning, State.record]
      split <;> rfl
  · rfl

end Overlooks

/-- A step for a name: a name that cannot be looked up is a fault. -/
theorem run_named (name : Label) (step : ScopeId → Evaluation α) (s : State) :
    (do
      checkName name
      step (← get).current : Evaluation α).run s =
      match name.key? with
      | some _ => (step s.current).run s
      | none => .error (.fault .unsuitableValue) s := by
  rw [checkName]
  cases name.key? <;> rfl

namespace Overlooks

/-- What is looked up from the scope around the current one is the same. -/
theorem named (name : Label) (step : ScopeId → Evaluation α) (hstep : ∀ d, Indifferent (step d))
    (horderly : Orderly 0 (do checkName name; step (← get).current)
      (do checkName name; step (← get).current))
    (hadds : Adds (fun _ => False) (do checkName name; step (← get).current))
    (h : ∀ (s : State) d, s.IsOrderly → s.Hides N d →
      (step d).run s = (step s.current).run s) :
    Overlooks N (do checkName name; step (← get).current) := by
  refine ⟨horderly, hadds, fun s d hs hd => ?_⟩
  rw [run_named, run_named]
  cases name.key? with
  | none => rfl
  | some key => exact (hstep d s d).trans (congrArg _ (h s d hs hd))

/-- A variable that is not hidden is read in the same scope. -/
theorem readVariable {name : Label} (hname : N name) :
    Overlooks N (Evaluation.readVariable name) := by
  refine .named name (fun d => do return (← storing (Store.lookupVariable d name)).value)
    (fun d => .bind (.storing _) fun v => .pure v.value)
    ((isCongruence_orderly 0).readVariable name)
    ((isCourse_gains _).readVariable name) fun s d hs hd => ?_
  rw [EStateM.run_bind, EStateM.run_bind, run_storing, run_storing, Store.run_lookupVariable,
    Store.run_lookupVariable, hd.findVariable?_eq hs hname]

/-- A variable that is not hidden is given its value in the same scope. -/
theorem assignVariable {name : Label} (hname : N name) (v : Value) :
    Overlooks N (Evaluation.assignVariable name v) := by
  refine .named name _ (fun d => .storing (Store.assignVariable d name v))
    ((isCongruence_orderly 0).assignVariable name v) ((isCourse_gains _).assignVariable name v)
    fun s d hs hd => ?_
  rw [run_storing, run_storing, Store.run_assignVariable, Store.run_assignVariable,
    hd.findVariable?_eq hs hname]

theorem lookupFunction (name : Label) (arity : Int) :
    Overlooks N (Evaluation.lookupFunction name arity) := by
  refine .named name _ (fun d => .storing (Store.lookupFunction d name arity))
    ((isCongruence_orderly 0).lookupFunction name arity)
    ((isCourse_gains _).lookupFunction name arity) fun s d hs hd => ?_
  rw [run_storing, run_storing, Store.run_lookupFunction, Store.run_lookupFunction,
    hd.findFunction?_eq hs, hd.functionArities_eq hs]

end Overlooks

/-- A step that is related to itself if it overlooks the current scope: what is made of such steps
    does. -/
theorem isCompatible_overlooks : IsCompatible (fun {_} p' p => p' = p ∧ Overlooks N p) :=
  have hI := Indifferent.isCompatible
  have hR := isCongruence_orderly 0
  have hT := (isCourse_gains fun _ => False).isExpressive
  { pure := fun a => ⟨rfl, .of_indifferent (hI.pure a).2 (hR.pure a) (hT.pure a).2⟩
    throw := fun h => ⟨rfl, .throw h⟩
    bind := by
      rintro _ _ p _ f' f ⟨rfl, hp⟩ hf
      obtain rfl : f' = f := funext fun a => (hf a).1
      exact ⟨rfl, hp.bind fun a => (hf a).2⟩
    logFrom := by
      rintro _ _ level ⟨rfl, h⟩ _
      exact ⟨rfl, h.logFrom level⟩
    print := fun line =>
      ⟨rfl, .of_indifferent (hI.print line).2 (hR.print line) (hT.print line).2⟩
    checkDigits := fun exceeds => ⟨rfl, .of_indifferent (hI.checkDigits exceeds).2
      (hR.checkDigits exceeds) (hT.checkDigits exceeds).2⟩
    textOf := fun v => ⟨rfl, .of_indifferent (hI.textOf v).2 (hR.textOf v) (hT.textOf v).2⟩
    getField := fun id field => ⟨rfl, .of_indifferent (hI.getField id field).2
      (hR.getField id field) (hT.getField id field).2⟩
    setField := fun id field v => ⟨rfl, .of_indifferent (hI.setField id field v).2
      (hR.setField id field v) (hT.setField id field v).2⟩
    lookupMethod := fun id name arity => ⟨rfl, .of_indifferent (hI.lookupMethod id name arity).2
      (hR.lookupMethod id name arity) (hT.lookupMethod id name arity).2⟩ }

/-! ### Expressions and assignments -/

variable {e : Node → Evaluation Value} {c : FunctionId → List Value → Evaluation Value} {n : Node}

/-- An expression overlooks a scope if its parts do, and if it is no variable that is hidden. -/
theorem overlooks_evaluateNode (he : ∀ m ∈ n.parts, Overlooks N (e m))
    (hc : ∀ id arguments, Overlooks N (c id arguments)) (hn : ∀ x, n = .access .absent x → N x) :
    Overlooks N (evaluateNode e c n) := by
  have hR := @isCompatible_overlooks N
  have hthrow := fun h => (Overlooks.throw h : Overlooks N (throw h : Evaluation Value))
  -- A name alone reads a variable, which must not be an overlooked one; behind a receiver it is a
  -- member.
  cases n with
  | literal tag payload => exact (hR.pure _).2
  | group expression => exact he expression List.mem_cons_self
  | access receiver name =>
    have hreceiver := he receiver List.mem_cons_self
    cases receiver with
    | absent => exact .readVariable (hn name rfl)
    | _ =>
      exact hreceiver.bind fun r => (hR.requireObject r name).2.bind fun id =>
        (hR.getField id name).2
  | call receiver name arguments =>
    have hreceiver := he receiver List.mem_cons_self
    have harguments : Overlooks N (arguments.mapM e) :=
      (hR.mapM fun m hm => ⟨rfl, he m (List.mem_cons_of_mem receiver hm)⟩).2
    cases receiver with
    | absent =>
      exact harguments.bind fun values => (Overlooks.lookupFunction name _).bind fun f =>
        hc f values
    | _ =>
      exact hreceiver.bind fun r => harguments.bind fun values =>
        (hR.requireObject r name).2.bind fun id => (hR.lookupMethod id name _).2.bind fun f =>
          hc f values
  | binary operator left right =>
    exact (hR.applyBinary ⟨rfl, he left List.mem_cons_self⟩
      ⟨rfl, he right (List.mem_cons_of_mem left List.mem_cons_self)⟩).2
  | _ => exact hthrow _

/-- A call does not depend on the scope in which it is made. -/
theorem overlooks_invoke (steps depth : Nat) (id : FunctionId) (arguments : List Value) :
    Overlooks N (invoke steps depth id arguments) :=
  .of_indifferent (.invoke steps depth id arguments)
    ((orderly_steps_self steps).2.2 depth id arguments)
    ((adds_steps steps).2.2 depth id arguments _)

/-- The nodes of a part are nodes of the whole. -/
theorem mem_nodes_of_mem_parts {m k : Node} (hm : m ∈ n.parts) (hk : k ∈ m.nodes) :
    k ∈ n.nodes := by
  rw [nodes_eq]
  exact List.mem_cons_of_mem n ((nodes_sublist_inner hm).subset hk)

/-- By induction on the number of steps. -/
theorem overlooks_evaluate (steps depth : Nat) (hn : ∀ x, .access .absent x ∈ n.nodes → N x) :
    Overlooks N (evaluate steps depth n) := by
  induction steps generalizing n with
  | zero =>
    rw [evaluate]
    exact .throw _
  | succ steps ih =>
    rw [evaluate]
    refine overlooks_evaluateNode
      (fun m hm => ih fun x hx => hn x (mem_nodes_of_mem_parts hm hx))
      (overlooks_invoke steps depth) fun x hx => hn x ?_
    rw [← hx]
    exact n.mem_nodes_self

/-- The target of an assignment is a variable as well. -/
theorem overlooks_assign (steps depth : Nat) {target value : Node}
    (ht : ∀ x, .access .absent x ∈ target.nodes → N x)
    (hv : ∀ x, .access .absent x ∈ value.nodes → N x) :
    Overlooks N (assign (evaluate steps depth) target value) := by
  have hR := @isCompatible_overlooks N
  have hvalue := overlooks_evaluate steps depth hv
  cases target with
  | access receiver name =>
    have hreceiver := overlooks_evaluate steps depth fun x hx =>
      ht x (mem_nodes_of_mem_parts (n := .access receiver name) List.mem_cons_self hx)
    cases receiver with
    | absent =>
      exact hvalue.bind fun v => .assignVariable (ht name (mem_nodes_self _)) v
    | _ =>
      exact hreceiver.bind fun r => hvalue.bind fun v => (hR.requireObject r name).2.bind fun id =>
        (hR.setField id name v).2
  | _ => exact .throw _

end Evaluation

end Blockscript
