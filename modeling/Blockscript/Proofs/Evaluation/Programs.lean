import Blockscript.Proofs.Evaluation.Results
import Blockscript.Proofs.Evaluation.Sound
import Blockscript.Proofs.Syntax.Size

/-!
# Relations that programs respect

The trees of programs use few of the steps that there are: names are texts, values are plain,
and nobody has an object. A relation between steps that makes a claim on their results, and that
is respected by these few, is respected by all constructs that the grammar allows, if it
holds between the parts inside them.

* `Node.IsExecuted`: what the grammar lets be executed;
* `Evaluation.IsProgramCongruence`: what single steps have to respect;
* `IsProgramCongruence.executeAll`, `IsProgramCongruence.repeatWhile`: lists of statements, and
  loops;
* `IsProgramCongruence.callFound`: the call of a function that accepts the arguments;
* `IsProgramCongruence.evaluateNode`, `IsProgramCongruence.executeNode`,
  `IsProgramCongruence.declareNode`: expressions, statements and fields.
-/

namespace Blockscript

open Node

/-! ### What the grammar allows -/

/-- What is executed: a statement, or the increment of a `FOR`, which may start with
    any word. -/
inductive Node.IsExecuted : Node → Prop
  | statement {words : List String} {n : Node} : IsStatement words n → IsExecuted n
  | increment {receiver value : Node} : IsExpression 0 receiver → IsExpression 0 value →
      IsExecuted (.assignment receiver value)

/-- An expression is there. -/
theorem Node.IsExpression.ne_absent {k : Nat} {n : Node} (h : IsExpression k n) : n ≠ .absent := by
  rintro rfl
  cases h.ifPresent [.ofText ""]

theorem Node.IsExecuted.ne_absent {n : Node} (h : n.IsExecuted) : n ≠ .absent := by
  rintro rfl
  cases h with
  | statement h => cases h

/-- The operators of the ladder are the two logical ones, and those that are applied to
    two values. -/
theorem eq_or_ofLabel?_of_mem_operatorsAt {k : Nat} {o : String} (h : o ∈ operatorsAt k) :
    o = "&&" ∨ o = "||" ∨ ∃ operator, Operator.ofLabel? (.text o) = some operator := by
  match k with
  | 0 =>
    simp only [operatorsAt, Parser.logicalOperators, List.mem_cons, List.not_mem_nil, or_false] at h
    rcases h with rfl | rfl
    · exact .inl rfl
    · exact .inr (.inl rfl)
  | 1 =>
    simp only [operatorsAt, Parser.comparisonOperators, List.mem_cons, List.not_mem_nil,
      or_false] at h
    rcases h with rfl | rfl | rfl | rfl | rfl | rfl <;> exact .inr (.inr ⟨_, rfl⟩)
  | 2 =>
    simp only [operatorsAt, Parser.additiveOperators, List.mem_cons, List.not_mem_nil,
      or_false] at h
    rcases h with rfl | rfl <;> exact .inr (.inr ⟨_, rfl⟩)
  | 3 =>
    simp only [operatorsAt, Parser.multiplicativeOperators, List.mem_cons, List.not_mem_nil,
      or_false] at h
    rcases h with rfl | rfl <;> exact .inr (.inr ⟨_, rfl⟩)
  | _ + 4 => cases h

/-- Literals denote plain values. -/
theorem Node.IsLiteral.exists_isPlain {n : Node} (h : IsLiteral n) :
    ∃ tag payload, n = .literal tag payload ∧ (Value.ofPayload tag payload).IsPlain := by
  cases h with
  | decimal h => exact ⟨_, _, rfl, h⟩
  | character c => exact ⟨_, _, rfl, String.length_singleton⟩
  | _ => exact ⟨_, _, rfl, trivial⟩

/-- A loop may begin with nothing, or with a statement. -/
theorem Node.IsForInitializer.isExecuted {n : Node} (h : IsForInitializer n) :
    n = .absent ∨ n.IsExecuted := by
  rcases h with rfl | ⟨name, value, rfl, hname, hvalue⟩
  · exact .inl rfl
  · exact .inr (.statement (IsStatement.declaration hname (.inr hvalue) : IsStatement [] _))

/-- A round of a loop may end with nothing, or with a statement. -/
theorem Node.IsForIncrement.isExecuted {n : Node} (h : IsForIncrement n) :
    n = .absent ∨ n.IsExecuted := by
  rcases h with rfl | ⟨receiver, value, rfl, hreceiver, hvalue⟩
  · exact .inl rfl
  · exact .inr (.increment hreceiver hvalue)

/-- The statements of a function, which only a defined one has. -/
def Function.body : Function → List Node
  | .defined _ _ body _ => body
  | .host _ _ _ => []

namespace Evaluation

/-- A call, once the function is found. -/
def callFound (execute : (depth : Nat) → Node → Evaluation Outcome) (depth : Nat)
    (arguments : List Value) : Option Function → Evaluation Value
  | some (.host _ _ action) => perform (action.respond arguments)
  | some (.defined name parameters body closure) =>
    match depth with
    | 0 => fail .callDepthExceeded
    | depth + 1 =>
      callDefined name parameters closure (executeAll (execute depth) body) arguments
  | none => faulty .missingPart

/-- A call first looks up the function, and then goes on with what it has found. -/
theorem callFunction_eq (execute : (depth : Nat) → Node → Evaluation Outcome) (depth : Nat)
    (id : FunctionId) (arguments : List Value) : callFunction execute depth id arguments =
      (do callFound execute depth arguments (← get).store.functions[id]?) :=
  rfl

/-! ### Single steps -/

/-- A relation of steps, with a claim on their results, that is respected by the single steps
    of programs, and by doing one step after the other. -/
structure IsProgramCongruence
    (R : {α : Type} → (α → Prop) → Evaluation α → Evaluation α → Prop) : Prop where
  pure {α : Type} {Q : α → Prop} {a : α} : Q a → R Q (Pure.pure a) (Pure.pure a)
  fail {α : Type} {Q : α → Prop} {e : RuntimeError} : e.IsProper →
    R Q (Evaluation.fail e) (Evaluation.fail e)
  bind {α β : Type} {P : α → Prop} {Q : β → Prop} {p' p : Evaluation α}
    {f' f : α → Evaluation β} :
    R P p' p → (∀ a, P a → R Q (f' a) (f a)) → R Q (p' >>= f') (p >>= f)
  logFrom {event' event : Evaluation Event} {level : Nat} : R (fun _ => True) event' event →
    R (fun _ => True) (Evaluation.logFrom level event') (Evaluation.logFrom level event)
  print (line : String) : R (fun _ => True) (modify (·.print line) : Evaluation PUnit)
    (modify (·.print line) : Evaluation PUnit)
  checkDigits (exceeds : Nat → Bool) :
    R (fun _ => True) (Evaluation.checkDigits exceeds) (Evaluation.checkDigits exceeds)
  textOf {v : Value} : v.IsPlain →
    R (fun _ => True) (Evaluation.textOf v) (Evaluation.textOf v)
  readVariable (name : String) :
    R Value.IsPlain (Evaluation.readVariable (.text name)) (Evaluation.readVariable (.text name))
  assignVariable (name : String) {v : Value} : v.IsPlain → R (fun _ => True)
    (Evaluation.assignVariable (.text name) v) (Evaluation.assignVariable (.text name) v)
  defineVariable (name : String) (isConstant : Bool) {v : Value} : v.IsPlain → R (fun _ => True)
    (Evaluation.defineVariable (.text name) isConstant v)
    (Evaluation.defineVariable (.text name) isConstant v)
  inNewScope {α : Type} {Q : α → Prop} {p' p : Evaluation α} :
    R Q p' p → R Q (Evaluation.inNewScope p') (Evaluation.inNewScope p)
  inScope {α : Type} {Q : α → Prop} {p' p : Evaluation α} (closure : ScopeId) : R Q p' p →
    R Q (do within (← newScope (some closure)) p') (do within (← newScope (some closure)) p)

namespace IsProgramCongruence

variable {R : {α : Type} → (α → Prop) → Evaluation α → Evaluation α → Prop}
  (hR : IsProgramCongruence R) {α β : Type}

include hR

/-- The text of a plain value, after its digits have been counted. -/
theorem display {v : Value} (hv : v.IsPlain) :
    R (fun _ => True) (Evaluation.display v) (Evaluation.display v) :=
  hR.bind (hR.checkDigits v.textExceeds) fun _ _ => hR.textOf hv

/-! ### Lists -/

/-- The results of the parts are all as claimed. -/
theorem mapM {P : α → Prop} {f' f : β → Evaluation α} {ns : List β}
    (h : ∀ n ∈ ns, R P (f' n) (f n)) :
    R (fun bs => bs.length = ns.length ∧ ∀ b ∈ bs, P b) (ns.mapM f') (ns.mapM f) := by
  induction ns with
  | nil => exact hR.pure ⟨rfl, nofun⟩
  | cons n ns ih =>
    rw [List.forall_mem_cons] at h
    rw [List.mapM_cons, List.mapM_cons]
    refine hR.bind h.1 fun b hb => hR.bind (ih h.2) fun bs hbs => hR.pure ?_
    exact ⟨congrArg Nat.succ hbs.1, List.forall_mem_cons.2 ⟨hb, hbs.2⟩⟩

/-- The same for a list of parts. -/
theorem forM {f' f : β → Evaluation PUnit} {ns : List β}
    (h : ∀ n ∈ ns, R (fun _ => True) (f' n) (f n)) :
    R (fun _ => True) (ns.forM f') (ns.forM f) := by
  induction ns with
  | nil => exact hR.pure trivial
  | cons n ns ih =>
    rw [List.forall_mem_cons] at h
    exact hR.bind h.1 fun _ _ => ih h.2

/-! ### Conditions and operators -/

theorem kind {v : Value} (hv : v.IsPlain) :
    R (fun _ => True) (Evaluation.ofExcept v.kind) (Evaluation.ofExcept v.kind) := by
  obtain ⟨k, hk⟩ := hv.exists_kind
  rw [hk]
  exact hR.pure trivial

/-- A value of a kind that is asked for is plain if it was before. -/
theorem require {v : Value} {wanted : Kind} {context : String} (hv : v.IsPlain) :
    R Value.IsPlain (Evaluation.ofExcept (v.require wanted context))
      (Evaluation.ofExcept (v.require wanted context)) := by
  obtain ⟨k, hk⟩ := hv.exists_kind
  rw [Value.require, hk]
  by_cases h : k = wanted
  · simp only [Bind.bind, Except.bind, if_pos h]
    exact hR.pure hv
  · simp only [Bind.bind, Except.bind, if_neg h]
    exact hR.fail trivial

/-- No plain value is an object. -/
theorem requireObject {v : Value} {member : Label} (hv : v.IsPlain) :
    R (fun _ => False) (Evaluation.requireObject v member)
      (Evaluation.requireObject v member) := by
  cases v with
  | object _ => exact hv.elim
  | foreign _ => exact hv.elim
  | _ => exact hR.fail trivial

/-- A condition logs its value and asks for a boolean. -/
theorem condition {construct : Construct} {p' p : Evaluation Value} (h : R Value.IsPlain p' p) :
    R (fun _ => True) (Evaluation.condition construct p') (Evaluation.condition construct p) := by
  refine hR.bind h fun v hv => hR.bind (hR.require hv) fun w hw => ?_
  refine hR.bind (hR.logFrom (hR.bind (hR.display hw) fun _ _ => hR.pure trivial)) fun _ _ => ?_
  split
  · exact hR.pure trivial
  · exact hR.pure trivial

theorem logicalOperand {side operator : String} {v : Value} (hv : v.IsPlain) :
    R (fun _ => True) (Evaluation.logicalOperand side operator v)
      (Evaluation.logicalOperand side operator v) := by
  refine hR.bind (hR.require hv) fun w _ => ?_
  split
  · exact hR.pure trivial
  · exact hR.pure trivial

section Binary

variable {l' l r' r : Evaluation Value} (hl : R Value.IsPlain l' l) (hr : R Value.IsPlain r' r)

include hl hr

/-- A logical operator gives a boolean, which is plain. -/
theorem shortCircuit {operator : String} {needed : Bool} :
    R Value.IsPlain (Evaluation.shortCircuit operator needed l' r')
      (Evaluation.shortCircuit operator needed l r) := by
  refine hR.bind hl fun v hv => hR.bind (hR.logicalOperand hv) fun b _ => ?_
  split
  · exact hR.bind hr fun w hw => hR.bind (hR.logicalOperand hw) fun _ _ => hR.pure trivial
  · exact hR.pure trivial

/-- What an operator gives is plain if its operands are. -/
theorem applyBinary {k : Nat} {o : String} (ho : o ∈ operatorsAt k) :
    R Value.IsPlain (Evaluation.applyBinary (.text o) l' r')
      (Evaluation.applyBinary (.text o) l r) := by
  rcases eq_or_ofLabel?_of_mem_operatorsAt ho with rfl | rfl | ⟨operator, hoperator⟩
  · exact hR.shortCircuit hl hr
  · exact hR.shortCircuit hl hr
  · have hand : Label.text o ≠ .text "&&" := by
      rintro heq
      rw [heq] at hoperator
      cases hoperator
    have hor : Label.text o ≠ .text "||" := by
      rintro heq
      rw [heq] at hoperator
      cases hoperator
    rw [applyBinary_of_ne hand hor, applyBinary_of_ne hand hor]
    refine hR.bind hl fun a ha => hR.bind hr fun b hb => hR.bind (hR.checkDigits _) fun _ _ => ?_
    rcases Value.apply_eq_or hoperator ha hb with ⟨v, h, hv⟩ | ⟨e, h, he⟩
    · rw [h]
      exact hR.pure hv
    · rw [h]
      exact hR.fail he

end Binary

/-! ### Assignments and declarations -/

theorem declare {name : String} {isConstant : Bool} {v : Value} (hv : v.IsPlain) :
    R (fun _ => True) (Evaluation.declare (.text name) isConstant v)
      (Evaluation.declare (.text name) isConstant v) :=
  hR.bind (hR.defineVariable name isConstant hv) fun _ _ => hR.logFrom
    (hR.bind (hR.kind hv) fun _ _ => hR.bind (hR.display hv) fun _ _ => hR.pure trivial)

/-- A missing initializer stands for `NIL`, which is plain. -/
theorem initialValue {e' e : Node → Evaluation Value} {n : Node} (hn : IsOptionalExpression n)
    (he : IsExpression 0 n → R Value.IsPlain (e' n) (e n)) :
    R Value.IsPlain (Evaluation.initialValue e' n) (Evaluation.initialValue e n) := by
  rcases hn with rfl | hn
  · exact hR.pure trivial
  · rw [Evaluation.initialValue, Evaluation.initialValue]
    · exact he hn
    · exact hn.ne_absent
    · exact hn.ne_absent

/-- Only names can be assigned to: a member would have to be one of an object. -/
theorem assign {e' e : Node → Evaluation Value} {target value : Node} {k : Nat}
    (ht : IsExpression k target) (hvalue : R Value.IsPlain (e' value) (e value))
    (he : ∀ r ∈ target.parts, IsExpression 4 r → R Value.IsPlain (e' r) (e r)) :
    R (fun _ => True) (Evaluation.assign e' target value) (Evaluation.assign e target value) := by
  induction ht with
  | name _ => exact hR.bind hvalue fun v hv => hR.assignVariable _ hv
  | access hr _ _ =>
    rw [Evaluation.assign, Evaluation.assign]
    · exact hR.bind (he _ List.mem_cons_self hr) fun r hr => hR.bind hvalue fun _ _ =>
        hR.bind (hR.requireObject hr) fun _ h => h.elim
    · exact hr.ne_absent
    · exact hr.ne_absent
  | literal h => cases h <;> exact hR.fail trivial
  | tighter _ _ ih => exact ih he
  | _ => exact hR.fail trivial

/-! ### Lists of statements and loops -/

theorem executeOptional {x' x : Node → Evaluation Outcome} {n : Node}
    (hn : n = .absent ∨ n.IsExecuted)
    (hx : n.IsExecuted → R (fun o => o.value.IsPlain) (x' n) (x n)) :
    R (fun _ => True) (Evaluation.executeOptional x' n) (Evaluation.executeOptional x n) := by
  rcases hn with rfl | hn
  · exact hR.pure trivial
  · rw [Evaluation.executeOptional, Evaluation.executeOptional]
    · exact hR.bind (hx hn) fun _ _ => hR.pure trivial
    · exact hn.ne_absent
    · exact hn.ne_absent

/-- The value with which statements answer is plain. -/
theorem executeAll {x' x : Node → Evaluation Outcome} {ns : List Node}
    (hx : ∀ n ∈ ns, R (fun o => o.value.IsPlain) (x' n) (x n)) :
    R (fun o => o.value.IsPlain) (Evaluation.executeAll x' ns) (Evaluation.executeAll x ns) := by
  induction ns with
  | nil => exact hR.pure trivial
  | cons n ns ih =>
    rw [List.forall_mem_cons] at hx
    refine hR.bind hx.1 fun o ho => ?_
    cases o with
    | normal => exact ih hx.2
    | answered v => exact hR.pure ho

/-- A loop may go round more often than there are steps. -/
theorem repeatWhile {condition' condition : Evaluation Bool} {body' body : Evaluation Outcome}
    {increment' increment : Evaluation Unit}
    (hlast : R (fun o : Outcome => o.value.IsPlain) (throw .outOfSteps) (throw .outOfSteps))
    (hcondition : R (fun _ => True) condition' condition)
    (hbody : R (fun o => o.value.IsPlain) body' body)
    (hincrement : R (fun _ => True) increment' increment) (rounds : Nat) :
    R (fun o => o.value.IsPlain) (Evaluation.repeatWhile condition' body' increment' rounds)
      (Evaluation.repeatWhile condition body increment rounds) := by
  induction rounds with
  | zero => exact hlast
  | succ rounds ih =>
    refine hR.bind hcondition fun b _ => ?_
    cases b with
    | false => exact hR.pure trivial
    | true =>
      refine hR.bind hbody fun o ho => ?_
      cases o with
      | normal => exact hR.bind hincrement fun _ _ => ih
      | answered v => exact hR.pure ho

/-! ### Calls -/

/-- Each parameter is bound to a plain argument. -/
theorem bindParameters {parameters : List Label} {arguments : List Value}
    (hp : ∀ p ∈ parameters, ∃ name, p = .text name) (ha : ∀ a ∈ arguments, a.IsPlain) :
    R (fun _ => True) (Evaluation.bindParameters parameters arguments)
      (Evaluation.bindParameters parameters arguments) := by
  induction parameters generalizing arguments with
  | nil => exact hR.pure trivial
  | cons p ps ih =>
    cases arguments with
    | nil => exact hR.pure trivial
    | cons a as =>
      rw [List.forall_mem_cons] at hp ha
      obtain ⟨name, rfl⟩ := hp.1
      exact hR.bind (hR.defineVariable name false ha.1) fun _ _ => ih hp.2 ha.2

theorem argumentTexts {arguments : List Value} (ha : ∀ a ∈ arguments, a.IsPlain) :
    R (fun _ => True) (Evaluation.argumentTexts arguments)
      (Evaluation.argumentTexts arguments) := by
  refine hR.bind (hR.mapM fun a hmem => hR.display (ha a hmem)) fun texts _ => ?_
  split
  · next h =>
    obtain ⟨a, hmem, hforeign⟩ := List.any_eq_true.1 h
    have := ha a hmem
    cases a with
    | foreignCharacter _ => exact this.elim
    | _ => cases hforeign
  · exact hR.pure trivial

/-- The number of arguments is that of the parameters, so that it is not complained
    about. -/
theorem callDefined {name : Label} {parameters : List Label} (closure : ScopeId)
    {body' body : Evaluation Outcome} {arguments : List Value}
    (hlength : parameters.length = arguments.length)
    (hp : ∀ p ∈ parameters, ∃ name, p = .text name) (ha : ∀ a ∈ arguments, a.IsPlain)
    (hbody : R (fun o => o.value.IsPlain) body' body) :
    R Value.IsPlain (Evaluation.callDefined name parameters closure body' arguments)
      (Evaluation.callDefined name parameters closure body arguments) := by
  have hchecked : ¬ arguments.length ≠ parameters.length := not_not_intro hlength.symm
  rw [Evaluation.callDefined, Evaluation.callDefined, if_neg hchecked, if_neg hchecked]
  refine hR.bind (hR.logFrom (hR.bind (hR.argumentTexts ha) fun _ _ => hR.pure trivial))
    fun _ _ => ?_
  rw [← bind_assoc, ← bind_assoc]
  -- The return is logged when the scope of the call is left.
  refine hR.bind (hR.inScope closure (hR.bind (hR.bindParameters hp ha) fun _ _ => hbody))
    fun o ho => ?_
  exact hR.bind (hR.logFrom (hR.bind (hR.display ho) fun _ _ => hR.pure trivial))
    fun _ _ => hR.pure ho

/-- The only function of a host that a program finds is `print`, and it is given one argument. -/
theorem perform_print {arguments : List Value} (hlength : arguments.length = 1)
    (ha : ∀ a ∈ arguments, a.IsPlain) :
    R Value.IsPlain (Evaluation.perform (Action.print.respond arguments))
      (Evaluation.perform (Action.print.respond arguments)) := by
  obtain ⟨a, rfl⟩ := List.length_eq_one_iff.1 hlength
  rw [List.forall_mem_singleton] at ha
  exact hR.bind (hR.display ha) fun line _ => hR.bind (hR.print line) fun _ _ => hR.pure trivial

/-- The call of a function that accepts the number of arguments, by what the statements of its
    body do. -/
theorem callFound {x' x : (depth : Nat) → Node → Evaluation Outcome} {f : Function}
    {arguments : List Value} (hf : f.Accepts arguments.length) (ha : ∀ a ∈ arguments, a.IsPlain)
    {depth : Nat} (hx : ∀ d < depth, ∀ n ∈ f.body, n.IsExecuted →
      R (fun o => o.value.IsPlain) (x' d n) (x d n)) :
    R Value.IsPlain (Evaluation.callFound x' depth arguments (some f))
      (Evaluation.callFound x depth arguments (some f)) := by
  cases f with
  | host _ _ action =>
    obtain ⟨rfl, _, hlength⟩ := hf
    exact hR.perform_print (Int.ofNat_inj.1 hlength) ha
  | defined name parameters body closure =>
    obtain ⟨hlength, hp, hbody⟩ := hf
    cases depth with
    | zero => exact hR.fail trivial
    | succ depth =>
      exact hR.callDefined closure (Int.ofNat_inj.1 hlength) hp ha (hR.executeAll fun n hn =>
        hx depth (Nat.lt_succ_self depth) n hn (.statement (hbody n hn)))

/-! ### Nodes -/

section Nodes

variable {n : Node} {e' e : Node → Evaluation Value}
  (he : ∀ {k m}, m ∈ n.inner → IsExpression k m → R Value.IsPlain (e' m) (e m))

include he

/-- An expression, by its parts and by the call of the function that it names. -/
theorem evaluateNode {c' c : FunctionId → List Value → Evaluation Value} {k : Nat}
    (hn : IsExpression k n)
    (hc : ∀ {name arguments values}, n = .call .absent (.text name) arguments →
      (∀ v ∈ values, v.IsPlain) → R Value.IsPlain
        (do c' (← lookupFunction (.text name) (values.length : Int)) values)
        (do c (← lookupFunction (.text name) (values.length : Int)) values)) :
    R Value.IsPlain (Evaluation.evaluateNode e' c' n) (Evaluation.evaluateNode e c n) := by
  induction hn with
  | literal h =>
    obtain ⟨tag, payload, rfl, hv⟩ := h.exists_isPlain
    exact hR.pure hv
  | group h => exact he (mem_inner_of_mem_parts List.mem_cons_self) h
  | name _ => exact hR.readVariable _
  | function _ harguments _ =>
    refine hR.bind (hR.mapM fun a hmem => ?_) fun values hvalues => hc rfl hvalues.2
    exact he (mem_inner_of_mem_parts (List.mem_cons_of_mem _ hmem)) (harguments a hmem)
  | access hr _ _ =>
    have hreceiver := he (mem_inner_of_mem_parts List.mem_cons_self) hr
    rw [Evaluation.evaluateNode, Evaluation.evaluateNode]
    · exact hR.bind hreceiver fun r hr => hR.bind (hR.requireObject hr) fun _ h => h.elim
    · exact hr.ne_absent
    · exact hr.ne_absent
  | call hr _ harguments _ _ =>
    have hreceiver := he (mem_inner_of_mem_parts List.mem_cons_self) hr
    rw [Evaluation.evaluateNode, Evaluation.evaluateNode]
    -- The arguments are evaluated before it is found that there is no object.
    · refine hR.bind hreceiver fun r hr => hR.bind (hR.mapM (P := Value.IsPlain) fun a hmem => ?_)
        fun values _ => hR.bind (hR.requireObject hr) fun _ h => h.elim
      exact he (mem_inner_of_mem_parts (List.mem_cons_of_mem _ hmem)) (harguments a hmem)
    · exact hr.ne_absent
    · exact hr.ne_absent
  | binary ho hleft hright _ _ =>
    exact hR.applyBinary (he (mem_inner_of_mem_parts List.mem_cons_self) hleft)
      (he (mem_inner_of_mem_parts (List.mem_cons_of_mem _ List.mem_cons_self)) hright) ho
  | tighter _ _ ih => exact ih he hc

/-- The declaration of a field binds its name to a plain value. -/
theorem declareNode (hn : IsField n) :
    R (fun _ => True) (Evaluation.declareNode e' n) (Evaluation.declareNode e n) := by
  cases hn with
  | field _ _ hinitializer =>
    exact hR.bind (hR.initialValue hinitializer
      (he (mem_inner_of_mem_parts List.mem_cons_self))) fun v hv => hR.declare hv

/-- A statement, by its parts. A loop may run out of steps. -/
theorem executeNode {x' x : Node → Evaluation Outcome}
    (hx : ∀ {m}, m ∈ n.inner → m.IsExecuted → R (fun o => o.value.IsPlain) (x' m) (x m))
    (hlast : n.isLoop → R (fun o : Outcome => o.value.IsPlain) (throw .outOfSteps)
      (throw .outOfSteps)) (rounds : Nat) (hn : n.IsExecuted) :
    R (fun o => o.value.IsPlain) (Evaluation.executeNode rounds e' x' n)
      (Evaluation.executeNode rounds e x n) := by
  have hpart : ∀ {k m}, m ∈ n.parts → IsExpression k m → R Value.IsPlain (e' m) (e m) :=
    fun hm => he (mem_inner_of_mem_parts hm)
  have hall : ∀ {words ns}, ns ⊆ n.parts → (∀ s ∈ ns, IsStatement words s) →
      R (fun o => o.value.IsPlain) (Evaluation.executeAll x' ns) (Evaluation.executeAll x ns) :=
    fun hsubset hns => hR.executeAll fun s hs =>
      hx (mem_inner_of_mem_parts (hsubset hs)) (.statement (hns s hs))
  have hassign : ∀ {receiver value}, n = .assignment receiver value → IsExpression 0 receiver →
      IsExpression 0 value → R (fun o => o.value.IsPlain) (Evaluation.executeNode rounds e' x' n)
        (Evaluation.executeNode rounds e x n) := by
    rintro receiver value rfl hreceiver hvalue
    refine hR.bind (hR.assign hreceiver (hpart (by simp [parts]) hvalue) fun r hr hexpression =>
      ?_) fun _ _ => hR.pure trivial
    exact he (mem_inner_trans hr List.mem_cons_self) hexpression
  cases hn with
  | increment hr hv => exact hassign rfl hr hv
  | statement h =>
    cases h with
    | discard h _ => exact hR.bind (hpart List.mem_cons_self h) fun _ _ => hR.pure trivial
    | declaration _ h =>
      exact hR.bind (hR.initialValue h (hpart List.mem_cons_self)) fun v hv =>
        hR.bind (hR.declare hv) fun _ _ => hR.pure trivial
    | assignment hr _ hv => exact hassign rfl hr hv
    | choice htest hthen helse =>
      refine hR.bind (hR.condition (hpart List.mem_cons_self htest)) fun b _ => ?_
      cases b with
      | true => exact hall (fun s hs => by simp [parts, hs]) hthen
      | false => exact hall (fun s hs => by simp [parts, hs]) helse
    | forLoop hinitializer htest hincrement hbody =>
      -- The loop has a scope for what its initializer declares, and every round one more.
      refine hR.inNewScope (hR.bind (hR.executeOptional hinitializer.isExecuted
        (hx (mem_inner_of_mem_parts (by simp [parts])))) fun _ _ => ?_)
      exact hR.repeatWhile (hlast rfl) (hR.condition (hpart (by simp [parts]) htest))
        (hR.inNewScope (hall (fun s hs => by simp [parts, hs]) hbody))
        (hR.executeOptional hincrement.isExecuted (hx (mem_inner_of_mem_parts (by simp [parts]))))
        rounds
    | whileLoop htest hbody =>
      exact hR.repeatWhile (hlast rfl) (hR.condition (hpart List.mem_cons_self htest))
        (hR.inNewScope (hall (fun s hs => by simp [parts, hs]) hbody)) (hR.pure trivial) rounds
    | answer h => exact hR.bind (hpart List.mem_cons_self h) fun v hv => hR.pure hv

end Nodes

end IsProgramCongruence

end Evaluation

end Blockscript
