import Blockscript.Proofs.Evaluation.Events
import Blockscript.Proofs.Evaluation.Nodes
import Blockscript.Proofs.Syntax.Matching

/-!
# Relations that all constructs respect

Two evaluations of the same tree, or of two trees that match, are often compared step by step.
Everything that an expression or a statement does is made of a few single steps, so that a
relation that these respect is respected by whole constructs if it holds between their parts. Such
a relation is a *congruence*. It is *expressive* if this can be said at least of the steps that
bind no names, and *compatible* if it can be said of those that do the same in all scopes. What
is left to every relation of its own is how a call enters its scope, and how to go from one
number of steps to the next.

* `Evaluation.IsCompatible`, `Evaluation.IsExpressive`, `Evaluation.IsCongruence`: what single
  steps have to respect;
* `IsCompatible.applyBinary`, `IsCompatible.callDefined`, `IsCompatible.perform`:
  operators and calls;
* `IsCompatible.executeAll`, `IsCompatible.repeatWhile`: lists of statements, and loops;
* `IsExpressive.evaluateNode`, `IsCongruence.executeNode`, `IsCongruence.declareNode`:
  expressions, statements and fields;
* `IsExpressive.evaluateNode_of_matches`, `IsCongruence.executeNode_of_matches`, …: the same for
  two trees that match.
-/

namespace Blockscript.Evaluation

open Node

/-- A relation of steps that is respected by the single steps that do the same in all scopes,
    and by doing one step after the other. Of what is made to be logged it need not respect all:
    `E` says what it does, at least everything above the level of calls. -/
structure IsCompatible (R : {α : Type} → Evaluation α → Evaluation α → Prop)
    (E : Nat → Evaluation Event → Prop := Makes) : Prop where
  pure {α : Type} (a : α) : R (Pure.pure a) (Pure.pure a)
  throw {α : Type} (h : Halt) :
    R (MonadExcept.throw h : Evaluation α) (MonadExcept.throw h : Evaluation α)
  bind {α β : Type} {p' p : Evaluation α} {f' f : α → Evaluation β} :
    R p' p → (∀ a, R (f' a) (f a)) → R (p' >>= f') (p >>= f)
  logFrom {event' event : Evaluation Event} {level : Nat} : R event' event → E level event →
    R (Evaluation.logFrom level event') (Evaluation.logFrom level event)
  makes {event : Evaluation Event} {level : Nat} : Event.callLevel < level → Makes level event →
    E level event := by exact fun _ h => h
  print (line : String) :
    R (modify (·.print line) : Evaluation PUnit) (modify (·.print line) : Evaluation PUnit)
  checkDigits (exceeds : Nat → Bool) :
    R (Evaluation.checkDigits exceeds) (Evaluation.checkDigits exceeds)
  textOf (v : Value) : R (Evaluation.textOf v) (Evaluation.textOf v)
  getField (id : ObjectId) (field : Label) :
    R (Evaluation.getField id field) (Evaluation.getField id field)
  setField (id : ObjectId) (field : Label) (v : Value) :
    R (Evaluation.setField id field v) (Evaluation.setField id field v)
  lookupMethod (id : ObjectId) (name : Label) (arity : Int) :
    R (Evaluation.lookupMethod id name arity) (Evaluation.lookupMethod id name arity)

/-- A relation of steps that is also respected by the steps that look names up, from the current
    scope on. -/
structure IsExpressive (R : {α : Type} → Evaluation α → Evaluation α → Prop)
    (E : Nat → Evaluation Event → Prop := Makes) : Prop extends IsCompatible R E where
  readVariable (name : Label) : R (Evaluation.readVariable name) (Evaluation.readVariable name)
  assignVariable (name : Label) (v : Value) :
    R (Evaluation.assignVariable name v) (Evaluation.assignVariable name v)
  lookupFunction (name : Label) (arity : Int) :
    R (Evaluation.lookupFunction name arity) (Evaluation.lookupFunction name arity)

/-- A relation of steps that is also respected by binding a variable in the current scope, and by
    entering a new one. -/
structure IsCongruence (R : {α : Type} → Evaluation α → Evaluation α → Prop)
    (E : Nat → Evaluation Event → Prop := Makes) : Prop extends IsExpressive R E where
  inNewScope {α : Type} {p' p : Evaluation α} :
    R p' p → R (Evaluation.inNewScope p') (Evaluation.inNewScope p)
  defineVariable (name : Label) (isConstant : Bool) (v : Value) :
    R (Evaluation.defineVariable name isConstant v) (Evaluation.defineVariable name isConstant v)

variable {R : {α : Type} → Evaluation α → Evaluation α → Prop}
  {E : Nat → Evaluation Event → Prop}

namespace IsCompatible

variable (hR : IsCompatible R E) {α β : Type}

include hR

/-- What may fail with an error is a value or a halt, on both sides. -/
theorem ofExcept (x : Except RuntimeError α) :
    R (Evaluation.ofExcept x) (Evaluation.ofExcept x) := by
  cases x with
  | ok a => exact hR.pure a
  | error e => exact hR.throw _

/-- The text of a value, after its digits have been counted. -/
theorem display (v : Value) : R (Evaluation.display v) (Evaluation.display v) :=
  hR.bind (hR.checkDigits v.textExceeds) fun _ => hR.textOf v

/-- The same for a list of parts that are related one by one. -/
theorem mapM_of_forall₂ {f' f : β → Evaluation α} {ms ns : List β}
    (h : List.Forall₂ (fun m n => R (f' m) (f n)) ms ns) : R (ms.mapM f') (ns.mapM f) := by
  induction h with
  | nil => exact hR.pure []
  | cons h _ ih =>
    rw [List.mapM_cons, List.mapM_cons]
    exact hR.bind h fun b => hR.bind ih fun bs => hR.pure (b :: bs)

/-- Only the members of the list matter. -/
theorem mapM {f' f : β → Evaluation α} {ns : List β} (h : ∀ n ∈ ns, R (f' n) (f n)) :
    R (ns.mapM f') (ns.mapM f) :=
  hR.mapM_of_forall₂ (List.forall₂_same.2 h)

theorem forM_of_forall₂ {f' f : β → Evaluation PUnit} {ms ns : List β}
    (h : List.Forall₂ (fun m n => R (f' m) (f n)) ms ns) : R (ms.forM f') (ns.forM f) := by
  induction h with
  | nil => exact hR.pure PUnit.unit
  | cons h _ ih => exact hR.bind h fun _ => ih

/-- The same for a list of parts, each of which is related to itself. -/
theorem forM {f' f : β → Evaluation PUnit} {ns : List β} (h : ∀ n, R (f' n) (f n)) :
    R (ns.forM f') (ns.forM f) :=
  hR.forM_of_forall₂ (List.forall₂_same.2 fun n _ => h n)

theorem requireObject (v : Value) (member : Label) :
    R (Evaluation.requireObject v member) (Evaluation.requireObject v member) := by
  cases v with
  | object id => exact hR.pure id
  | _ => exact hR.bind (hR.ofExcept _) fun _ => hR.throw _

/-! ### Conditions and operators -/

/-- A condition logs its value and asks for a boolean. -/
theorem condition {construct : Construct} {p' p : Evaluation Value} (h : R p' p) :
    R (Evaluation.condition construct p') (Evaluation.condition construct p) := by
  refine hR.bind h fun v => hR.bind (hR.ofExcept _) fun w => ?_
  refine hR.bind (hR.logFrom (hR.bind (hR.display w) fun _ => hR.pure _)
    (hR.makes (by decide) (makes_condition construct w))) fun _ => ?_
  split
  · exact hR.pure _
  · exact hR.pure _

theorem logicalOperand (side operator : String) (v : Value) :
    R (Evaluation.logicalOperand side operator v) (Evaluation.logicalOperand side operator v) := by
  refine hR.bind (hR.ofExcept _) fun w => ?_
  split
  · exact hR.pure _
  · exact hR.pure _

section Binary

variable {l' l r' r : Evaluation Value} (hl : R l' l) (hr : R r' r)

include hl hr

/-- A logical operator looks at its right operand only after the left one. -/
theorem shortCircuit {operator : String} {needed : Bool} :
    R (Evaluation.shortCircuit operator needed l' r')
      (Evaluation.shortCircuit operator needed l r) := by
  refine hR.bind hl fun v => hR.bind (hR.logicalOperand _ _ v) fun b => ?_
  split
  · exact hR.bind hr fun w => hR.bind (hR.logicalOperand _ _ w) fun _ => hR.pure _
  · exact hR.pure _

/-- All operators but the logical ones look at both operands before they are applied. -/
theorem applyBinary {o : Label} :
    R (Evaluation.applyBinary o l' r') (Evaluation.applyBinary o l r) := by
  by_cases hand : o = .text "&&"
  · subst hand
    exact hR.shortCircuit hl hr
  by_cases hor : o = .text "||"
  · subst hor
    exact hR.shortCircuit hl hr
  rw [applyBinary_of_ne hand hor, applyBinary_of_ne hand hor]
  refine hR.bind hl fun a => hR.bind hr fun b => hR.bind (hR.checkDigits _) fun _ => ?_
  split
  · exact hR.pure _
  · exact hR.throw _

end Binary

/-! ### Calls -/

/-- The texts of arguments are those of all of them, from left to right. -/
theorem argumentTexts (arguments : List Value) :
    R (Evaluation.argumentTexts arguments) (Evaluation.argumentTexts arguments) := by
  refine hR.bind (hR.mapM fun v _ => hR.display v) fun texts => ?_
  split
  · exact hR.bind (hR.throw _) fun _ => hR.pure texts
  · exact hR.pure texts

omit hR in
/-- A call, by what its body does in the new scope. -/
theorem callDefined (hR : IsCompatible R) {name : Label} {parameters : List Label}
    {closure : ScopeId} {body' body : Evaluation Outcome} {arguments : List Value}
    (hscope : R (do within (← newScope (some closure)) do
        Evaluation.bindParameters parameters arguments
        body')
      (do within (← newScope (some closure)) do
        Evaluation.bindParameters parameters arguments
        body)) :
    R (Evaluation.callDefined name parameters closure body' arguments)
      (Evaluation.callDefined name parameters closure body arguments) := by
  rw [Evaluation.callDefined, Evaluation.callDefined]
  split
  · exact hR.throw _
  · refine hR.bind (hR.logFrom (hR.bind (hR.argumentTexts arguments) fun _ => hR.pure _)
      (makes_call name arguments)) fun _ => ?_
    rw [← bind_assoc, ← bind_assoc]
    exact hR.bind hscope fun outcome => hR.bind (hR.logFrom (hR.bind (hR.display _) fun _ =>
      hR.pure _) (makes_answer name outcome.value)) fun _ => hR.pure _

/-- By induction on the exchange. -/
theorem perform (exchange : Exchange) :
    R (Evaluation.perform exchange) (Evaluation.perform exchange) := by
  induction exchange with
  | answer value => exact hR.pure value
  | fail e => exact hR.throw _
  | faulty f => exact hR.throw _
  | print value next ih =>
    exact hR.bind (hR.display value) fun line => hR.bind (hR.print line) fun _ => ih
  | getField object field next ih => exact hR.bind (hR.getField object field) ih
  | setField object field value next ih =>
    exact hR.bind (hR.setField object field value) fun _ => ih

/-! ### Declarations -/

/-- An initializer may be missing, on both sides at once. -/
theorem initialValue_of_iff {e' e : Node → Evaluation Value} {m n : Node}
    (habsent : m = .absent ↔ n = .absent) (h : R (e' m) (e n)) :
    R (Evaluation.initialValue e' m) (Evaluation.initialValue e n) := by
  by_cases hn : n = .absent
  · obtain rfl := hn
    obtain rfl := habsent.2 rfl
    exact hR.pure _
  · rw [Evaluation.initialValue, Evaluation.initialValue]
    · exact h
    · exact hn
    · exact fun hm => hn (habsent.1 hm)

theorem initialValue {e' e : Node → Evaluation Value} (he : ∀ n, R (e' n) (e n)) (n : Node) :
    R (Evaluation.initialValue e' n) (Evaluation.initialValue e n) :=
  hR.initialValue_of_iff Iff.rfl (he n)

/-- A declaration, by what binding its name does. -/
theorem declare {name : Label} {isConstant : Bool} {v : Value}
    (hbound : R (defineVariable name isConstant v) (defineVariable name isConstant v)) :
    R (Evaluation.declare name isConstant v) (Evaluation.declare name isConstant v) :=
  hR.bind hbound fun _ => hR.logFrom (hR.bind (hR.ofExcept _) fun _ =>
    hR.bind (hR.display v) fun _ => hR.pure _)
      (hR.makes (by decide) (makes_declare name isConstant v))

/-! ### Lists of statements and loops -/

/-- A part of a loop may be missing, on both sides at once. -/
theorem executeOptional_of_iff {x' x : Node → Evaluation Outcome} {m n : Node}
    (habsent : m = .absent ↔ n = .absent) (h : R (x' m) (x n)) :
    R (Evaluation.executeOptional x' m) (Evaluation.executeOptional x n) := by
  by_cases hn : n = .absent
  · obtain rfl := hn
    obtain rfl := habsent.2 rfl
    exact hR.pure ()
  · rw [Evaluation.executeOptional, Evaluation.executeOptional]
    · exact hR.bind h fun _ => hR.pure ()
    · exact hn
    · exact fun hm => hn (habsent.1 hm)

theorem executeOptional {x' x : Node → Evaluation Outcome} (hx : ∀ n, R (x' n) (x n)) (n : Node) :
    R (Evaluation.executeOptional x' n) (Evaluation.executeOptional x n) :=
  hR.executeOptional_of_iff Iff.rfl (hx n)

/-- The statements of a list are related one by one; the first that answers ends both lists. -/
theorem executeAll_of_forall₂ {x' x : Node → Evaluation Outcome} {ms ns : List Node}
    (hx : List.Forall₂ (fun m n => R (x' m) (x n)) ms ns) :
    R (Evaluation.executeAll x' ms) (Evaluation.executeAll x ns) := by
  induction hx with
  | nil => exact hR.pure _
  | cons h _ ih =>
    refine hR.bind h fun o => ?_
    cases o with
    | normal => exact ih
    | answered v => exact hR.pure _

/-- Only the statements of the list matter. -/
theorem executeAll {x' x : Node → Evaluation Outcome} {ns : List Node}
    (hx : ∀ n ∈ ns, R (x' n) (x n)) :
    R (Evaluation.executeAll x' ns) (Evaluation.executeAll x ns) :=
  hR.executeAll_of_forall₂ (List.forall₂_same.2 hx)

/-- Loops that differ in the number of their rounds are related if they are after the last
    round of one of them. -/
theorem repeatWhile {condition' condition : Evaluation Bool} {body' body : Evaluation Outcome}
    {increment' increment : Evaluation Unit} (hcondition : R condition' condition)
    (hbody : R body' body) (hincrement : R increment' increment) {rounds more : Nat}
    (hlast : R (Evaluation.repeatWhile condition' body' increment' more)
      (MonadExcept.throw .outOfSteps)) :
    R (Evaluation.repeatWhile condition' body' increment' (rounds + more))
      (Evaluation.repeatWhile condition body increment rounds) := by
  induction rounds with
  | zero =>
    rw [Nat.zero_add]
    exact hlast
  | succ rounds ih =>
    rw [Nat.succ_add]
    refine hR.bind hcondition fun b => ?_
    cases b with
    | false => exact hR.pure _
    | true =>
      refine hR.bind hbody fun o => ?_
      cases o with
      | normal => exact hR.bind hincrement fun _ => ih
      | answered v => exact hR.pure _

/-- Loops with the same number of rounds. -/
theorem repeatWhile_self {condition' condition : Evaluation Bool}
    {body' body : Evaluation Outcome} {increment' increment : Evaluation Unit}
    (hcondition : R condition' condition) (hbody : R body' body)
    (hincrement : R increment' increment) (rounds : Nat) :
    R (Evaluation.repeatWhile condition' body' increment' rounds)
      (Evaluation.repeatWhile condition body increment rounds) := by
  have hlast : R (Evaluation.repeatWhile condition' body' increment' 0)
      (MonadExcept.throw .outOfSteps) := hR.throw _
  exact hR.repeatWhile hcondition hbody hincrement hlast

end IsCompatible

namespace IsExpressive

section Matching

variable {Q X : Node → Node → Prop} {m n : Node} {e' e : Node → Evaluation Value}
  (hR : IsExpressive R E) (hX : IsMatching Q X) (he : ∀ {m n}, Q m n → R (e' m) (e n))

include hR hX he

/-- The target of an assignment is not evaluated. It has to match nonetheless. -/
theorem assign_of_matches {target' target value' value : Node} (htarget : X target' target)
    (hvalue : Q value' value) :
    R (Evaluation.assign e' target' value') (Evaluation.assign e target value) := by
  cases hX.matched htarget with
  | @access receiver' receiver name hreceiver =>
    have habsent := hX.absent_iff hreceiver
    by_cases hr : receiver = .absent
    · obtain rfl := hr
      obtain rfl := habsent.2 rfl
      exact hR.bind (he hvalue) fun v => hR.assignVariable name v
    · rw [Evaluation.assign, Evaluation.assign]
      · exact hR.bind (he hreceiver) fun r => hR.bind (he hvalue) fun v =>
          hR.bind (hR.requireObject r name) fun id => hR.setField id name v
      · exact hr
      · exact fun hr' => hr (habsent.1 hr')
  | _ => exact hR.throw _

/-- An expression is what its parts do. The expressions are of one form, with parts that are
    related. -/
theorem evaluateNode_of_matches {c' c : FunctionId → List Value → Evaluation Value}
    (hc : ∀ id arguments, R (c' id arguments) (c id arguments)) (h : m.Matches Q X n) :
    R (Evaluation.evaluateNode e' c' m) (Evaluation.evaluateNode e c n) := by
  -- One case a construct. Where the receiver may be absent, both trees have one or neither does.
  cases h with
  | literal tag payload => exact hR.pure _
  | group hexpression => exact he hexpression
  | @access receiver' receiver name hreceiver =>
    have habsent := hX.absent_iff hreceiver
    by_cases hr : receiver = .absent
    · obtain rfl := hr
      obtain rfl := habsent.2 rfl
      exact hR.readVariable name
    · rw [Evaluation.evaluateNode, Evaluation.evaluateNode]
      · exact hR.bind (he hreceiver) fun r => hR.bind (hR.requireObject r name) fun id =>
          hR.getField id name
      · exact hr
      · exact fun hr' => hr (habsent.1 hr')
  | @call receiver' receiver arguments' arguments name hreceiver harguments =>
    have habsent := hX.absent_iff hreceiver
    have hvalues : R (arguments'.mapM e') (arguments.mapM e) :=
      hR.mapM_of_forall₂ (harguments.imp fun _ _ => he)
    by_cases hr : receiver = .absent
    · obtain rfl := hr
      obtain rfl := habsent.2 rfl
      exact hR.bind hvalues fun values => hR.bind (hR.lookupFunction name _) fun f => hc f values
    · rw [Evaluation.evaluateNode, Evaluation.evaluateNode]
      · exact hR.bind (he hreceiver) fun r => hR.bind hvalues fun values =>
          hR.bind (hR.requireObject r name) fun id => hR.bind (hR.lookupMethod id name _) fun f =>
            hc f values
      · exact hr
      · exact fun hr' => hr (habsent.1 hr')
  | binary operator hleft hright => exact hR.applyBinary (he hleft) (he hright)
  | _ => exact hR.throw _

end Matching

variable (hR : IsExpressive R E) {e' e : Node → Evaluation Value} (he : ∀ n, R (e' n) (e n))

include hR he

/-- An assignment evaluates its receiver, then its value. -/
theorem assign (target value : Node) :
    R (Evaluation.assign e' target value) (Evaluation.assign e target value) :=
  hR.assign_of_matches isMatching_eq (fun h => h ▸ he _) rfl rfl

theorem evaluateNode {c' c : FunctionId → List Value → Evaluation Value}
    (hc : ∀ id arguments, R (c' id arguments) (c id arguments)) (n : Node) :
    R (Evaluation.evaluateNode e' c' n) (Evaluation.evaluateNode e c n) :=
  hR.evaluateNode_of_matches isMatching_eq (fun h => h ▸ he _) hc (isMatching_eq.matched rfl)

end IsExpressive

namespace IsCongruence

variable (hR : IsCongruence R E)

include hR

/-- Each parameter is bound to an argument, from left to right. -/
theorem bindParameters (parameters : List Label) (arguments : List Value) :
    R (Evaluation.bindParameters parameters arguments)
      (Evaluation.bindParameters parameters arguments) := by
  induction parameters generalizing arguments with
  | nil => exact hR.pure ()
  | cons name names ih =>
    cases arguments with
    | nil => exact hR.pure ()
    | cons value values => exact hR.bind (hR.defineVariable name false value) fun _ => ih values

section Matching

variable {Q X : Node → Node → Prop} {m n : Node} {e' e : Node → Evaluation Value}
  (hX : IsMatching Q X) (he : ∀ {m n}, Q m n → R (e' m) (e n))

include hX he

/-- The loops of two statements may differ in the number of their rounds. -/
theorem executeNode_of_matches {x' x : Node → Evaluation Outcome}
    (hx : ∀ {m n}, X m n → R (x' m) (x n)) (rounds more : Nat)
    (hlast : ∀ condition body increment,
      R (Evaluation.repeatWhile condition body increment more) (MonadExcept.throw .outOfSteps))
    (h : m.Matches Q X n) : R (Evaluation.executeNode (rounds + more) e' x' m)
      (Evaluation.executeNode rounds e x n) := by
  have hall : ∀ {ms ns}, List.Forall₂ X ms ns →
      R (Evaluation.executeAll x' ms) (Evaluation.executeAll x ns) :=
    fun hns => hR.executeAll_of_forall₂ (hns.imp fun _ _ => hx)
  have hoptional : ∀ {m n}, X m n →
      R (Evaluation.executeOptional x' m) (Evaluation.executeOptional x n) :=
    fun hn => hR.executeOptional_of_iff (hX.absent_iff (hX.expression hn)) (hx hn)
  -- One case a statement; the two loops are one, with and without an increment.
  cases h with
  | discard hexpression => exact hR.bind (he hexpression) fun _ => hR.pure _
  | declaration name hinitializer =>
    have hinitial := hR.initialValue_of_iff (hX.absent_iff hinitializer) (he hinitializer)
    exact hR.bind hinitial fun v => hR.bind (hR.declare (hR.defineVariable name false v)) fun _ =>
      hR.pure _
  | assignment hreceiver hvalue =>
    exact hR.bind (hR.assign_of_matches hX he hreceiver hvalue) fun _ => hR.pure _
  | choice htest hthen helse =>
    refine hR.bind (hR.condition (he htest)) fun b => ?_
    cases b with
    | true => exact hall hthen
    | false => exact hall helse
  | whileLoop htest hstatements =>
    exact hR.repeatWhile (hR.condition (he htest)) (hR.inNewScope (hall hstatements)) (hR.pure ())
      (hlast _ _ _)
  | forLoop hinitializer htest hincrement hstatements =>
    refine hR.inNewScope (hR.bind (hoptional hinitializer) fun _ => ?_)
    exact hR.repeatWhile (hR.condition (he htest)) (hR.inNewScope (hall hstatements))
      (hoptional hincrement) (hlast _ _ _)
  | answer hvalue => exact hR.bind (he hvalue) fun v => hR.pure _
  | _ => exact hR.throw _

/-- A declaration evaluates its initializer, and binds its name. -/
theorem declareNode_of_matches (h : m.Matches Q X n) :
    R (Evaluation.declareNode e' m) (Evaluation.declareNode e n) := by
  have hinitial : ∀ {m n}, Q m n →
      R (Evaluation.initialValue e' m) (Evaluation.initialValue e n) :=
    fun hn => hR.initialValue_of_iff (hX.absent_iff hn) (he hn)
  cases h with
  | field name isConstant h =>
    exact hR.bind (hinitial h) fun v => hR.declare (hR.defineVariable name isConstant v)
  | declaration name h => exact hR.bind (hinitial h) fun _ => hR.throw _
  | forLoop h _ _ _ => exact hR.bind (hinitial (hX.expression h)) fun _ => hR.throw _
  | _ => exact hR.throw _

end Matching

section Nodes

variable {e' e : Node → Evaluation Value} (he : ∀ n, R (e' n) (e n))

include he

/-- The loops of two statements may differ in the number of their rounds. -/
theorem executeNode {x' x : Node → Evaluation Outcome} (hx : ∀ n, R (x' n) (x n))
    (rounds more : Nat)
    (hlast : ∀ condition body increment,
      R (Evaluation.repeatWhile condition body increment more) (MonadExcept.throw .outOfSteps))
    (n : Node) : R (Evaluation.executeNode (rounds + more) e' x' n)
      (Evaluation.executeNode rounds e x n) :=
  hR.executeNode_of_matches isMatching_eq (fun h => h ▸ he _) (fun h => h ▸ hx _) rounds more hlast
    (isMatching_eq.matched rfl)

theorem declareNode (n : Node) :
    R (Evaluation.declareNode e' n) (Evaluation.declareNode e n) :=
  hR.declareNode_of_matches isMatching_eq (fun h => h ▸ he _) (isMatching_eq.matched rfl)

end Nodes

end IsCongruence

end Blockscript.Evaluation
