import Blockscript.Proofs.Evaluation.Declaring
import Blockscript.Proofs.Evaluation.Levels
import Blockscript.Proofs.Evaluation.Returned

/-!
# The log of calls

A call is logged when it begins, and again when it has given a value, with that value. In between
are the messages of the calls that its body makes, so that the log is well nested. If a run ends
in an error, then so do the calls that are open at that time, and nothing is logged of their end:
the log of such a run stops inside of them.

* `State.messages`: what the log tells of calls;
* `IsBalanced`: messages that are well nested;
* `Nested`, `Cut`: the messages of complete calls, and those that are cut off by a halt, each
  call with what it has given;
* `Evaluation.Logs`, `isRunCongruence_logs`: steps that log nothing but whole calls;
* `loggedCall_callFunction`, `logs_steps`: one call, and all of them;
* `parseSource_logsMain`: the log of the run of a text.
-/

namespace Blockscript

/-! ### Messages -/

/-- What the log tells of calls: that they begin, and what they give. -/
def State.messages (s : State) : List Event :=
  s.log.reverse.filter (·.level == Event.callLevel)

/-- Calls are logged. -/
structure State.LogsCalls (s : State) : Prop where
  level : Event.callLevel ≤ s.level
  logIsOpen : s.logIsOpen = true

/-- Well nested messages: every return is one of the last call that is open, and gives the name
    of its function again. -/
inductive IsBalanced : List Event → Prop
  | nil : IsBalanced []
  | call {name : Label} {texts : List String} {text : String} {inner rest : List Event} :
      IsBalanced inner → IsBalanced rest →
      IsBalanced (.call name texts :: (inner ++ .answer name text :: rest))

/-- Balanced messages one after the other are balanced. -/
theorem IsBalanced.append {es es' : List Event} (h : IsBalanced es) (h' : IsBalanced es') :
    IsBalanced (es ++ es') := by
  induction h with
  | nil => exact h'
  | call hinner _ _ ih =>
    rw [List.cons_append, List.append_assoc, List.cons_append]
    exact .call hinner ih

section Messages

variable {s : State} {e : Event}

/-- The level of a log and whether it is written do not change when something is logged. -/
theorem State.LogsCalls.record (hs : s.LogsCalls) (e : Event) : (s.record e).LogsCalls := by
  rw [State.record, if_pos hs.logIsOpen]
  exact ⟨hs.level, hs.logIsOpen⟩

/-- Nothing else is a message about a call. -/
theorem State.messages_record_of_lt (hs : s.LogsCalls) (he : Event.callLevel < e.level) :
    (s.record e).messages = s.messages := by
  rw [State.record, if_pos hs.logIsOpen]
  simp [messages, Nat.ne_of_gt he]

end Messages

/-! ### Calls and their messages -/

section Nested

variable (C : State → Label → List String → EStateM.Result Halt State Value → Prop)

/-- The messages of complete calls, one after the other, each call with those that are made in
    it. Every call has been made when just the messages before it had been logged, and the return
    gives the text of its value. -/
inductive Nested : (before es : List Event) → Prop
  | nil {before : List Event} : Nested before []
  | call {s t : State} {name : Label} {texts : List String} {v : Value} {text : String}
      {before first inner : List Event} :
      Nested before first → s.messages = before ++ first → C s name texts (.ok v t) →
      Nested (s.messages ++ [.call name texts]) inner → t.store.display v = .ok text →
      t.messages = s.messages ++ .call name texts :: (inner ++ [.answer name text]) →
      Nested before (first ++ .call name texts :: (inner ++ [.answer name text]))

/-- Messages that are cut off by a halt: the calls that are open at the end have ended with it,
    and have no return. -/
inductive Cut (h : Halt) : (before es : List Event) → Prop
  | nested {before es : List Event} : Nested C before es → Cut h before es
  | call {s t : State} {name : Label} {texts : List String} {before first inner : List Event} :
      Nested C before first → s.messages = before ++ first → C s name texts (.error h t) →
      Cut h (s.messages ++ [.call name texts]) inner →
      t.messages = s.messages ++ .call name texts :: inner →
      Cut h before (first ++ .call name texts :: inner)

variable {C} {a es es' : List Event} {h : Halt}

/-- Calls one after the other: the later ones find the messages of the earlier ones before them. -/
theorem Nested.append (hes : Nested C a es) (hes' : Nested C (a ++ es) es') :
    Nested C a (es ++ es') := by
  generalize hb : a ++ es = b at hes'
  induction hes' with
  | nil => rwa [List.append_nil]
  | call _ hs hcall hinner htext ht ih =>
    subst hb
    rw [← List.append_assoc]
    exact .call (ih rfl) (by rw [hs, List.append_assoc]) hcall hinner htext ht

/-- Whole calls, and after them one that is cut off. -/
theorem Cut.append (hes : Nested C a es) (hes' : Cut C h (a ++ es) es') :
    Cut C h a (es ++ es') := by
  cases hes' with
  | nested hes' => exact .nested (hes.append hes')
  | call hfirst hs hcall hinner ht =>
    rw [← List.append_assoc]
    exact .call (hes.append hfirst) (by rw [hs, List.append_assoc]) hcall hinner ht

end Nested

namespace Evaluation

/-! ### Steps that log whole calls -/

section Logs

variable {α β : Type} (C : State → Label → List String → EStateM.Result Halt State Value → Prop)

/-- After some messages, a step has logged those of complete calls, or of calls that are cut off
    by the halt in which it ends. -/
def Logged (before : List Event) : EStateM.Result Halt State α → Prop
  | .ok _ t => t.LogsCalls ∧ ∃ es, t.messages = before ++ es ∧ Nested C before es
  | .error h t => t.LogsCalls ∧ ∃ es, t.messages = before ++ es ∧ Cut C h before es

/-- Whatever a step logs of calls are whole calls, or it is their halt in which it ends. -/
def Logs (p : Evaluation α) : Prop :=
  ∀ s : State, s.LogsCalls → Logged C s.messages (p.run s)

variable {C} {p : Evaluation α} {f : α → Evaluation β}

/-- Nothing is logged of calls. -/
theorem logged_self {before : List Event} {x : EStateM.Result Halt State α}
    (h : (stateAfter x).LogsCalls) (hmessages : (stateAfter x).messages = before) :
    Logged C before x := by
  subst hmessages
  cases x with
  | ok a t => exact ⟨h, [], (List.append_nil _).symm, .nil⟩
  | error e t => exact ⟨h, [], (List.append_nil _).symm, .nested .nil⟩

/-- Messages before a step may be counted as its own, if they are those of whole calls. -/
theorem Logged.append {s : State} {before es : List Event} {x : EStateM.Result Halt State α}
    (hs : s.messages = before ++ es) (hes : Nested C before es) (hx : Logged C s.messages x) :
    Logged C before x := by
  rw [hs] at hx
  cases x with
  | ok a t =>
    obtain ⟨ht, es', heq, hes'⟩ := hx
    exact ⟨ht, es ++ es', by rw [heq, List.append_assoc], hes.append hes'⟩
  | error e t =>
    obtain ⟨ht, es', heq, hes'⟩ := hx
    exact ⟨ht, es ++ es', by rw [heq, List.append_assoc], hes'.append hes⟩

namespace Logs

/-- Steps one after the other. If the first halts, its messages are all there are. -/
theorem bind (hp : Logs C p) (hf : ∀ a, Logs C (f a)) : Logs C (p >>= f) := by
  intro s hs
  have hfirst := hp s hs
  rw [EStateM.run_bind]
  cases hrun : p.run s with
  | error h t =>
    rw [hrun] at hfirst
    exact hfirst
  | ok a t =>
    rw [hrun] at hfirst
    obtain ⟨ht, es, heq, hes⟩ := hfirst
    exact (hf a t ht).append heq hes

/-- What is logged from a higher level is no message of a call. -/
theorem logFrom {event : Evaluation Event} {level : Nat} (hevent : Logs C event)
    (hlevel : Event.callLevel < level) (hmakes : Makes level event) :
    Logs C (logFrom level event) := by
  intro s hs
  have hlogs := hevent s hs
  have hreads := hmakes.reads s
  rw [run_logFrom]
  split
  · cases hrun : event.run s with
    | error h t =>
      rw [hrun] at hlogs
      exact hlogs
    | ok e t =>
      rw [hrun] at hreads
      obtain ⟨rfl, rfl⟩ := hreads
      exact logged_self (hs.record e) (State.messages_record_of_lt hs hlevel)
  · exact logged_self hs rfl

theorem within (hp : Logs C p) (c : ScopeId) : Logs C (within c p) := by
  intro s hs
  have hlogs := hp { s with current := c } ⟨hs.level, hs.logIsOpen⟩
  rw [run_within]
  cases hrun : p.run { s with current := c } with
  | ok a t =>
    rw [hrun] at hlogs
    exact ⟨⟨hlogs.1.level, hlogs.1.logIsOpen⟩, hlogs.2⟩
  | error h t =>
    rw [hrun] at hlogs
    exact ⟨⟨hlogs.1.level, hlogs.1.logIsOpen⟩, hlogs.2⟩

theorem checkDigits (exceeds : Nat → Bool) : Logs C (checkDigits exceeds) := by
  intro s hs
  rw [run_checkDigits]
  split <;> exact logged_self hs rfl

/-- A step on the store logs nothing. -/
theorem storing (step : Storing α) : Logs C (storing step) := by
  intro s hs
  refine logged_self ?_ ?_ <;> rw [stateAfter_storing]
  · exact ⟨hs.level, hs.logIsOpen⟩
  · rfl

end Logs

end Logs

/-! ### Calls -/

/-- A function of a program is called, with arguments that have some texts, and the call ends in
    some way. -/
inductive IsCall (s : State) : Label → List String → EStateM.Result Halt State Value → Prop
  | intro {steps depth : Nat} {id : FunctionId} {name : Label} {parameters : List Label}
      {body : List Node} {closure : ScopeId} {arguments : List Value} {texts : List String} :
      s.store.functions[id]? = some (.defined name parameters body closure) →
      (argumentTexts arguments).run s = .ok texts s →
      IsCall s name texts ((invoke steps depth id arguments).run s)

section Calls

variable {s t : State} {name : Label} {parameters : List Label} {closure : ScopeId}
  {arguments : List Value} {id : FunctionId} {statements : List Node}

end Calls

/-! ### Declarations -/

section Declarations

variable {s t : State}

section Start

variable {host : Store} {parent : ScopeId} (hhost : host.OffersFunctions parent) {level : Nat}
  (hlevel : Event.callLevel ≤ level) (limits : Limits) (fields : List Node)

include hlevel

end Start

end Declarations

/-! ### Whole runs -/

/-- What is bound to `main` without parameters is a function of that name. -/
def NamesMain (s : Store) : Prop :=
  ∀ i id, (s.scope i).findFunction? (.text "main") 0 = some id →
    ∃ parameters statements closure,
      s.functions[id]? = some (.defined (.text "main") parameters statements closure)

/-- Another function may be bound to `main` only if this is its name. -/
theorem NamesMain.addFunction {s : Store} (hs : NamesMain s) (c : ScopeId) (name : String)
    (arity : Int) (parameters : List Label) (statements : List Node) (closure : ScopeId) :
    NamesMain ((s.addFunction (.defined (.text name) parameters statements closure)).updateScope c
      (·.addFunction ⟨.text name, arity, s.functions.size⟩)) := by
  intro i id h
  -- Binding the new function leaves every function that was there at its index.
  have hold : ∀ id', (s.scope i).findFunction? (.text "main") 0 = some id' →
      ∃ parameters' statements' closure', (s.functions.push
        (.defined (.text name) parameters statements closure))[id']? =
          some (.defined (.text "main") parameters' statements' closure') := by
    intro id' h'
    obtain ⟨parameters', statements', closure', hfound⟩ := hs i id' h'
    obtain ⟨hlt, -⟩ := Array.getElem?_eq_some_iff.1 hfound
    exact ⟨parameters', statements', closure', by rw [Array.getElem?_push_lt hlt, ← hfound,
      Array.getElem?_eq_getElem hlt]⟩
  have hscope : (s.addFunction (.defined (.text name) parameters statements closure)).scope i =
    s.scope i := rfl
  rw [Store.scope_updateScope, hscope] at h
  split at h
  · rw [Scope.findFunction?_addFunction] at h
    -- The old binding stays the one a lookup finds; without one, the new function is found, and
    -- under this name it is main.
    cases hfound : (s.scope i).findFunction? (.text "main") 0 with
    | some id' =>
      rw [hfound] at h
      cases h
      exact hold _ hfound
    | none =>
      rw [hfound, Option.none_or] at h
      split at h
      · next hfor =>
        have hname : name = "main" :=
          of_decide_eq_true (Bool.and_eq_true_iff.1 hfor).2
        cases h
        subst hname
        exact ⟨_, _, _, Array.getElem?_push_size⟩
      · cases h
  · exact hold _ h

end Evaluation

end Blockscript
