import Blockscript.Proofs.Evaluation.Arrival
import Blockscript.Proofs.Evaluation.Lexicality
import Blockscript.Proofs.Evaluation.Reached

/-!
# `RETURN` ends the nearest call

A call gives the value of the `RETURN` to which the statements of its own body come, or nil if
they come to none. In between and afterwards nothing happens but that the end of the call is
logged: no statement, condition or increment around the `RETURN` is executed any more, and what
is stored and printed is what it was when the value had been computed.

* `Evaluation.BeginsCall`: the state in which the body of a function begins;
* `Evaluation.endCall`: what is done after the body;
* `run_callFunction`, `run_invoke`: a call, by the run of its body;
* `call_answers`: calls from sound states;
* `parseSource_call_answers`: calls in the run of a text.
-/

namespace Blockscript

open Evaluation

/-- The nodes of what is left to do of a body. -/
def Task.nodes : Task → List Node
  | .statement n => n.nodes
  | .statements ns => Node.nodesOf ns
  | .rounds _ _ body _ => Node.nodesOf body

/-- A `RETURN` that is reached is one of the body itself, not of a function that is called. -/
theorem Task.Arrives.mem_nodes {depth : Nat} {task : Task} {s t : State} {e : Node}
    (h : task.Arrives depth s e t) : .answer e ∈ task.nodes := by
  induction h with
  | answer => exact List.mem_cons_self
  | thenBranch _ _ ih => exact List.mem_cons_of_mem _ (by simp [show _ ∈ Node.nodesOf _ from ih])
  | elseBranch _ _ ih => exact List.mem_cons_of_mem _ (by simp [show _ ∈ Node.nodesOf _ from ih])
  | whileLoop _ ih => exact List.mem_cons_of_mem _ (List.mem_append_right _ ih)
  | forLoop _ _ ih =>
    exact List.mem_cons_of_mem _ (by simp [show _ ∈ Node.nodesOf _ from ih])
  | here _ ih => exact List.mem_append_left _ ih
  | next _ _ ih => exact List.mem_append_right _ ih
  | inRound _ _ ih => exact ih
  | afterRound _ _ _ _ ih => exact ih

namespace Evaluation

variable {α : Type} {depth : Nat} {s t b : State} {id : FunctionId} {arguments : List Value}
  {name : Label} {body : List Node} {v : Value}

/-! ### The log of a run -/

/-- How much is logged, and whether the log is still written. -/
abbrev KeepsLog (s t : State) : Prop :=
  t.level = s.level ∧ t.logIsOpen = s.logIsOpen

theorem isCourse_keepsLog : IsCourse KeepsLog where
  refl _ := ⟨rfl, rfl⟩
  trans h h' := ⟨h'.1.trans h.1, h'.2.trans h.2⟩
  record e s := by
    rw [State.record]
    split <;> exact ⟨rfl, rfl⟩
  print _ _ := ⟨rfl, rfl⟩
  assign _ _ _ := ⟨rfl, rfl⟩

theorem isRunCongruence_keepsLog : IsRunCongruence fun {_} => AlongSelf KeepsLog := by
  refine isCourse_keepsLog.isRunCongruence (fun _ => along_storing fun _ => ⟨rfl, rfl⟩) ?_
  intro α c p hp s
  rw [run_within, stateAfter_returning]
  exact hp { s with current := c }

/-! ### Calls -/

/-- The body of a function begins in the state `b`: the call has been logged, and the parameters
    have been bound in a new scope inside the one where the function was defined. -/
def BeginsCall (s : State) (id : FunctionId) (arguments : List Value) (name : Label)
    (body : List Node) (b : State) : Prop :=
  ∃ parameters closure s', s.store.functions[id]? = some (.defined name parameters body closure) ∧
    arguments.length = parameters.length ∧
    (logFrom Event.callLevel (return .call name (← argumentTexts arguments))).run s = .ok ⟨⟩ s' ∧
    (bindParameters parameters arguments).run (s'.entered closure) = .ok ⟨⟩ b

/-- What is done after the body of a function: only the return is logged. -/
def endCall (name : Label) (v : Value) : Evaluation Value := do
  logFrom Event.callLevel do
    return .answer name (← display v)
  return v

/-- Nothing is done between two states but that, at most, the return of a function is logged. -/
structure Leaves (name : Label) (s t : State) : Prop where
  store : t.store = s.store
  output : t.output = s.output
  log : t.log = s.log ∨ ∃ text, t.log = .answer name text :: s.log

theorem Leaves.of_current {c : ScopeId} (h : Leaves name { s with current := c } t) :
    Leaves name s t :=
  ⟨h.store, h.output, h.log⟩

theorem run_answer (name : Label) (v : Value) (s : State) :
    (do return Event.answer name (← display v) : Evaluation Event).run s =
      match s.display v with
      | .ok text => .ok (.answer name text) s
      | .error h => .error h s := by
  rw [EStateM.run_bind, run_display]
  cases s.display v <;> rfl

/-- Logging a return does nothing else, unless the log is closed already. It fails only for
    values that no program has. -/
theorem run_endCall (name : Label) (v : Value) (s : State) :
    match (endCall name v).run s with
    | .ok w t => w = v ∧ (s.level = 0 ∨ s.logIsOpen → Leaves name s t)
    | .error h _ => ¬ h.IsProper := by
  rw [endCall, EStateM.run_bind, run_logFrom]
  by_cases hlevel : Event.callLevel ≤ s.level
  · rw [if_pos hlevel]
    rw [run_answer]
    cases htext : s.display v with
    | error h => exact State.not_isProper_of_display htext
    | ok text =>
      refine ⟨rfl, ?_⟩
      rintro (hzero | hopen)
      · rw [hzero] at hlevel
        contradiction
      · rw [State.record, if_pos hopen]
        exact ⟨rfl, rfl, .inr ⟨text, rfl⟩⟩
  · rw [if_neg hlevel]
    exact ⟨rfl, fun _ => ⟨rfl, rfl, .inl rfl⟩⟩

/-- A call of a defined function, by what its body does where it begins. -/
theorem run_callFunction (hb : BeginsCall s id arguments name body b)
    (x : (depth : Nat) → Node → Evaluation Outcome) (depth : Nat) :
    (callFunction x (depth + 1) id arguments).run s =
      match (executeAll (x depth) body).run b with
      | .ok o u => (endCall name o.value).run { u with current := s.current }
      | .error h u => .error h { u with current := s.current } := by
  obtain ⟨parameters, closure, s', hfound, hlength, hlogged, hbound⟩ := hb
  have hcurrent : s'.current = s.current := by
    have hrestores := isCourse_restores.logFrom Event.callLevel
      (isRunCongruence_restores.bind (isRunCongruence_restores.argumentTexts arguments)
        fun texts => isRunCongruence_restores.pure (Event.call name texts)).2 s
    rwa [hlogged] at hrestores
  rw [callFunction_eq, EStateM.run_bind, EStateM.run_get]
  simp only [hfound, callFound]
  rw [callDefined, if_neg (not_not_intro hlength), EStateM.run_bind, hlogged]
  simp only
  rw [← bind_assoc, EStateM.run_bind, run_within_newScope, EStateM.run_bind, hbound, hcurrent]
  simp only
  cases (executeAll (x depth) body).run b <;> rfl

theorem run_invoke (hb : BeginsCall s id arguments name body b) (steps depth : Nat) :
    (invoke (steps + 1) (depth + 1) id arguments).run s =
      match (executeAll (execute steps depth) body).run b with
      | .ok o u => (endCall name o.value).run { u with current := s.current }
      | .error h u => .error h { u with current := s.current } := by
  rw [invoke]
  exact run_callFunction hb (execute steps) depth

theorem BeginsCall.keepsLog (hb : BeginsCall s id arguments name body b) : KeepsLog s b := by
  obtain ⟨parameters, closure, s', -, -, hlogged, hbound⟩ := hb
  have hR := isRunCongruence_keepsLog
  have hevent := isCourse_keepsLog.logFrom Event.callLevel
    (hR.bind (hR.argumentTexts arguments) fun texts => hR.pure (Event.call name texts)).2 s
  have hparameters := (hR.bindParameters parameters arguments).2 (s'.entered closure)
  rw [hlogged] at hevent
  rw [hbound] at hparameters
  exact isCourse_keepsLog.trans hevent hparameters

section Sound

variable (hs : s.IsSound) (hlog : s.level = 0 ∨ s.logIsOpen)
  (haccepts : s.store.Accepts id (arguments.length : Int)) (hplain : ∀ a ∈ arguments, a.IsPlain)
  (hb : BeginsCall s id arguments name body b)

include hs hlog haccepts hplain hb

/-- A call ends in what its body leaves. Logging the return cannot fail, as the call would fail
    in a way in which none can. -/
theorem ends_invoke {o : Outcome} {u : State}
    (hbody : Ends (fun steps => executeAll (execute steps depth) body) b (.ok o u)) :
    ∃ s', Ends (fun steps => invoke steps (depth + 1) id arguments) s (.ok o.value s') ∧
      Leaves name u s' := by
  obtain ⟨-, steps, hbody⟩ := hbody
  have hkeeps : KeepsLog s u := by
    have hall : KeepsLog b (stateAfter ((executeAll (execute steps depth) body).run b)) :=
      (isRunCongruence_keepsLog.executeAll fun n _ =>
        (isRunCongruence_keepsLog.steps_self steps).2.1 depth n).2 b
    have hrun : (executeAll (execute steps depth) body).run b = .ok o u := hbody 0
    rw [hrun] at hall
    exact isCourse_keepsLog.trans hb.keepsLog hall
  have hcall := run_invoke hb steps depth
  -- The call ends properly, so displaying the result in the log cannot fail.
  have hproper := (((follows_steps (steps + 1)).2.2 (depth + 1) haccepts hplain) hs).2
  have hend := run_endCall name o.value { u with current := s.current }
  have hrun : (executeAll (execute steps depth) body).run b = .ok o u := hbody 0
  rw [hrun] at hcall
  simp only at hcall
  cases hanswer : (endCall name o.value).run { u with current := s.current } with
  | error h t =>
    rw [hanswer] at hcall hend
    rw [hcall] at hproper
    exact absurd hproper.2 hend
  | ok w t =>
    rw [hanswer] at hcall hend
    obtain ⟨rfl, hend⟩ := hend
    exact ⟨t, ((steady_steps (depth + 1)).2.2 id arguments).ends_ok hcall,
      (hend (hlog.imp hkeeps.1.trans hkeeps.2.trans)).of_current⟩

end Sound

/-- The body of a call that gives a value has ended, with that value or normally. -/
theorem exists_ends_of_ends_invoke (hb : BeginsCall s id arguments name body b) {s' : State}
    (h : Ends (fun steps => invoke steps (depth + 1) id arguments) s (.ok v s')) :
    ∃ o u, Ends (fun steps => executeAll (execute steps depth) body) b (.ok o u) ∧
      o.value = v := by
  obtain ⟨-, steps, h⟩ := h
  have hcall := run_invoke hb steps depth
  rw [h 1] at hcall
  cases hbody : (executeAll (execute steps depth) body).run b with
  | error e u =>
    rw [hbody] at hcall
    cases hcall
  | ok o u =>
    rw [hbody] at hcall
    simp only at hcall
    have hend := run_endCall name o.value { u with current := s.current }
    rw [← hcall] at hend
    exact ⟨o, u, (steady_executeAll depth body).ends_ok hbody, hend.1.symm⟩

/-- Calls from sound states: a call whose body comes to a `RETURN` gives the value of its
    expression, with the store and the output that there were when it had been computed. A call
    whose body ends without coming to one gives nil. There are no other ways to give a value, so
    that a call that is on its way while another one is ended by its `RETURN` goes on. -/
theorem call_answers (hs : s.IsSound) (hlog : s.level = 0 ∨ s.logIsOpen)
    (haccepts : s.store.Accepts id (arguments.length : Int)) (hplain : ∀ a ∈ arguments, a.IsPlain)
    (hb : BeginsCall s id arguments name body b) (depth : Nat) :
    (∀ e t v u, (Task.statements body).Arrives depth b e t →
      Ends (fun steps => evaluate steps depth e) t (.ok v u) →
      ∃ s', Ends (fun steps => invoke steps (depth + 1) id arguments) s (.ok v s') ∧
        Leaves name u s') ∧
    (∀ o u, Ends (fun steps => executeAll (execute steps depth) body) b (.ok o u) →
      (∀ e t, ¬ (Task.statements body).Arrives depth b e t) →
      ∃ s', Ends (fun steps => invoke steps (depth + 1) id arguments) s (.ok .nil s') ∧
        Leaves name u s') ∧
    ∀ v s', Ends (fun steps => invoke steps (depth + 1) id arguments) s (.ok v s') →
      (∃ e t u, .answer e ∈ Node.nodesOf body ∧ (Task.statements body).Arrives depth b e t ∧
        Ends (fun steps => evaluate steps depth e) t (.ok v u)) ∨
      v = .nil ∧
        ∃ u, Ends (fun steps => executeAll (execute steps depth) body) b (.ok .normal u) := by
  refine ⟨fun e t v u harrives he => ?_, fun o u hbody hnone => ?_, fun v s' hcall => ?_⟩
  · obtain ⟨s', hcall, hleaves⟩ := ends_invoke hs hlog haccepts hplain hb (harrives.ends he)
    exact ⟨s', hcall, hleaves.of_current⟩
  · cases o with
    | normal => exact ends_invoke hs hlog haccepts hplain hb hbody
    | answered v =>
      obtain ⟨e, t, _, harrives, _⟩ := returns_of_ends hbody
      exact absurd harrives (hnone e t)
  · obtain ⟨o, u, hbody, rfl⟩ := exists_ends_of_ends_invoke hb hcall
    cases o with
    | normal => exact .inr ⟨rfl, u, hbody⟩
    | answered v =>
      obtain ⟨e, t, u, harrives, he⟩ := returns_of_ends hbody
      exact .inl ⟨e, t, u, harrives.mem_nodes, harrives, he⟩

/-- In the run of a program, the body of every function is that of one of the methods, so that
    it can be called with as many arguments as it has parameters. -/
theorem BeginsCall.accepts {k : Setting} (hs : s.IsScoped k)
    (hmethods : ∀ m ∈ k.methods, Node.IsMethod m) (hb : BeginsCall s id arguments name body b) :
    s.store.Accepts id (arguments.length : Int) := by
  obtain ⟨parameters, closure, _, hfound, hlength, -, -⟩ := hb
  refine ⟨_, hfound, ?_⟩
  rw [← Array.getElem?_toList, hs.functions] at hfound
  rcases List.mem_cons.1 (List.mem_of_getElem? hfound) with hprint | hmem
  · cases hprint
  · obtain ⟨m, hm, heq⟩ := List.mem_map.1 hmem
    cases hmethods m (List.mem_of_mem_take hm) with
    | method _ _ hbody =>
      cases heq
      rw [hlength]
      exact accepts_parameters hbody _ _

/-- Calls in the run of a text, wherever they are made and whatever function is called. A call
    whose body comes to a `RETURN`, in any nesting of statements, branches and loops, gives the
    value of its expression, and leaves the store and the output as they were when it had been
    computed. A call whose body ends without coming to a `RETURN` gives nil. A call gives no
    other value than that of a `RETURN` of its own body, or nil where the body has ended
    normally: the `RETURN` of a function that it calls does not end it. -/
theorem parseSource_call_answers {limits : Limits} {source : String} {n : Node} {level : Nat}
    (hn : parseSource source = .ok n)
    (hs : Reaches limits n (.start .standard Store.standardScope level) s)
    (hplain : ∀ a ∈ arguments, a.IsPlain) (hb : BeginsCall s id arguments name body b)
    (depth : Nat) :
    (∀ e t v u, (Task.statements body).Arrives depth b e t →
      Ends (fun steps => evaluate steps depth e) t (.ok v u) →
      ∃ s', Ends (fun steps => invoke steps (depth + 1) id arguments) s (.ok v s') ∧
        Leaves name u s') ∧
    (∀ o u, Ends (fun steps => executeAll (execute steps depth) body) b (.ok o u) →
      (∀ e t, ¬ (Task.statements body).Arrives depth b e t) →
      ∃ s', Ends (fun steps => invoke steps (depth + 1) id arguments) s (.ok .nil s') ∧
        Leaves name u s') ∧
    ∀ v s', Ends (fun steps => invoke steps (depth + 1) id arguments) s (.ok v s') →
      (∃ e t u, .answer e ∈ Node.nodesOf body ∧ (Task.statements body).Arrives depth b e t ∧
        Ends (fun steps => evaluate steps depth e) t (.ok v u)) ∨
      v = .nil ∧
        ∃ u, Ends (fun steps => executeAll (execute steps depth) body) b (.ok .normal u) := by
  have hprogram := parseSource_meets source
  rw [hn] at hprogram
  have hsound := hs.isSound hprogram (isSound_start level)
  cases hprogram with
  | @program fields methods _ hmethods =>
    have hscoped := hs.isScoped rfl hmethods
    have hlog : s.level = 0 ∨ s.logIsOpen := by
      rw [hscoped.logIsOpen, hscoped.level, decide_eq_true_eq]
      exact Nat.eq_zero_or_pos level
    exact call_answers hsound hlog (hb.accepts hscoped hmethods) hplain hb depth

/-- A `RETURN` in an `IF`, in a `FOR`, in a `WHILE`, with a call of an unknown function behind
    them. -/
theorem parseSource_call_answers_nested :
    let yes := Node.boolean true
    let loop := Node.forLoop .absent yes .absent [.choice yes [.answer (.integer 7)] []]
    let body := [.whileLoop yes [loop], .discard (.call .absent (.text "f") [])]
    let main := Node.method (.text "main") [] body
    let start := State.start .standard Store.standardScope 0
    let s := defined main ⟨.text "main", 0, 1⟩ start
    let b := s.entered Store.globals
    let t := ((b.entered 2).entered 3).entered 4
    parseSource "DEF main() DO WHILE TRUE DO FOR(;TRUE;) IF TRUE DO RETURN 7; END END END f(); END" =
        .ok (.program [] [main]) ∧
      Reaches ⟨1, 1⟩ (.program [] [main]) start s ∧ BeginsCall s 1 [] (.text "main") body b ∧
      (Task.statements body).Arrives 0 b (.integer 7) t ∧
      ∃ s', Ends (fun steps => invoke steps 1 1 []) s (.ok (.integer 7) s') ∧
        Leaves (.text "main") t s' := by
  intro yes loop body main start s b t
  have hlex : lex
      "DEF main() DO WHILE TRUE DO FOR(;TRUE;) IF TRUE DO RETURN 7; END END END f(); END" =
      .ok [⟨.identifier, "DEF", 0⟩, ⟨.identifier, "main", 4⟩, ⟨.operator, "(", 8⟩,
        ⟨.operator, ")", 9⟩, ⟨.identifier, "DO", 11⟩, ⟨.identifier, "WHILE", 14⟩,
        ⟨.identifier, "TRUE", 20⟩, ⟨.identifier, "DO", 25⟩, ⟨.identifier, "FOR", 28⟩,
        ⟨.operator, "(", 31⟩, ⟨.operator, ";", 32⟩, ⟨.identifier, "TRUE", 33⟩,
        ⟨.operator, ";", 37⟩, ⟨.operator, ")", 38⟩, ⟨.identifier, "IF", 40⟩,
        ⟨.identifier, "TRUE", 43⟩, ⟨.identifier, "DO", 48⟩, ⟨.identifier, "RETURN", 51⟩,
        ⟨.integer, "7", 58⟩, ⟨.operator, ";", 59⟩, ⟨.identifier, "END", 61⟩,
        ⟨.identifier, "END", 65⟩, ⟨.identifier, "END", 69⟩, ⟨.identifier, "f", 73⟩,
        ⟨.operator, "(", 74⟩, ⟨.operator, ")", 75⟩, ⟨.operator, ";", 76⟩,
        ⟨.identifier, "END", 78⟩] := by
    decide +kernel
  have hparse : parseSource
      "DEF main() DO WHILE TRUE DO FOR(;TRUE;) IF TRUE DO RETURN 7; END END END f(); END" =
      .ok (.program [] [main]) := by
    rw [parseSource, hlex]
    rfl
  -- The program has no fields, so its run is the call of main.
  have hb : BeginsCall s 1 [] (.text "main") body b := ⟨[], Store.globals, s, rfl, rfl, rfl, rfl⟩
  have hs : Reaches ⟨1, 1⟩ (.program [] [main]) start s := by
    refine reaches_of_fault ?_ fun P hP => ?_
    · have hrun : (runNode (declareField ⟨1, 1⟩) (invokeWithin ⟨1, 1⟩) (.program [] [main])).run
          start = (invoke 1 1 1 []).run s := rfl
      rw [runProgram, run_closingLog, hrun, run_invoke hb 0 0, executeAll, EStateM.run_bind,
        execute]
      rintro ⟨⟩
    · have hrun : (runNode (declareFieldGuarded P ⟨1, 1⟩) (invokeGuarded P 1 1)
          (.program [] [main])).run start = (invokeGuarded P 1 1 1 []).run s := rfl
      rw [runProgramGuarded, run_closingLog, run_guarded, hrun, invokeGuarded, run_guarded, hP,
        if_neg Bool.false_ne_true]
      by_cases hstart : P start
      · rw [if_pos hstart]
        rfl
      · rw [if_neg hstart]
        rfl
  have hinitializer : ∀ u : State,
      Ends (fun steps => executeOptional (execute steps 0) .absent) (u.entered u.current)
        (.ok () (u.entered u.current)) :=
    fun u => ends_const rfl
  -- A literal condition answers without a change of the state.
  have htrue : ∀ construct (u : State), u.level = 0 →
      Ends (fun steps => condition construct (evaluate steps 0 yes)) u (.ok true u) := by
    intro construct u hu
    have hrun : (condition construct (evaluate 1 0 yes)).run u = .ok true u := by
      obtain ⟨store, current, output, level, log, logIsOpen, digitLimit⟩ := u
      subst hu
      rw [evaluate]
      rfl
    exact (steady_condition 0 construct yes).ends_ok hrun
  -- From the outside in: the round of WHILE, the round of FOR, the branch, its first statement.
  have harrives : (Task.statements body).Arrives 0 b (.integer 7) t := by
    have hround : (Task.statements [loop]).Arrives 0 (b.entered 2) (.integer 7) t :=
      .here (.forLoop (hinitializer _)
        (.inRound (htrue _ _ rfl) (.here (.thenBranch (htrue _ _ rfl) (.here .answer)))))
    exact .here (.whileLoop (.inRound (htrue _ b rfl) hround))
  have hseven : Ends (fun steps => evaluate steps 0 (.integer 7)) t (.ok (.integer 7) t) := by
    have hrun : (evaluate 1 0 (.integer 7)).run t = .ok (.integer 7) t := by
      rw [evaluate]
      rfl
    exact ((steady_steps 0).1 _).ends_ok hrun
  exact ⟨hparse, hs, hb, harrives,
    (parseSource_call_answers hparse hs (List.forall_mem_nil _) hb 0).1 _ _ _ _ harrives hseven⟩

end Evaluation

end Blockscript
