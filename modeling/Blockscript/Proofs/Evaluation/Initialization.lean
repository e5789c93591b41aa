import Blockscript.Proofs.Evaluation.Declaring
import Blockscript.Proofs.Evaluation.Logical

/-!
# Programs are initialized before they run

A program runs in phases: its fields are declared, its methods are bound, and only then one of its
functions is called for the first time. All fields and methods are bound by then, and stay so. An
initializer may contain calls, at any depth; while it is evaluated, the globals bind the fields
before it, and no method is bound yet. So it sees just these fields, and a call of anything but a
function of the host ends the run.

* `State.IsInitialized`: all fields and methods are bound;
* `run_runProgramEntering`: functions are called only when everything is initialized;
* `Node.Arrives`: the evaluation of an expression comes to a part of it;
* `Node.Arrives.halts`, `Node.Arrives.keeps`: what follows for the whole expression, and for the
  state in which the part is evaluated;
* `State.SeesFields`: names of variables stand for some fields;
* `initialization_precedes_calls`: whole runs.
-/

namespace Blockscript

open Evaluation

/-- All fields and methods of a program are bound in its globals. -/
def State.IsInitialized (globals : ScopeId) (fields methods : List Node) (s : State) : Prop :=
  ∀ n ∈ fields ++ methods, n.IsBound globals s.store

section Phases

variable {host : Store} {parent : ScopeId} (hhost : host.OffersFunctions parent) (limits : Limits)

include hhost

/-- A run is not changed by looking whether everything is initialized when functions of the program
    are called. -/
theorem run_runProgramEntering {fields methods : List Node} {P : State → Bool}
    (hP : ∀ s : State, s.IsInitialized host.scopes.size fields methods → P s) (alarm : Halt)
    (level : Nat) :
    (runProgramEntering (screen P alarm) limits (.program fields methods)).run
        (.start host parent level) =
      (runProgram limits (.program fields methods)).run (.start host parent level) := by
  have hstart := State.isDeclaring_start host parent level
  have hfields := (agreesWhile_declareFields hhost limits P alarm fields _ ⟨[], hstart⟩).1
  rw [runProgramEntering, runProgram, run_closingLog_eq, run_closingLog_eq]
  refine congrArg (changing State.closeLog) ?_
  simp only [runNode]
  rw [EStateM.run_bind, EStateM.run_bind, hfields]
  cases hs : (fields.forM (declareField limits)).run (.start host parent level) with
  | error h s => rfl
  | ok _ s =>
    obtain ⟨hdeclaring, hbound⟩ := of_run_declareFields hhost limits hstart hs
    simp only
    rw [EStateM.run_bind, EStateM.run_bind]
    cases ht : (methods.forM declareMethod).run s with
    | error h t => rfl
    | ok _ t =>
      have hprecedes := precedes_declareMethods methods s
      rw [ht] at hprecedes
      have hsize : host.scopes.size < s.store.scopes.size := hdeclaring.size ▸ Nat.lt_succ_self _
      have hinitialized : t.IsInitialized host.scopes.size fields methods :=
        List.forall_mem_append.2 ⟨fun n hn => (hbound n hn).keeps hprecedes.store,
          of_run_declareMethods hdeclaring.current hsize ht⟩
      -- From here on, nothing that is bound is lost.
      have hR := isRunCongruence_agreesWhile
        (I := fun s => s.IsInitialized host.scopes.size fields methods)
        fun s t hs hst n hn => (hs n hn).keeps hst.store
      obtain ⟨-, -, hinvoke⟩ := agreesWhile_entering hR
        (fun id s hs => run_screen alarm id (hP s hs)) limits.steps
      exact (hR.bind (hR.lookupFunction (.text "main") 0)
        (fun main => hinvoke limits.depth main []) t hinitialized).1

end Phases

/-! ### Parts of expressions -/

/-- From the state `s`, the evaluation of an expression comes to a part of it, in the state `t`.
    What is evaluated before it has given values. -/
inductive Node.Arrives (depth : Nat) : Node → (s : State) → (part : Node) → (t : State) → Prop
  | here {n : Node} {s : State} : Arrives depth n s n s
  | group {e n : Node} {s t : State} : Arrives depth e s n t → Arrives depth (.group e) s n t
  | accessReceiver {receiver n : Node} {name : Label} {s t : State} : receiver ≠ .absent →
      Arrives depth receiver s n t → Arrives depth (.access receiver name) s n t
  | callReceiver {receiver n : Node} {name : Label} {arguments : List Node} {s t : State} :
      receiver ≠ .absent → Arrives depth receiver s n t →
      Arrives depth (.call receiver name arguments) s n t
  | argument {e n : Node} {name : Label} {before after : List Node} {vs : List Value}
      {s s' t : State} :
      Ends (fun steps => before.mapM (evaluate steps depth)) s (.ok vs s') →
      Arrives depth e s' n t → Arrives depth (.call .absent name (before ++ e :: after)) s n t
  | methodArgument {receiver e n : Node} {name : Label} {before after : List Node} {v : Value}
      {vs : List Value} {s s₁ s₂ t : State} : receiver ≠ .absent →
      Ends (fun steps => evaluate steps depth receiver) s (.ok v s₁) →
      Ends (fun steps => before.mapM (evaluate steps depth)) s₁ (.ok vs s₂) →
      Arrives depth e s₂ n t → Arrives depth (.call receiver name (before ++ e :: after)) s n t
  | left {operator : Label} {left right n : Node} {s t : State} : Arrives depth left s n t →
      Arrives depth (.binary operator left right) s n t
  | right {operator : Label} {left right n : Node} {v : Value} {s s' t : State} :
      (∀ c : Connective, operator ≠ .text c.text) →
      Ends (fun steps => evaluate steps depth left) s (.ok v s') →
      Arrives depth right s' n t → Arrives depth (.binary operator left right) s n t
  | rightOfConnective {c : Connective} {left right n : Node} {s s' t : State} :
      Ends (fun steps => evaluate steps depth left) s (.ok (.boolean c.goesOnAt) s') →
      Arrives depth right s' n t → Arrives depth (.binary (.text c.text) left right) s n t

namespace Evaluation

variable {depth : Nat} {s t u : State} {h : Halt}

/-- Where an argument halts, so do all of them. -/
theorem ends_mapM_error {before after : List Node} {e : Node} {vs : List Value}
    (hbefore : Ends (fun steps => before.mapM (evaluate steps depth)) s (.ok vs t))
    (he : Ends (fun steps => evaluate steps depth e) t (.error h u)) :
    Ends (fun steps => (before ++ e :: after).mapM (evaluate steps depth)) s (.error h u) := by
  simp only [List.mapM_append, List.mapM_cons]
  exact hbefore.bind (Ends.bind_error he.bind_error)

/-- An operator that is not one of a chain has the values of both operands. -/
theorem evaluate_binary_of_ne {operator : Label} (h : ∀ c : Connective, operator ≠ .text c.text)
    (left right : Node) (steps : Nat) :
    evaluate (steps + 1) depth (.binary operator left right) = (do
      let a ← evaluate steps depth left
      let b ← evaluate steps depth right
      checkDigits (Value.quotientExceeds operator a b)
      match Value.apply operator a b with
      | .ok v => return v
      | .error h => throw h) := by
  rw [evaluate]
  exact applyBinary_of_ne (h .conjunction) (h .disjunction)

theorem Ends.closingLog {p : (steps : Nat) → Evaluation Value} (hp : Ends p s (.error h t)) :
    Ends (fun steps => Evaluation.closingLog (p steps)) s (.error h t.closeLog) := by
  obtain ⟨hx, steps, hp⟩ := hp
  refine ⟨valueOf_error_ne hx, steps, fun more => ?_⟩
  rw [run_closingLog, hp]

theorem AgreesWhile.of_ends {α : Type} {I : State → Prop} {p : (steps : Nat) → Evaluation α} {a : α}
    (hI : ∀ steps, AgreesWhile I (p steps) (p steps)) (hs : I s) (hp : Ends p s (.ok a t)) :
    I t := by
  obtain ⟨-, steps, hp⟩ := hp
  exact (hI steps).of_run hs (hp 0)

end Evaluation

namespace Node.Arrives

variable {depth : Nat} {s t u : State} {n part : Node} {h : Halt}

/-- Where a part halts, so does the expression. By induction on the way to the part. -/
theorem halts (harrives : n.Arrives depth s part t)
    (hpart : Ends (fun steps => evaluate steps depth part) t (.error h u)) :
    Ends (fun steps => evaluate steps depth n) s (.error h u) := by
  -- By induction on the way to the part: every operation on it binds the evaluation that halts. The
  -- logical operators alone look at their left operand first, so they go through their own rule.
  induction harrives with
  | here => exact hpart
  | group _ ih =>
    refine Ends.succ_iff.1 ?_
    simp only [evaluate, evaluateNode]
    exact ih hpart
  | @accessReceiver receiver _ _ _ _ hreceiver _ ih =>
    refine Ends.succ_iff.1 ?_
    simp only [evaluate, evaluateNode]
    exact (ih hpart).bind_error
  | @callReceiver receiver _ _ _ _ _ hreceiver _ ih =>
    refine Ends.succ_iff.1 ?_
    simp only [evaluate, evaluateNode]
    exact (ih hpart).bind_error
  | argument hbefore _ ih =>
    refine Ends.succ_iff.1 ?_
    simp only [evaluate, evaluateNode]
    exact (ends_mapM_error hbefore (ih hpart)).bind_error
  | methodArgument hreceiver hv hbefore _ ih =>
    refine Ends.succ_iff.1 ?_
    simp only [evaluate, evaluateNode]
    exact hv.bind (ends_mapM_error hbefore (ih hpart)).bind_error
  | @left operator _ right _ _ _ _ ih =>
    by_cases hoperator : ∃ c : Connective, operator = .text c.text
    · obtain ⟨c, rfl⟩ := hoperator
      exact (ends_binary_iff (l := ⟨c, right⟩)).2 ⟨_, ih hpart, .halted⟩
    · refine Ends.succ_iff.1 ?_
      simp only [evaluate_binary_of_ne fun c hc => hoperator ⟨c, hc⟩]
      exact (ih hpart).bind_error
  | right hoperator hleft _ ih =>
    refine Ends.succ_iff.1 ?_
    simp only [evaluate_binary_of_ne hoperator]
    exact hleft.bind (ih hpart).bind_error
  | @rightOfConnective c _ right _ _ _ _ hleft _ ih =>
    exact (ends_binary_iff (l := ⟨c, right⟩)).2 ⟨_, hleft, .rightHalts rfl (ih hpart)⟩

/-- A part that an initializer has. -/
theorem halts_initialValue (harrives : n.Arrives depth s part t) (habsent : part ≠ .absent)
    (hpart : Ends (fun steps => evaluate steps depth part) t (.error h u)) :
    Ends (fun steps => initialValue (evaluate steps depth) n) s (.error h u) := by
  cases n with
  | absent =>
    -- A field without an initializer has the value `nil`, and nothing is evaluated.
    cases harrives
    exact (habsent rfl).elim
  | _ => exact harrives.halts hpart

/-- The fields that are declared stay the same on the way to a part. -/
theorem keeps {host : Store} {parent : ScopeId} {declared : List Variable}
    (hhost : host.OffersFunctions parent) (harrives : n.Arrives depth s part t)
    (hs : s.IsDeclaring host parent declared) : t.IsDeclaring host parent declared := by
  induction harrives with
  | here => exact hs
  | group _ ih | accessReceiver _ _ ih | callReceiver _ _ ih | left _ ih => exact ih hs
  | argument hbefore _ ih =>
    exact ih (AgreesWhile.of_ends (keeps_arguments hhost · _ _) hs hbefore)
  | methodArgument _ hreceiver hbefore _ ih =>
    have hs₁ := AgreesWhile.of_ends (keeps_evaluate hhost · _ _) hs hreceiver
    exact ih (AgreesWhile.of_ends (keeps_arguments hhost · _ _) hs₁ hbefore)
  | right _ hleft _ ih | rightOfConnective hleft _ ih =>
    exact ih (AgreesWhile.of_ends (keeps_evaluate hhost · _ _) hs hleft)

end Node.Arrives

/-! ### Runs -/

/-- Names of variables stand for some fields, and for nothing else. -/
structure State.SeesFields (globals : ScopeId) (fields : List Node) (s : State) : Prop where
  read (x : String) : (readVariable (.text x)).run s =
    match (s.store.scope globals).findVariable? (.text x) with
    | some v => .ok v.value s
    | none => .error (.error (.undefinedVariable (.text x))) s
  isSome_iff (x : String) : ((s.store.scope globals).findVariable? (.text x)).isSome ↔
    ∃ name isConstant initializer,
      .field name isConstant initializer ∈ fields ∧ name.same (.text x)

section Runs

variable {host : Store} {parent : ScopeId} (hhost : host.OffersFunctions parent) {depth : Nat}
  {s t u : State} {fields : List Node}

include hhost

/-- The names that are declared are those of the fields. -/
theorem State.IsDeclaring.seesFields
    (hs : s.IsDeclaring host parent (fields.filterMap Node.blankVariable?)) :
    s.SeesFields host.scopes.size fields := by
  refine ⟨run_readVariable_of_isDeclaring hhost hs,
    fun x => (hs.isSome_findVariable?_iff _).trans ?_⟩
  constructor
  · rintro ⟨v, hv, hname⟩
    obtain ⟨n, hn, hblank⟩ := List.mem_filterMap.1 hv
    cases n with
    | field name isConstant initializer =>
      cases hblank
      exact ⟨name, isConstant, initializer, hn, hname⟩
    | _ => cases hblank
  · rintro ⟨name, isConstant, initializer, hn, hname⟩
    exact ⟨_, List.mem_filterMap.2 ⟨_, hn, rfl⟩, hname⟩

/-- Some fields are declared from the start. -/
theorem isDeclaring_of_ends {level : Nat}
    (h : Ends (fun steps => fields.forM (declareField ⟨depth, steps⟩)) (.start host parent level)
      (.ok () s)) :
    s.IsDeclaring host parent (fields.filterMap Node.blankVariable?) := by
  obtain ⟨-, steps, h⟩ := h
  exact (of_run_declareFields hhost _ (State.isDeclaring_start host parent level) (h 0)).1

omit hhost in
/-- Where an initializer halts after the fields before it, so does the run. -/
theorem ends_runProgram_of_initialValue {before after methods : List Node} {name : Label}
    {isConstant : Bool} {initializer : Node} {h : Halt}
    (hbefore : Ends (fun steps => before.forM (declareField ⟨depth, steps⟩)) s (.ok () t))
    (hinitializer : Ends (fun steps => initialValue (evaluate steps depth) initializer) t
      (.error h u)) :
    Ends (fun steps => runProgram ⟨depth, steps⟩
      (.program (before ++ .field name isConstant initializer :: after) methods)) s
      (.error h u.closeLog) := by
  refine Ends.closingLog ?_
  simp only [runNode]
  refine Ends.bind_error ?_
  simp only [List.forM_eq_forM, List.forM_append, List.forM_cons] at hbefore ⊢
  exact hbefore.bind hinitializer.bind_error.bind_error

end Runs

/-- No function of a program is called before all of its fields and methods are bound, and while its
    fields are being declared, none is called at all. An initializer sees just the fields before it,
    wherever its evaluation has come to: another name ends the run there, and so does a call, once
    its arguments are evaluated, of anything but a function of the host. -/
theorem initialization_precedes_calls {host : Store} {parent : ScopeId}
    (hhost : host.OffersFunctions parent) (level : Nat) (fields methods : List Node) :
    let start := State.start host parent level
    let globals := host.scopes.size
    (∀ limits P alarm, (∀ s : State, s.IsInitialized globals fields methods → P s) →
      (runProgramEntering (screen P alarm) limits (.program fields methods)).run start =
        (runProgram limits (.program fields methods)).run start) ∧
    (∀ limits P alarm, (fields.forM (declareFieldEntering (screen P alarm) limits)).run start =
      (fields.forM (declareField limits)).run start) ∧
    ∀ depth before after name isConstant initializer s part t,
      fields = before ++ .field name isConstant initializer :: after →
      Ends (fun steps => before.forM (declareField ⟨depth, steps⟩)) start (.ok () s) →
      initializer.Arrives depth s part t →
      t.SeesFields globals before ∧
      (∀ x, part = .access .absent (.text x) →
        (t.store.scope globals).findVariable? (.text x) = none →
        Ends (fun steps => runProgram ⟨depth, steps⟩ (.program fields methods)) start
          (.error (.error (.undefinedVariable (.text x))) t.closeLog)) ∧
      ∀ f arguments values u, part = .call .absent (.text f) arguments →
        Ends (fun steps => arguments.mapM (evaluate steps depth)) t (.ok values u) →
        host.findFunction? parent (.text f) values.length = none →
        Ends (fun steps => runProgram ⟨depth, steps⟩ (.program fields methods)) start
          (.error (.error (host.missingFunction parent (.text f) values.length)) u.closeLog) := by
  intro start globals
  have hstart := State.isDeclaring_start host parent level
  refine ⟨fun limits P alarm hP => run_runProgramEntering hhost limits hP alarm level,
    fun limits P alarm =>
      (agreesWhile_declareFields hhost limits P alarm fields start ⟨[], hstart⟩).1, ?_⟩
  rintro depth before after name isConstant initializer s part t rfl hbefore harrives
  have hs := isDeclaring_of_ends hhost hbefore
  have ht := harrives.keeps hhost hs
  have hsees := State.IsDeclaring.seesFields hhost ht
  refine ⟨hsees, ?_, ?_⟩
  · rintro x rfl hnone
    have hread := hsees.read x
    rw [hnone] at hread
    refine ends_runProgram_of_initialValue hbefore
      (harrives.halts_initialValue (by rintro ⟨⟩) (Ends.succ_iff.1 (ends_error fun steps => ?_)))
    rw [evaluate]
    exact hread
  · rintro f arguments values u rfl harguments hnone
    -- The function is looked up after the arguments, where the globals bind no more than before.
    have hu := AgreesWhile.of_ends (keeps_arguments hhost · _ _) ht harguments
    refine ends_runProgram_of_initialValue hbefore
      (harrives.halts_initialValue (by rintro ⟨⟩) (Ends.succ_iff.1 ?_))
    simp only [evaluate, evaluateNode]
    exact harguments.bind (Ends.bind_error
      (ends_error fun _ => run_lookupFunction_of_isDeclaring hhost hu hnone))

/-- The second field calls a method, which is not there yet. -/
theorem initialization_precedes_calls_early :
    let a := Node.access .absent (.text "a")
    let call := Node.call .absent (.text "f") [a]
    let fields : List Node := [.field (.text "a") false (.integer 1),
      .field (.text "b") false (.binary (.text "&&") (.boolean true) call)]
    let f := Node.method (.text "f") [.text "x"] [.answer (.access .absent (.text "x"))]
    parseSource "LET a = 1; LET b = TRUE && f(a); DEF f(x) DO RETURN x; END" =
        .ok (.program fields [f]) ∧
      Store.standard.OffersFunctions Store.standardScope ∧
      ∃ t, Ends (fun steps => runProgram ⟨0, steps⟩ (.program fields [f]))
        (.start .standard Store.standardScope 0)
        (.error (.error (.undefinedFunction (.text "f"))) t) := by
  intro a call fields f
  have hlex : lex "LET a = 1; LET b = TRUE && f(a); DEF f(x) DO RETURN x; END" =
      .ok [⟨.identifier, "LET", 0⟩, ⟨.identifier, "a", 4⟩, ⟨.operator, "=", 6⟩, ⟨.integer, "1", 8⟩,
        ⟨.operator, ";", 9⟩, ⟨.identifier, "LET", 11⟩, ⟨.identifier, "b", 15⟩,
        ⟨.operator, "=", 17⟩, ⟨.identifier, "TRUE", 19⟩, ⟨.operator, "&&", 24⟩,
        ⟨.identifier, "f", 27⟩, ⟨.operator, "(", 28⟩, ⟨.identifier, "a", 29⟩,
        ⟨.operator, ")", 30⟩, ⟨.operator, ";", 31⟩, ⟨.identifier, "DEF", 33⟩,
        ⟨.identifier, "f", 37⟩, ⟨.operator, "(", 38⟩, ⟨.identifier, "x", 39⟩,
        ⟨.operator, ")", 40⟩, ⟨.identifier, "DO", 42⟩, ⟨.identifier, "RETURN", 45⟩,
        ⟨.identifier, "x", 52⟩, ⟨.operator, ";", 53⟩, ⟨.identifier, "END", 55⟩] := by
    decide +kernel
  have hparse : parseSource "LET a = 1; LET b = TRUE && f(a); DEF f(x) DO RETURN x; END" =
      .ok (.program fields [f]) := by
    rw [parseSource, hlex]
    rfl
  let start := State.start .standard Store.standardScope 0
  let s := { start with
    store := start.store.updateScope 1 (·.addVariable ⟨.text "a", false, .integer 1⟩) }
  -- The first field is declared before the call is met.
  have hbefore : Ends (fun steps => [Node.field (.text "a") false (.integer 1)].forM
      (declareField ⟨0, steps⟩)) start (.ok () s) := by
    refine Ends.succ_iff.1 (ends_ok fun steps => ?_)
    simp only [List.forM, declareField, declareNode, evaluateWithin, Node.integer, initialValue,
      evaluate]
    rfl
  have hleft : Ends (fun steps => evaluate steps 0 (.boolean true)) s (.ok (.boolean true) s) := by
    have hrun : (evaluate 1 0 (.boolean true)).run s = .ok (.boolean true) s := by
      rw [evaluate]
      rfl
    exact ((steady_steps 0).1 _).ends_ok hrun
  have hargument : Ends (fun steps => [a].mapM (evaluate steps 0)) s (.ok [.integer 1] s) := by
    refine Ends.succ_iff.1 (ends_ok fun steps => ?_)
    simp only [List.mapM_cons, List.mapM_nil, evaluate]
    rfl
  -- The call stands to the right of && in the initializer of b, and f is not defined yet.
  have hfinal := (initialization_precedes_calls Store.offersFunctions_standard 0 fields [f]).2.2
    0 [.field (.text "a") false (.integer 1)] [] _ _ _ s call s rfl hbefore
    (.rightOfConnective (c := .conjunction) hleft .here)
  have hmissing : Store.standard.missingFunction Store.standardScope (.text "f") 1 =
      .undefinedFunction (.text "f") := by
    have harities : Store.standard.functionArities Store.standardScope (.text "f") = [] := by
      decide +kernel
    rw [Store.missingFunction, harities]
  have hends := hfinal.2.2 "f" [a] [.integer 1] s rfl hargument rfl
  exact ⟨hparse, Store.offersFunctions_standard, _, hmissing ▸ hends⟩

end Blockscript
