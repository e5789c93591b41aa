import Blockscript.Proofs.Evaluation.Course
import Blockscript.Proofs.Evaluation.Digits
import Blockscript.Proofs.Evaluation.Limits
import Blockscript.Proofs.Evaluation.Safety
import Blockscript.Proofs.Evaluation.Wrapped

/-!
# Levels of the log

The more is logged, the more is known of a run, and nothing else is different. A run that logs
everything goes through the same states as one that logs less, but for the log: that of the
other one holds the events that its level asks for. This is so because making an event changes
nothing, and cannot fail for the values that programs have.

* `State.atLevel`: a state that logs everything, as it is at a lower level;
* `Evaluation.Mirrors`: a step at a level, beside the same step where everything is logged;
* `isRunCongruence_mirrors`: all single steps, and all that is made of them;
* `runOn`, `runFresh`: a run from the beginning, with a bound on the digits of a number or without;
* `exists_runFresh_eq`: the run that all levels are views of;
* `parseSource_runOn`: the levels of the run of a text.
-/

namespace Blockscript

namespace State

/-- Everything is logged. -/
structure IsFull (s : State) : Prop where
  level : s.level = Event.conditionLevel
  logIsOpen : s.logIsOpen = true

/-- A state in which everything is logged, as it is where only a level is logged. -/
def atLevel (k : Nat) (s : State) : State :=
  { s with level := k, log := s.log.filter (·.level ≤ k), logIsOpen := decide (0 < k) }

/-- An event that the level asks for is logged. -/
theorem record_atLevel {k : Nat} {e : Event} {s : State} (hs : s.IsFull) (he : e.level ≤ k) :
    (s.atLevel k).record e = (s.record e).atLevel k := by
  have hopen : (s.atLevel k).logIsOpen = true :=
    decide_eq_true (Nat.lt_of_lt_of_le e.level_pos he)
  have hlog : (e :: s.log).filter (·.level ≤ k) = e :: s.log.filter (·.level ≤ k) :=
    List.filter_cons_of_pos (decide_eq_true he)
  rw [record, record, if_pos hopen, if_pos hs.logIsOpen, atLevel, atLevel, hlog]

/-- No other event leaves a trace. -/
theorem atLevel_record {k : Nat} {e : Event} {s : State} (hs : s.IsFull) (he : ¬ e.level ≤ k) :
    (s.record e).atLevel k = s.atLevel k := by
  have hlog : (e :: s.log).filter (·.level ≤ k) = s.log.filter (·.level ≤ k) :=
    List.filter_cons_of_neg fun h => he (of_decide_eq_true h)
  rw [record, if_pos hs.logIsOpen, atLevel, atLevel, hlog]

theorem IsFull.record {s : State} (hs : s.IsFull) (e : Event) : (s.record e).IsFull := by
  rw [State.record, if_pos hs.logIsOpen]
  exact ⟨hs.level, hs.logIsOpen⟩

end State

namespace Evaluation

variable {α β : Type} {k : Nat}

/-- A step ends with a value, or with a halt that a program can be the cause of. -/
def EndsProperly : EStateM.Result Halt State α → Prop
  | .ok _ _ => True
  | .error h _ => h.IsProper

/-- Where everything is logged, and a step ends properly, it does the same at a level but for the
    log. -/
def Mirrors (k : Nat) (p' p : Evaluation α) : Prop :=
  ∀ s : State, s.IsFull → EndsProperly (p.run s) →
    p'.run (s.atLevel k) = changing (State.atLevel k) (p.run s) ∧ (stateAfter (p.run s)).IsFull

namespace Mirrors

variable {p' p : Evaluation α} {f' f : α → Evaluation β}

theorem pure (a : α) : Mirrors k (Pure.pure a) (Pure.pure a) :=
  fun _ hs _ => ⟨rfl, hs⟩

theorem throw (h : Halt) :
    Mirrors k (MonadExcept.throw h : Evaluation α) (MonadExcept.throw h : Evaluation α) :=
  fun _ hs _ => ⟨rfl, hs⟩

theorem bind (hp : Mirrors k p' p) (hf : ∀ a, Mirrors k (f' a) (f a)) :
    Mirrors k (p' >>= f') (p >>= f) := by
  intro s hs hend
  have hstep := hp s hs
  rw [EStateM.run_bind] at hend
  rw [EStateM.run_bind, EStateM.run_bind]
  cases hrun : p.run s with
  | error h t =>
    rw [hrun] at hstep hend
    obtain ⟨heq, hfull⟩ := hstep hend
    rw [heq]
    exact ⟨rfl, hfull⟩
  | ok a t =>
    rw [hrun] at hstep hend
    obtain ⟨heq, hfull⟩ := hstep trivial
    rw [heq]
    exact hf a t hfull hend

/-- An event is made in both runs, or in neither, or only where everything is logged. -/
theorem logFrom {event' event : Evaluation Event} {level : Nat} (h : Mirrors k event' event)
    (hmakes : Makes level event) : Mirrors k (logFrom level event') (logFrom level event) := by
  intro s hs hend
  have hreads := hmakes.reads s
  have hevent := h s hs
  have hlevel : level ≤ s.level := Nat.le_trans hmakes.level_le (Nat.le_of_eq hs.level.symm)
  rw [run_logFrom, if_pos hlevel] at hend
  rw [run_logFrom, run_logFrom, if_pos hlevel]
  cases hrun : event.run s with
  | error e t =>
    -- What cannot be logged is no value of a program.
    rw [hrun] at hreads hend
    exact absurd hend hreads
  | ok e t =>
    rw [hrun] at hreads hevent
    obtain ⟨rfl, rfl⟩ := hreads
    obtain ⟨heq, -⟩ := hevent trivial
    have hat : (State.atLevel k t).level = k := rfl
    rw [heq, hat]
    refine ⟨?_, hs.record e⟩
    by_cases hk : e.level ≤ k
    · rw [if_pos hk]
      exact congrArg (EStateM.Result.ok _) (State.record_atLevel hs hk)
    · rw [if_neg hk]
      exact congrArg (EStateM.Result.ok _) (State.atLevel_record hs hk).symm

theorem storing (step : Storing α) :
    Mirrors k (Evaluation.storing step) (Evaluation.storing step) := by
  intro s hs _
  rw [run_storing, run_storing]
  have hstore : (s.atLevel k).store = s.store := rfl
  rw [hstore]
  cases step.run s.store with
  | ok a t => exact ⟨rfl, hs.level, hs.logIsOpen⟩
  | error e t => exact ⟨rfl, hs.level, hs.logIsOpen⟩

theorem checkDigits (exceeds : Nat → Bool) :
    Mirrors k (Evaluation.checkDigits exceeds) (Evaluation.checkDigits exceeds) := by
  intro s hs _
  have hlimit : (s.atLevel k).digitLimit = s.digitLimit := rfl
  rw [run_checkDigits, run_checkDigits, hlimit]
  split <;> exact ⟨rfl, hs⟩

theorem within (h : Mirrors k p' p) (c : ScopeId) :
    Mirrors k (Evaluation.within c p') (Evaluation.within c p) := by
  intro s hs hend
  have hstep := h { s with current := c } ⟨hs.level, hs.logIsOpen⟩
  have hcurrent : { s.atLevel k with current := c } = State.atLevel k { s with current := c } := rfl
  rw [run_within] at hend
  rw [run_within, run_within, hcurrent]
  cases hrun : p.run { s with current := c } with
  | ok a t =>
    rw [hrun] at hstep
    obtain ⟨heq, hfull⟩ := hstep trivial
    rw [heq]
    exact ⟨rfl, hfull.level, hfull.logIsOpen⟩
  | error e t =>
    rw [hrun] at hstep hend
    obtain ⟨heq, hfull⟩ := hstep hend
    rw [heq]
    exact ⟨rfl, hfull.level, hfull.logIsOpen⟩

end Mirrors

theorem isRunCongruence_mirrors : IsRunCongruence (fun {_} => Mirrors k) :=
  IsStoreCongruence.isRunCongruence
    { pure := .pure
      throw := .throw
      bind := .bind
      logFrom := .logFrom
      print := fun _ _ hs _ => ⟨rfl, hs.level, hs.logIsOpen⟩
      checkDigits := .checkDigits
      storing := .storing
      current := fun _ hs _ => ⟨rfl, hs⟩
      within := fun c h => h.within c }

theorem endsProperly_changing (f : State → State) (x : EStateM.Result Halt State α) :
    EndsProperly (changing f x) = EndsProperly x := by
  cases x <;> rfl

/-! ### Runs of a program -/

/-- The run of a program before which nothing has run, on a host that may have a bound on the digits
    of a number. -/
def runOn (digitLimit : Option Nat) (limits : Limits) (level : Nat) (program : Node) :
    EStateM.Result Halt State Value :=
  (runProgram limits program).run (.start .standard Store.standardScope level digitLimit)

/-- The run of a program before which nothing has run. -/
def runFresh (limits : Limits) (level : Nat) (program : Node) : EStateM.Result Halt State Value :=
  runOn none limits level program

/-- A run meets the bound on digits, or it is the one without a bound. -/
theorem runFresh_eq {digitLimit : Option Nat} {limits : Limits} {level : Nat} {n : Node}
    (h : ¬ ExceedsDigits (runOn digitLimit limits level n)) :
    runFresh limits level n = changing State.unlimited (runOn digitLimit limits level n) :=
  (runProgram_withinDigits limits n _).resolve_left h

/-- Programs end properly. -/
theorem endsProperly_runFresh (limits : Limits) (level : Nat) {n : Node} (hn : n.IsProgram) :
    EndsProperly (runFresh limits level n) := by
  have hend := (follows_runProgram limits hn _ (isSound_start level)).2
  rw [runFresh, runOn]
  cases hrun : (runProgram limits n).run (State.start .standard Store.standardScope level) with
  | ok v s => trivial
  | error h s =>
    rw [hrun] at hend
    exact hend.2

/-- There is one run with a full log, which all levels are views of. -/
theorem exists_runFresh_eq (limits : Limits) {n : Node} (hn : n.IsProgram) :
    ∃ x : EStateM.Result Halt State Value, ∀ k,
      runFresh limits k n = changing (fun s => (s.atLevel k).closeLog) x := by
  let start := State.start .standard Store.standardScope Event.conditionLevel
  let full := (runNode (declareField limits) (invokeWithin limits) n).run start
  have hend : EndsProperly full := by
    have hproper := endsProperly_runFresh limits Event.conditionLevel hn
    rw [runFresh, runOn, runProgram, run_closingLog_eq, endsProperly_changing] at hproper
    exact hproper
  refine ⟨full, fun k => ?_⟩
  have hfull : start.IsFull := ⟨rfl, rfl⟩
  have hstart : start.atLevel k = .start .standard Store.standardScope k := rfl
  -- Until its log is closed, a run at a level mirrors the full one.
  obtain ⟨heq, -⟩ := isRunCongruence_mirrors.program_self limits n start hfull hend
  rw [runFresh, runOn, runProgram, run_closingLog_eq, ← hstart, heq]
  exact changing_changing _ _ _

/-- Runs that end of themselves are the same within limits that are larger than those of both. -/
theorem runFresh_max {l m : Limits} {j k : Nat} {n : Node}
    (h : l = m ∨ Finishes (runFresh l j n) ∧ Finishes (runFresh m k n)) :
    ∃ limits, runFresh l j n = runFresh limits j n ∧ runFresh m k n = runFresh limits k n := by
  rcases h with rfl | ⟨hl, hm⟩
  · exact ⟨l, rfl, rfl⟩
  -- The sum of the limits is enough for both runs.
  · have hleft := extends_runProgram l m.depth m.steps n _ hl
    have hright := extends_runProgram m l.depth l.steps n _ hm
    rw [Nat.add_comm m.depth, Nat.add_comm m.steps] at hright
    exact ⟨_, hleft.symm, hright.symm⟩

/-- Whether a run ends of itself has nothing to do with its states. -/
theorem finishes_changing (f : State → State) (x : EStateM.Result Halt State α) :
    Finishes (changing f x) ↔ Finishes x := by
  cases x <;> exact Iff.rfl

/-- Without a bound on digits, no run meets it. -/
theorem not_exceedsDigits_runFresh (limits : Limits) (level : Nat) {n : Node} (hn : n.IsProgram) :
    ¬ ExceedsDigits (runFresh limits level n) := by
  intro hexceeds
  have hend := endsProperly_runFresh limits level hn
  cases hrun : runFresh limits level n with
  | ok v s =>
    rw [hrun] at hexceeds
    cases hexceeds
  | error h s =>
    rw [hrun] at hexceeds hend
    cases hexceeds
    exact hend

/-- Without a bound on digits, runs at two levels differ in the log alone. -/
theorem runFresh_levels {n : Node} (hn : n.IsProgram) {l m : Limits} {j k : Nat}
    (h : l = m ∨ Finishes (runFresh l j n) ∧ Finishes (runFresh m k n)) :
    valueOf (runFresh l j n) = valueOf (runFresh m k n) ∧
      (stateAfter (runFresh l j n)).output = (stateAfter (runFresh m k n)).output ∧
      (stateAfter (runFresh l j n)).store = (stateAfter (runFresh m k n)).store := by
  obtain ⟨limits, hl, hm⟩ := runFresh_max h
  obtain ⟨x, hx⟩ := exists_runFresh_eq limits hn
  rw [hl, hm, hx j, hx k, valueOf_changing, valueOf_changing, stateAfter_changing,
    stateAfter_changing]
  exact ⟨rfl, rfl, rfl⟩

/-- Without a bound on digits, a level logs those events of a full log that it asks for. -/
theorem log_runFresh {n : Node} (hn : n.IsProgram) {l m : Limits} {k : Nat}
    (h : l = m ∨ Finishes (runFresh l k n) ∧ Finishes (runFresh m Event.conditionLevel n)) :
    (stateAfter (runFresh l k n)).log =
      (stateAfter (runFresh m Event.conditionLevel n)).log.filter (·.level ≤ k) := by
  obtain ⟨limits, hl, hm⟩ := runFresh_max h
  obtain ⟨x, hx⟩ := exists_runFresh_eq limits hn
  rw [hl, hm, hx k, hx Event.conditionLevel, stateAfter_changing, stateAfter_changing]
  -- The highest level asks for everything.
  have hfull : (stateAfter x).log.filter (·.level ≤ Event.conditionLevel) = (stateAfter x).log :=
    List.filter_eq_self.2 fun e _ => decide_eq_true e.level_le
  exact congrArg (List.filter _) hfull.symm

/-- The run of a text at one level and at another end with the same value or in the same way, with
    the same output and the same scopes. A level logs, in the same order, those events of a
    run with a full log that it asks for. Runs are compared within the same limits, or within
    any that do not end them.

    On a host with a bound on the digits of a number, what is logged may take a run beyond this
    bound; only of such a run nothing is said. Without a bound there is none. -/
theorem parseSource_runOn {source : String} {n : Node} (hn : parseSource source = .ok n)
    (digitLimit : Option Nat) (l m : Limits) :
    (∀ j k, ¬ ExceedsDigits (runOn digitLimit l j n) → ¬ ExceedsDigits (runOn digitLimit m k n) →
      (l = m ∨ Finishes (runOn digitLimit l j n) ∧ Finishes (runOn digitLimit m k n)) →
      valueOf (runOn digitLimit l j n) = valueOf (runOn digitLimit m k n) ∧
      (stateAfter (runOn digitLimit l j n)).output =
        (stateAfter (runOn digitLimit m k n)).output ∧
      (stateAfter (runOn digitLimit l j n)).store = (stateAfter (runOn digitLimit m k n)).store) ∧
    (∀ k, ¬ ExceedsDigits (runOn digitLimit l k n) →
      ¬ ExceedsDigits (runOn digitLimit m Event.conditionLevel n) →
      (l = m ∨ Finishes (runOn digitLimit l k n) ∧
        Finishes (runOn digitLimit m Event.conditionLevel n)) →
      (stateAfter (runOn digitLimit l k n)).log =
        (stateAfter (runOn digitLimit m Event.conditionLevel n)).log.filter (·.level ≤ k)) ∧
    ∀ k, ¬ ExceedsDigits (runOn none l k n) := by
  have hprogram : n.IsProgram := by
    have hmeets := parseSource_meets source
    rw [hn] at hmeets
    exact hmeets
  -- A run that does not meet the bound is the run without it, and ends of itself if that does.
  have hfinishes : ∀ {limits k}, ¬ ExceedsDigits (runOn digitLimit limits k n) →
      Finishes (runOn digitLimit limits k n) → Finishes (runFresh limits k n) := by
    intro limits k hdigits h
    rw [runFresh_eq hdigits]
    exact (finishes_changing _ _).2 h
  refine ⟨fun j k hj hk h => ?_, fun k hk hfull h => ?_,
    fun k => not_exceedsDigits_runFresh l k hprogram⟩
  · have hlevels := runFresh_levels hprogram (h.imp_right fun h =>
      ⟨hfinishes hj h.1, hfinishes hk h.2⟩)
    rw [runFresh_eq hj, runFresh_eq hk, valueOf_changing, valueOf_changing, stateAfter_changing,
      stateAfter_changing] at hlevels
    exact hlevels
  · have hlog := log_runFresh hprogram (h.imp_right fun h =>
      ⟨hfinishes hk h.1, hfinishes hfull h.2⟩)
    rw [runFresh_eq hk, runFresh_eq hfull, stateAfter_changing, stateAfter_changing] at hlog
    exact hlog

/-- A run that logs calls only, and one within larger limits that logs all five events of the
    program. No number has more than one digit. -/
theorem parseSource_runOn_choice :
    let n := Node.program [.field (.text "x") false (.integer 1)]
      [.method (.text "main") []
        [.choice (.boolean true) [.answer (.access .absent (.text "x"))] []]]
    let calls := runOn (some 1) ⟨1, 7⟩ Event.callLevel n
    let full := runOn (some 1) ⟨2, 9⟩ Event.conditionLevel n
    parseSource "LET x = 1; DEF main() DO IF TRUE DO RETURN x; END END" = .ok n ∧
      ¬ ExceedsDigits calls ∧ ¬ ExceedsDigits full ∧ Finishes calls ∧ Finishes full ∧
      (stateAfter full).log.map Event.text = ["return main -> 1", "IF condition -> TRUE",
        "call main()", "define function main/0", "declare x: Integer = 1"] ∧
      (stateAfter calls).log.map Event.text = ["return main -> 1", "call main()"] ∧
      valueOf calls = valueOf full ∧
      (stateAfter calls).log = (stateAfter full).log.filter (·.level ≤ Event.callLevel) := by
  intro n calls full
  have hlex : lex "LET x = 1; DEF main() DO IF TRUE DO RETURN x; END END" = .ok
      [⟨.identifier, "LET", 0⟩, ⟨.identifier, "x", 4⟩, ⟨.operator, "=", 6⟩, ⟨.integer, "1", 8⟩,
        ⟨.operator, ";", 9⟩, ⟨.identifier, "DEF", 11⟩, ⟨.identifier, "main", 15⟩,
        ⟨.operator, "(", 19⟩, ⟨.operator, ")", 20⟩, ⟨.identifier, "DO", 22⟩,
        ⟨.identifier, "IF", 25⟩, ⟨.identifier, "TRUE", 28⟩, ⟨.identifier, "DO", 33⟩,
        ⟨.identifier, "RETURN", 36⟩, ⟨.identifier, "x", 43⟩, ⟨.operator, ";", 44⟩,
        ⟨.identifier, "END", 46⟩, ⟨.identifier, "END", 50⟩] := by
    decide +kernel
  have hparse : parseSource "LET x = 1; DEF main() DO IF TRUE DO RETURN x; END END" = .ok n := by
    rw [parseSource, hlex]
    rfl
  have hcalls : (valueOf calls).isOk := by decide +kernel
  have hfull : (valueOf full).isOk := by decide +kernel
  obtain ⟨hvalue, hlog, -⟩ := parseSource_runOn hparse (some 1) ⟨1, 7⟩ ⟨2, 9⟩
  have hends := And.intro (finishes_of_isOk hcalls) (finishes_of_isOk hfull)
  have hdigits := And.intro (not_exceedsDigits_of_isOk hcalls) (not_exceedsDigits_of_isOk hfull)
  exact ⟨hparse, hdigits.1, hdigits.2, hends.1, hends.2, by decide +kernel, by decide +kernel,
    (hvalue _ _ hdigits.1 hdigits.2 (.inr hends)).1, hlog _ hdigits.1 hdigits.2 (.inr hends)⟩

/-- With a bound of 4300 digits, the level decides whether a run ends with its value: a product of
    8193 digits can be computed and given to a variable, but not logged. -/
theorem runs_differ_of_levels :
    let x := Node.access .absent (.text "x")
    let i := Node.access .absent (.text "i")
    let n := Node.program [] [.method (.text "main") [] [
      .declaration (.text "x") (.integer 10),
      .forLoop (.declaration (.text "i") (.integer 0)) (.binary (.text "<") i (.integer 13))
        (.assignment i (.binary (.text "+") i (.integer 1)))
        [.assignment x (.binary (.text "*") x x)],
      .declaration (.text "y") x, .answer (.integer 1)]]
    let source := "DEF main() DO LET x = 10; FOR (i = 0; i < 13; i = i + 1) x = x * x; END " ++
      "LET y = x; RETURN 1; END"
    parseSource source = .ok n ∧
      (valueOf (runOn (some 4300) .default Event.callLevel n)).isOk ∧
      ExceedsDigits (runOn (some 4300) .default Event.declarationLevel n) := by
  intro x i n source
  have hlex : lex source = .ok
      [⟨.identifier, "DEF", 0⟩, ⟨.identifier, "main", 4⟩, ⟨.operator, "(", 8⟩, ⟨.operator, ")", 9⟩,
        ⟨.identifier, "DO", 11⟩, ⟨.identifier, "LET", 14⟩, ⟨.identifier, "x", 18⟩,
        ⟨.operator, "=", 20⟩, ⟨.integer, "10", 22⟩, ⟨.operator, ";", 24⟩, ⟨.identifier, "FOR", 26⟩,
        ⟨.operator, "(", 30⟩, ⟨.identifier, "i", 31⟩, ⟨.operator, "=", 33⟩, ⟨.integer, "0", 35⟩,
        ⟨.operator, ";", 36⟩, ⟨.identifier, "i", 38⟩, ⟨.operator, "<", 40⟩, ⟨.integer, "13", 42⟩,
        ⟨.operator, ";", 44⟩, ⟨.identifier, "i", 46⟩, ⟨.operator, "=", 48⟩, ⟨.identifier, "i", 50⟩,
        ⟨.operator, "+", 52⟩, ⟨.integer, "1", 54⟩, ⟨.operator, ")", 55⟩, ⟨.identifier, "x", 57⟩,
        ⟨.operator, "=", 59⟩, ⟨.identifier, "x", 61⟩, ⟨.operator, "*", 63⟩, ⟨.identifier, "x", 65⟩,
        ⟨.operator, ";", 66⟩, ⟨.identifier, "END", 68⟩, ⟨.identifier, "LET", 72⟩,
        ⟨.identifier, "y", 76⟩, ⟨.operator, "=", 78⟩, ⟨.identifier, "x", 80⟩, ⟨.operator, ";", 81⟩,
        ⟨.identifier, "RETURN", 83⟩, ⟨.integer, "1", 90⟩, ⟨.operator, ";", 91⟩,
        ⟨.identifier, "END", 93⟩] := by
    decide +kernel
  have hparse : parseSource source = .ok n := by
    rw [parseSource, hlex]
    rfl
  exact ⟨hparse, by decide +kernel, by decide +kernel⟩

end Evaluation

end Blockscript
