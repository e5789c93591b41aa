import Blockscript.Proofs.CommandLine.Emission
import Blockscript.Proofs.Evaluation.Levels

/-!
# Running the tree in a file

A file that a tree is run from may hold any text. The command is *settled* if it ends in one of
three ways: with the value of the program, displayed after all that is printed; with a complaint
that the file holds no tree; or with the error that the program runs into. Nothing else happens
to a tree that the grammar allows, unless the host is unable to read it or to display its numbers.

Other trees are not checked as they are read, and there is no complaint for all that their runs
may end with: a node in a place for others, a number out of all bounds, or a value of the
document that is none of the language, where the program ends with it and it is displayed.

A file may also escape half of a surrogate pair alone. No text of ours holds it, and nothing is said
of such a file.

* `Node.IsWrittenIn`: the tree in a text;
* `Report.IsSettled`, `Ending.IsEscape`: the three ways to end, and the ends without a complaint;
* `ends_runOn`: how programs of the grammar end;
* `Command.isSettled_runReport_or`: the run of a tree;
* `commandLine_ast_isSettled_or`: the command line on any text;
* `commandLine_ast_not_isSettled`: a program that ends with `null`.
-/

namespace Blockscript

open Node Evaluation Command

/-- A text holds the document of a tree. Its lines may end in any way. -/
def Node.IsWrittenIn (n : Node) (bounds : Bounds) (text : String) : Prop :=
  ∃ document, Json.read bounds.digits (Text.unifyNewlines text.toList) = .ok document ∧
    Node.ofJson document = .ok n

/-- The three ways to end where the tree in a text is run: with a displayed value, with a
    complaint about the file, or with one about the run. -/
inductive Report.IsSettled (bounds : Bounds) (limits : Limits) (level : Nat) (text : String) :
    Report → Prop
  | returned {n : Node} {v : Value} {s : State} {shown : String}
      {written : List (String × String)} : n.IsWrittenIn bounds text →
      runOn bounds.digits limits level n = .ok v s → s.display v = .ok shown →
      IsSettled bounds limits level text ⟨.exit 0, s.output ++ shown ++ "\n", "", written⟩
  | refused (path reason : String) : IsSettled bounds limits level text
      ⟨.exit 1, "", "Error: invalid AST file " ++ path ++ ": " ++ reason, []⟩
  | failed {n : Node} {e : RuntimeError} {s : State} {written : List (String × String)} :
      n.IsWrittenIn bounds text → runOn bounds.digits limits level n = .error (.error e) s →
      IsSettled bounds limits level text
        ⟨.exit 1, s.output, "Runtime error: " ++ e.message ++ "\n", written⟩

/-- What a command may end at without a complaint: a decimal of a document that is far too large,
    a fault of a run, or a result that cannot be displayed. -/
def Ending.IsEscape : Ending → Prop
  | .oversizedDecimal => True
  | .halted (.fault _) => True
  | .halted (.error (.unsupportedValue _)) => True
  | _ => False

variable {bounds : Bounds} {limits : Limits} {level : Nat} {text : String}

theorem Node.IsWrittenIn.unique {m n : Node} (hm : m.IsWrittenIn bounds text)
    (hn : n.IsWrittenIn bounds text) : m = n := by
  obtain ⟨document, hread, hm⟩ := hm
  obtain ⟨document', hread', hn⟩ := hn
  obtain rfl := Except.ok.inj (hread.symm.trans hread')
  exact Except.ok.inj (hm.symm.trans hn)

theorem Report.IsSettled.exists_exit {r : Report} (h : r.IsSettled bounds limits level text) :
    ∃ code, r.ending = .exit code := by
  cases h <;> exact ⟨_, rfl⟩

/-- A value has no text only if it is none of the language, or has too many digits. -/
theorem Store.isEscape_of_display {s : Store} {v : Value} {h : Halt}
    (hdisplay : s.display v = .error h) : (Ending.halted h).IsEscape := by
  cases v with
  | decimal d =>
    rw [display] at hdisplay
    split at hdisplay
    · cases hdisplay
      trivial
    · cases hdisplay
  | foreign value =>
    cases hdisplay
    trivial
  | _ => cases hdisplay

/-! ### Runs of programs of the grammar -/

/-- How a run may end: with a plain value, with something that a program is answerable for, or at
    the bound on digits. -/
def EndsWithin (digits : Option Nat) : EStateM.Result Halt State Value → Prop
  | .ok v _ => v.IsPlain
  | .error h _ => h.IsProper ∨ h = .fault .excessiveDigits ∧ digits ≠ none

/-- A program of the grammar ends with a plain value or properly, but for the bound on digits. -/
theorem ends_runOn (digits : Option Nat) (limits : Limits) (level : Nat) {n : Node}
    (hn : n.IsProgram) : EndsWithin digits (runOn digits limits level n) := by
  have hproper : EndsWithin digits (runFresh limits level n) := by
    have hend := (follows_runProgram limits hn _ (isSound_start level)).2
    rw [runFresh, runOn]
    cases hrun : (runProgram limits n).run (.start .standard Store.standardScope level) with
    | ok v s =>
      rw [hrun] at hend
      exact hend.2
    | error h s =>
      rw [hrun] at hend
      exact .inl hend.2
  by_cases hexceeds : ExceedsDigits (runOn digits limits level n)
  · have hdigits : digits ≠ none := by
      rintro rfl
      exact not_exceedsDigits_runFresh limits level hn hexceeds
    cases hrun : runOn digits limits level n with
    | ok v s =>
      rw [hrun] at hexceeds
      cases hexceeds
    | error h s =>
      rw [hrun] at hexceeds
      cases hexceeds
      exact .inr ⟨rfl, hdigits⟩
  -- The bound is not met, and so the run is the one that there is without it.
  · rw [runFresh_eq hexceeds] at hproper
    cases hrun : runOn digits limits level n with
    | ok v s =>
      rw [hrun] at hproper
      exact hproper
    | error h s =>
      rw [hrun] at hproper
      exact hproper

theorem State.isEscape_of_display {s : State} {v : Value} {h : Halt}
    (hdisplay : s.display v = .error h) : (Ending.halted h).IsEscape := by
  rw [display] at hdisplay
  split at hdisplay
  · cases hdisplay
    trivial
  · exact Store.isEscape_of_display hdisplay

/-- A plain value has a text, but for the bound on digits. -/
theorem State.display_error {s : State} {v : Value} {h : Halt} (hv : v.IsPlain)
    (hdisplay : s.display v = .error h) : h = .fault .excessiveDigits ∧ s.digitLimit ≠ none := by
  rw [display] at hdisplay
  split at hdisplay
  · next hexceeds =>
    cases hdisplay
    refine ⟨rfl, fun hnone => ?_⟩
    rw [hnone] at hexceeds
    cases hexceeds
  · obtain ⟨shown, hshown⟩ := hv.exists_display s.store
    rw [hshown] at hdisplay
    cases hdisplay

namespace Command

theorem isSettled_document (path : String) (reason : Option String) :
    (Report.complaint (.document path reason)).IsSettled bounds limits level text :=
  .refused path _

/-- A document that is no tree is complained about, but for a decimal that is far too large. -/
theorem isSettled_documentReport_or (path : String) (e : DocumentError) :
    (documentReport path e).IsSettled bounds limits level text ∨
      (documentReport path e).ending.IsEscape := by
  cases e with
  | oversizedDecimal => exact .inr trivial
  | _ => exact .inl (isSettled_document path _)

section Runs

variable {n : Node}

theorem runReport_of_display {v : Value} {s : State} {shown : String}
    (hrun : runOn bounds.digits limits level n = .ok v s) (hshown : s.display v = .ok shown) :
    ∃ written,
      runReport bounds limits level n = ⟨.exit 0, s.output ++ shown ++ "\n", "", written⟩ := by
  rw [runOn] at hrun
  simp only [runReport, hrun, run_display, hshown]
  exact ⟨_, rfl⟩

theorem ending_runReport_of_display {v : Value} {s : State} {h : Halt}
    (hrun : runOn bounds.digits limits level n = .ok v s) (hshown : s.display v = .error h) :
    (runReport bounds limits level n).ending = .halted h := by
  rw [runOn] at hrun
  simp only [runReport, hrun, run_display, hshown]

theorem runReport_of_error {e : RuntimeError} {s : State}
    (hrun : runOn bounds.digits limits level n = .error (.error e) s) :
    ∃ written, runReport bounds limits level n =
      ⟨.exit 1, s.output, "Runtime error: " ++ e.message ++ "\n", written⟩ := by
  rw [runOn] at hrun
  simp only [runReport, hrun]
  exact ⟨_, rfl⟩

theorem ending_runReport_of_error {h : Halt} {s : State}
    (hrun : runOn bounds.digits limits level n = .error h s) (hh : ∀ e, h ≠ .error e) :
    (runReport bounds limits level n).ending = .halted h := by
  rw [runOn] at hrun
  cases h with
  | error e => exact absurd rfl (hh e)
  | fault f => simp only [runReport, hrun]
  | outOfSteps => simp only [runReport, hrun]

/-- The run of a tree is settled if it ends, or it meets the bound on digits, or else the tree is
    none that the grammar allows. -/
theorem isSettled_runReport_or (hn : n.IsWrittenIn bounds text) :
    (runReport bounds limits level n).ending = .halted .outOfSteps ∨
      (runReport bounds limits level n).IsSettled bounds limits level text ∨
      (runReport bounds limits level n).ending = .halted (.fault .excessiveDigits) ∧
        bounds.digits ≠ none ∨
      (runReport bounds limits level n).ending.IsEscape ∧ ¬ n.IsProgram := by
  have hends (hprogram : n.IsProgram) := ends_runOn bounds.digits limits level hprogram
  -- The run decides, and after it the display of the result: both may fail, and a grammar tree
  -- leaves them only the bound on digits to fail by.
  cases hrun : runOn bounds.digits limits level n with
  | ok v s =>
    rw [hrun] at hends
    cases hshown : s.display v with
    | ok shown =>
      obtain ⟨written, heq⟩ := runReport_of_display hrun hshown
      rw [heq]
      exact .inr (.inl (.returned hn hrun hshown))
    | error h =>
      rw [ending_runReport_of_display hrun hshown]
      by_cases hprogram : n.IsProgram
      · -- A program of the grammar ends with a plain value, which only the bound leaves no text.
        obtain ⟨rfl, hdigits⟩ := State.display_error (hends hprogram) hshown
        have hlimit : s.digitLimit = bounds.digits := by
          have hstart := digitLimit_runProgram limits n
            (.start .standard Store.standardScope level bounds.digits)
          rw [show (runProgram limits n).run _ = _ from hrun] at hstart
          exact hstart
        rw [hlimit] at hdigits
        exact .inr (.inr (.inl ⟨rfl, hdigits⟩))
      · exact .inr (.inr (.inr ⟨State.isEscape_of_display hshown, hprogram⟩))
  | error h s =>
    rw [hrun] at hends
    cases h with
    | error e =>
      obtain ⟨written, heq⟩ := runReport_of_error hrun
      rw [heq]
      exact .inr (.inl (.failed hn hrun))
    | fault f =>
      rw [ending_runReport_of_error hrun (by simp)]
      by_cases hprogram : n.IsProgram
      · obtain hproper | ⟨hfault, hdigits⟩ := hends hprogram
        · exact hproper.elim
        · exact .inr (.inr (.inl ⟨congrArg _ hfault, hdigits⟩))
      · exact .inr (.inr (.inr ⟨trivial, hprogram⟩))
    | outOfSteps => exact .inl (ending_runReport_of_error hrun (by simp))

end Runs

end Command

/-- Whatever text a file holds, as long as it escapes no half of a surrogate pair alone, running the
    tree in it ends in one of the three ways if it ends, unless the host is unable to read the
    tree or to display a number, or else the text does not hold a tree that the grammar
    allows. -/
theorem commandLine_ast_isSettled_or {treeFile : String} (htree : IsPlainPath treeFile)
    {content : String → FileContent} (htext : content (normalizePath treeFile) = .text text)
    (bounds : Bounds) (limits : Limits) (mores : List Nat)
    (hpaired : Json.read bounds.digits (Text.unifyNewlines text.toList) ≠ .error .loneSurrogate) :
    let r := commandLine bounds limits (verboseArguments mores ++ ["--ast", treeFile]) content
    r.ending = .halted .outOfSteps ∨ r.IsSettled bounds limits (verbosity mores) text ∨
      r.ending = .tooDeep ∧
        bounds.readingIsTooDeep (String.ofList (Text.unifyNewlines text.toList)) ∨
      r.ending = .halted (.fault .excessiveDigits) ∧ bounds.digits ≠ none ∨
      r.ending.IsEscape ∧ ∀ n : Node, n.IsWrittenIn bounds text → ¬ n.IsProgram := by
  intro r
  have hr := commandLine_of_text bounds limits (ofArguments?_runTree htree mores) htext
  rw [show r = _ from hr]
  simp only [performOn, String.toList_ofList]
  by_cases hdeep : bounds.readingIsTooDeep (String.ofList (Text.unifyNewlines text.toList))
  · rw [if_pos hdeep]
    exact .inr (.inr (.inl ⟨rfl, hdeep⟩))
  rw [if_neg hdeep]
  cases hread : Json.read bounds.digits (Text.unifyNewlines text.toList) with
  | error e =>
    cases e with
    | malformed => exact .inr (.inl (isSettled_document _ none))
    | loneSurrogate => exact absurd hread hpaired
  | ok document =>
    cases hdocument : Node.ofJson document with
    | error e =>
      -- The text holds no tree, so that none of the grammar is in it.
      simp only [hdocument]
      obtain hsettled | hescape := isSettled_documentReport_or (normalizePath treeFile) e
      · exact .inr (.inl hsettled)
      · refine .inr (.inr (.inr (.inr ⟨hescape, ?_⟩)))
        rintro n ⟨document', hread', hn⟩
        obtain rfl := Except.ok.inj (hread.symm.trans hread')
        rw [hdocument] at hn
        cases hn
    | ok n =>
      -- The tree that is run is the only one in the text.
      have hn : n.IsWrittenIn bounds text := ⟨document, hread, hdocument⟩
      simp only [hdocument]
      obtain hsteps | hsettled | hdigits | ⟨hescape, hprogram⟩ := isSettled_runReport_or hn
      · exact .inl hsteps
      · exact .inr (.inl hsettled)
      · exact .inr (.inr (.inr (.inl hdigits)))
      · exact .inr (.inr (.inr (.inr ⟨hescape, fun m hm => hm.unique hn ▸ hprogram⟩)))

/-! ### Trees in files -/

section Answering

variable {digits : Option Nat} {value : Node}

theorem isPlain_answering (h : value.toJson.IsPlain digits) :
    (answering value).toJson.IsPlain digits := by
  have hanswer : (Node.answer value).toJson.IsPlain digits :=
    isPlain_typed (by simp) (by simpa using h)
  have hmethod : (Node.method (.text "main") [] [.answer value]).toJson.IsPlain digits :=
    isPlain_typed (by simp) (by simp [Label.toJson, Json.IsPlain.string, isPlain_toJsons, hanswer,
      Json.IsPlain.array])
  exact isPlain_typed (by simp) (by simp [isPlain_toJsons, hmethod])

theorem isStorable_answering (h : value.IsStorable) : (answering value).IsStorable :=
  .program nofun (List.forall_mem_singleton.2 (.method rfl nofun
    (List.forall_mem_singleton.2 (.answer h))))

end Answering

/-- What is read from a file that holds the text of a tree. -/
theorem read_treeText {n : Node} {digits : Option Nat} (hplain : n.toJson.IsPlain digits) :
    Json.read digits (Text.unifyNewlines (treeText n).toList) = .ok n.toJson := by
  have hnewlines := congrArg String.toList (unifyNewlines_treeText hplain)
  rw [String.toList_ofList] at hnewlines
  rw [hnewlines]
  exact Json.read_toText hplain

/-- Running the tree in a file is running the tree, if the file holds its text. -/
theorem commandLine_ast_treeText {n : Node} (hplain : n.toJson.IsPlain bounds.digits)
    (hstorable : n.IsStorable) (hdeep : ¬ bounds.readingIsTooDeep (treeText n))
    {treeFile : String} (htree : IsPlainPath treeFile) {content : String → FileContent}
    (htext : content (normalizePath treeFile) = .text (treeText n)) (limits : Limits)
    (mores : List Nat) :
    commandLine bounds limits (verboseArguments mores ++ ["--ast", treeFile]) content =
      runReport bounds limits (verbosity mores) n := by
  have hread : Json.read bounds.digits (treeText n).toList = .ok n.toJson :=
    Json.read_toText hplain
  rw [commandLine_of_text bounds limits (ofArguments?_runTree htree mores) htext,
    unifyNewlines_treeText hplain]
  simp only [performOn, hread, ofJson_toJson hstorable, if_neg hdeep]

/-- A file that holds the tree of a program, which is run and gives its value. -/
theorem commandLine_ast_isSettled_or_answering :
    let bounds := { Bounds.unlimited with digits := some 4300 }
    let text := treeText (answering (.string "é"))
    let content := fun _ => FileContent.text text
    let r := commandLine bounds .default (verboseArguments [0] ++ ["--ast", "a.json"]) content
    IsPlainPath "a.json" ∧ content (normalizePath "a.json") = .text text ∧
      Json.read bounds.digits (Text.unifyNewlines text.toList) ≠ .error .loneSurrogate ∧
      r = ⟨.exit 0, "é\n", "", [("debug.txt", "call main()\nreturn main -> é\n")]⟩ ∧
      r.IsSettled bounds .default (verbosity [0]) text := by
  intro bounds text content r
  have hpath : IsPlainPath "a.json" := by decide
  have hcontent : content (normalizePath "a.json") = .text text := rfl
  have hplain : (answering (.string "é")).toJson.IsPlain bounds.digits :=
    isPlain_answering (isPlain_typed (by simp) (by simp [Label.toJson, payloadToJson,
      Json.IsPlain.string]))
  have hstorable : (answering (.string "é")).IsStorable :=
    isStorable_answering (.literal (.json rfl (by simp)))
  have hpaired : Json.read bounds.digits (Text.unifyNewlines text.toList) ≠
      .error .loneSurrogate := by
    rw [show Json.read _ _ = _ from read_treeText hplain]
    simp
  have hr : r = ⟨.exit 0, "é\n", "",
      [("debug.txt", "call main()\nreturn main -> é\n")]⟩ := by
    refine (commandLine_ast_treeText hplain hstorable Bool.false_ne_true hpath hcontent .default
      [0]).trans ?_
    exact Report.eq_of_ending (by decide +kernel) (by decide +kernel) (by decide +kernel)
      (by decide +kernel)
  have hsettled := commandLine_ast_isSettled_or hpath hcontent bounds .default [0] hpaired
  refine ⟨hpath, hcontent, hpaired, hr, ?_⟩
  -- None of the other ends is one with an exit code.
  rw [show commandLine _ _ _ _ = _ from hr] at hsettled
  rw [hr]
  obtain h | h | ⟨h, -⟩ | ⟨h, -⟩ | ⟨h, -⟩ := hsettled
  · cases h
  · exact h
  · cases h
  · cases h
  · exact h.elim

/-- The program `DEF main() DO RETURN NIL; END`, but for the name of the type of the literal. Its
    value is none of the language then. -/
def nullProgram : Node :=
  answering (.literal (.text "Integer") (.json .null))

/-- A tree may end a program with a value that is none of the language. That it cannot be
    displayed is found when the run is over, and there is no complaint about it. -/
theorem commandLine_ast_not_isSettled :
    let content := fun _ => FileContent.text (treeText nullProgram)
    let r := commandLine .unlimited .default ["--ast", "a.json"] content
    (r.ending matches .halted (.error (.unsupportedValue .null))) ∧
      ¬ r.IsSettled .unlimited .default 0 (treeText nullProgram) := by
  intro content r
  have hplain : nullProgram.toJson.IsPlain Bounds.unlimited.digits :=
    isPlain_answering (isPlain_typed (by simp) (by simp [Label.toJson, payloadToJson,
      Json.IsPlain.string, Json.IsPlain.null]))
  have hstorable : nullProgram.IsStorable :=
    isStorable_answering (.literal (.json rfl (by simp)))
  have hr : r = runReport .unlimited .default 0 nullProgram :=
    commandLine_ast_treeText hplain hstorable Bool.false_ne_true
      (by decide : IsPlainPath "a.json") (rfl : content _ = .text _) .default []
  have hending : r.ending matches .halted (.error (.unsupportedValue .null)) := by
    rw [hr]
    decide +kernel
  refine ⟨hending, fun h => ?_⟩
  obtain ⟨code, hexit⟩ := h.exists_exit
  rw [hexit] at hending
  cases hending

end Blockscript
