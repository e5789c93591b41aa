import Blockscript.CommandLine.Report
import Blockscript.Proofs.CommandLine.Arguments
import Blockscript.Proofs.CommandLine.Path
import Blockscript.Proofs.Json.RoundTrip
import Blockscript.Proofs.Syntax.Document

/-!
# Running a program by way of its tree

The tree of a program may be written to a file first and be run from there. The file
holds a text that is read back as it was, and the document in it stands for the tree, so
that nothing about the run is changed. A program that has no tree is refused in the same
way by either task.

So it is as long as the host is able to do all this. Where it is not, a program that could be run
may have no file for its tree, or one that breaks off, or one that cannot be read.

* `parseSource_of_parseWithin`, `isPlain_of_parseWithin`: the tree that a host makes of a text;
* `Node.isPlain_toJson`: the document of a program is read as it is written;
* `emissionReport_cases`: a file holds the whole tree, or the writing of it has gone too deep;
* `Command.performOn_treeText`: a run by way of the tree;
* `commandLine_runTree`: the same for whole command lines.
-/

namespace Blockscript

open Node

variable {digits : Option Nat}

/-! ### The text of a tree -/

/-- A text is written as it is. -/
theorem Label.IsText.isPlain {l : Label} (h : l.IsText) : l.toJson.IsPlain digits := by
  obtain ⟨s, rfl⟩ := h
  exact .string s

theorem isPlain_labels {ls : List Label} (h : ∀ l ∈ ls, l.IsText) :
    (Json.array (ls.map Label.toJson)).IsPlain digits := by
  refine .array fun j hj => ?_
  obtain ⟨l, hl, rfl⟩ := List.mem_map.1 hj
  exact (h l hl).isPlain

/-- The tag of a literal is a text, which is the name of its kind. -/
theorem Node.IsLiteral.isText {tag : Label} {payload : Payload}
    (h : IsLiteral (.literal tag payload)) : tag.IsText := by
  cases h <;> exact ⟨_, rfl⟩

/-- A literal that holds what its tag says, and no integer of too many digits. -/
def Node.IsPlainLiteral (digits : Option Nat) (tag : Label) (payload : Payload) : Prop :=
  IsLiteral (.literal tag payload) ∧
    ∀ i, payload = .json (.integer i) → ¬ digits.any (Text.exceedsDigits i.natAbs)

/-- The payload of a literal is a plain value: a decimal is written as a text. -/
theorem Node.IsPlainLiteral.isPlain {tag : Label} {payload : Payload}
    (h : IsPlainLiteral digits tag payload) : (payloadToJson payload).IsPlain digits := by
  obtain ⟨hliteral, hinteger⟩ := h
  cases hliteral with
  | nil => exact .null
  | boolean b => exact .boolean b
  | integer i => exact .integer (hinteger i rfl)
  | decimal _ => exact .string _
  | character c => exact .string _
  | string s => exact .string s

theorem isPlain_toJsons {ns : List Node} (h : ∀ n ∈ ns, n.toJson.IsPlain digits) :
    (Json.array (toJsons ns)).IsPlain digits := by
  refine .array ?_
  induction ns with
  | nil => exact nofun
  | cons n ns ih =>
    have ⟨hn, hns⟩ := List.forall_mem_cons.1 h
    exact List.forall_mem_cons.2 ⟨hn, ih hns⟩

/-- The document of a node is plain if its members are, and none of them is named twice. -/
theorem isPlain_typed {type : String} {members : List (String × Json)}
    (hkeys : ("type" :: members.map Prod.fst).Nodup) (h : ∀ m ∈ members, m.2.IsPlain digits) :
    (typed type members).IsPlain digits :=
  .object hkeys (List.forall_mem_cons.2 ⟨.string type, h⟩)

/-- The document of a tree of a text is read as it is written. -/
theorem Node.isPlain_toJson {n : Node} (h : n.Forall Label.IsText (IsPlainLiteral digits)) :
    n.toJson.IsPlain digits := by
  -- By induction on the tree: a member is null, a flag, a label or what the hypothesis speaks of.
  induction h with
  | absent => exact .null
  | program _ _ ihf ihm =>
    refine isPlain_typed (by simp) ?_
    simp [isPlain_toJsons ihf, isPlain_toJsons ihm]
  | field hname _ ih =>
    refine isPlain_typed (by simp) ?_
    simp [hname.isPlain, ih, Json.IsPlain.boolean]
  | method hname hp _ ih =>
    refine isPlain_typed (by simp) ?_
    simp [hname.isPlain, isPlain_labels hp, isPlain_toJsons ih]
  | discard _ ih => exact isPlain_typed (by simp) (by simp [ih])
  | declaration hname _ ih => exact isPlain_typed (by simp) (by simp [hname.isPlain, ih])
  | assignment _ _ ihr ihv => exact isPlain_typed (by simp) (by simp [ihr, ihv])
  | choice _ _ _ ihc iht ihe =>
    exact isPlain_typed (by simp) (by simp [ihc, isPlain_toJsons iht, isPlain_toJsons ihe])
  | forLoop _ _ _ _ ihi ihc ihu ihs =>
    exact isPlain_typed (by simp) (by simp [ihi, ihc, ihu, isPlain_toJsons ihs])
  | whileLoop _ _ ihc ihs => exact isPlain_typed (by simp) (by simp [ihc, isPlain_toJsons ihs])
  | answer _ ih => exact isPlain_typed (by simp) (by simp [ih])
  | literal h => exact isPlain_typed (by simp) (by simp [h.1.isText.isPlain, h.isPlain])
  | group _ ih => exact isPlain_typed (by simp) (by simp [ih])
  | binary hoperator _ _ ihl ihr =>
    exact isPlain_typed (by simp) (by simp [hoperator.isPlain, ihl, ihr])
  | access _ hname ih => exact isPlain_typed (by simp) (by simp [hname.isPlain, ih])
  | call _ hname _ ihr iha =>
    exact isPlain_typed (by simp) (by simp [hname.isPlain, ihr, isPlain_toJsons iha])

/-! ### Line ends -/

/-- Without carriage returns, there are no line ends to be unified. -/
theorem Text.unifyNewlines_eq_self {s : List Char} (h : '\r' ∉ s) : unifyNewlines s = s := by
  fun_induction unifyNewlines s with
  | case1 => exact absurd List.mem_cons_self h
  | case2 => exact absurd List.mem_cons_self h
  | case3 c rest _ _ ih => rw [ih fun hmem => h (List.mem_cons_of_mem c hmem)]
  | case4 => rfl

/-- A text gets no longer by unifying line ends. -/
theorem Text.length_unifyNewlines_le (s : List Char) : (unifyNewlines s).length ≤ s.length := by
  fun_induction unifyNewlines s with
  | case1 rest ih => simp only [List.length_cons]; omega
  | case2 rest _ ih => simp only [List.length_cons]; omega
  | case3 c rest _ _ ih => simp only [List.length_cons]; omega
  | case4 => exact Nat.le_refl 0

/-! ### Trees within the bounds of a host -/

section Parsing

variable {bounds : Bounds} {source : String} {n : Node}

/-- An integer that a token denotes has no more digits than the token. -/
theorem Token.Denotes.not_exceedsDigits {t : Token} {tag : Label} {i : Int} {limit : Nat}
    (h : t.Denotes tag (.json (.integer i))) (ht : ¬ t.exceedsDigits limit) :
    ¬ Text.exceedsDigits i.natAbs limit := by
  cases h with
  | @integer sign digits hkind htext hsign hdigits =>
    have hfilter : t.text.toList.filter Text.isDigit = digits := by
      have hnone : sign.filter Text.isDigit = [] := by
        rcases hsign with rfl | rfl | rfl <;> rfl
      rw [htext, List.filter_append, hnone, List.nil_append]
      exact List.filter_eq_self.2 hdigits.2
    have hvalue : (integerOf sign digits).natAbs = Nat.ofDigitChars 10 digits 0 := by
      rw [integerOf]
      split <;> omega
    have hlimit : digits.length ≤ limit := by
      simpa [exceedsDigits, hkind, hfilter] using ht
    have hlt : Nat.ofDigitChars 10 digits 0 < 10 ^ limit :=
      Nat.lt_of_lt_of_le (Text.ofDigitChars_lt hdigits.2) (Nat.pow_le_pow_right (by decide) hlimit)
    rw [Text.exceedsDigits, hvalue, decide_eq_true_eq]
    exact Nat.not_le_of_lt hlt

/-- The parts of a parse within the bounds. -/
theorem exists_lex_of_parseWithin (h : parseWithin bounds source = .ok n) :
    ∃ tokens, lex source = .ok tokens ∧ parse tokens = .ok n ∧
      ∀ t ∈ tokens, ¬ bounds.digits.any t.exceedsDigits := by
  rw [parseWithin] at h
  cases hlex : lex source with
  -- Every other exit of the three steps is an error.
  | error e =>
    rw [hlex] at h
    cases h
  | ok tokens =>
    simp only [hlex] at h
    split at h
    · cases h
    · cases hparse : parse tokens with
      | error e =>
        simp only [hparse] at h
        split at h <;> cases h
      | ok m =>
        simp only [hparse] at h
        split at h
        · cases h
        · next hdigits =>
          cases h
          refine ⟨tokens, rfl, hparse, fun t ht hexceeds => hdigits ?_⟩
          exact List.any_eq_true.2 ⟨t, ht, hexceeds⟩

/-- What a host makes of a text is its tree. -/
theorem parseSource_of_parseWithin (h : parseWithin bounds source = .ok n) :
    parseSource source = .ok n := by
  obtain ⟨tokens, hlex, hparse, -⟩ := exists_lex_of_parseWithin h
  rw [parseSource, hlex]
  simp only [hparse]
  rfl

/-- The document of a tree that a host makes is one that it can read. -/
theorem isPlain_of_parseWithin (h : parseWithin bounds source = .ok n) :
    n.toJson.IsPlain bounds.digits := by
  obtain ⟨tokens, hlex, hparse, hdigits⟩ := exists_lex_of_parseWithin h
  refine isPlain_toJson ((forall_of_parse hlex hparse).mono (fun _ hl => hl) ?_)
  rintro tag payload ⟨hliteral, t, ht, hdenotes⟩
  refine ⟨hliteral, ?_⟩
  rintro i rfl hexceeds
  obtain ⟨limit, hlimit, hexceeds⟩ := (Option.any_eq_true _ _).1 hexceeds
  refine hdenotes.not_exceedsDigits (fun hlong => hdigits t ht ?_) hexceeds
  exact (Option.any_eq_true _ _).2 ⟨limit, hlimit, hlong⟩

end Parsing

/-! ### Runs by way of the tree -/

namespace Command

variable {bounds : Bounds} {limits : Limits} {source path : String} {n : Node}

/-- The text of a tree has no line ends but line feeds. -/
theorem unifyNewlines_treeText (h : n.toJson.IsPlain digits) :
    String.ofList (Text.unifyNewlines (treeText n).toList) = treeText n := by
  have hmem : '\r' ∉ (treeText n).toList := by
    rw [treeText, Json.toText, String.toList_ofList]
    exact Json.not_mem_write h 0
  rw [Text.unifyNewlines_eq_self hmem, String.ofList_toList]

/-- Running the text of the tree of a source is running the source, if it can be read. -/
theorem performOn_treeText (hsource : parseWithin bounds source = .ok n)
    (hlength : Decimal.leastExponent ≤ -(source.length : Int)) (level : Nat)
    (file treeFile path' : String) :
    performOn bounds limits ⟨.runTree, treeFile, level⟩ path' (treeText n) =
      if bounds.readingIsTooDeep (treeText n) then .escape .tooDeep
      else performOn bounds limits ⟨.run, file, level⟩ path source := by
  have hread : Json.read bounds.digits (treeText n).toList = .ok n.toJson :=
    Json.read_toText (isPlain_of_parseWithin hsource)
  have hstorable := isStorable_of_parseSource (parseSource_of_parseWithin hsource) hlength
  simp only [performOn, hread, hsource, ofJson_toJson hstorable]

end Command

/-- What is at each path once the files of a report are written. -/
def Report.contentAfter (r : Report) (content : String → FileContent) (path : String) :
    FileContent :=
  match r.written.lookup path with
  | some text => .text text
  | none => content path

open Command

section Report

variable (bounds : Bounds) (limits : Limits) {arguments : List String} {c : Command}
  {content : String → FileContent} (hc : ofArguments? arguments = some c)

include hc

/-- The report of a task on a file that holds a text. -/
theorem commandLine_of_text {s : String} (hs : content (normalizePath c.path) = .text s) :
    commandLine bounds limits arguments content = performOn bounds limits c (normalizePath c.path)
      (String.ofList (Text.unifyNewlines s.toList)) := by
  simp only [commandLine, hc, perform, hs]

/-- A file that is missing is complained about by every command. -/
theorem commandLine_of_missing (h : content (normalizePath c.path) = .missing) :
    commandLine bounds limits arguments content =
      .complaint (.missingFile (normalizePath c.path)) := by
  simp only [commandLine, hc, perform, h]

theorem commandLine_of_unreadable (h : content (normalizePath c.path) = .unreadable) :
    commandLine bounds limits arguments content = .escape .unreadableFile := by
  simp only [commandLine, hc, perform, h]

end Report

/-! ### Files without a tree -/

/-- What a host makes of a file that holds a program. Its lines may end in any way. -/
def parseFile (bounds : Bounds) : FileContent → Option (Except Refusal Node)
  | .text s => some (parseWithin bounds (String.ofList (Text.unifyNewlines s.toList)))
  | _ => none

/-- A file that holds a program holds a text. -/
theorem exists_text_of_parseFile {bounds : Bounds} {content : FileContent} {n : Node}
    (h : parseFile bounds content = some (.ok n)) : ∃ s, content = .text s ∧
      parseWithin bounds (String.ofList (Text.unifyNewlines s.toList)) = .ok n := by
  cases content with
  | missing => cases h
  | unreadable => cases h
  | text s => exact ⟨s, rfl, Option.some.inj h⟩

/-- The report of a task that needs the program in a file, if there is none. -/
def refusedReport (bounds : Bounds) (path : String) (content : FileContent) : Report :=
  match content, parseFile bounds content with
  | .missing, _ => .complaint (.missingFile path)
  | _, some (.error r) => refusalReport r
  | _, _ => .escape .unreadableFile

section Refused

variable {bounds : Bounds}

/-- Both tasks that need a program refuse a file in the same way. -/
theorem commandLine_eq_refusedReport {limits : Limits} {arguments : List String} {c : Command}
    {content : String → FileContent} (hc : ofArguments? arguments = some c)
    (htask : c.task = .run ∨ c.task = .emitTree)
    (h : ∀ n, parseFile bounds (content (normalizePath c.path)) ≠ some (.ok n)) :
    commandLine bounds limits arguments content =
      refusedReport bounds (normalizePath c.path) (content (normalizePath c.path)) := by
  cases hcontent : content (normalizePath c.path) with
  | missing => exact commandLine_of_missing bounds limits hc hcontent
  | unreadable => exact commandLine_of_unreadable bounds limits hc hcontent
  | text s =>
    rw [hcontent] at h
    rw [commandLine_of_text bounds limits hc hcontent]
    simp only [refusedReport, parseFile]
    cases hparse : parseWithin bounds (String.ofList (Text.unifyNewlines s.toList)) with
    | ok n => exact absurd (congrArg some hparse) (h n)
    | error r => rcases htask with htask | htask <;> simp only [performOn, htask, hparse]

/-- A program that is refused is complained about, or the host is unable to read it. -/
theorem refusedReport_cases (path : String) {content : FileContent}
    (h : ∀ n, parseFile bounds content ≠ some (.ok n)) :
    let r := refusedReport bounds path content
    r.ending ≠ .exit 0 ∧ r.written = [] ∧ (r.ending = .exit 1 ∨ content = .unreadable ∨
      parseFile bounds content = some (.error .tooDeep) ∨
      parseFile bounds content = some (.error .excessiveDigits)) := by
  cases content with
  | missing => exact ⟨by simp [refusedReport, Report.complaint], rfl, .inl rfl⟩
  | unreadable =>
    exact ⟨by simp [refusedReport, parseFile, Report.escape], rfl, .inr (.inl rfl)⟩
  | text s =>
    simp only [refusedReport, parseFile]
    cases hparse : parseWithin bounds (String.ofList (Text.unifyNewlines s.toList)) with
    | ok n => exact absurd (congrArg some hparse) (h n)
    | error r =>
      cases r with
      | source e => exact ⟨by simp [refusalReport, Report.complaint], rfl, .inl rfl⟩
      | tooDeep => exact ⟨by simp [refusalReport, Report.escape], rfl, .inr (.inr (.inl rfl))⟩
      | excessiveDigits =>
        exact ⟨by simp [refusalReport, Report.escape], rfl, .inr (.inr (.inr rfl))⟩

end Refused

/-- A tree is written as a whole, or it goes too deep for the host. -/
theorem emissionReport_cases (bounds : Bounds) (path : String) (n : Node) :
    let r := emissionReport bounds path n
    r = ⟨.exit 0, treePath path ++ "\n", "", [(treePath path, treeText n)]⟩ ∨
      r.ending ≠ .exit 0 ∧ ∃ k, bounds.writingStopsAfter n = some k ∧ r.ending = .tooDeep ∧
        r.written =
          if k = 0 then [] else [(treePath path, String.ofList ((treeText n).toList.take k))] := by
  rw [emissionReport]
  cases bounds.writingStopsAfter n with
  | none => exact .inl rfl
  | some k =>
    cases k with
    | zero => exact .inr ⟨by simp [Report.escape], 0, rfl, rfl, rfl⟩
    | succ k => exact .inr ⟨by simp, k + 1, rfl, rfl, rfl⟩

/-- If the tree of a program is written, then its file holds just the text of its document, and
    running that is running the program, unless it goes too deep to be read: both runs end in the
    same way, and print, complain and log the same. If the tree is not written, then it is because
    running the program gives the same complaint and writes nothing either, or because the host
    is unable to read the program or to write its tree. The program has no more characters than a
    decimal can have places. -/
theorem commandLine_runTree {file treeFile : String} (hfile : IsPlainPath file)
    (htree : IsPlainPath treeFile) (hsame : normalizePath treeFile = treePath (normalizePath file))
    {content : String → FileContent}
    (hlength : ∀ s, content (normalizePath file) = .text s →
      Decimal.leastExponent ≤ -(s.length : Int))
    (bounds : Bounds) (limits : Limits) (verbose mores : List Nat) :
    let tree := treePath (normalizePath file)
    let parsed := parseFile bounds (content (normalizePath file))
    let emitted :=
      commandLine bounds limits (verboseArguments verbose ++ ["--emit-ast", file]) content
    let ran := commandLine bounds limits (verboseArguments mores ++ [file]) content
    (emitted.ending = .exit 0 → ∃ n, parsed = some (.ok n) ∧
      emitted = ⟨.exit 0, tree ++ "\n", "", [(tree, treeText n)]⟩ ∧
      commandLine bounds limits (verboseArguments mores ++ ["--ast", treeFile])
          (emitted.contentAfter content) =
        if bounds.readingIsTooDeep (treeText n) then .escape .tooDeep else ran) ∧
    (emitted.ending ≠ .exit 0 →
      (emitted = ran ∧ emitted.written = [] ∧ (emitted.ending = .exit 1 ∨
        content (normalizePath file) = .unreadable ∨
        parsed = some (.error .tooDeep) ∨ parsed = some (.error .excessiveDigits))) ∨
      ∃ n k, parsed = some (.ok n) ∧ bounds.writingStopsAfter n = some k ∧
        emitted.ending = .tooDeep ∧ emitted.written =
          if k = 0 then [] else [(tree, String.ofList ((treeText n).toList.take k))]) := by
  intro tree parsed emitted ran
  have hemit := ofArguments?_emitTree hfile verbose
  have hrun := ofArguments?_run hfile mores
  have hruntree := ofArguments?_runTree htree mores
  by_cases hparsed : ∃ n, parsed = some (.ok n)
  · obtain ⟨n, hn⟩ := hparsed
    obtain ⟨s, hcontent, hparse⟩ := exists_text_of_parseFile hn
    have hemitted : emitted = emissionReport bounds (normalizePath file) n := by
      refine (commandLine_of_text bounds limits hemit hcontent).trans ?_
      simp only [performOn, hparse]
    rcases hemitted ▸ emissionReport_cases bounds (normalizePath file) n with hwritten | hstops
    · refine ⟨fun _ => ⟨n, hn, hwritten, ?_⟩,
        fun hne => absurd (congrArg Report.ending hwritten) hne⟩
      -- The file of the tree is there when it is run, and is read as it has been written.
      have htext : emitted.contentAfter content (normalizePath treeFile) = .text (treeText n) := by
        rw [hwritten, Report.contentAfter, hsame]
        simp
      have hshorter := Text.length_unifyNewlines_le s.toList
      rw [String.length_toList] at hshorter
      have hfits := hlength s hcontent
      have hran := commandLine_of_text bounds limits hrun hcontent
      rw [commandLine_of_text bounds limits hruntree htext,
        unifyNewlines_treeText (isPlain_of_parseWithin hparse), show ran = _ from hran]
      exact performOn_treeText hparse (by rw [String.length_ofList]; omega) _ file treeFile _
    · obtain ⟨hne, k, hk, hending, hpart⟩ := hstops
      exact ⟨fun h => absurd h hne, fun _ => .inr ⟨n, k, hn, hk, hending, hpart⟩⟩
  · have hnone : ∀ n, parseFile bounds (content (normalizePath file)) ≠ some (.ok n) :=
      fun n hn => hparsed ⟨n, hn⟩
    have hemitted : emitted = _ := commandLine_eq_refusedReport hemit (.inr rfl) hnone
    have hran : ran = _ := commandLine_eq_refusedReport hrun (.inl rfl) hnone
    obtain ⟨hne, hwhy⟩ := hemitted ▸ refusedReport_cases (normalizePath file) hnone
    exact ⟨fun h => absurd h hne, fun _ => .inl ⟨hemitted.trans hran.symm, hwhy⟩⟩

/-! ### Programs that only give a value -/

/-- The program `DEF main() DO RETURN value; END`. -/
def Node.answering (value : Node) : Node :=
  .program [] [.method (.text "main") [] [.answer value]]

theorem lex_answering : lex "DEF main() DO RETURN \"é\"; END" = .ok [⟨.identifier, "DEF", 0⟩,
    ⟨.identifier, "main", 4⟩, ⟨.operator, "(", 8⟩, ⟨.operator, ")", 9⟩, ⟨.identifier, "DO", 11⟩,
    ⟨.identifier, "RETURN", 14⟩, ⟨.string, "\"é\"", 21⟩, ⟨.operator, ";", 24⟩,
    ⟨.identifier, "END", 26⟩] := by
  decide +kernel

/-- A file with a text beyond ASCII holds its program, if the host parses it. -/
theorem parseFile_answering {bounds : Bounds} (h : ∀ tokens, ¬ bounds.parsingIsTooDeep tokens) :
    parseFile bounds (.text "DEF main() DO RETURN \"é\"; END") =
      some (.ok (answering (.string "é"))) := by
  have hnewlines : Text.unifyNewlines "DEF main() DO RETURN \"é\"; END".toList =
      "DEF main() DO RETURN \"é\"; END".toList :=
    Text.unifyNewlines_eq_self (by decide)
  simp only [parseFile, hnewlines, String.ofList_toList, parseWithin, lex_answering, if_neg (h _)]
  cases bounds.digits <;> rfl

/-- The document of the program that gives a text beyond ASCII, line by line. -/
def answeringDocument : String :=
  "\x7b\n" ++
  "  \"type\": \"Source\",\n" ++
  "  \"fields\": [],\n" ++
  "  \"methods\": [\n" ++
  "    \x7b\n" ++
  "      \"type\": \"Method\",\n" ++
  "      \"name\": \"main\",\n" ++
  "      \"parameters\": [],\n" ++
  "      \"statements\": [\n" ++
  "        \x7b\n" ++
  "          \"type\": \"ReturnStmt\",\n" ++
  "          \"value\": \x7b\n" ++
  "            \"type\": \"Literal\",\n" ++
  "            \"literal_type\": \"String\",\n" ++
  "            \"value\": \"é\"\n" ++
  "          \x7d\n" ++
  "        \x7d\n" ++
  "      ]\n" ++
  "    \x7d\n" ++
  "  ]\n" ++
  "\x7d"

set_option maxRecDepth 10000 in
/-- The document of the program, as it is written to a file. -/
theorem treeText_answering : treeText (answering (.string "é")) = answeringDocument :=
  rfl

/-- A report without an error code is told by what it prints and what it writes. -/
theorem Report.eq_of_ending {r : Report} {output errors : String}
    {written : List (String × String)} (hending : r.ending matches .exit 0)
    (houtput : r.output = output) (herrors : r.errors = errors) (hwritten : r.written = written) :
    r = ⟨.exit 0, output, errors, written⟩ := by
  subst houtput herrors hwritten
  obtain ⟨ending, _, _, _⟩ := r
  split at hending
  · next h => exact congrArg (Report.mk · _ _ _) h
  · cases hending

theorem normalizePath_plc : normalizePath "a.plc" = "a.plc" := by
  rw [normalizePath_eq]
  rfl

/-- The program in a file, its tree in another one, and the runs of both with all that is logged. -/
theorem commandLine_runTree_answering :
    let bounds := { Bounds.unlimited with digits := some 4300 }
    let content := fun _ => FileContent.text "DEF main() DO RETURN \"é\"; END"
    let emitted := commandLine bounds .default ["--emit-ast", "a.plc"] content
    let ran := commandLine bounds .default ["-vv", "-v", "a.plc"] content
    emitted = ⟨.exit 0, "a.plc.ast.json\n", "", [("a.plc.ast.json", answeringDocument)]⟩ ∧
    ran = ⟨.exit 0, "é\n", "",
      [("debug.txt", "define function main/0\ncall main()\nreturn main -> é\n")]⟩ ∧
    commandLine bounds .default ["-vv", "-v", "--ast", "a.plc.ast.json"]
      (emitted.contentAfter content) = ran := by
  intro bounds content emitted ran
  have hsame := normalizePath_treePath "a.plc"
  rw [normalizePath_plc] at hsame
  have hparse : parseFile bounds (content (normalizePath "a.plc")) =
      some (.ok (answering (.string "é"))) :=
    parseFile_answering fun _ => nofun
  obtain ⟨s, hs, hwithin⟩ := exists_text_of_parseFile hparse
  have hemitted : emitted = emissionReport bounds "a.plc" (answering (.string "é")) := by
    have hc : ofArguments? ["--emit-ast", "a.plc"] = some ⟨.emitTree, "a.plc", 0⟩ :=
      ofArguments?_emitTree (by decide : IsPlainPath "a.plc") []
    refine (commandLine_of_text bounds .default hc hs).trans ?_
    simp only [performOn, hwithin, normalizePath_plc]
  have hran : ran = runReport bounds .default 3 (answering (.string "é")) := by
    have hc : ofArguments? ["-vv", "-v", "a.plc"] = some ⟨.run, "a.plc", 3⟩ :=
      ofArguments?_run (by decide : IsPlainPath "a.plc") [1, 0]
    refine (commandLine_of_text bounds .default hc hs).trans ?_
    simp only [performOn, hwithin]
  have h := @commandLine_runTree "a.plc" (treePath "a.plc") (by decide) (by decide)
    (by rw [hsame, normalizePath_plc]) content (fun s hs => by cases hs; decide) bounds .default []
    [1, 0]
  have hverbose : verboseArguments [1, 0] = ["-vv", "-v"] := by decide
  have htree : treePath "a.plc" = "a.plc.ast.json" := by decide
  rw [hverbose, htree] at h
  -- What the theorem says of the third run follows from the exit of the first.
  obtain ⟨n, -, -, hrunTree⟩ := h.1 (congrArg Report.ending hemitted)
  refine ⟨?_, ?_, hrunTree⟩
  · rw [hemitted, ← treeText_answering]
    rfl
  · rw [hran]
    exact Report.eq_of_ending (by decide +kernel) (by decide +kernel) (by decide +kernel)
      (by decide +kernel)

end Blockscript
