import Blockscript.CommandLine.Arguments
import Blockscript.Evaluation.Program
import Blockscript.Json.Reader
import Blockscript.Syntax.Document
import Blockscript.Text.Newline

/-!
# What a command does

A command reads one file, and may write one: the log of a run, or the document of
a syntax tree. All it does is told by its *report*: what it prints, how it ends,
and what it writes.

The host of a command may be unable to do what a program asks for: it turns integers into texts, and
texts into integers, only up to some number of digits, and it gives up what nests too deep. How deep
that is depends on the host, and differs between parsing a program, writing a tree and reading one,
so that it is left to the *bounds* of a host. Within a run, what nests too deep is a call
(`Limits.depth`).

* `Bounds`: what a host is unable to do;
* `parseWithin`: the tree of a program within the bounds;
* `Report`: what a command prints, writes, and how it ends;
* `Command.perform`: the report of a command, given what is at its path;
* `normalizePath`: the shortest form of a path, by which files are named.
-/

namespace Blockscript

/-! ### Hosts -/

/-- What the host of a command is unable to do. -/
structure Bounds where
  /-- The most digits of an integer that is read from a text or turned into one. -/
  digits : Option Nat
  /-- Whether parsing some tokens goes too deep. -/
  parsingIsTooDeep : List Token → Bool
  /-- The number of characters after which the writing of a tree stops, if it goes too deep; there
      are none if no file is made before. -/
  writingStopsAfter : Node → Option Nat
  /-- Whether reading a tree from some text goes too deep. -/
  readingIsTooDeep : String → Bool

/-- The bounds of a host that is able to do everything. -/
def Bounds.unlimited : Bounds where
  digits := none
  parsingIsTooDeep _ := false
  writingStopsAfter _ := none
  readingIsTooDeep _ := false

/-- Why a host makes no tree of a text. -/
inductive Refusal where
  | source (e : SourceError)
  | tooDeep
  | excessiveDigits
  deriving DecidableEq, Repr

/-- Whether a token is an integer of more than some number of digits. -/
def Token.exceedsDigits (t : Token) (limit : Nat) : Bool :=
  t.kind == .integer && limit < (t.text.toList.filter Text.isDigit).length

/-- The tree of a program within the bounds. An integer is read when the parser comes to its
    token, so that one with too many digits counts if it stands before an error. -/
def parseWithin (bounds : Bounds) (source : String) : Except Refusal Node :=
  let isExcessive := fun (t : Token) => bounds.digits.any t.exceedsDigits
  match lex source with
  | .error e => .error (.source (.lex e))
  | .ok tokens =>
    if bounds.parsingIsTooDeep tokens then .error .tooDeep
    else match parse tokens with
      | .ok program => if tokens.any isExcessive then .error .excessiveDigits else .ok program
      | .error e =>
        if tokens.any fun t => t.offset < e.offset && isExcessive t then .error .excessiveDigits
        else .error (.source (.parse e))

/-! ### Files -/

/-- A path without empty and `.` parts. -/
def normalizePath (path : String) : String :=
  let parts := (path.splitOn "/").filter fun part => part != "" && part != "."
  let slashes := (path.toList.takeWhile (· == '/')).length
  let root := if slashes = 2 then "//" else if 0 < slashes then "/" else ""
  let name := root ++ "/".intercalate parts
  if name.isEmpty then "." else name

/-- What is found at a path. -/
inductive FileContent where
  | missing
  /-- Something that is there but is no file. -/
  | unreadable
  | text (s : String)
  deriving Repr

/-! ### Reports -/

/-- What a command complains about. -/
inductive Complaint where
  | usage
  | missingFile (path : String)
  | source (e : SourceError)
  /-- A file without a syntax tree, with the reason if there is a wording for it. -/
  | document (path : String) (reason : Option String)
  | runtime (e : RuntimeError)
  deriving Repr

/-- The wording of an error at a place of a program. -/
def placedMessage (message : String) (offset : Nat) : String :=
  message ++ " at offset " ++ integerText offset

/-- The text of a complaint. -/
def Complaint.text : Complaint → String
  | .usage => "usage"
  | .missingFile path => "Error: file " ++ path ++ " not found\n"
  | .source (.lex e) => "Lex error: " ++ placedMessage e.message e.offset ++ "\n"
  | .source (.parse e) => "Parse error: " ++ placedMessage e.message e.offset ++ "\n"
  | .document path reason =>
    "Error: invalid AST file " ++ path ++ ": " ++ (reason.map (· ++ "\n")).getD ""
  | .runtime e => "Runtime error: " ++ e.message ++ "\n"

/-- How a command ends: with an exit code, or at something that no complaint is
    made for. -/
inductive Ending where
  | exit (code : Nat)
  | unreadableFile
  | oversizedDecimal
  /-- Something nests too deep for the host. -/
  | tooDeep
  /-- An integer of a program has too many digits for the host. -/
  | excessiveDigits
  /-- Half of a surrogate pair is alone in a text of a document. What is done with a text like
      that is not told here: it is no text of ours. -/
  | loneSurrogate
  | halted (h : Halt)
  deriving Repr

/-- What a command prints, how it ends, and the files it writes. -/
structure Report where
  ending : Ending
  output : String
  errors : String
  written : List (String × String)
  deriving Repr

namespace Report

/-- The report of a command that stops with a complaint. -/
def complaint (c : Complaint) : Report :=
  ⟨.exit (match c with | .usage => 2 | _ => 1), "", c.text, []⟩

/-- The report of a command that stops without a complaint, before it has done anything. -/
def escape (ending : Ending) : Report :=
  ⟨ending, "", "", []⟩

end Report

namespace Command

/-- The file in which a run is logged. -/
def logPath : String := "debug.txt"

/-- The file for the syntax tree of the program in a file. -/
def treePath (path : String) : String :=
  path ++ ".ast.json"

/-- The text of the document of a syntax tree. -/
def treeText (program : Node) : String :=
  Json.toText Json.indented program.toJson

/-- The reason why a document is no syntax tree, if there is a wording for it. -/
def reason? : DocumentError → Option String
  | .notAnObject => some DocumentError.notAnObject.message
  | .unknownType type => some (DocumentError.unknownType type).message
  | .missingMember key => some (DocumentError.missingMember key).message
  | _ => none

/-- The report of a document that is no syntax tree. -/
def documentReport (path : String) : DocumentError → Report
  | .oversizedDecimal => .escape .oversizedDecimal
  | e => .complaint (.document path (reason? e))

/-- The report of a program that is refused. -/
def refusalReport : Refusal → Report
  | .source e => .complaint (.source e)
  | .tooDeep => .escape .tooDeep
  | .excessiveDigits => .escape .excessiveDigits

/-- The report of a file that no document is read from. -/
def unreadableReport (path : String) : Json.Unreadable → Report
  | .malformed => .complaint (.document path none)
  | .loneSurrogate => .escape .loneSurrogate

section Tasks

variable (bounds : Bounds) (limits : Limits)

/-- Runs a program and prints its value. A value that cannot be displayed ends
    the command without a complaint. -/
def runReport (level : Nat) (program : Node) : Report :=
  let log := fun (s : State) => if 0 < level then [(logPath, s.logText)] else []
  let start := State.start .standard Store.standardScope level bounds.digits
  match (Evaluation.runProgram limits program).run start with
  | .ok v s =>
    match (Evaluation.display v).run s with
    | .ok text s => ⟨.exit 0, (s.print text).output, "", log s⟩
    | .error h s => ⟨.halted h, s.output, "", log s⟩
  | .error (.error e) s => ⟨.exit 1, s.output, (Complaint.runtime e).text, log s⟩
  | .error h s => ⟨.halted h, s.output, "", log s⟩

/-- Writes the tree of a program. A file that the host has begun to write stays as it is when
    it stops. -/
def emissionReport (path : String) (program : Node) : Report :=
  match bounds.writingStopsAfter program with
  | none => ⟨.exit 0, treePath path ++ "\n", "", [(treePath path, treeText program)]⟩
  | some 0 => .escape .tooDeep
  | some n =>
    ⟨.tooDeep, "", "", [(treePath path, String.ofList ((treeText program).toList.take n))]⟩

/-- The report of a task on the text of a file. -/
def performOn (c : Command) (path text : String) : Report :=
  match c.task with
  | .run =>
    match parseWithin bounds text with
    | .ok program => runReport bounds limits c.level program
    | .error r => refusalReport r
  | .emitTree =>
    match parseWithin bounds text with
    | .ok program => emissionReport bounds path program
    | .error r => refusalReport r
  | .runTree =>
    if bounds.readingIsTooDeep text then .escape .tooDeep
    else match Json.read bounds.digits text.toList with
      | .error e => unreadableReport path e
      | .ok document =>
        match Node.ofJson document with
        | .ok program => runReport bounds limits c.level program
        | .error e => documentReport path e

/-- The report of a command, given what is at its path. Lines of a file may end in
    any way. -/
def perform (c : Command) (content : FileContent) : Report :=
  let path := normalizePath c.path
  match content with
  | .missing => .complaint (.missingFile path)
  | .unreadable => .escape .unreadableFile
  | .text s => performOn bounds limits c path (String.ofList (Text.unifyNewlines s.toList))

end Tasks

end Command

/-- The report of a command line, given what is at each path. -/
def commandLine (bounds : Bounds) (limits : Limits) (arguments : List String)
    (content : String → FileContent) : Report :=
  match Command.ofArguments? arguments with
  | none => .complaint .usage
  | some c => c.perform bounds limits (content (normalizePath c.path))

end Blockscript
