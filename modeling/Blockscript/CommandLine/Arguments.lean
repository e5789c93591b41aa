import Blockscript.Text.Digit

/-!
# Command-line arguments

The command line names one file and says what to do with it: run it as a program,
write the syntax tree of the program in it, or run the syntax tree in it. Options
may stand anywhere before `--`, and long ones may be shortened as long as they
are unambiguous.

    [-v]... FILE                run a program
    [-v]... --emit-ast FILE     write the syntax tree of a program
    [-v]... --ast FILE          run a syntax tree

* `Command`: what a command line asks for;
* `Command.ofArguments?`: the command of some arguments, if they make sense.
-/

namespace Blockscript

/-- What to do with a file. -/
inductive Command.Task where
  | run
  | emitTree
  | runTree
  deriving DecidableEq, Repr

/-- A task, the file to do it with, and how much to log meanwhile. -/
structure Command where
  task : Command.Task
  path : String
  level : Nat
  deriving DecidableEq, Repr

namespace Command

/-- The options. -/
inductive Flag where
  | help
  | verbose
  | emitTree
  | runTree
  deriving DecidableEq, Repr

/-- The options, by their names. -/
def flags : List (String × Flag) :=
  [("-h", .help), ("--help", .help), ("-v", .verbose), ("--emit-ast", .emitTree),
   ("--ast", .runTree)]

/-- A single argument: a plain one, the separator after which all are plain, or an
    option, maybe with a text attached to it. -/
inductive Piece where
  | plain (text : String)
  | separator
  | flag (f : Flag) (attached : Option String)
  deriving Repr

/-- Splits a text at its first equals sign. -/
def splitEquals (s : List Char) : List Char × Option (List Char) :=
  match s.dropWhile (· != '=') with
  | [] => (s, none)
  | _ :: rest => (s.takeWhile (· != '='), some rest)

/-- The options whose name starts with a text. -/
def flagsFrom (start : List Char) : List Flag :=
  (flags.filter fun f => start.isPrefixOf f.1.toList).map (·.2)

/-- Whether a text is a negative number, which no option is. -/
def isNegativeNumber : List Char → Bool
  | '-' :: rest =>
    let isNumeral := fun (c : Char) => (Text.digitValue? c).isSome
    match rest.dropWhile isNumeral with
    | [] => !rest.isEmpty
    | '.' :: fraction => !fraction.isEmpty && fraction.all isNumeral
    | _ => false
  | _ => false

/-- An argument that starts with a hyphen and is not the name of an option. What
    may be a number or holds a blank is a plain one; what might be several options
    or none is refused. -/
def pieceOfHyphen? (s : List Char) : Option Piece :=
  let (name, value) := splitEquals s
  let matching := match s with
    | '-' :: '-' :: _ => flagsFrom name
    | _ => []
  let exact := if value.isSome then flags.lookup (String.ofList name) else none
  match exact, matching, flags.lookup (String.ofList (s.take 2)) with
  | some f, _, _ => some (.flag f (value.map String.ofList))
  | none, [f], _ => some (.flag f (value.map String.ofList))
  | none, [], some f => some (.flag f (String.ofList (s.drop 2)))
  | none, [], none =>
    if isNegativeNumber s || s.contains ' ' then some (.plain (String.ofList s)) else none
  | none, _ :: _ :: _, _ => none

/-- What an argument is by itself. -/
def piece? (argument : String) : Option Piece :=
  match flags.lookup argument with
  | some f => some (.flag f none)
  | none =>
    match argument.toList with
    | '-' :: c :: rest => pieceOfHyphen? ('-' :: c :: rest)
    | _ => some (.plain argument)

/-- What the arguments are, one by one. -/
def pieces? : List String → Option (List Piece)
  | [] => some []
  | "--" :: rest => some (.separator :: rest.map .plain)
  | argument :: rest => do
    let p ← piece? argument
    let ps ← pieces? rest
    return p :: ps

/-- What the arguments read so far say. -/
structure Reading where
  level : Nat := 0
  emitTree : Option String := none
  runTree : Option String := none
  program : Option String := none
  /-- Whether the place of the program is taken. -/
  isProgramTaken : Bool := false
  deriving Repr

/-- Takes a file to write or run the syntax tree of. There cannot be both. -/
def Reading.take? (r : Reading) (f : Flag) (path : String) : Option Reading :=
  match f with
  | .emitTree => if r.runTree.isSome then none else some { r with emitTree := some path }
  | .runTree => if r.emitTree.isSome then none else some { r with runTree := some path }
  | _ => none

/-- The number of times that a short option is given, together with the letters
    attached to it. -/
def verbosity? : Option String → Option Nat
  | none => some 1
  | some letters =>
    if letters.isEmpty || letters.toList.any (· != 'v') then none else some (1 + letters.length)

/-- Reads the arguments from left to right. The value of an option is attached to
    it or is the plain argument that follows. -/
def read? : Reading → List Piece → Option Reading
  | r, [] => some r
  | r, .flag .verbose attached :: rest => do
    let n ← verbosity? attached
    read? { r with level := r.level + n } rest
  | _, .flag .help _ :: _ => none
  | r, .flag f (some path) :: rest => do
    read? (← r.take? f path) rest
  | r, .flag f none :: .plain path :: rest => do
    read? (← r.take? f path) rest
  | _, .flag _ none :: _ => none
  | r, .plain path :: .separator :: rest =>
    if r.isProgramTaken then none
    else read? { r with program := some path, isProgramTaken := true } rest
  | r, .plain path :: rest =>
    if r.isProgramTaken then none
    else read? { r with program := some path, isProgramTaken := true } rest
  | r, .separator :: .plain path :: rest =>
    if r.isProgramTaken then none
    else read? { r with program := some path, isProgramTaken := true } rest
  | r, .separator :: rest =>
    if r.isProgramTaken then none else read? { r with isProgramTaken := true } rest

/-- A path that was given and is not empty. -/
def given? (path : Option String) : Option String :=
  path.filter fun p => !p.isEmpty

/-- The command of some arguments, if they make sense. An empty path counts as
    none. -/
def ofArguments? (arguments : List String) : Option Command := do
  let r ← read? {} (← pieces? arguments)
  match given? r.emitTree, given? r.runTree, given? r.program with
  | some path, _, _ => return ⟨.emitTree, path, r.level⟩
  | none, some path, _ => return ⟨.runTree, path, r.level⟩
  | none, none, some path => return ⟨.run, path, r.level⟩
  | none, none, none => none

end Command

end Blockscript
