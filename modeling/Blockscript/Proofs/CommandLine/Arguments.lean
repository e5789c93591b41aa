import Blockscript.CommandLine.Arguments

/-!
# Command lines of the three tasks

The usual command lines start with options `-v`, each of which may be given several
times in one argument, and name one file. A file whose name could be taken for an option
is not named like that.

* `Command.verboseArguments`, `Command.verbosity`: options `-v`, and what they add up to;
* `Command.ofArguments?_run`, `Command.ofArguments?_emitTree`,
  `Command.ofArguments?_runTree`: the command of the command line of a task.
-/

namespace Blockscript.Command

/-- A path that is given as an argument of its own, and is no option. -/
def IsPlainPath (path : String) : Prop :=
  path ≠ "" ∧ path.toList.head? ≠ some '-'

instance (path : String) : Decidable (IsPlainPath path) :=
  inferInstanceAs (Decidable (_ ∧ _))

/-- An option `-v` with more letters `v` attached to it. -/
def verboseArgument (more : Nat) : String :=
  String.ofList ('-' :: 'v' :: List.replicate more 'v')

/-- Options `-v`, each with some more letters. -/
def verboseArguments (mores : List Nat) : List String :=
  mores.map verboseArgument

/-- How much options `-v` ask to log: as much as there are letters. -/
def verbosity (mores : List Nat) : Nat :=
  mores.foldr (fun more n => more + 1 + n) 0

/-! ### Single arguments -/

theorem lookup_flags_eq_none {s : List Char} (h : ∀ f ∈ flags, s ≠ f.1.toList) :
    flags.lookup (String.ofList s) = none := by
  refine List.lookup_eq_none_iff.2 fun f hf => bne_iff_ne.2 fun heq => h f hf ?_
  rw [← heq, String.toList_ofList]

/-- A plain path is a plain argument. -/
theorem piece?_of_isPlainPath {path : String} (h : IsPlainPath path) :
    piece? path = some (.plain path) := by
  have hflags : ∀ f ∈ flags, f.1.toList.head? = some '-' := by decide
  have hlookup : flags.lookup path = none := by
    rw [← String.ofList_toList (s := path)]
    refine lookup_flags_eq_none fun f hf heq => h.2 ?_
    rw [heq]
    exact hflags f hf
  simp only [piece?, hlookup]
  split
  · next heq =>
    rw [IsPlainPath, heq] at h
    exact absurd rfl h.2
  · rfl

/-- What is attached to an option `-v`. -/
def attachedLetters (more : Nat) : Option String :=
  if more = 0 then none else some (String.ofList (List.replicate more 'v'))

/-- A cluster of flags counts each letter. -/
theorem verbosity?_attachedLetters (more : Nat) :
    verbosity? (attachedLetters more) = some (more + 1) := by
  cases more with
  | zero => rfl
  | succ more =>
    have hletters : (List.replicate (more + 1) 'v').any (· != 'v') = false := by
      simp
    have hne : (String.ofList (List.replicate (more + 1) 'v')).isEmpty = false := by
      simp [String.isEmpty]
    rw [attachedLetters, if_neg (Nat.succ_ne_zero more), verbosity?]
    simp only [hne, String.toList_ofList, hletters]
    simp
    omega

/-- An option `-v` and its letters are one argument. -/
theorem piece?_verboseArgument (more : Nat) :
    piece? (verboseArgument more) = some (.flag .verbose (attachedLetters more)) := by
  cases more with
  | zero => rfl
  | succ more =>
    have hflags : ∀ f ∈ flags, f.1.toList.take 3 ≠ ['-', 'v', 'v'] := by decide
    rw [verboseArgument]
    have hlookup : flags.lookup (String.ofList ('-' :: 'v' :: List.replicate (more + 1) 'v')) =
        none := by
      refine lookup_flags_eq_none fun f hf heq => hflags f hf ?_
      rw [← heq]
      rfl
    have hequals : splitEquals ('-' :: 'v' :: List.replicate (more + 1) 'v') =
        ('-' :: 'v' :: List.replicate (more + 1) 'v', none) := by
      have hdrop : ('-' :: 'v' :: List.replicate (more + 1) 'v').dropWhile (· != '=') = [] := by
        simp
      rw [splitEquals, hdrop]
    simp only [piece?, hlookup, String.toList_ofList, pieceOfHyphen?, hequals]
    rfl

/-! ### Command lines -/

/-- The arguments are read one by one, up to the one that ends the flags. -/
theorem pieces?_cons {argument : String} {rest : List String} {p : Piece}
    (hp : piece? argument = some p) (hne : argument ≠ "--") :
    pieces? (argument :: rest) = (pieces? rest).map (p :: ·) := by
  rw [pieces?.eq_3 _ _ hne, hp]
  cases pieces? rest <;> rfl

theorem pieces?_verboseArguments (mores : List Nat) (rest : List String) :
    pieces? (verboseArguments mores ++ rest) =
      (pieces? rest).map (mores.map (fun n => .flag .verbose (attachedLetters n)) ++ ·) := by
  induction mores with
  | nil => simp [verboseArguments]
  | cons more mores ih =>
    have hne : verboseArgument more ≠ "--" := by
      intro heq
      have := congrArg String.toList heq
      rw [verboseArgument, String.toList_ofList] at this
      exact absurd (List.cons.inj (List.cons.inj this).2).1 (by decide)
    rw [verboseArguments, List.map_cons, List.cons_append,
      pieces?_cons (piece?_verboseArgument more) hne]
    rw [verboseArguments] at ih
    rw [ih, Option.map_map]
    rfl

/-- Options `-v` add up. -/
theorem read?_verbose (r : Reading) (mores : List Nat) (rest : List Piece) :
    read? r (mores.map (fun n => .flag .verbose (attachedLetters n)) ++ rest) =
      read? { r with level := r.level + verbosity mores } rest := by
  induction mores generalizing r with
  | nil => rfl
  | cons more mores ih =>
    rw [List.map_cons, List.cons_append, read?, verbosity?_attachedLetters]
    simp only [Option.bind_eq_bind, Option.bind_some, ih, verbosity, List.foldr_cons, Nat.add_assoc]

section Tasks

variable {path : String} (h : IsPlainPath path) (mores : List Nat)

include h

theorem given?_eq : given? (some path) = some path := by
  rw [given?, Option.filter_some, if_pos]
  simp [h.1]

theorem pieces?_path : pieces? [path] = some [.plain path] := by
  have hne : path ≠ "--" := by
    rintro rfl
    exact h.2 rfl
  rw [pieces?_cons (piece?_of_isPlainPath h) hne]
  rfl

/-- A flag and a path after it are read as a command. -/
theorem pieces?_flag_path {argument : String} {f : Flag} (hf : flags.lookup argument = some f)
    (hne : argument ≠ "--") :
    pieces? [argument, path] = some [.flag f none, .plain path] := by
  have hp : piece? argument = some (.flag f none) := by rw [piece?, hf]
  rw [pieces?_cons hp hne, pieces?_path h]
  rfl

/-- Running a program. -/
theorem ofArguments?_run :
    ofArguments? (verboseArguments mores ++ [path]) = some ⟨.run, path, verbosity mores⟩ := by
  rw [ofArguments?, pieces?_verboseArguments, pieces?_path h]
  simp only [Option.map_some, Option.bind_eq_bind, Option.bind_some, read?_verbose, Nat.zero_add]
  simp only [read?, Bool.false_eq_true, if_false, Option.bind_some, given?_eq h]
  rfl

/-- Writing the syntax tree of a program. -/
theorem ofArguments?_emitTree :
    ofArguments? (verboseArguments mores ++ ["--emit-ast", path]) =
      some ⟨.emitTree, path, verbosity mores⟩ := by
  rw [ofArguments?, pieces?_verboseArguments, pieces?_flag_path h rfl (by decide)]
  simp only [Option.map_some, Option.bind_eq_bind, Option.bind_some, read?_verbose, Nat.zero_add]
  simp only [read?, Reading.take?, Option.isSome_none, Bool.false_eq_true, if_false,
    Option.bind_eq_bind, Option.bind_some, given?_eq h]
  rfl

/-- Running the syntax tree in a file. -/
theorem ofArguments?_runTree :
    ofArguments? (verboseArguments mores ++ ["--ast", path]) =
      some ⟨.runTree, path, verbosity mores⟩ := by
  rw [ofArguments?, pieces?_verboseArguments, pieces?_flag_path h rfl (by decide)]
  simp only [Option.map_some, Option.bind_eq_bind, Option.bind_some, read?_verbose, Nat.zero_add]
  simp only [read?, Reading.take?, Option.isSome_none, Bool.false_eq_true, if_false,
    Option.bind_eq_bind, Option.bind_some, given?_eq h]
  rfl

end Tasks

end Blockscript.Command
