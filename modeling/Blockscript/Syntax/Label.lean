import Blockscript.Json.Display

/-!
# Labels

The names of variables, functions and fields, the operators and the tags of
literals are *labels* of a syntax tree. In a tree that comes from a program they
are texts; a tree that comes from a document may hold any other value in their
place, and keeps it.

* `Label.ofJson`, `Label.toJson`: a label as a value of a document;
* `Label.display`: a label as a message shows it;
* `Label.key?`: what tells two labels apart when one is looked up.
-/

namespace Blockscript

/-- A name, an operator or a tag of a syntax tree. -/
inductive Label where
  | text (s : String)
  /-- A value of a document that is no text. -/
  | other (value : Json)
  deriving BEq, Repr, Inhabited

namespace Label

/-- The label that a value of a document stands for. -/
def ofJson : Json → Label
  | .string s => .text s
  | value => .other value

/-- The value that stands for a label in a document. -/
def toJson : Label → Json
  | .text s => .string s
  | .other value => value

/-- A label as a message shows it. -/
def display (l : Label) : String :=
  l.toJson.display

/-- What identifies a label when it is looked up. -/
inductive Key where
  | text (s : String)
  | nothing
  | integer (i : Int)
  | real (r : Json.Real)
  deriving DecidableEq, Repr

/-- The key of a label: equal numbers are one key, and a boolean counts as one or
    zero. Lists and objects have none, and cannot be looked up. -/
def key? : Label → Option Key
  | .text s => some (.text s)
  | .other .null => some .nothing
  | .other (.boolean b) => some (.integer (if b then 1 else 0))
  | .other (.integer i) => some (.integer i)
  | .other (.real r) => some (match r.integer? with
    | some i => .integer i
    | none => .real r)
  | .other (.string s) => some (.text s)
  | .other (.array _) => none
  | .other (.object _) => none

end Label

end Blockscript
