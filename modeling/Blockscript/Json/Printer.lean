import Blockscript.Json.Basic
import Blockscript.Text.Integer

/-!
# Writing JSON texts

A *layout* says how the items of lists and objects are set apart, and whether
characters beyond ASCII are escaped; the rest is fixed. Reading a written text
gives the value back.

* `Json.write`: a value in a layout;
* `Json.indented`: the layout of files, two blanks a level;
* `Json.compact`: the layout of a single line of ASCII.
-/

namespace Blockscript.Json

open Text

/-- How the parts of a JSON text are set apart. -/
structure Layout where
  /-- What precedes an item, or the closing bracket, at a depth of nesting. -/
  lineBreak : Nat → List Char
  /-- What stands between a key and its value. -/
  colon : List Char
  /-- Whether a quoted text keeps to ASCII. -/
  asciiOnly : Bool

/-- Every item on a line of its own, two blanks further in than its list. -/
def indented : Layout where
  lineBreak depth := '\n' :: List.replicate (2 * depth) ' '
  colon := [':', ' ']
  asciiOnly := false

/-- Everything on one line, in ASCII. -/
def compact : Layout where
  lineBreak _ := []
  colon := [':']
  asciiOnly := true

/-- A hexadecimal digit. -/
def hexDigit (n : Nat) : Char :=
  Nat.digitChar (n % 16)

/-- A code unit as an escape of four hexadecimal digits. -/
def unitEscape (n : Nat) : List Char :=
  ['\\', 'u', hexDigit (n / 4096), hexDigit (n / 256), hexDigit (n / 16), hexDigit n]

/-- A character inside quotes. Control characters, the quote and the backslash
    are escaped. -/
def quoteChar (asciiOnly : Bool) (c : Char) : List Char :=
  match c with
  | '"' => ['\\', '"']
  | '\\' => ['\\', '\\']
  | '\n' => ['\\', 'n']
  | '\r' => ['\\', 'r']
  | '\t' => ['\\', 't']
  | '\x08' => ['\\', 'b']
  | '\x0c' => ['\\', 'f']
  | c =>
    if c.toNat < 0x20 ∨ (asciiOnly ∧ 0x7F ≤ c.toNat ∧ c.toNat < 0x10000) then
      unitEscape c.toNat
    else if asciiOnly ∧ 0x10000 ≤ c.toNat then
      unitEscape (0xD800 + (c.toNat - 0x10000) / 1024) ++
        unitEscape (0xDC00 + (c.toNat - 0x10000) % 1024)
    else
      [c]

/-- A text in quotes. -/
def quote (asciiOnly : Bool) (s : String) : List Char :=
  '"' :: s.toList.flatMap (quoteChar asciiOnly) ++ ['"']

mutual

/-- A value at a depth of nesting. Empty lists and objects hold nothing between
    their brackets. -/
def write (layout : Layout) (depth : Nat) : Json → List Char
  | .null => "null".toList
  | .boolean true => "true".toList
  | .boolean false => "false".toList
  | .integer i => writeInteger i
  | .real r => r.text
  | .string s => quote layout.asciiOnly s
  | .array [] => ['[', ']']
  | .array (item :: items) =>
    '[' :: layout.lineBreak (depth + 1) ++ write layout (depth + 1) item ++
      writeItems layout (depth + 1) items ++ layout.lineBreak depth ++ [']']
  | .object [] => ['\x7b', '\x7d']
  | .object (member :: members) =>
    '\x7b' :: layout.lineBreak (depth + 1) ++ writeMember layout (depth + 1) member ++
      writeMembers layout (depth + 1) members ++ layout.lineBreak depth ++ ['\x7d']

/-- The items of a list after its first one. -/
def writeItems (layout : Layout) (depth : Nat) : List Json → List Char
  | [] => []
  | item :: items =>
    ',' :: layout.lineBreak depth ++ write layout depth item ++ writeItems layout depth items

/-- A key with its value. -/
def writeMember (layout : Layout) (depth : Nat) : String × Json → List Char
  | (key, value) => quote layout.asciiOnly key ++ layout.colon ++ write layout depth value

/-- The members of an object after its first one. -/
def writeMembers (layout : Layout) (depth : Nat) : List (String × Json) → List Char
  | [] => []
  | member :: members =>
    ',' :: layout.lineBreak depth ++ writeMember layout depth member ++
      writeMembers layout depth members

end

/-- A value as a text in a layout. -/
def toText (layout : Layout) (value : Json) : String :=
  String.ofList (write layout 0 value)

end Blockscript.Json
