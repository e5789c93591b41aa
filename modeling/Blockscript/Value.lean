import Blockscript.Syntax.Node

/-!
# Values

A value belongs to one of eight *kinds*, and operators never convert between
them. Functions and objects are values by reference: two of them are equal only
if they are the same one.

A literal of a document may hold what no literal of a program can: a decimal that
is no number, a character that is no text, or what is no value of the language at
all. Such a *foreign* value can be passed around, but has no kind, and every
operation that asks for its kind fails.

* `Value`: the values, foreign ones included;
* `Value.ofPayload`: the value of a literal.
-/

namespace Blockscript

/-- The kinds of values. -/
inductive Kind where
  | nil
  | boolean
  | integer
  | decimal
  | character
  | string
  | function
  | object
  deriving DecidableEq, Repr

/-- The name of a kind. -/
def Kind.name : Kind → String
  | .nil => "Nil"
  | .boolean => "Boolean"
  | .integer => "Integer"
  | .decimal => "Decimal"
  | .character => "Character"
  | .string => "String"
  | .function => "Function"
  | .object => "Object"

/-- All kinds. -/
def Kind.all : List Kind :=
  [.nil, .boolean, .integer, .decimal, .character, .string, .function, .object]

/-- The kind of a name. -/
def Kind.ofName? (name : String) : Option Kind :=
  Kind.all.find? fun k => k.name == name

/-- The place of a function in the store. -/
abbrev FunctionId := Nat

/-- The place of an object in the store. -/
abbrev ObjectId := Nat

/-- A value of a running program. -/
inductive Value where
  | nil
  | boolean (b : Bool)
  | integer (i : Int)
  | decimal (d : Decimal)
  /-- A decimal that is no number. -/
  | special (s : Special)
  | character (s : String)
  | string (s : String)
  | function (id : FunctionId)
  | object (id : ObjectId)
  /-- A value of a document that is none of the language: `null`, a real number,
      a list or an object. -/
  | foreign (value : Json)
  /-- A character literal that holds something other than a text. -/
  | foreignCharacter (value : Json)
  deriving Repr, Inhabited

namespace Value

/-- The value that a value of a document stands for. -/
def ofJson : Json → Value
  | .boolean b => .boolean b
  | .integer i => .integer i
  | .string s => .string s
  | value => .foreign value

/-- The character that a value of a document stands for. -/
def characterOfJson : Json → Value
  | .string s => .character s
  | value => .foreignCharacter value

/-- The value of a literal. Its payload decides, except that a literal tagged
    `Nil` is always `NIL`, and one tagged `Character` is a character. -/
def ofPayload (tag : Label) (payload : Payload) : Value :=
  match payload with
  | .decimal d => .decimal d
  | .special s => .special s
  | .json value =>
    match tag with
    | .text "Nil" => .nil
    | .text "Character" => characterOfJson value
    | _ => ofJson value

/-- The name of the type of a foreign value. -/
def foreignTypeName : Json → String
  | .null => "NoneType"
  | .boolean _ => "bool"
  | .integer _ => "int"
  | .real _ => "float"
  | .string _ => "str"
  | .array _ => "list"
  | .object _ => "dict"

end Value

end Blockscript
