import Blockscript.Json.Real

/-!
# JSON values

The data model of JSON texts. Integers are kept apart from other numbers, and
the members of an object keep the order in which they are written.

* `Json.member?`: the value of a key of an object;
* `Json.put`: an object's members after one more is written: a repeated key
  keeps its first place and takes the last value;
* `Json.isTruthy`: whether a value counts as true where a boolean is wanted;
* `Json.items?`: the values met when going through a list, a text or an object.
-/

namespace Blockscript

/-- A value of a JSON text. -/
inductive Json where
  | null
  | boolean (b : Bool)
  | integer (i : Int)
  | real (r : Json.Real)
  | string (s : String)
  | array (items : List Json)
  | object (members : List (String × Json))
  deriving BEq, Repr, Inhabited

namespace Json

/-- The value of a key among the members of an object. -/
def member? (members : List (String × Json)) (key : String) : Option Json :=
  members.lookup key

/-- Adds a member. A key that is there already keeps its place and takes the new
    value. -/
def put (key : String) (value : Json) : List (String × Json) → List (String × Json)
  | [] => [(key, value)]
  | (k, v) :: rest => if k = key then (k, value) :: rest else (k, v) :: put key value rest

/-- An object with the given members, written one after the other. -/
def ofMembers (members : List (String × Json)) : Json :=
  .object (members.foldl (fun ms m => put m.1 m.2 ms) [])

/-- Whether a value counts as true: nothing, zero and empty values do not. -/
def isTruthy : Json → Bool
  | .null => false
  | .boolean b => b
  | .integer i => i != 0
  | .real (.finite _ significand _) => significand != 0
  | .real _ => true
  | .string s => !s.isEmpty
  | .array items => !items.isEmpty
  | .object members => !members.isEmpty

/-- The values met when going through a value: the items of a list, the
    characters of a text, the keys of an object. Other values have none. -/
def items? : Json → Option (List Json)
  | .array items => some items
  | .string s => some (s.toList.map fun c => .string (String.singleton c))
  | .object members => some (members.map fun m => .string m.1)
  | _ => none

/-- The integer that a value denotes where a number is wanted: a boolean counts
    as one or zero. -/
def integer? : Json → Option Int
  | .boolean b => some (if b then 1 else 0)
  | .integer i => some i
  | _ => none

end Json

end Blockscript
