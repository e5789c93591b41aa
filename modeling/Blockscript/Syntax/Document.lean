import Blockscript.Syntax.Node

/-!
# Syntax trees as documents

A syntax tree is kept in a JSON document: every node is an object that names its
kind under `type`, and no node is `null`. A decimal is written as text, so that no
digit is lost. Reading is liberal: members may come in any order and others are
ignored, some may be left out, and whatever can be gone through may stand for a
list.

* `Node.toJson`: the document of a tree;
* `Node.ofJson`: the tree of a document. It fails at the first fault met when the
  members of every node are read in the order in which they are written.
-/

namespace Blockscript

/-- The ways in which a document fails to be a syntax tree. -/
inductive DocumentError where
  /-- A node is neither an object nor `null`. -/
  | notAnObject
  | unknownType (type : Json)
  | missingMember (key : String)
  /-- A list is something that cannot be gone through. -/
  | notAList
  /-- A decimal is a text that denotes none, or out of range. -/
  | unreadableDecimal
  /-- A decimal is a list, but not of a sign, digits and an exponent. -/
  | malformedDecimal
  /-- A decimal is a list of numbers, one of which is too large. -/
  | oversizedDecimal
  /-- A decimal is a value that denotes no number at all. -/
  | notADecimal
  deriving Repr

/-- The wording of an error. -/
def DocumentError.message : DocumentError → String
  | .notAnObject => "Invalid AST object"
  | .unknownType type => "Unknown AST node type: " ++ type.display
  | .missingMember key => String.ofList (Json.literalText key.toList)
  | .notAList => "not a list"
  | .unreadableDecimal => "unreadable decimal"
  | .malformedDecimal => "malformed decimal"
  | .oversizedDecimal => "oversized decimal"
  | .notADecimal => "not a decimal"

namespace Node

/-- The document of what a literal holds. -/
def payloadToJson : Payload → Json
  | .decimal d => .string (String.ofList d.scientific)
  | .special s => .string (String.ofList s.text)
  | .json value => value

/-- An object of a given type with the other members that follow. -/
def typed (type : String) (members : List (String × Json)) : Json :=
  .object (("type", .string type) :: members)

mutual

/-- The document of a syntax tree. -/
def toJson : Node → Json
  | .absent => .null
  | .program fields methods =>
    typed "Source" [("fields", .array (toJsons fields)), ("methods", .array (toJsons methods))]
  | .field name isConstant initializer =>
    typed "Field" [("name", name.toJson), ("is_constant", .boolean isConstant),
      ("initializer", toJson initializer)]
  | .method name parameters statements =>
    typed "Method" [("name", name.toJson), ("parameters", .array (parameters.map Label.toJson)),
      ("statements", .array (toJsons statements))]
  | .discard expression => typed "ExprStmt" [("expression", toJson expression)]
  | .declaration name initializer =>
    typed "DeclStmt" [("name", name.toJson), ("initializer", toJson initializer)]
  | .assignment receiver value =>
    typed "AssignStmt" [("receiver", toJson receiver), ("value", toJson value)]
  | .choice condition thenStatements elseStatements =>
    typed "IfStmt" [("condition", toJson condition),
      ("then_statements", .array (toJsons thenStatements)),
      ("else_statements", .array (toJsons elseStatements))]
  | .forLoop initializer condition increment statements =>
    typed "ForStmt" [("initializer", toJson initializer), ("condition", toJson condition),
      ("increment", toJson increment), ("statements", .array (toJsons statements))]
  | .whileLoop condition statements =>
    typed "WhileStmt" [("condition", toJson condition), ("statements", .array (toJsons statements))]
  | .answer value => typed "ReturnStmt" [("value", toJson value)]
  | .literal tag payload =>
    typed "Literal" [("literal_type", tag.toJson), ("value", payloadToJson payload)]
  | .group expression => typed "Group" [("expression", toJson expression)]
  | .binary operator left right =>
    typed "BinaryOp" [("operator", operator.toJson), ("left", toJson left), ("right", toJson right)]
  | .access receiver name =>
    typed "Access" [("receiver", toJson receiver), ("name", name.toJson)]
  | .call receiver name arguments =>
    typed "Call" [("receiver", toJson receiver), ("name", name.toJson),
      ("arguments", .array (toJsons arguments))]

/-- The documents of a list of trees. -/
def toJsons : List Node → List Json
  | [] => []
  | n :: ns => toJson n :: toJsons ns

end

/-! ### Reading -/

/-- The integer that a part of a decimal denotes. It must not take more than 64
    bits. -/
def decimalPart (part : Json) : Except DocumentError Int :=
  match part.integer? with
  | some i =>
    if -0x8000000000000000 ≤ i ∧ i < 0x8000000000000000 then .ok i else .error .oversizedDecimal
  | none => .error .malformedDecimal

/-- The digit that a part of a decimal denotes. -/
def decimalDigit (part : Json) : Except DocumentError Nat := do
  let i ← decimalPart part
  if 0 ≤ i ∧ i ≤ 9 then return i.toNat else throw .malformedDecimal

/-- The decimal of a sign, given the number that its digits make up, by what stands for
    its exponent: an integer, or a letter for what is no number. -/
def decimalOfExponent (negative : Bool) (exponent : Json) :
    Except DocumentError (Nat → Payload) :=
  match exponent with
  | .string "F" => .ok fun _ => .special (.infinite negative)
  | .string "n" => .ok fun digits => .special (.undefined false negative digits)
  | .string "N" => .ok fun digits => .special (.undefined true negative digits)
  | .string _ => .error .malformedDecimal
  | exponent => do
    let e ← decimalPart exponent
    return fun digits => .decimal ⟨negative, digits, e⟩

/-- The decimal of a sign, which is one or zero, of digits and an exponent. -/
def decimalOfParts (sign digits exponent : Json) : Except DocumentError Payload := do
  let s ← decimalPart sign
  if s ≠ 0 ∧ s ≠ 1 then
    throw .malformedDecimal
  let ofDigits ← decimalOfExponent (s == 1) exponent
  match digits with
  | .array items => return ofDigits (Text.digitsValue (← items.mapM decimalDigit))
  | _ => throw .malformedDecimal

/-- The decimal that a text denotes. -/
def decimalOfText (s : List Char) : Except DocumentError Payload :=
  match Decimal.read? s, Special.read? s with
  | some d, _ => .ok (.decimal d)
  | none, some x => .ok (.special x)
  | none, none => .error .unreadableDecimal

/-- The decimal that a value denotes: a text, any number, or a list of a sign, digits and an
    exponent. -/
def anyDecimalOfJson : Json → Except DocumentError Payload
  | .string s => decimalOfText s.toList
  | .boolean b => .ok (.decimal (.ofSigned (if b then 1 else 0) 0))
  | .integer i => .ok (.decimal (.ofSigned i 0))
  | .real (.finite negative significand exponent) =>
    .ok (.decimal (Json.Real.exact negative significand exponent))
  | .real (.infinite negative) => .ok (.special (.infinite negative))
  | .real .undefined => .ok (.special (.undefined false false 0))
  | .array [sign, digits, exponent] => decimalOfParts sign digits exponent
  | .array _ => .error .malformedDecimal
  | .null => .error .notADecimal
  | .object _ => .error .notADecimal

/-- A decimal in range, or one that is no number. -/
def isDecimalInRange : Payload → Bool
  | .decimal d => d.inRange
  | .special _ => true
  | .json _ => false

/-- The decimal that a value denotes, which has to be in range. -/
def decimalOfJson (value : Json) : Except DocumentError Payload := do
  let payload ← anyDecimalOfJson value
  if isDecimalInRange payload then return payload else throw .unreadableDecimal

/-- A member of an object in the roles it may have to play: as it is, as a node,
    and as a list of nodes. -/
structure Member where
  value : Json
  node : Except DocumentError Node
  nodes : Except DocumentError (List Node)

/-- The members of an object, by their keys. -/
abbrev Members := List (String × Member)

namespace Members

/-- A member that has to be there. -/
def required (ms : Members) (key : String) : Except DocumentError Member :=
  match ms.lookup key with
  | some m => .ok m
  | none => .error (.missingMember key)

/-- The value of a member that has to be there. -/
def value (ms : Members) (key : String) : Except DocumentError Json := do
  return (← ms.required key).value

/-- The label under a key. -/
def label (ms : Members) (key : String) : Except DocumentError Label := do
  return .ofJson (← ms.value key)

/-- The labels under a key. -/
def labels (ms : Members) (key : String) : Except DocumentError (List Label) := do
  match (← ms.value key).items? with
  | some items => return items.map .ofJson
  | none => throw .notAList

/-- The node under a key. -/
def node (ms : Members) (key : String) : Except DocumentError Node := do
  (← ms.required key).node

/-- The list of nodes under a key. -/
def nodes (ms : Members) (key : String) : Except DocumentError (List Node) := do
  (← ms.required key).nodes

/-- The node under a key that may be missing. -/
def nodeOrAbsent (ms : Members) (key : String) : Except DocumentError Node :=
  match ms.lookup key with
  | some m => m.node
  | none => .ok .absent

/-- The list of nodes under a key that may be missing. -/
def nodesOrNone (ms : Members) (key : String) : Except DocumentError (List Node) :=
  match ms.lookup key with
  | some m => m.nodes
  | none => .ok []

/-- Whether the value under a key counts as true. -/
def flag (ms : Members) (key : String) : Bool :=
  (ms.lookup key).any fun m => m.value.isTruthy

/-- The literal of some members. -/
def literal (ms : Members) : Except DocumentError Node := do
  let value ← ms.value "value"
  let tag ← ms.label "literal_type"
  match tag with
  | .text "Decimal" => return .literal tag (← decimalOfJson value)
  | _ => return .literal tag (.json value)

/-- The node of a kind that has some members. -/
def toNode (ms : Members) (type : String) : Except DocumentError Node :=
  match type with
  | "Source" => return .program (← ms.nodes "fields") (← ms.nodes "methods")
  | "Field" =>
    return .field (← ms.label "name") (ms.flag "is_constant") (← ms.nodeOrAbsent "initializer")
  | "Method" =>
    return .method (← ms.label "name") (← ms.labels "parameters") (← ms.nodes "statements")
  | "ExprStmt" => return .discard (← ms.node "expression")
  | "DeclStmt" => return .declaration (← ms.label "name") (← ms.nodeOrAbsent "initializer")
  | "AssignStmt" => return .assignment (← ms.node "receiver") (← ms.node "value")
  | "IfStmt" =>
    return .choice (← ms.node "condition") (← ms.nodes "then_statements")
      (← ms.nodesOrNone "else_statements")
  | "ForStmt" =>
    return .forLoop (← ms.nodeOrAbsent "initializer") (← ms.node "condition")
      (← ms.nodeOrAbsent "increment") (← ms.nodes "statements")
  | "WhileStmt" => return .whileLoop (← ms.node "condition") (← ms.nodes "statements")
  | "ReturnStmt" => return .answer (← ms.node "value")
  | "Literal" => ms.literal
  | "Group" => return .group (← ms.node "expression")
  | "BinaryOp" => return .binary (← ms.label "operator") (← ms.node "left") (← ms.node "right")
  | "Access" => return .access (← ms.nodeOrAbsent "receiver") (← ms.label "name")
  | "Call" =>
    return .call (← ms.nodeOrAbsent "receiver") (← ms.label "name") (← ms.nodes "arguments")
  | _ => .error (.unknownType (.string type))

/-- The node that some members describe. -/
def decode (ms : Members) : Except DocumentError Node :=
  match ms.lookup "type" with
  | some ⟨.string type, _, _⟩ => ms.toNode type
  | some m => .error (.unknownType m.value)
  | none => .error (.unknownType .null)

end Members

mutual

/-- The syntax tree of a document. -/
def ofJson : Json → Except DocumentError Node
  | .null => .ok .absent
  | .object members => Members.decode (membersOf members)
  | .boolean _ => .error .notAnObject
  | .integer _ => .error .notAnObject
  | .real _ => .error .notAnObject
  | .string _ => .error .notAnObject
  | .array _ => .error .notAnObject

/-- The syntax trees that a value lists. Neither a character nor a key is one. -/
def ofJsonList : Json → Except DocumentError (List Node)
  | .array items => ofJsons items
  | .string s => if s.isEmpty then .ok [] else .error .notAnObject
  | .object members => if members.isEmpty then .ok [] else .error .notAnObject
  | .null => .error .notAList
  | .boolean _ => .error .notAList
  | .integer _ => .error .notAList
  | .real _ => .error .notAList

/-- The syntax trees of the items of a list. -/
def ofJsons : List Json → Except DocumentError (List Node)
  | [] => .ok []
  | value :: values => do
    let n ← ofJson value
    let ns ← ofJsons values
    return n :: ns

/-- The members of an object in all their roles. -/
def membersOf : List (String × Json) → Members
  | [] => []
  | m :: ms => memberOf m :: membersOf ms

/-- A member of an object in all its roles. -/
def memberOf : String × Json → String × Member
  | (key, value) => (key, ⟨value, ofJson value, ofJsonList value⟩)

end

end Node

end Blockscript
