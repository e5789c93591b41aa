import Blockscript.Decimal.Special
import Blockscript.Syntax.Label

/-!
# Syntax trees

A program is a tree of *nodes*. The parser builds statements where statements
belong and expressions where expressions belong, but a tree may also come from a
document, in which any node may stand anywhere, or be missing. Whether it is the
right one is found out only when it is executed, so one type holds all of them.

* `Node`: a syntax tree;
* `Node.typeName`: the kind of a node, as messages and documents name it.
-/

namespace Blockscript

/-- What a literal holds: a decimal, which only in a document can be one that is no
    number, or a value that a document can hold as it is. -/
inductive Payload where
  | decimal (d : Decimal)
  | special (s : Special)
  | json (value : Json)
  deriving BEq, Repr, Inhabited

/-- A syntax tree. -/
inductive Node where
  /-- No node, where one may be left out. -/
  | absent
  /-- A program: its fields, then its methods. -/
  | program (fields methods : List Node)
  /-- A global variable or constant. -/
  | field (name : Label) (isConstant : Bool) (initializer : Node)
  /-- A function definition. -/
  | method (name : Label) (parameters : List Label) (statements : List Node)
  /-- An expression as a statement. -/
  | discard (expression : Node)
  /-- A local variable. -/
  | declaration (name : Label) (initializer : Node)
  | assignment (receiver value : Node)
  /-- `IF`, with a branch for either outcome. -/
  | choice (condition : Node) (thenStatements elseStatements : List Node)
  /-- `FOR`, whose initializer and increment may be left out. -/
  | forLoop (initializer condition increment : Node) (statements : List Node)
  | whileLoop (condition : Node) (statements : List Node)
  /-- `RETURN`. -/
  | answer (value : Node)
  | literal (tag : Label) (payload : Payload)
  /-- An expression in parentheses. -/
  | group (expression : Node)
  | binary (operator : Label) (left right : Node)
  /-- A variable, or the field of a receiver. -/
  | access (receiver : Node) (name : Label)
  /-- A function call, or the call of a receiver's method. -/
  | call (receiver : Node) (name : Label) (arguments : List Node)
  deriving BEq, Repr, Inhabited

namespace Node

/-- The kind of a node, as messages and documents name it. -/
def typeName : Node → String
  | .absent => "NoneType"
  | .program .. => "Source"
  | .field .. => "Field"
  | .method .. => "Method"
  | .discard .. => "ExprStmt"
  | .declaration .. => "DeclStmt"
  | .assignment .. => "AssignStmt"
  | .choice .. => "IfStmt"
  | .forLoop .. => "ForStmt"
  | .whileLoop .. => "WhileStmt"
  | .answer .. => "ReturnStmt"
  | .literal .. => "Literal"
  | .group .. => "Group"
  | .binary .. => "BinaryOp"
  | .access .. => "Access"
  | .call .. => "Call"

/-- The literal `NIL`. -/
def nil : Node :=
  .literal (.text "Nil") (.json .null)

/-- The literals `TRUE` and `FALSE`. -/
def boolean (b : Bool) : Node :=
  .literal (.text "Boolean") (.json (.boolean b))

/-- The literal of an integer. -/
def integer (i : Int) : Node :=
  .literal (.text "Integer") (.json (.integer i))

/-- The literal of a decimal. -/
def decimal (d : Decimal) : Node :=
  .literal (.text "Decimal") (.decimal d)

/-- The literal of a character. -/
def character (s : String) : Node :=
  .literal (.text "Character") (.json (.string s))

/-- The literal of a string. -/
def string (s : String) : Node :=
  .literal (.text "String") (.json (.string s))

end Node

end Blockscript
