import Blockscript.Value

/-!
# Run-time errors

A program that cannot go on ends in a *run-time error*, of which no program can
get hold. A tree from a document can moreover be *faulty*: nodes stand where they
make no sense, or values where names belong. Such a fault is found when the
place is executed. What the host of a program is unable to do is a fault, too.

* `RuntimeError`, with the wording `RuntimeError.message`;
* `Fault`, with the wording `Fault.message?`;
* `Halt`: all the reasons for which an evaluation ends without a value.
-/

namespace Blockscript

/-- The ways in which a running program fails. -/
inductive RuntimeError where
  | undefinedVariable (name : Label)
  | undefinedFunction (name : Label)
  /-- The name is bound to functions, but to none of that many parameters. -/
  | wrongArity (name : Label) (expected : List Int) (actual : Int)
  | wrongMethodArity (object : String) (name : Label) (expected : List Int) (actual : Int)
  | kindMismatch (expected actual : Kind) (context : String)
  /-- A foreign value where the kind of a value is asked for. -/
  | unsupportedValue (value : Json)
  | incomparable (left right : Kind)
  | unsupportedOperands (operator : String) (left right : Kind)
  | unknownOperator (operator : Label)
  | missingField (object : String) (name : Label)
  | missingMethod (object : String) (name : Label)
  /-- A member of a value that is no object. -/
  | notAnObject (member : Label) (kind : Kind)
  | constantAssignment (name : Label)
  | divisionByZero
  | variableRedefinition (name : Label)
  | functionRedefinition (name : Label) (arity : Int)
  /-- An assignment to something other than a variable or a field. -/
  | invalidAssignment
  | callDepthExceeded
  deriving Repr

/-- An integer in a message. -/
def integerText (i : Int) : String :=
  String.ofList (Text.writeInteger i)

/-- The numbers of parameters that a function can have, in a message. -/
def aritiesText (arities : List Int) : String :=
  ", ".intercalate (arities.map integerText)

/-- The wording of an error. -/
def RuntimeError.message : RuntimeError → String
  | .undefinedVariable name => "undefined variable " ++ name.display
  | .undefinedFunction name => "undefined function " ++ name.display
  | .wrongArity name expected actual =>
    name.display ++ " expects " ++ aritiesText expected ++ " arguments, got " ++ integerText actual
  | .wrongMethodArity object name expected actual =>
    "method " ++ object ++ "." ++ name.display ++ " expects " ++ aritiesText expected ++
      " arguments, got " ++ integerText actual
  | .kindMismatch expected actual context =>
    "expected " ++ expected.name ++ ", received " ++ actual.name ++
      (if context.isEmpty then "" else " in " ++ context)
  | .unsupportedValue value => "unsupported host value of type " ++ Value.foreignTypeName value
  | .incomparable left right =>
    "comparison not supported for " ++ left.name ++ " and " ++ right.name
  | .unsupportedOperands operator left right =>
    "unsupported " ++ operator ++ " for " ++ left.name ++ " and " ++ right.name
  | .unknownOperator operator => "unknown operator " ++ operator.display
  | .missingField object name => "object " ++ object ++ " has no field " ++ name.display
  | .missingMethod object name => "object " ++ object ++ " has no method " ++ name.display
  | .notAnObject member kind => "cannot access " ++ member.display ++ " on " ++ kind.name
  | .constantAssignment name => "cannot assign to constant " ++ name.display
  | .divisionByZero => "division by zero"
  | .variableRedefinition name =>
    "variable " ++ name.display ++ " already defined in this scope"
  | .functionRedefinition name arity =>
    "function " ++ name.display ++ "/" ++ integerText arity ++ " already defined in this scope"
  | .invalidAssignment => "assignment target must be a variable or field"
  | .callDepthExceeded => "maximum call depth exceeded"

/-- The faults of a tree from a document, of numbers that only such a tree can
    hold, and of host functions. -/
inductive Fault where
  /-- A node that is no statement, by the name of its type. -/
  | notAStatement (type : String)
  /-- A node that is no expression, by the name of its type. -/
  | notAnExpression (type : String)
  /-- A node without a part that its place asks for. -/
  | missingPart
  /-- A value that cannot be used as its place asks for. -/
  | unsuitableValue
  /-- A host function that asks for an argument it was not given. -/
  | missingArgument
  /-- An operation on decimals that are no numbers, and that has no result. -/
  | invalidOperation
  /-- A decimal result that is too large for any exponent. -/
  | overflow
  /-- A decimal result with more digits than can be written out. -/
  | tooManyDigits
  /-- An integer with more digits than the host turns into a text, or a decimal with more
      of them in a division. -/
  | excessiveDigits
  deriving DecidableEq, Repr

/-- The wording of a fault, for those that have one. -/
def Fault.message? : Fault → Option String
  | .notAStatement type => some ("execute: unexpected node type " ++ type)
  | .notAnExpression type => some ("evaluate: unexpected node type " ++ type)
  | _ => none

/-- The reasons for which an evaluation ends without a value. -/
inductive Halt where
  | error (e : RuntimeError)
  | fault (f : Fault)
  /-- The evaluation took more steps than it was given. -/
  | outOfSteps
  deriving Repr

end Blockscript
