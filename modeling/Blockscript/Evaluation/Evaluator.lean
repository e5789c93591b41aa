import Blockscript.Evaluation.State

/-!
# Evaluation

Statements are executed and expressions evaluated by recursion on the tree.
A statement either ends normally or answers: a `RETURN` ends all enclosing
statements up to the nearest call, whose value it gives. Loops and calls open
scopes of their own; the branches of an `IF` do not.

Two numbers bound an evaluation. `depth` is how many calls may still be nested:
a call deeper than that is an error of the program. `steps` bounds the levels of
nesting and the rounds of a loop, and is no part of the language: running out of
it says nothing about the program, and a finished evaluation is the same for any
larger number.

* `Outcome`: how a statement ends;
* `evaluateNode`, `executeNode`, `callFunction`: an expression, a statement, a call, by
  what their parts do;
* `evaluate`, `execute`, `invoke`: the same, down to the last part;
* `executeAll`, `repeatWhile`: lists of statements, and loops.
-/

namespace Blockscript

/-- How a statement ends: normally, or with the value of a `RETURN`. -/
inductive Outcome where
  | normal
  | answered (value : Value)
  deriving Repr

/-- The value of a call whose body ends in some way. -/
def Outcome.value : Outcome → Value
  | .normal => .nil
  | .answered value => value

namespace Evaluation

/-- Executes statements one after the other, up to the first one that answers. -/
def executeAll (execute : Node → Evaluation Outcome) : List Node → Evaluation Outcome
  | [] => return .normal
  | n :: ns => do
    match ← execute n with
    | .normal => executeAll execute ns
    | .answered value => return .answered value

/-- Goes round a loop as long as its condition holds and its body does not
    answer. At most `rounds` times. -/
def repeatWhile (condition : Evaluation Bool) (body : Evaluation Outcome)
    (increment : Evaluation Unit) : (rounds : Nat) → Evaluation Outcome
  | 0 => throw .outOfSteps
  | rounds + 1 => do
    if ← condition then
      match ← body with
      | .normal => do
        increment
        repeatWhile condition body increment rounds
      | .answered value => return .answered value
    else
      return .normal

/-- The boolean that the condition of a construct gives. -/
def condition (construct : Construct) (expression : Evaluation Value) : Evaluation Bool := do
  let v ← expression
  let v ← ofExcept (v.require .boolean (construct.keyword ++ " condition"))
  logFrom Event.conditionLevel do
    return .condition construct (← display v)
  match v with
  | .boolean b => return b
  | _ => return false

/-- The operand of a logical operator, which has to be a boolean. -/
def logicalOperand (side operator : String) (v : Value) : Evaluation Bool := do
  match ← ofExcept (v.require .boolean (side ++ " operand of " ++ operator)) with
  | .boolean b => return b
  | _ => return false

/-- A logical operator: its right operand is evaluated only if the left one is
    `needed` for it. -/
def shortCircuit (operator : String) (needed : Bool) (left right : Evaluation Value) :
    Evaluation Value := do
  let l ← logicalOperand "left" operator (← left)
  if l = needed then
    return .boolean (← logicalOperand "right" operator (← right))
  else
    return .boolean l

/-- A binary operator on the values of its operands, from left to right. -/
def applyBinary (operator : Label) (left right : Evaluation Value) : Evaluation Value := do
  match operator with
  | .text "&&" => shortCircuit "&&" true left right
  | .text "||" => shortCircuit "||" false left right
  | operator =>
    let a ← left
    let b ← right
    checkDigits (Value.quotientExceeds operator a b)
    match Value.apply operator a b with
    | .ok v => return v
    | .error h => throw h

/-- The values of an initializer, which may be missing. -/
def initialValue (evaluate : Node → Evaluation Value) : Node → Evaluation Value
  | .absent => return .nil
  | n => evaluate n

/-- Executes a statement that may be missing, regardless of how it ends. -/
def executeOptional (execute : Node → Evaluation Outcome) : Node → Evaluation Unit
  | .absent => return ()
  | n => do
    let _ ← execute n

/-- Logs a declaration. -/
def logDeclaration (name : Label) (isConstant : Bool) (value : Value) : Evaluation Unit :=
  logFrom Event.declarationLevel do
    return .declare isConstant name (← ofExcept value.kind) (← display value)

/-- Binds a new variable in the current scope. -/
def declare (name : Label) (isConstant : Bool) (value : Value) : Evaluation Unit := do
  defineVariable name isConstant value
  logDeclaration name isConstant value

/-- Gives the value of an expression to a variable or to a field. The receiver is
    evaluated before the value. -/
def assign (evaluate : Node → Evaluation Value) (target value : Node) : Evaluation Unit := do
  match target with
  | .access .absent name =>
    let v ← evaluate value
    assignVariable name v
  | .access receiver name =>
    let r ← evaluate receiver
    let v ← evaluate value
    setField (← requireObject r name) name v
  | _ => fail .invalidAssignment

/-- The texts of the arguments of a call. -/
def argumentTexts (arguments : List Value) : Evaluation (List String) := do
  let texts ← arguments.mapM display
  if arguments.any fun v => v matches .foreignCharacter _ then
    faulty .unsuitableValue
  return texts

/-- Binds parameters to arguments in the current scope. -/
def bindParameters : List Label → List Value → Evaluation Unit
  | name :: names, value :: values => do
    defineVariable name false value
    bindParameters names values
  | _, _ => return ()

/-- Calls a defined function, whose body runs in a new scope inside the one where
    it was defined. -/
def callDefined (name : Label) (parameters : List Label) (closure : ScopeId)
    (body : Evaluation Outcome) (arguments : List Value) : Evaluation Value := do
  if arguments.length ≠ parameters.length then
    fail (.wrongArity name [(parameters.length : Int)] arguments.length)
  logFrom Event.callLevel do
    return .call name (← argumentTexts arguments)
  let outcome ← within (← newScope (some closure)) do
    bindParameters parameters arguments
    body
  let value := outcome.value
  logFrom Event.callLevel do
    return .answer name (← display value)
  return value

/-- The value of an expression, by what its parts and calls give. -/
def evaluateNode (evaluate : Node → Evaluation Value)
    (invoke : FunctionId → List Value → Evaluation Value) : Node → Evaluation Value
  | .literal tag payload => return .ofPayload tag payload
  | .group expression => evaluate expression
  | .access .absent name => readVariable name
  | .access receiver name => do
    let r ← evaluate receiver
    getField (← requireObject r name) name
  | .call .absent name arguments => do
    let values ← arguments.mapM evaluate
    let f ← lookupFunction name values.length
    invoke f values
  | .call receiver name arguments => do
    let r ← evaluate receiver
    let values ← arguments.mapM evaluate
    let f ← lookupMethod (← requireObject r name) name values.length
    invoke f values
  | .binary operator left right => applyBinary operator (evaluate left) (evaluate right)
  | node => faulty (.notAnExpression node.typeName)

/-- Executes a statement, by what its parts do. -/
def executeNode (rounds : Nat) (evaluate : Node → Evaluation Value)
    (execute : Node → Evaluation Outcome) : Node → Evaluation Outcome
  | .discard expression => do
    let _ ← evaluate expression
    return .normal
  | .declaration name initializer => do
    let v ← initialValue evaluate initializer
    declare name false v
    return .normal
  | .assignment receiver value => do
    assign evaluate receiver value
    return .normal
  | .choice test thenStatements elseStatements => do
    if ← condition .choice (evaluate test) then
      executeAll execute thenStatements
    else
      executeAll execute elseStatements
  | .whileLoop test statements =>
    repeatWhile (condition .whileLoop (evaluate test))
      (inNewScope (executeAll execute statements)) (return ()) rounds
  | .forLoop initializer test increment statements =>
    inNewScope do
      executeOptional execute initializer
      repeatWhile (condition .forLoop (evaluate test))
        (inNewScope (executeAll execute statements)) (executeOptional execute increment) rounds
  | .answer value => return .answered (← evaluate value)
  | node => faulty (.notAStatement node.typeName)

/-- Calls a function with arguments, by what the statements of its body do at the
    depth that remains. -/
def callFunction (execute : (depth : Nat) → Node → Evaluation Outcome) (depth : Nat)
    (id : FunctionId) (arguments : List Value) : Evaluation Value := do
  match (← get).store.functions[id]? with
  | some (.host _ _ action) => perform (action.respond arguments)
  | some (.defined name parameters body closure) =>
    match depth with
    | 0 => fail .callDepthExceeded
    | depth + 1 =>
      callDefined name parameters closure (executeAll (execute depth) body) arguments
  | none => faulty .missingPart

mutual

/-- The value of an expression. -/
def evaluate : (steps depth : Nat) → Node → Evaluation Value
  | 0, _, _ => throw .outOfSteps
  | steps + 1, depth, node => evaluateNode (evaluate steps depth) (invoke steps depth) node

/-- Executes a statement. -/
def execute : (steps depth : Nat) → Node → Evaluation Outcome
  | 0, _, _ => throw .outOfSteps
  | steps + 1, depth, node => executeNode steps (evaluate steps depth) (execute steps depth) node

/-- Calls a function with arguments. -/
def invoke : (steps depth : Nat) → FunctionId → List Value → Evaluation Value
  | 0, _, _, _ => throw .outOfSteps
  | steps + 1, depth, id, arguments => callFunction (execute steps) depth id arguments

end

end Evaluation

end Blockscript
