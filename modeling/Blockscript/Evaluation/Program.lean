import Blockscript.Evaluation.Evaluator
import Blockscript.Syntax.Parser

/-!
# Running programs

A program runs in a scope of its own, the *globals*, inside a scope of the host
that binds `print`. Its fields are declared first, then its methods, and then its
function `main` is called without arguments; the value of that call is the value
of the program. What an earlier run left in the globals is there for a later one.

The memory of a host ends what nests too deep. It is calls that do so without end, and
only they are counted here, up to any number (`Limits.depth`). How many a host takes
depends on how deep the statements and expressions around them nest, and a single
expression may nest deeper than a host goes; neither is told here.

* `State.start`: the state before anything has run;
* `runProgram`: a program given by its tree;
* `Limits`: the bounds of a run.
-/

namespace Blockscript

/-- The bounds of a run: how deep calls may nest, and how many steps it may
    take. -/
structure Limits where
  depth : Nat
  steps : Nat

/-- Bounds that no program meets that does not call itself without end. -/
def Limits.default : Limits :=
  ⟨1000, Nat.pow 2 62⟩

namespace Store

/-- A store with one scope, which binds the function `print`. -/
def standard : Store where
  scopes := #[⟨none, [], [⟨.text "print", 1, 0⟩]⟩]
  functions := #[.host "print" 1 .print]
  objects := #[]

/-- The place of the only scope of `standard`. -/
def standardScope : ScopeId := 0

end Store

namespace State

/-- The state before anything has run: the globals are a new scope inside a given
    one. The log is written only if anything is logged at all. -/
def start (store : Store) (parent : ScopeId) (level : Nat)
    (digitLimit : Option Nat := none) : State where
  store := store.addScope (some parent)
  current := store.scopes.size
  output := ""
  level := level
  log := []
  logIsOpen := 0 < level
  digitLimit := digitLimit

end State

namespace Evaluation

variable (limits : Limits)

/-- The value of an expression, within the limits. -/
def evaluateWithin : Node → Evaluation Value :=
  evaluate limits.steps limits.depth

/-- Executes a statement, within the limits. -/
def executeWithin : Node → Evaluation Outcome :=
  execute limits.steps limits.depth

/-- Calls a function, within the limits. -/
def invokeWithin : FunctionId → List Value → Evaluation Value :=
  invoke limits.steps limits.depth

/-- Declares a field, by what the evaluation of its initializer gives. Other nodes with
    an initializer are found not to be one only after it is evaluated. -/
def declareNode (evaluate : Node → Evaluation Value) : Node → Evaluation Unit
  | .field name isConstant initializer => do
    let v ← initialValue evaluate initializer
    declare name isConstant v
  | .declaration _ initializer => do
    let _ ← initialValue evaluate initializer
    faulty .missingPart
  | .forLoop initializer _ _ _ => do
    let _ ← initialValue evaluate initializer
    faulty .missingPart
  | _ => faulty .missingPart

/-- Declares a field, within the limits. -/
def declareField : Node → Evaluation Unit :=
  declareNode (evaluateWithin limits)

/-- Binds a function in the current scope. -/
def defineFunction (name : Label) (arity : Int) (f : Function) : Evaluation Unit := do
  let id := (← get).store.functions.size
  modify (·.mapStore (Store.addFunction f))
  checkName name
  storing (Store.defineFunction (← get).current ⟨name, arity, id⟩)

/-- Defines a method: a function whose calls run inside the current scope. -/
def declareMethod (node : Node) : Evaluation Unit := do
  match node with
  | .method name parameters statements =>
    let scope := (← get).current
    defineFunction name parameters.length (.defined name parameters statements scope)
    logFrom Event.declarationLevel do
      return .define name parameters.length
  | _ => faulty .missingPart

/-- Runs a program, by what the declaration of a field and the call of a function
    do. -/
def runNode (declareField : Node → Evaluation Unit)
    (invoke : FunctionId → List Value → Evaluation Value) : Node → Evaluation Value
  | .program fields methods => do
    fields.forM declareField
    methods.forM declareMethod
    let main ← lookupFunction (.text "main") 0
    invoke main []
  | _ => faulty .missingPart

/-- Runs a program, and closes the log. -/
def runProgram (program : Node) : Evaluation Value :=
  closingLog (runNode (declareField limits) (invokeWithin limits) program)

end Evaluation

end Blockscript
