import Blockscript.Operators
import Blockscript.Store.Basic

/-!
# The state of a run

A running program has a store, a current scope, the text printed so far and a
log. The log tells what the program does, in as much detail as its *level* asks
for: calls and returns from level 1, declarations and definitions from level 2,
conditions from level 3. When a run ends its log is closed, and what would be
logged afterwards is printed.

A host may turn integers into texts, and divide decimals, only up to some number of
digits. A run is told which, and ends at a fault where it asks for more; the language
itself has no such bound.

* `Event`: what is logged, with its level and its text;
* `State`: the state of a run;
* `Evaluation`: a step that may change the state, or halt;
* `Evaluation.within`: a step in another scope. The scope before is the current
  one again however the step ends.
-/

namespace Blockscript

/-- The constructs that have a condition. -/
inductive Construct where
  | choice
  | forLoop
  | whileLoop
  deriving DecidableEq, Repr

/-- The keyword of a construct. -/
def Construct.keyword : Construct → String
  | .choice => "IF"
  | .forLoop => "FOR"
  | .whileLoop => "WHILE"

/-- What is logged. Values are given by their texts. -/
inductive Event where
  | call (function : Label) (arguments : List String)
  | answer (function : Label) (value : String)
  | declare (isConstant : Bool) (name : Label) (kind : Kind) (value : String)
  | define (function : Label) (arity : Nat)
  | condition (construct : Construct) (value : String)
  deriving Repr

/-- The text of an event. -/
def Event.text : Event → String
  | .call function arguments =>
    "call " ++ function.display ++ "(" ++ ", ".intercalate arguments ++ ")"
  | .answer function value => "return " ++ function.display ++ " -> " ++ value
  | .declare isConstant name kind value =>
    "declare " ++ (if isConstant then "constant " else "") ++ name.display ++ ": " ++ kind.name ++
      " = " ++ value
  | .define function arity => "define function " ++ function.display ++ "/" ++ integerText arity
  | .condition construct value => construct.keyword ++ " condition -> " ++ value

/-- The least level at which calls and returns are logged. -/
def Event.callLevel : Nat := 1

/-- The least level at which declarations and definitions are logged. -/
def Event.declarationLevel : Nat := 2

/-- The least level at which conditions are logged. -/
def Event.conditionLevel : Nat := 3

/-- The state of a run. -/
structure State where
  store : Store
  /-- The scope in which names are looked up. -/
  current : ScopeId
  /-- Everything printed so far. -/
  output : String
  /-- How much is logged. -/
  level : Nat
  /-- Everything logged so far. -/
  log : List Event
  /-- Whether the log is still written. -/
  logIsOpen : Bool
  /-- The most digits of a number that the host turns into a text, or a text into a
      number, if there is a bound. -/
  digitLimit : Option Nat

namespace State

/-- The log as a text, a line for every event. -/
def logText (s : State) : String :=
  String.join (s.log.reverse.map fun e => e.text ++ "\n")

/-- Changes the store. -/
def mapStore (f : Store → Store) : State → State
  | ⟨store, current, output, level, log, logIsOpen, digitLimit⟩ =>
    ⟨f store, current, output, level, log, logIsOpen, digitLimit⟩

/-- Prints a line. -/
def print (line : String) : State → State
  | ⟨store, current, output, level, log, logIsOpen, digitLimit⟩ =>
    ⟨store, current, output ++ line ++ "\n", level, log, logIsOpen, digitLimit⟩

/-- Logs an event, or prints it once the log is closed. -/
def record (e : Event) (s : State) : State :=
  if s.logIsOpen then { s with log := e :: s.log } else s.print e.text

/-- Closes the log. -/
def closeLog (s : State) : State :=
  { s with logIsOpen := false }

end State

/-- A step of an evaluation: it may change the state, and gives a value or halts. -/
abbrev Evaluation := EStateM Halt State

namespace Evaluation

/-- Halts with an error. -/
def fail {α : Type} (e : RuntimeError) : Evaluation α :=
  throw (.error e)

/-- Halts with a fault. -/
def faulty {α : Type} (f : Fault) : Evaluation α :=
  throw (.fault f)

/-- What may fail with an error, as a step. -/
def ofExcept {α : Type} : Except RuntimeError α → Evaluation α
  | .ok a => return a
  | .error e => fail e

/-- A step on the store, as a step on the state. -/
def storing {α : Type} (step : Storing α) : Evaluation α
  | ⟨store, current, output, level, log, logIsOpen, digitLimit⟩ =>
    match step store with
    | .ok a store => .ok a ⟨store, current, output, level, log, logIsOpen, digitLimit⟩
    | .error e store =>
      .error (.error e) ⟨store, current, output, level, log, logIsOpen, digitLimit⟩

/-- A step in another scope, after which the scope before is the current one
    again, also if the step halts. -/
def within {α : Type} (scope : ScopeId) (step : Evaluation α) : Evaluation α := fun s =>
  let previous := s.current
  match step { s with current := scope } with
  | .ok a s => .ok a { s with current := previous }
  | .error h s => .error h { s with current := previous }

/-- A step after which the log is closed, also if the step halts. -/
def closingLog {α : Type} (step : Evaluation α) : Evaluation α := fun s =>
  match step s with
  | .ok a s => .ok a s.closeLog
  | .error h s => .error h s.closeLog

/-- Makes a scope. -/
def newScope (parent : Option ScopeId) : Evaluation ScopeId := do
  let id := (← get).store.scopes.size
  modify (·.mapStore (Store.addScope parent))
  return id

/-- A step in a new scope inside the current one. -/
def inNewScope {α : Type} (step : Evaluation α) : Evaluation α := do
  within (← newScope (some (← get).current)) step

/-- Refuses what has more digits than the host turns into a text. -/
def checkDigits (exceeds : Nat → Bool) : Evaluation Unit := do
  if (← get).digitLimit.any exceeds then
    faulty .excessiveDigits

theorem run_checkDigits (exceeds : Nat → Bool) (s : State) : (checkDigits exceeds).run s =
    if s.digitLimit.any exceeds then .error (.fault .excessiveDigits) s else .ok () s := by
  rw [checkDigits, EStateM.run_bind, EStateM.run_get]
  simp only
  split <;> rfl

/-- The text of a value, of any length. -/
def textOf (v : Value) : Evaluation String := do
  match (← get).store.display v with
  | .ok text => return text
  | .error h => throw h

/-- The text of a value, which must not be an integer of too many digits. -/
def display (v : Value) : Evaluation String := do
  checkDigits v.textExceeds
  textOf v

/-- Logs an event where the level asks for it. The event is made only then. -/
def logFrom (level : Nat) (event : Evaluation Event) : Evaluation Unit := do
  if level ≤ (← get).level then
    let e ← event
    modify (·.record e)

/-- The name of something that is looked up. Only a list or an object cannot be
    looked up. -/
def checkName (name : Label) : Evaluation Unit :=
  match name.key? with
  | some _ => return ()
  | none => faulty .unsuitableValue

/-! ### Variables and functions of the current scope -/

/-- Binds a variable in the current scope. -/
def defineVariable (name : Label) (isConstant : Bool) (value : Value) : Evaluation Unit := do
  checkName name
  storing (Store.defineVariable (← get).current ⟨name, isConstant, value⟩)

/-- The value of the nearest variable of a name. -/
def readVariable (name : Label) : Evaluation Value := do
  checkName name
  return (← storing (Store.lookupVariable (← get).current name)).value

/-- Gives a new value to the nearest variable of a name. -/
def assignVariable (name : Label) (value : Value) : Evaluation Unit := do
  checkName name
  storing (Store.assignVariable (← get).current name value)

/-- The nearest function of a name and a number of parameters. -/
def lookupFunction (name : Label) (arity : Int) : Evaluation FunctionId := do
  checkName name
  storing (Store.lookupFunction (← get).current name arity)

/-- The object that a value is, whose member is wanted. -/
def requireObject (v : Value) (member : Label) : Evaluation ObjectId := do
  match v with
  | .object id => return id
  | v => fail (.notAnObject member (← ofExcept v.kind))

/-- The value of an object's field. -/
def getField (id : ObjectId) (field : Label) : Evaluation Value := do
  checkName field
  storing (Store.getField id field)

/-- Gives a new value to an object's field. -/
def setField (id : ObjectId) (field : Label) (value : Value) : Evaluation Unit := do
  checkName field
  storing (Store.setField id field value)

/-- An object's method of a name and a number of parameters. -/
def lookupMethod (id : ObjectId) (name : Label) (arity : Int) : Evaluation FunctionId := do
  checkName name
  storing (Store.lookupMethod id name arity)

/-- What a function of the host does. -/
def perform : Exchange → Evaluation Value
  | .answer value => return value
  | .fail e => fail e
  | .faulty f => faulty f
  | .print value next => do
    let line ← display value
    modify (·.print line)
    perform next
  | .getField object field next => do
    let v ← getField object field
    perform (next v)
  | .setField object field value next => do
    setField object field value
    perform next

end Evaluation

end Blockscript
