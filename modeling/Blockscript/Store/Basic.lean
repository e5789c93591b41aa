import Blockscript.Decimal.Range
import Blockscript.Store.Scope

/-!
# The store

Scopes, functions and objects live in a *store*, which only grows. A scope is
made after its parent, so that the *chain* of a scope — itself, its parent, and
so on outwards — visits older and older scopes and ends. Names are looked up
along the chain, the nearest binding first.

An object is a name with a scope of its own, whose variables are its fields and
whose functions are its methods. They are looked up in that scope alone.

* `Store.chain`: the scopes in which the names of a scope are looked up;
* `Store.findVariable?`, `Store.findFunction?`: the nearest binding;
* `Store.defineVariable`, `Store.assignVariable`, `Store.defineFunction`,
  `Store.setField`: the updates. They leave the store as it was where they fail;
* `Store.lookupVariable`, `Store.lookupFunction`, `Store.getField`,
  `Store.lookupMethod`: looking up, with the error for what is not there.
-/

namespace Blockscript

/-- What a function of the host does from some point of a call on: an exchange of requests and
    replies that comes to an end. It can get hold of the fields of objects, and print, and goes on
    with what it gets. A request that fails ends the exchange with its error. -/
inductive Exchange where
  /-- The value of the call. -/
  | answer (value : Value)
  /-- An error of its own. -/
  | fail (e : RuntimeError)
  /-- A failure of its own that is no error of a program. -/
  | faulty (f : Fault)
  /-- Prints the text of a value on a line of its own. -/
  | print (value : Value) (next : Exchange)
  /-- Asks for the value of an object's field. -/
  | getField (object : ObjectId) (field : Label) (next : Value → Exchange)
  /-- Gives a value to an object's field. -/
  | setField (object : ObjectId) (field : Label) (value : Value) (next : Exchange)
  deriving Inhabited

namespace Exchange

/-- Goes on with an argument of a call; negative places count from the last one. It is a failure if
    there is none. -/
def argument (arguments : List Value) (place : Int) (next : Value → Exchange) : Exchange :=
  let i := if place < 0 then place + arguments.length else place
  match (if i < 0 then none else arguments[i.toNat]?) with
  | some v => next v
  | none => .faulty .missingArgument

end Exchange

/-- A function of the host, by what it does with arguments. It does not check their number. -/
structure Action where
  respond : List Value → Exchange
  deriving Inhabited

/-- Prints the first argument. -/
def Action.print : Action :=
  ⟨fun arguments => .argument arguments 0 fun v => .print v (.answer .nil)⟩

/-- Gives always the same value. -/
def Action.constant (value : Value) : Action :=
  ⟨fun _ => .answer value⟩

/-- A function: one that a program defines, which runs in a new scope inside the
    one where it was defined, or one of the host. -/
inductive Function where
  | defined (name : Label) (parameters : List Label) (body : List Node) (closure : ScopeId)
  | host (name : String) (arity : Int) (action : Action)
  deriving Inhabited

/-- An object: a name, and the scope of its fields and methods. -/
structure Object where
  name : String
  scope : ScopeId
  deriving Repr, Inhabited

/-- All scopes, functions and objects, by the order in which they were made. -/
structure Store where
  scopes : Array Scope
  functions : Array Function
  objects : Array Object
  deriving Inhabited

namespace Store

/-- A store that holds nothing. -/
def empty : Store :=
  ⟨#[], #[], #[]⟩

/-- A scope of the store; one that is not there binds nothing. -/
def scope (s : Store) (id : ScopeId) : Scope :=
  s.scopes[id]?.getD (.empty none)

/-- At most `fuel` scopes of the chain of a scope. -/
def chainUpTo (s : Store) : (fuel : Nat) → ScopeId → List ScopeId
  | 0, _ => []
  | fuel + 1, id =>
    match (s.scope id).parent with
    | some parent => id :: chainUpTo s fuel parent
    | none => [id]

/-- A scope, its parent, and so on outwards. Parents being older, there are no
    more of them than scopes up to the first one. -/
def chain (s : Store) (id : ScopeId) : List ScopeId :=
  s.chainUpTo (id + 1) id

/-- The nearest scope that binds a variable, and the variable. -/
def findVariable? (s : Store) (id : ScopeId) (name : Label) : Option (ScopeId × Variable) :=
  (s.chain id).findSome? fun i => ((s.scope i).findVariable? name).map (i, ·)

/-- The nearest function of a name and a number of parameters. -/
def findFunction? (s : Store) (id : ScopeId) (name : Label) (arity : Int) : Option FunctionId :=
  (s.chain id).findSome? fun i => (s.scope i).findFunction? name arity

/-- Numbers in increasing order, without repetition. -/
def sortedArities (arities : List Int) : List Int :=
  (arities.mergeSort fun a b => a ≤ b).eraseDups

/-- The numbers of parameters with which a name is bound to functions along a
    chain, in increasing order. -/
def functionArities (s : Store) (id : ScopeId) (name : Label) : List Int :=
  sortedArities ((s.chain id).flatMap fun i => (s.scope i).arities name)

/-! ### Growth and updates -/

/-- Adds a scope, whose place is the number of scopes so far. -/
def addScope (parent : Option ScopeId) : Store → Store
  | ⟨scopes, functions, objects⟩ => ⟨scopes.push (.empty parent), functions, objects⟩

/-- Adds a function, whose place is the number of functions so far. -/
def addFunction (f : Function) : Store → Store
  | ⟨scopes, functions, objects⟩ => ⟨scopes, functions.push f, objects⟩

/-- Adds an object, whose place is the number of objects so far. -/
def addObject (o : Object) : Store → Store
  | ⟨scopes, functions, objects⟩ => ⟨scopes, functions, objects.push o⟩

/-- Changes a scope. -/
def updateScope (id : ScopeId) (f : Scope → Scope) : Store → Store
  | ⟨scopes, functions, objects⟩ => ⟨scopes.modify id f, functions, objects⟩

end Store

/-- A step that may change the store, or fail. -/
abbrev Storing := EStateM RuntimeError Store

namespace Store

/-- Binds a variable in a scope that does not bind its name yet. -/
def defineVariable (id : ScopeId) (v : Variable) : Storing Unit := do
  if ((← get).scope id).findVariable? v.name |>.isSome then
    throw (.variableRedefinition v.name)
  modify (updateScope id (·.addVariable v))

/-- The nearest variable of a name. -/
def lookupVariable (id : ScopeId) (name : Label) : Storing Variable := do
  match (← get).findVariable? id name with
  | some (_, v) => return v
  | none => throw (.undefinedVariable name)

/-- Gives a new value to the nearest variable of a name, which has to be there and
    must not be constant. -/
def assignVariable (id : ScopeId) (name : Label) (value : Value) : Storing Unit := do
  match (← get).findVariable? id name with
  | none => throw (.undefinedVariable name)
  | some (owner, v) =>
    if v.isConstant then
      throw (.constantAssignment name)
    modify (updateScope owner (·.setVariable name value))

/-- Binds a function in a scope that does not bind its name with that number of
    parameters yet. -/
def defineFunction (id : ScopeId) (b : FunctionBinding) : Storing Unit := do
  if ((← get).scope id).findFunction? b.name b.arity |>.isSome then
    throw (.functionRedefinition b.name b.arity)
  modify (updateScope id (·.addFunction b))

/-- The nearest function of a name and a number of parameters. Where there is
    none, the error tells whether the name is bound at all. -/
def lookupFunction (id : ScopeId) (name : Label) (arity : Int) : Storing FunctionId := do
  let s ← get
  match s.findFunction? id name arity with
  | some f => return f
  | none =>
    match s.functionArities id name with
    | [] => throw (.undefinedFunction name)
    | arities => throw (.wrongArity name arities arity)

/-- An object of the store; one that is not there has no name and no members. -/
def object (s : Store) (id : ObjectId) : Object :=
  s.objects[id]?.getD ⟨"", s.scopes.size⟩

/-- The value of an object's field. -/
def getField (id : ObjectId) (field : Label) : Storing Value := do
  let s ← get
  let o := s.object id
  match (s.scope o.scope).findVariable? field with
  | some v => return v.value
  | none => throw (.missingField o.name field)

/-- Gives a new value to an object's field, which has to be there and must not be
    constant. -/
def setField (id : ObjectId) (field : Label) (value : Value) : Storing Unit := do
  let o := (← get).object id
  match ((← get).scope o.scope).findVariable? field with
  | none => throw (.missingField o.name field)
  | some v =>
    if v.isConstant then
      throw (.constantAssignment field)
    modify (updateScope o.scope (·.setVariable field value))

/-- An object's method of a name and a number of parameters. -/
def lookupMethod (id : ObjectId) (name : Label) (arity : Int) : Storing FunctionId := do
  let s ← get
  let o := s.object id
  match (s.scope o.scope).findFunction? name arity with
  | some f => return f
  | none =>
    match sortedArities ((s.scope o.scope).arities name) with
    | [] => throw (.missingMethod o.name name)
    | arities => throw (.wrongMethodArity o.name name arities arity)

/-! ### The text of a value -/

/-- The text of a function. -/
def functionText : Function → String
  | .defined name parameters _ _ =>
    "<function " ++ name.display ++ "/" ++ integerText parameters.length ++ ">"
  | .host name arity _ => "<builtin " ++ name ++ "/" ++ integerText arity ++ ">"

/-- The text of a value, as it is printed. A decimal is written without an
    exponent; a text and a character as they are. Whether the host takes as many digits as
    an integer has is not asked here but before (`Evaluation.display`). -/
def display (s : Store) : Value → Except Halt String
  | .nil => .ok "NIL"
  | .boolean b => .ok (if b then "TRUE" else "FALSE")
  | .integer i => .ok (integerText i)
  | .decimal d =>
    if d.isFarAbove 0 then .error (.fault .tooManyDigits) else .ok (String.ofList d.plain)
  | .special x => .ok (String.ofList x.text)
  | .character c => .ok c
  | .string t => .ok t
  | .function id => .ok (functionText (s.functions[id]?.getD (.host "" 0 (.constant .nil))))
  | .object id => .ok ("<object " ++ (s.object id).name ++ ">")
  | .foreign value => .error (.error (.unsupportedValue value))
  | .foreignCharacter value => .ok value.display

end Store

end Blockscript
