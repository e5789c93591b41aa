import Blockscript.Error

/-!
# Scopes

A *scope* binds names to variables, and pairs of a name and a number of
parameters to functions; these are two separate spaces. It never binds a name
twice. What a scope does not bind is looked up in its parent.

* `Scope.findVariable?`, `Scope.findFunction?`: what a scope binds itself;
* `Scope.arities`: the numbers of parameters with which it binds a function;
* `Scope.addVariable`, `Scope.setVariable`, `Scope.addFunction`: its updates.
-/

namespace Blockscript

/-- The place of a scope in the store. -/
abbrev ScopeId := Nat

/-- Whether two labels are the same when one is looked up. -/
def Label.same : Label → Label → Bool
  | .text s, .text t => s == t
  | a, b => a.key? == b.key?

/-- A variable. The value of a constant never changes. -/
structure Variable where
  name : Label
  isConstant : Bool
  value : Value
  deriving Repr, Inhabited

/-- A function under a name and a number of parameters. -/
structure FunctionBinding where
  name : Label
  arity : Int
  function : FunctionId
  deriving Repr

/-- Whether a binding is for a name and a number of parameters. -/
def FunctionBinding.isFor (b : FunctionBinding) (name : Label) (arity : Int) : Bool :=
  b.arity == arity && b.name.same name

/-- A scope, with its bindings in the order in which they were made. -/
structure Scope where
  parent : Option ScopeId
  vars : List Variable
  functions : List FunctionBinding
  deriving Repr, Inhabited

namespace Scope

/-- A scope that binds nothing. -/
def empty (parent : Option ScopeId) : Scope :=
  ⟨parent, [], []⟩

/-- The variable that a scope binds to a name. -/
def findVariable? (s : Scope) (name : Label) : Option Variable :=
  s.vars.find? fun v => v.name.same name

/-- The function that a scope binds to a name and a number of parameters. -/
def findFunction? (s : Scope) (name : Label) (arity : Int) : Option FunctionId :=
  (s.functions.find? fun b => b.isFor name arity).map (·.function)

/-- The numbers of parameters with which a scope binds a name to functions. -/
def arities (s : Scope) (name : Label) : List Int :=
  (s.functions.filter fun b => b.name.same name).map (·.arity)

/-- Binds one more variable. -/
def addVariable (s : Scope) (v : Variable) : Scope :=
  { s with vars := s.vars ++ [v] }

/-- Gives a new value to the variable of a name. -/
def setVariable (s : Scope) (name : Label) (value : Value) : Scope :=
  { s with vars := s.vars.map fun v => if v.name.same name then { v with value } else v }

/-- Binds one more function. -/
def addFunction (s : Scope) (b : FunctionBinding) : Scope :=
  { s with functions := s.functions ++ [b] }

end Scope

end Blockscript
