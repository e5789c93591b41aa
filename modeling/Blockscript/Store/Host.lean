import Blockscript.Store.Basic

/-!
# Values of the host

A host that runs programs can hand them functions and objects of its own. They
live in the store like all others; an object of the host has a scope without a
parent, so that its members are all that can be reached through it.

* `Store.addHostFunction`, `Store.addHostScope`: a function, a scope of the host;
* `Store.addHostObject`, `Store.addHostMethod`: an object of the host, and a
  method for it.
-/

namespace Blockscript.Store

/-- Adds a function of the host. -/
def addHostFunction (name : String) (arity : Int) (action : Action) : Storing FunctionId := do
  let id := (← get).functions.size
  modify (addFunction (.host name arity action))
  return id

/-- Adds a scope. -/
def addHostScope (parent : Option ScopeId) : Storing ScopeId := do
  let id := (← get).scopes.size
  modify (addScope parent)
  return id

/-- Adds an object of the host, on a scope of its own if none is given. -/
def addHostObject (name : String) (scope : Option ScopeId) : Storing ObjectId := do
  let id := (← get).objects.size
  let scope ← match scope with
    | some scope => pure scope
    | none => addHostScope none
  modify (addObject ⟨name, scope⟩)
  return id

/-- Binds a method of the host in an object's scope. The object must not have one
    of that name and number of parameters already. -/
def addHostMethod (object : ObjectId) (name : String) (arity : Int) (action : Action) :
    Storing Unit := do
  let id ← addHostFunction name arity action
  defineFunction ((← get).object object).scope ⟨.text name, arity, id⟩

end Blockscript.Store
