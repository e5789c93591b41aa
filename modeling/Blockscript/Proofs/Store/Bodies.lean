import Mathlib.Data.List.Forall2
import Blockscript.Proofs.Store.Chain

/-!
# The bodies of functions

A store holds the functions that a program defines, with their bodies. Nothing that is done to the
store looks at a body: it is there to be executed when the function is called. So stores that
differ in nothing but bodies go on to do so, and give the same values and errors.

* `Function.Resembles`, `Store.Resembles`: functions and stores that differ in bodies alone, whose
  statements are related;
* `EndsRelated`: the same results, in states that are related;
* `Storing.IgnoresBodies`: steps that do not look at bodies, with `ignoresBodies_lookupFunction`
  and others for single ones.
-/

namespace Blockscript

/-- Two functions that are the same but for the statements of their bodies, which are related. -/
inductive Function.Resembles (X : Node → Node → Prop) : Function → Function → Prop
  | defined {body' body : List Node} (name : Label) (parameters : List Label)
      (closure : ScopeId) : List.Forall₂ X body' body →
      Resembles X (.defined name parameters body' closure) (.defined name parameters body closure)
  | host (name : String) (arity : Int) (action : Action) :
      Resembles X (.host name arity action) (.host name arity action)

/-- Two stores that are the same but for the bodies of their functions. -/
structure Store.Resembles (X : Node → Node → Prop) (s t : Store) : Prop where
  scopes : s.scopes = t.scopes
  functions : List.Forall₂ (Function.Resembles X) s.functions.toList t.functions.toList
  objects : s.objects = t.objects

/-- The same value or error, in states that are related. -/
inductive EndsRelated {ε σ α : Type} (T : σ → σ → Prop) :
    EStateM.Result ε σ α → EStateM.Result ε σ α → Prop
  | ok (a : α) {s t : σ} : T s t → EndsRelated T (.ok a s) (.ok a t)
  | error (e : ε) {s t : σ} : T s t → EndsRelated T (.error e s) (.error e t)

/-- What is related one way round is related the other way round. -/
theorem EndsRelated.swap {ε σ α : Type} {T T' : σ → σ → Prop} {x y : EStateM.Result ε σ α}
    (h : EndsRelated T x y) (hT : ∀ {s t}, T s t → T' t s) : EndsRelated T' y x := by
  cases h with
  | ok a hst => exact .ok a (hT hst)
  | error e hst => exact .error e (hT hst)

variable {X : Node → Node → Prop}

theorem Function.Resembles.swap {f g : Function} (h : f.Resembles X g) :
    g.Resembles (fun n m => X m n) f := by
  cases h with
  | defined name parameters closure hbody => exact .defined name parameters closure hbody.flip
  | host name arity action => exact .host name arity action

/-- A function resembles itself, with its own body. -/
theorem Function.Resembles.refl (hX : ∀ n, X n n) (f : Function) : f.Resembles X f := by
  cases f with
  | defined name parameters body closure =>
    exact .defined name parameters closure (List.forall₂_same.2 fun n _ => hX n)
  | host name arity action => exact .host name arity action

/-- The text of a function does not show its body. -/
theorem Function.Resembles.text_eq {f g : Function} (h : f.Resembles X g) :
    Store.functionText f = Store.functionText g := by
  cases h <;> rfl

/-- Lists of related things have related things at every place. -/
theorem rel_getElem? {α β : Type} {R : α → β → Prop} {as : List α} {bs : List β}
    (h : List.Forall₂ R as bs) (i : Nat) : Option.Rel R as[i]? bs[i]? := by
  induction h generalizing i with
  | nil => exact .none
  | cons hab _ ih =>
    cases i with
    | zero => exact .some hab
    | succ i => exact ih i

namespace Store

namespace Resembles

variable {s t : Store} (h : s.Resembles X t)

omit h in
/-- A store resembles itself. -/
theorem refl (hX : ∀ n, X n n) (s : Store) : s.Resembles X s :=
  ⟨rfl, List.forall₂_same.2 fun f _ => .refl hX f, rfl⟩

include h

theorem swap : t.Resembles (fun n m => X m n) s :=
  ⟨h.scopes.symm, (h.functions.imp fun _ _ => Function.Resembles.swap).flip, h.objects.symm⟩

/-! ### Lookups -/

/-- The functions at the same place resemble each other, or neither store has one there. -/
theorem function (id : FunctionId) :
    Option.Rel (Function.Resembles X) s.functions[id]? t.functions[id]? := by
  rw [← Array.getElem?_toList, ← Array.getElem?_toList]
  exact rel_getElem? h.functions id

theorem size_functions : s.functions.size = t.functions.size :=
  h.functions.length_eq

/-- Scopes are the same in both stores. -/
theorem scope (id : ScopeId) : s.scope id = t.scope id := by
  rw [Store.scope, Store.scope, h.scopes]

/-- Objects are the same in both stores. -/
theorem object (id : ObjectId) : s.object id = t.object id := by
  rw [Store.object, Store.object, h.objects, h.scopes]

/-- The chain of a scope is the same in both stores, as parents are. -/
theorem chain (id : ScopeId) : s.chain id = t.chain id :=
  chain_congr fun i _ => congrArg _ (h.scope i)

theorem findVariable? (id : ScopeId) (name : Label) :
    s.findVariable? id name = t.findVariable? id name := by
  simp only [Store.findVariable?, h.chain, h.scope]

/-- A name is bound to the same place of a function in both stores. -/
theorem findFunction? (id : ScopeId) (name : Label) (arity : Int) :
    s.findFunction? id name arity = t.findFunction? id name arity := by
  simp only [Store.findFunction?, h.chain, h.scope]

theorem functionArities (id : ScopeId) (name : Label) :
    s.functionArities id name = t.functionArities id name := by
  simp only [Store.functionArities, h.chain, h.scope]

/-- The text of a function tells its name and the number of its parameters. -/
theorem display (v : Value) : s.display v = t.display v := by
  cases v with
  | function id =>
    rw [Store.display, Store.display]
    have hf := h.function id
    generalize s.functions[id]? = f, t.functions[id]? = g at hf
    cases hf with
    | none => rfl
    | some hf => exact congrArg (fun text => Except.ok text) hf.text_eq
  | object id => rw [Store.display, Store.display, h.object]
  | _ => rfl

/-! ### Updates -/

/-- A new scope has the same place in both stores. -/
theorem addScope (parent : Option ScopeId) : (s.addScope parent).Resembles X (t.addScope parent) :=
  ⟨congrArg (fun scopes => scopes.push (.empty parent)) h.scopes, h.functions, h.objects⟩

theorem updateScope (id : ScopeId) (g : Scope → Scope) :
    (s.updateScope id g).Resembles X (t.updateScope id g) :=
  ⟨congrArg (fun scopes => scopes.modify id g) h.scopes, h.functions, h.objects⟩

/-- Functions that resemble each other get the same place. -/
theorem addFunction {f g : Function} (hf : f.Resembles X g) :
    (s.addFunction f).Resembles X (t.addFunction g) := by
  refine ⟨h.scopes, ?_, h.objects⟩
  have hpush : ∀ u : Store, ∀ f, (u.addFunction f).functions.toList = u.functions.toList ++ [f] :=
    fun _ _ => Array.toList_push
  rw [hpush, hpush]
  exact List.rel_append h.functions (.cons hf .nil)

end Resembles

end Store

/-! ### Steps -/

/-- A step on the store that does not look at the bodies of functions. -/
def Storing.IgnoresBodies {α : Type} (X : Node → Node → Prop) (step : Storing α) : Prop :=
  ∀ s t : Store, s.Resembles X t → EndsRelated (Store.Resembles X) (step.run s) (step.run t)

namespace Store

variable (id : ScopeId) (name : Label)

/-- The steps on a store look at names and scopes alone, so that they go the same way in stores that
    differ in bodies. -/
theorem ignoresBodies_defineVariable (v : Variable) : (defineVariable id v).IgnoresBodies X := by
  intro s t h
  rw [run_defineVariable, run_defineVariable, h.scope]
  split
  · exact .error _ h
  · exact .ok _ (h.updateScope id _)

theorem ignoresBodies_lookupVariable : (lookupVariable id name).IgnoresBodies X := by
  intro s t h
  rw [run_lookupVariable, run_lookupVariable, h.findVariable?]
  split
  · exact .ok _ h
  · exact .error _ h

theorem ignoresBodies_assignVariable (value : Value) :
    (assignVariable id name value).IgnoresBodies X := by
  intro s t h
  rw [run_assignVariable, run_assignVariable, h.findVariable?]
  split
  · exact .error _ h
  · split
    · exact .error _ h
    · exact .ok _ (h.updateScope _ _)

theorem ignoresBodies_defineFunction (b : FunctionBinding) :
    (defineFunction id b).IgnoresBodies X := by
  intro s t h
  rw [run_defineFunction, run_defineFunction, h.scope]
  split
  · exact .error _ h
  · exact .ok _ (h.updateScope id _)

/-- The error of a call without a function is the same, too: it tells of numbers of parameters. -/
theorem ignoresBodies_lookupFunction (arity : Int) :
    (lookupFunction id name arity).IgnoresBodies X := by
  intro s t h
  rw [run_lookupFunction, run_lookupFunction, h.findFunction?, h.functionArities]
  split
  · exact .ok _ h
  · split
    · exact .error _ h
    · exact .error _ h

variable (o : ObjectId)

theorem ignoresBodies_getField : (getField o name).IgnoresBodies X := by
  intro s t h
  rw [run_getField, run_getField, h.object, h.scope]
  split
  · exact .ok _ h
  · exact .error _ h

theorem ignoresBodies_setField (value : Value) : (setField o name value).IgnoresBodies X := by
  intro s t h
  rw [run_setField, run_setField, h.object, h.scope]
  split
  · exact .error _ h
  · split
    · exact .error _ h
    · exact .ok _ (h.updateScope _ _)

/-- A method is found by its name and its number of parameters. -/
theorem ignoresBodies_lookupMethod (arity : Int) :
    (lookupMethod o name arity).IgnoresBodies X := by
  intro s t h
  rw [run_lookupMethod, run_lookupMethod, h.object, h.scope]
  split
  · exact .ok _ h
  · split
    · exact .error _ h
    · exact .error _ h

end Store

end Blockscript
