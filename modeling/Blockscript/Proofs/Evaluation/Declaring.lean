import Blockscript.Proofs.Evaluation.Arrival
import Blockscript.Proofs.Evaluation.Declared
import Blockscript.Proofs.Evaluation.Entered

/-!
# Fields that are being declared

A host may offer functions to a program. While the fields of the program are being declared, its
globals bind those that are declared already, one after the other, and no functions; the rest of
the store is as the host has made it, but for values that functions of the host have given to
variables. So all names stand for these fields, or for functions of the host.

* `Scope.blank`: a scope without the values of its variables;
* `Store.OffersFunctions`: what a host offers;
* `State.IsDeclaring`: the states in which some fields have been declared;
* `IsDeclaring.findVariable?_eq`, `IsDeclaring.findFunction?_eq`: what names stand for;
* `agreesWhile_evaluate`, `agreesWhile_declareFields`: no function of a program is called in an
  initializer;
* `Node.IsBound`, `of_run_declareFields`, `of_run_declareMethods`: what is bound after declarations.
-/

namespace Blockscript

open Evaluation

/-! ### Scopes without values -/

/-- A variable without its value. -/
def Variable.blank (v : Variable) : Variable :=
  { v with value := .nil }

namespace Scope

/-- What a scope binds, without the values of its variables. -/
def blank (c : Scope) : Scope :=
  { c with vars := c.vars.map Variable.blank }

variable {c d : Scope} {name : Label}

/-- A value that is given to a variable is no part of its scope without values. -/
theorem blank_setVariable (value : Value) : (c.setVariable name value).blank = c.blank := by
  simp only [blank, setVariable, List.map_map, Scope.mk.injEq, true_and, and_true]
  refine List.map_congr_left fun v _ => ?_
  rw [Function.comp_apply]
  split <;> rfl

theorem blank_addVariable (v : Variable) :
    (c.addVariable v).blank = c.blank.addVariable v.blank := by
  simp only [blank, addVariable, List.map_append, List.map_cons, List.map_nil]

/-- Whether a name is bound does not depend on values. -/
theorem isSome_findVariable?_blank :
    (c.blank.findVariable? name).isSome = (c.findVariable? name).isSome := by
  rw [findVariable?, blank, List.find?_map, Option.isSome_map, findVariable?]
  rfl

end Scope

/-! ### Hosts -/

/-- A host offers functions to programs, and no variables: those are run inside of a scope from
    which none can be seen. -/
structure Store.OffersFunctions (host : Store) (parent : ScopeId) : Prop where
  isOrdered : host.IsOrdered
  parent_lt : parent < host.scopes.size
  functions (id : FunctionId) (f : Function) : host.functions[id]? = some f → f.IsOfHost
  vars (i : ScopeId) : i ∈ host.chain parent → (host.scope i).vars = []

/-- The globals are outside of what the host has made. -/
theorem Store.OffersFunctions.ne_of_mem_chain {host : Store} {parent i : ScopeId}
    (hhost : host.OffersFunctions parent) (hi : i ∈ host.chain parent) : i ≠ host.scopes.size :=
  Nat.ne_of_lt (Nat.lt_of_le_of_lt (le_of_mem_chain hhost.isOrdered hi) hhost.parent_lt)

/-- The standard store offers `print` and no variables. -/
theorem Store.offersFunctions_standard : Store.standard.OffersFunctions Store.standardScope := by
  refine ⟨Store.isOrdered_standard, Nat.zero_lt_one, ?_, ?_⟩
  · rintro (_ | id) f h
    · cases h
      exact ⟨_, _, _, rfl⟩
    · cases h
  · rintro (_ | i) -
    · rfl
    · rfl

/-- The variable that a field declares, without its value. -/
def Node.blankVariable? : Node → Option Variable
  | .field name isConstant _ => some ⟨name, isConstant, .nil⟩
  | _ => none

namespace State

/-- The globals are the current scope. They bind some variables and no functions, inside of what a
    host offers. -/
structure IsDeclaring (host : Store) (parent : ScopeId) (declared : List Variable) (s : State) :
    Prop where
  current : s.current = host.scopes.size
  size : s.store.scopes.size = host.scopes.size + 1
  functions : s.store.functions = host.functions
  scopes (i : ScopeId) : (s.store.scope i).blank =
    if i = host.scopes.size then ⟨some parent, declared, []⟩ else (host.scope i).blank

/-- Two states bind the same in the same scopes, but for the values of variables. -/
structure SameBindings (s t : State) : Prop where
  current : t.current = s.current
  size : t.store.scopes.size = s.store.scopes.size
  functions : t.store.functions = s.store.functions
  scopes (i : ScopeId) : (t.store.scope i).blank = (s.store.scope i).blank

theorem SameBindings.refl (s : State) : s.SameBindings s :=
  ⟨rfl, rfl, rfl, fun _ => rfl⟩

/-- It is kept by a run which names are bound. -/
theorem isCourse_sameBindings : IsCourse SameBindings where
  refl := .refl
  trans h h' := ⟨h'.current.trans h.current, h'.size.trans h.size, h'.functions.trans h.functions,
    fun i => (h'.scopes i).trans (h.scopes i)⟩
  record e s := by
    rw [record]
    split <;> exact ⟨rfl, rfl, rfl, fun _ => rfl⟩
  print _ _ := ⟨rfl, rfl, rfl, fun _ => rfl⟩
  assign value _ _ := by
    refine ⟨rfl, Store.size_updateScope _ _ _, rfl, fun i => ?_⟩
    rw [Store.scope_updateScope]
    split
    · exact Scope.blank_setVariable value
    · rfl

variable {host : Store} {parent : ScopeId} {declared : List Variable} {s t : State} {name : Label}

/-- Before any field is declared. -/
theorem isDeclaring_start (host : Store) (parent : ScopeId) (level : Nat) :
    (start host parent level).IsDeclaring host parent [] := by
  refine ⟨rfl, Store.size_addScope _ _, rfl, fun i => ?_⟩
  rw [start, Store.scope_addScope]
  split <;> rfl

namespace IsDeclaring

/-- What is declared stays so as long as no names are bound anew. -/
theorem of_sameBindings (hs : s.IsDeclaring host parent declared) (h : s.SameBindings t) :
    t.IsDeclaring host parent declared :=
  ⟨h.current.trans hs.current, h.size.trans hs.size, h.functions.trans hs.functions,
    fun i => (h.scopes i).trans (hs.scopes i)⟩

/-- One more variable is bound in the globals. -/
theorem addVariable (hs : s.IsDeclaring host parent declared) (v : Variable) :
    { s with store := s.store.updateScope s.current (·.addVariable v) }.IsDeclaring host parent
      (declared ++ [v.blank]) := by
  refine ⟨hs.current, (Store.size_updateScope _ _ _).trans hs.size, hs.functions, fun i => ?_⟩
  have hscope := hs.scopes i
  rw [Store.scope_updateScope, hs.current, hs.size]
  by_cases hi : i = host.scopes.size
  · subst hi
    rw [if_pos rfl] at hscope ⊢
    rw [if_pos ⟨rfl, Nat.lt_succ_self _⟩, Scope.blank_addVariable, hscope]
    rfl
  · rw [if_neg hi] at hscope ⊢
    rwa [if_neg fun h => hi h.1]

/-! ### Names -/

section Names

variable (hhost : host.OffersFunctions parent) (hs : s.IsDeclaring host parent declared)

include hhost hs

/-- Around the globals, everything is as the host has made it, but for values. -/
theorem blank_of_mem_chain {i : ScopeId} (hi : i ∈ host.chain parent) :
    (s.store.scope i).blank = (host.scope i).blank :=
  (hs.scopes i).trans (if_neg (hhost.ne_of_mem_chain hi))

/-- The scopes of the host keep their names and functions, whatever values their variables get. -/
theorem map_blank_chain : (host.chain parent).map (fun i => (s.store.scope i).blank) =
    (host.chain parent).map fun i => (host.scope i).blank :=
  List.map_congr_left fun _ hi => blank_of_mem_chain hhost hs hi

/-- Names are looked up in the globals and then in the scopes of the host. -/
theorem chain_eq : s.store.chain s.current = host.scopes.size :: host.chain parent := by
  have hparent : ∀ i, (s.store.scope i).parent =
      if i = host.scopes.size then some parent else (host.scope i).parent := by
    intro i
    have hscope := congrArg Scope.parent (hs.scopes i)
    rw [apply_ite Scope.parent] at hscope
    exact hscope
  have hordered : s.store.IsOrdered := by
    intro i p hp
    rw [hparent] at hp
    split at hp
    · next hi =>
      obtain rfl := Option.some.inj hp
      exact hi ▸ hhost.parent_lt
    · exact hhost.isOrdered i p hp
  rw [hs.current, Store.chain_of_parent hordered ((hparent _).trans (if_pos rfl))]
  refine congrArg _ (Store.chain_congr fun i hi => ?_)
  exact (hparent i).trans (if_neg (hhost.ne_of_mem_chain hi))

/-- Only the globals bind variables. -/
theorem findVariable?_eq (name : Label) : s.store.findVariable? s.current name =
    ((s.store.scope host.scopes.size).findVariable? name).map (host.scopes.size, ·) := by
  rw [Store.findVariable?, chain_eq hhost hs, List.findSome?_cons]
  have hnone : ((host.chain parent).findSome? fun i =>
      ((s.store.scope i).findVariable? name).map (i, ·)) = none := by
    refine List.findSome?_eq_none_iff.2 fun i hi => ?_
    have hvars : (s.store.scope i).vars.map Variable.blank = [] := by
      rw [← List.map_nil (f := Variable.blank), ← hhost.vars i hi]
      exact congrArg Scope.vars (blank_of_mem_chain hhost hs hi)
    rw [Scope.findVariable?, List.map_eq_nil_iff.1 hvars]
    rfl
  rw [hnone]
  cases (s.store.scope host.scopes.size).findVariable? name <;> rfl

omit hhost in
/-- The globals do not bind functions. -/
theorem functions_globals : (s.store.scope host.scopes.size).functions = [] :=
  congrArg Scope.functions ((hs.scopes host.scopes.size).trans (if_pos rfl))

/-- While fields are declared, functions are only those of the host. -/
theorem findFunction?_eq (name : Label) (arity : Int) :
    s.store.findFunction? s.current name arity = host.findFunction? parent name arity := by
  have hseen := congrArg (List.findSome? (·.findFunction? name arity)) (map_blank_chain hhost hs)
  rw [List.findSome?_map, List.findSome?_map] at hseen
  rw [Store.findFunction?, chain_eq hhost hs, List.findSome?_cons, Scope.findFunction?,
    functions_globals hs]
  exact hseen

theorem functionArities_eq (name : Label) :
    s.store.functionArities s.current name = host.functionArities parent name := by
  have hseen := congrArg (List.flatMap (·.arities name)) (map_blank_chain hhost hs)
  rw [List.flatMap_map, List.flatMap_map] at hseen
  rw [Store.functionArities, chain_eq hhost hs, List.flatMap_cons, Scope.arities,
    functions_globals hs]
  exact congrArg Store.sortedArities hseen

end Names

/-- What is bound in the globals is what has been declared. -/
theorem isSome_findVariable?_iff (hs : s.IsDeclaring host parent declared) (name : Label) :
    ((s.store.scope host.scopes.size).findVariable? name).isSome ↔
      ∃ v ∈ declared, v.name.same name := by
  have hscope := (hs.scopes host.scopes.size).trans (if_pos rfl)
  rw [← Scope.isSome_findVariable?_blank, hscope, Scope.findVariable?, List.find?_isSome]

end IsDeclaring

end State

/-- The error of a call for which there is no function. It tells whether the name is bound at
    all. -/
def Store.missingFunction (s : Store) (id : ScopeId) (name : Label) (arity : Int) : RuntimeError :=
  match s.functionArities id name with
  | [] => .undefinedFunction name
  | arities => .wrongArity name arities arity

namespace Evaluation

variable {α : Type} {host : Store} {parent : ScopeId} {declared : List Variable} {s t : State}
  (hhost : host.OffersFunctions parent)

include hhost

/-- While fields are declared, a variable is found in the globals if it has been declared, and is
    none of the host. -/
theorem run_readVariable_of_isDeclaring (hs : s.IsDeclaring host parent declared) (name : String) :
    (readVariable (.text name)).run s =
      match (s.store.scope host.scopes.size).findVariable? (.text name) with
      | some v => .ok v.value s
      | none => .error (.error (.undefinedVariable (.text name))) s := by
  rw [run_readVariable, hs.findVariable?_eq hhost]
  cases (s.store.scope host.scopes.size).findVariable? (.text name) <;> rfl

/-- Functions of the program are not found. -/
theorem run_lookupFunction_of_isDeclaring (hs : s.IsDeclaring host parent declared) {name : String}
    {arity : Int} (h : host.findFunction? parent (.text name) arity = none) :
    (lookupFunction (.text name) arity).run s =
      .error (.error (host.missingFunction parent (.text name) arity)) s := by
  rw [run_lookupFunction, hs.findFunction?_eq hhost, h, hs.functionArities_eq hhost,
    Store.missingFunction]
  cases host.functionArities parent (.text name) <;> rfl

/-! ### Declarations -/

omit hhost in
/-- To agree while fields are declared is kept by all that expressions are made of. -/
theorem isExpressive_declaring :
    IsExpressive (fun {_} => AgreesWhile (State.IsDeclaring host parent declared)) :=
  isExpressive_agreesWhile (State.isCourse_sameBindings.keeping fun _ _ => .of_sameBindings)

/-- An initializer is evaluated without calling a function of a program, and nothing but the values
    of variables is changed. -/
theorem agreesWhile_evaluate (P : State → Bool) (alarm : Halt) (steps depth : Nat) (n : Node) :
    AgreesWhile (State.IsDeclaring host parent declared)
      (evaluateEntering (screen P alarm) steps depth n) (evaluate steps depth n) := by
  have hfunctions : ∀ (s : State) (id : FunctionId) f, s.IsDeclaring host parent declared →
      s.store.functions[id]? = some f → f.IsOfHost := by
    intro s id f hs hf
    rw [hs.functions] at hf
    exact hhost.functions id f hf
  exact (agreesWhile_entering_host isExpressive_declaring hfunctions
    (fun id s hs => run_screen_host alarm fun f => hfunctions s id f hs) steps depth).1 n

/-- No expression takes a run out of the declarations. -/
theorem keeps_evaluate (steps depth : Nat) (n : Node) :
    AgreesWhile (State.IsDeclaring host parent declared) (evaluate steps depth n)
      (evaluate steps depth n) :=
  (agreesWhile_evaluate hhost (fun _ => true) .outOfSteps steps depth n).self

theorem keeps_arguments (steps depth : Nat) (ns : List Node) :
    AgreesWhile (State.IsDeclaring host parent declared) (ns.mapM (evaluate steps depth))
      (ns.mapM (evaluate steps depth)) :=
  isExpressive_declaring.mapM fun n _ => keeps_evaluate hhost steps depth n

/-- An initializer does not take a run out of the declarations either. -/
theorem keeps_initialValue (steps depth : Nat) (initializer : Node) :
    AgreesWhile (State.IsDeclaring host parent declared)
      (initialValue (evaluate steps depth) initializer)
      (initialValue (evaluate steps depth) initializer) :=
  isExpressive_declaring.initialValue (keeps_evaluate hhost steps depth) initializer

omit hhost in
/-- Declarations are logged in the course of a run. -/
theorem IsCourse.logDeclaration {T : State → State → Prop} (hT : IsCourse T) (name : Label)
    (isConstant : Bool) (v : Value) : Along T (logDeclaration name isConstant v) := by
  have hR := hT.isExpressive
  exact (hR.logFrom (hR.bind (hR.ofExcept _) fun _ => hR.bind (hR.display v) fun _ => hR.pure _)
    (makes_declare name isConstant v)).2

end Evaluation

/-- A field is bound in the globals, or a method is, to the function that it defines. -/
inductive Node.IsBound (globals : ScopeId) (s : Store) : Node → Prop
  | field {name : Label} {isConstant : Bool} {initializer : Node} {v : Variable} :
      (s.scope globals).findVariable? name = some v → v.isConstant = isConstant →
      IsBound globals s (.field name isConstant initializer)
  | method {name : Label} {parameters : List Label} {statements : List Node} {id : FunctionId} :
      (s.scope globals).findFunction? name parameters.length = some id →
      s.functions[id]? = some (.defined name parameters statements globals) →
      IsBound globals s (.method name parameters statements)

namespace Node

variable {globals : ScopeId} {s t : Store} {n : Node} {name : Label}

/-- What is bound for a node stays bound. -/
theorem IsBound.keeps (h : n.IsBound globals s) (hst : s.Keeps t) : n.IsBound globals t := by
  cases h with
  | field hfound hconstant =>
    obtain ⟨v', hfound', -, hconstant', -⟩ := (hst.scopes globals).vars _ _ hfound
    exact .field hfound' (hconstant'.trans hconstant)
  | method hfound hfunction =>
    exact .method ((hst.scopes globals).functions _ _ _ hfound) (hst.functions _ _ hfunction)

/-- A field is bound by a new variable. -/
theorem isBound_field (hglobals : globals < s.scopes.size) {v : Variable}
    (hnone : (s.scope globals).findVariable? v.name = none) (initializer : Node) :
    IsBound globals (s.updateScope globals (·.addVariable v))
      (.field v.name v.isConstant initializer) := by
  refine .field ?_ rfl
  rw [Store.scope_updateScope, if_pos ⟨rfl, hglobals⟩, Scope.findVariable?_addVariable, hnone,
    if_pos ((Label.same_iff _ _).2 rfl), Option.none_or]

/-- A method is bound by a new function. -/
theorem isBound_method (hglobals : globals < s.scopes.size) {parameters : List Label}
    (hnone : (s.scope globals).findFunction? name parameters.length = none)
    (statements : List Node) :
    IsBound globals ((s.addFunction (.defined name parameters statements globals)).updateScope
        globals (·.addFunction ⟨name, parameters.length, s.functions.size⟩))
      (.method name parameters statements) := by
  have hself : (⟨name, parameters.length, s.functions.size⟩ : FunctionBinding).isFor name
      parameters.length := by
    simp [FunctionBinding.isFor, Label.same_iff]
  have hscope : (s.addFunction (.defined name parameters statements globals)).scope globals =
    s.scope globals := rfl
  refine .method ?_ Array.getElem?_push_size
  rw [Store.scope_updateScope, if_pos ⟨rfl, hglobals⟩, Scope.findFunction?_addFunction, hscope,
    hnone, if_pos hself, Option.none_or]

end Node

namespace Evaluation

variable {host : Store} {parent : ScopeId} {declared : List Variable} {s t : State}
  (hhost : host.OffersFunctions parent) (limits : Limits)

/-- The fields of a program lose no binding. -/
theorem precedes_declareFields (fields : List Node) :
    Along State.Precedes (fields.forM (declareField limits)) := by
  have hR := @isRunCongruence_halts fun _ => false
  exact (hR.forM fun n => hR.field_self limits n).along

/-- The methods of a program lose no binding. -/
theorem precedes_declareMethods (methods : List Node) :
    Along State.Precedes (methods.forM declareMethod) := by
  have hR := @isRunCongruence_halts fun _ => false
  exact (hR.forM hR.declareMethod).along

include hhost in
/-- A field that could be declared is bound after those before it. -/
theorem of_run_declareField {n : Node} (hs : s.IsDeclaring host parent declared)
    (h : (declareField limits n).run s = .ok () t) :
    t.IsDeclaring host parent (declared ++ n.blankVariable?.toList) ∧
      n.IsBound host.scopes.size t.store := by
  rw [declareField] at h
  cases n with
  | field name isConstant initializer =>
    obtain ⟨v, u, hvalue, h⟩ := exists_of_run_bind h
    have hu := (keeps_initialValue hhost limits.steps limits.depth initializer).of_run hs hvalue
    obtain ⟨_, w, hdefine, hlog⟩ := exists_of_run_bind h
    obtain ⟨hnone, hw⟩ := of_run_defineVariable hdefine
    -- The declaration is logged after the variable is bound.
    have hsame := State.isCourse_sameBindings.logDeclaration name isConstant v w
    have hprecedes := isCourse_precedes.logDeclaration name isConstant v w
    rw [hlog] at hsame hprecedes
    have hdeclaring := hu.addVariable ⟨name, isConstant, v⟩
    have hglobals : host.scopes.size < u.store.scopes.size := hu.size ▸ Nat.lt_succ_self _
    rw [hu.current] at hnone hw hdeclaring
    have hbound : (Node.field name isConstant initializer).IsBound host.scopes.size w.store :=
      hw ▸ Node.isBound_field (v := ⟨name, isConstant, v⟩) hglobals hnone initializer
    exact ⟨(hw ▸ hdeclaring).of_sameBindings hsame, hbound.keeps hprecedes.store⟩
  | declaration name initializer =>
    obtain ⟨_, _, _, h⟩ := exists_of_run_bind h
    cases h
  | forLoop initializer _ _ _ =>
    obtain ⟨_, _, _, h⟩ := exists_of_run_bind h
    cases h
  | _ => cases h

include hhost in
/-- Fields are declared one after the other. By induction on those that are left. -/
theorem of_run_declareFields {fields : List Node} (hs : s.IsDeclaring host parent declared)
    (h : (fields.forM (declareField limits)).run s = .ok () t) :
    t.IsDeclaring host parent (declared ++ fields.filterMap Node.blankVariable?) ∧
      ∀ n ∈ fields, n.IsBound host.scopes.size t.store := by
  induction fields generalizing declared s with
  | nil =>
    cases h
    exact ⟨by rwa [List.filterMap_nil, List.append_nil], nofun⟩
  | cons n fields ih =>
    obtain ⟨_, u, hn, hfields⟩ := exists_of_run_bind (p := declareField limits n) h
    obtain ⟨hu, hbound⟩ := of_run_declareField hhost limits hs hn
    obtain ⟨ht, hrest⟩ := ih hu hfields
    have hprecedes := precedes_declareFields limits fields u
    rw [hfields] at hprecedes
    refine ⟨?_, List.forall_mem_cons.2 ⟨hbound.keeps hprecedes.store, hrest⟩⟩
    rw [List.append_assoc] at ht
    cases n <;> exact ht

/-- A function that is bound is new. -/
theorem of_run_defineFunction {name : Label} {arity : Int} {f : Function}
    (h : (defineFunction name arity f).run s = .ok () t) :
    (s.store.scope s.current).findFunction? name arity = none ∧ t = { s with
      store := (s.store.addFunction f).updateScope s.current
        (·.addFunction ⟨name, arity, s.store.functions.size⟩) } := by
  rw [defineFunction, checkName] at h
  cases hkey : name.key? with
  | none =>
    rw [hkey] at h
    cases h
  | some key =>
    rw [hkey] at h
    have hstoring : (storing (Store.defineFunction s.current
        ⟨name, arity, s.store.functions.size⟩)).run { s with store := s.store.addFunction f } =
          .ok () t := h
    have hscope : (s.store.addFunction f).scope s.current = s.store.scope s.current := rfl
    rw [run_storing, Store.run_defineFunction, hscope] at hstoring
    cases hfound : (s.store.scope s.current).findFunction? name arity with
    | none =>
      rw [hfound] at hstoring
      cases hstoring
      exact ⟨rfl, rfl⟩
    | some id =>
      rw [hfound] at hstoring
      cases hstoring

/-- A method that could be declared is bound in the globals, which are the current scope. -/
theorem of_run_declareMethod {globals : ScopeId} {n : Node} (hcurrent : s.current = globals)
    (hglobals : globals < s.store.scopes.size) (h : (declareMethod n).run s = .ok () t) :
    t.current = globals ∧ globals < t.store.scopes.size ∧ n.IsBound globals t.store := by
  cases n with
  | method name parameters statements =>
    obtain ⟨_, u, hdefine, hlog⟩ := exists_of_run_bind
      (p := defineFunction name parameters.length (.defined name parameters statements s.current)) h
    obtain ⟨hnone, hu⟩ := of_run_defineFunction hdefine
    have hsame := (State.isCourse_sameBindings.isExpressive.logFrom
      (State.isCourse_sameBindings.isExpressive.pure _) (makes_define name parameters.length)).2 u
    have hprecedes := (isCourse_precedes.isExpressive.logFrom
      (isCourse_precedes.isExpressive.pure _) (makes_define name parameters.length)).2 u
    rw [hlog] at hsame hprecedes
    subst hcurrent
    have hcurrent : u.current = s.current := hu ▸ rfl
    have hsize : u.store.scopes.size = s.store.scopes.size := hu ▸ Store.size_updateScope _ _ _
    have hbound : (Node.method name parameters statements).IsBound s.current u.store :=
      hu ▸ Node.isBound_method hglobals hnone statements
    refine ⟨hsame.current.trans hcurrent, ?_, hbound.keeps hprecedes.store⟩
    exact Nat.lt_of_lt_of_eq hglobals (hsame.size.trans hsize).symm
  | _ => cases h

/-- Methods are declared one after the other. By induction on those that are left. -/
theorem of_run_declareMethods {globals : ScopeId} {methods : List Node}
    (hcurrent : s.current = globals) (hglobals : globals < s.store.scopes.size)
    (h : (methods.forM declareMethod).run s = .ok () t) :
    ∀ n ∈ methods, n.IsBound globals t.store := by
  induction methods generalizing s with
  | nil => exact nofun
  | cons n methods ih =>
    obtain ⟨_, u, hn, hmethods⟩ := exists_of_run_bind (p := declareMethod n) h
    obtain ⟨hcurrent', hglobals', hbound⟩ := of_run_declareMethod hcurrent hglobals hn
    have hprecedes := precedes_declareMethods methods u
    rw [hmethods] at hprecedes
    exact List.forall_mem_cons.2 ⟨hbound.keeps hprecedes.store, ih hcurrent' hglobals' hmethods⟩

/-! ### Looking at the declaration of fields -/

include hhost in
/-- No function of a program is called while fields are declared, whichever they are. -/
theorem agreesWhile_declareFields (P : State → Bool) (alarm : Halt) (fields : List Node) :
    AgreesWhile (fun s => ∃ declared, s.IsDeclaring host parent declared)
      (fields.forM (declareFieldEntering (screen P alarm) limits))
      (fields.forM (declareField limits)) := by
  have hT := State.isCourse_sameBindings.keeping
    (I := fun s => ∃ declared, s.IsDeclaring host parent declared)
    fun s t ⟨declared, hs⟩ h => ⟨declared, hs.of_sameBindings h⟩
  have hR := isExpressive_agreesWhile hT
  have hevaluate : ∀ n, AgreesWhile (fun s => ∃ declared, s.IsDeclaring host parent declared)
      (evaluateEntering (screen P alarm) limits.steps limits.depth n)
      (evaluateWithin limits n) := by
    rintro n s ⟨declared, hs⟩
    obtain ⟨heq, hafter⟩ := agreesWhile_evaluate hhost P alarm limits.steps limits.depth n s hs
    exact ⟨heq, declared, hafter⟩
  have hdefine := fun name isConstant v => agreesWhile_of_along <|
    hT.defineVariable fun s (_ : (s.store.scope s.current).findVariable? name = none)
      ⟨declared, hs⟩ => ⟨_, hs.addVariable ⟨name, isConstant, v⟩⟩
  refine hR.forM fun n => ?_
  -- Other nodes fail, but some of them only after an initializer of theirs is evaluated.
  cases n with
  | field name isConstant initializer =>
    exact hR.bind (hR.initialValue hevaluate initializer) fun v => hR.declare (hdefine _ _ v)
  | declaration name initializer =>
    exact hR.bind (hR.initialValue hevaluate initializer) fun _ => hR.throw _
  | forLoop initializer _ _ _ =>
    exact hR.bind (hR.initialValue hevaluate initializer) fun _ => hR.throw _
  | _ => exact hR.throw _

end Evaluation

end Blockscript
