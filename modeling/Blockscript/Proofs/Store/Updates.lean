import Blockscript.Proofs.Store.Forest
import Blockscript.Proofs.Store.Permanent

/-!
# Updates change one binding

In a forest of scopes, with names bound anew inside and side by side, an update is seen from just
those scopes from which its binding is the nearest one of its name. From all others, and under all
other names, everything is as it was. The fields and methods of an object are those of its own
scope, whatever that is inside of. An update that fails does nothing.

* `Store.Rebinds`: what is found after a variable has got another value, or has been bound;
* `rebinds_setVariable`, `rebinds_addVariable`: the two updates of variables;
* `Store.SameMembers`: what the members of an object depend on;
* `updates_change_one_binding`: all updates.
-/

namespace Blockscript

/-- A variable that is found under a name has this name. -/
theorem Scope.same_of_findVariable? {c : Scope} {name : Label} {v : Variable}
    (h : c.findVariable? name = some v) : v.name.same name := by
  have hname := List.find?_some h
  exact hname

namespace Store

variable {s t : Store} {e o : ScopeId} {x : Label}

/-- A store after another one, in which a variable is found under a name from some scopes. From all
    others, and under all other names, the same variables are found as before, and the same
    functions from all scopes. -/
structure Rebinds (s t : Store) (InSight : ScopeId → Prop) (name : Label) (v : Variable) :
    Prop where
  inSight : ∀ e y, y.same name → InSight e → (lookupVariable e y).outcome t = .ok v
  others : ∀ e y, ¬ (y.same name ∧ InSight e) →
    (lookupVariable e y).outcome t = (lookupVariable e y).outcome s
  functions : ∀ e y arity,
    (lookupFunction e y arity).outcome t = (lookupFunction e y arity).outcome s

/-! ### What steps give -/

section Outcomes

variable (s) (e : ScopeId) (name : Label)

theorem outcome_lookupVariable : (lookupVariable e name).outcome s =
    match s.findVariable? e name with
    | some (_, v) => .ok v
    | none => .error (.undefinedVariable name) := by
  rw [Storing.outcome, run_lookupVariable]
  cases s.findVariable? e name <;> rfl

/-- An assignment succeeds just if there is a variable, and it is no constant. -/
theorem outcome_assignVariable_eq_ok_iff (value : Value) :
    (assignVariable e name value).outcome s = .ok () ↔
      ∃ o v, s.findVariable? e name = some (o, v) ∧ v.isConstant = false := by
  rw [Storing.outcome, run_assignVariable]
  cases s.findVariable? e name with
  | none => simp
  | some found => cases hv : found.2.isConstant <;> simp [hv, Prod.ext_iff]

/-- A declaration succeeds just if the scope does not bind the name. -/
theorem outcome_defineVariable_eq_ok_iff (v : Variable) :
    (defineVariable e v).outcome s = .ok () ↔ (s.scope e).findVariable? v.name = none := by
  rw [Storing.outcome, run_defineVariable]
  cases (s.scope e).findVariable? v.name <;> simp

theorem outcome_lookupFunction (arity : Int) : (lookupFunction e name arity).outcome s =
    match s.findFunction? e name arity with
    | some f => .ok f
    | none => match s.functionArities e name with
      | [] => .error (.undefinedFunction name)
      | arities => .error (.wrongArity name arities arity) := by
  rw [Storing.outcome, run_lookupFunction]
  cases s.findFunction? e name arity with
  | some f => rfl
  | none => cases s.functionArities e name <;> rfl

variable (o : ObjectId)

theorem outcome_getField : (getField o name).outcome s =
    match (s.scope (s.object o).scope).findVariable? name with
    | some v => .ok v.value
    | none => .error (.missingField (s.object o).name name) := by
  rw [Storing.outcome, run_getField]
  cases (s.scope (s.object o).scope).findVariable? name <;> rfl

theorem outcome_setField (value : Value) : (setField o name value).outcome s =
    match (s.scope (s.object o).scope).findVariable? name with
    | none => .error (.missingField (s.object o).name name)
    | some v => if v.isConstant then .error (.constantAssignment name) else .ok () := by
  rw [Storing.outcome, run_setField]
  cases (s.scope (s.object o).scope).findVariable? name with
  | none => rfl
  | some v =>
    by_cases hv : v.isConstant
    · simp only [if_pos hv]
    · simp only [if_neg hv]

/-- An assignment to a field succeeds just if there is one, and it is no constant. -/
theorem outcome_setField_eq_ok_iff (value : Value) : (setField o name value).outcome s = .ok () ↔
    ∃ v, (s.scope (s.object o).scope).findVariable? name = some v ∧ v.isConstant = false := by
  rw [outcome_setField]
  cases (s.scope (s.object o).scope).findVariable? name with
  | none => simp
  | some v => cases hv : v.isConstant <;> simp [hv]

theorem outcome_lookupMethod (arity : Int) : (lookupMethod o name arity).outcome s =
    match (s.scope (s.object o).scope).findFunction? name arity with
    | some f => .ok f
    | none => match sortedArities ((s.scope (s.object o).scope).arities name) with
      | [] => .error (.missingMethod (s.object o).name name)
      | arities => .error (.wrongMethodArity (s.object o).name name arities arity) := by
  rw [Storing.outcome, run_lookupMethod]
  cases (s.scope (s.object o).scope).findFunction? name arity with
  | some f => rfl
  | none => cases sortedArities ((s.scope (s.object o).scope).arities name) <;> rfl

end Outcomes

/-! ### Updates of variables -/

/-- What is the same for every lookup is found alike. -/
theorem findVariable?_same {y : Label} (h : y.same x) (s : Store) (e : ScopeId) :
    s.findVariable? e y = s.findVariable? e x := by
  have hsame : ∀ l : Label, l.same y = l.same x := by
    intro l
    rw [Bool.eq_iff_iff, Label.same_iff, Label.same_iff, (Label.same_iff y x).1 h]
  simp only [findVariable?, Scope.findVariable?, hsame]

/-- Functions are found where the parents and the functions of scopes are as before. -/
theorem outcome_lookupFunction_updateScope {g : Scope → Scope}
    (hparent : ∀ c, (g c).parent = c.parent) (hfunctions : ∀ c, (g c).functions = c.functions)
    (owner e : ScopeId) (name : Label) (arity : Int) :
    (lookupFunction e name arity).outcome (s.updateScope owner g) =
      (lookupFunction e name arity).outcome s := by
  have hscope : ∀ i, ((s.updateScope owner g).scope i).functions = (s.scope i).functions := by
    intro i
    rw [scope_updateScope]
    split
    · exact hfunctions _
    · rfl
  have hfind : (s.updateScope owner g).findFunction? e name arity =
      s.findFunction? e name arity := by
    simp only [findFunction?, Scope.findFunction?, chain_updateScope hparent, hscope]
  have harities : (s.updateScope owner g).functionArities e name = s.functionArities e name := by
    simp only [functionArities, Scope.arities, chain_updateScope hparent, hscope]
  rw [outcome_lookupFunction, outcome_lookupFunction, hfind, harities]

/-- A variable that is found in the scope of an assignment, under the name of the assignment, has
    the new value. -/
theorem findVariable?_updateScope_setVariable (owner : ScopeId) (value : Value) (y : Label) :
    (s.updateScope owner (·.setVariable x value)).findVariable? e y =
      (s.findVariable? e y).map fun found =>
        if found.1 = owner ∧ found.2.name.same x then (found.1, { found.2 with value })
        else found := by
  have hparent : ∀ c : Scope, (c.setVariable x value).parent = c.parent := fun _ => rfl
  rw [findVariable?, chain_updateScope hparent, findVariable?, List.map_findSome?]
  congr 1
  funext i
  rw [Function.comp_apply, scope_updateScope]
  split
  · next h =>
    obtain ⟨rfl, -⟩ := h
    rw [Scope.findVariable?_setVariable]
    cases (s.scope i).findVariable? y with
    | none => rfl
    | some v =>
      simp only [Option.map_some, true_and]
      split <;> rfl
  · next h =>
    cases hv : (s.scope i).findVariable? y with
    | none => rfl
    | some v =>
      have hne : ¬ (i = owner ∧ v.name.same x) := by
        rintro ⟨hi, -⟩
        -- A scope that is not there binds nothing.
        rw [scope_of_size_le (Nat.le_of_not_lt fun hlt => h ⟨hi, hlt⟩)] at hv
        cases hv
      simp only [Option.map_some, if_neg hne]

/-- An assignment is seen from where the changed binding is the nearest one, and only from there. -/
theorem rebinds_setVariable (hs : s.IsOrdered) {v : Variable}
    (h : (s.scope o).findVariable? x = some v) (value : Value) :
    s.Rebinds (s.updateScope o (·.setVariable x value)) (s.Nearest (s.BindsVariable x) · o) x
      { v with value } := by
  have hparent : ∀ c : Scope, (c.setVariable x value).parent = c.parent := fun _ => rfl
  have hfunctions : ∀ c : Scope, (c.setVariable x value).functions = c.functions := fun _ => rfl
  refine ⟨fun e y hy hin => ?_, fun e y hother => ?_,
    outcome_lookupFunction_updateScope hparent hfunctions o⟩
  · have hfound := (findVariable?_eq_some_iff hs).2 ⟨hin, h⟩
    rw [← findVariable?_same hy] at hfound
    have hname := Scope.same_of_findVariable? h
    rw [outcome_lookupVariable, findVariable?_updateScope_setVariable, hfound, Option.map_some,
      if_pos ⟨rfl, hname⟩]
  · rw [outcome_lookupVariable, findVariable?_updateScope_setVariable, outcome_lookupVariable]
    cases hfound : s.findVariable? e y with
    | none => rfl
    | some found =>
      obtain ⟨i, u⟩ := found
      rw [Option.map_some, if_neg]
      -- What is found there under the name of the assignment would be in sight.
      rintro ⟨rfl, hu⟩
      have huy := Scope.same_of_findVariable? (exists_of_findVariable? hfound)
      have hy : y.same x := (Label.same_iff y x).2
        (((Label.same_iff _ _).1 huy).symm.trans ((Label.same_iff _ _).1 hu))
      rw [findVariable?_same hy] at hfound
      exact hother ⟨hy, ((findVariable?_eq_some_iff hs).1 hfound).1⟩

/-- A new variable is seen from where its scope comes before all others that bind its name. -/
theorem rebinds_addVariable (hs : s.IsOrdered) (he : e < s.scopes.size) {v : Variable}
    (h : (s.scope e).findVariable? v.name = none) :
    s.Rebinds (s.updateScope e (·.addVariable v))
      (s.Nearest (fun i => i = e ∨ s.BindsVariable v.name i) · e) v.name v := by
  have hparent : ∀ c : Scope, (c.addVariable v).parent = c.parent := fun _ => rfl
  have hfunctions : ∀ c : Scope, (c.addVariable v).functions = c.functions := fun _ => rfl
  generalize ht : s.updateScope e (·.addVariable v) = t
  have hordered : t.IsOrdered := ht ▸ isOrdered_updateScope hs hparent e
  -- The update leaves every scope but the bound one as it was.
  have hscope : ∀ i, t.scope i = if i = e then (s.scope i).addVariable v else s.scope i := by
    intro i
    rw [← ht, scope_updateScope]
    by_cases hi : i = e
    · rw [if_pos ⟨hi, hi ▸ he⟩, if_pos hi]
    · rw [if_neg fun h => hi h.1, if_neg hi]
  have hself : v.name.same v.name := (Label.same_iff _ _).2 rfl
  have hnew : (t.scope e).findVariable? v.name = some v := by
    rw [hscope, if_pos rfl, Scope.findVariable?_addVariable, h, if_pos hself]
    rfl
  have hbinds : ∀ i, t.BindsVariable v.name i ↔ i = e ∨ s.BindsVariable v.name i := by
    intro i
    by_cases hi : i = e
    · subst hi
      simp only [BindsVariable, hnew, Option.isSome_some, true_or]
    · simp only [BindsVariable, hscope, hi, if_false, false_or]
  have hnearest : ∀ i o, t.Nearest (t.BindsVariable v.name) i o ↔
      s.Nearest (fun i => i = e ∨ s.BindsVariable v.name i) i o :=
    fun i o => Nearest.congr (fun j => ht ▸ parent_updateScope hparent e) hbinds
  -- A lookup sees the new binding exactly where the bound scope is nearest, and the old one
  -- elsewhere.
  refine ⟨fun i y hy hin => ?_, fun i y hother => ?_,
    ht ▸ outcome_lookupFunction_updateScope hparent hfunctions e⟩
  · have hfound := (findVariable?_eq_some_iff hordered).2 ⟨(hnearest i e).2 hin, hnew⟩
    rw [← findVariable?_same hy] at hfound
    rw [outcome_lookupVariable, hfound]
  · suffices hfind : t.findVariable? i y = s.findVariable? i y by
      rw [outcome_lookupVariable, outcome_lookupVariable, hfind]
    by_cases hy : y.same v.name
    -- The bound scope is not nearest here, so the search ends in another one, before and after.
    · have hout : ¬ s.Nearest (fun i => i = e ∨ s.BindsVariable v.name i) i e :=
        fun hin => hother ⟨hy, hin⟩
      rw [findVariable?_same hy, findVariable?_same hy]
      refine Option.ext fun (o, u) => ?_
      rw [findVariable?_eq_some_iff hordered, findVariable?_eq_some_iff hs, hnearest]
      constructor
      · rintro ⟨ho, hu⟩
        have hne : o ≠ e := fun heq => hout (heq ▸ ho)
        rw [hscope, if_neg hne] at hu
        exact ⟨ho.of_imp (fun _ => .inr) (ho.holds.resolve_left hne), hu⟩
      · rintro ⟨ho, hu⟩
        have ho := (ho.or_eq e).resolve_left hout
        have hne : o ≠ e := fun heq => hout (heq ▸ ho)
        rw [hscope, if_neg hne]
        exact ⟨ho, hu⟩
    · -- Under another name, every scope binds what it did.
      have hchain : t.chain i = s.chain i := ht ▸ chain_updateScope hparent e
      have hother : v.name.same y = false := by
        rw [Bool.eq_false_iff, Ne, Label.same_iff]
        exact fun heq => hy ((Label.same_iff _ _).2 heq.symm)
      have hvars : ∀ j, (t.scope j).findVariable? y = (s.scope j).findVariable? y := by
        intro j
        rw [hscope]
        split
        · rw [Scope.findVariable?_addVariable, hother]
          exact Option.or_none
        · rfl
      simp only [findVariable?, hchain, hvars]

/-! ### Members of objects -/

/-- In two stores, an object has the same name, and its own scope binds the same, whatever that is
    inside of and whatever else there is. -/
structure SameMembers (s t : Store) (o : ObjectId) : Prop where
  name : (s.object o).name = (t.object o).name
  bindings : (s.scope (s.object o).scope).bindings = (t.scope (t.object o).scope).bindings

/-- The fields and methods of an object are in its own scope. -/
theorem SameMembers.outcome_eq {o : ObjectId} (h : s.SameMembers t o) :
    (∀ field, (getField o field).outcome s = (getField o field).outcome t) ∧
    (∀ field value, (setField o field value).outcome s = (setField o field value).outcome t) ∧
    ∀ name arity,
      (lookupMethod o name arity).outcome s = (lookupMethod o name arity).outcome t := by
  have hvars : (s.scope (s.object o).scope).vars = (t.scope (t.object o).scope).vars :=
    (congrArg Scope.vars h.bindings :)
  have hfunctions : (s.scope (s.object o).scope).functions =
      (t.scope (t.object o).scope).functions :=
    (congrArg Scope.functions h.bindings :)
  refine ⟨fun field => ?_, fun field value => ?_, fun name arity => ?_⟩
  · rw [outcome_getField, outcome_getField, Scope.findVariable?, hvars, h.name,
      Scope.findVariable?]
  · rw [outcome_setField, outcome_setField, Scope.findVariable?, hvars, h.name,
      Scope.findVariable?]
  · rw [outcome_lookupMethod, outcome_lookupMethod, Scope.findFunction?, Scope.arities,
      hfunctions, h.name, Scope.findFunction?, Scope.arities]

/-- A scope comes before all others on its own chain. -/
theorem findVariable?_eq_of_binds {v : Variable} (h : (s.scope e).findVariable? x = some v) :
    s.findVariable? e x = some (e, v) := by
  obtain ⟨ids, hids⟩ := s.exists_chain_eq e
  rw [findVariable?, hids, List.findSome?_cons, h]
  rfl

/-- To change a field is to assign to it in the object's own scope. -/
theorem run_setField_eq_assignVariable {o : ObjectId} {field : Label}
    (h : s.BindsVariable field (s.object o).scope) (value : Value) :
    (setField o field value).run s = (assignVariable (s.object o).scope field value).run s := by
  obtain ⟨v, hv⟩ := Option.isSome_iff_exists.1 h
  rw [run_setField, run_assignVariable, hv, findVariable?_eq_of_binds hv]

end Store

open Store

/-- All updates, in any store that is made of scopes inside others, objects, functions and earlier
    updates. An assignment succeeds where the nearest variable of the name is not constant. It is
    seen from just the scopes from which that is the nearest one, too. A new variable is bound
    where there is none in the scope itself, and is seen from just the scopes from which this one
    is found before any other that binds the name. A field of an object is changed if its own
    scope binds it, not as a constant, and then as by an assignment there. Of all scopes, its own
    is the only one on which the members of an object depend. All other lookups are as before, and
    an update that fails leaves everything as it was. -/
theorem updates_change_one_binding {s : Store} (hs : s.IsForest) :
    (∀ e x value,
      ((assignVariable e x value).outcome s = .ok () ↔ ∃ o v,
        s.Nearest (s.BindsVariable x) e o ∧ (s.scope o).findVariable? x = some v ∧
          v.isConstant = false) ∧
      ∀ o v, s.Nearest (s.BindsVariable x) e o → (s.scope o).findVariable? x = some v →
        (assignVariable e x value).outcome s = .ok () →
        s.Rebinds ((assignVariable e x value).after s) (s.Nearest (s.BindsVariable x) · o) x
          { v with value }) ∧
    (∀ e v, e < s.scopes.size →
      ((defineVariable e v).outcome s = .ok () ↔ ¬ s.BindsVariable v.name e) ∧
      ((defineVariable e v).outcome s = .ok () →
        s.Rebinds ((defineVariable e v).after s)
          (s.Nearest (fun i => i = e ∨ s.BindsVariable v.name i) · e) v.name v)) ∧
    (∀ o field value,
      ((setField o field value).outcome s = .ok () ↔ ∃ v,
        (s.scope (s.object o).scope).findVariable? field = some v ∧ v.isConstant = false) ∧
      (s.BindsVariable field (s.object o).scope → (setField o field value).run s =
        (assignVariable (s.object o).scope field value).run s)) ∧
    (∀ o t, s.SameMembers t o →
      (∀ field, (getField o field).outcome s = (getField o field).outcome t) ∧
      (∀ field value, (setField o field value).outcome s = (setField o field value).outcome t) ∧
      ∀ name arity,
        (lookupMethod o name arity).outcome s = (lookupMethod o name arity).outcome t) ∧
    ∀ (u : Update) e, u.step.outcome s = .error e → u.step.after s = s := by
  have hordered := hs.isOrdered
  refine ⟨fun e x value => ⟨?_, fun o v ho hv hok => ?_⟩, fun e v he => ⟨?_, fun hok => ?_⟩,
    fun o field value => ⟨outcome_setField_eq_ok_iff s field o value, fun h =>
      run_setField_eq_assignVariable h value⟩, fun o t h => h.outcome_eq, fun u e herror => ?_⟩
  -- An assignment writes to the scope its lookup ends in, a definition to the scope it is given.
  · rw [outcome_assignVariable_eq_ok_iff]
    simp only [findVariable?_eq_some_iff hordered, and_assoc]
  · have hfound := (findVariable?_eq_some_iff hordered).2 ⟨ho, hv⟩
    obtain ⟨o', v', hfound', hconstant⟩ := (outcome_assignVariable_eq_ok_iff s e x value).1 hok
    obtain ⟨rfl, rfl⟩ := Prod.mk.inj (Option.some.inj (hfound.symm.trans hfound'))
    have hafter : (assignVariable e x value).after s =
        s.updateScope o (·.setVariable x value) := by
      rw [Storing.after, run_assignVariable, hfound]
      simp only [hconstant, if_neg Bool.false_ne_true]
    exact hafter ▸ rebinds_setVariable hordered hv value
  · rw [outcome_defineVariable_eq_ok_iff, BindsVariable, Option.not_isSome_iff_eq_none]
  · have hnone := (outcome_defineVariable_eq_ok_iff s e v).1 hok
    have hafter : (defineVariable e v).after s = s.updateScope e (·.addVariable v) := by
      rw [Storing.after, run_defineVariable, hnone]
      rfl
    exact hafter ▸ rebinds_addVariable hordered he hnone
  · rcases run_step_eq_or u s with ⟨e', hrun⟩ | ⟨owner, g, hrun, -⟩
    · rw [Storing.after, hrun]
    · rw [Storing.outcome, hrun] at herror
      cases herror

/-- A variable of the outermost scope is bound anew inside, and a scope inside of that assigns to
    it. A scope beside them goes on with the outermost one. -/
theorem updates_change_one_binding_beside :
    let x := Label.text "x"
    let s : Store := ⟨#[⟨none, [⟨x, false, .integer 1⟩], []⟩,
      ⟨some 0, [⟨x, false, .integer 2⟩], []⟩, ⟨some 1, [], []⟩, ⟨some 0, [], []⟩], #[], #[]⟩
    let t := (assignVariable 2 x (.integer 3)).after s
    s.IsForest ∧ (assignVariable 2 x (.integer 3)).outcome s = .ok () ∧
      (lookupVariable 1 x).outcome t = .ok ⟨x, false, .integer 3⟩ ∧
      (lookupVariable 3 x).outcome t = .ok ⟨x, false, .integer 1⟩ := by
  intro x s t
  have hs : s.IsForest := by
    have hroot := IsForest.update (.defineVariable 0 ⟨x, false, .integer 1⟩) (.root .empty)
    have hinner := IsForest.update (.defineVariable 1 ⟨x, false, .integer 2⟩)
      (hroot.inside (p := 0) (by decide))
    exact ((hinner.inside (p := 1) (by decide)).inside (p := 0) (by decide) :)
  have hnearest : s.Nearest (s.BindsVariable x) 2 1 :=
    .outside Bool.false_ne_true rfl (.here rfl)
  have hroot : s.Nearest (s.BindsVariable x) 3 0 := .outside Bool.false_ne_true rfl (.here rfl)
  have hrebinds := ((updates_change_one_binding hs).1 2 x (.integer 3)).2 1 _ hnearest rfl rfl
  refine ⟨hs, rfl, hrebinds.inSight 1 x rfl (.here rfl), ?_⟩
  rw [hrebinds.others 3 x fun h => nomatch h.2.unique hroot]
  rfl

end Blockscript
