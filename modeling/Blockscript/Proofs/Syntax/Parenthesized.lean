import Blockscript.Proofs.Syntax.Grammar
import Blockscript.Proofs.Syntax.Matching

/-!
# Trees with more parentheses

Wherever a program has an expression, it may have one in parentheses instead. So groups can be put
around any of the expressions of a program, each at its place in the tree, and it stays a program.
Its symbols are then the same as before, with parentheses between them. Only the target of an
assignment gets no group: it would still be parsed, but not be assigned to.

* `Places`: sets of places in a tree;
* `Node.parenthesize`: a tree with groups around its expressions at some places;
* `Node.outline`: the symbols of a tree, and where parentheses go between them;
* `filterMap_outline`, `map_outline`: an outline without the parentheses, and with them;
* `matches_parenthesize`: the nodes of the tree match those that it had before;
* `IsProgram.parenthesize`: a program stays one.
-/

namespace Blockscript

open Node

/-! ### Trees with more parentheses -/

/-- A set of places in a tree. The tree itself is at the empty place, and what is at some place of
    its part `i`, counted from zero, is at that place with `i` in front. -/
def Places := List Nat → Bool

namespace Places

/-- No places at all. -/
def none : Places :=
  fun _ => false

/-- The places in a part of a tree. -/
def part (P : Places) (i : Nat) : Places :=
  fun place => P (i :: place)

@[simp]
theorem part_none (i : Nat) : none.part i = none :=
  rfl

@[simp]
theorem none_eq_false (place : List Nat) : none place = false :=
  rfl

end Places

namespace Node

/-- What a list holds, unless a node is left out. -/
def whenPresent {α : Type} (n : Node) (as : List α) : List α :=
  match n with
  | .absent => []
  | _ => as

/-- An expression in parentheses, if they are wanted and it is not left out. -/
def wrap (b : Bool) : Node → Node
  | .absent => .absent
  | n => if b then .group n else n

mutual

/-- A tree with parentheses around the expressions inside of it that are at some places. The
    target of an assignment gets none, but what is inside of it may. -/
def parenthesize (P : Places) : Node → Node
  | .absent => .absent
  | .program fields methods =>
    .program (parenthesizeEach P 0 fields) (parenthesizeEach P fields.length methods)
  | .field name isConstant initializer =>
    .field name isConstant (wrap (P [0]) (parenthesize (P.part 0) initializer))
  | .method name parameters statements =>
    .method name parameters (parenthesizeEach P 0 statements)
  | .discard expression => .discard (wrap (P [0]) (parenthesize (P.part 0) expression))
  | .declaration name initializer =>
    .declaration name (wrap (P [0]) (parenthesize (P.part 0) initializer))
  | .assignment receiver value =>
    .assignment (parenthesize (P.part 0) receiver) (wrap (P [1]) (parenthesize (P.part 1) value))
  | .choice condition thenStatements elseStatements =>
    .choice (wrap (P [0]) (parenthesize (P.part 0) condition))
      (parenthesizeEach P 1 thenStatements)
      (parenthesizeEach P (1 + thenStatements.length) elseStatements)
  | .forLoop initializer condition increment statements =>
    .forLoop (parenthesize (P.part 0) initializer)
      (wrap (P [1]) (parenthesize (P.part 1) condition)) (parenthesize (P.part 2) increment)
      (parenthesizeEach P 3 statements)
  | .whileLoop condition statements =>
    .whileLoop (wrap (P [0]) (parenthesize (P.part 0) condition)) (parenthesizeEach P 1 statements)
  | .answer value => .answer (wrap (P [0]) (parenthesize (P.part 0) value))
  | .literal tag payload => .literal tag payload
  | .group expression => .group (wrap (P [0]) (parenthesize (P.part 0) expression))
  | .binary operator left right =>
    .binary operator (wrap (P [0]) (parenthesize (P.part 0) left))
      (wrap (P [1]) (parenthesize (P.part 1) right))
  | .access receiver name => .access (wrap (P [0]) (parenthesize (P.part 0) receiver)) name
  | .call receiver name arguments =>
    .call (wrap (P [0]) (parenthesize (P.part 0) receiver)) name (wrapEach P 1 arguments)

/-- The parts of a tree from number `i` on, with parentheses inside of them. -/
def parenthesizeEach (P : Places) (i : Nat) : List Node → List Node
  | [] => []
  | n :: ns => parenthesize (P.part i) n :: parenthesizeEach P (i + 1) ns

/-- The same for expressions, which may get parentheses around them, too. -/
def wrapEach (P : Places) (i : Nat) : List Node → List Node
  | [] => []
  | n :: ns => wrap (P [i]) (parenthesize (P.part i) n) :: wrapEach P (i + 1) ns

end

/-- No parentheses are put around a node that is not to be wrapped. -/
@[simp]
theorem wrap_false (n : Node) : wrap false n = n := by
  cases n <;> rfl

mutual

/-- Without any places, a tree stays as it is. -/
theorem parenthesize_none : (n : Node) → n.parenthesize .none = n
  | .absent | .literal .. => rfl
  | .program fields methods => by
    simp [parenthesize, parenthesizeEach_none _ fields, parenthesizeEach_none _ methods]
  | .field _ _ initializer => by simp [parenthesize, parenthesize_none initializer]
  | .method _ _ statements => by simp [parenthesize, parenthesizeEach_none _ statements]
  | .discard expression => by simp [parenthesize, parenthesize_none expression]
  | .declaration _ initializer => by simp [parenthesize, parenthesize_none initializer]
  | .assignment receiver value => by
    simp [parenthesize, parenthesize_none receiver, parenthesize_none value]
  | .choice condition thenStatements elseStatements => by
    simp [parenthesize, parenthesize_none condition, parenthesizeEach_none _ thenStatements,
      parenthesizeEach_none _ elseStatements]
  | .forLoop initializer condition increment statements => by
    simp [parenthesize, parenthesize_none initializer, parenthesize_none condition,
      parenthesize_none increment, parenthesizeEach_none _ statements]
  | .whileLoop condition statements => by
    simp [parenthesize, parenthesize_none condition, parenthesizeEach_none _ statements]
  | .answer value => by simp [parenthesize, parenthesize_none value]
  | .group expression => by simp [parenthesize, parenthesize_none expression]
  | .binary _ left right => by
    simp [parenthesize, parenthesize_none left, parenthesize_none right]
  | .access receiver _ => by simp [parenthesize, parenthesize_none receiver]
  | .call receiver _ arguments => by
    simp [parenthesize, parenthesize_none receiver, wrapEach_none _ arguments]

theorem parenthesizeEach_none (i : Nat) : (ns : List Node) → parenthesizeEach .none i ns = ns
  | [] => rfl
  | n :: ns => by simp [parenthesizeEach, parenthesize_none n, parenthesizeEach_none (i + 1) ns]

theorem wrapEach_none (i : Nat) : (ns : List Node) → wrapEach .none i ns = ns
  | [] => rfl
  | n :: ns => by simp [wrapEach, parenthesize_none n, wrapEach_none (i + 1) ns]

end

/-! ### The nodes of the tree -/

/-- A tree has groups around some of the expressions inside of another one. -/
def Parenthesized (m n : Node) : Prop :=
  ∃ P, m = n.parenthesize P

/-- The same for expressions, which may be in parentheses, too. -/
def Wrapped (m n : Node) : Prop :=
  ∃ b P, m = wrap b (n.parenthesize P)

/-- The nodes of a list become nodes with more parentheses, one by one. -/
theorem forall₂_parenthesizeEach (P : Places) (i : Nat) (ns : List Node) :
    List.Forall₂ Parenthesized (parenthesizeEach P i ns) ns := by
  induction ns generalizing i with
  | nil => exact .nil
  | cons n ns ih => exact .cons ⟨P.part i, rfl⟩ (ih (i + 1))

/-- The nodes of a list become nodes with more parentheses, which may stand in parentheses
    themselves. -/
theorem forall₂_wrapEach (P : Places) (i : Nat) (ns : List Node) :
    List.Forall₂ Wrapped (wrapEach P i ns) ns := by
  induction ns generalizing i with
  | nil => exact .nil
  | cons n ns ih => exact .cons ⟨P [i], P.part i, rfl⟩ (ih (i + 1))

/-- What is related to a list has something related to everything in it. -/
theorem exists_of_mem_forall₂ {α β : Type} {R : α → β → Prop} {as : List α} {bs : List β}
    (h : List.Forall₂ R as bs) {a : α} (ha : a ∈ as) : ∃ b ∈ bs, R a b := by
  induction h with
  | nil => cases ha
  | @cons _ b _ _ hab _ ih =>
    rcases List.mem_cons.1 ha with rfl | ha
    · exact ⟨b, List.mem_cons_self, hab⟩
    · obtain ⟨b, hb, hab⟩ := ih ha
      exact ⟨b, List.mem_cons_of_mem _ hb, hab⟩

section Each

variable {P : Places} {i : Nat} {ns : List Node} {p : Node → Prop}

/-- What holds of the nodes of a list with parentheses at any places holds of those with some of
    them. -/
theorem forall_mem_parenthesizeEach (h : ∀ n ∈ ns, ∀ P, p (n.parenthesize P)) :
    ∀ m ∈ parenthesizeEach P i ns, p m := by
  intro m hm
  obtain ⟨n, hn, P, rfl⟩ := exists_of_mem_forall₂ (forall₂_parenthesizeEach P i ns) hm
  exact h n hn P

/-- The same for lists whose nodes may be wrapped as well. -/
theorem forall_mem_wrapEach (h : ∀ n ∈ ns, ∀ b P, p (wrap b (n.parenthesize P))) :
    ∀ m ∈ wrapEach P i ns, p m := by
  intro m hm
  obtain ⟨n, hn, b, P, rfl⟩ := exists_of_mem_forall₂ (forall₂_wrapEach P i ns) hm
  exact h n hn b P

end Each

/-- A tree with more parentheses is of the same kind, and made of such trees. -/
theorem matches_parenthesize (P : Places) (n : Node) :
    (n.parenthesize P).Matches Wrapped Parenthesized n := by
  -- A part is wrapped where an expression stands, and not where a statement or the receiver of an
  -- assignment does.
  have hpart : ∀ i n, Parenthesized (parenthesize (P.part i) n) n := fun i n => ⟨P.part i, rfl⟩
  have hexpression : ∀ i n, Wrapped (wrap (P [i]) (parenthesize (P.part i) n)) n :=
    fun i n => ⟨P [i], P.part i, rfl⟩
  have heach := forall₂_parenthesizeEach P
  cases n with
  | absent => exact .absent
  | program fields methods => exact .program (heach _ _) (heach _ _)
  | field name isConstant _ => exact .field name isConstant (hexpression 0 _)
  | method name parameters _ => exact .method name parameters (heach _ _)
  | discard _ => exact .discard (hexpression 0 _)
  | declaration name _ => exact .declaration name (hexpression 0 _)
  | assignment _ _ => exact .assignment (hpart 0 _) (hexpression 1 _)
  | choice _ _ _ => exact .choice (hexpression 0 _) (heach _ _) (heach _ _)
  | forLoop _ _ _ _ =>
    exact .forLoop (hpart 0 _) (hexpression 1 _) (hpart 2 _) (heach _ _)
  | whileLoop _ _ => exact .whileLoop (hexpression 0 _) (heach _ _)
  | answer _ => exact .answer (hexpression 0 _)
  | literal tag payload => exact .literal tag payload
  | group _ => exact .group (hexpression 0 _)
  | binary operator _ _ => exact .binary operator (hexpression 0 _) (hexpression 1 _)
  | access _ name => exact .access name (hexpression 0 _)
  | call _ name _ => exact .call name (hexpression 0 _) (forall₂_wrapEach P 1 _)

end Node

/-! ### Where the parentheses go -/

/-- A symbol of a tree, or a parenthesis before or after an expression. -/
inductive Mark where
  | kept (s : Symbol)
  | opening
  | closing

namespace Mark

/-- A keyword, operator or bracket of the tree. -/
def ofText (text : String) : Mark :=
  .kept (.ofText text)

/-- The symbol of the tree, if it is one. -/
def kept? : Mark → Option Symbol
  | .kept s => some s
  | _ => none

/-- The symbol that a mark stands for. -/
def symbol : Mark → Symbol
  | .kept s => s
  | .opening => .ofText "("
  | .closing => .ofText ")"

@[simp]
theorem kept?_kept (s : Symbol) : (kept s).kept? = some s :=
  rfl

@[simp]
theorem kept?_ofText (text : String) : (ofText text).kept? = some (.ofText text) :=
  rfl

@[simp]
theorem kept?_opening : opening.kept? = none :=
  rfl

@[simp]
theorem kept?_closing : closing.kept? = none :=
  rfl

@[simp]
theorem symbol_kept (s : Symbol) : (kept s).symbol = s :=
  rfl

@[simp]
theorem symbol_ofText (text : String) : (ofText text).symbol = .ofText text :=
  rfl

@[simp]
theorem symbol_opening : opening.symbol = .ofText "(" :=
  rfl

@[simp]
theorem symbol_closing : closing.symbol = .ofText ")" :=
  rfl

/-- Lists of marks with commas between them. -/
def separated : List (List Mark) → List Mark
  | [] => []
  | item :: items => item ++ items.flatMap (ofText "," :: ·)

end Mark

namespace Node

/-- The marks of an expression, with parentheses if they are wanted and it is not left out. -/
def enclose (n : Node) (b : Bool) (ms : List Mark) : List Mark :=
  n.whenPresent (if b then .opening :: (ms ++ [.closing]) else ms)

mutual

/-- The symbols of a tree in the order of the program, with parentheses around the expressions that
    are at some places. -/
def outline (P : Places) : Node → List Mark
  | .absent => []
  | .program fields methods =>
    (outlineEach P 0 fields).flatten ++ (outlineEach P fields.length methods).flatten
  | .field name isConstant initializer =>
    .ofText "LET" :: ((if isConstant then [.ofText "CONST"] else []) ++
      .kept (.word name) :: (initializer.whenPresent (.ofText "=" ::
        initializer.enclose (P [0]) (outline (P.part 0) initializer)) ++ [.ofText ";"]))
  | .method name parameters statements =>
    .ofText "DEF" :: .kept (.word name) :: .ofText "(" ::
      (Mark.separated (parameters.map fun p => [.kept (.word p)]) ++ .ofText ")" ::
        .ofText "DO" :: ((outlineEach P 0 statements).flatten ++ [.ofText "END"]))
  | .discard expression =>
    expression.enclose (P [0]) (outline (P.part 0) expression) ++ [.ofText ";"]
  | .declaration name initializer =>
    .ofText "LET" :: .kept (.word name) :: (initializer.whenPresent (.ofText "=" ::
      initializer.enclose (P [0]) (outline (P.part 0) initializer)) ++ [.ofText ";"])
  | .assignment receiver value =>
    outline (P.part 0) receiver ++ .ofText "=" ::
      (value.enclose (P [1]) (outline (P.part 1) value) ++ [.ofText ";"])
  -- Without statements after it, the text may have an `ELSE` or not, as it had before.
  | .choice condition thenStatements elseStatements =>
    .ofText "IF" :: (condition.enclose (P [0]) (outline (P.part 0) condition) ++ .ofText "DO" ::
      ((outlineEach P 1 thenStatements).flatten ++
        .kept (if elseStatements.isEmpty then .optional "ELSE" else .ofText "ELSE") ::
          ((outlineEach P (1 + thenStatements.length) elseStatements).flatten ++ [.ofText "END"])))
  | .forLoop initializer condition increment statements =>
    .ofText "FOR" :: .ofText "(" :: (outlineHead (P.part 0) initializer ++ .ofText ";" ::
      (condition.enclose (P [1]) (outline (P.part 1) condition) ++ .ofText ";" ::
        (outlineHead (P.part 2) increment ++ .ofText ")" ::
          ((outlineEach P 3 statements).flatten ++ [.ofText "END"]))))
  | .whileLoop condition statements =>
    .ofText "WHILE" :: (condition.enclose (P [0]) (outline (P.part 0) condition) ++
      .ofText "DO" :: ((outlineEach P 1 statements).flatten ++ [.ofText "END"]))
  | .answer value =>
    .ofText "RETURN" :: (value.enclose (P [0]) (outline (P.part 0) value) ++ [.ofText ";"])
  | .literal tag payload => [.kept (.literal tag payload)]
  | .group expression =>
    .ofText "(" :: (expression.enclose (P [0]) (outline (P.part 0) expression) ++ [.ofText ")"])
  | .binary operator left right =>
    left.enclose (P [0]) (outline (P.part 0) left) ++ .kept (.word operator) ::
      right.enclose (P [1]) (outline (P.part 1) right)
  | .access receiver name =>
    receiver.whenPresent (receiver.enclose (P [0]) (outline (P.part 0) receiver) ++
      [.ofText "."]) ++ [.kept (.word name)]
  | .call receiver name arguments =>
    receiver.whenPresent (receiver.enclose (P [0]) (outline (P.part 0) receiver) ++
      [.ofText "."]) ++ .kept (.word name) :: .ofText "(" ::
        (Mark.separated (encloseEach P 1 arguments) ++ [.ofText ")"])

/-- The outlines of the parts of a tree from number `i` on. -/
def outlineEach (P : Places) (i : Nat) : List Node → List (List Mark)
  | [] => []
  | n :: ns => outline (P.part i) n :: outlineEach P (i + 1) ns

/-- The same for expressions, which may get parentheses around them, too. -/
def encloseEach (P : Places) (i : Nat) : List Node → List (List Mark)
  | [] => []
  | n :: ns => n.enclose (P [i]) (outline (P.part i) n) :: encloseEach P (i + 1) ns

/-- The outline of a statement in the head of a `FOR`. -/
def outlineHead (P : Places) : Node → List Mark
  | .declaration name value =>
    .kept (.word name) :: .ofText "=" :: value.enclose (P [0]) (outline (P.part 0) value)
  | .assignment receiver value =>
    outline (P.part 0) receiver ++ .ofText "=" ::
      value.enclose (P [1]) (outline (P.part 1) value)
  | _ => []

end

/-! ### What an outline is -/

section WhenPresent

variable {α β : Type} (n : Node) (as : List α)

/-- A missing node has no marks, whatever becomes of them. -/
@[simp]
theorem map_whenPresent (f : α → β) : (n.whenPresent as).map f = n.whenPresent (as.map f) := by
  cases n <;> rfl

@[simp]
theorem filterMap_whenPresent (f : α → Option β) :
    (n.whenPresent as).filterMap f = n.whenPresent (as.filterMap f) := by
  cases n <;> rfl

/-- A node with more parentheses is missing only if it was before. -/
@[simp]
theorem whenPresent_parenthesize (P : Places) :
    (n.parenthesize P).whenPresent as = n.whenPresent as := by
  cases n <;> rfl

@[simp]
theorem whenPresent_wrap (b : Bool) : (wrap b n).whenPresent as = n.whenPresent as := by
  cases n <;> cases b <;> rfl

theorem whenPresent_eq_ifPresent (ss : List Symbol) : n.whenPresent ss = n.ifPresent ss := by
  cases n <;> rfl

@[simp]
theorem whenPresent_symbols : n.whenPresent n.symbols = n.symbols := by
  cases n <;> rfl

end WhenPresent

/-- The symbols of a wrapped node are those of the node in parentheses, and none if it is missing.
    -/
theorem symbols_wrap (b : Bool) (n : Node) : (wrap b n).symbols =
    n.whenPresent (if b then .ofText "(" :: (n.symbols ++ [.ofText ")"]) else n.symbols) := by
  cases n <;> cases b <;> rfl

/-- A list has as many nodes as before. -/
theorem isEmpty_parenthesizeEach (P : Places) (i : Nat) (ns : List Node) :
    (parenthesizeEach P i ns).isEmpty = ns.isEmpty := by
  cases ns <;> rfl

/-- What is kept of a wrapped outline are the symbols of the tree, as parentheses are not. -/
theorem filterMap_enclose {n : Node} {ms : List Mark} (h : ms.filterMap Mark.kept? = n.symbols)
    (b : Bool) : (n.enclose b ms).filterMap Mark.kept? = n.symbols := by
  cases b with
  | false => simp [enclose, h]
  | true => simp [enclose, List.filterMap_cons, h]

/-- All of a wrapped outline are the symbols of the wrapped tree. -/
theorem map_enclose {n : Node} {ms : List Mark} {P : Places}
    (h : ms.map Mark.symbol = (n.parenthesize P).symbols) (b : Bool) :
    (n.enclose b ms).map Mark.symbol = (wrap b (n.parenthesize P)).symbols := by
  rw [symbols_wrap, whenPresent_parenthesize, enclose, map_whenPresent]
  cases b with
  | false => simp [h]
  | true => simp [h]

/-- What is kept of outlines with commas between them are the kept symbols with commas between them.
    -/
theorem filterMap_separated (mss : List (List Mark)) :
    (Mark.separated mss).filterMap Mark.kept? =
      Symbol.separated (mss.map (·.filterMap Mark.kept?)) := by
  cases mss with
  | nil => rfl
  | cons ms mss =>
    simp [Mark.separated, Symbol.separated, List.filterMap_flatMap, List.flatMap_map]

theorem map_separated (mss : List (List Mark)) : (Mark.separated mss).map Mark.symbol =
    Symbol.separated (mss.map (·.map Mark.symbol)) := by
  cases mss with
  | nil => rfl
  | cons ms mss =>
    simp [Mark.separated, Symbol.separated, List.map_flatMap, List.flatMap_map]

mutual

/-- Without the parentheses, an outline is what the tree asks for. -/
theorem filterMap_outline (P : Places) : (n : Node) →
    (n.outline P).filterMap Mark.kept? = n.symbols
  | .absent => rfl
  | .program fields methods => by
    simp [outline, symbols, List.filterMap_flatten, map_filterMap_outlineEach]
  | .field name isConstant initializer => by
    have h := filterMap_enclose (filterMap_outline (P.part 0) initializer) (P [0])
    cases isConstant <;> simp [outline, symbols, ← whenPresent_eq_ifPresent, h]
  | .method name parameters statements => by
    simp [outline, symbols, List.filterMap_flatten, map_filterMap_outlineEach,
      filterMap_separated, Function.comp_def]
  | .discard expression => by
    have h := filterMap_enclose (filterMap_outline (P.part 0) expression) (P [0])
    simp [outline, symbols, h]
  | .declaration name initializer => by
    have h := filterMap_enclose (filterMap_outline (P.part 0) initializer) (P [0])
    simp [outline, symbols, ← whenPresent_eq_ifPresent, h]
  | .assignment receiver value => by
    have h := filterMap_enclose (filterMap_outline (P.part 1) value) (P [1])
    simp [outline, symbols, filterMap_outline (P.part 0) receiver, h]
  | .choice condition thenStatements elseStatements => by
    have h := filterMap_enclose (filterMap_outline (P.part 0) condition) (P [0])
    simp [outline, symbols, List.filterMap_flatten, map_filterMap_outlineEach, h]
  | .forLoop initializer condition increment statements => by
    have h := filterMap_enclose (filterMap_outline (P.part 1) condition) (P [1])
    simp [outline, symbols, List.filterMap_flatten, map_filterMap_outlineEach,
      filterMap_outlineHead (P.part 0) initializer, filterMap_outlineHead (P.part 2) increment, h]
  | .whileLoop condition statements => by
    have h := filterMap_enclose (filterMap_outline (P.part 0) condition) (P [0])
    simp [outline, symbols, List.filterMap_flatten, map_filterMap_outlineEach, h]
  | .answer value => by
    have h := filterMap_enclose (filterMap_outline (P.part 0) value) (P [0])
    simp [outline, symbols, h]
  | .literal tag payload => rfl
  | .group expression => by
    have h := filterMap_enclose (filterMap_outline (P.part 0) expression) (P [0])
    simp [outline, symbols, h]
  | .binary operator left right => by
    have hleft := filterMap_enclose (filterMap_outline (P.part 0) left) (P [0])
    have hright := filterMap_enclose (filterMap_outline (P.part 1) right) (P [1])
    simp [outline, symbols, hleft, hright]
  | .access receiver name => by
    have h := filterMap_enclose (filterMap_outline (P.part 0) receiver) (P [0])
    simp [outline, symbols, ← whenPresent_eq_ifPresent, h]
  | .call receiver name arguments => by
    have h := filterMap_enclose (filterMap_outline (P.part 0) receiver) (P [0])
    simp [outline, symbols, ← whenPresent_eq_ifPresent, filterMap_separated,
      map_filterMap_encloseEach, h]

/-- What is kept of an outline of a list of nodes, by induction with the nodes of the tree. -/
theorem map_filterMap_outlineEach (P : Places) (i : Nat) : (ns : List Node) →
    (outlineEach P i ns).map (·.filterMap Mark.kept?) = eachSymbols ns
  | [] => rfl
  | n :: ns => by
    simp [outlineEach, eachSymbols, filterMap_outline (P.part i) n,
      map_filterMap_outlineEach P (i + 1) ns]

theorem map_filterMap_encloseEach (P : Places) (i : Nat) : (ns : List Node) →
    (encloseEach P i ns).map (·.filterMap Mark.kept?) = eachSymbols ns
  | [] => rfl
  | n :: ns => by
    have h := filterMap_enclose (filterMap_outline (P.part i) n) (P [i])
    simp [encloseEach, eachSymbols, h, map_filterMap_encloseEach P (i + 1) ns]

theorem filterMap_outlineHead (P : Places) : (n : Node) →
    (outlineHead P n).filterMap Mark.kept? = headSymbols n
  | .declaration name value => by
    have h := filterMap_enclose (filterMap_outline (P.part 0) value) (P [0])
    simp [outlineHead, headSymbols, h]
  | .assignment receiver value => by
    have h := filterMap_enclose (filterMap_outline (P.part 1) value) (P [1])
    simp [outlineHead, headSymbols, filterMap_outline (P.part 0) receiver, h]
  | .absent | .program .. | .field .. | .method .. | .discard .. | .choice .. | .forLoop ..
  | .whileLoop .. | .answer .. | .literal .. | .group .. | .binary .. | .access .. | .call .. => rfl

end

mutual

/-- With the parentheses, it is what the tree with groups asks for. -/
theorem map_outline (P : Places) : (n : Node) →
    (n.outline P).map Mark.symbol = (n.parenthesize P).symbols
  | .absent => rfl
  | .program fields methods => by
    simp [outline, parenthesize, symbols, List.map_flatten, map_map_outlineEach]
  | .field name isConstant initializer => by
    have h := map_enclose (map_outline (P.part 0) initializer) (P [0])
    cases isConstant <;>
      simp [outline, parenthesize, symbols, ← whenPresent_eq_ifPresent, h]
  | .method name parameters statements => by
    simp [outline, parenthesize, symbols, List.map_flatten, map_map_outlineEach, map_separated,
      Function.comp_def]
  | .discard expression => by
    have h := map_enclose (map_outline (P.part 0) expression) (P [0])
    simp [outline, parenthesize, symbols, h]
  | .declaration name initializer => by
    have h := map_enclose (map_outline (P.part 0) initializer) (P [0])
    simp [outline, parenthesize, symbols, ← whenPresent_eq_ifPresent, h]
  | .assignment receiver value => by
    have h := map_enclose (map_outline (P.part 1) value) (P [1])
    simp [outline, parenthesize, symbols, map_outline (P.part 0) receiver, h]
  | .choice condition thenStatements elseStatements => by
    have h := map_enclose (map_outline (P.part 0) condition) (P [0])
    simp [outline, parenthesize, symbols, List.map_flatten, map_map_outlineEach,
      isEmpty_parenthesizeEach, h]
  | .forLoop initializer condition increment statements => by
    have h := map_enclose (map_outline (P.part 1) condition) (P [1])
    simp [outline, parenthesize, symbols, List.map_flatten, map_map_outlineEach,
      map_outlineHead (P.part 0) initializer, map_outlineHead (P.part 2) increment, h]
  | .whileLoop condition statements => by
    have h := map_enclose (map_outline (P.part 0) condition) (P [0])
    simp [outline, parenthesize, symbols, List.map_flatten, map_map_outlineEach, h]
  | .answer value => by
    have h := map_enclose (map_outline (P.part 0) value) (P [0])
    simp [outline, parenthesize, symbols, h]
  | .literal tag payload => rfl
  | .group expression => by
    have h := map_enclose (map_outline (P.part 0) expression) (P [0])
    simp [outline, parenthesize, symbols, h]
  | .binary operator left right => by
    have hleft := map_enclose (map_outline (P.part 0) left) (P [0])
    have hright := map_enclose (map_outline (P.part 1) right) (P [1])
    simp [outline, parenthesize, symbols, hleft, hright]
  | .access receiver name => by
    have h := map_enclose (map_outline (P.part 0) receiver) (P [0])
    simp [outline, parenthesize, symbols, ← whenPresent_eq_ifPresent, h]
  | .call receiver name arguments => by
    have h := map_enclose (map_outline (P.part 0) receiver) (P [0])
    simp [outline, parenthesize, symbols, ← whenPresent_eq_ifPresent, map_separated,
      map_map_encloseEach, h]

/-- All of an outline of a list of nodes, by induction with the nodes of the tree. -/
theorem map_map_outlineEach (P : Places) (i : Nat) : (ns : List Node) →
    (outlineEach P i ns).map (·.map Mark.symbol) = eachSymbols (parenthesizeEach P i ns)
  | [] => rfl
  | n :: ns => by
    simp [outlineEach, parenthesizeEach, eachSymbols, map_outline (P.part i) n,
      map_map_outlineEach P (i + 1) ns]

theorem map_map_encloseEach (P : Places) (i : Nat) : (ns : List Node) →
    (encloseEach P i ns).map (·.map Mark.symbol) = eachSymbols (wrapEach P i ns)
  | [] => rfl
  | n :: ns => by
    have h := map_enclose (map_outline (P.part i) n) (P [i])
    simp [encloseEach, wrapEach, eachSymbols, h, map_map_encloseEach P (i + 1) ns]

theorem map_outlineHead (P : Places) : (n : Node) →
    (outlineHead P n).map Mark.symbol = headSymbols (n.parenthesize P)
  | .declaration name value => by
    have h := map_enclose (map_outline (P.part 0) value) (P [0])
    simp [outlineHead, parenthesize, headSymbols, h]
  | .assignment receiver value => by
    have h := map_enclose (map_outline (P.part 1) value) (P [1])
    simp [outlineHead, parenthesize, headSymbols, map_outline (P.part 0) receiver, h]
  | .absent | .program .. | .field .. | .method .. | .discard .. | .choice .. | .forLoop ..
  | .whileLoop .. | .answer .. | .literal .. | .group .. | .binary .. | .access .. | .call .. => rfl

end

/-! ### The grammar -/

theorem wrap_true {n : Node} (hn : n ≠ .absent) : wrap true n = .group n := by
  cases n with
  | absent => exact absurd rfl hn
  | _ => rfl

namespace IsExpression

variable {k : Nat} {e : Node}

/-- There are five levels of binding, and a group is of the last one. -/
theorem le_four (h : IsExpression k e) : k ≤ 4 := by
  induction h with
  | binary _ _ _ ih _ => exact ih
  | tighter hk _ _ => exact Nat.le_of_lt hk
  | _ => exact Nat.le_refl 4

/-- An expression may stand where looser ones may. -/
theorem looser (h : IsExpression k e) {j : Nat} (hjk : j ≤ k) : IsExpression j e := by
  obtain ⟨d, rfl⟩ := Nat.exists_eq_add_of_le hjk
  induction d with
  | zero => exact h
  | succ d ih => exact ih (.tighter h.le_four h) (Nat.le_add_right j d)

/-- Parentheses may be put around an expression wherever it stands. -/
theorem wrap (h : IsExpression k e) (b : Bool) : IsExpression k (wrap b e) := by
  have he : e ≠ .absent := by
    rintro rfl
    cases h.ifPresent [.ofText ""]
  cases b with
  | false => exact (wrap_false e).symm ▸ h
  | true =>
    rw [wrap_true he]
    exact (IsExpression.group (h.looser (Nat.zero_le k))).looser h.le_four

/-- By induction on the expression. Its parts may be in parentheses. -/
theorem parenthesize (h : IsExpression k e) (P : Places) :
    IsExpression k (e.parenthesize P) := by
  induction h generalizing P with
  | @literal n hn =>
    have hself : n.parenthesize P = n := by
      cases hn <;> rfl
    rw [hself]
    exact .literal hn
  | group _ ih => exact .group ((ih _).wrap _)
  | name hname => exact .name hname
  | function hname _ ih =>
    exact .function hname (forall_mem_wrapEach fun n hn b P => (ih n hn P).wrap b)
  | access _ hname ih => exact .access ((ih _).wrap _) hname
  | call _ hname _ ihreceiver iharguments =>
    exact .call ((ihreceiver _).wrap _) hname
      (forall_mem_wrapEach fun n hn b P => (iharguments n hn P).wrap b)
  | binary ho _ _ ihleft ihright => exact .binary ho ((ihleft _).wrap _) ((ihright _).wrap _)
  | tighter hk _ ih => exact .tighter hk (ih P)

end IsExpression

/-- An expression that may be missing may be put in parentheses, as only one that is there is
    wrapped. -/
theorem IsOptionalExpression.wrap {n : Node} (h : IsOptionalExpression n) (b : Bool) (P : Places) :
    IsOptionalExpression (wrap b (n.parenthesize P)) := by
  rcases h with rfl | h
  · exact .inl rfl
  · exact .inr ((h.parenthesize P).wrap b)

/-- Words that are not parentheses. -/
def AreKeywords (words : List String) : Prop :=
  ∀ w ∈ words, w ≠ "(" ∧ w ≠ ")"

instance (words : List String) : Decidable (AreKeywords words) :=
  inferInstanceAs (Decidable (∀ w ∈ words, w ≠ "(" ∧ w ≠ ")"))

/-- If a tree does not start with a keyword, it does not either with more parentheses. -/
theorem StartsWithout.of_marks {words : List String} (hwords : AreKeywords words) {m n : Node}
    {ms : List Mark} (hm : ms.map Mark.symbol = m.symbols)
    (hn : ms.filterMap Mark.kept? = n.symbols) (h : StartsWithout words n) :
    StartsWithout words m := by
  intro w hw hhead
  rw [← hm] at hhead
  cases ms with
  | nil => cases hhead
  | cons mark ms =>
    cases mark with
    | kept s =>
      obtain rfl := Option.some.inj hhead
      refine h w hw ?_
      rw [← hn]
      rfl
    -- A parenthesis in front is no keyword, whatever comes after it.
    | opening =>
      cases hhead
      exact (hwords _ hw).1 rfl
    | closing =>
      cases hhead
      exact (hwords _ hw).2 rfl

/-- A declaration or an assignment at the head of a loop is one with more parentheses in it. -/
theorem IsForInitializer.parenthesize {n : Node} (h : IsForInitializer n) (P : Places) :
    IsForInitializer (n.parenthesize P) := by
  rcases h with rfl | ⟨name, e, rfl, hname, he⟩
  · exact .inl rfl
  · exact .inr ⟨name, _, rfl, hname, (he.parenthesize _).wrap _⟩

theorem IsForIncrement.parenthesize {n : Node} (h : IsForIncrement n) (P : Places) :
    IsForIncrement (n.parenthesize P) := by
  rcases h with rfl | ⟨receiver, e, rfl, hreceiver, he⟩
  · exact .inl rfl
  · exact .inr ⟨_, _, rfl, hreceiver.parenthesize _, (he.parenthesize _).wrap _⟩

/-- By induction on the statement. -/
theorem IsStatement.parenthesize {words : List String} {n : Node} (h : IsStatement words n)
    (hwords : AreKeywords words) (P : Places) : IsStatement words (n.parenthesize P) := by
  have hfirst : ∀ {words}, AreKeywords words → AreKeywords (statementWords ++ words) :=
    fun hwords => List.forall_mem_append.2 ⟨by decide, hwords⟩
  have hend : AreKeywords ["END"] := by decide
  -- By induction on the statement. The first word of an expression statement may change to an
  -- opening parenthesis, which begins no other statement.
  induction h generalizing P with
  | @discard words e he hstart =>
    exact .discard ((he.parenthesize _).wrap _) (hstart.of_marks (hfirst hwords)
      (map_enclose (map_outline (P.part 0) e) _) (filterMap_enclose (filterMap_outline _ e) _))
  | declaration hname hinitializer => exact .declaration hname (hinitializer.wrap _ _)
  | @assignment words receiver value hreceiver hstart hvalue =>
    exact .assignment (hreceiver.parenthesize _) (hstart.of_marks (hfirst hwords)
      (map_outline (P.part 0) receiver) (filterMap_outline _ receiver))
      ((hvalue.parenthesize _).wrap _)
  | choice hcondition _ _ ihthen ihelse =>
    exact .choice ((hcondition.parenthesize _).wrap _)
      (forall_mem_parenthesizeEach fun n hn => ihthen n hn (by decide))
      (forall_mem_parenthesizeEach fun n hn => ihelse n hn hend)
  | forLoop hinitializer hcondition hincrement _ ih =>
    exact .forLoop (hinitializer.parenthesize _) ((hcondition.parenthesize _).wrap _)
      (hincrement.parenthesize _) (forall_mem_parenthesizeEach fun n hn => ih n hn hend)
  | whileLoop hcondition _ ih =>
    exact .whileLoop ((hcondition.parenthesize _).wrap _)
      (forall_mem_parenthesizeEach fun n hn => ih n hn hend)
  | answer hvalue => exact .answer ((hvalue.parenthesize _).wrap _)

/-- A field keeps its name, so that its initializer alone is changed. -/
theorem IsField.parenthesize {n : Node} (h : IsField n) (P : Places) :
    IsField (n.parenthesize P) := by
  cases h with
  | field hname hconstant hinitializer => exact .field hname hconstant (hinitializer.wrap _ _)

/-- A method keeps its name and its parameters, so that its body alone is changed. -/
theorem IsMethod.parenthesize {n : Node} (h : IsMethod n) (P : Places) :
    IsMethod (n.parenthesize P) := by
  cases h with
  | method hname hparameters hstatements =>
    exact .method hname hparameters
      (forall_mem_parenthesizeEach fun n hn => (hstatements n hn).parenthesize (by decide))

/-- A program with parentheses around some of its expressions is a program. -/
theorem IsProgram.parenthesize {n : Node} (h : IsProgram n) (P : Places) :
    IsProgram (n.parenthesize P) := by
  cases h with
  | program hfields hmethods =>
    exact .program (forall_mem_parenthesizeEach fun n hn => (hfields n hn).parenthesize)
      (forall_mem_parenthesizeEach fun n hn => (hmethods n hn).parenthesize)

end Node

end Blockscript
