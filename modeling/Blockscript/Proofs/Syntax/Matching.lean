import Mathlib.Data.List.Forall2
import Blockscript.Syntax.Node

/-!
# Trees that match

Trees are often compared node by node. Two nodes *match* if they are of the same kind, have the
same labels and the same literals, and are made of nodes that are related. In the places of
expressions this may be another relation than in those of statements, fields and methods. The
target of an assignment counts as one of these, as it is not evaluated.

* `Node.Matches`: nodes that match;
* `Node.IsMatching`: relations of trees by which all related nodes match, with `isMatching_eq`.
-/

namespace Blockscript.Node

/-- Two nodes of the same kind, with the same labels and literals. What they are made of is related
    by `Q` in the places of expressions, and by `X` in all other ones. -/
inductive Matches (Q X : Node → Node → Prop) : Node → Node → Prop
  | absent : Matches Q X .absent .absent
  | program {fields' fields methods' methods : List Node} : List.Forall₂ X fields' fields →
      List.Forall₂ X methods' methods →
      Matches Q X (.program fields' methods') (.program fields methods)
  | field {initializer' initializer : Node} (name : Label) (isConstant : Bool) :
      Q initializer' initializer →
      Matches Q X (.field name isConstant initializer') (.field name isConstant initializer)
  | method {statements' statements : List Node} (name : Label) (parameters : List Label) :
      List.Forall₂ X statements' statements →
      Matches Q X (.method name parameters statements') (.method name parameters statements)
  | discard {expression' expression : Node} : Q expression' expression →
      Matches Q X (.discard expression') (.discard expression)
  | declaration {initializer' initializer : Node} (name : Label) : Q initializer' initializer →
      Matches Q X (.declaration name initializer') (.declaration name initializer)
  | assignment {receiver' receiver value' value : Node} : X receiver' receiver → Q value' value →
      Matches Q X (.assignment receiver' value') (.assignment receiver value)
  | choice {condition' condition : Node}
      {thenStatements' thenStatements elseStatements' elseStatements : List Node} :
      Q condition' condition → List.Forall₂ X thenStatements' thenStatements →
      List.Forall₂ X elseStatements' elseStatements →
      Matches Q X (.choice condition' thenStatements' elseStatements')
        (.choice condition thenStatements elseStatements)
  | forLoop {initializer' initializer condition' condition increment' increment : Node}
      {statements' statements : List Node} : X initializer' initializer →
      Q condition' condition → X increment' increment → List.Forall₂ X statements' statements →
      Matches Q X (.forLoop initializer' condition' increment' statements')
        (.forLoop initializer condition increment statements)
  | whileLoop {condition' condition : Node} {statements' statements : List Node} :
      Q condition' condition → List.Forall₂ X statements' statements →
      Matches Q X (.whileLoop condition' statements') (.whileLoop condition statements)
  | answer {value' value : Node} : Q value' value → Matches Q X (.answer value') (.answer value)
  | literal (tag : Label) (payload : Payload) :
      Matches Q X (.literal tag payload) (.literal tag payload)
  | group {expression' expression : Node} : Q expression' expression →
      Matches Q X (.group expression') (.group expression)
  | binary {left' left right' right : Node} (operator : Label) : Q left' left → Q right' right →
      Matches Q X (.binary operator left' right') (.binary operator left right)
  | access {receiver' receiver : Node} (name : Label) : Q receiver' receiver →
      Matches Q X (.access receiver' name) (.access receiver name)
  | call {receiver' receiver : Node} {arguments' arguments : List Node} (name : Label) :
      Q receiver' receiver → List.Forall₂ Q arguments' arguments →
      Matches Q X (.call receiver' name arguments') (.call receiver name arguments)

/-- A relation of trees by which related nodes match, and a wider one for the places of
    expressions. What is related is left out in both trees or in none. -/
structure IsMatching (Q X : Node → Node → Prop) : Prop where
  matched {m n : Node} : X m n → m.Matches Q X n
  expression {m n : Node} : X m n → Q m n
  absent_iff {m n : Node} : Q m n → (m = .absent ↔ n = .absent)

variable {Q X : Node → Node → Prop} {m n : Node}

namespace Matches

/-- A node matches no node only if there is none. -/
theorem absent_iff (h : m.Matches Q X n) : m = .absent ↔ n = .absent := by
  cases h with
  | absent => exact ⟨fun _ => rfl, fun _ => rfl⟩
  | _ => exact ⟨nofun, nofun⟩

theorem swap (h : m.Matches Q X n) : n.Matches (fun n m => Q m n) (fun n m => X m n) m := by
  cases h with
  | absent => exact .absent
  | program hfields hmethods => exact .program hfields.flip hmethods.flip
  | field name isConstant h => exact .field name isConstant h
  | method name parameters h => exact .method name parameters h.flip
  | discard h => exact .discard h
  | declaration name h => exact .declaration name h
  | assignment hreceiver hvalue => exact .assignment hreceiver hvalue
  | choice hcondition hthen helse => exact .choice hcondition hthen.flip helse.flip
  | forLoop hinitializer hcondition hincrement hstatements =>
    exact .forLoop hinitializer hcondition hincrement hstatements.flip
  | whileLoop hcondition hstatements => exact .whileLoop hcondition hstatements.flip
  | answer h => exact .answer h
  | literal tag payload => exact .literal tag payload
  | group h => exact .group h
  | binary operator hleft hright => exact .binary operator hleft hright
  | access name h => exact .access name h
  | call name hreceiver harguments => exact .call name hreceiver harguments.flip

end Matches

/-- A tree matches itself. -/
theorem isMatching_eq : IsMatching Eq Eq where
  matched {m n} h := by
    subst h
    have heq : ∀ ns : List Node, List.Forall₂ Eq ns ns :=
      fun _ => List.forall₂_same.2 fun _ _ => rfl
    -- Every constructor matches itself, part by part.
    cases m with
    | absent => exact .absent
    | program fields methods => exact .program (heq _) (heq _)
    | field name isConstant _ => exact .field name isConstant rfl
    | method name parameters _ => exact .method name parameters (heq _)
    | discard _ => exact .discard rfl
    | declaration name _ => exact .declaration name rfl
    | assignment _ _ => exact .assignment rfl rfl
    | choice _ _ _ => exact .choice rfl (heq _) (heq _)
    | forLoop _ _ _ _ => exact .forLoop rfl rfl rfl (heq _)
    | whileLoop _ _ => exact .whileLoop rfl (heq _)
    | answer _ => exact .answer rfl
    | literal tag payload => exact .literal tag payload
    | group _ => exact .group rfl
    | binary operator _ _ => exact .binary operator rfl rfl
    | access _ name => exact .access name rfl
    | call _ name _ => exact .call name rfl (heq _)
  expression h := h
  absent_iff h := h ▸ Iff.rfl

end Blockscript.Node
