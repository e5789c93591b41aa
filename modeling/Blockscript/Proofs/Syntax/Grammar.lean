import Blockscript.Proofs.Token.Class
import Blockscript.Syntax.Parser

/-!
# The grammar of programs

Which trees are programs is said here without a parser: names are identifiers,
literals hold what their tag says, the operands of an operator are as tight as its
place in the ladder asks, and a statement does not start with a word that would
make it another one.

* `Node.IsExpression`: expressions, by the step of the ladder they may stand at;
* `Node.IsStatement`: statements, by the words that end the block they stand in;
* `Node.IsProgram`: whole programs;
* `Node.symbols`: the words, names and literals of a tree, in the order in which
  a program has them.
-/

namespace Blockscript

/-! ### Symbols -/

/-- What a tree asks for at a place of the program. -/
inductive Symbol where
  /-- A keyword, operator, bracket or name. -/
  | word (label : Label)
  | literal (tag : Label) (payload : Payload)
  /-- A keyword that may be left out. -/
  | optional (text : String)

namespace Symbol

/-- A keyword, operator or bracket. -/
def ofText (text : String) : Symbol :=
  .word (.text text)

/-- Lists of symbols with commas between them. -/
def separated : List (List Symbol) → List Symbol
  | [] => []
  | item :: items => item ++ items.flatMap (ofText "," :: ·)

end Symbol

namespace Node

/-- Symbols that a node brings with it, unless it is left out. -/
def ifPresent (n : Node) (ss : List Symbol) : List Symbol :=
  match n with
  | .absent => []
  | _ => ss

mutual

/-- The symbols of a tree in the order of the program. -/
def symbols : Node → List Symbol
  | .absent => []
  | .program fields methods => (eachSymbols fields).flatten ++ (eachSymbols methods).flatten
  | .field name isConstant initializer =>
    .ofText "LET" :: ((if isConstant then [.ofText "CONST"] else []) ++
      .word name :: (initializer.ifPresent (.ofText "=" :: symbols initializer) ++ [.ofText ";"]))
  | .method name parameters statements =>
    .ofText "DEF" :: .word name :: .ofText "(" ::
      (Symbol.separated (parameters.map fun p => [.word p]) ++ .ofText ")" :: .ofText "DO" ::
        ((eachSymbols statements).flatten ++ [.ofText "END"]))
  | .discard expression => symbols expression ++ [.ofText ";"]
  | .declaration name initializer =>
    .ofText "LET" :: .word name ::
      (initializer.ifPresent (.ofText "=" :: symbols initializer) ++ [.ofText ";"])
  | .assignment receiver value =>
    symbols receiver ++ .ofText "=" :: (symbols value ++ [.ofText ";"])
  | .choice condition thenStatements elseStatements =>
    .ofText "IF" :: (symbols condition ++ .ofText "DO" ::
      ((eachSymbols thenStatements).flatten ++
        (if elseStatements.isEmpty then .optional "ELSE" else .ofText "ELSE") ::
          ((eachSymbols elseStatements).flatten ++ [.ofText "END"])))
  | .forLoop initializer condition increment statements =>
    .ofText "FOR" :: .ofText "(" :: (headSymbols initializer ++ .ofText ";" ::
      (symbols condition ++ .ofText ";" :: (headSymbols increment ++ .ofText ")" ::
        ((eachSymbols statements).flatten ++ [.ofText "END"]))))
  | .whileLoop condition statements =>
    .ofText "WHILE" :: (symbols condition ++ .ofText "DO" ::
      ((eachSymbols statements).flatten ++ [.ofText "END"]))
  | .answer value => .ofText "RETURN" :: (symbols value ++ [.ofText ";"])
  | .literal tag payload => [.literal tag payload]
  | .group expression => .ofText "(" :: (symbols expression ++ [.ofText ")"])
  | .binary operator left right => symbols left ++ .word operator :: symbols right
  | .access receiver name => receiver.ifPresent (symbols receiver ++ [.ofText "."]) ++ [.word name]
  | .call receiver name arguments =>
    receiver.ifPresent (symbols receiver ++ [.ofText "."]) ++ .word name :: .ofText "(" ::
      (Symbol.separated (eachSymbols arguments) ++ [.ofText ")"])

/-- The symbols of every tree of a list. -/
def eachSymbols : List Node → List (List Symbol)
  | [] => []
  | n :: ns => symbols n :: eachSymbols ns

/-- The symbols of a statement in the head of a `FOR`. -/
def headSymbols : Node → List Symbol
  | .declaration name value => .word name :: .ofText "=" :: symbols value
  | .assignment receiver value => symbols receiver ++ .ofText "=" :: symbols value
  | _ => []

end

theorem eachSymbols_eq_map (ns : List Node) : eachSymbols ns = ns.map symbols := by
  induction ns with
  | nil => rfl
  | cons n ns ih => rw [eachSymbols, ih, List.map_cons]

/-! ### Names and literals -/

/-- A name is an identifier. -/
def IsName (name : String) : Prop :=
  IsIdentifier name.toList

/-- A name that can stand on its own: not one of the words for literals. -/
def IsFreeName (name : String) : Prop :=
  IsName name ∧ name ∉ ["NIL", "TRUE", "FALSE"]

/-- A literal holds what its tag says: a decimal has places after the point, and a
    character is exactly one. -/
inductive IsLiteral : Node → Prop
  | nil : IsLiteral .nil
  | boolean (b : Bool) : IsLiteral (.boolean b)
  | integer (i : Int) : IsLiteral (.integer i)
  | decimal {d : Decimal} : d.exponent ≤ -1 → IsLiteral (.decimal d)
  | character (c : Char) : IsLiteral (.character (String.singleton c))
  | string (s : String) : IsLiteral (.string s)

/-! ### Expressions -/

/-- The operators of a step of the ladder, from the loosest on. -/
def operatorsAt : Nat → List String
  | 0 => Parser.logicalOperators
  | 1 => Parser.comparisonOperators
  | 2 => Parser.additiveOperators
  | 3 => Parser.multiplicativeOperators
  | _ => []

/-- Expressions of a step of the ladder, or of a tighter one. The operators of a
    step group from the left, so that the right operand has to be tighter. The last
    step has no operators; receivers are of it. -/
inductive IsExpression : Nat → Node → Prop
  | literal {n : Node} : IsLiteral n → IsExpression 4 n
  | group {e : Node} : IsExpression 0 e → IsExpression 4 (.group e)
  | name {name : String} : IsFreeName name → IsExpression 4 (.access .absent (.text name))
  | function {name : String} {arguments : List Node} : IsFreeName name →
      (∀ a ∈ arguments, IsExpression 0 a) → IsExpression 4 (.call .absent (.text name) arguments)
  | access {receiver : Node} {name : String} : IsExpression 4 receiver → IsName name →
      IsExpression 4 (.access receiver (.text name))
  | call {receiver : Node} {name : String} {arguments : List Node} : IsExpression 4 receiver →
      IsName name → (∀ a ∈ arguments, IsExpression 0 a) →
      IsExpression 4 (.call receiver (.text name) arguments)
  | binary {k : Nat} {operator : String} {left right : Node} : operator ∈ operatorsAt k →
      IsExpression k left → IsExpression (k + 1) right →
      IsExpression k (.binary (.text operator) left right)
  | tighter {k : Nat} {e : Node} : k < 4 → IsExpression (k + 1) e → IsExpression k e

/-- An expression is there. -/
theorem IsExpression.ifPresent {k : Nat} {e : Node} (h : IsExpression k e) (ss : List Symbol) :
    e.ifPresent ss = ss := by
  induction h with
  | literal hl => cases hl <;> rfl
  | tighter _ _ ih => exact ih
  | _ => rfl

/-- An expression starts with a parenthesis, a name or a literal. -/
theorem IsExpression.exists_head {k : Nat} {e : Node} (h : IsExpression k e) :
    ∃ s ss, e.symbols = s :: ss ∧ (s = .ofText "(" ∨ (∃ name, IsName name ∧ s = .ofText name) ∨
      ∃ tag payload, s = .literal tag payload) := by
  induction h with
  | literal hn => cases hn <;> exact ⟨_, _, rfl, .inr (.inr ⟨_, _, rfl⟩)⟩
  | group _ _ => exact ⟨_, _, rfl, .inl rfl⟩
  | name hname => exact ⟨_, _, rfl, .inr (.inl ⟨_, hname.1, rfl⟩)⟩
  | function hname _ _ => exact ⟨_, _, rfl, .inr (.inl ⟨_, hname.1, rfl⟩)⟩
  | access hreceiver _ ih =>
    obtain ⟨s, ss, heq, hs⟩ := ih
    rw [symbols, hreceiver.ifPresent, heq]
    exact ⟨_, _, rfl, hs⟩
  | call hreceiver _ _ ih _ =>
    obtain ⟨s, ss, heq, hs⟩ := ih
    rw [symbols, hreceiver.ifPresent, heq]
    exact ⟨_, _, rfl, hs⟩
  | binary _ _ _ ih _ =>
    obtain ⟨s, ss, heq, hs⟩ := ih
    rw [symbols, heq]
    exact ⟨_, _, rfl, hs⟩
  | tighter _ _ ih => exact ih

/-- An expression that may be left out. -/
def IsOptionalExpression (n : Node) : Prop :=
  n = .absent ∨ IsExpression 0 n

/-! ### Statements and programs -/

/-- The words with which all statements but expressions and assignments start. -/
def statementWords : List String :=
  ["LET", "IF", "FOR", "WHILE", "RETURN"]

/-- A tree does not start with any of some words. -/
def StartsWithout (words : List String) (n : Node) : Prop :=
  ∀ w ∈ words, n.symbols.head? ≠ some (.ofText w)

/-- The initializer of a `FOR` declares a variable with a value. -/
def IsForInitializer (n : Node) : Prop :=
  n = .absent ∨ ∃ name e, n = .declaration (.text name) e ∧ IsName name ∧ IsExpression 0 e

/-- The increment of a `FOR` is an assignment. -/
def IsForIncrement (n : Node) : Prop :=
  n = .absent ∨ ∃ receiver e, n = .assignment receiver e ∧ IsExpression 0 receiver ∧
    IsExpression 0 e

/-- Statements of a block that ends at one of some words. -/
inductive IsStatement : List String → Node → Prop
  | discard {words : List String} {e : Node} : IsExpression 0 e →
      StartsWithout (statementWords ++ words) e → IsStatement words (.discard e)
  | declaration {words : List String} {name : String} {initializer : Node} : IsName name →
      IsOptionalExpression initializer → IsStatement words (.declaration (.text name) initializer)
  | assignment {words : List String} {receiver value : Node} : IsExpression 0 receiver →
      StartsWithout (statementWords ++ words) receiver → IsExpression 0 value →
      IsStatement words (.assignment receiver value)
  | choice {words : List String} {condition : Node} {thenStatements elseStatements : List Node} :
      IsExpression 0 condition → (∀ s ∈ thenStatements, IsStatement ["ELSE", "END"] s) →
      (∀ s ∈ elseStatements, IsStatement ["END"] s) →
      IsStatement words (.choice condition thenStatements elseStatements)
  | forLoop {words : List String} {initializer condition increment : Node}
      {statements : List Node} : IsForInitializer initializer → IsExpression 0 condition →
      IsForIncrement increment → (∀ s ∈ statements, IsStatement ["END"] s) →
      IsStatement words (.forLoop initializer condition increment statements)
  | whileLoop {words : List String} {condition : Node} {statements : List Node} :
      IsExpression 0 condition → (∀ s ∈ statements, IsStatement ["END"] s) →
      IsStatement words (.whileLoop condition statements)
  | answer {words : List String} {value : Node} : IsExpression 0 value →
      IsStatement words (.answer value)

/-- Only a constant may be named `CONST`. -/
inductive IsField : Node → Prop
  | field {name : String} {isConstant : Bool} {initializer : Node} : IsName name →
      (isConstant ∨ name ≠ "CONST") → IsOptionalExpression initializer →
      IsField (.field (.text name) isConstant initializer)

inductive IsMethod : Node → Prop
  | method {name : String} {parameters : List String} {statements : List Node} : IsName name →
      (∀ p ∈ parameters, IsName p) → (∀ s ∈ statements, IsStatement ["END"] s) →
      IsMethod (.method (.text name) (parameters.map .text) statements)

/-- Fields, then methods. -/
inductive IsProgram : Node → Prop
  | program {fields methods : List Node} : (∀ f ∈ fields, IsField f) →
      (∀ m ∈ methods, IsMethod m) → IsProgram (.program fields methods)

end Node

end Blockscript
