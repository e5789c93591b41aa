import Blockscript.Decimal.Range
import Blockscript.Error
import Blockscript.Json.Order

/-!
# Operators

Every operator is defined on two values of one kind, and never converts a value:
an integer is not equal to a decimal, and cannot be added to one.

Decimals that are no numbers only a document can hold. Infinities are compared and
computed with as such, but have no scale, which a division needs; what is undefined
equals nothing and is not compared; it is the result of every operation that takes it.

* `Value.kind`: the kind of a value, which a foreign value does not have;
* `Value.require`: a value that has to be of a kind;
* `Value.equal`: equality, which is that of the kind; decimals are equal if they
  agree in number and scale, functions and objects if they are the same one;
* `Value.compare`: the order of numbers, characters and strings;
* `Value.apply`: an operator by its text;
* `Value.textExceeds`, `Value.quotientExceeds`: where numbers have to be turned into texts,
  for which they may have too many digits.
-/

namespace Blockscript

/-- The operators that compare two values in order. -/
inductive Comparison where
  | less
  | lessOrEqual
  | greater
  | greaterOrEqual
  deriving DecidableEq, Repr

/-- The operators that compute with two numbers. -/
inductive Arithmetic where
  | add
  | subtract
  | multiply
  | divide
  deriving DecidableEq, Repr

/-- The operators that are applied to two values. -/
inductive Operator where
  | equal
  | unequal
  | comparison (c : Comparison)
  | arithmetic (a : Arithmetic)
  deriving DecidableEq, Repr

/-- The operators, by their texts. -/
def Operator.table : List (String × Operator) :=
  [("==", .equal), ("!=", .unequal),
   ("<", .comparison .less), ("<=", .comparison .lessOrEqual),
   (">", .comparison .greater), (">=", .comparison .greaterOrEqual),
   ("+", .arithmetic .add), ("-", .arithmetic .subtract),
   ("*", .arithmetic .multiply), ("/", .arithmetic .divide)]

/-- The operator that a label stands for. -/
def Operator.ofLabel? : Label → Option Operator
  | .text s => table.lookup s
  | .other _ => none

/-- The text of an arithmetic operator. -/
def Arithmetic.text : Arithmetic → String
  | .add => "+"
  | .subtract => "-"
  | .multiply => "*"
  | .divide => "/"

/-- The outcome of a comparison of two values that stand to each other in some way. -/
def Comparison.holds : Comparison → Standing → Bool
  | .less, s => s == .less
  | .lessOrEqual, s => s == .less || s == .equal
  | .greater, s => s == .greater
  | .greaterOrEqual, s => s == .greater || s == .equal

namespace Value

/-- The kind of a value. A foreign value has none. -/
def kind : Value → Except RuntimeError Kind
  | .nil => .ok .nil
  | .boolean _ => .ok .boolean
  | .integer _ => .ok .integer
  | .decimal _ => .ok .decimal
  | .special _ => .ok .decimal
  | .character _ => .ok .character
  | .string _ => .ok .string
  | .function _ => .ok .function
  | .object _ => .ok .object
  | .foreign value => .error (.unsupportedValue value)
  | .foreignCharacter _ => .ok .character

/-- A value that has to be of a kind. The context tells where it was wanted. -/
def require (wanted : Kind) (v : Value) (context : String) : Except RuntimeError Value := do
  let actual ← v.kind
  if actual = wanted then return v else throw (.kindMismatch wanted actual context)

/-! ### Decimals that are no numbers -/

/-- A decimal that is undefined. -/
def isUndefined : Value → Bool
  | .special (.undefined ..) => true
  | _ => false

/-- An undefined decimal that no operation takes. -/
def isSignaling : Value → Bool
  | .special (.undefined signaling _ _) => signaling
  | _ => false

/-- The sign of an infinity: whether it is the negative one. -/
def infinity? : Value → Option Bool
  | .special (.infinite negative) => some negative
  | _ => none

/-- A decimal below zero, or a zero with a minus sign. -/
def isNegative : Value → Bool
  | .decimal d => d.negative
  | .special (.infinite negative) => negative
  | _ => false

/-- A decimal that is zero. -/
def isZero : Value → Bool
  | .decimal d => d.isZero
  | _ => false

/-- The number that the digits of a decimal make up. Those of an infinity make up zero. -/
def coefficient? : Value → Option Nat
  | .decimal d => some d.coefficient
  | .special (.infinite _) => some 0
  | .special (.undefined _ _ payload) => some payload
  | _ => none

/-! ### Equality and order -/

/-- Whether two values of the same kind are equal. What is undefined equals nothing. -/
def sameContent : Value → Value → Bool
  | .nil, .nil => true
  | .boolean a, .boolean b => a == b
  | .integer a, .integer b => a == b
  | .decimal a, .decimal b => a.same b
  | .special (.infinite a), .special (.infinite b) => a == b
  | .character a, .character b => a == b
  | .string a, .string b => a == b
  | .function a, .function b => a == b
  | .object a, .object b => a == b
  | .foreignCharacter a, .foreignCharacter b => a.same b
  | _, _ => false

/-- Equality. Values of different kinds are never equal. -/
def equal (a b : Value) : Except Halt Bool := do
  let k ← a.kind.mapError .error
  let l ← b.kind.mapError .error
  if k ≠ l then
    return false
  else if a.isSignaling || b.isSignaling then
    throw (.fault .invalidOperation)
  else
    return sameContent a b

/-- How two values of the same kind stand to each other, if they can be compared. -/
def order? : Value → Value → Option Standing
  | .integer a, .integer b => some (.ofTests (a < b) (b < a))
  | .decimal a, .decimal b => some (.ofTests (a.lt b) (b.lt a))
  | .decimal _, .special (.infinite negative) => some (if negative then .greater else .less)
  | .special (.infinite negative), .decimal _ => some (if negative then .less else .greater)
  | .special (.infinite a), .special (.infinite b) => some (.ofTests (a && !b) (b && !a))
  | .character a, .character b => some (.ofTests (a < b) (b < a))
  | .string a, .string b => some (.ofTests (a < b) (b < a))
  | .foreignCharacter a, .foreignCharacter b => a.order? b
  | _, _ => none

/-- The kinds whose values are ordered. -/
def orderedKinds : List Kind :=
  [.integer, .decimal, .character, .string]

/-- A comparison of two values, which have to be of one ordered kind. What is
    undefined is not compared at all, and characters that hold something other than a
    text need not be comparable. -/
def compare (c : Comparison) (a b : Value) : Except Halt Bool := do
  let k ← a.kind.mapError .error
  let l ← b.kind.mapError .error
  if !(orderedKinds.contains k && k == l) then
    throw (.error (.incomparable k l))
  else if a.isUndefined || b.isUndefined then
    throw (.fault .invalidOperation)
  else match order? a b with
    | some standing => return c.holds standing
    | none => throw (.fault .unsuitableValue)

/-! ### Arithmetic -/

/-- An operation on integers. Division goes toward zero. -/
def computeInteger : Arithmetic → Int → Int → Except RuntimeError Int
  | .add, a, b => .ok (a + b)
  | .subtract, a, b => .ok (a - b)
  | .multiply, a, b => .ok (a * b)
  | .divide, a, b => if b = 0 then .error .divisionByZero else .ok (a.tdiv b)

/-- The number in range that stands for an exact result. -/
def fitDecimal (d : Decimal) : Except Halt Decimal :=
  match d.fit? with
  | some d => .ok d
  | none => .error (.fault .overflow)

/-- Refuses two decimals whose sum would take too many digits. -/
def checkDigits (a b : Decimal) : Except Halt Unit :=
  if a.isFarAbove b.exponent || b.isFarAbove a.exponent then
    .error (.fault .tooManyDigits)
  else
    .ok ()

/-- An operation on decimals. -/
def computeDecimal : Arithmetic → Decimal → Decimal → Except Halt Decimal
  | .add, a, b => do
    checkDigits a b
    fitDecimal (a.add b)
  | .subtract, a, b => do
    checkDigits a b
    fitDecimal (a.sub b)
  | .multiply, a, b => fitDecimal (a.mul b)
  | .divide, a, b => match a.divide? b with
    | some q => .ok q
    | none => .error (.error .divisionByZero)

/-- The sum of two decimals one of which is infinite, given the signs of the infinities. Those
    of different sign have none. -/
def addInfinities : Option Bool → Option Bool → Except Halt Value
  | some m, some n =>
    if m = n then .ok (.special (.infinite m)) else .error (.fault .invalidOperation)
  | some m, none => .ok (.special (.infinite m))
  | none, some n => .ok (.special (.infinite n))
  | none, none => .error (.fault .invalidOperation)

/-- An operation on two decimals that are not undefined, one of which is infinite. -/
def computeInfinite (operation : Arithmetic) (a b : Value) : Except Halt Value :=
  match operation with
  | .add => addInfinities a.infinity? b.infinity?
  | .subtract => addInfinities a.infinity? (b.infinity?.map not)
  | .multiply =>
    if a.isZero || b.isZero then
      .error (.fault .invalidOperation)
    else
      .ok (.special (.infinite (a.isNegative != b.isNegative)))
  | .divide => .error (.fault .unsuitableValue)

/-- An operation on two decimals one of which is no number. The first that is undefined is the
    result, if an operation takes it. None of them has a scale, which a division asks for. -/
def computeSpecial (operation : Arithmetic) (a b : Value) : Except Halt Value :=
  if operation = .divide then
    .error (if b.isZero then .error .divisionByZero else .fault .unsuitableValue)
  else if a.isSignaling || b.isSignaling then
    .error (.fault .invalidOperation)
  else if a.isUndefined then
    .ok a
  else if b.isUndefined then
    .ok b
  else
    computeInfinite operation a b

/-- An operation on two numbers of one kind; strings can be added, too. -/
def compute (operation : Arithmetic) (a b : Value) : Except Halt Value := do
  let k ← a.kind.mapError .error
  let l ← b.kind.mapError .error
  match operation, a, b with
  | _, .integer x, .integer y =>
    return .integer (← (computeInteger operation x y).mapError .error)
  | _, .decimal x, .decimal y => return .decimal (← computeDecimal operation x y)
  | .add, .string s, .string t => return .string (s ++ t)
  | _, _, _ =>
    if k = .decimal ∧ l = .decimal then
      computeSpecial operation a b
    else
      throw (.error (.unsupportedOperands operation.text k l))

theorem compute_integer {o : Arithmetic} {a b q : Int} (h : computeInteger o a b = .ok q) :
    compute o (.integer a) (.integer b) = .ok (.integer q) := by
  rw [compute]
  simp only [h]
  rfl

theorem compute_decimal {o : Arithmetic} {a b q : Decimal} (h : computeDecimal o a b = .ok q) :
    compute o (.decimal a) (.decimal b) = .ok (.decimal q) := by
  rw [compute]
  simp only [h]
  rfl

/-- Whether the text of a value is an integer of more digits than a limit. -/
def textExceeds (v : Value) (limit : Nat) : Bool :=
  match v with
  | .integer i => Text.exceedsDigits i.natAbs limit
  | _ => false

/-- Whether an operator divides decimals one of which has more digits than a limit. The
    quotient is computed from the digits of both, unless there is none. -/
def quotientExceeds (operator : Label) (a b : Value) (limit : Nat) : Bool :=
  match Operator.ofLabel? operator, a.coefficient?, b.coefficient? with
  | some (.arithmetic .divide), some m, some n =>
    !b.isZero && (Text.exceedsDigits m limit || Text.exceedsDigits n limit)
  | _, _, _ => false

/-- The outcome of an operator. What is no operator is refused only after the
    first value is known to have a kind. -/
def apply (operator : Label) (a b : Value) : Except Halt Value :=
  match Operator.ofLabel? operator with
  | some .equal => return .boolean (← a.equal b)
  | some .unequal => return .boolean !(← a.equal b)
  | some (.comparison c) => return .boolean (← compare c a b)
  | some (.arithmetic operation) => compute operation a b
  | none => do
    let _ ← a.kind.mapError .error
    throw (.error (.unknownOperator operator))

end Value

end Blockscript
