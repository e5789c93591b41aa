import Blockscript.Json.Basic

/-!
# The order of JSON values

JSON values are compared by what they denote. Numbers are equal if they have the
same value, however they are written, and a boolean counts as one or zero; lists
are equal item by item, and objects key by key, in whatever order their members
are written.

Numbers, texts and lists can be compared, lists lexicographically. Two values that
are equal can be compared, too, whatever they are; others need not be comparable.

The real `NaN` is no number. All of a document are one and the same value, so that
it is equal to itself, but it stands apart from all numbers.

* `Standing`: how two values stand to each other;
* `Json.same`: equality;
* `Json.order?`: the standing of two values, if they can be compared.
-/

namespace Blockscript

/-- How two values that can be compared stand to each other. -/
inductive Standing where
  | less
  | equal
  | greater
  /-- Neither comes before the other, although they are not equal. -/
  | apart
  deriving DecidableEq, Repr

/-- The standing of two values of a linear order, given whether the first is less
    than the second, and the other way round. -/
def Standing.ofTests (less greater : Bool) : Standing :=
  if less then .less else if greater then .greater else .equal

namespace Json

/-- The value of a number, or of what counts as one: on which side of all finite
    numbers it lies, and which of them it is. -/
def number? : Json → Option (Int × Decimal)
  | .boolean b => some (0, .ofSigned (if b then 1 else 0) 0)
  | .integer i => some (0, .ofSigned i 0)
  | .real (.finite negative significand exponent) =>
    some (0, Real.exact negative significand exponent)
  | .real (.infinite negative) => some (if negative then -1 else 1, .ofSigned 0 0)
  | _ => none

/-- The real that is no number. -/
def isUndefined : Json → Bool
  | .real .undefined => true
  | _ => false

/-- Whether two values count as the same number, or both as none. -/
def sameNumber (a b : Json) : Bool :=
  match a.number?, b.number? with
  | some (s, x), some (t, y) => s == t && x.sameNumber y
  | _, _ => a.isUndefined && b.isUndefined

/-- The standing of two values that count as numbers, or of such a value and the
    real that is none. -/
def orderNumbers? (a b : Json) : Option Standing :=
  match a.number?, b.number? with
  | some (s, x), some (t, y) =>
    some (.ofTests (s < t || (s == t && x.lt y)) (t < s || (s == t && y.lt x)))
  | some _, none => if b.isUndefined then some .apart else none
  | none, some _ => if a.isUndefined then some .apart else none
  | none, none => none

mutual

/-- Whether two values are equal. -/
def same : Json → Json → Bool
  | .null, .null => true
  | .string s, .string t => s == t
  | .array items, .array others => sameItems items others
  | .object members, .object others =>
    members.length == others.length && sameMembers members others
  | a, b => sameNumber a b

/-- Whether two lists are equal item by item. -/
def sameItems : List Json → List Json → Bool
  | [], [] => true
  | a :: as, b :: bs => same a b && sameItems as bs
  | _, _ => false

/-- Whether all members of an object are members of another one. -/
def sameMembers : List (String × Json) → List (String × Json) → Bool
  | [], _ => true
  | m :: ms, others => sameMember m others && sameMembers ms others

/-- Whether a member is one of an object. -/
def sameMember : String × Json → List (String × Json) → Bool
  | (key, value), others =>
    match member? others key with
    | some other => same value other
    | none => false

end

mutual

/-- The standing of two values, if they are equal or can be compared. -/
def order? : Json → Json → Option Standing
  | .string s, .string t => some (.ofTests (s < t) (t < s))
  | .array items, .array others => orderItems? items others
  | a, b => if same a b then some .equal else orderNumbers? a b

/-- The standing of two lists: that of the first two items that differ, or else the
    shorter one comes first. -/
def orderItems? : List Json → List Json → Option Standing
  | [], [] => some .equal
  | [], _ :: _ => some .less
  | _ :: _, [] => some .greater
  | a :: as, b :: bs => if same a b then orderItems? as bs else order? a b

end

end Json

end Blockscript
