import Blockscript.Decimal.Written

/-!
# Real numbers of JSON texts

A number of a JSON text with a point or an exponent is a *binary64* number: the
nearest to the decimal written there. It is kept as an odd significand with a
power of two, in which every number has exactly one form.

* `Real.nearest`: the number nearest to a decimal, a tie going to the even
  significand;
* `Real.exact`: the decimal that equals the number;
* `Real.shortest`: the decimal of fewest digits that reads back, and of those
  the nearest to the number;
* `Real.text`: the number written with these digits.
-/

namespace Blockscript.Json

open Text

/-- A binary64 number: `± significand * 2 ^ exponent` with an odd significand
    (or zero, with exponent zero), or one of the two values that are no number. -/
inductive Real where
  | finite (negative : Bool) (significand : Nat) (exponent : Int)
  | infinite (negative : Bool)
  | undefined
  deriving DecidableEq, Repr

namespace Real

/-- The significand without the factors of two it holds, of which it divides out
    `fuel` at most. -/
def oddPart : (fuel significand : Nat) → (exponent : Int) → Nat × Int
  | 0, m, e => (m, e)
  | fuel + 1, m, e => if m % 2 = 0 then oddPart fuel (m / 2) (e + 1) else (m, e)

/-- The number `± m * 2 ^ e` in its only form, for `m` of at most 54 bits. -/
def ofScaled (negative : Bool) (m : Nat) (e : Int) : Real :=
  if m = 0 then
    .finite negative 0 0
  else
    let (m, e) := oddPart 54 m e
    .finite negative m e

/-- Two to a power, `1` at every negative one. -/
def twoTo (e : Int) : Nat :=
  Nat.pow 2 e.toNat

/-- The quotient `n / d` in units of `2 ^ e`, as a fraction. -/
def inUnits (n d : Nat) (e : Int) : Nat × Nat :=
  (n * twoTo (-e), d * twoTo e)

/-- The number nearest to a positive fraction: 53 bits of it, or fewer below
    the least normal number. -/
def ofFraction (negative : Bool) (n d : Nat) : Real :=
  let e := (n.log2 : Int) - d.log2 - 53
  let (n', d') := inUnits n d e
  let e := max (if n' / d' < twoTo 53 then e else e + 1) (-1074)
  let (n', d') := inUnits n d e
  let m := Decimal.divideHalfEven n' d'
  if 971 ≤ e ∧ twoTo (1024 - e) ≤ m then .infinite negative else ofScaled negative m e

/-- The number nearest to `± coefficient * 10 ^ exponent`. -/
def nearest (d : Decimal) : Real :=
  if d.isZero || d.adjustedExponent < -400 then
    .finite d.negative 0 0
  else if 400 < d.adjustedExponent then
    .infinite d.negative
  else
    ofFraction d.negative (d.coefficient * Decimal.tenTo d.exponent) (Decimal.tenTo (-d.exponent))

/-- The decimal that equals a number `± significand * 2 ^ exponent`. -/
def exact (negative : Bool) (significand : Nat) (exponent : Int) : Decimal :=
  if 0 ≤ exponent then
    ⟨negative, significand * twoTo exponent, 0⟩
  else
    ⟨negative, significand * Nat.pow 5 (-exponent).toNat, exponent⟩

/-- A decimal rounded to `count` digits, on either side: the neighbours on that
    grid, the nearer first. -/
def neighbours (d : Decimal) (count : Nat) : List Decimal :=
  let g := d.adjustedExponent - (count - 1 : Nat)
  let unit := Decimal.tenTo (g - d.exponent)
  let low := d.coefficient * Decimal.tenTo (d.exponent - g) / unit
  let rest := d.coefficient * Decimal.tenTo (d.exponent - g) % unit
  let below : Decimal := ⟨d.negative, low, g⟩
  let above : Decimal := ⟨d.negative, low + 1, g⟩
  if rest = 0 then [below]
  else if 2 * rest < unit ∨ (2 * rest = unit ∧ low % 2 = 0) then [below, above]
  else [above, below]

/-- The decimal of fewest digits whose nearest binary64 number is that of `d`.
    Seventeen digits always suffice. -/
def shortest (d : Decimal) : Decimal :=
  let candidates := (List.range 17).flatMap fun i => neighbours d (i + 1)
  (candidates.find? fun c => nearest c == nearest d).getD d

/-- The digits of a number, without trailing zeros. -/
def significantDigits (n : Nat) : List Char :=
  match (digitsOf n).reverse.dropWhile (· == '0') with
  | [] => ['0']
  | ds => ds.reverse

/-- The number as text: positional from `0.0001` up to `10 ^ 16`, always with a
    point, and with an exponent of at least two digits elsewhere. -/
def text : Real → List Char
  | .undefined => "NaN".toList
  | .infinite negative => (if negative then "-Infinity" else "Infinity").toList
  | .finite negative significand exponent =>
    let d := exact negative significand exponent
    if d.isZero then
      d.signText ++ "0.0".toList
    else
      let s := shortest d
      let digits := significantDigits s.coefficient
      let places := s.adjustedExponent
      if -4 ≤ places ∧ places < 16 then
        if digits.length ≤ places + 1 then
          d.signText ++ digits ++ List.replicate (places + 1 - digits.length).toNat '0' ++
            ".0".toList
        else
          d.signText ++ Decimal.pointed digits (digits.length - places - 1).toNat
      else
        let e := digitsOf places.natAbs
        d.signText ++ Decimal.pointed digits (digits.length - 1) ++ 'e' ::
          (if places < 0 then '-' else '+') :: (List.replicate (2 - e.length) '0' ++ e)

/-- The integer that the number is, if it is one. -/
def integer? : Real → Option Int
  | .finite negative significand exponent =>
    if 0 ≤ exponent then some ((exact negative significand exponent).signed) else none
  | _ => none

end Real

end Blockscript.Json
