import Blockscript.Json.Printer
import Blockscript.Json.Reader
import Blockscript.Proofs.Text.Character

/-!
# Quoted texts of files

In a file a quoted text has one code unit for every character, which is written as it
is or as an escape. No character is half of a surrogate pair, so that the units can be
told apart again.

* `Json.readUnits_quoteChar`: a written character is one unit;
* `Json.joinSurrogates_toNat`: the units of characters are those characters;
* `Json.readText_quote`: reading undoes quoting.
-/

namespace Blockscript.Json

open Text

theorem hexValue?_hexDigit (n : Nat) : hexValue? (hexDigit n) = some (n % 16) := by
  have : ∀ d : Fin 16, hexValue? (Nat.digitChar d.val) = some d.val := by decide
  exact this ⟨n % 16, Nat.mod_lt n (by decide)⟩

/-- The four digits of an escape denote the unit that is escaped. -/
theorem readUnits_unitEscape {n : Nat} (h : n < 0x10000) (rest : List Char) (units : List Nat) :
    readUnits (unitEscape n ++ rest) units = readUnits rest (n :: units) := by
  have hunit : hexUnit? (hexDigit (n / 4096)) (hexDigit (n / 256)) (hexDigit (n / 16))
      (hexDigit n) = some n := by
    simp only [hexUnit?, hexValue?_hexDigit, Option.bind_eq_bind, Option.bind_some,
      Option.pure_def, Option.some.injEq]
    omega
  simp only [unitEscape, List.cons_append, List.nil_append, readUnits, hunit]

/-- A character that needs no escape is one unit. -/
theorem readUnits_cons {c : Char} (hquote : c ≠ '"') (hbackslash : c ≠ '\\')
    (hcontrol : ¬c.toNat < 0x20) (rest : List Char) (units : List Nat) :
    readUnits (c :: rest) units = readUnits rest (c.toNat :: units) := by
  rw [readUnits.eq_4 units c rest hquote (fun _ _ _ _ _ h _ => hbackslash h)
    (fun _ _ h _ => hbackslash h), if_neg hcontrol]

theorem readUnits_quoteChar (c : Char) (rest : List Char) (units : List Nat) :
    readUnits (quoteChar false c ++ rest) units = readUnits rest (c.toNat :: units) := by
  unfold quoteChar
  split
  · rfl
  · rfl
  · rfl
  · rfl
  · rfl
  · rfl
  · rfl
  · next hquote hbackslash _ _ _ _ _ =>
    simp only [Bool.false_eq_true, false_and, or_false, if_false]
    split
    · exact readUnits_unitEscape (by omega) rest units
    · next hcontrol => exact readUnits_cons hquote hbackslash hcontrol rest units

theorem readUnits_flatMap (s rest : List Char) (units : List Nat) :
    readUnits (s.flatMap (quoteChar false) ++ '"' :: rest) units =
      some (units.reverse ++ s.map Char.toNat, rest) := by
  induction s generalizing units with
  | nil => simp [readUnits]
  | cons c s ih =>
    rw [List.flatMap_cons, List.append_assoc, readUnits_quoteChar, ih, List.reverse_cons,
      List.append_assoc]
    rfl

/-- No character is half of a surrogate pair. -/
theorem not_surrogate (c : Char) : c.toNat < 0xD800 ∨ 0xDFFF < c.toNat := by
  have := c.valid
  simp only [UInt32.isValidChar, Nat.isValidChar] at this
  rw [Char.toNat]
  omega

theorem joinSurrogates_toNat (s : List Char) : joinSurrogates (s.map Char.toNat) = some s := by
  induction s with
  | nil => rfl
  | cons c s ih =>
    have hc := not_surrogate c
    cases s with
    | nil => rw [List.map_singleton, joinSurrogates, if_neg (by omega), Char.ofNat_toNat]
    | cons d s =>
      rw [List.map_cons, List.map_cons, joinSurrogates, if_neg (by omega), if_neg (by omega),
        Char.ofNat_toNat, ← List.map_cons, ih]
      rfl

/-- Reading a quoted text, after its opening quote, gives the text that was quoted. -/
theorem readText_quote (s : String) (rest : List Char) :
    readText (s.toList.flatMap (quoteChar false) ++ '"' :: rest) = .ok (s, rest) := by
  simp only [readText, readUnits_flatMap, List.reverse_nil, List.nil_append, joinSurrogates_toNat,
    String.ofList_toList]

end Blockscript.Json
