import Blockscript.Text.Blank
import Blockscript.Text.Digit

/-!
# Characters by code point

Which characters belong to a class is a question about their code points, which
arithmetic decides. Runs of characters of a class are what scanners take off the
front of a text.

* `isDigit_iff`, `isBlank_eq_false`: digits and blanks by code point;
* `takeWhile_append_of_ends`: the longest run that starts a text.
-/

namespace Blockscript.Text

theorem isDigit_iff {c : Char} : isDigit c ↔ 48 ≤ c.toNat ∧ c.toNat ≤ 57 := by
  simp [isDigit, Char.le_def, UInt32.le_iff_toNat_le]

/-- The ASCII characters that leave a mark are no blanks. -/
theorem isBlank_eq_false {c : Char} (h₁ : 33 ≤ c.toNat) (h₂ : c.toNat ≤ 126) :
    isBlank c = false := by
  simp only [isBlank, blankRanges, List.any_cons, List.any_nil, Bool.or_eq_false_iff,
    Bool.and_eq_false_iff, decide_eq_false_iff_not, and_true]
  omega

theorem isBlank_of_digit {c : Char} (h : isDigit c) : isBlank c = false := by
  rw [isDigit_iff] at h
  exact isBlank_eq_false (by omega) (by omega)

/-- A run of characters of a class is the longest one if the next character is of
    another class. -/
theorem takeWhile_append_of_ends {p : Char → Bool} {run rest : List Char}
    (hrun : ∀ c ∈ run, p c) (hrest : ∀ c, rest.head? = some c → p c = false) :
    (run ++ rest).takeWhile p = run := by
  rw [List.takeWhile_append_of_pos hrun]
  cases rest with
  | nil => rw [List.takeWhile_nil, List.append_nil]
  | cons c rest => rw [List.takeWhile_cons, hrest c rfl, if_neg Bool.false_ne_true, List.append_nil]

/-- The longest run holds characters of the class only. -/
theorem of_mem_takeWhile {p : Char → Bool} {s : List Char} : ∀ c ∈ s.takeWhile p, p c :=
  List.all_eq_true.1 List.all_takeWhile

/-- The longest run is followed by a character of another class. -/
theorem head_dropWhile_eq_false {p : Char → Bool} {s : List Char} :
    ∀ c, (s.dropWhile p).head? = some c → p c = false := by
  intro c hc
  have := List.head?_dropWhile_not p s
  rw [hc] at this
  simpa using this

end Blockscript.Text
