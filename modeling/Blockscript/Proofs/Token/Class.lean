import Blockscript.Proofs.Text.Numeral
import Blockscript.Proofs.Text.Quoted
import Blockscript.Token.Lexer

/-!
# The grammar of tokens

Every class of tokens is a set of texts, and says what may follow one of them: a
token ends where the next character could not go on with it.

* `IsIdentifier`, `IsInteger`, `IsDecimal`, `IsCharacter`, `IsString`,
  `IsOperator`: the texts of each class, gathered in `Token.Kind.Contains`;
* `Token.Kind.EndsBefore`: what may follow a token.

Both are said without a scanner; `Blockscript.Proofs.Token.Scanner` shows that
the scanner finds exactly the tokens that are described here.
-/

namespace Blockscript

open Text Lexer

/-- A letter or underscore, with letters, digits, underscores and hyphens after it. -/
def IsIdentifier (s : List Char) : Prop :=
  ∃ c rest, s = c :: rest ∧ isIdentifierStart c ∧ ∀ d ∈ rest, isIdentifierPart d

/-- Zero, or digits after an optional sign, the first of which is not zero. -/
def IsInteger (s : List Char) : Prop :=
  s = ['0'] ∨ ∃ sign c rest, s = sign ++ c :: rest ∧ IsOptionalSign sign ∧
    isDigit c ∧ c ≠ '0' ∧ ∀ d ∈ rest, isDigit d

/-- Digits on both sides of a point, after an optional sign. -/
def IsDecimal (s : List Char) : Prop :=
  ∃ sign whole fraction, s = sign ++ (whole ++ '.' :: fraction) ∧ IsOptionalSign sign ∧
    IsDigits whole ∧ IsDigits fraction

/-- An escape sequence, or a character other than quote and backslash, between
    single quotes. -/
def IsCharacter (s : List Char) : Prop :=
  ∃ body c, s = '\'' :: (body ++ ['\'']) ∧ Escape.Denotes '\'' body [c]

/-- Escape sequences, and characters other than quote and backslash, between
    double quotes. -/
def IsString (s : List Char) : Prop :=
  ∃ body text, s = '"' :: (body ++ ['"']) ∧ Escape.Denotes '"' body text

/-- One of the operators of two characters, or any single character with which no
    other token starts and that is no blank. -/
def IsOperator (s : List Char) : Prop :=
  s ∈ longOperators ∨ ∃ c, s = [c] ∧ isBlank c = false ∧ isIdentifierStart c = false ∧
    isDigit c = false ∧ c ≠ '\'' ∧ c ≠ '"'

namespace Token

/-- The texts of a class of tokens. -/
def Kind.Contains : Kind → List Char → Prop
  | .identifier => IsIdentifier
  | .integer => IsInteger
  | .decimal => IsDecimal
  | .character => IsCharacter
  | .string => IsString
  | .operator => IsOperator

/-- A token of a class ends before `c`: it could not go on with that character. -/
def Kind.EndsBefore (text : List Char) (c : Char) : Kind → Prop
  | .identifier => isIdentifierPart c = false
  | .integer => isDigit c = false ∧ c ≠ '.'
  | .decimal => isDigit c = false
  | .character => True
  | .string => True
  | .operator => ∀ d, text = [d] → ¬(isSign d ∧ isDigit c) ∧ [d, c] ∉ longOperators

end Token

/-- An integer is a numeral without a point. -/
theorem IsInteger.exists_numeral {s : List Char} (h : IsInteger s) :
    ∃ sign digits, s = sign ++ digits ∧ IsOptionalSign sign ∧ IsDigits digits := by
  obtain rfl | ⟨sign, c, rest, rfl, hs, hc, _, hrest⟩ := h
  · exact ⟨[], ['0'], rfl, .inl rfl, List.cons_ne_nil _ _, List.forall_mem_singleton.2 rfl⟩
  · exact ⟨sign, c :: rest, rfl, hs, List.cons_ne_nil _ _, List.forall_mem_cons.2 ⟨hc, hrest⟩⟩

/-! ### First characters -/

theorem isIdentifierStart_iff {c : Char} : isIdentifierStart c ↔
    97 ≤ c.toNat ∧ c.toNat ≤ 122 ∨ 65 ≤ c.toNat ∧ c.toNat ≤ 90 ∨ c.toNat = 95 := by
  simp [isIdentifierStart, Char.le_def, UInt32.le_iff_toNat_le, Char.ext_iff, ← UInt32.toNat_inj,
    or_assoc]

theorem isIdentifierPart_of_start {c : Char} (h : isIdentifierStart c) : isIdentifierPart c := by
  simp [isIdentifierPart, h]

theorem isSign_iff {c : Char} : isSign c ↔ c = '+' ∨ c = '-' := by
  simp [isSign]

theorem isIdentifierStart_of_digit {c : Char} (h : isDigit c) : isIdentifierStart c = false := by
  rw [isDigit_iff] at h
  rw [Bool.eq_false_iff, Ne, isIdentifierStart_iff]
  omega

theorem not_isSign_of_digit {c : Char} (h : isDigit c) : isSign c = false := by
  rw [isDigit_iff] at h
  rw [Bool.eq_false_iff, Ne, isSign_iff]
  rintro (rfl | rfl) <;> exact absurd h (by decide)

/-- The first character of a number: a digit, or a sign before one. -/
theorem startsWithNumber_append {sign digits : List Char} (hs : IsOptionalSign sign)
    (hd : IsDigits digits) (rest : List Char) : startsWithNumber (sign ++ digits ++ rest) := by
  obtain ⟨c, digits, rfl⟩ := List.exists_cons_of_ne_nil hd.1
  have hc := hd.2 c List.mem_cons_self
  rcases hs with rfl | rfl | rfl <;> simp [startsWithNumber, startsWithDigit, isSign, hc]

theorem not_isIdentifierStart_of_number {s : List Char} (h : startsWithNumber s) :
    ¬s.head?.any isIdentifierStart := by
  obtain _ | ⟨c, rest⟩ := s
  · exact Bool.false_ne_true
  simp only [startsWithNumber, Bool.or_eq_true, Bool.and_eq_true, isSign_iff] at h
  rw [List.head?_cons, Option.any_some]
  rcases h with hc | ⟨rfl | rfl, _⟩
  · rw [isIdentifierStart_of_digit hc]
    exact Bool.false_ne_true
  · decide
  · decide

/-- No token starts with a blank. -/
theorem Token.Kind.Contains.exists_cons {k : Token.Kind} {s : List Char} (h : k.Contains s) :
    ∃ c rest, s = c :: rest ∧ isBlank c = false := by
  cases k with
  | identifier =>
    obtain ⟨c, rest, rfl, hc, _⟩ := h
    rw [isIdentifierStart_iff] at hc
    exact ⟨c, rest, rfl, isBlank_eq_false (by omega) (by omega)⟩
  | integer =>
    obtain rfl | ⟨sign, c, rest, rfl, rfl | rfl | rfl, hc, _⟩ := h
    · exact ⟨_, _, rfl, rfl⟩
    · exact ⟨_, _, rfl, isBlank_of_digit hc⟩
    · exact ⟨_, _, rfl, rfl⟩
    · exact ⟨_, _, rfl, rfl⟩
  | decimal =>
    obtain ⟨sign, whole, fraction, rfl, rfl | rfl | rfl, hw, _⟩ := h
    · obtain ⟨c, whole, rfl⟩ := List.exists_cons_of_ne_nil hw.1
      exact ⟨_, _, rfl, isBlank_of_digit (hw.2 c List.mem_cons_self)⟩
    · exact ⟨_, _, rfl, rfl⟩
    · exact ⟨_, _, rfl, rfl⟩
  | character =>
    obtain ⟨body, c, rfl, _⟩ := h
    exact ⟨_, _, rfl, rfl⟩
  | string =>
    obtain ⟨body, text, rfl, _⟩ := h
    exact ⟨_, _, rfl, rfl⟩
  | operator =>
    obtain h | ⟨c, rfl, hc, _⟩ := h
    · simp only [longOperators, List.mem_cons, List.not_mem_nil, or_false] at h
      rcases h with rfl | rfl | rfl | rfl | rfl | rfl <;> exact ⟨_, _, rfl, rfl⟩
    · exact ⟨c, [], rfl, hc⟩

/-- No token goes on with a blank. -/
theorem Token.Kind.endsBefore_of_isBlank (k : Token.Kind) (text : List Char) {c : Char}
    (hc : isBlank c) : k.EndsBefore text c := by
  have hcode : ¬(33 ≤ c.toNat ∧ c.toNat ≤ 126) := fun ⟨h₁, h₂⟩ => by
    rw [isBlank_eq_false h₁ h₂] at hc
    contradiction
  have hdigit : isDigit c = false := by
    rw [Bool.eq_false_iff, Ne, isDigit_iff]
    omega
  -- A blank has no printable code, and every class is continued by printable characters only.
  cases k with
  | identifier =>
    have hstart : isIdentifierStart c = false := by
      rw [Bool.eq_false_iff, Ne, isIdentifierStart_iff]
      omega
    have hhyphen : c ≠ '-' := by
      rintro rfl
      exact hcode (by decide)
    simp [Token.Kind.EndsBefore, isIdentifierPart, hstart, hdigit, hhyphen]
  | integer =>
    refine ⟨hdigit, ?_⟩
    rintro rfl
    exact hcode (by decide)
  | decimal => exact hdigit
  | character => trivial
  | string => trivial
  | operator =>
    rintro d rfl
    refine ⟨fun h => absurd h.2 (by simp [hdigit]), fun hmem => ?_⟩
    simp only [longOperators, List.mem_cons, List.cons.injEq, and_true, List.not_mem_nil,
      or_false] at hmem
    rcases hmem with ⟨-, rfl⟩ | ⟨-, rfl⟩ | ⟨-, rfl⟩ | ⟨-, rfl⟩ | ⟨-, rfl⟩ | ⟨-, rfl⟩ <;>
      exact hcode (by decide)

/-! ### Classes by first characters -/

/-- Only identifiers start with a letter or underscore. -/
theorem Token.Kind.Contains.eq_identifier {k : Token.Kind} {c : Char} {rest : List Char}
    (h : k.Contains (c :: rest)) (hc : isIdentifierStart c) : k = .identifier := by
  -- A letter begins no number and no quoted text, and is no operator.
  have hnumber : ¬startsWithNumber (c :: rest) :=
    fun hn => not_isIdentifierStart_of_number hn (by simpa using hc)
  cases k with
  | identifier => rfl
  | integer =>
    obtain ⟨sign, digits, heq, hs, hd⟩ := IsInteger.exists_numeral h
    rw [heq, ← List.append_nil (sign ++ digits)] at hnumber
    exact absurd (startsWithNumber_append hs hd _) hnumber
  | decimal =>
    obtain ⟨sign, whole, fraction, heq, hs, hw, _⟩ := h
    rw [heq, ← List.append_assoc] at hnumber
    exact absurd (startsWithNumber_append hs hw _) hnumber
  | character =>
    obtain ⟨body, d, heq, _⟩ := h
    obtain rfl := (List.cons.inj heq).1
    contradiction
  | string =>
    obtain ⟨body, text, heq, _⟩ := h
    obtain rfl := (List.cons.inj heq).1
    contradiction
  | operator =>
    obtain h | ⟨d, heq, _, hd, _⟩ := h
    · simp only [longOperators, List.mem_cons, List.not_mem_nil, or_false] at h
      rcases h with h | h | h | h | h | h <;> obtain rfl := (List.cons.inj h).1 <;> contradiction
    · obtain rfl := (List.cons.inj heq).1
      rw [hc] at hd
      contradiction

/-- A single character that neither an identifier nor a number starts with is an
    operator. -/
theorem Token.Kind.Contains.eq_operator {k : Token.Kind} {c : Char} (h : k.Contains [c])
    -- Alone, such a character is too short for a quoted text or a decimal, and no letter or digit.
    (hid : isIdentifierStart c = false) (hdigit : isDigit c = false) : k = .operator := by
  cases k with
  | identifier =>
    obtain ⟨d, rest, heq, hd, _⟩ := h
    obtain rfl := (List.cons.inj heq).1
    rw [hid] at hd
    contradiction
  | integer =>
    obtain ⟨sign, digits, heq, hs, hd⟩ := IsInteger.exists_numeral h
    obtain ⟨d, digits, rfl⟩ := List.exists_cons_of_ne_nil hd.1
    rcases hs with rfl | rfl | rfl
    · obtain rfl := (List.cons.inj heq).1
      have := hd.2 c List.mem_cons_self
      rw [hdigit] at this
      contradiction
    · exact nomatch (List.cons.inj heq).2
    · exact nomatch (List.cons.inj heq).2
  | decimal =>
    obtain ⟨sign, whole, fraction, heq, _, hw, _⟩ := h
    have := congrArg List.length heq
    have := List.length_pos_iff.2 hw.1
    simp only [List.length_append, List.length_cons, List.length_nil] at *
    omega
  | character =>
    obtain ⟨body, d, heq, _⟩ := h
    simp at heq
  | string =>
    obtain ⟨body, text, heq, _⟩ := h
    simp at heq
  | operator => rfl

end Blockscript
