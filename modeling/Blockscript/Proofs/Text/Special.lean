import Blockscript.Proofs.Text.Numeral
import Blockscript.Decimal.Special

/-!
# Names of decimals that are no numbers

What is written for a decimal that is no number is a name between a sign and digits. It is read
back, and it is not taken for a number, as a number starts with a digit or a point.

* `Special.read?_append`: what a sign, a name and digits denote;
* `Special.read?_text`: a written form is read back;
* `Special.decimalRead?_text`: a written form denotes no number.
-/

namespace Blockscript.Special

open Text

theorem toNat_of_isAlpha {c : Char} (h : c.isAlpha) :
    65 ≤ c.toNat ∧ c.toNat ≤ 90 ∨ 97 ≤ c.toNat ∧ c.toNat ≤ 122 := by
  have hletter : (decide (c.val ≥ 65 ∧ c.val ≤ 90) ||
      decide (c.val ≥ 97) && decide (c.val ≤ 122)) = true := h
  simpa [UInt32.le_iff_toNat_le] using hletter

theorem isAlpha_of_isDigit {c : Char} (h : isDigit c) : c.isAlpha = false := by
  rw [Bool.eq_false_iff]
  intro halpha
  have := toNat_of_isAlpha halpha
  have := isDigit_iff.1 h
  omega

/-- A letter is no digit of any script, as ASCII has ten digits only. -/
theorem digitValue?_of_isAlpha {c : Char} (h : c.isAlpha) : digitValue? c = none := by
  have := toNat_of_isAlpha h
  rw [digitValue?, Option.map_eq_none_iff, List.find?_eq_none]
  intro z hz
  have hzeros : ∀ z ∈ digitZeros, z = 48 ∨ 122 < z := by decide
  rcases hzeros z hz with rfl | hz <;> simp <;> omega

/-! ### A sign, a name and digits -/

section Parts

variable {name digits : List Char} (negative : Bool)

theorem toNat_of_mem (hname : ∀ c ∈ name, c.isAlpha) (hdigits : ∀ c ∈ digits, isDigit c) :
    ∀ c ∈ signText negative ++ (name ++ digits), 43 ≤ c.toNat ∧ c.toNat ≤ 122 ∧ c ≠ '_' := by
  intro c hc
  simp only [List.mem_append] at hc
  rcases hc with hc | hc | hc
  · cases negative with
    | false => cases hc
    | true =>
      obtain rfl := List.mem_singleton.1 hc
      decide
  · have := toNat_of_isAlpha (hname c hc)
    refine ⟨by omega, by omega, ?_⟩
    rintro rfl
    exact absurd (hname '_' hc) (by decide)
  · have := toNat_of_mem_digits hdigits c hc
    refine ⟨by omega, by omega, ?_⟩
    rintro rfl
    exact absurd (hdigits '_' hc) (by decide)

/-- Nothing is a blank or an underscore, so that nothing is trimmed or left out. -/
theorem filter_trim_append (hname : ∀ c ∈ name, c.isAlpha) (hdigits : ∀ c ∈ digits, isDigit c) :
    (trim (signText negative ++ (name ++ digits))).filter (· != '_') =
      signText negative ++ (name ++ digits) := by
  have hall := toNat_of_mem negative hname hdigits
  have htrim : trim (signText negative ++ (name ++ digits)) =
      signText negative ++ (name ++ digits) :=
    trimBy_eq_self fun c hc => isBlank_eq_false (by have := hall c hc; omega)
      (by have := hall c hc; omega)
  rw [htrim]
  exact List.filter_eq_self.2 fun c hc => bne_iff_ne.2 (hall c hc).2.2

theorem splitSign_signText (hne : name ≠ []) (hname : ∀ c ∈ name, c.isAlpha) :
    splitSign (signText negative ++ (name ++ digits)) = (negative, name ++ digits) := by
  cases negative with
  | true => rfl
  | false =>
    obtain ⟨c, name, rfl⟩ := List.exists_cons_of_ne_nil hne
    have hc := toNat_of_isAlpha (hname c List.mem_cons_self)
    change splitSign (c :: (name ++ digits)) = _
    rw [splitSign.eq_3]
    · rfl
    · rintro rest heq
      rw [(List.cons.inj heq).1] at hc
      exact absurd hc (by decide)
    · rintro rest heq
      rw [(List.cons.inj heq).1] at hc
      exact absurd hc (by decide)

/-- What a sign, a name and digits denote. -/
theorem read?_append (hne : name ≠ []) (hname : ∀ c ∈ name, c.isAlpha)
    (hdigits : ∀ c ∈ digits, isDigit c) :
    read? (signText negative ++ (name ++ digits)) =
      ofParts? negative (String.ofList (name.map Char.toLower))
        (digits.map fun c => c.toNat - '0'.toNat) := by
  have hends : ∀ c, digits.head? = some c → c.isAlpha = false :=
    fun c hc => isAlpha_of_isDigit (hdigits c (List.mem_of_head? hc))
  have hrest : (name ++ digits).dropWhile Char.isAlpha = digits := by
    rw [List.dropWhile_append_of_pos hname]
    cases digits with
    | nil => rfl
    | cons c digits => rw [List.dropWhile_cons_of_neg (by simp [hends c rfl])]
  rw [read?, filter_trim_append negative hname hdigits, splitSign_signText negative hne hname]
  simp only [hrest, takeWhile_append_of_ends hname hends, Decimal.spanDigits_of_isDigit hdigits]

/-- A text that starts with a name denotes no number. -/
theorem readAny?_append (hne : name ≠ []) (hname : ∀ c ∈ name, c.isAlpha)
    (hdigits : ∀ c ∈ digits, isDigit c) :
    Decimal.readAny? (signText negative ++ (name ++ digits)) = none := by
  rw [Decimal.readAny?, filter_trim_append negative hname hdigits,
    splitSign_signText negative hne hname]
  obtain ⟨c, name, rfl⟩ := List.exists_cons_of_ne_nil hne
  have hspan : Decimal.spanDigits (c :: (name ++ digits)) = ([], c :: (name ++ digits)) := by
    rw [Decimal.spanDigits, digitValue?_of_isAlpha (hname c List.mem_cons_self)]
  have hnumber : Decimal.spanNumber (c :: (name ++ digits)) = ([], [], c :: (name ++ digits)) := by
    rw [Decimal.spanNumber, hspan]
    split
    · next rest heq =>
      obtain ⟨-, hc, -⟩ := Prod.mk.inj heq |>.imp id List.cons.inj
      exact absurd (hname c List.mem_cons_self) (by rw [hc]; decide)
    · next heq =>
      obtain ⟨rfl, rfl⟩ := Prod.mk.inj heq
      rfl
  simp only [List.cons_append, hnumber]
  rfl

end Parts

/-! ### Written forms -/

theorem isDigit_of_mem_payloadText (payload : Nat) : ∀ c ∈ payloadText payload, isDigit c := by
  rw [payloadText]
  split
  · exact nofun
  · exact (isDigits_digitsOf payload).2

theorem digitsValue_payloadText (payload : Nat) :
    digitsValue ((payloadText payload).map fun c => c.toNat - '0'.toNat) = payload := by
  rw [digitsValue_map, payloadText]
  split
  · next h => rw [h]; rfl
  · exact Nat.ofDigitChars_ten_toDigits

/-- The parts of a written form. -/
theorem exists_text (s : Special) : ∃ negative name digits,
    s.text = signText negative ++ (name ++ digits) ∧ name ≠ [] ∧ (∀ c ∈ name, c.isAlpha) ∧
    (∀ c ∈ digits, isDigit c) ∧
    ofParts? negative (String.ofList (name.map Char.toLower))
      (digits.map fun c => c.toNat - '0'.toNat) = some s := by
  cases s with
  | infinite negative =>
    exact ⟨negative, "Infinity".toList, [], rfl, by decide, List.all_eq_true.1 (by decide),
      nofun, rfl⟩
  | undefined signaling negative payload =>
    have hdigits := isDigit_of_mem_payloadText payload
    have hvalue := digitsValue_payloadText payload
    cases signaling with
    | false =>
      exact ⟨negative, "NaN".toList, payloadText payload, List.append_assoc .., by decide,
        List.all_eq_true.1 (by decide), hdigits, congrArg (some ∘ undefined false negative) hvalue⟩
    | true =>
      exact ⟨negative, "sNaN".toList, payloadText payload, List.append_assoc .., by decide,
        List.all_eq_true.1 (by decide), hdigits, congrArg (some ∘ undefined true negative) hvalue⟩

/-- A written form is read back. -/
theorem read?_text (s : Special) : read? s.text = some s := by
  obtain ⟨negative, name, digits, htext, hne, hname, hdigits, heq⟩ := s.exists_text
  rw [htext, read?_append negative hne hname hdigits, heq]

/-- A written form denotes no number. -/
theorem decimalRead?_text (s : Special) : Decimal.read? s.text = none := by
  obtain ⟨negative, name, digits, htext, hne, hname, hdigits, -⟩ := s.exists_text
  rw [htext, Decimal.read?, readAny?_append negative hne hname hdigits]
  rfl

end Blockscript.Special
