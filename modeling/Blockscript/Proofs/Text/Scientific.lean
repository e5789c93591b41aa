import Blockscript.Proofs.Text.Numeral

/-!
# Decimals with an exponent

A decimal whose scale cannot be seen from its digits is written with an exponent.
Together with the places after the point the exponent gives the scale back, so that
the scientific form keeps the sign, the coefficient and the scale of every decimal.

* `Decimal.pointText`, `Decimal.IsTail`: what may follow the first digits of a numeral;
* `Decimal.readAny?_append`: the number that all parts of a numeral denote;
* `Decimal.readAny?_plain`, `Decimal.read?_scientific`: the positional form is read back where it
  keeps the scale, and the scientific form always.
-/

namespace Blockscript.Decimal

open Text

/-- The places after the point, with the point if there are any. -/
def pointText (fraction : List Char) : List Char :=
  if fraction = [] then [] else '.' :: fraction

/-- The end of a numeral is empty, or an exponent. -/
inductive IsTail : List Char → Int → Prop
  | nil : IsTail [] 0
  | exponent {sign digits : List Char} : IsOptionalSign sign → IsDigits digits →
      IsTail ('E' :: (sign ++ digits)) (integerOf sign digits)

/-! ### Reading -/

namespace IsTail

variable {tail : List Char} {e : Int}

theorem head_eq (h : IsTail tail e) : ∀ c, tail.head? = some c → c = 'E' := by
  cases h with
  | nil => exact nofun
  | exponent _ _ => exact fun _ hc => (Option.some.inj hc).symm

/-- The characters of an exponent lie between the plus sign and the letter. -/
theorem toNat_of_mem (h : IsTail tail e) : ∀ c ∈ tail, 43 ≤ c.toNat ∧ c.toNat ≤ 69 := by
  cases h with
  | nil => exact nofun
  | exponent hs hd =>
    intro c hc
    rcases List.mem_cons.1 hc with rfl | hc
    · decide
    · have := (List.mem_append.1 hc).elim (toNat_of_mem_sign hs c) (toNat_of_mem_digits hd.2 c)
      omega

theorem readExponent?_eq (h : IsTail tail e) : readExponent? tail = some e := by
  cases h with
  | nil => rfl
  | @exponent sign digits hs hd =>
    have hspan := spanDigits_of_isDigit hd.2
    obtain ⟨c, digits, rfl⟩ := List.exists_cons_of_ne_nil hd.1
    rw [readExponent?, splitSign_append hs fun d hd' => hd.2 d (List.mem_of_head? hd')]
    simp only [hspan, List.map_cons]
    rw [← List.map_cons (f := fun c : Char => c.toNat - '0'.toNat), digitsValue_map]
    simp [integerOf]

end IsTail

theorem spanNumber_append {whole fraction tail : List Char} {e : Int} (hw : IsDigits whole)
    (hf : ∀ c ∈ fraction, isDigit c) (ht : IsTail tail e) :
    spanNumber (whole ++ (pointText fraction ++ tail)) =
      (whole.map fun c => c.toNat - '0'.toNat, fraction.map fun c => c.toNat - '0'.toNat,
        tail) := by
  have hends : ∀ c, tail.head? = some c → digitValue? c = none := by
    intro c hc
    rw [ht.head_eq c hc]
    decide
  rw [pointText]
  split
  · next h =>
    subst h
    rw [List.nil_append, spanNumber, spanDigits_append hw.2 hends]
    cases ht <;> rfl
  · rw [List.cons_append, spanNumber, spanDigits_append_point hw.2]
    simp only [spanDigits_append hf hends]

/-- The number that a sign, the digits before and after the point and an exponent
    denote. -/
theorem readAny?_append {sign whole fraction tail : List Char} {e : Int}
    (hs : IsOptionalSign sign) (hw : IsDigits whole) (hf : ∀ c ∈ fraction, isDigit c)
    (ht : IsTail tail e) :
    readAny? (sign ++ (whole ++ (pointText fraction ++ tail))) =
      some ⟨sign = ['-'], Nat.ofDigitChars 10 (whole ++ fraction) 0, e - fraction.length⟩ := by
  have hpoint : ∀ c ∈ pointText fraction, 43 ≤ c.toNat ∧ c.toNat ≤ 57 := by
    intro c hc
    rw [pointText] at hc
    split at hc
    · cases hc
    · rcases List.mem_cons.1 hc with rfl | hc
      · decide
      · exact toNat_of_mem_digits hf c hc
  -- No character is a blank or an underscore, so that nothing is trimmed or left out.
  have hrange : ∀ c ∈ sign ++ (whole ++ (pointText fraction ++ tail)),
      43 ≤ c.toNat ∧ c.toNat ≤ 69 := by
    intro c hc
    simp only [List.mem_append] at hc
    rcases hc with hc | hc | hc | hc
    · have := toNat_of_mem_sign hs c hc
      omega
    · have := toNat_of_mem_digits hw.2 c hc
      omega
    · have := hpoint c hc
      omega
    · exact ht.toNat_of_mem c hc
  have htrim : trim (sign ++ (whole ++ (pointText fraction ++ tail))) =
      sign ++ (whole ++ (pointText fraction ++ tail)) := by
    refine trimBy_eq_self fun c hc => ?_
    have := hrange c hc
    exact isBlank_eq_false (by omega) (by omega)
  have hfilter : (sign ++ (whole ++ (pointText fraction ++ tail))).filter (· != '_') =
      sign ++ (whole ++ (pointText fraction ++ tail)) := by
    refine List.filter_eq_self.2 fun c hc => ?_
    have := hrange c hc
    rw [bne_iff_ne]
    rintro rfl
    exact absurd this.2 (by decide)
  have hfirst : ∀ c, (whole ++ (pointText fraction ++ tail)).head? = some c → isDigit c := by
    obtain ⟨c, whole, rfl⟩ := List.exists_cons_of_ne_nil hw.1
    rintro d ⟨⟩
    exact hw.2 _ List.mem_cons_self
  rw [readAny?, htrim, hfilter, splitSign_append hs hfirst]
  obtain ⟨c, whole, rfl⟩ := List.exists_cons_of_ne_nil hw.1
  simp only [spanNumber_append hw hf ht, ← List.map_append, digitsValue_map, ht.readExponent?_eq]
  simp

/-! ### Reading what is written -/

theorem isOptionalSign_signText (d : Decimal) : IsOptionalSign d.signText := by
  rw [signText]
  split
  · exact .inr (.inr rfl)
  · exact .inl rfl

theorem signText_eq_minus (d : Decimal) : decide (d.signText = ['-']) = d.negative := by
  rw [signText]
  cases d.negative <;> rfl

/-- All digits but the first one stand after the point. -/
theorem pointed_length_sub_one {digits : List Char} (hd : digits ≠ []) :
    pointed digits (digits.length - 1) = digits.take 1 ++ pointText (digits.drop 1) := by
  obtain ⟨c, digits, rfl⟩ := List.exists_cons_of_ne_nil hd
  obtain _ | ⟨d, digits⟩ := digits
  · rfl
  · simp [pointed, pointText]

/-- An exponent is written with its sign. -/
theorem isTail_exponent (e : Int) :
    IsTail ('E' :: (if e < 0 then '-' else '+') :: digitsOf e.natAbs) e := by
  have hdigits := isDigits_digitsOf e.natAbs
  have hsigned : ∀ sign, IsOptionalSign sign → integerOf sign (digitsOf e.natAbs) = e →
      IsTail ('E' :: (sign ++ digitsOf e.natAbs)) e := by
    intro sign hs heq
    have := IsTail.exponent hs hdigits
    rwa [heq] at this
  split
  · refine hsigned ['-'] (.inr (.inr rfl)) ?_
    rw [integerOf, if_pos rfl, digitsOf, Nat.ofDigitChars_ten_toDigits]
    omega
  · refine hsigned ['+'] (.inr (.inl rfl)) ?_
    rw [integerOf, if_neg (by decide), digitsOf, Nat.ofDigitChars_ten_toDigits]
    omega

/-- The positional form is read back where it keeps the scale. -/
theorem readAny?_plain {d : Decimal} (h : d.exponent ≤ 0) : readAny? d.plain = some d := by
  rcases Int.lt_or_eq_of_le h with hlt | heq
  · -- The scale is seen from the places after the point.
    obtain ⟨sign, whole, fraction, hplain, hsign, hw, hf, heq⟩ := exists_plain (d := d) (by omega)
    have hread := read?_append hsign hw hf
    rw [heq, ← hplain, read?, Option.filter_eq_some_iff] at hread
    exact hread.1
  · have hvalue : Nat.ofDigitChars 10 (digitsOf d.coefficient) 0 = d.coefficient :=
      Nat.ofDigitChars_ten_toDigits
    have hplain : d.plain = d.signText ++ (digitsOf d.coefficient ++ (pointText [] ++ [])) := by
      simp [plain, heq, scale, pointed, pointText]
    rw [hplain, readAny?_append (isOptionalSign_signText d) (isDigits_digitsOf d.coefficient)
      (List.forall_mem_nil _) .nil, signText_eq_minus, List.append_nil, hvalue]
    simp [← heq]

/-- The scientific form is read back, with the scale. -/
theorem readAny?_scientific (d : Decimal) : readAny? d.scientific = some d := by
  have hs := isOptionalSign_signText d
  have hdigits := isDigits_digitsOf d.coefficient
  have hvalue : Nat.ofDigitChars 10 (digitsOf d.coefficient) 0 = d.coefficient :=
    Nat.ofDigitChars_ten_toDigits
  rw [scientific]
  split
  · next h => exact readAny?_plain h.1
  · have hw : IsDigits ((digitsOf d.coefficient).take 1) := by
      refine ⟨?_, fun c hc => hdigits.2 c (List.mem_of_mem_take hc)⟩
      simpa using hdigits.1
    have hf : ∀ c ∈ (digitsOf d.coefficient).drop 1, isDigit c :=
      fun c hc => hdigits.2 c (List.mem_of_mem_drop hc)
    have htail := isTail_exponent d.adjustedExponent
    simp only
    rw [pointed_length_sub_one hdigits.1, List.append_assoc, List.append_assoc,
      readAny?_append hs hw hf htail, signText_eq_minus, List.take_append_drop, hvalue,
      adjustedExponent, List.length_drop, Int.add_sub_cancel]

/-- A decimal in range is read back from its scientific form. -/
theorem read?_scientific {d : Decimal} (h : d.inRange) : read? d.scientific = some d := by
  rw [read?, readAny?_scientific, Option.filter_some, h, Bool.or_true]
  rfl

end Blockscript.Decimal
