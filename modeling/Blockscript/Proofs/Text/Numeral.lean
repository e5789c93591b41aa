import Blockscript.Decimal.Reader
import Blockscript.Decimal.Written
import Blockscript.Proofs.Text.Character

/-!
# Numerals

A numeral of a program is written in ASCII digits after an optional sign. The
digits denote a number by their places, whatever zeros stand in front of them.

* `integerOf`, `decimalOf`: the numbers that the parts of a numeral denote;
* `readInteger?_append`, `Decimal.read?_append`: the readers, which accept many
  other texts, find these numbers;
* `exists_writeInteger`, `Decimal.exists_plain`: the written form of a number is a
  numeral that denotes it.
-/

namespace Blockscript

open Text

/-- A sign before a number, or nothing. -/
def IsOptionalSign (s : List Char) : Prop :=
  s = [] ∨ s = ['+'] ∨ s = ['-']

/-- One digit or more. -/
def IsDigits (s : List Char) : Prop :=
  s ≠ [] ∧ ∀ c ∈ s, isDigit c

/-- The integer that digits after an optional sign denote. -/
def integerOf (sign digits : List Char) : Int :=
  if sign = ['-'] then -(Nat.ofDigitChars 10 digits 0 : Int) else Nat.ofDigitChars 10 digits 0

/-- The decimal that digits on both sides of a point denote, after an optional sign. -/
def decimalOf (sign whole fraction : List Char) : Decimal :=
  ⟨sign = ['-'], Nat.ofDigitChars 10 (whole ++ fraction) 0, -fraction.length⟩

namespace Text

/-! ### Digits -/

theorem isDigit_eq (c : Char) : isDigit c = c.isDigit := by
  rw [Bool.eq_iff_iff, isDigit_iff]
  simp [Char.isDigit, UInt32.le_iff_toNat_le]

theorem digitValue?_of_isDigit {c : Char} (h : isDigit c) :
    digitValue? c = some (c.toNat - '0'.toNat) := by
  rw [isDigit_iff] at h
  simp [digitValue?, digitZeros, h.1, h.2]

/-- Digit values denote the number that their digits denote. -/
theorem digitsValue_map (digits : List Char) :
    digitsValue (digits.map fun c => c.toNat - '0'.toNat) = Nat.ofDigitChars 10 digits 0 := by
  rw [digitsValue, List.foldl_map, Nat.ofDigitChars_eq_foldl]

/-- A number is less than the power of ten that has a digit more. -/
theorem ofDigitChars_lt {digits : List Char} (h : ∀ c ∈ digits, isDigit c) :
    Nat.ofDigitChars 10 digits 0 < Nat.pow 10 digits.length := by
  -- Generalized over the number read so far, which the induction on the digits changes.
  have hfrom : ∀ n, Nat.ofDigitChars 10 digits n < (n + 1) * 10 ^ digits.length := by
    induction digits with
    | nil =>
      intro n
      rw [Nat.ofDigitChars_nil, List.length_nil]
      omega
    | cons c digits ih =>
      intro n
      have hc := isDigit_iff.1 (h c List.mem_cons_self)
      have hle : 10 * n + (c.toNat - '0'.toNat) + 1 ≤ 10 * (n + 1) := by
        have hzero : '0'.toNat = 48 := rfl
        omega
      calc Nat.ofDigitChars 10 (c :: digits) n
          = Nat.ofDigitChars 10 digits (10 * n + (c.toNat - '0'.toNat)) := Nat.ofDigitChars_cons
        _ < (10 * n + (c.toNat - '0'.toNat) + 1) * 10 ^ digits.length :=
            ih (fun d hd => h d (List.mem_cons_of_mem c hd)) _
        _ ≤ 10 * (n + 1) * 10 ^ digits.length := Nat.mul_le_mul_right _ hle
        _ = (n + 1) * 10 ^ (c :: digits).length := by
            rw [List.length_cons, Nat.pow_succ, Nat.mul_comm 10, Nat.mul_assoc, Nat.mul_comm 10]
  have h0 := hfrom 0
  rw [Nat.zero_add, Nat.one_mul] at h0
  exact h0

theorem isDigits_digitsOf (n : Nat) : IsDigits (digitsOf n) := by
  refine ⟨Nat.toDigits_ne_nil, fun c hc => ?_⟩
  rw [isDigit_eq]
  exact Nat.isDigit_of_mem_toDigits (by decide) (by decide) hc

/-! ### Reading integers -/

theorem trimBy_eq_self {p : Char → Bool} {s : List Char} (h : ∀ c ∈ s, p c = false) :
    trimBy p s = s := by
  have stays : ∀ {l : List Char}, (∀ c ∈ l, p c = false) → l.dropWhile p = l := by
    intro l hl
    obtain _ | ⟨c, l⟩ := l
    · rfl
    · exact List.dropWhile_cons_of_neg (by simp [hl c List.mem_cons_self])
  rw [trimBy, stays h, stays, List.reverse_reverse]
  exact fun c hc => h c (List.mem_reverse.1 hc)

/-- The characters of a sign lie between the plus sign and the digit nine, as the
    point and the digits do. -/
theorem toNat_of_mem_sign {sign : List Char} (hs : IsOptionalSign sign) :
    ∀ c ∈ sign, 43 ≤ c.toNat ∧ c.toNat ≤ 57 := by
  rcases hs with rfl | rfl | rfl
  · exact nofun
  · exact List.forall_mem_singleton.2 (by decide)
  · exact List.forall_mem_singleton.2 (by decide)

theorem toNat_of_mem_digits {digits : List Char} (hd : ∀ c ∈ digits, isDigit c) :
    ∀ c ∈ digits, 43 ≤ c.toNat ∧ c.toNat ≤ 57 := by
  intro c hc
  have := isDigit_iff.1 (hd c hc)
  omega

theorem splitSign_append {sign digits : List Char} (hs : IsOptionalSign sign)
    (hd : ∀ c, digits.head? = some c → isDigit c) :
    splitSign (sign ++ digits) = (decide (sign = ['-']), digits) := by
  rcases hs with rfl | rfl | rfl
  · obtain _ | ⟨c, digits⟩ := digits
    · rfl
    · rw [List.nil_append, splitSign.eq_3]
      · rfl
      · rintro rest heq
        exact absurd (hd c rfl) (by rw [(List.cons.inj heq).1]; decide)
      · rintro rest heq
        exact absurd (hd c rfl) (by rw [(List.cons.inj heq).1]; decide)
  · rfl
  · rfl

theorem underscoredDigits?_of_isDigits {digits : List Char} (h : IsDigits digits) :
    underscoredDigits? digits = some (digits.map fun c => c.toNat - '0'.toNat) := by
  obtain ⟨hne, hall⟩ := h
  induction digits with
  | nil => exact absurd rfl hne
  | cons c digits ih =>
    have hc := hall c List.mem_cons_self
    have htail := fun d hd => hall d (List.mem_cons_of_mem c hd)
    by_cases hd : digits = []
    · rw [hd, underscoredDigits?, digitValue?_of_isDigit hc]
      rfl
    · rw [underscoredDigits?.eq_4 _ _ hd, digitValue?_of_isDigit hc, ih hd htail]
      · rfl
      · rintro rest rfl
        exact absurd (htail '_' List.mem_cons_self) (by decide)

/-- A numeral without a point denotes what its digits denote. -/
theorem readInteger?_append {sign digits : List Char} (hs : IsOptionalSign sign)
    (hd : IsDigits digits) : readInteger? (sign ++ digits) = some (integerOf sign digits) := by
  have htrim : trimBy isIntegerBlank (sign ++ digits) = sign ++ digits := by
    refine trimBy_eq_self fun c hc => ?_
    have := (List.mem_append.1 hc).elim (toNat_of_mem_sign hs c) (toNat_of_mem_digits hd.2 c)
    rw [isIntegerBlank, isBlank_eq_false (by omega) (by omega), Bool.false_and]
  have hfirst : ∀ c, digits.head? = some c → isDigit c :=
    fun c hc => hd.2 c (List.mem_of_head? hc)
  rw [readInteger?, htrim, splitSign_append hs hfirst]
  simp only [underscoredDigits?_of_isDigits hd, Option.bind_eq_bind, Option.bind_some,
    digitsValue_map, decide_eq_true_eq, integerOf]
  rfl

/-! ### Writing integers -/

/-- A positive number is written without a zero in front. -/
theorem head_digitsOf_ne {n : Nat} (hn : 0 < n) : (digitsOf n).head? ≠ some '0' := by
  induction n using Nat.strongRecOn with
  | ind n ih =>
    rw [digitsOf]
    by_cases hlt : n < 10
    · rw [Nat.toDigits_of_lt_base hlt]
      have : ∀ d : Fin 10, 0 < d.val → some d.val.digitChar ≠ some '0' := by decide
      exact this ⟨n, hlt⟩ hn
    · rw [Nat.toDigits_of_base_le (by decide) (by omega),
        List.head?_append, Option.or_of_isSome (by simp [Nat.toDigits_ne_nil])]
      exact ih (n / 10) (by omega) (by omega)

/-- The written form of an integer is a numeral that denotes it. -/
theorem exists_writeInteger (i : Int) : ∃ sign digits, writeInteger i = sign ++ digits ∧
    IsOptionalSign sign ∧ IsDigits digits ∧ integerOf sign digits = i ∧
    (i = 0 ∨ digits.head? ≠ some '0') := by
  have hdigits := isDigits_digitsOf i.natAbs
  rw [writeInteger]
  split
  · refine ⟨['-'], digitsOf i.natAbs, rfl, .inr (.inr rfl), hdigits, ?_, ?_⟩
    · rw [integerOf, if_pos rfl, digitsOf, Nat.ofDigitChars_ten_toDigits]
      omega
    · exact .inr (head_digitsOf_ne (by omega))
  · refine ⟨[], digitsOf i.natAbs, rfl, .inl rfl, hdigits, ?_, ?_⟩
    · rw [integerOf, if_neg nofun, digitsOf, Nat.ofDigitChars_ten_toDigits]
      omega
    · by_cases hi : i = 0
      · exact .inl hi
      · exact .inr (head_digitsOf_ne (by omega))

end Text

/-! ### Reading decimals -/

namespace Decimal

/-- Digits are taken up to the first character that is none. -/
theorem spanDigits_append {digits rest : List Char} (hd : ∀ c ∈ digits, isDigit c)
    (hr : ∀ c, rest.head? = some c → digitValue? c = none) :
    spanDigits (digits ++ rest) = (digits.map fun c => c.toNat - '0'.toNat, rest) := by
  induction digits with
  | nil =>
    obtain _ | ⟨c, rest⟩ := rest
    · rfl
    · rw [List.nil_append, spanDigits, hr c rfl]
      rfl
  | cons c digits ih =>
    rw [List.cons_append, spanDigits, digitValue?_of_isDigit (hd c List.mem_cons_self),
      ih fun d hc => hd d (List.mem_cons_of_mem c hc)]
    rfl

theorem spanDigits_of_isDigit {digits : List Char} (hd : ∀ c ∈ digits, isDigit c) :
    spanDigits digits = (digits.map fun c => c.toNat - '0'.toNat, []) := by
  have hspan := @spanDigits_append digits [] hd (by simp)
  rwa [List.append_nil] at hspan

/-- The point is no digit. -/
theorem spanDigits_append_point {digits rest : List Char} (hd : ∀ c ∈ digits, isDigit c) :
    spanDigits (digits ++ '.' :: rest) =
      (digits.map fun c => c.toNat - '0'.toNat, '.' :: rest) := by
  refine spanDigits_append hd ?_
  rintro c ⟨⟩
  decide

/-- A numeral with a point denotes what its digits denote, in units of the last
    place. -/
theorem read?_append {sign whole fraction : List Char} (hs : IsOptionalSign sign)
    (hw : IsDigits whole) (hf : IsDigits fraction) :
    read? (sign ++ (whole ++ '.' :: fraction)) = some (decimalOf sign whole fraction) := by
  -- All characters lie between the plus sign and the digit nine: nothing is trimmed, left
  -- out or taken for an exponent.
  have hrange : ∀ c ∈ sign ++ (whole ++ '.' :: fraction), 43 ≤ c.toNat ∧ c.toNat ≤ 57 := by
    intro c hc
    simp only [List.mem_append, List.mem_cons] at hc
    rcases hc with hc | hc | rfl | hc
    · exact toNat_of_mem_sign hs c hc
    · exact toNat_of_mem_digits hw.2 c hc
    · decide
    · exact toNat_of_mem_digits hf.2 c hc
  have htrim : trim (sign ++ (whole ++ '.' :: fraction)) = sign ++ (whole ++ '.' :: fraction) := by
    refine trimBy_eq_self fun c hc => ?_
    have := hrange c hc
    exact isBlank_eq_false (by omega) (by omega)
  have hne : ∀ {d : Char}, 57 < d.toNat → ∀ c ∈ sign ++ (whole ++ '.' :: fraction), c ≠ d := by
    rintro d hd c hc rfl
    have := hrange c hc
    omega
  have hfilter : (sign ++ (whole ++ '.' :: fraction)).filter (· != '_') =
      sign ++ (whole ++ '.' :: fraction) :=
    List.filter_eq_self.2 fun c hc => by simpa using hne (by decide) c hc
  have hexponent : hasExponent (sign ++ (whole ++ '.' :: fraction)) = false := by
    rw [hasExponent, List.any_eq_false]
    intro c hc
    simpa using ⟨hne (by decide) c hc, hne (by decide) c hc⟩
  have hfirst : ∀ c, (whole ++ '.' :: fraction).head? = some c → isDigit c := by
    obtain ⟨c, whole, rfl⟩ := List.exists_cons_of_ne_nil hw.1
    rintro d ⟨⟩
    exact hw.2 _ List.mem_cons_self
  have hspan : spanNumber (whole ++ '.' :: fraction) =
      (whole.map fun c => c.toNat - '0'.toNat, fraction.map fun c => c.toNat - '0'.toNat, []) := by
    rw [spanNumber, spanDigits_append_point hw.2]
    simp only [spanDigits_of_isDigit hf.2]
  have hread : readAny? (sign ++ (whole ++ '.' :: fraction)) =
      some (decimalOf sign whole fraction) := by
    obtain ⟨c, whole, rfl⟩ := List.exists_cons_of_ne_nil hw.1
    rw [readAny?, htrim, hfilter, splitSign_append hs hfirst]
    simp only [hspan, ← List.map_append, digitsValue_map]
    simp [readExponent?, decimalOf]
  rw [read?, hread, Option.filter_some, hexponent]
  rfl

/-! ### Writing decimals -/

/-- The written form of a decimal with places after the point is a numeral that
    denotes it. -/
theorem exists_plain {d : Decimal} (hd : d.exponent ≤ -1) : ∃ sign whole fraction,
    d.plain = sign ++ (whole ++ '.' :: fraction) ∧ IsOptionalSign sign ∧ IsDigits whole ∧
    IsDigits fraction ∧ decimalOf sign whole fraction = d := by
  have hscale : (d.scale : Int) = -d.exponent := by
    rw [scale]
    omega
  have hdigits := isDigits_digitsOf d.coefficient
  -- With zeros in front there is a digit before the point.
  generalize hpadded : List.replicate (d.scale + 1 - (digitsOf d.coefficient).length) '0' ++
    digitsOf d.coefficient = padded
  have hlength : d.scale < padded.length := by
    rw [← hpadded, List.length_append, List.length_replicate]
    omega
  have hall : ∀ c ∈ padded, isDigit c := by
    intro c hc
    rw [← hpadded] at hc
    rcases List.mem_append.1 hc with hc | hc
    · obtain rfl := (List.mem_replicate.1 hc).2
      rfl
    · exact hdigits.2 c hc
  refine ⟨d.signText, padded.take (padded.length - d.scale), padded.drop (padded.length - d.scale),
    ?_, ?_, ⟨?_, fun c hc => hall c (List.mem_of_mem_take hc)⟩,
    ⟨?_, fun c hc => hall c (List.mem_of_mem_drop hc)⟩, ?_⟩
  · have hzero : d.exponent.toNat = 0 := by omega
    rw [plain, if_neg (by simp; omega), hzero, List.replicate_zero, List.append_nil, pointed,
      if_neg (by omega)]
    simp only [hpadded]
  · rw [signText]
    split
    · exact .inr (.inr rfl)
    · exact .inl rfl
  · rw [Ne, ← List.length_eq_zero_iff, List.length_take]
    omega
  · rw [Ne, ← List.length_eq_zero_iff, List.length_drop]
    omega
  · have hsign : decide (d.signText = ['-']) = d.negative := by
      rw [signText]
      cases d.negative <;> rfl
    have hexponent : -((padded.drop (padded.length - d.scale)).length : Int) = d.exponent := by
      rw [List.length_drop]
      omega
    rw [decimalOf, hexponent, List.take_append_drop, ← hpadded, Nat.ofDigitChars_append,
      Nat.ofDigitChars_replicate_zero, Nat.mul_zero, digitsOf, Nat.ofDigitChars_ten_toDigits, hsign]

end Decimal

end Blockscript
