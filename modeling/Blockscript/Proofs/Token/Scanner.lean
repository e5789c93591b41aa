import Blockscript.Proofs.Token.Class
import Mathlib.Tactic.Common

/-!
# What the scanner finds

The scanner finds a token of a class exactly where the text starts with one that
ends there. Each class has two lemmas: the scanner finds every token of the class,
and what it finds is one.

* `scanToken_append`: a token that ends where it should is found;
* `exists_of_scanToken`: what is found is a token that ends where it should.
-/

namespace Blockscript.Lexer

open Text

variable {s text body rest : List Char} {n m : Nat}

/-! ### Identifiers -/

/-- The scanner takes a whole identifier, up to a character that is no part of one. -/
theorem scanIdentifier_append (h : IsIdentifier text)
    (hr : ∀ c, rest.head? = some c → isIdentifierPart c = false) :
    scanIdentifier (text ++ rest) = .ok text.length := by
  obtain ⟨c, tail, rfl, hc, htail⟩ := h
  have hparts : ∀ d ∈ c :: tail, isIdentifierPart d := by
    intro d hd
    rcases List.mem_cons.1 hd with rfl | hd
    · exact isIdentifierPart_of_start hc
    · exact htail d hd
  rw [scanIdentifier, takeWhile_append_of_ends hparts hr, if_pos (by simp [hc])]

/-- What the scanner takes as an identifier is one, and as long as it can be. -/
theorem exists_of_scanIdentifier (h : scanIdentifier s = .ok n) :
    ∃ text rest, s = text ++ rest ∧ text.length = n ∧ IsIdentifier text ∧
      ∀ c, rest.head? = some c → isIdentifierPart c = false := by
  rw [scanIdentifier] at h
  split at h
  · obtain _ | ⟨c, tail⟩ := s
    · contradiction
    · next hc =>
      replace hc : isIdentifierStart c := by simpa using hc
      refine ⟨_, _, List.takeWhile_append_dropWhile.symm, Except.ok.inj h,
        ⟨c, tail.takeWhile isIdentifierPart, ?_, hc, of_mem_takeWhile⟩,
        head_dropWhile_eq_false⟩
      rw [List.takeWhile_cons, if_pos (isIdentifierPart_of_start hc)]
  · contradiction

/-! ### Numbers -/

/-- The class and the length of a number after its sign and first digits: what
    follows them decides. -/
def closeNumber (sign digits rest : List Char) : Except LexError (Token.Kind × Nat) :=
  let n := sign.length + digits.length
  match rest with
  | '.' :: rest =>
    match rest.takeWhile isDigit with
    | [] => .error ⟨.missingFraction, n + 1, n⟩
    | fraction => .ok (.decimal, n + 1 + fraction.length)
  | _ =>
    if digits.head? = some '0' ∧ 1 < digits.length then
      .error ⟨.leadingZero, sign.length + 1, n⟩
    else if 0 < sign.length ∧ digits = ['0'] then
      .error (.here .signedZero n)
    else
      .ok (.integer, n)

/-- A number is scanned up to the end of its first digits, and then closed. -/
theorem scanNumber_append {sign digits : List Char} (hs : IsOptionalSign sign)
    (hd : IsDigits digits) (hr : ∀ c, rest.head? = some c → isDigit c = false) :
    scanNumber (sign ++ (digits ++ rest)) = closeNumber sign digits rest := by
  obtain ⟨c, tail, rfl⟩ := List.exists_cons_of_ne_nil hd.1
  have hc : isSign c = false := not_isSign_of_digit (hd.2 c List.mem_cons_self)
  have hsign : (if (sign ++ (c :: tail ++ rest)).head?.any isSign then 1 else 0) = sign.length := by
    rcases hs with rfl | rfl | rfl <;> simp_all [isSign]
  rw [scanNumber]
  simp only [hsign, List.drop_left, takeWhile_append_of_ends hd.2 hr]
  simp only [List.isEmpty_cons, Bool.false_eq_true, if_false]
  rw [← List.drop_drop, List.drop_left, List.drop_left]
  rfl

/-- After the digits of an integer, two of its forms are refused: one with a leading zero, and a
    zero with a sign. -/
theorem closeNumber_of_ne_point {sign digits : List Char} (hr : rest.head? ≠ some '.') :
    closeNumber sign digits rest =
      if digits.head? = some '0' ∧ 1 < digits.length then
        .error ⟨.leadingZero, sign.length + 1, sign.length + digits.length⟩
      else if 0 < sign.length ∧ digits = ['0'] then
        .error (.here .signedZero (sign.length + digits.length))
      else
        .ok (.integer, sign.length + digits.length) := by
  rw [closeNumber]
  rintro tail rfl
  exact hr rfl

/-- The scanner takes a whole integer, up to a character that is no digit and no point. -/
theorem scanNumber_of_isInteger (h : IsInteger text)
    (hr : ∀ c, rest.head? = some c → isDigit c = false ∧ c ≠ '.') :
    scanNumber (text ++ rest) = .ok (.integer, text.length) := by
  have hpoint : rest.head? ≠ some '.' := fun h => (hr '.' h).2 rfl
  obtain rfl | ⟨sign, c, digits, rfl, hs, hc, hne, hd⟩ := h
  · have hdigits : IsDigits ['0'] := ⟨List.cons_ne_nil _ _, List.forall_mem_singleton.2 rfl⟩
    have hzero := scanNumber_append (.inl rfl) hdigits fun c hc => (hr c hc).1
    rw [← List.nil_append (['0'] ++ rest), hzero, closeNumber_of_ne_point hpoint]
    rfl
  · have hdigits : IsDigits (c :: digits) := ⟨List.cons_ne_nil _ _, by simpa [hc] using hd⟩
    rw [List.append_assoc, scanNumber_append hs hdigits fun c hc => (hr c hc).1,
      closeNumber_of_ne_point hpoint, if_neg, if_neg, List.length_append]
    · rintro ⟨_, heq⟩
      exact hne (List.cons.inj heq).1
    · rintro ⟨heq, _⟩
      exact hne (Option.some.inj heq)

/-- The scanner takes a whole decimal, up to a character that is no digit. -/
theorem scanNumber_of_isDecimal (h : IsDecimal text)
    (hr : ∀ c, rest.head? = some c → isDigit c = false) :
    scanNumber (text ++ rest) = .ok (.decimal, text.length) := by
  obtain ⟨sign, whole, fraction, rfl, hs, hw, hf⟩ := h
  have hpoint : ∀ c, ('.' :: (fraction ++ rest)).head? = some c → isDigit c = false := by
    rintro c ⟨⟩
    rfl
  rw [List.append_assoc, List.append_assoc, List.cons_append, scanNumber_append hs hw hpoint,
    closeNumber, takeWhile_append_of_ends hf.2 hr]
  · obtain ⟨c, fraction, rfl⟩ := List.exists_cons_of_ne_nil hf.1
    simp only [List.length_append, List.length_cons]
    congr 2
    omega

/-- A text that starts with a number is a sign, digits, and what follows them. -/
theorem exists_of_startsWithNumber (h : startsWithNumber s) :
    ∃ sign digits rest, s = sign ++ (digits ++ rest) ∧ IsOptionalSign sign ∧ IsDigits digits ∧
      ∀ c, rest.head? = some c → isDigit c = false := by
  have split : ∀ c tail, isDigit c → ∃ digits rest, c :: tail = digits ++ rest ∧
      IsDigits digits ∧ ∀ c, rest.head? = some c → isDigit c = false := by
    intro c tail hc
    refine ⟨_, _, List.takeWhile_append_dropWhile.symm, ⟨?_, of_mem_takeWhile⟩,
      head_dropWhile_eq_false⟩
    rw [List.takeWhile_cons, if_pos hc]
    exact List.cons_ne_nil _ _
  obtain _ | ⟨c, tail⟩ := s
  · contradiction
  simp only [startsWithNumber, Bool.or_eq_true, Bool.and_eq_true] at h
  rcases h with hc | ⟨hs, hd⟩
  · obtain ⟨digits, rest, heq, hdigits, hrest⟩ := split c tail hc
    exact ⟨[], digits, rest, heq, .inl rfl, hdigits, hrest⟩
  · obtain _ | ⟨d, tail⟩ := tail
    · contradiction
    obtain ⟨digits, rest, heq, hdigits, hrest⟩ := split d tail hd
    refine ⟨[c], digits, rest, by rw [heq]; rfl, ?_, hdigits, hrest⟩
    rcases isSign_iff.1 hs with rfl | rfl
    · exact .inr (.inl rfl)
    · exact .inr (.inr rfl)

/-- What is scanned as a number is an integer or a decimal that ends there. -/
theorem exists_of_scanNumber {k : Token.Kind} (hs : startsWithNumber s)
    (h : scanNumber s = .ok (k, n)) :
    ∃ text rest, s = text ++ rest ∧ text.length = n ∧ k.Contains text ∧
      ∀ c, rest.head? = some c → k.EndsBefore text c := by
  obtain ⟨sign, digits, rest, rfl, hsign, hdigits, hrest⟩ := exists_of_startsWithNumber hs
  rw [scanNumber_append hsign hdigits hrest] at h
  by_cases hpoint : rest.head? = some '.'
  -- A decimal has digits after its point, all of which belong to it. The first digit of
  -- an integer is zero only if that is the whole of it.
  · obtain _ | ⟨_, rest⟩ := rest
    · cases hpoint
    obtain rfl := Option.some.inj hpoint
    simp only [closeNumber] at h
    split at h
    · contradiction
    · next hf =>
      obtain ⟨rfl, rfl⟩ := Prod.mk.inj (Except.ok.inj h)
      refine ⟨sign ++ (digits ++ '.' :: rest.takeWhile isDigit), rest.dropWhile isDigit, ?_, ?_,
        ⟨sign, digits, _, rfl, hsign, hdigits, fun h => hf h, of_mem_takeWhile⟩,
        head_dropWhile_eq_false⟩
      · simp only [List.append_assoc, List.cons_append, List.takeWhile_append_dropWhile]
      · simp only [List.length_append, List.length_cons]
        omega
  · rw [closeNumber_of_ne_point hpoint] at h
    split_ifs at h with hzero hsigned
    obtain ⟨rfl, rfl⟩ := Prod.mk.inj (Except.ok.inj h)
    refine ⟨sign ++ digits, rest, (List.append_assoc ..).symm, List.length_append, ?_,
      fun c hc => ⟨hrest c hc, fun heq => hpoint (heq ▸ hc)⟩⟩
    obtain ⟨c, tail, rfl⟩ := List.exists_cons_of_ne_nil hdigits.1
    by_cases hc : c = '0'
    · subst hc
      obtain rfl : tail = [] := by
        by_contra hne
        exact hzero ⟨rfl, Nat.succ_lt_succ (List.length_pos_iff.2 hne)⟩
      rcases hsign with rfl | rfl | rfl
      · exact .inl rfl
      · exact absurd ⟨Nat.one_pos, rfl⟩ hsigned
      · exact absurd ⟨Nat.one_pos, rfl⟩ hsigned
    · exact .inr ⟨sign, c, tail, rfl, hsign, hdigits.2 c List.mem_cons_self, hc,
        fun d hd => hdigits.2 d (List.mem_cons_of_mem _ hd)⟩

/-! ### Quoted literals -/

/-- The scanner takes a character literal, which holds one character or one escape. -/
theorem scanCharacter_of_denotes {body : List Char} {c : Char}
    (h : Escape.Denotes '\'' body [c]) :
    scanCharacter ('\'' :: (body ++ '\'' :: rest)) = .ok (body.length + 2) := by
  cases h with
  | plain hq hb h =>
    cases h
    rw [scanCharacter, List.drop_one, List.tail_cons, List.singleton_append]
    split
    · contradiction
    · next heq => exact absurd (List.cons.inj heq).1 hb
    · next heq => exact absurd (List.cons.inj heq).1 hq
    · rfl
  | escape he h =>
    cases h
    simp [scanCharacter, scanEscape, closeCharacter, he]

/-- A character literal is closed by the quote that follows its character. -/
theorem exists_of_closeCharacter (h : closeCharacter s m = .ok n) :
    ∃ rest, s.drop m = '\'' :: rest ∧ n = m + 1 := by
  rw [closeCharacter] at h
  split at h
  · next hq =>
    obtain ⟨rest, hrest⟩ := List.head?_eq_some_iff.1 hq
    exact ⟨rest, hrest, (Except.ok.inj h).symm⟩
  · contradiction

/-- What the scanner takes as a character literal stands for one character. -/
theorem exists_of_scanCharacter (h : scanCharacter ('\'' :: s) = .ok n) :
    ∃ body c rest, s = body ++ '\'' :: rest ∧ n = body.length + 2 ∧
      Escape.Denotes '\'' body [c] := by
  rw [scanCharacter, List.drop_one, List.tail_cons] at h
  split at h
  · contradiction
  · next rest =>
    obtain _ | ⟨c, rest⟩ := rest
    · contradiction
    cases he : Escape.escaped? c with
    | none => simp [scanEscape, he] at h
    | some d =>
      simp only [scanEscape, List.drop_one, List.tail_cons, he, Option.isSome_some, if_true] at h
      obtain ⟨rest', hrest, rfl⟩ := exists_of_closeCharacter h
      exact ⟨['\\', c], d, rest', by simpa using hrest, rfl, .escape he .nil⟩
  · contradiction
  · next c rest hb hq =>
    obtain ⟨rest', hrest, rfl⟩ := exists_of_closeCharacter h
    exact ⟨[c], c, rest', by simpa using hrest, rfl, .plain hq hb .nil⟩

/-- A string literal is scanned up to what can still be inside it. -/
theorem scanStringFrom_append (h : Escape.Denotes '"' body text) (n : Nat) (rest : List Char) :
    scanStringFrom n (body ++ rest) = scanStringFrom (n + body.length) rest := by
  induction h generalizing n with
  | nil => rfl
  | @plain c body _ hq hb _ ih =>
    have hlength : n + 1 + body.length = n + (c :: body).length := by
      rw [List.length_cons]
      omega
    rw [List.cons_append, scanStringFrom.eq_5 _ _ _ hq (fun _ _ h => absurd h hb)
      (fun h => absurd h hb), ih, hlength]
  | @escape c _ body _ he _ ih =>
    have hlength : n + 2 + body.length = n + ('\\' :: c :: body).length := by
      rw [List.length_cons, List.length_cons]
      omega
    rw [List.cons_append, List.cons_append, scanStringFrom, he, Option.isSome_some, if_pos rfl, ih,
      hlength]

/-- The scanner takes a string literal, up to the quotation mark that is not escaped. -/
theorem scanStringFrom_of_denotes (h : Escape.Denotes '"' body text) :
    scanStringFrom n (body ++ '"' :: rest) = .ok (n + body.length + 1) := by
  rw [scanStringFrom_append h]
  rfl

/-- What the scanner takes as a string literal stands for a text. -/
theorem exists_of_scanStringFrom (h : scanStringFrom n s = .ok m) :
    ∃ body text rest, s = body ++ '"' :: rest ∧ m = n + body.length + 1 ∧
      Escape.Denotes '"' body text := by
  fun_induction scanStringFrom n s with
  | case1 => contradiction
  | case2 n rest => exact ⟨[], [], rest, rfl, (Except.ok.inj h).symm, .nil⟩
  | case3 n c rest he ih =>
    obtain ⟨body, text, rest', rfl, rfl, hd⟩ := ih h
    obtain ⟨d, he⟩ := Option.isSome_iff_exists.1 he
    refine ⟨'\\' :: c :: body, d :: text, rest', rfl, ?_, .escape he hd⟩
    simp only [List.length_cons]
    omega
  | case4 => contradiction
  | case5 => contradiction
  | case6 n c rest hq hb hend ih =>
    obtain ⟨body, text, rest', rfl, rfl, hd⟩ := ih h
    refine ⟨c :: body, c :: text, rest', rfl, ?_, .plain hq (fun hc => ?_) hd⟩
    · simp only [List.length_cons]
      omega
    -- A backslash would have something behind it, if only the quote at the end.
    · obtain ⟨d, tail, heq⟩ := List.exists_cons_of_ne_nil (l := body ++ '"' :: rest') (by simp)
      exact hb d tail hc heq

theorem scanString_eq_ok_iff : scanString ('"' :: s) = .ok n ↔ scanStringFrom 1 s = .ok n := by
  rw [scanString, List.drop_one, List.tail_cons]
  split
  · next h => simp [h]
  · rfl

/-! ### Operators -/

/-- The scanner takes an operator, of two characters if they make one. -/
theorem scanOperator_of_isOperator (h : IsOperator text)
    (hr : ∀ c, rest.head? = some c → Token.Kind.EndsBefore text c .operator) :
    scanOperator (text ++ rest) = .ok text.length := by
  obtain hlong | ⟨c, rfl, hc, _⟩ := h
  · have htake : (text ++ rest).take 2 = text ∧ text.length = 2 := by
      simp only [longOperators, List.mem_cons, List.not_mem_nil, or_false] at hlong
      rcases hlong with rfl | rfl | rfl | rfl | rfl | rfl <;> exact ⟨rfl, rfl⟩
    rw [scanOperator, htake.1, if_pos (List.contains_iff_mem.2 hlong), htake.2]
  · have hshort : [c] ++ rest.take 1 ∉ longOperators := by
      obtain _ | ⟨d, rest⟩ := rest
      · simp [longOperators]
      · exact (hr d rfl c rfl).2
    rw [scanOperator, List.singleton_append, List.take_succ_cons, if_neg, if_pos]
    · rfl
    · simp [hc]
    · simpa using hshort

/-- What is scanned as an operator is one, and no longer operator or number starts
    there. -/
theorem exists_of_scanOperator {c : Char} (h : scanOperator (c :: s) = .ok n)
    (hstart : isIdentifierStart c = false) (hnumber : startsWithNumber (c :: s) = false)
    (hsingle : c ≠ '\'') (hdouble : c ≠ '"') :
    ∃ text rest, c :: s = text ++ rest ∧ text.length = n ∧ IsOperator text ∧
      ∀ d, rest.head? = some d → Token.Kind.EndsBefore text d .operator := by
  rw [scanOperator] at h
  -- Nothing goes on with a long operator. A short one could go on with a digit, if it is
  -- a sign, or with the second half of a long one.
  split_ifs at h with hlong hblank
  · obtain rfl := Except.ok.inj h
    have hmem := List.contains_iff_mem.1 hlong
    have hlength : ((c :: s).take 2).length = 2 := by
      simp only [longOperators, List.mem_cons, List.not_mem_nil, or_false] at hmem
      rcases hmem with h | h | h | h | h | h <;> rw [h] <;> rfl
    refine ⟨_, _, (List.take_append_drop 2 _).symm, hlength, .inl hmem, fun d _ e heq => ?_⟩
    rw [heq] at hlength
    exact absurd hlength (by simp)
  · obtain rfl := Except.ok.inj h
    simp only [startsWithNumber, Bool.or_eq_false_iff, Bool.and_eq_false_iff] at hnumber
    have hblank : isBlank c = false := by simpa using hblank
    refine ⟨[c], s, rfl, rfl, .inr ⟨c, rfl, hblank, hstart, hnumber.1, hsingle, hdouble⟩,
      fun d hd e heq => ?_⟩
    obtain ⟨rest, rfl⟩ := List.head?_eq_some_iff.1 hd
    obtain rfl := (List.cons.inj heq).1
    refine ⟨fun hc => ?_, fun hmem => hlong (List.contains_iff_mem.2 hmem)⟩
    obtain ⟨hsign, hdigit⟩ := hc
    rcases hnumber.2 with h | h
    · rw [hsign] at h
      contradiction
    · rw [startsWithDigit, hdigit] at h
      contradiction

/-! ### Tokens -/

theorem scanToken_single (s : List Char) :
    scanToken ('\'' :: s) = (scanCharacter ('\'' :: s)).map (.character, ·) := rfl

theorem scanToken_double (s : List Char) :
    scanToken ('"' :: s) = (scanString ('"' :: s)).map (.string, ·) := rfl

/-- What starts no other token is an operator, or no token. -/
theorem scanToken_operator {c : Char} (hstart : isIdentifierStart c = false)
    (hnumber : startsWithNumber (c :: s) = false) (hsingle : c ≠ '\'') (hdouble : c ≠ '"') :
    scanToken (c :: s) = (scanOperator (c :: s)).map (.operator, ·) := by
  rw [scanToken, if_neg (by simp [hstart]), if_neg (by simp [hnumber]),
    if_neg (by simpa using hsingle), if_neg (by simpa using hdouble)]

theorem of_map_eq_ok {k k' : Token.Kind} {r : Except LexError Nat}
    (h : r.map (k', ·) = .ok (k, n)) : k' = k ∧ r = .ok n := by
  obtain _ | m := r
  · contradiction
  · obtain ⟨rfl, rfl⟩ := Prod.mk.inj (Except.ok.inj h)
    exact ⟨rfl, rfl⟩

/-- An operator that ends where it should starts no other token. -/
theorem exists_cons_of_isOperator (h : IsOperator text)
    (hr : ∀ c, rest.head? = some c → Token.Kind.EndsBefore text c .operator) :
    ∃ c tail, text ++ rest = c :: tail ∧ isIdentifierStart c = false ∧
      startsWithNumber (c :: tail) = false ∧ c ≠ '\'' ∧ c ≠ '"' := by
  obtain hlong | ⟨c, rfl, _, hstart, hdigit, hsingle, hdouble⟩ := h
  · simp only [longOperators, List.mem_cons, List.not_mem_nil, or_false] at hlong
    rcases hlong with rfl | rfl | rfl | rfl | rfl | rfl <;>
      exact ⟨_, _, rfl, rfl, rfl, by decide, by decide⟩
  · refine ⟨c, rest, rfl, hstart, ?_, hsingle, hdouble⟩
    rw [startsWithNumber, hdigit, Bool.false_or, Bool.and_eq_false_iff]
    obtain _ | ⟨d, rest⟩ := rest
    · exact .inr rfl
    · have := (hr d rfl c rfl).1
      rw [startsWithDigit]
      cases hs : isSign c
      · exact .inl rfl
      · exact .inr (by simpa [hs] using this)

/-- A token that ends where it should is found. -/
theorem scanToken_append {k : Token.Kind} (h : k.Contains text)
    (hr : ∀ c, rest.head? = some c → k.EndsBefore text c) :
    scanToken (text ++ rest) = .ok (k, text.length) := by
  -- The first character tells which scanner is asked, one case a kind; the rest of the text cannot
  -- extend the token.
  cases k with
  | identifier =>
    have hscan := scanIdentifier_append h hr
    obtain ⟨c, tail, rfl, hc, _⟩ := h
    rw [scanToken, if_pos (by simp [hc]), hscan]
    rfl
  | integer =>
    have hscan := scanNumber_of_isInteger h hr
    have hnumber : startsWithNumber (text ++ rest) := by
      obtain rfl | ⟨sign, c, digits, rfl, hs, hc, _, hd⟩ := h
      · rfl
      · exact startsWithNumber_append hs ⟨List.cons_ne_nil c digits, by simpa [hc] using hd⟩ rest
    rw [scanToken, if_neg, if_pos hnumber, hscan]
    exact not_isIdentifierStart_of_number hnumber
  | decimal =>
    have hscan := scanNumber_of_isDecimal h hr
    have hnumber : startsWithNumber (text ++ rest) := by
      obtain ⟨sign, whole, fraction, rfl, hs, hw, _⟩ := h
      have := startsWithNumber_append hs hw ('.' :: fraction ++ rest)
      rwa [List.append_assoc, List.append_assoc, ← List.append_assoc]
    rw [scanToken, if_neg, if_pos hnumber, hscan]
    exact not_isIdentifierStart_of_number hnumber
  | character =>
    obtain ⟨body, c, rfl, hd⟩ := h
    rw [List.cons_append, scanToken_single, List.append_assoc, List.singleton_append,
      scanCharacter_of_denotes hd, List.length_cons, List.length_append]
    rfl
  | string =>
    obtain ⟨body, value, rfl, hd⟩ := h
    rw [List.cons_append, scanToken_double, List.append_assoc, List.singleton_append,
      scanString_eq_ok_iff.2 (scanStringFrom_of_denotes hd), List.length_cons, List.length_append,
      Nat.add_comm 1 body.length]
    rfl
  | operator =>
    obtain ⟨c, tail, heq, hstart, hnumber, hsingle, hdouble⟩ := exists_cons_of_isOperator h hr
    rw [heq, scanToken_operator hstart hnumber hsingle hdouble, ← heq,
      scanOperator_of_isOperator h hr]
    rfl

/-- What is found is a token that ends where it should. -/
theorem exists_of_scanToken {k : Token.Kind} (h : scanToken s = .ok (k, n)) :
    ∃ text rest, s = text ++ rest ∧ text.length = n ∧ k.Contains text ∧
      ∀ c, rest.head? = some c → k.EndsBefore text c := by
  rw [scanToken] at h
  split_ifs at h with hstart hnumber hsingle hdouble
  · obtain ⟨rfl, hscan⟩ := of_map_eq_ok h
    exact exists_of_scanIdentifier hscan
  · exact exists_of_scanNumber hnumber h
  · obtain ⟨rfl, hscan⟩ := of_map_eq_ok h
    obtain ⟨s, rfl⟩ := List.head?_eq_some_iff.1 hsingle
    obtain ⟨body, c, rest, rfl, rfl, hd⟩ := exists_of_scanCharacter hscan
    exact ⟨_, rest, by simp, by simp, ⟨body, c, rfl, hd⟩, fun _ _ => trivial⟩
  · obtain ⟨rfl, hscan⟩ := of_map_eq_ok h
    obtain ⟨s, rfl⟩ := List.head?_eq_some_iff.1 hdouble
    obtain ⟨body, text, rest, rfl, rfl, hd⟩ :=
      exists_of_scanStringFrom (scanString_eq_ok_iff.1 hscan)
    exact ⟨_, rest, by simp, by simp [Nat.add_comm], ⟨body, text, rfl, hd⟩, fun _ _ => trivial⟩
  · obtain ⟨rfl, hscan⟩ := of_map_eq_ok h
    obtain _ | ⟨c, s⟩ := s
    · contradiction
    · exact exists_of_scanOperator hscan (by simpa using hstart) (by simpa using hnumber)
        (fun h => hsingle (congrArg some h)) (fun h => hdouble (congrArg some h))

end Blockscript.Lexer
