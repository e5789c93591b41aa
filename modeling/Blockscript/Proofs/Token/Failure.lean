import Blockscript.Proofs.Token.Joined

/-!
# Where the scanner fails

A text that starts with no token is described like the tokens are: something has been
read, and the next character, or the end of the text, is none with which it can go on.
The error names the place of that character. One error is different: whether a zero in
front of other digits is allowed is decided by what follows the digits, but it is
reported right after the zero.

* `IsFailure`: the texts that start with no token, and their errors;
* `scanToken_eq_error_iff`: the scanner fails in exactly these texts, with these errors.
-/

namespace Blockscript

open Text Lexer

/-- A text that starts with no token, and its error, with places relative to the start. -/
inductive IsFailure : List Char → LexError → Prop
  | missingFraction {sign digits rest : List Char} (hs : IsOptionalSign sign)
      (hd : IsDigits digits) (hr : ∀ c, rest.head? = some c → isDigit c = false) :
      IsFailure (sign ++ (digits ++ '.' :: rest))
        ⟨.missingFraction, sign.length + digits.length + 1, sign.length + digits.length⟩
  | leadingZero {sign digits rest : List Char} (hs : IsOptionalSign sign) (hd : IsDigits digits)
      (hr : ∀ c, rest.head? = some c → isDigit c = false ∧ c ≠ '.') :
      IsFailure (sign ++ ('0' :: digits ++ rest))
        ⟨.leadingZero, sign.length + 1, sign.length + (digits.length + 1)⟩
  | signedZero {sign rest : List Char} (hs : IsOptionalSign sign) (hne : sign ≠ [])
      (hr : ∀ c, rest.head? = some c → isDigit c = false ∧ c ≠ '.') :
      IsFailure (sign ++ (['0'] ++ rest)) (.here .signedZero (sign.length + 1))
  | missingCharacter : IsFailure ['\''] (.here .unterminatedCharacter 1)
  | emptyCharacter {rest : List Char} : IsFailure ('\'' :: '\'' :: rest) (.here .emptyCharacter 1)
  | unterminatedCharacter {body rest : List Char} {c : Char}
      (hb : Escape.Denotes '\'' body [c]) (hr : rest.head? ≠ some '\'') :
      IsFailure ('\'' :: (body ++ rest)) (.here .unterminatedCharacter (body.length + 1))
  | characterEscape {rest : List Char}
      (hr : ∀ c, rest.head? = some c → Escape.escaped? c = none) :
      IsFailure ('\'' :: '\\' :: rest) (.here .invalidEscape 2)
  | unterminatedString {body text : List Char} (hb : Escape.Denotes '"' body text) :
      IsFailure ('"' :: body) (.here .unterminatedString (body.length + 1))
  | stringEscape {body text rest : List Char} (hb : Escape.Denotes '"' body text)
      (hr : ∀ c, rest.head? = some c → Escape.escaped? c = none) :
      IsFailure ('"' :: (body ++ '\\' :: rest)) (.here .invalidEscape (body.length + 2))

namespace Lexer

variable {n : Nat} {s rest tail : List Char} {c : Char} {e : LexError}

/-! ### Failures of the scanner -/

/-- What starts like a number is scanned as one. -/
theorem scanToken_number (h : startsWithNumber s) : scanToken s = scanNumber s := by
  rw [scanToken, if_neg (not_isIdentifierStart_of_number h), if_pos h]

/-- A number is scanned up to the end of its digits, and then as what follows says. -/
theorem scanToken_number_append {sign digits : List Char} (hs : IsOptionalSign sign)
    (hd : IsDigits digits) (hr : ∀ c, rest.head? = some c → isDigit c = false) :
    scanToken (sign ++ (digits ++ rest)) = closeNumber sign digits rest := by
  have hnumber := startsWithNumber_append hs hd rest
  rw [List.append_assoc] at hnumber
  rw [scanToken_number hnumber, scanNumber_append hs hd hr]

theorem isDigits_zero : IsDigits ['0'] :=
  ⟨List.cons_ne_nil _ _, List.forall_mem_singleton.2 rfl⟩

/-- The scanner fails at a number for a zero in front, a sign before a zero, or a point without
    digits after it. -/
theorem isFailure_of_scanNumber (hs : startsWithNumber s) (h : scanNumber s = .error e) :
    IsFailure s e := by
  obtain ⟨sign, digits, rest, rfl, hsign, hdigits, hrest⟩ := exists_of_startsWithNumber hs
  -- With a point, a digit is missing behind it; without one, a zero leads or carries a sign.
  rw [scanNumber_append hsign hdigits hrest] at h
  by_cases hpoint : rest.head? = some '.'
  · obtain ⟨rest, rfl⟩ := List.head?_eq_some_iff.1 hpoint
    simp only [closeNumber] at h
    split at h
    · next hnil =>
      obtain rfl := Except.error.inj h
      refine .missingFraction hsign hdigits fun c hc => ?_
      obtain ⟨tail, rfl⟩ := List.head?_eq_some_iff.1 hc
      rw [List.takeWhile_cons] at hnil
      split at hnil
      · contradiction
      · simpa using ‹¬isDigit c = true›
    · contradiction
  · have hend : ∀ c, rest.head? = some c → isDigit c = false ∧ c ≠ '.' :=
      fun c hc => ⟨hrest c hc, fun heq => hpoint (heq ▸ hc)⟩
    rw [closeNumber_of_ne_point hpoint] at h
    obtain ⟨c, digits, rfl⟩ := List.exists_cons_of_ne_nil hdigits.1
    split_ifs at h with hzero hsigned
    · obtain rfl := Except.error.inj h
      obtain rfl := Option.some.inj hzero.1
      have hne : digits ≠ [] := List.length_pos_iff.1 (Nat.lt_of_succ_lt_succ hzero.2)
      exact .leadingZero hsign
        ⟨hne, fun d hd => hdigits.2 d (List.mem_cons_of_mem _ hd)⟩ hend
    · obtain rfl := Except.error.inj h
      obtain ⟨hlength, heq⟩ := hsigned
      obtain ⟨rfl, rfl⟩ := List.cons.inj heq
      exact .signedZero hsign (List.length_pos_iff.1 hlength) hend

/-- A character literal is closed by a quotation mark, or it is not closed. -/
theorem head?_ne_of_closeCharacter (h : closeCharacter s n = .error e) :
    (s.drop n).head? ≠ some '\'' ∧ e = .here .unterminatedCharacter n := by
  rw [closeCharacter] at h
  split_ifs at h with hq
  exact ⟨hq, (Except.error.inj h).symm⟩

/-- The scanner fails at a character literal that is empty, is not closed, or holds an unknown
    escape. -/
theorem isFailure_of_scanCharacter (h : scanCharacter ('\'' :: s) = .error e) :
    IsFailure ('\'' :: s) e := by
  -- What stands behind the quote decides: nothing, an escape, the closing quote, or a character.
  rw [scanCharacter, List.drop_one, List.tail_cons] at h
  split at h
  · obtain rfl := Except.error.inj h
    exact .missingCharacter
  · next rest =>
    rcases rest with _ | ⟨c, rest⟩
    · obtain rfl := Except.error.inj h
      refine .characterEscape ?_
      rintro d ⟨⟩
    · cases he : Escape.escaped? c with
      | none =>
        simp only [scanEscape, List.drop_one, List.tail_cons, he, Option.isSome_none,
          Bool.false_eq_true, if_false] at h
        obtain rfl := Except.error.inj h
        refine .characterEscape ?_
        rintro d ⟨⟩
        exact he
      | some d =>
        simp only [scanEscape, List.drop_one, List.tail_cons, he, Option.isSome_some,
          if_true] at h
        obtain ⟨hr, rfl⟩ := head?_ne_of_closeCharacter h
        exact @IsFailure.unterminatedCharacter ['\\', c] _ _ (.escape he .nil) hr
  · obtain rfl := Except.error.inj h
    exact .emptyCharacter
  · next c rest hb hq =>
    obtain ⟨hr, rfl⟩ := head?_ne_of_closeCharacter h
    exact @IsFailure.unterminatedCharacter [c] _ _ (.plain hq hb .nil) hr

/-- A string literal that cannot be scanned does not end, or has a backslash that escapes
    nothing in it. -/
theorem exists_of_scanStringFrom_error (h : scanStringFrom n s = .error e) :
    ∃ body text, Escape.Denotes '"' body text ∧
      (s = body ∧ e = .here .unterminatedString (n + body.length) ∨
        ∃ rest, s = body ++ '\\' :: rest ∧
          (∀ c, rest.head? = some c → Escape.escaped? c = none) ∧
          e = .here .invalidEscape (n + body.length + 1)) := by
  -- By the recursion of the scanner, with the characters it has passed in front of the rest.
  fun_induction scanStringFrom n s with
  | case1 n => exact ⟨[], [], .nil, .inl ⟨rfl, (Except.error.inj h).symm⟩⟩
  | case2 => contradiction
  | case3 n c rest he ih =>
    obtain ⟨d, hd⟩ := Option.isSome_iff_exists.1 he
    obtain ⟨body, text, hbody, h⟩ := ih h
    have hlength : n + 2 + body.length = n + ('\\' :: c :: body).length := by
      rw [List.length_cons, List.length_cons]
      omega
    rw [hlength] at h
    refine ⟨'\\' :: c :: body, d :: text, .escape hd hbody, ?_⟩
    rcases h with ⟨rfl, rfl⟩ | ⟨rest, rfl, hr, rfl⟩
    · exact .inl ⟨rfl, rfl⟩
    · exact .inr ⟨rest, rfl, hr, rfl⟩
  | case4 n c rest he =>
    refine ⟨[], [], .nil, .inr ⟨c :: rest, rfl, ?_, (Except.error.inj h).symm⟩⟩
    rintro d ⟨⟩
    simpa using he
  | case5 n =>
    refine ⟨[], [], .nil, .inr ⟨[], rfl, ?_, (Except.error.inj h).symm⟩⟩
    rintro d ⟨⟩
  | case6 n c rest hq hb hend ih =>
    obtain ⟨body, text, hbody, h⟩ := ih h
    have hlength : n + 1 + body.length = n + (c :: body).length := by
      rw [List.length_cons]
      omega
    have hc : c ≠ '\\' := by
      rintro rfl
      rcases rest with _ | ⟨d, rest⟩
      · exact hend rfl rfl
      · exact hb d rest rfl rfl
    rw [hlength] at h
    refine ⟨c :: body, c :: text, .plain hq hc hbody, ?_⟩
    rcases h with ⟨rfl, rfl⟩ | ⟨rest, rfl, hr, rfl⟩
    · exact .inl ⟨rfl, rfl⟩
    · exact .inr ⟨rest, rfl, hr, rfl⟩

/-- The scanner fails at a string literal that is not closed, or holds an unknown escape. -/
theorem isFailure_of_scanString (h : scanString ('"' :: s) = .error e) :
    IsFailure ('"' :: s) e := by
  rw [scanString, List.drop_one, List.tail_cons] at h
  split at h
  · next hscan =>
    obtain rfl := Except.error.inj h
    obtain ⟨body, text, hbody, ⟨rfl, heq⟩ | ⟨_, _, _, heq⟩⟩ := exists_of_scanStringFrom_error hscan
    · rw [LexError.here, Nat.add_comm] at heq
      cases heq
      exact .unterminatedString hbody
    · cases heq
  · next hcause =>
    obtain ⟨body, text, hbody, ⟨rfl, rfl⟩ | ⟨rest, rfl, hr, rfl⟩⟩ :=
      exists_of_scanStringFrom_error h
    · exact absurd h (hcause _ _)
    · rw [Nat.add_comm 1]
      exact .stringEscape hbody hr

theorem of_map_eq_error {k : Token.Kind} {r : Except LexError Nat}
    (h : r.map (k, ·) = .error e) : r = .error e := by
  cases r with
  | error e' => exact congrArg _ (Except.error.inj h)
  | ok n => contradiction

/-- A text without a blank at its start in which the scanner fails is a failure. -/
theorem isFailure_of_scanToken (hc : isBlank c = false) (h : scanToken (c :: tail) = .error e) :
    IsFailure (c :: tail) e := by
  by_cases hstart : isIdentifierStart c
  · rw [scanToken, if_pos (by simpa using hstart), scanIdentifier,
      if_pos (by simpa using hstart)] at h
    contradiction
  by_cases hnumber : startsWithNumber (c :: tail)
  · exact isFailure_of_scanNumber hnumber (scanToken_number hnumber ▸ h)
  by_cases hsingle : c = '\''
  · subst hsingle
    exact isFailure_of_scanCharacter (of_map_eq_error (scanToken_single tail ▸ h))
  by_cases hdouble : c = '"'
  · subst hdouble
    exact isFailure_of_scanString (of_map_eq_error (scanToken_double tail ▸ h))
  · rw [scanToken_operator (by simpa using hstart) (by simpa using hnumber) hsingle hdouble,
      scanOperator] at h
    split_ifs at h with hlong hone
    · contradiction
    · contradiction
    · exact absurd hc (by simpa using hone)

/-! ### Errors of failures -/

/-- After a point, at least one digit is asked for. -/
theorem closeNumber_of_missingFraction {sign digits : List Char}
    (hr : ∀ c, rest.head? = some c → isDigit c = false) :
    closeNumber sign digits ('.' :: rest) = .error ⟨.missingFraction,
      sign.length + digits.length + 1, sign.length + digits.length⟩ := by
  have hnil : rest.takeWhile isDigit = [] := by
    rw [← List.nil_append rest]
    exact takeWhile_append_of_ends nofun hr
  rw [closeNumber, hnil]

/-- The scanner fails in a text that starts with no token. -/
theorem scanToken_of_isFailure (h : IsFailure s e) : scanToken s = .error e := by
  -- One case a failure: in each, the branch of the scanner is chosen by what the failure says of
  -- the characters read.
  cases h with
  | @missingFraction sign digits rest hs hd hr =>
    have hpoint : ∀ c, ('.' :: rest).head? = some c → isDigit c = false := by
      rintro c ⟨⟩
      rfl
    rw [scanToken_number_append hs hd hpoint, closeNumber_of_missingFraction hr]
  | @leadingZero sign digits rest hs hd hr =>
    -- The zero that leads is one digit of the run the scanner takes as a whole.
    have hdigits : IsDigits ('0' :: digits) :=
      ⟨List.cons_ne_nil _ _, List.forall_mem_cons.2 ⟨rfl, hd.2⟩⟩
    rw [scanToken_number_append hs hdigits fun c hc => (hr c hc).1,
      closeNumber_of_ne_point fun hc => (hr '.' hc).2 rfl, if_pos]
    · rfl
    · exact ⟨rfl, Nat.succ_lt_succ (List.length_pos_iff.2 hd.1)⟩
  | @signedZero sign rest hs hne hr =>
    rw [scanToken_number_append hs isDigits_zero fun c hc => (hr c hc).1,
      closeNumber_of_ne_point fun hc => (hr '.' hc).2 rfl, if_neg, if_pos]
    · rfl
    · exact ⟨List.length_pos_iff.2 hne, rfl⟩
    · exact fun h => absurd h.2 (by decide)
  | missingCharacter => rfl
  | emptyCharacter => rfl
  | @unterminatedCharacter body rest c hb hr =>
    rw [scanToken_single]
    cases hb with
    | plain hq hb h =>
      cases h
      simp [scanCharacter, closeCharacter, hr, Except.map]
    | escape he h =>
      cases h
      simp [scanCharacter, scanEscape, closeCharacter, he, hr, Except.map]
  | @characterEscape rest hr =>
    rw [scanToken_single]
    rcases rest with _ | ⟨c, rest⟩
    · rfl
    · simp [scanCharacter, scanEscape, hr c rfl, Except.map, LexError.here, LexError.shift]
  | @unterminatedString body text hb =>
    have hscan := scanStringFrom_append hb 1 []
    rw [List.append_nil] at hscan
    rw [scanToken_double, scanString, List.drop_one, List.tail_cons, hscan]
    simp [scanStringFrom, LexError.here, Except.map, Nat.add_comm]
  | @stringEscape body text rest hb hr =>
    have hscan : scanStringFrom 1 (body ++ '\\' :: rest) =
        .error (.here .invalidEscape (body.length + 2)) := by
      rw [scanStringFrom_append hb]
      rcases rest with _ | ⟨c, rest⟩
      · simp [scanStringFrom, Nat.add_comm 1]
      · simp [scanStringFrom, hr c rfl, Nat.add_comm 1]
    rw [scanToken_double, scanString, List.drop_one, List.tail_cons, hscan]
    rfl

/-- The scanner fails in exactly the texts that start with no token. -/
theorem scanToken_eq_error_iff (hc : isBlank c = false) :
    scanToken (c :: tail) = .error e ↔ IsFailure (c :: tail) e :=
  ⟨isFailure_of_scanToken hc, scanToken_of_isFailure⟩

end Lexer

end Blockscript
