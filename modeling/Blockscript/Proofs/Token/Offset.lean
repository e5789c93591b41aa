import Blockscript.Proofs.Token.Failure

/-!
# The place of an error

Where lexing fails, tokens have been found up to some place, and what remains starts
with no token. What has been read of it is the beginning of a token, so that the text
in front of the error is the beginning of a program. With the character at the place of
the error it is none any more.

* `IsFailure.exists_append`: what has been read can be completed, but not if the next
  character follows it;
* `exists_of_tokensFrom_error`: lexing finds tokens up to a text that starts with none;
* `lex_error_offset`: the place of an error in a program.
-/

namespace Blockscript

open Text Lexer

variable {n : Nat} {s : List Char} {ts : List Token} {e : LexError}

/-- In front of the place of its error, a text that starts with no token is the beginning
    of one. With the character at that place it is none, whatever follows. -/
theorem IsFailure.exists_append (h : IsFailure s e) :
    ∃ read rest, s = read ++ rest ∧ read ≠ [] ∧ read.length = e.offset ∧
      (∃ (k : Token.Kind) (more : List Char), k.Contains (read ++ more)) ∧
      (e.cause ≠ .leadingZero → rest ≠ [] → ∀ rest', rest'.head? = rest.head? →
        IsFailure (read ++ rest') e) := by
  have hzero : IsDigits ['0'] := isDigits_zero
  -- For every failure, the characters read and a continuation that makes a token of them: a digit
  -- for the missing fraction, a fraction for the zeros, a quote for an open text.
  cases h with
  | @missingFraction sign digits rest hs hd hr =>
    refine ⟨sign ++ (digits ++ ['.']), rest, by simp, by simp, ?_,
      ⟨.decimal, ['0'], sign, digits, ['0'], by simp, hs, hd, hzero⟩, ?_⟩
    · simp only [List.length_append, List.length_singleton]
      omega
    · intro _ _ rest' hhead
      simpa using IsFailure.missingFraction hs hd (hhead ▸ hr)
  | @leadingZero sign digits rest hs hd hr =>
    exact ⟨sign ++ ['0'], digits ++ rest, by simp, by simp, by simp,
      ⟨.decimal, ['.', '0'], sign, ['0'], ['0'], by simp, hs, hzero, hzero⟩, fun h => absurd rfl h⟩
  | @signedZero sign rest hs hne hr =>
    refine ⟨sign ++ ['0'], rest, by simp, by simp, by simp [LexError.here],
      ⟨.decimal, ['.', '0'], sign, ['0'], ['0'], by simp, hs, hzero, hzero⟩, ?_⟩
    intro _ _ rest' hhead
    rw [List.append_assoc]
    exact .signedZero hs hne (hhead ▸ hr)
  | missingCharacter =>
    exact ⟨['\''], [], rfl, List.cons_ne_nil _ _, rfl,
      ⟨.character, ['a', '\''], ['a'], 'a', rfl, .plain (by decide) (by decide) .nil⟩,
      fun _ h => absurd rfl h⟩
  | emptyCharacter =>
    refine ⟨['\''], _, rfl, List.cons_ne_nil _ _, rfl,
      ⟨.character, ['a', '\''], ['a'], 'a', rfl, .plain (by decide) (by decide) .nil⟩, ?_⟩
    intro _ _ rest' hhead
    obtain ⟨rest', rfl⟩ := List.head?_eq_some_iff.1 hhead
    exact .emptyCharacter
  | @unterminatedCharacter body rest c hb hr =>
    refine ⟨'\'' :: body, rest, rfl, List.cons_ne_nil _ _, rfl,
      ⟨.character, ['\''], body, c, rfl, hb⟩, ?_⟩
    intro _ _ rest' hhead
    exact .unterminatedCharacter hb (hhead ▸ hr)
  | @characterEscape rest hr =>
    refine ⟨['\'', '\\'], rest, rfl, List.cons_ne_nil _ _, rfl,
      ⟨.character, ['n', '\''], ['\\', 'n'], '\n', rfl, .escape rfl .nil⟩, ?_⟩
    intro _ _ rest' hhead
    exact @IsFailure.characterEscape rest' (hhead ▸ hr)
  | @unterminatedString body text hb =>
    exact ⟨'"' :: body, [], by simp, List.cons_ne_nil _ _, rfl,
      ⟨.string, ['"'], body, text, rfl, hb⟩, fun _ h => absurd rfl h⟩
  | @stringEscape body text rest hb hr =>
    refine ⟨'"' :: (body ++ ['\\']), rest, by simp, List.cons_ne_nil _ _, ?_,
      ⟨.string, ['n', '"'], body ++ ['\\', 'n'], text ++ ['\n'], by simp,
        hb.append (.escape rfl .nil)⟩, ?_⟩
    · simp [LexError.here]
    · intro _ _ rest' hhead
      simpa using IsFailure.stringEscape hb (hhead ▸ hr)

/-- Lexing fails behind tokens that end there, in a text that starts with no token. -/
theorem exists_of_tokensFrom_error (h : tokensFrom n s = .error e) :
    ∃ before rest ts e', s = before ++ rest ∧ Splits n before ts ∧
      (∀ t ∈ ts, t.endOffset = n + before.length →
        ∀ c, rest.head? = some c → t.kind.EndsBefore t.text.toList c) ∧
      IsFailure rest e' ∧ e = e'.shift (n + before.length) := by
  -- By the recursion of the scanner: either this token fails, or it is read and a later one fails.
  fun_induction tokensFrom n s with
  | case1 => contradiction
  | case2 n s c tail hs start e' hscan =>
    have hc : isBlank c = false := head_dropWhile_eq_false (s := s) c (by rw [hs]; rfl)
    exact ⟨s.takeWhile isBlank, c :: tail, [], e', by rw [← hs, List.takeWhile_append_dropWhile],
      .blanks of_mem_takeWhile, List.forall_mem_nil _, isFailure_of_scanToken hc hscan,
      (Except.error.inj h).symm⟩
  | case3 n s c tail hs start k m hscan =>
    rename_i ih
    cases htail : tokensFrom (start + m) (tail.drop (m - 1)) with
    | ok ts =>
      rw [htail] at h
      contradiction
    | error e' =>
      rw [htail] at h
      obtain rfl := Except.error.inj h
      obtain ⟨before, rest, ts, e', hrest, hsplits, hends, hfailure, rfl⟩ := ih htail
      obtain ⟨text, behind, heq, rfl, hk, hr⟩ := exists_of_scanToken hscan
      -- The rest of the scanned text is what the recursive call was given.
      have hbehind : behind = before ++ rest := by
        obtain ⟨d, text, rfl, _⟩ := hk.exists_cons
        rw [(List.cons.inj heq).2, List.length_cons, Nat.add_sub_cancel] at hrest
        exact List.drop_left.symm.trans hrest
      have hlength : n + (s.takeWhile isBlank ++ (text ++ before)).length =
          start + text.length + before.length := by
        rw [List.length_append, List.length_append]
        omega
      have ht := @Splits.token n _ before ⟨k, String.ofList text, start⟩ _
        of_mem_takeWhile rfl (by rwa [String.toList_ofList])
        (by
          rw [String.toList_ofList]
          exact fun d hd => hr d (by rw [hbehind, List.head?_append, hd]; rfl))
        (by rwa [Token.endOffset, String.length_ofList])
      rw [String.toList_ofList] at ht
      refine ⟨_, rest, _, e', ?_, ht, ?_, hfailure, by rw [hlength]⟩
      · rw [List.append_assoc, List.append_assoc, ← hbehind, ← heq, ← hs,
          List.takeWhile_append_dropWhile]
      -- A token that ends at the failure is the last of them; with tokens after it, the recursive
      -- call has said so.
      · rintro t (_ | ⟨_, hmem⟩) hend d hd
        · have hnil : before = [] := by
            rw [hlength] at hend
            simp only [Token.endOffset, String.length_ofList] at hend
            exact List.length_eq_zero_iff.1 (by omega)
          rw [String.toList_ofList]
          exact hr d (by rw [hbehind, hnil]; exact hd)
        · exact hends t hmem (hend.trans hlength) d hd

/-- No digit stands before one with which a token starts: it would go on with the digit. -/
theorem Token.Kind.Contains.isDigit_getLast {k : Token.Kind} {text : List Char} {c d : Char}
    (h : k.Contains text) (hends : k.EndsBefore text d) (hd : isDigit d)
    (hc : text.getLast? = some c) : isDigit c = false := by
  -- A digit behind an identifier or a number would belong to it, so only texts and operators are
  -- left, which end in no digit.
  cases k with
  | identifier =>
    rw [Token.Kind.EndsBefore, isIdentifierPart, hd] at hends
    simp at hends
  | integer =>
    rw [hends.1] at hd
    contradiction
  | decimal =>
    rw [show isDigit d = false from hends] at hd
    contradiction
  | character =>
    obtain ⟨body, x, rfl, _⟩ := h
    rw [← List.cons_append, List.getLast?_concat] at hc
    obtain rfl := Option.some.inj hc
    rfl
  | string =>
    obtain ⟨body, x, rfl, _⟩ := h
    rw [← List.cons_append, List.getLast?_concat] at hc
    obtain rfl := Option.some.inj hc
    rfl
  | operator =>
    obtain hlong | ⟨x, rfl, _, _, hx, _⟩ := h
    · simp only [longOperators, List.mem_cons, List.not_mem_nil, or_false] at hlong
      rcases hlong with rfl | rfl | rfl | rfl | rfl | rfl <;>
        · obtain rfl := Option.some.inj hc
          rfl
    · obtain rfl := Option.some.inj hc
      exact hx

theorem isDigit_getLast_of_splits {d : Char} (h : Splits n s ts) (hd : isDigit d)
    (hends : ∀ t ∈ ts, t.endOffset = n + s.length → t.kind.EndsBefore t.text.toList d) :
    ∀ c, s.getLast? = some c → isDigit c = false := by
  induction h with
  | blanks hb =>
    intro c hc
    have hblank := hb c (List.mem_of_getLast? hc)
    rw [Bool.eq_false_iff]
    intro hdigit
    rw [isBlank_of_digit hdigit] at hblank
    contradiction
  | @token n blanks rest t ts hb ho hk _ _ ih =>
    intro c hc
    have hlength : n + (blanks ++ (t.text.toList ++ rest)).length = t.endOffset + rest.length := by
      rw [List.length_append, List.length_append, Token.endOffset, ho, String.length_toList]
      omega
    -- With nothing behind the last token, its own last character counts.
    rcases List.eq_nil_or_concat rest with rfl | ⟨rest', x, rfl⟩
    · obtain ⟨d', tail, heq, _⟩ := hk.exists_cons
      have hlast : t.text.toList.getLast? = some c := by
        rw [List.append_nil, List.getLast?_append, heq] at hc
        rw [heq]
        simpa using hc
      exact hk.isDigit_getLast (hends t List.mem_cons_self hlength.symm) hd hlast
    · refine ih (fun u hu hend => ?_) c ?_
      · exact hends u (List.mem_cons_of_mem _ hu) (hend.trans hlength.symm)
      · simpa using hc

/-! ### Texts with the same beginning -/

variable {before rest : List Char}

/-- A token on its own. -/
theorem tokensFrom_of_contains {k : Token.Kind} {text : List Char} (h : k.Contains text)
    (n : Nat) : tokensFrom n text = .ok [⟨k, String.ofList text, n⟩] := by
  have := @tokensFrom_append n [] text [] k nofun h nofun
  rw [List.nil_append, List.append_nil, tokensFrom_of_blanks (s := []) nofun] at this
  exact this

theorem IsFailure.offset_le (h : IsFailure s e) : e.offset ≤ s.length := by
  obtain ⟨read, rest, rfl, _, hread, _⟩ := h.exists_append
  rw [← hread, List.length_append]
  exact Nat.le_add_right _ _

/-- Behind tokens, what a failing text has in front of its error can be completed. -/
theorem IsFailure.exists_tokensFrom (h : IsFailure rest e) (hsplits : Splits n before ts)
    (hends : ∀ t ∈ ts, t.endOffset = n + before.length →
      ∀ c, rest.head? = some c → t.kind.EndsBefore t.text.toList c) :
    ∃ more us, tokensFrom n (before ++ (rest.take e.offset ++ more)) = .ok us := by
  obtain ⟨read, rest, rfl, hne, hread, ⟨k, more, hk⟩, _⟩ := h.exists_append
  obtain ⟨c, read, rfl⟩ := List.exists_cons_of_ne_nil hne
  refine ⟨more, ts ++ [⟨k, String.ofList (c :: read ++ more), n + before.length⟩], ?_⟩
  rw [← hread, List.take_left,
    @tokensFrom_append_of_splits _ _ (c :: read ++ more) _ hsplits hends,
    tokensFrom_of_contains hk]
  rfl

/-- Behind tokens, a text fails like another one with which it starts up to the place of the
    error and the character there. -/
theorem IsFailure.tokensFrom_of_prefix {rest' : List Char} (h : IsFailure rest e)
    (hsplits : Splits n before ts)
    (hends : ∀ t ∈ ts, t.endOffset = n + before.length →
      ∀ c, rest.head? = some c → t.kind.EndsBefore t.text.toList c)
    (hcause : e.cause ≠ .leadingZero) (hlt : e.offset < rest.length)
    (hrest : rest.take (e.offset + 1) <+: rest') :
    tokensFrom n (before ++ rest') = .error (e.shift (n + before.length)) := by
  -- The characters up to the failure and the first one that cannot follow are the same in both
  -- texts.
  obtain ⟨read, rest, rfl, hne, hread, ⟨k, more, hk⟩, hstuck⟩ := h.exists_append
  obtain ⟨c, read, rfl⟩ := List.exists_cons_of_ne_nil hne
  obtain ⟨d, rest, rfl⟩ : ∃ d tail, rest = d :: tail := by
    refine List.exists_cons_of_ne_nil ?_
    rintro rfl
    rw [List.append_nil, hread] at hlt
    exact Nat.lt_irrefl _ hlt
  obtain ⟨_, _, heq, hc⟩ := hk.exists_cons
  obtain ⟨rfl, -⟩ := List.cons.inj heq
  have htake : (c :: read ++ d :: rest).take (e.offset + 1) = c :: read ++ [d] := by
    rw [← hread, List.take_length_add_append]
    rfl
  obtain ⟨tail, rfl⟩ := htake ▸ hrest
  have hscan : scanToken (c :: (read ++ [d] ++ tail)) = .error e := by
    have := scanToken_of_isFailure (hstuck hcause (List.cons_ne_nil _ _) (d :: tail) rfl)
    simpa using this
  have hfails : tokensFrom (n + before.length) (c :: (read ++ [d] ++ tail)) =
      .error (e.shift (n + before.length)) := by
    have hdrop : (c :: (read ++ [d] ++ tail)).dropWhile isBlank = c :: (read ++ [d] ++ tail) :=
      List.dropWhile_cons_of_neg (by simp [hc])
    rw [tokensFrom_of_dropWhile_eq_cons hdrop, hscan, List.takeWhile_cons_of_neg (by simp [hc])]
    rfl
  have hgoes := @tokensFrom_append_of_splits _ _ (c :: (read ++ [d] ++ tail)) _ hsplits hends
  rw [List.cons_append, List.cons_append, hgoes, hfails]
  rfl

/-- A zero in front of other digits, with no point behind them. -/
theorem IsFailure.of_leadingZero (h : IsFailure s e) (hcause : e.cause = .leadingZero) :
    ∃ sign digits rest, s = sign ++ '0' :: (digits ++ rest) ∧ e.offset = sign.length + 1 ∧
      IsOptionalSign sign ∧ IsDigits digits ∧
      ∀ c, rest.head? = some c → isDigit c = false ∧ c ≠ '.' := by
  cases h with
  | @leadingZero sign digits rest hs hd hr => exact ⟨sign, digits, rest, rfl, rfl, hs, hd, hr⟩
  | _ => contradiction

/-- The place of an error is that of the first character that is impossible: the text in
    front of it is the beginning of a program that can be lexed, and no text that goes on
    with the character itself can. The exception is a zero in front of other digits, with
    no point behind them: the error is reported right after the zero. -/
theorem lex_error_offset {source : String} (h : lex source = .error e) :
    e.offset ≤ source.length ∧
    (∃ other ts, source.toList.take e.offset <+: other.toList ∧ lex other = .ok ts) ∧
    (e.cause ≠ .leadingZero → e.offset < source.length →
      ∀ other : String, source.toList.take (e.offset + 1) <+: other.toList →
        lex other = .error e) ∧
    (e.cause = .leadingZero →
      ∃ before digits after, source.toList = before ++ '0' :: (digits ++ after) ∧
        e.offset = before.length + 1 ∧ IsDigits digits ∧
        (∀ c, after.head? = some c → isDigit c = false ∧ c ≠ '.') ∧
        ∀ c, before.getLast? = some c → isDigit c = false) := by
  obtain ⟨before, rest, ts, e, hsource, hsplits, hends, hfailure, rfl⟩ :=
    exists_of_tokensFrom_error h
  have hoffset : (e.shift (0 + before.length)).offset = before.length + e.offset := by
    simp only [LexError.shift]
    omega
  have hlength : source.length = before.length + rest.length := by
    rw [← String.length_toList, hsource, List.length_append]
  rw [hoffset, hlength, hsource, List.take_length_add_append]
  refine ⟨Nat.add_le_add_left hfailure.offset_le _, ?_, fun hcause hlt other hother => ?_,
    fun hcause => ?_⟩
  · obtain ⟨more, us, hlex⟩ := hfailure.exists_tokensFrom hsplits hends
    refine ⟨String.ofList (before ++ (rest.take e.offset ++ more)), us, ?_, ?_⟩
    · rw [String.toList_ofList, ← List.append_assoc]
      exact List.prefix_append _ _
    · rw [lex, String.toList_ofList, hlex]
  · rw [Nat.add_assoc, List.take_length_add_append] at hother
    obtain ⟨tail, htail⟩ := hother
    rw [lex, ← htail, List.append_assoc]
    exact hfailure.tokensFrom_of_prefix hsplits hends hcause (Nat.lt_of_add_lt_add_left hlt)
      (List.prefix_append _ _)
  · obtain ⟨sign, digits, after, rfl, hplace, hs, hd, hr⟩ := hfailure.of_leadingZero hcause
    refine ⟨before ++ sign, digits, after, by rw [List.append_assoc],
      by rw [hplace, List.length_append, Nat.add_assoc], hd, hr, ?_⟩
    -- A sign in front of the zero is no digit. Without one, the zero starts a token.
    rcases hs with rfl | rfl | rfl
    · rw [List.append_nil]
      exact isDigit_getLast_of_splits hsplits (d := '0') rfl
        fun t ht hend => hends t ht hend '0' rfl
    · rintro c hc
      rw [List.getLast?_concat] at hc
      obtain rfl := Option.some.inj hc
      rfl
    · rintro c hc
      rw [List.getLast?_concat] at hc
      obtain rfl := Option.some.inj hc
      rfl

/-- A backslash that escapes nothing: the text up to it can be completed, and with the
    character behind it, it fails whatever follows. -/
theorem lex_error_offset_escape :
    lex "x = \"a\\q\"" = .error ⟨.invalidEscape, 7, 7⟩ ∧
    (∃ other ts, "x = \"a\\".toList <+: other.toList ∧ lex other = .ok ts) ∧
    lex "x = \"a\\q b\";" = .error ⟨.invalidEscape, 7, 7⟩ := by
  have h : lex "x = \"a\\q\"" = .error ⟨.invalidEscape, 7, 7⟩ := by decide +kernel
  obtain ⟨_, hok, hfails, _⟩ := lex_error_offset h
  exact ⟨h, hok, hfails (by decide) (by decide) _ (by decide)⟩

end Blockscript
