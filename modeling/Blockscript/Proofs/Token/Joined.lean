import Blockscript.Proofs.Token.Tokenization

/-!
# Joining texts at blanks

No token goes on with a blank. Where a text that can be lexed is followed by blanks
and another text, both are thus lexed on their own: the tokens, or the error, of the
second one are those it has alone, at the places to which it has moved.

* `Token.shift`: a token some places further on;
* `tokensFrom_add`: what is found in a text does not depend on the place where the
  text starts;
* `tokensFrom_append_of_splits`: lexing goes on behind a text that splits into tokens;
* `lex_append_blanks`: the tokens of two texts with blanks between them.
-/

namespace Blockscript

open Text Lexer

/-- A token, some places further on. -/
def Token.shift (t : Token) (n : Nat) : Token :=
  { t with offset := t.offset + n }

namespace Lexer

variable {n : Nat} {s blanks rest tail : List Char} {c : Char} {ts : List Token}

/-! ### Blanks in front of a text -/

theorem tokensFrom_of_dropWhile_eq_nil (h : s.dropWhile isBlank = []) (n : Nat) :
    tokensFrom n s = .ok [] := by
  have hall := List.takeWhile_append_dropWhile (p := isBlank) (l := s)
  rw [h, List.append_nil] at hall
  exact tokensFrom_of_blanks (hall ▸ of_mem_takeWhile)

/-- The first token starts at the first character that is no blank, and lexing goes
    on at its end. -/
theorem tokensFrom_of_dropWhile_eq_cons (h : s.dropWhile isBlank = c :: tail) (n : Nat) :
    tokensFrom n s =
      match scanToken (c :: tail) with
      | .error e => .error (e.shift (n + (s.takeWhile isBlank).length))
      | .ok (kind, m) =>
        (⟨kind, String.ofList ((c :: tail).take m), n + (s.takeWhile isBlank).length⟩ :: ·) <$>
          tokensFrom (n + (s.takeWhile isBlank).length + m) (tail.drop (m - 1)) := by
  rw [tokensFrom]
  split
  · next heq =>
    rw [h] at heq
    contradiction
  · next heq =>
    obtain ⟨rfl, rfl⟩ := List.cons.inj (h.symm.trans heq)
    rfl

/-- Blanks in front of a text only move what is found in it. -/
theorem tokensFrom_blanks_append (hb : ∀ c ∈ blanks, isBlank c) (n : Nat) (rest : List Char) :
    tokensFrom n (blanks ++ rest) = tokensFrom (n + blanks.length) rest := by
  have hdrop : (blanks ++ rest).dropWhile isBlank = rest.dropWhile isBlank :=
    List.dropWhile_append_of_pos hb
  cases h : rest.dropWhile isBlank with
  | nil => rw [tokensFrom_of_dropWhile_eq_nil h, tokensFrom_of_dropWhile_eq_nil (hdrop.trans h)]
  | cons c tail =>
    rw [tokensFrom_of_dropWhile_eq_cons h, tokensFrom_of_dropWhile_eq_cons (hdrop.trans h),
      List.takeWhile_append_of_pos hb, List.length_append, Nat.add_assoc]

/-! ### Moving a text -/

/-- The place where a text starts is added to the places of what is found in it. -/
theorem tokensFrom_add (n m : Nat) (s : List Char) :
    tokensFrom (n + m) s =
      ((tokensFrom n s).map (List.map (·.shift m))).mapError (·.shift m) := by
  fun_induction tokensFrom n s with
  | case1 n s h =>
    rw [tokensFrom_of_dropWhile_eq_nil h]
    rfl
  | case2 n s c tail h start e hscan =>
    rw [tokensFrom_of_dropWhile_eq_cons h, hscan]
    simp only [start, Except.map, Except.mapError, LexError.shift]
    congr 2 <;> omega
  | case3 n s c tail h start kind k hscan =>
    rename_i ih
    have hstart : n + m + (s.takeWhile isBlank).length = start + m := by omega
    rw [tokensFrom_of_dropWhile_eq_cons h, hscan]
    simp only [hstart]
    rw [Nat.add_right_comm start m k, ih]
    cases tokensFrom (start + k) (tail.drop (k - 1)) <;> rfl

/-! ### Going on behind a text -/

/-- Lexing goes on behind the tokens of a text, if the token that ends there could not go
    on with what follows. -/
theorem tokensFrom_append_of_splits (h : Splits n s ts)
    (hr : ∀ t ∈ ts, t.endOffset = n + s.length →
      ∀ c, rest.head? = some c → t.kind.EndsBefore t.text.toList c) :
    tokensFrom n (s ++ rest) = (ts ++ ·) <$> tokensFrom (n + s.length) rest := by
  induction h with
  | blanks hb =>
    rw [tokensFrom_blanks_append hb]
    exact (id_map _).symm
  | @token n blanks behind t ts hb ho hk hends _ ih =>
    have hplace : n + blanks.length + t.text.toList.length = t.endOffset := by
      rw [Token.endOffset, ho, String.length_toList]
    have hlength : n + (blanks ++ (t.text.toList ++ behind)).length =
        t.endOffset + behind.length := by
      rw [List.length_append, List.length_append]
      omega
    have hends' : ∀ c, (behind ++ rest).head? = some c → t.kind.EndsBefore t.text.toList c := by
      intro c hc
      rcases behind with _ | ⟨d, behind⟩
      · exact hr t List.mem_cons_self hlength.symm c hc
      · exact hends c hc
    have htail := ih fun u hu hend => hr u (List.mem_cons_of_mem _ hu) (hend.trans hlength.symm)
    rw [List.append_assoc, List.append_assoc, tokensFrom_append hb hk hends', hplace, htail,
      hlength, String.ofList_toList, ← ho]
    exact (comp_map _ _ _).symm

end Lexer

variable {before blanks after : String} {ts : List Token}

/-- Two texts with blanks between them are lexed on their own, if the first one can be:
    its tokens come first, and what is found in the second one follows, as many places
    further on as there are characters in front of it. -/
theorem lex_append_blanks (h : lex before = .ok ts) (hne : blanks ≠ "")
    (hb : ∀ c ∈ blanks.toList, isBlank c) :
    (∀ us, lex after = .ok us →
      lex (before ++ blanks ++ after) =
        .ok (ts ++ us.map (·.shift (before ++ blanks).length))) ∧
    ∀ e, lex after = .error e →
      lex (before ++ blanks ++ after) = .error (e.shift (before ++ blanks).length) := by
  obtain ⟨d, tail, hcons⟩ := List.exists_cons_of_ne_nil fun hnil => hne (String.toList_inj.1 hnil)
  -- A blank ends every token, so the last one of the first text stays what it was.
  have hends : ∀ t ∈ ts, t.endOffset = 0 + before.toList.length →
      ∀ c, (blanks.toList ++ after.toList).head? = some c →
        t.kind.EndsBefore t.text.toList c := by
    rw [hcons]
    rintro t - - c ⟨⟩
    exact t.kind.endsBefore_of_isBlank t.text.toList (hb d (hcons ▸ List.mem_cons_self))
  have hlength : 0 + before.toList.length + blanks.toList.length =
      0 + (before ++ blanks).length := by
    rw [String.length_append, String.length_toList, String.length_toList]
    omega
  have hjoined : lex (before ++ blanks ++ after) =
      (ts ++ ·) <$> ((lex after).map (List.map (·.shift (before ++ blanks).length))).mapError
        (·.shift (before ++ blanks).length) := by
    rw [lex, String.toList_append, String.toList_append, List.append_assoc,
      tokensFrom_append_of_splits (splits_of_tokensFrom h) hends, tokensFrom_blanks_append hb,
      hlength, tokensFrom_add]
    rfl
  refine ⟨fun us hus => ?_, fun e he => ?_⟩
  · rw [hjoined, hus]
    rfl
  · rw [hjoined, he]
    rfl

/-- A sign, blanks with an operator in them, and a number that would go on with the sign;
    and the same before a text with an error. -/
theorem lex_append_blanks_sign :
    lex "x = -" = .ok [⟨.identifier, "x", 0⟩, ⟨.operator, "=", 2⟩, ⟨.operator, "-", 4⟩] ∧
    lex "x = - \t5" = .ok [⟨.identifier, "x", 0⟩, ⟨.operator, "=", 2⟩, ⟨.operator, "-", 4⟩,
      ⟨.integer, "5", 7⟩] ∧
    lex "x = - \t05" = .error ⟨.leadingZero, 8, 9⟩ := by
  have hx : lex "x = -" =
      .ok [⟨.identifier, "x", 0⟩, ⟨.operator, "=", 2⟩, ⟨.operator, "-", 4⟩] := by decide +kernel
  have hne : " \t" ≠ "" := by decide
  have hb : ∀ c ∈ " \t".toList, isBlank c := List.all_eq_true.1 (by decide)
  have hfive : lex "5" = .ok [⟨.integer, "5", 0⟩] := by decide +kernel
  have hzero : lex "05" = .error ⟨.leadingZero, 1, 2⟩ := by decide +kernel
  exact ⟨hx, (lex_append_blanks hx hne hb).1 _ hfive, (lex_append_blanks hx hne hb).2 _ hzero⟩

end Blockscript
