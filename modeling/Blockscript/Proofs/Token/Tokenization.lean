import Blockscript.Proofs.Token.Scanner

/-!
# Tokenizations

A *tokenization* of a text is a list of tokens that lie in it one after the other,
with nothing but blanks before, between and after them, each in its class and
ending where the next character could not go on with it. Places are those of the
text, so that the description does not depend on any way to find the tokens.

* `IsTokenization`: the description;
* `Splits`: the same for what remains of a text from a place on, token by token;
* `tokensFrom_eq_ok_iff`: the lexer finds the tokens into which a text splits;
* `lex_eq_ok_iff_isTokenization`: lexing gives the tokenization of a text, of which
  there is thus at most one.
-/

namespace Blockscript

open Text Lexer

/-- A list of tokens is a tokenization of a text from a place on. -/
structure IsTokenization (start : Nat) (s : List Char) (ts : List Token) : Prop where
  /-- No token lies before the start. -/
  start_le : ∀ t ∈ ts, start ≤ t.offset
  /-- The tokens lie one after the other. -/
  inOrder : ts.Pairwise fun t u => t.endOffset ≤ u.offset
  /-- A token is the slice of the text at its place. -/
  isSlice : ∀ t ∈ ts, (s.drop t.offset).take t.text.length = t.text.toList
  /-- Outside the tokens there are blanks only. -/
  isBlank : ∀ i c, start ≤ i → s[i]? = some c →
    (∀ t ∈ ts, i < t.offset ∨ t.endOffset ≤ i) → isBlank c
  /-- A token belongs to its class. -/
  contains : ∀ t ∈ ts, t.kind.Contains t.text.toList
  /-- A token ends where the next character could not go on with it. -/
  ends : ∀ t ∈ ts, ∀ c, s[t.endOffset]? = some c → t.kind.EndsBefore t.text.toList c

namespace Lexer

/-- What remains of a text from a place on splits into tokens and blanks. -/
inductive Splits : Nat → List Char → List Token → Prop
  | blanks {n : Nat} {s : List Char} : (∀ c ∈ s, isBlank c) → Splits n s []
  | token {n : Nat} {blanks rest : List Char} {t : Token} {ts : List Token} :
      (∀ c ∈ blanks, isBlank c) → t.offset = n + blanks.length → t.kind.Contains t.text.toList →
      (∀ c, rest.head? = some c → t.kind.EndsBefore t.text.toList c) →
      Splits t.endOffset rest ts → Splits n (blanks ++ (t.text.toList ++ rest)) (t :: ts)

variable {n : Nat} {s : List Char} {ts : List Token}

/-! ### The lexer -/

theorem tokensFrom_of_blanks (h : ∀ c ∈ s, isBlank c) : tokensFrom n s = .ok [] := by
  have hs : s.dropWhile isBlank = [] := by
    rw [← List.append_nil s, List.dropWhile_append_of_pos h, List.dropWhile_nil]
  rw [tokensFrom]
  split
  · rfl
  · next heq =>
    rw [hs] at heq
    contradiction

/-- The first token is taken off the front of a text, and lexing goes on after it. -/
theorem tokensFrom_append {blanks text rest : List Char} {k : Token.Kind}
    (hb : ∀ c ∈ blanks, isBlank c) (hk : k.Contains text)
    (hr : ∀ c, rest.head? = some c → k.EndsBefore text c) :
    tokensFrom n (blanks ++ (text ++ rest)) =
      (⟨k, String.ofList text, n + blanks.length⟩ :: ·) <$>
        tokensFrom (n + blanks.length + text.length) rest := by
  obtain ⟨c, tail, rfl, hc⟩ := hk.exists_cons
  have hstop : ∀ d, (c :: tail ++ rest).head? = some d → isBlank d = false := by
    rintro d ⟨⟩
    exact hc
  have hdrop : (blanks ++ (c :: tail ++ rest)).dropWhile isBlank = c :: (tail ++ rest) := by
    rw [List.dropWhile_append_of_pos hb, List.cons_append,
      List.dropWhile_cons_of_neg (by simp [hc])]
  have hscan := scanToken_append hk hr
  rw [tokensFrom]
  split
  · next heq =>
    rw [hdrop] at heq
    contradiction
  · next d tail' heq =>
    obtain ⟨rfl, rfl⟩ := List.cons.inj (heq.symm.trans hdrop)
    rw [takeWhile_append_of_ends hb hstop]
    simp only [← List.cons_append, hscan]
    rw [List.take_left, List.length_cons, Nat.add_sub_cancel, List.drop_left]

theorem tokensFrom_of_splits (h : Splits n s ts) : tokensFrom n s = .ok ts := by
  induction h with
  | blanks hb => exact tokensFrom_of_blanks hb
  | @token n blanks rest t ts hb ho hk hr _ ih =>
    rw [tokensFrom_append hb hk hr]
    rw [Token.endOffset, ho, ← String.length_toList] at ih
    rw [ih, String.ofList_toList, ← ho]
    rfl

theorem splits_of_tokensFrom (h : tokensFrom n s = .ok ts) : Splits n s ts := by
  -- By the recursion of the scanner: the blanks, one token, and the split of the rest.
  fun_induction tokensFrom n s generalizing ts with
  | case1 n s hs =>
    obtain rfl := Except.ok.inj h
    have hall := List.takeWhile_append_dropWhile (p := isBlank) (l := s)
    rw [hs, List.append_nil] at hall
    exact .blanks (hall ▸ of_mem_takeWhile)
  | case2 => contradiction
  | case3 n s c rest hs start k m hscan =>
    rename_i ih
    cases htail : tokensFrom (start + m) (rest.drop (m - 1)) with
    | error e =>
      rw [htail] at h
      contradiction
    | ok ts =>
      rw [htail] at h
      obtain rfl := Except.ok.inj h
      obtain ⟨text, rest', heq, rfl, hk, hr⟩ := exists_of_scanToken hscan
      have hrest : rest.drop (text.length - 1) = rest' := by
        obtain ⟨d, tail, rfl, _⟩ := hk.exists_cons
        rw [(List.cons.inj heq).2, List.length_cons, Nat.add_sub_cancel]
        exact List.drop_left
      rw [← List.takeWhile_append_dropWhile (p := isBlank) (l := s), hs, heq, List.take_left]
      have := Splits.token (n := n) (t := ⟨k, String.ofList text, start⟩) of_mem_takeWhile rfl
        (by rwa [String.toList_ofList]) (by rwa [String.toList_ofList])
        (by
          rw [Token.endOffset, ← String.length_toList, String.toList_ofList, ← hrest]
          exact ih htail)
      rwa [String.toList_ofList] at this

/-- The lexer finds the tokens into which a text splits. -/
theorem tokensFrom_eq_ok_iff : tokensFrom n s = .ok ts ↔ Splits n s ts :=
  ⟨splits_of_tokensFrom, tokensFrom_of_splits⟩

/-! ### Places -/

/-- The places of the tokens into which the rest of a text splits are those of a
    tokenization. -/
theorem isTokenization_of_splits {r : List Char} (h : Splits n r ts) (hr : s.drop n = r) :
    IsTokenization n s ts := by
  induction h with
  | @blanks n r hb =>
    refine ⟨nofun, .nil, nofun, fun i c hi hc _ => hb c ?_, nofun, nofun⟩
    rw [← hr]
    exact List.mem_of_getElem? (i := i - n) (by rwa [List.getElem?_drop, Nat.add_sub_cancel' hi])
  | @token n blanks rest t ts hb ho hk hends _ ih =>
    have hoffset : s.drop t.offset = t.text.toList ++ rest := by
      rw [ho, ← List.drop_drop, hr, List.drop_left]
    have hend : s.drop t.endOffset = rest := by
      rw [Token.endOffset, ← List.drop_drop, hoffset, ← String.length_toList, List.drop_left]
    have htail := ih hend
    have hle : t.offset ≤ t.endOffset := Nat.le_add_right _ _
    refine ⟨?_, .cons htail.start_le htail.inOrder, ?_, ?_, ?_, ?_⟩
    · rintro u (_ | ⟨_, hu⟩)
      · omega
      · have := htail.start_le u hu
        omega
    · rintro u (_ | ⟨_, hu⟩)
      · rw [hoffset, ← String.length_toList, List.take_left]
      · exact htail.isSlice u hu
    · intro i c hi hc hout
      rcases hout t List.mem_cons_self with hlt | hge
      -- Before the first token, the character is one of the blanks in front of it.
      · refine hb c (List.mem_of_getElem? (i := i - n) ?_)
        rw [← Nat.add_sub_cancel' hi, ← List.getElem?_drop, hr,
          List.getElem?_append_left (by omega)] at hc
        exact hc
      · exact htail.isBlank i c hge hc fun u hu => hout u (List.mem_cons_of_mem _ hu)
    · rintro u (_ | ⟨_, hu⟩)
      · exact hk
      · exact htail.contains u hu
    · rintro u (_ | ⟨_, hu⟩)
      · intro c hc
        rw [← Nat.add_zero t.endOffset, ← List.getElem?_drop, hend, ← List.head?_eq_getElem?] at hc
        exact hends c hc
      · exact htail.ends u hu

/-- A text splits into the tokens of a tokenization. -/
theorem splits_of_isTokenization (h : IsTokenization n s ts) : Splits n (s.drop n) ts := by
  induction ts generalizing n with
  | nil =>
    refine .blanks fun c hc => ?_
    obtain ⟨i, hi⟩ := List.getElem?_of_mem hc
    rw [List.getElem?_drop] at hi
    exact h.isBlank (n + i) c (Nat.le_add_right _ _) hi nofun
  | cons t ts ih =>
    have hk := h.contains t List.mem_cons_self
    have hstart := h.start_le t List.mem_cons_self
    have hslice := h.isSlice t List.mem_cons_self
    obtain ⟨hfirst, hrest⟩ := List.pairwise_cons.1 h.inOrder
    have hend : s.drop t.offset = t.text.toList ++ s.drop t.endOffset := by
      rw [← hslice, Token.endOffset, ← List.drop_drop, List.take_append_drop]
    have hlength : t.offset < s.length := by
      obtain ⟨c, rest, heq, _⟩ := hk.exists_cons
      refine Nat.lt_of_not_le fun hle => ?_
      rw [List.drop_eq_nil_of_le hle, heq] at hend
      contradiction
    have hblanks : ((s.drop n).take (t.offset - n)).length = t.offset - n := by
      rw [List.length_take, List.length_drop]
      omega
    have hdrop : s.drop n = (s.drop n).take (t.offset - n) ++
        (t.text.toList ++ s.drop t.endOffset) := by
      conv_lhs => rw [← List.take_append_drop (t.offset - n) (s.drop n)]
      rw [List.drop_drop, Nat.add_sub_cancel' hstart, hend]
    -- The text is cut at the offset of the token and at its end. Before the cut there are
    -- blanks only, as no token starts there; behind it the other tokens lie as before.
    rw [hdrop]
    refine .token ?_ (by omega) hk ?_ (ih ⟨hfirst, hrest, ?_, ?_, ?_, ?_⟩)
    · intro c hc
      obtain ⟨i, hi⟩ := List.getElem?_of_mem hc
      have hlt : i < t.offset - n := by
        have := (List.getElem?_eq_some_iff.1 hi).1
        omega
      rw [List.getElem?_take_of_lt hlt, List.getElem?_drop] at hi
      refine h.isBlank (n + i) c (Nat.le_add_right _ _) hi ?_
      rintro u (_ | ⟨_, hu⟩)
      · omega
      · have := hfirst u hu
        rw [Token.endOffset] at this
        omega
    · intro c hc
      rw [List.head?_eq_getElem?, List.getElem?_drop, Nat.add_zero] at hc
      exact h.ends t List.mem_cons_self c hc
    · exact fun u hu => h.isSlice u (List.mem_cons_of_mem _ hu)
    · intro i c hi hc hout
      refine h.isBlank i c (by rw [Token.endOffset] at hi; omega) hc ?_
      rintro u (_ | ⟨_, hu⟩)
      · exact .inr hi
      · exact hout u hu
    · exact fun u hu => h.contains u (List.mem_cons_of_mem _ hu)
    · exact fun u hu => h.ends u (List.mem_cons_of_mem _ hu)

end Lexer

/-- Lexing gives the tokenization of a text. -/
theorem lex_eq_ok_iff_isTokenization {source : String} {tokens : List Token} :
    lex source = .ok tokens ↔ IsTokenization 0 source.toList tokens := by
  rw [lex, tokensFrom_eq_ok_iff]
  exact ⟨fun h => isTokenization_of_splits h List.drop_zero, splits_of_isTokenization⟩

end Blockscript
