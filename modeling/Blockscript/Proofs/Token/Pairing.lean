import Blockscript.Proofs.Syntax.Outcome
import Blockscript.Proofs.Token.Tokenization

/-!
# How quoted tokens are paired

A backslash between quotes belongs together with the character after it, and that character may
be a quote or a backslash itself. So it matters where one starts to pair them. The scanner takes
the inside of a literal in *pieces*, a character or a backslash with the one after it, and later
on the decoder goes through the same text without the quotes. Both pair alike: the decoder finds
the pieces that the scanner has taken, and gives what they stand for one after the other.

* `Lexer.Piece`: what a scanner takes in one go, with its text and the character it stands for;
* `Lexer.stringPieces`, `Lexer.characterPiece`: the pieces that the scanners take, with
  `scanStringFrom_eq`, `scanCharacter_eq` for what these are;
* `Lexer.quotedPieces_append`: the pieces of a literal are those of its spelling;
* `Escape.respell`: a spelling of a text, in which any characters may be escaped that can be;
* `quoted_decode`: the quoted tokens of a text, and the spellings of texts.
-/

namespace Blockscript

open Text

namespace Lexer

/-- What a scanner takes in one go between two quotes. -/
inductive Piece where
  | plain (c : Char)
  /-- A backslash with the character after it. -/
  | escape (c : Char)
  deriving DecidableEq, Repr

namespace Piece

/-- The text of a piece. -/
def text : Piece → List Char
  | .plain c => [c]
  | .escape c => ['\\', c]

/-- The character that a piece stands for. -/
def value? : Piece → Option Char
  | .plain c => some c
  | .escape c => Escape.escaped? c

end Piece

/-- The pieces of a string literal up to its closing quote, from `n` characters after its
    start. -/
def stringPieces : (n : Nat) → List Char → Except LexError (List Piece)
  | n, [] => .error (.here .unterminatedString n)
  | _, '"' :: _ => .ok []
  | n, '\\' :: c :: rest =>
    if (Escape.escaped? c).isSome then (stringPieces (n + 2) rest).map (.escape c :: ·)
    else .error (.here .invalidEscape (n + 1))
  | n, ['\\'] => .error (.here .invalidEscape (n + 1))
  | n, c :: rest => (stringPieces (n + 1) rest).map (.plain c :: ·)

/-- The piece of the character literal that starts a text. -/
def characterPiece (s : List Char) : Except LexError Piece :=
  match s.drop 1 with
  | [] => .error (.here .unterminatedCharacter 1)
  | '\\' :: rest =>
    match scanEscape ('\\' :: rest) with
    | .ok n => (closeCharacter s (1 + n)).map fun _ => .escape (rest.headD '\\')
    | .error e => .error (e.shift 1)
  | '\'' :: _ => .error (.here .emptyCharacter 1)
  | c :: _ => (closeCharacter s 2).map fun _ => .plain c

/-- The pieces of the literal of a class that starts a text. -/
def quotedPieces (k : Token.Kind) (s : List Char) : Except LexError (List Piece) :=
  match k with
  | .character => (characterPiece s).map ([·])
  | .string => stringPieces 1 (s.drop 1)
  | _ => .ok []

/-- The scanner of strings goes from piece to piece, and then over the closing quote. -/
theorem scanStringFrom_eq (n : Nat) (s : List Char) : scanStringFrom n s =
    (stringPieces n s).map fun pieces => n + (pieces.flatMap Piece.text).length + 1 := by
  -- One more piece is counted in front of the others, or among them.
  have hcons : ∀ n m (piece : Piece) (r : Except LexError (List Piece)),
      m = n + piece.text.length → r.map (fun pieces => m + (pieces.flatMap Piece.text).length + 1) =
        (r.map (piece :: ·)).map fun pieces => n + (pieces.flatMap Piece.text).length + 1 := by
    rintro n _ piece (e | pieces) rfl
    · rfl
    · simp only [Except.map, List.flatMap_cons, List.length_append, Nat.add_assoc]
  fun_induction scanStringFrom n s with
  | case1 => rfl
  | case2 => rfl
  | case3 n c rest he ih =>
    rw [ih, stringPieces, if_pos he]
    exact hcons n _ (.escape c) _ rfl
  | case4 n c rest he =>
    rw [stringPieces, if_neg he]
    rfl
  | case5 => rfl
  | case6 n c rest hquote hbackslash hend ih =>
    rw [ih, stringPieces.eq_5 _ _ _ hquote hbackslash hend]
    exact hcons n _ (.plain c) _ rfl

/-- The scanner of characters takes one piece between two quotes. -/
theorem scanCharacter_eq (s : List Char) :
    scanCharacter s = (characterPiece s).map fun piece => piece.text.length + 2 := by
  -- The closing quote is looked for alike, once the length of the piece is known.
  have hclose : ∀ n (piece : Piece), n = piece.text.length + 1 →
      closeCharacter s n = ((closeCharacter s n).map fun _ => piece).map
        fun piece => piece.text.length + 2 := by
    rintro _ piece rfl
    rw [closeCharacter]
    split <;> rfl
  rw [scanCharacter, characterPiece]
  generalize s.drop 1 = inside
  rcases inside with _ | ⟨c, rest⟩
  · rfl
  by_cases hbackslash : c = '\\'
  · subst hbackslash
    rcases rest with _ | ⟨c, rest⟩
    · rfl
    · by_cases he : (Escape.escaped? c).isSome
      · simp only [scanEscape, List.drop_one, List.tail_cons, he, if_true]
        exact hclose _ (.escape c) rfl
      · simp only [scanEscape, List.drop_one, List.tail_cons, he]
        rfl
  by_cases hquote : c = '\''
  · subst hquote
    rfl
  · simp only
    exact hclose 2 (.plain c) rfl

/-! ### The pieces of a spelling -/

variable {body text : List Char}

/-- The inside of a string is taken in pieces that stand for the characters of its text. -/
theorem stringPieces_append (h : Escape.Denotes '"' body text) (n : Nat) (rest : List Char) :
    ∃ pieces, stringPieces n (body ++ '"' :: rest) = .ok pieces ∧
      pieces.flatMap Piece.text = body ∧ pieces.mapM Piece.value? = some text := by
  -- By induction on the body, one piece for a plain character or an escape.
  induction h generalizing n with
  | nil => exact ⟨[], rfl, rfl, rfl⟩
  | @plain c body text hquote hbackslash _ ih =>
    obtain ⟨pieces, hpieces, hbody, htext⟩ := ih (n + 1)
    refine ⟨.plain c :: pieces, ?_, ?_, ?_⟩
    · rw [List.cons_append, stringPieces.eq_5 _ _ _ hquote (fun _ _ h => absurd h hbackslash)
        (fun h => absurd h hbackslash), hpieces]
      rfl
    · rw [List.flatMap_cons, hbody]
      rfl
    · rw [List.mapM_cons, htext]
      rfl
  | @escape c d body text he _ ih =>
    obtain ⟨pieces, hpieces, hbody, htext⟩ := ih (n + 2)
    refine ⟨.escape c :: pieces, ?_, ?_, ?_⟩
    · rw [List.cons_append, List.cons_append, stringPieces, he, Option.isSome_some, if_pos rfl,
        hpieces]
      rfl
    · rw [List.flatMap_cons, hbody]
      rfl
    · rw [List.mapM_cons, Piece.value?, he, htext]
      rfl

/-- The inside of a character literal is a single piece. -/
theorem characterPiece_append {c : Char} (h : Escape.Denotes '\'' body [c]) (rest : List Char) :
    ∃ piece, characterPiece ('\'' :: (body ++ '\'' :: rest)) = .ok piece ∧ piece.text = body ∧
      piece.value? = some c := by
  cases h with
  | plain hquote hbackslash h =>
    cases h
    refine ⟨.plain c, ?_, rfl, rfl⟩
    rw [characterPiece, List.drop_one, List.tail_cons, List.singleton_append]
    split
    · contradiction
    · next heq => exact absurd (List.cons.inj heq).1 hbackslash
    · next heq => exact absurd (List.cons.inj heq).1 hquote
    · next heq =>
      obtain ⟨rfl, rfl⟩ := List.cons.inj heq
      rfl
  | @escape d _ _ _ he h =>
    cases h
    exact ⟨.escape d, by simp [characterPiece, scanEscape, closeCharacter, he, Except.map], rfl, he⟩

/-- A quoted token is taken in the pieces of what is between its quotes. -/
theorem quotedPieces_append {k : Token.Kind} {s : List Char} (hk : k = .character ∨ k = .string)
    (hs : k.Contains s) (rest : List Char) :
    ∃ quote body text pieces, s = quote :: (body ++ [quote]) ∧ Escape.Denotes quote body text ∧
      quotedPieces k (s ++ rest) = .ok pieces ∧ pieces.flatMap Piece.text = body ∧
      pieces.mapM Piece.value? = some text ∧ (k = .character → text.length = 1) := by
  rcases hk with rfl | rfl
  · obtain ⟨body, c, rfl, hbody⟩ := hs
    obtain ⟨piece, hpiece, htext, hvalue⟩ := characterPiece_append hbody rest
    refine ⟨_, body, [c], [piece], rfl, hbody, ?_, ?_, ?_, fun _ => rfl⟩
    · rw [List.cons_append, List.append_assoc, List.singleton_append, quotedPieces, hpiece]
      rfl
    · rw [List.flatMap_singleton, htext]
    · rw [List.mapM_cons, hvalue]
      rfl
  · obtain ⟨body, text, rfl, hbody⟩ := hs
    obtain ⟨pieces, hpieces, htext, hvalue⟩ := stringPieces_append hbody 1 rest
    refine ⟨_, body, text, pieces, rfl, hbody, ?_, htext, hvalue, nofun⟩
    rw [List.cons_append, List.append_assoc, List.singleton_append, quotedPieces]
    exact hpieces

end Lexer

/-! ### Spellings of a text -/

namespace Text.Escape

/-- The character that stands for another one after a backslash, if there is any. -/
def letter? (d : Char) : Option Char :=
  (table.find? fun p => p.2 == d).map Prod.fst

/-- A character as it is written between double quotes: with a backslash if it has to be, and
    also if that is wanted and possible. -/
def respellOne (wanted : Bool) (d : Char) : List Char :=
  match letter? d with
  | some c => if wanted || d == '"' || d == '\\' then ['\\', c] else [d]
  | none => [d]

/-- A text as it is written between double quotes, with a backslash wherever it is wanted. -/
def respell (wanted : Nat → Bool) (text : List Char) : List Char :=
  (text.mapIdx fun i d => respellOne (wanted i) d).flatten

theorem escaped?_of_letter? {c d : Char} (h : letter? d = some c) : escaped? c = some d := by
  have htable : ∀ p ∈ table, escaped? p.1 = some p.2 := by decide
  obtain ⟨p, hp, rfl⟩ := Option.map_eq_some_iff.1 h
  have hd : p.2 = d := by simpa using List.find?_some hp
  rw [htable p (List.mem_of_find?_eq_some hp), hd]

/-- A character that is written as it is can be read as it is. -/
theorem denotes_respellOne (wanted : Bool) (d : Char) :
    Denotes '"' (respellOne wanted d) [d] := by
  have hplain : d ≠ '"' → d ≠ '\\' → Denotes '"' [d] [d] := fun h h' => .plain h h' .nil
  rw [respellOne]
  split
  · next c hc =>
    split
    · exact .escape (escaped?_of_letter? hc) .nil
    · next h =>
      simp only [Bool.or_eq_true, beq_iff_eq, not_or] at h
      exact hplain h.1.2 h.2
  · next hnone =>
    -- The quote and the backslash are in the table.
    refine hplain ?_ ?_ <;> rintro rfl <;> cases hnone

theorem denotes_respell (wanted : Nat → Bool) (text : List Char) :
    Denotes '"' (respell wanted text) text := by
  induction text generalizing wanted with
  | nil => exact .nil
  | cons d text ih =>
    rw [respell, List.mapIdx_cons, List.flatten_cons]
    exact (denotes_respellOne (wanted 0) d).append (ih fun i => wanted (i + 1))

end Text.Escape

/-! ### Quoted tokens -/

/-- What stands between the first and the last character of a token. -/
def Token.inside (t : Token) : List Char :=
  (t.text.toList.drop 1).dropLast

/-- A text between double quotes. -/
def quoted (body : List Char) : String :=
  String.ofList ('"' :: (body ++ ['"']))

theorem Token.inside_eq {t : Token} {quote : Char} {body : List Char}
    (h : t.text.toList = quote :: (body ++ [quote])) : t.inside = body := by
  rw [inside, h, List.drop_one, List.tail_cons, List.dropLast_concat]

/-- What denotes a text is lexed, between quotes, as one string. -/
theorem lex_quoted {body text : List Char} (h : Escape.Denotes '"' body text) :
    lex (quoted body) = .ok [⟨.string, quoted body, 0⟩] := by
  have hsplits : Lexer.Splits 0 (quoted body).toList [⟨.string, quoted body, 0⟩] := by
    have htoken := @Lexer.Splits.token 0 [] [] ⟨.string, quoted body, 0⟩ [] nofun rfl
      ⟨body, text, String.toList_ofList, h⟩ nofun (.blanks nofun)
    rwa [List.nil_append, List.append_nil] at htoken
  exact Lexer.tokensFrom_of_splits hsplits

/-- The quoted tokens of a text can be decoded. The decoder finds the pieces that the scanner has
    taken at the place of the token, each a character or a backslash with the one after it, and
    gives what these stand for; that is a single character for a character literal. A text that
    is written between double quotes, with its quotes and backslashes escaped and with any other
    escapes, is one token, and is what that decodes to. -/
theorem quoted_decode :
    (∀ source tokens, lex source = .ok tokens →
      ∀ t ∈ tokens, t.kind = .character ∨ t.kind = .string →
        ∃ pieces text, Lexer.quotedPieces t.kind (source.toList.drop t.offset) = .ok pieces ∧
          t.inside = pieces.flatMap Lexer.Piece.text ∧ Escape.decode t.inside = .ok text ∧
          pieces.mapM Lexer.Piece.value? = some text ∧
          Parser.unquote t = pure (String.ofList text) ∧
          (t.kind = .character → text.length = 1)) ∧
    ∀ (u : String) (wanted : Nat → Bool),
      let t : Token := ⟨.string, quoted (Escape.respell wanted u.toList), 0⟩
      lex t.text = .ok [t] ∧ Escape.decode t.inside = .ok u.toList ∧
        Parser.unquote t = pure u := by
  refine ⟨fun source tokens hlex t ht hk => ?_, fun u wanted => ?_⟩
  · have htokens := lex_eq_ok_iff_isTokenization.1 hlex
    obtain ⟨quote, body, text, pieces, hquoted, hbody, hpieces, hinside, hvalue, hlength⟩ :=
      Lexer.quotedPieces_append hk (htokens.contains t ht)
        ((source.toList.drop t.offset).drop t.text.length)
    rw [← htokens.isSlice t ht, List.take_append_drop] at hpieces
    rw [Token.inside_eq hquoted]
    exact ⟨pieces, text, hpieces, hinside.symm, Escape.decode_of_denotes hbody, hvalue,
      Parser.unquote_of_denotes hquoted hbody, hlength⟩
  · intro t
    have hbody := Escape.denotes_respell wanted u.toList
    have htext : t.text.toList = '"' :: (Escape.respell wanted u.toList ++ ['"']) :=
      String.toList_ofList
    have hunquote := Parser.unquote_of_denotes htext hbody
    rw [String.ofList_toList] at hunquote
    rw [Token.inside_eq htext]
    exact ⟨lex_quoted hbody, Escape.decode_of_denotes hbody, hunquote⟩

/-- In the string `"\\\""` the first backslash takes the second one, and the third the quote. -/
theorem quoted_decode_adjacent :
    let source := "'\\'' \"\\\\\\\"\""
    let t : Token := ⟨.string, "\"\\\\\\\"\"", 5⟩
    lex source = .ok [⟨.character, "'\\''", 0⟩, t] ∧
      ∃ pieces text, Lexer.quotedPieces .string (source.toList.drop 5) = .ok pieces ∧
        t.inside = pieces.flatMap Lexer.Piece.text ∧ Escape.decode t.inside = .ok text ∧
        pieces.mapM Lexer.Piece.value? = some text ∧
        Parser.unquote t = pure (String.ofList text) ∧
        (Token.Kind.string = .character → text.length = 1) := by
  intro source t
  have hlex : lex source = .ok [⟨.character, "'\\''", 0⟩, t] := by decide +kernel
  exact ⟨hlex, quoted_decode.1 source _ hlex t (by simp) (.inr rfl)⟩

end Blockscript
