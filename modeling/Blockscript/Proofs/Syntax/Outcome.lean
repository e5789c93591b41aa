import Blockscript.Proofs.Syntax.Spelling

/-!
# Outcomes of rules

A rule that is run on tokens of their classes either fails, for a reason that the
grammar gives, or leaves tokens of their classes behind, together with a result.
What is claimed of the result is a *postcondition*, and a rule made of others meets
one as soon as its parts do.

* `Parser.Meets`: a rule meets a postcondition;
* `Meets.bind`, `Meets.ifAccept`, `Meets.ifNextIs`: rules made of others;
* `meets_expectText`, `meets_identifier`: the rules that take a token.
-/

namespace Blockscript

open Text Token

/-- The failures that the grammar gives a reason for: something is missing. -/
def ParseError.Cause.IsGrammatical : ParseError.Cause → Prop
  | .missingIdentifier => True
  | .missingExpression => True
  | .missingText _ => True
  | .missingMethod => True
  | .missing _ => False
  | .unknownEscape _ => False
  | .unreadableInteger => False
  | .unreadableDecimal => False

namespace Parser

/-- On tokens of their classes, a rule fails for a reason that the grammar gives, or
    its result and the tokens that remain are as claimed. -/
def Meets {α : Type} (p : Parser α) (ts : List Token) (Q : α → List Token → Prop) : Prop :=
  AreLexical ts → match p.run ts with
    | .ok a rest => AreLexical rest ∧ Q a rest
    | .error cause _ => cause.IsGrammatical

variable {α β : Type} {p q : Parser α} {f : α → Parser β} {ts : List Token}
  {P Q : α → List Token → Prop} {R : β → List Token → Prop} {text : String}

namespace Meets

/-- A rule that takes nothing meets what holds already. -/
theorem pure {a : α} (h : Q a ts) : (Pure.pure a : Parser α).Meets ts Q :=
  fun hl => ⟨hl, h⟩

/-- A rule may fail for any cause of the grammar. -/
theorem throw {cause : ParseError.Cause} (h : cause.IsGrammatical) :
    (MonadExcept.throw cause : Parser α).Meets ts Q :=
  fun _ => h

/-- Rules one after the other: what holds after the first may be used for the second. -/
theorem bind (hp : p.Meets ts P) (hf : ∀ a m, P a m → (f a).Meets m R) :
    (p >>= f).Meets ts R := by
  intro hl
  have hp := hp hl
  rw [EStateM.run_bind]
  cases h : p.run ts with
  | ok a m =>
    rw [h] at hp
    exact hf a m hp.2 hp.1
  | error cause m =>
    rw [h] at hp
    exact hp

theorem mono (hp : p.Meets ts P) (h : ∀ a m, P a m → Q a m) : p.Meets ts Q := by
  rw [← bind_pure p]
  exact hp.bind fun a m ha => .pure (h a m ha)

/-- The tokens may be taken to be of their classes. -/
theorem of_areLexical (h : AreLexical ts → p.Meets ts Q) : p.Meets ts Q :=
  fun hl => h hl hl

theorem get {f : List Token → Parser α} (h : (f ts).Meets ts Q) :
    (MonadState.get >>= f).Meets ts Q :=
  h

/-- A loop meets what it meets with any fuel. -/
theorem unlimited {loop : Nat → Parser α} (h : ∀ fuel, (loop fuel).Meets ts Q) :
    (Parser.unlimited loop).Meets ts Q :=
  h ts.length

/-- Taking a token leaves the others. -/
theorem set {t : Token} {rest : List Token} {q : PUnit → Parser α} (h : (q ⟨⟩).Meets rest Q) :
    (MonadStateOf.set rest >>= q).Meets (t :: rest) Q :=
  fun hl => h hl.tail

end Meets

/-! ### Looking at the next token -/

theorem startsWith_ofText (text : String) (ts : List Token) :
    startsWith [.ofText text] ts = decide (nextText? ts = some text) := by
  obtain _ | ⟨t, ts⟩ := ts
  · rfl
  · rw [Bool.eq_iff_iff]
    simp [startsWith, fits, nextText?]

theorem run_nextIs (text : String) (ts : List Token) :
    (nextIs text).run ts = .ok (decide (nextText? ts = some text)) ts := by
  rw [← startsWith_ofText]
  rfl

theorem run_nextIsAny (texts : List String) (ts : List Token) :
    (nextIsAny texts).run ts = .ok (decide (∃ w ∈ texts, nextText? ts = some w)) ts := by
  have : (texts.any fun text => startsWith [.ofText text] ts) =
      decide (∃ w ∈ texts, nextText? ts = some w) := by
    simp only [startsWith_ofText, List.any_eq, decide_eq_true_eq]
  rw [← this]
  rfl

/-- A token is taken if its text is the given one; otherwise nothing is. -/
theorem run_accept (text : String) (ts : List Token) : (accept text).run ts =
    if nextText? ts = some text then .ok true (ts.drop 1) else .ok false ts := by
  rw [accept, acceptAll, EStateM.run_bind, EStateM.run_get]
  simp only [startsWith_ofText, decide_eq_true_eq]
  split <;> rfl

theorem run_accept_of_eq {t : Token} (h : t.text = text) :
    (accept text).run (t :: ts) = .ok true ts := by
  rw [run_accept, if_pos (nextText?_eq_some_iff.2 ⟨t, ts, rfl, h⟩)]
  rfl

theorem run_accept_of_ne (h : nextText? ts ≠ some text) : (accept text).run ts = .ok false ts := by
  rw [run_accept, if_neg h]

/-- A token that fits is taken. -/
theorem run_expect {p : Token.Pattern} {cause : ParseError.Cause} {t : Token} (h : t.fits p) :
    (expect p cause).run (t :: ts) = .ok t ts := by
  rw [expect, EStateM.run_bind, EStateM.run_get]
  simp only [h, if_true]
  rfl

theorem run_expectText {t : Token} (h : t.text = text) :
    (expectText text).run (t :: ts) = .ok () ts := by
  rw [expectText, EStateM.run_bind, run_expect (by simp [fits, h])]
  rfl

theorem run_identifier {t : Token} (h : t.kind = .identifier) :
    identifier.run (t :: ts) = .ok t.text ts := by
  rw [identifier, EStateM.run_bind, run_expect (by simp [fits, h])]
  rfl

/-! ### Taking the next token -/

/-- The inside of a quoted token denotes a text. -/
theorem unquote_of_denotes {t : Token} {quote : Char} {body text : List Char}
    (ht : t.text.toList = quote :: (body ++ [quote])) (hd : Escape.Denotes quote body text) :
    unquote t = pure (String.ofList text) := by
  rw [unquote, ht, List.drop_one, List.tail_cons, List.dropLast_concat,
    Escape.decode_of_denotes hd]

/-- A rule that asks for a token has taken one that fits, if it does not fail. -/
theorem meets_expect {p : Token.Pattern} {cause : ParseError.Cause} (hc : cause.IsGrammatical) :
    (expect p cause).Meets ts fun t rest => ts = t :: rest ∧ t.fits p := by
  intro hl
  obtain _ | ⟨t, rest⟩ := ts
  · exact hc
  by_cases h : t.fits p
  · rw [run_expect h]
    exact ⟨hl.tail, rfl, h⟩
  · have : (expect p cause).run (t :: rest) = .error cause (t :: rest) := by
      rw [expect, EStateM.run_bind, EStateM.run_get]
      simp only [h]
      rfl
    rw [this]
    exact hc

theorem meets_expectText :
    (expectText text).Meets ts fun _ rest => Takes [.ofText text] ts rest := by
  refine (meets_expect (by trivial)).bind ?_
  rintro t rest ⟨rfl, ht⟩
  exact .pure (.cons (.word (by simpa [fits] using ht)) .nil)

/-- Whether a token was taken is told by the outcome. -/
theorem meets_accept : (accept text).Meets ts fun b rest =>
    b = true ∧ Takes [.ofText text] ts rest ∨ b = false ∧ rest = ts ∧ nextText? ts ≠ some text := by
  intro hl
  by_cases h : nextText? ts = some text
  · obtain ⟨t, rest, rfl, ht⟩ := nextText?_eq_some_iff.1 h
    rw [run_accept_of_eq ht]
    exact ⟨hl.tail, .inl ⟨rfl, .cons (.word ht) .nil⟩⟩
  · rw [run_accept_of_ne h]
    exact ⟨hl, .inr ⟨rfl, rfl, h⟩⟩

/-- A name that is taken is no word of the language. -/
theorem meets_identifier : identifier.Meets ts fun name rest =>
    Node.IsName name ∧ Takes [.word (.text name)] ts rest := by
  refine .of_areLexical fun hl => (meets_expect (by trivial)).bind ?_
  rintro t rest ⟨rfl, ht⟩
  have hk : t.kind = .identifier := by simpa [fits] using ht
  have ht := hl t List.mem_cons_self
  rw [IsLexical, hk] at ht
  exact .pure ⟨ht, .cons (.word rfl) .nil⟩

/-! ### Going on as the next token says -/

namespace Meets

/-- A choice by the next token, of which each branch knows what it is or is not. -/
theorem ifNextIs (hyes : nextText? ts = some text → p.Meets ts Q)
    (hno : nextText? ts ≠ some text → q.Meets ts Q) :
    (nextIs text >>= fun b => if b = true then p else q).Meets ts Q := by
  intro hl
  rw [EStateM.run_bind, run_nextIs]
  by_cases h : nextText? ts = some text
  · simpa only [h, decide_true, if_true] using hyes h hl
  · simpa only [h, decide_false, Bool.false_eq_true, if_false] using hno h hl

theorem ifNextIsAny {texts : List String}
    (hyes : (∃ w ∈ texts, nextText? ts = some w) → p.Meets ts Q)
    (hno : (∀ w ∈ texts, nextText? ts ≠ some w) → q.Meets ts Q) :
    (nextIsAny texts >>= fun b => if b = true then p else q).Meets ts Q := by
  intro hl
  rw [EStateM.run_bind, run_nextIsAny]
  by_cases h : ∃ w ∈ texts, nextText? ts = some w
  · simpa only [h, decide_true, if_true] using hyes h hl
  · have hno := hno fun w hw heq => h ⟨w, hw, heq⟩
    simpa only [h, decide_false, Bool.false_eq_true, if_false] using hno hl

/-- A choice by whether the next token is a given one, which has been taken in the first case. -/
theorem ifAccept (hyes : ∀ m, Takes [.ofText text] ts m → p.Meets m Q)
    (hno : nextText? ts ≠ some text → q.Meets ts Q) :
    (accept text >>= fun b => if b = true then p else q).Meets ts Q := by
  refine meets_accept.bind ?_
  rintro b m (⟨rfl, h⟩ | ⟨rfl, rfl, h⟩)
  · exact hyes m h
  · exact hno h

end Meets

end Parser

end Blockscript
