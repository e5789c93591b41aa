import Blockscript.Proofs.Syntax.Parenthesized
import Blockscript.Proofs.Syntax.Written

/-!
# Tokens with more parentheses

Parentheses can be put into a text, between its tokens, around any of its expressions but the
targets of assignments. What is parsed then is the tree that was parsed before, with groups at
exactly these places: no operator takes an operand from behind a parenthesis that was put there,
and no statement becomes another one.

* `Inserts`: tokens that have parentheses between them where an outline has some;
* `Inserts.parse`: what is parsed from them;
* `AddsParentheses`: a text that has parentheses around some of the expressions of another one;
* `AddsParentheses.parseSource`, `exists_addsParentheses`: its tree, and that there is one.
-/

namespace Blockscript

open Token Node Lexer

/-- Some tokens and the same ones with parentheses between them where an outline has them. The
    offsets of all tokens may be other ones. -/
inductive Inserts : List Mark → List Token → List Token → Prop
  | nil : Inserts [] [] []
  | kept {s : Symbol} {ms : List Mark} {t : Token} {ts ts' : List Token} (offset : Nat) :
      t.Spells s → Inserts ms ts ts' →
      Inserts (.kept s :: ms) (t :: ts) ({ t with offset := offset } :: ts')
  | skip {text : String} {ms : List Mark} {ts ts' : List Token} : Inserts ms ts ts' →
      Inserts (.kept (.optional text) :: ms) ts ts'
  | opening {ms : List Mark} {ts ts' : List Token} (offset : Nat) : Inserts ms ts ts' →
      Inserts (.opening :: ms) ts (⟨.operator, "(", offset⟩ :: ts')
  | closing {ms : List Mark} {ts ts' : List Token} (offset : Nat) : Inserts ms ts ts' →
      Inserts (.closing :: ms) ts (⟨.operator, ")", offset⟩ :: ts')

namespace Inserts

variable {ms : List Mark} {ts ts' : List Token}

theorem spelledBy (h : Inserts ms ts ts') : SpelledBy (ms.map Mark.symbol) ts' := by
  induction h with
  | nil => exact .nil
  | kept offset ht _ ih => exact .cons (ht.placed offset) ih
  | skip _ ih => exact .skip ih
  | opening _ _ ih => exact .cons (.word rfl) ih
  | closing _ _ ih => exact .cons (.word rfl) ih

/-- Parentheses are tokens, too. -/
theorem areLexical (h : Inserts ms ts ts') (hl : AreLexical ts) : AreLexical ts' := by
  have hopening : IsOperator "(".toList := .inr ⟨'(', by decide, by decide⟩
  have hclosing : IsOperator ")".toList := .inr ⟨')', by decide, by decide⟩
  induction h with
  | nil => exact hl
  | @kept _ _ t _ _ _ _ _ ih =>
    exact List.forall_mem_cons.2 ⟨hl t List.mem_cons_self, ih hl.tail⟩
  | skip _ ih => exact ih hl
  | opening offset _ ih => exact List.forall_mem_cons.2 ⟨hopening, ih hl⟩
  | closing offset _ ih => exact List.forall_mem_cons.2 ⟨hclosing, ih hl⟩

/-- The tokens may be anywhere. -/
theorem placedFrom (h : Inserts ms ts ts') (n : Nat) : Inserts ms ts (placedFrom n ts') := by
  induction h generalizing n with
  | nil => exact .nil
  | kept _ ht _ ih => exact .kept n ht (ih _)
  | skip _ ih => exact .skip (ih n)
  | opening _ _ ih => exact .opening n (ih _)
  | closing _ _ ih => exact .closing n (ih _)

/-- Parentheses can be put between the tokens that spell a tree. -/
theorem exists_of_spelledBy (h : SpelledBy (ms.filterMap Mark.kept?) ts) :
    ∃ ts', Inserts ms ts ts' := by
  induction ms generalizing ts with
  | nil =>
    obtain rfl := Takes.nil_iff.1 h
    exact ⟨[], .nil⟩
  | cons mark ms ih =>
    cases mark with
    | kept s =>
      cases h with
      | @cons t _ _ _ _ ht h =>
        obtain ⟨ts', h⟩ := ih h
        exact ⟨_, .kept t.offset ht h⟩
      | skip h =>
        -- A word that may be left out is left out in both texts.
        obtain ⟨ts', h⟩ := ih h
        exact ⟨ts', .skip h⟩
    | opening =>
      obtain ⟨ts', h⟩ := ih h
      exact ⟨_, .opening 0 h⟩
    | closing =>
      obtain ⟨ts', h⟩ := ih h
      exact ⟨_, .closing 0 h⟩

/-- What is parsed is the tree with groups at the places of the parentheses. -/
theorem parse {n : Node} {P : Places} (h : Inserts (n.outline P) ts ts') (hn : IsProgram n)
    (hl : AreLexical ts') : Blockscript.parse ts' = .ok (n.parenthesize P) := by
  have hspelled := h.spelledBy
  rw [map_outline] at hspelled
  exact (parse_eq_ok_iff hl).2 ⟨hn.parenthesize P, hspelled⟩

end Inserts

/-! ### Texts -/

/-- A text that has the tokens of another one, with parentheses around the expressions of its tree
    at some places. -/
def AddsParentheses (P : Places) (n : Node) (text text' : String) : Prop :=
  ∃ ts ts', lex text = .ok ts ∧ lex text' = .ok ts' ∧ Inserts (n.outline P) ts ts'

variable {n : Node} {text text' : String}

theorem AddsParentheses.parseSource {P : Places} (h : AddsParentheses P n text text')
    (hn : IsProgram n) : Blockscript.parseSource text' = .ok (n.parenthesize P) := by
  obtain ⟨ts, ts', -, hlex, hinserts⟩ := h
  simp only [Blockscript.parseSource, hlex, hinserts.parse hn (areLexical_of_lex hlex)]
  rfl

/-- Whatever the expressions are, there is such a text. -/
theorem exists_addsParentheses (h : parseSource text = .ok n) (P : Places) :
    ∃ text', AddsParentheses P n text text' := by
  obtain ⟨ts, hlex, hparse⟩ := exists_lex_of_parseSource h
  obtain ⟨-, hspelled⟩ := (parse_lex_eq_ok_iff hlex).1 hparse
  rw [← filterMap_outline P] at hspelled
  obtain ⟨ts', hinserts⟩ := Inserts.exists_of_spelledBy hspelled
  have hlexical := hinserts.areLexical (areLexical_of_lex hlex)
  exact ⟨unwords ts', ts, _, hlex, lex_unwords hlexical, hinserts.placedFrom 0⟩

end Blockscript
