import Blockscript.Proofs.Syntax.Completeness
import Blockscript.Proofs.Syntax.Soundness
import Blockscript.Proofs.Token.Tokenization

/-!
# Parsing programs

The tokens of a text belong to their classes, so that the parser accounts for every
one of them: it gives a tree exactly if the tree is a program and the tokens spell
it, and all other tokens are refused for a reason that the grammar gives.

* `parse_eq_ok_iff`: the trees that the parser gives;
* `parse_lex_eq_ok_iff`: the same for the tokens of a text;
* `parseSource_meets`: the outcome of reading a text.
-/

namespace Blockscript

open Token Node Lexer

/-- The tokens of a text belong to their classes. -/
theorem areLexical_of_splits {n : Nat} {s : List Char} {ts : List Token} (h : Splits n s ts) :
    AreLexical ts := by
  induction h with
  | blanks _ => exact nofun
  | token _ _ hk _ _ ih => exact List.forall_mem_cons.2 ⟨hk, ih⟩

theorem areLexical_of_lex {source : String} {tokens : List Token} (h : lex source = .ok tokens) :
    AreLexical tokens :=
  areLexical_of_splits (tokensFrom_eq_ok_iff.1 h)

/-- The parser gives the programs that all tokens spell. -/
theorem parse_eq_ok_iff {tokens : List Token} {n : Node} (hl : AreLexical tokens) :
    parse tokens = .ok n ↔ IsProgram n ∧ SpelledBy n.symbols tokens := by
  constructor
  · intro h
    have := parse_meets hl
    rwa [h] at this
  · rintro ⟨hn, ht⟩
    rw [parse, Parser.run_program hn hl ht]

/-- The parser gives the programs that all tokens of a text spell: every token stands
    for a symbol of the tree, in the order of the tree, and no symbol but a keyword
    that may be left out goes without a token. -/
theorem parse_lex_eq_ok_iff {source : String} {tokens : List Token} {n : Node}
    (h : lex source = .ok tokens) :
    parse tokens = .ok n ↔ IsProgram n ∧ SpelledBy n.symbols tokens :=
  parse_eq_ok_iff (areLexical_of_lex h)

/-- The tokens of a constant spell its symbols. -/
theorem parse_lex_constant :
    lex "LET CONST a = 1.50;" = .ok [⟨.identifier, "LET", 0⟩, ⟨.identifier, "CONST", 4⟩,
      ⟨.identifier, "a", 10⟩, ⟨.operator, "=", 12⟩, ⟨.decimal, "1.50", 14⟩, ⟨.operator, ";", 18⟩] ∧
    SpelledBy (Node.program [.field (.text "a") true (.decimal ⟨false, 150, -2⟩)] []).symbols
      [⟨.identifier, "LET", 0⟩, ⟨.identifier, "CONST", 4⟩, ⟨.identifier, "a", 10⟩,
        ⟨.operator, "=", 12⟩, ⟨.decimal, "1.50", 14⟩, ⟨.operator, ";", 18⟩] := by
  have hlex : lex "LET CONST a = 1.50;" = .ok [⟨.identifier, "LET", 0⟩,
      ⟨.identifier, "CONST", 4⟩, ⟨.identifier, "a", 10⟩, ⟨.operator, "=", 12⟩,
      ⟨.decimal, "1.50", 14⟩, ⟨.operator, ";", 18⟩] := by
    decide +kernel
  exact ⟨hlex, ((parse_lex_eq_ok_iff hlex).1 rfl).2⟩

/-- A text that is parsed has tokens, from which its tree is parsed. -/
theorem exists_lex_of_parseSource {source : String} {n : Node} (h : parseSource source = .ok n) :
    ∃ tokens, lex source = .ok tokens ∧ parse tokens = .ok n := by
  rw [parseSource] at h
  cases hlex : lex source with
  | error e =>
    rw [hlex] at h
    contradiction
  | ok tokens =>
    rw [hlex] at h
    cases hparse : parse tokens with
    | error e =>
      simp only [hparse] at h
      contradiction
    | ok m =>
      simp only [hparse] at h
      obtain rfl := Except.ok.inj h
      exact ⟨tokens, rfl, hparse⟩

/-- A text is a program, or it is refused for a reason that a grammar gives. -/
theorem parseSource_meets (source : String) :
    match parseSource source with
    | .ok n => IsProgram n
    | .error (.lex _) => True
    | .error (.parse e) => e.cause.IsGrammatical := by
  rw [parseSource]
  cases hlex : lex source with
  | error e => trivial
  | ok tokens =>
    have := parse_meets (areLexical_of_lex hlex)
    cases hparse : parse tokens with
    | error e =>
      rw [hparse] at this
      simp only [hparse]
      exact this
    | ok n =>
      rw [hparse] at this
      simp only [hparse]
      exact this.1

end Blockscript
