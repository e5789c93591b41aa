import Blockscript.Proofs.Syntax.Beginnings
import Blockscript.Proofs.Syntax.Locality
import Blockscript.Syntax.TokenCursor

/-!
# The token that cannot be there

An error names the first token that cannot be there: the tokens before it are the beginning
of a program, and together with it they are refused, whatever follows. The two sides are
the *correct prefix property* of the parser; one is what `recognizes_program` says of the
tokens taken, and the other what `agrees_program` says of the tokens that remain.

* `Parser.StopsAt`: the place at which the parser stops;
* `stopsAt_take`: it is not moved by what follows;
* `exists_completion`: what is before it can be completed;
* `parse_lex_eq_error`: both for the tokens of a text.
-/

namespace Blockscript

open Token Node

/-- The parser is refused tokens at the place `k`, before which its cursor stays. -/
def Parser.StopsAt (tokens : List Token) (e : ParseError) (k : Nat) : Prop :=
  TokenCursor.run ⟨tokens, 0⟩ program = (.error e, ⟨tokens, k⟩)

namespace Parser

variable {tokens taken rest : List Token} {cause : ParseError.Cause} {e : ParseError} {k : Nat}

theorem stopsAt_of_run (h : program.run (taken ++ rest) = .error cause rest) :
    StopsAt (taken ++ rest) ⟨cause, nextOffset (taken ++ rest) rest⟩ taken.length := by
  rw [StopsAt, TokenCursor.run, TokenCursor.ahead, List.drop_zero, h]
  simp only [List.length_append, Nat.add_sub_cancel]

theorem StopsAt.parse_eq (h : StopsAt tokens e k) : parse tokens = .error e := by
  rw [StopsAt, TokenCursor.run, TokenCursor.ahead, List.drop_zero] at h
  rw [parse]
  cases hrun : program.run tokens with
  | ok n m =>
    rw [hrun] at h
    cases congrArg Prod.fst h
  | error cause m =>
    rw [hrun] at h
    exact congrArg Prod.fst h

/-- The error lies at the token of the place, or at the end. -/
theorem nextOffset_append (taken rest : List Token) : nextOffset (taken ++ rest) rest =
    ((taken ++ rest)[taken.length]?.map Token.offset).getD (endOffsetOfAll (taken ++ rest)) := by
  rw [List.getElem?_append_right (Nat.le_refl _), Nat.sub_self]
  cases rest <;> rfl

/-- What has been taken where the parser fails, and what remains. -/
theorem exists_run_eq_error (h : parse tokens = .error e) : ∃ taken rest, tokens = taken ++ rest ∧
    program.run tokens = .error e.cause rest ∧ e.offset = nextOffset tokens rest := by
  rw [parse] at h
  cases hrun : program.run tokens with
  | ok n m =>
    rw [hrun] at h
    contradiction
  | error cause rest =>
    rw [hrun] at h
    have hagrees : AgreesAt 0 0 program program tokens := agrees_program
    obtain ⟨taken, heq, _⟩ := hagrees
    rw [hrun, remaining] at heq
    obtain rfl := Except.error.inj h
    exact ⟨taken, rest, heq, rfl, rfl⟩

/-- The token at which the parser fails is refused, whatever follows it. -/
theorem stopsAt_append {t : Token} (h : program.run (taken ++ t :: rest) = .error cause (t :: rest))
    (more : List Token) : StopsAt (taken ++ t :: more) ⟨cause, t.offset⟩ taken.length := by
  refine stopsAt_of_run ?_
  have hagrees : AgreesAt 0 (more.length - rest.length) program program (taken ++ t :: rest) :=
    agrees_program
  obtain ⟨taken', heq, _, hagree⟩ := hagrees
  rw [h] at heq hagree
  obtain rfl := List.append_cancel_right heq
  refine hagree (t :: more) rfl ?_
  simp only [remaining, List.length_cons]
  omega

/-- The tokens before it can be completed. -/
theorem exists_completion (hl : AreLexical (taken ++ rest))
    (h : program.run (taken ++ rest) = .error cause rest) :
    ∃ more, AreLexical more ∧ ∃ n, parse (taken ++ more) = .ok n := by
  have hbegins := recognizes_program hl
  rw [h] at hbegins
  obtain ⟨taken', ⟨more, hmore, n, hn, ht⟩, heq⟩ := hbegins
  obtain rfl := List.append_cancel_right heq
  refine ⟨more, hmore, n, (parse_eq_ok_iff ?_).2 ⟨hn, ht⟩⟩
  exact List.forall_mem_append.2 ⟨fun t ht => hl t (List.mem_append_left rest ht), hmore⟩

end Parser

/-- The parser refuses the tokens of a text only for a reason that the grammar gives, and
    at the first token that cannot be there, or at the end. The tokens before this one can
    be completed to a program; with it they cannot, as the parser fails there in the same
    way whatever follows. -/
theorem parse_lex_eq_error {source : String} {tokens : List Token} {e : ParseError}
    (hlex : lex source = .ok tokens) (h : parse tokens = .error e) :
    e.cause.IsGrammatical ∧ ∃ k ≤ tokens.length, Parser.StopsAt tokens e k ∧
      e.offset = (tokens[k]?.map Token.offset).getD (endOffsetOfAll tokens) ∧
      (∃ more, AreLexical more ∧ ∃ n, parse (tokens.take k ++ more) = .ok n) ∧
      (k < tokens.length → ∀ more, parse (tokens.take (k + 1) ++ more) = .error e ∧
        Parser.StopsAt (tokens.take (k + 1) ++ more) e k) := by
  have hl := areLexical_of_lex hlex
  have hcause := parse_meets hl
  rw [h] at hcause
  obtain ⟨taken, rest, rfl, hrun, hoffset⟩ := Parser.exists_run_eq_error h
  obtain ⟨cause, offset⟩ := e
  subst hoffset
  refine ⟨hcause, taken.length, by simp, Parser.stopsAt_of_run hrun,
    Parser.nextOffset_append taken rest, ?_, fun hk more => ?_⟩
  · rw [List.take_left]
    exact Parser.exists_completion hl hrun
  · obtain _ | ⟨t, rest⟩ := rest
    · simp at hk
    have htake : (taken ++ t :: rest).take (taken.length + 1) ++ more = taken ++ t :: more := by
      simp [List.take_append]
    rw [htake]
    have hstops := Parser.stopsAt_append hrun more
    exact ⟨hstops.parse_eq, hstops⟩

/-- A keyword is taken for the name of a parameter, so that the parenthesis is found
    missing only after it. -/
theorem parse_lex_parameter : ∃ tokens e, lex "DEF main( DO END" = .ok tokens ∧
    parse tokens = .error e ∧ e = ⟨.missingText ")", 13⟩ ∧
    ∃ k ≤ tokens.length, Parser.StopsAt tokens e k ∧
      ∃ more n, parse (tokens.take k ++ more) = .ok n := by
  have hlex : lex "DEF main( DO END" = .ok [⟨.identifier, "DEF", 0⟩, ⟨.identifier, "main", 4⟩,
      ⟨.operator, "(", 8⟩, ⟨.identifier, "DO", 10⟩, ⟨.identifier, "END", 13⟩] := by
    decide +kernel
  refine ⟨_, _, hlex, rfl, rfl, ?_⟩
  obtain ⟨_, k, hk, hstops, _, ⟨more, _, n, hparse⟩, _⟩ := parse_lex_eq_error hlex rfl
  exact ⟨k, hk, hstops, more, n, hparse⟩

end Blockscript
