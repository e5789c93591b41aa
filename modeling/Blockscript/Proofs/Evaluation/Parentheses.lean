import Blockscript.Proofs.Evaluation.Regrouped
import Blockscript.Proofs.Syntax.Insertion

/-!
# Parentheses change nothing

Parentheses that follow the grammar are there for the reader. Where they are put around expressions
of a program, in the bodies of its functions as anywhere else, its tree has groups at just these
places, and it runs as it did before: with the same value or error, the same text printed, the
same log, and the same bound in every scope.

* `isRegrouping_parenthesize`: trees with more parentheses differ in parentheses alone;
* `parseSource_parenthesize`: the texts of programs, and their runs.
-/

namespace Blockscript

open Node Lexer

theorem Node.isRegrouping_parenthesize : IsRegrouping Wrapped Parenthesized where
  matched := by
    rintro _ n ⟨P, rfl⟩
    exact matches_parenthesize P n
  expression := by
    rintro _ n ⟨P, rfl⟩
    exact ⟨false, P, (wrap_false _).symm⟩
  grouped := by
    rintro _ n ⟨b, P, rfl⟩
    cases b with
    | false => exact .inl ⟨P, wrap_false _⟩
    | true =>
      -- Nothing is put around an expression that is left out.
      by_cases hn : n = .absent
      · subst hn
        exact .inl ⟨P, rfl⟩
      · have hpresent : n.parenthesize P ≠ .absent :=
          fun h => hn ((matches_parenthesize P n).absent_iff.1 h)
        exact .inr (.inl ⟨n.parenthesize P, wrap_true hpresent, hn, P, rfl⟩)

namespace Evaluation

/-- Let a text be a program, and let parentheses be put around any of its expressions but the
    targets of assignments. This can be done, whatever these expressions are. The text that has
    the parentheses is the program with groups around just these expressions. And from any state,
    however deep calls may be nested, both programs end in the same way, or neither of them ends. -/
theorem parseSource_parenthesize {source : String} {n : Node} (h : parseSource source = .ok n)
    (P : Places) :
    (∃ source', AddsParentheses P n source source') ∧
    (∀ source', AddsParentheses P n source source' →
      parseSource source' = .ok (n.parenthesize P)) ∧
    ∀ depth (s : State), EndsLike Parenthesized
      (fun steps => runProgram ⟨depth, steps⟩ (n.parenthesize P))
      (fun steps => runProgram ⟨depth, steps⟩ n) s := by
  have hn : IsProgram n := by
    have hmeets := parseSource_meets source
    rwa [h] at hmeets
  have hrefl : ∀ n, Parenthesized n n := fun n => ⟨.none, (parenthesize_none n).symm⟩
  exact ⟨exists_addsParentheses h P, fun source' hadds => hadds.parseSource hn, fun depth s =>
    endsLike_runProgram isRegrouping_parenthesize ⟨P, rfl⟩ depth (.refl hrefl s)⟩

/-- Parentheses around a difference, and around what is subtracted. -/
theorem parseSource_parenthesize_difference :
    let n := Node.program [] [.method (.text "main") []
      [.answer (.binary (.text "-") (.integer 1) (.integer 2))]]
    let n' := Node.program [] [.method (.text "main") []
      [.answer (.group (.binary (.text "-") (.integer 1) (.group (.integer 2))))]]
    let P : Places := fun place => place = [0, 0, 0] ∨ place = [0, 0, 0, 1]
    let start := State.start .standard Store.standardScope 1
    parseSource "DEF main() DO RETURN 1 - 2; END" = .ok n ∧ n.parenthesize P = n' ∧
      AddsParentheses P n "DEF main() DO RETURN 1 - 2; END" "DEF main() DO RETURN (1 - (2)); END" ∧
      parseSource "DEF main() DO RETURN (1 - (2)); END" = .ok n' ∧
      valueOf ((runProgram ⟨9, 9⟩ n).run start) = .ok (.integer (-1)) ∧
      EndsLike Parenthesized (fun steps => runProgram ⟨9, steps⟩ n')
        (fun steps => runProgram ⟨9, steps⟩ n) start := by
  intro n n' P start
  have hlex : lex "DEF main() DO RETURN 1 - 2; END" = .ok [⟨.identifier, "DEF", 0⟩,
      ⟨.identifier, "main", 4⟩, ⟨.operator, "(", 8⟩, ⟨.operator, ")", 9⟩, ⟨.identifier, "DO", 11⟩,
      ⟨.identifier, "RETURN", 14⟩, ⟨.integer, "1", 21⟩, ⟨.operator, "-", 23⟩, ⟨.integer, "2", 25⟩,
      ⟨.operator, ";", 26⟩, ⟨.identifier, "END", 28⟩] := by
    decide +kernel
  have hlex' : lex "DEF main() DO RETURN (1 - (2)); END" = .ok [⟨.identifier, "DEF", 0⟩,
      ⟨.identifier, "main", 4⟩, ⟨.operator, "(", 8⟩, ⟨.operator, ")", 9⟩, ⟨.identifier, "DO", 11⟩,
      ⟨.identifier, "RETURN", 14⟩, ⟨.operator, "(", 21⟩, ⟨.integer, "1", 22⟩, ⟨.operator, "-", 24⟩,
      ⟨.operator, "(", 26⟩, ⟨.integer, "2", 27⟩, ⟨.operator, ")", 28⟩, ⟨.operator, ")", 29⟩,
      ⟨.operator, ";", 30⟩, ⟨.identifier, "END", 32⟩] := by
    decide +kernel
  have hparse : parseSource "DEF main() DO RETURN 1 - 2; END" = .ok n := by
    rw [parseSource, hlex]
    rfl
  have hn' : n.parenthesize P = n' := by
    simp [n, n', P, parenthesize, parenthesizeEach, Places.part, wrap, Node.integer]
  -- Symbol by symbol, the second text keeps the tokens of the first and adds the marked pairs.
  have hadds : AddsParentheses P n "DEF main() DO RETURN 1 - 2; END"
      "DEF main() DO RETURN (1 - (2)); END" := by
    have hdigits : ∀ c, Text.isDigit c → IsDigits [c] := fun _ hc =>
      ⟨List.cons_ne_nil _ _, List.forall_mem_singleton.2 hc⟩
    have hone : Token.Denotes ⟨.integer, "1", 21⟩ (.text "Integer") (.json (.integer 1)) :=
      @Token.Denotes.integer _ [] ['1'] rfl (by decide) (.inl rfl) (hdigits _ rfl)
    have htwo : Token.Denotes ⟨.integer, "2", 25⟩ (.text "Integer") (.json (.integer 2)) :=
      @Token.Denotes.integer _ [] ['2'] rfl (by decide) (.inl rfl) (hdigits _ rfl)
    have houtline : n.outline P = [.ofText "DEF", .kept (.word (.text "main")), .ofText "(",
        .ofText ")", .ofText "DO", .ofText "RETURN", .opening,
        .kept (.literal (.text "Integer") (.json (.integer 1))), .kept (.word (.text "-")),
        .opening, .kept (.literal (.text "Integer") (.json (.integer 2))), .closing, .closing,
        .ofText ";", .ofText "END"] := by
      simp [n, P, outline, outlineEach, Places.part, Mark.separated, enclose, whenPresent,
        Node.integer]
    rw [AddsParentheses, houtline]
    refine ⟨_, _, hlex, hlex', ?_⟩
    exact .kept 0 (.word rfl) <| .kept 4 (.word rfl) <| .kept 8 (.word rfl) <|
      .kept 9 (.word rfl) <| .kept 11 (.word rfl) <| .kept 14 (.word rfl) <| .opening 21 <|
      .kept 22 (.literal hone) <| .kept 24 (.word rfl) <| .opening 26 <|
      .kept 27 (.literal htwo) <| .closing 28 <| .closing 29 <| .kept 30 (.word rfl) <|
      .kept 32 (.word rfl) .nil
  obtain ⟨-, hsource, hruns⟩ := parseSource_parenthesize hparse P
  exact ⟨hparse, hn', hadds, hn' ▸ hsource _ hadds, by with_unfolding_all rfl, hn' ▸ hruns 9 start⟩

end Evaluation

end Blockscript
