import Blockscript.Proofs.Evaluation.Enough
import Blockscript.Proofs.Syntax.Beginnings
import Blockscript.Proofs.Value.Ordering

/-!
# Chains of logical operators

The operators `&&` and `||` are on one step of the ladder, so that operands that are tighter make
one chain with them, in any mixture. A chain goes on from left to right: at each operator the value
so far decides whether the operand after it is evaluated. An operand that is not evaluated does not
end the chain, as the next operator may ask for its own operand again.

* `Link`, `chainOf`: an operator with the operand after it, and the tree of a chain of them;
* `Link.Carries`, `FoldsTo`: what one link makes of the result so far, and what a chain does;
* `run_expression_chain`: a chain is read to its end, whatever its operators are;
* `ends_binary_iff`, `ends_chainOf_iff`: evaluating a chain is going along its links;
* `chain_shortCircuits`: reading and evaluating a chain.
-/

namespace Blockscript

open Evaluation Token Node

/-- The operators of a chain. -/
inductive Connective where
  | conjunction
  | disjunction
  deriving DecidableEq, Repr

namespace Connective

/-- The text of an operator of a chain. -/
def text : Connective → String
  | .conjunction => "&&"
  | .disjunction => "||"

/-- The value so far for which the operand after the operator is evaluated. -/
def goesOnAt : Connective → Bool
  | .conjunction => true
  | .disjunction => false

end Connective

/-- An operator of a chain, and the operand after it. -/
structure Link where
  connective : Connective
  operand : Node

/-- The tree of a chain that starts with an operand. -/
def chainOf (first : Node) (links : List Link) : Node :=
  links.foldl (fun left l => .binary (.text l.connective.text) left l.operand) first

/-- Tokens are an operator of a chain and a text that the rule of the next step reads as the operand
    after it. -/
inductive Link.IsRead (l : Link) : List Token → Prop
  | read {t : Token} {ts : List Token} : t.text = l.connective.text →
      Parser.comparison.run ts = .ok l.operand [] → l.IsRead (t :: ts)

/-- A value is refused where a boolean is needed, as it is of another kind or of none. -/
structure Value.IsRefused (v : Value) (context : String) (e : RuntimeError) : Prop where
  isOther : v.kind ≠ .ok .boolean
  isError : v.require .boolean context = .error e
  isTypeMismatch : e.IsTypeMismatch

/-- What a link of a chain makes of the result so far. -/
inductive Link.Carries (depth : Nat) (l : Link) :
    EStateM.Result Halt State Value → EStateM.Result Halt State Value → Prop
  /-- Nothing is done after a part that has halted. -/
  | halted {h : Halt} {s : State} : l.Carries depth (.error h s) (.error h s)
  | leftRefused {v : Value} {e : RuntimeError} {s : State} :
      v.IsRefused ("left operand of " ++ l.connective.text) e →
      l.Carries depth (.ok v s) (.error (.error e) s)
  | skipped {b : Bool} {s : State} : b ≠ l.connective.goesOnAt →
      l.Carries depth (.ok (.boolean b) s) (.ok (.boolean b) s)
  | taken {b c : Bool} {s t : State} : b = l.connective.goesOnAt →
      Ends (fun steps => evaluate steps depth l.operand) s (.ok (.boolean c) t) →
      l.Carries depth (.ok (.boolean b) s) (.ok (.boolean c) t)
  | rightRefused {b : Bool} {v : Value} {e : RuntimeError} {s t : State} :
      b = l.connective.goesOnAt →
      Ends (fun steps => evaluate steps depth l.operand) s (.ok v t) →
      v.IsRefused ("right operand of " ++ l.connective.text) e →
      l.Carries depth (.ok (.boolean b) s) (.error (.error e) t)
  | rightHalts {b : Bool} {h : Halt} {s t : State} : b = l.connective.goesOnAt →
      Ends (fun steps => evaluate steps depth l.operand) s (.error h t) →
      l.Carries depth (.ok (.boolean b) s) (.error h t)

/-- What the links of a chain make of a result, one after the other. -/
inductive FoldsTo (depth : Nat) :
    List Link → EStateM.Result Halt State Value → EStateM.Result Halt State Value → Prop
  | nil {x : EStateM.Result Halt State Value} : FoldsTo depth [] x x
  | cons {l : Link} {links : List Link} {x y z : EStateM.Result Halt State Value} :
      l.Carries depth x y → FoldsTo depth links y z → FoldsTo depth (l :: links) x z

/-! ### Reading -/

theorem builds_comparison : Parser.comparison.Builds (IsExpression 1) :=
  Parser.builds_chain (k := 1) (by decide) (Parser.builds_chain (k := 2) (by decide)
    (Parser.builds_chain (k := 3) (by decide)
      (Parser.builds_secondaryWith Parser.builds_expression)))

/-- An operand is tighter than the operators of a chain, and takes all of its tokens. -/
theorem isExpression_of_run_comparison {e : Node} {ts : List Token} (hl : AreLexical ts)
    (h : Parser.comparison.run ts = .ok e []) : IsExpression 1 e ∧ SpelledBy e.symbols ts := by
  have hmeets := builds_comparison ts hl
  rw [h] at hmeets
  exact hmeets.2

/-- By induction on the links: every operand is a right operand of what is in front of it. -/
theorem isExpression_chainOf {e : Node} {first : List Token} {links : List Link}
    {rest : List (List Token)} (he : IsExpression 0 e) (hfirst : SpelledBy e.symbols first)
    (hl : AreLexical rest.flatten) (hrest : List.Forall₂ Link.IsRead links rest) :
    IsExpression 0 (chainOf e links) ∧
      SpelledBy (chainOf e links).symbols (first ++ rest.flatten) := by
  induction hrest generalizing e first with
  | nil => exact ⟨he, by rwa [List.flatten_nil, List.append_nil]⟩
  | @cons l link links rest hread _ ih =>
    obtain ⟨ht, hrun⟩ := hread
    rename_i t ts
    rw [List.flatten_cons, List.cons_append] at hl
    have hlts : AreLexical ts := fun u hu =>
      hl u (List.mem_cons_of_mem _ (List.mem_append_left _ hu))
    obtain ⟨hoperand, hts⟩ := isExpression_of_run_comparison hlts hrun
    have hmem : l.connective.text ∈ operatorsAt 0 := by cases l.connective <;> decide
    have hbinary := IsExpression.binary hmem he hoperand
    have hspelled : SpelledBy (.binary (.text l.connective.text) e l.operand : Node).symbols
        (first ++ t :: ts) := hfirst.append (.cons (.word ht) hts)
    rw [List.flatten_cons, ← List.append_assoc]
    exact ih hbinary hspelled fun u hu => hl u (List.mem_cons_of_mem _ (List.mem_append_right _ hu))

/-- A chain is read to its end, if what follows does not go on with it. -/
theorem run_expression_chain {e : Node} {first after : List Token} {links : List Link}
    {rest : List (List Token)} (hl : AreLexical (first ++ rest.flatten ++ after))
    (hfirst : Parser.comparison.run first = .ok e [])
    (hrest : List.Forall₂ Link.IsRead links rest) (hafter : Parser.Stops 0 after) :
    Parser.expression.run (first ++ rest.flatten ++ after) = .ok (chainOf e links) after := by
  obtain ⟨he, hspelled⟩ := isExpression_of_run_comparison
    (fun t ht => hl t (List.mem_append_left _ (List.mem_append_left _ ht))) hfirst
  obtain ⟨he, hspelled⟩ := isExpression_chainOf (.tighter (by decide) he) hspelled
    (fun t ht => hl t (List.mem_append_left _ (List.mem_append_right _ ht))) hrest
  exact Parser.run_expression he hl (hspelled.append_right after) hafter

/-! ### Evaluating -/

namespace Evaluation

variable {depth : Nat} {s t : State} {x y : EStateM.Result Halt State Value}

/-- A value is a boolean, or it is refused where one is needed. -/
theorem boolean_or_isRefused (v : Value) (context : String) :
    (∃ b, v = .boolean b) ∨ ∃ e, v.IsRefused context e := by
  cases v with
  | boolean b => exact .inl ⟨b, rfl⟩
  | foreign value => exact .inr ⟨_, nofun, rfl, .unsupportedValue value⟩
  | _ => exact .inr ⟨_, nofun, rfl, .kindMismatch _ _ _⟩

/-- An operand has to be a boolean, or nothing more is done. -/
theorem ends_logicalOperand_bind_iff {v : Value} {side operator : String}
    {f : (steps : Nat) → Bool → Evaluation Value} :
    Ends (fun steps => logicalOperand side operator v >>= f steps) s x ↔
      (∃ b, v = .boolean b ∧ Ends (fun steps => f steps b) s x) ∨
        ∃ e, v.IsRefused (side ++ " operand of " ++ operator) e ∧ x = .error (.error e) s := by
  rcases boolean_or_isRefused v (side ++ " operand of " ++ operator) with ⟨b, rfl⟩ | ⟨e, hv⟩
  · refine ⟨fun h => .inl ⟨b, rfl, h⟩, ?_⟩
    rintro (⟨b', hb, h⟩ | ⟨e, hv, -⟩)
    · obtain rfl := Value.boolean.inj hb
      exact h
    · exact (hv.isOther rfl).elim
  · have hrun : (fun steps => logicalOperand side operator v >>= f steps) =
        fun _ => throw (.error e) := by
      funext steps
      rw [logicalOperand, hv.isError]
      rfl
    rw [hrun, ends_throw_iff (h := .error e) nofun]
    refine ⟨fun h => .inr ⟨e, hv, h⟩, ?_⟩
    rintro (⟨b, rfl, -⟩ | ⟨e', hv', rfl⟩)
    · exact (hv.isOther rfl).elim
    · rw [Except.error.inj (hv.isError.symm.trans hv'.isError)]

/-- The operand after a boolean is evaluated if its operator asks for it. -/
theorem ends_operand_iff {l : Link} {b : Bool} :
    Ends (fun steps => if b = l.connective.goesOnAt then
          evaluate steps depth l.operand >>= fun w =>
            logicalOperand "right" l.connective.text w >>= fun c => pure (.boolean c)
        else pure (.boolean b)) s x ↔
      l.Carries depth (.ok (.boolean b) s) x := by
  -- The right operand is evaluated exactly when the left one is the value at which the operator
  -- goes on.
  by_cases hb : b = l.connective.goesOnAt
  · simp only [if_pos hb, ((steady_steps depth).1 l.operand).ends_bind_iff,
      ends_logicalOperand_bind_iff, ends_pure_iff]
    constructor
    · rintro (⟨h, t, hright, rfl⟩ | ⟨w, t, hright, ⟨c, rfl, rfl⟩ | ⟨e, hw, rfl⟩⟩)
      · exact .rightHalts hb hright
      · exact .taken hb hright
      · exact .rightRefused hb hright hw
    · intro h
      cases h with
      | leftRefused hv => exact (hv.isOther rfl).elim
      | skipped hne => exact (hne hb).elim
      | taken _ hright => exact .inr ⟨_, _, hright, .inl ⟨_, rfl, rfl⟩⟩
      | rightRefused _ hright hw => exact .inr ⟨_, _, hright, .inr ⟨_, hw, rfl⟩⟩
      | rightHalts _ hright => exact .inl ⟨_, _, hright, rfl⟩
  · simp only [if_neg hb, ends_pure_iff]
    constructor
    · rintro rfl
      exact .skipped hb
    · intro h
      cases h with
      | leftRefused hv => exact (hv.isOther rfl).elim
      | skipped _ => rfl
      | taken hb' _ => exact (hb hb').elim
      | rightRefused hb' _ _ => exact (hb hb').elim
      | rightHalts hb' _ => exact (hb hb').elim

/-- An operator of a chain, as the steps of its evaluation. -/
theorem evaluate_binary (l : Link) (left : Node) (steps : Nat) :
    evaluate (steps + 1) depth (.binary (.text l.connective.text) left l.operand) =
      evaluate steps depth left >>= fun v =>
        logicalOperand "left" l.connective.text v >>= fun b =>
          if b = l.connective.goesOnAt then
            evaluate steps depth l.operand >>= fun w =>
              logicalOperand "right" l.connective.text w >>= fun c => pure (.boolean c)
          else pure (.boolean b) := by
  rw [evaluate]
  obtain ⟨_ | _, operand⟩ := l <;> rfl

/-- An operator of a chain does with the result of what is in front of it what its link does. -/
theorem ends_binary_iff {l : Link} {left : Node} :
    Ends (fun steps => evaluate steps depth (.binary (.text l.connective.text) left l.operand))
        s x ↔
      ∃ y, Ends (fun steps => evaluate steps depth left) s y ∧ l.Carries depth y x := by
  rw [← Ends.succ_iff]
  simp only [evaluate_binary, ((steady_steps depth).1 left).ends_bind_iff,
    ends_logicalOperand_bind_iff]
  simp only [ends_operand_iff]
  -- What the left operand ends with decides: an error, a value that is no boolean, or a boolean the
  -- link carries on.
  constructor
  · rintro (⟨h, t, hleft, rfl⟩ | ⟨v, t, hleft, ⟨b, rfl, h⟩ | ⟨e, hv, rfl⟩⟩)
    · exact ⟨_, hleft, .halted⟩
    · exact ⟨_, hleft, h⟩
    · exact ⟨_, hleft, .leftRefused hv⟩
  · rintro ⟨y, hleft, h⟩
    cases y with
    | error e t =>
      cases h
      exact .inl ⟨_, _, hleft, rfl⟩
    | ok v t =>
      refine .inr ⟨v, t, hleft, ?_⟩
      rcases boolean_or_isRefused v ("left operand of " ++ l.connective.text) with
        ⟨b, rfl⟩ | ⟨e, hv⟩
      · exact .inl ⟨b, rfl, h⟩
      · cases h with
        | leftRefused hv' => exact .inr ⟨_, hv', rfl⟩
        | _ => exact (hv.isOther rfl).elim

/-- A chain is evaluated from left to right. By induction on its links. -/
theorem ends_chainOf_iff {first : Node} {links : List Link} :
    Ends (fun steps => evaluate steps depth (chainOf first links)) s x ↔
      ∃ y, Ends (fun steps => evaluate steps depth first) s y ∧ FoldsTo depth links y x := by
  induction links generalizing first with
  | nil =>
    refine ⟨fun h => ⟨x, h, .nil⟩, ?_⟩
    rintro ⟨y, h, ⟨⟩⟩
    exact h
  | cons l links ih =>
    have hchain : chainOf first (l :: links) =
      chainOf (.binary (.text l.connective.text) first l.operand) links := rfl
    simp only [hchain, ih, ends_binary_iff]
    constructor
    · rintro ⟨z, ⟨y, hfirst, hl⟩, hlinks⟩
      exact ⟨y, hfirst, .cons hl hlinks⟩
    · rintro ⟨y, hfirst, ⟨⟩ | ⟨hl, hlinks⟩⟩
      exact ⟨_, ⟨y, hfirst, hl⟩, hlinks⟩

end Evaluation

/-- In a text, operands with `&&` and `||` between them, in any mixture, are read as one chain,
    wherever it stands. Evaluating the chain is evaluating the first operand and going along the
    links with its result. -/
theorem chain_shortCircuits {source : String} {before first after : List Token} {e : Node}
    {links : List Link} {rest : List (List Token)}
    (hlex : lex source = .ok (before ++ (first ++ rest.flatten ++ after)))
    (hfirst : Parser.comparison.run first = .ok e [])
    (hrest : List.Forall₂ Link.IsRead links rest) (hafter : Parser.Stops 0 after) :
    Parser.expression.run (first ++ rest.flatten ++ after) = .ok (chainOf e links) after ∧
      ∀ depth s x, Ends (fun steps => evaluate steps depth (chainOf e links)) s x ↔
        ∃ y, Ends (fun steps => evaluate steps depth e) s y ∧ FoldsTo depth links y x := by
  have hl := areLexical_of_lex hlex
  exact ⟨run_expression_chain (fun t ht => hl t (List.mem_append_right _ ht)) hfirst hrest hafter,
    fun _ _ _ => ends_chainOf_iff⟩

/-- An operand is skipped, the next one is evaluated, the one after that is no boolean, and the last
    one is not come to. -/
theorem chain_shortCircuits_mixed :
    let missing := Node.access .absent (.text "missing")
    let links : List Link := [⟨.conjunction, missing⟩, ⟨.disjunction, .boolean true⟩,
      ⟨.conjunction, .integer 1⟩, ⟨.disjunction, missing⟩]
    let s := State.start .standard Store.standardScope 0
    ∃ tokens, lex "RETURN FALSE && missing || TRUE && 1 || missing;" =
        .ok (⟨.identifier, "RETURN", 0⟩ :: tokens) ∧
      Parser.expression.run tokens = .ok (chainOf (.boolean false) links) [⟨.operator, ";", 47⟩] ∧
      Ends (fun steps => evaluate steps 0 (chainOf (.boolean false) links)) s
        (.error (.error (.kindMismatch .boolean .integer "right operand of &&")) s) := by
  intro missing links s
  have hlex : lex "RETURN FALSE && missing || TRUE && 1 || missing;" = .ok
      ([⟨.identifier, "RETURN", 0⟩] ++ ([⟨.identifier, "FALSE", 7⟩] ++
        [[⟨.operator, "&&", 13⟩, ⟨.identifier, "missing", 16⟩],
          [⟨.operator, "||", 24⟩, ⟨.identifier, "TRUE", 27⟩],
          [⟨.operator, "&&", 32⟩, ⟨.integer, "1", 35⟩],
          [⟨.operator, "||", 37⟩, ⟨.identifier, "missing", 40⟩]].flatten ++
        [⟨.operator, ";", 47⟩])) := by
    decide +kernel
  have hliteral : ∀ {n v}, (evaluate 1 0 n).run s = .ok v s →
      Ends (fun steps => evaluate steps 0 n) s (.ok v s) :=
    fun h => ((steady_steps 0).1 _).ends_ok h
  have hchain := chain_shortCircuits hlex rfl
    (show List.Forall₂ Link.IsRead links _ from .cons (.read rfl rfl) (.cons (.read rfl rfl)
      (.cons (.read rfl rfl) (.cons (.read rfl rfl) .nil))))
    (Parser.stops_of_closer (by decide) rfl)
  have hone : (Value.integer 1).IsRefused "right operand of &&"
      (.kindMismatch .boolean .integer "right operand of &&") := ⟨nofun, rfl, .kindMismatch _ _ _⟩
  refine ⟨_, hlex, hchain.1, (hchain.2 0 s _).2 ⟨.ok (.boolean false) s, hliteral ?_, ?_⟩⟩
  · rw [evaluate]
    rfl
  -- FALSE skips the first link, the second one is taken, the third refuses its right operand, and
  -- nothing is evaluated after that.
  · refine .cons (.skipped Bool.false_ne_true) (.cons (.taken rfl (hliteral ?_))
      (.cons (.rightRefused rfl (hliteral ?_) hone) (.cons .halted .nil)))
    · rw [evaluate]
      rfl
    · rw [evaluate]
      rfl

end Blockscript
