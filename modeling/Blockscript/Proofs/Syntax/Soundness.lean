import Blockscript.Proofs.Syntax.Outcome

/-!
# What the parser builds

Every rule builds a tree of its part of the grammar, and takes exactly the tokens
that spell the symbols of this tree. Loops add a part at a time: what they have
built so far is spelled by the tokens taken so far.

* `Parser.Builds`: a rule builds trees of a kind;
* `builds_expressionWithin`, `buildsStatements_statementWithin`: expressions and statements,
  by induction on how deep they nest;
* `meets_program`: whole programs.
-/

namespace Blockscript

open Text Token Node

namespace Parser

/-- A rule builds trees of a kind, and takes the tokens that spell them. -/
def Builds (p : Parser Node) (IsKind : Node → Prop) : Prop :=
  ∀ ts, p.Meets ts fun n rest => IsKind n ∧ Takes n.symbols ts rest

variable {ts start : List Token} {inner : Parser Node}

/-! ### Lists of items -/

section Items

variable {α : Type} {item : Parser α} {IsItem : α → Prop} {symbolsOf : α → List Symbol}
  (hitem : ∀ ts, item.Meets ts fun a rest => IsItem a ∧ Takes (symbolsOf a) ts rest)

include hitem

/-- Further items of a list are spelled by the tokens taken. By induction on the fuel, as every item
    takes a comma. -/
theorem meets_moreItems (fuel : Nat) : (moreItems item fuel).Meets ts fun as rest =>
    (∀ a ∈ as, IsItem a) ∧ Takes (as.flatMap fun a => .ofText "," :: symbolsOf a) ts rest := by
  induction fuel generalizing ts with
  | zero => exact .pure ⟨nofun, .nil⟩
  | succ fuel ih =>
    refine .ifAccept (fun m hcomma => ?_) fun _ => .pure ⟨nofun, .nil⟩
    refine (hitem m).bind fun a m' ⟨ha, hta⟩ => ih.bind fun as rest ⟨has, htas⟩ => .pure ⟨?_, ?_⟩
    · exact List.forall_mem_cons.2 ⟨ha, has⟩
    · exact hcomma.append (hta.append htas)

/-- A list of items is spelled by the tokens taken, its closing parenthesis included. -/
theorem meets_items : (items item).Meets ts fun as rest =>
    (∀ a ∈ as, IsItem a) ∧
      Takes (Symbol.separated (as.map symbolsOf) ++ [.ofText ")"]) ts rest := by
  refine .ifNextIs (fun _ => ?_) fun _ => ?_
  · exact meets_expectText.bind fun _ rest h => .pure ⟨nofun, h⟩
  · refine (hitem ts).bind fun a m ⟨ha, hta⟩ => ?_
    refine (Meets.unlimited (meets_moreItems hitem)).bind fun as m' ⟨has, htas⟩ => ?_
    refine meets_expectText.bind fun _ rest hclose => .pure ⟨?_, ?_⟩
    · exact List.forall_mem_cons.2 ⟨ha, has⟩
    · rw [List.map_cons, Symbol.separated, List.flatMap_map]
      exact (hta.append htas).append hclose

end Items

/-! ### Literals -/

section Literals

variable {t : Token} (ht : t.IsLexical)

include ht

/-- Every integer token can be read, so that the parser does not fail at one. -/
theorem exists_integer (hk : t.kind = .integer) : ∃ i, readInteger? t.text.toList = some i ∧
    t.Denotes (.text "Integer") (.json (.integer i)) := by
  rw [IsLexical, hk] at ht
  obtain ⟨sign, digits, heq, hs, hd⟩ := IsInteger.exists_numeral ht
  exact ⟨_, by rw [heq, readInteger?_append hs hd], .integer hk heq hs hd⟩

/-- Every decimal token can be read, and its exponent is negative, as there is a digit after the
    point. -/
theorem exists_decimal (hk : t.kind = .decimal) : ∃ d : Decimal, d.exponent ≤ -1 ∧
    Decimal.read? t.text.toList = some d ∧ t.Denotes (.text "Decimal") (.decimal d) := by
  rw [IsLexical, hk] at ht
  obtain ⟨sign, whole, fraction, heq, hs, hw, hf⟩ := ht
  refine ⟨_, ?_, by rw [heq, Decimal.read?_append hs hw hf], .decimal hk heq hs hw hf⟩
  have := List.length_pos_iff.2 hf.1
  simp only [decimalOf]
  omega

/-- Every character token stands for one character. -/
theorem exists_character (hk : t.kind = .character) : ∃ c,
    unquote t = pure (String.singleton c) ∧
      t.Denotes (.text "Character") (.json (.string (String.singleton c))) := by
  rw [IsLexical, hk] at ht
  obtain ⟨body, c, heq, hd⟩ := ht
  exact ⟨c, unquote_of_denotes heq hd, .character hk heq hd⟩

/-- Every string token stands for a text: its escapes are those that the scanner has let pass. -/
theorem exists_string (hk : t.kind = .string) : ∃ s, unquote t = pure s ∧
    t.Denotes (.text "String") (.json (.string s)) := by
  rw [IsLexical, hk] at ht
  obtain ⟨body, text, heq, hd⟩ := ht
  exact ⟨_, unquote_of_denotes heq hd, .string hk heq hd⟩

end Literals

/-! ### Expressions -/

/-- A group is spelled with its parentheses, of which the opening one has been taken before. -/
theorem meets_group (hinner : inner.Builds (IsExpression 0))
    (hopen : Takes [.ofText "("] start ts) :
    (do
      let e ← inner
      expectText ")"
      return Node.group e : Parser Node).Meets ts fun n rest =>
        IsExpression 4 n ∧ Takes n.symbols start rest := by
  refine (hinner ts).bind fun e m ⟨he, hte⟩ => meets_expectText.bind fun _ rest hclose => ?_
  exact .pure ⟨.group he, hopen.append (hte.append hclose)⟩

/-- What a primary rule takes spells a literal, a group, a variable or a call. -/
theorem builds_primaryWith (hinner : inner.Builds (IsExpression 0)) :
    (primaryWith inner).Builds (IsExpression 4) := by
  intro ts
  refine .ifAccept (fun m h => ?_) fun hnil => .ifAccept (fun m h => ?_) fun htrue =>
    .ifAccept (fun m h => ?_) fun hfalse => .get ?_
  -- The words NIL, TRUE and FALSE are literals wherever they stand.
  · obtain ⟨t, m, rfl, ht, ⟨⟩⟩ := Takes.ofText_cons_iff.1 h
    exact .pure ⟨.literal .nil, .cons (.literal (.nil ht)) .nil⟩
  · obtain ⟨t, m, rfl, ht, ⟨⟩⟩ := Takes.ofText_cons_iff.1 h
    exact .pure ⟨.literal (.boolean true), .cons (.literal (.true ht)) .nil⟩
  · obtain ⟨t, m, rfl, ht, ⟨⟩⟩ := Takes.ofText_cons_iff.1 h
    exact .pure ⟨.literal (.boolean false), .cons (.literal (.false ht)) .nil⟩
  -- Past them, the kind of the token decides, and its text is one the scanner has cut out.
  obtain _ | ⟨t, rest⟩ := ts
  · exact .throw trivial
  refine .of_areLexical fun hl => ?_
  have ht := hl t List.mem_cons_self
  cases hk : t.kind with
  | integer =>
    obtain ⟨i, hread, hd⟩ := exists_integer ht hk
    simp only [hk, hread]
    exact .set (.pure ⟨.literal (.integer i), .cons (.literal hd) .nil⟩)
  | decimal =>
    obtain ⟨d, hplaces, hread, hd⟩ := exists_decimal ht hk
    simp only [hk, hread]
    exact .set (.pure ⟨.literal (.decimal hplaces), .cons (.literal hd) .nil⟩)
  | character =>
    obtain ⟨c, hread, hd⟩ := exists_character ht hk
    simp only [hk, hread]
    exact .set (.pure ⟨.literal (.character c), .cons (.literal hd) .nil⟩)
  | string =>
    obtain ⟨s, hread, hd⟩ := exists_string ht hk
    simp only [hk, hread]
    exact .set (.pure ⟨.literal (.string s), .cons (.literal hd) .nil⟩)
  | identifier =>
    simp only [hk, if_true]
    refine .ifAccept (fun m hopen => meets_group hinner hopen) fun _ => ?_
    refine meets_identifier.bind fun name m hm => ?_
    obtain ⟨hname, htname⟩ := hm
    -- The name is free: the three literal words were tried before it.
    have hfree : IsFreeName name := by
      rw [htname.nextText?_eq] at hnil htrue hfalse
      simp only [Ne, Option.some.injEq] at hnil htrue hfalse
      exact ⟨hname, by simp [hnil, htrue, hfalse]⟩
    refine .ifAccept (fun m' hopen => ?_) fun _ => .pure ⟨.name hfree, htname⟩
    refine (meets_items hinner).bind fun arguments rest hitems => .pure ⟨?_, ?_⟩
    · exact .function hfree hitems.1
    · rw [symbols, eachSymbols_eq_map]
      have htarguments := hitems.2
      exact htname.append (hopen.append htarguments)
  | operator =>
    simp only [hk]
    exact .ifAccept (fun m hopen => meets_group hinner hopen) fun _ => .throw trivial

/-- An operator and one more operand at a time. -/
theorem meets_moreOperands {k : Nat} {operand : Parser Node} {left : Node}
    (hop : operand.Builds (IsExpression (k + 1))) (fuel : Nat) (hleft : IsExpression k left)
    (htleft : Takes left.symbols start ts) :
    (moreOperands (operatorsAt k) operand fuel left).Meets ts fun n rest =>
      IsExpression k n ∧ Takes n.symbols start rest := by
  induction fuel generalizing left ts with
  | zero => exact .pure ⟨hleft, htleft⟩
  | succ fuel ih =>
    refine .get ?_
    obtain _ | ⟨t, rest⟩ := ts
    · exact .pure ⟨hleft, htleft⟩
    by_cases ht : (operatorsAt k).contains t.text
    · simp only [ht, if_true]
      refine .set ((hop rest).bind fun right m ⟨hright, htright⟩ => ih ?_ ?_)
      · exact .binary (List.contains_iff_mem.1 ht) hleft hright
      · exact htleft.append (.cons (.word rfl) htright)
    · simp only [ht]
      exact .pure ⟨hleft, htleft⟩

/-- What the rule for a level of operators takes spells an expression of that level. The operands to
    the left make up one operand of the next operator. -/
theorem builds_chain {k : Nat} {operand : Parser Node} (hk : k < 4)
    (hop : operand.Builds (IsExpression (k + 1))) :
    (chain (operatorsAt k) operand).Builds (IsExpression k) :=
  fun ts => (hop ts).bind fun _ _ ⟨hleft, htleft⟩ =>
    .unlimited fun fuel => meets_moreOperands hop fuel (.tighter hk hleft) htleft

/-- A point and one more member at a time. -/
theorem meets_moreMembers (hinner : inner.Builds (IsExpression 0)) {receiver : Node} (fuel : Nat)
    (hreceiver : IsExpression 4 receiver) (htreceiver : Takes receiver.symbols start ts) :
    (moreMembers inner fuel receiver).Meets ts fun n rest =>
      IsExpression 4 n ∧ Takes n.symbols start rest := by
  induction fuel generalizing receiver ts with
  | zero => exact .pure ⟨hreceiver, htreceiver⟩
  | succ fuel ih =>
    refine .ifAccept (fun m hpoint => ?_) fun _ => .pure ⟨hreceiver, htreceiver⟩
    refine meets_identifier.bind fun name m ⟨hname, htname⟩ => ?_
    have hmember := htreceiver.append (hpoint.append htname)
    refine .ifAccept (fun m' hopen => ?_) fun _ => ih (.access hreceiver hname) ?_
    · refine (meets_items hinner).bind fun arguments m ⟨harguments, htarguments⟩ =>
        ih (.call hreceiver hname harguments) ?_
      rw [symbols, eachSymbols_eq_map, hreceiver.ifPresent]
      simpa using hmember.append (hopen.append htarguments)
    · rw [symbols, hreceiver.ifPresent, List.append_assoc]
      exact hmember

/-- What follows a receiver spells fields and calls of methods. -/
theorem builds_secondaryWith (hinner : inner.Builds (IsExpression 0)) :
    (secondaryWith inner).Builds (IsExpression 4) :=
  fun ts => (builds_primaryWith hinner ts).bind fun _ _ ⟨hreceiver, htreceiver⟩ =>
    .unlimited fun fuel => meets_moreMembers hinner fuel hreceiver htreceiver

theorem builds_logicalWith (hinner : inner.Builds (IsExpression 0)) :
    (logicalWith inner).Builds (IsExpression 0) :=
  builds_chain (k := 0) (by decide) (builds_chain (k := 1) (by decide)
    (builds_chain (k := 2) (by decide) (builds_chain (k := 3) (by decide)
      (builds_secondaryWith hinner))))

/-- By induction on how deep the parentheses nest. -/
theorem builds_expressionWithin (depth : Nat) :
    (expressionWithin depth).Builds (IsExpression 0) := by
  induction depth with
  | zero => exact fun ts => .throw trivial
  | succ depth ih => exact builds_logicalWith ih

theorem builds_expression : expression.Builds (IsExpression 0) :=
  fun ts => .get (builds_expressionWithin _ ts)

/-! ### Statements -/

/-- An initializer is spelled by an equals sign and an expression, or by nothing. -/
theorem meets_initializer : initializer.Meets ts fun n rest =>
    IsOptionalExpression n ∧ Takes (n.ifPresent (.ofText "=" :: n.symbols)) ts rest := by
  refine .ifAccept (fun m hequals => ?_) fun _ => .pure ⟨.inl rfl, .nil⟩
  refine (builds_expression m).mono fun e rest ⟨he, hte⟩ => ⟨.inr he, ?_⟩
  rw [he.ifPresent]
  exact hequals.append hte

/-- A rule builds statements: which words they do not start with is known from the
    next token. -/
def BuildsStatements (p : Parser Node) : Prop :=
  ∀ words ts, (∀ w ∈ words, nextText? ts ≠ some w) →
    p.Meets ts fun s rest => IsStatement words s ∧ Takes s.symbols ts rest

/-- The statements of a block start with none of the words that end it, as each of them is preceded
    by a look for these. -/
theorem meets_blockWith (hinner : inner.BuildsStatements) (words : List String) :
    (blockWith inner words).Meets ts fun ss rest =>
      (∀ s ∈ ss, IsStatement words s) ∧ Takes (eachSymbols ss).flatten ts rest := by
  have huntil : ∀ fuel ts, (statementsUntil words inner fuel).Meets ts fun ss rest =>
      (∀ s ∈ ss, IsStatement words s) ∧ Takes (eachSymbols ss).flatten ts rest := by
    intro fuel
    induction fuel with
    | zero => exact fun ts => .throw trivial
    | succ fuel ih =>
      refine fun ts => .ifNextIsAny (fun _ => .pure ⟨nofun, .nil⟩) fun hwords => ?_
      refine (hinner words ts hwords).bind fun s m ⟨hs, hts⟩ =>
        (ih m).bind fun ss rest ⟨hss, htss⟩ => .pure ⟨?_, hts.append htss⟩
      exact List.forall_mem_cons.2 ⟨hs, hss⟩
  exact .get (huntil _ ts)

theorem meets_declaration {words : List String} : declaration.Meets ts fun s rest =>
    IsStatement words s ∧ Takes s.symbols ts rest := by
  refine meets_expectText.bind fun _ m hlet => ?_
  refine meets_identifier.bind fun name m ⟨hname, htname⟩ => ?_
  refine meets_initializer.bind fun value m ⟨hvalue, htvalue⟩ => ?_
  refine meets_expectText.bind fun _ rest hend => .pure ⟨.declaration hname hvalue, ?_⟩
  exact hlet.append (htname.append (htvalue.append hend))

/-- A choice is spelled with its second branch, even if that is empty. -/
theorem meets_choiceWith (hinner : inner.BuildsStatements) {words : List String} :
    (choiceWith inner).Meets ts fun s rest =>
      IsStatement words s ∧ Takes s.symbols ts rest := by
  refine meets_expectText.bind fun _ m hif => ?_
  refine (builds_expression m).bind fun condition m ⟨hcondition, htcondition⟩ => ?_
  refine meets_expectText.bind fun _ m hdo => ?_
  refine (meets_blockWith hinner _).bind fun thenStatements m ⟨hthen, htthen⟩ => ?_
  -- An `ELSE` without statements is spelled, though it could be left out.
  refine .ifAccept (fun m helse => ?_) fun _ => ?_
  · refine (meets_blockWith hinner _).bind fun elseStatements m ⟨helses, htelses⟩ => ?_
    refine meets_expectText.bind fun _ rest hend => .pure ⟨.choice hcondition hthen helses, ?_⟩
    have helse := helse.optionalIf elseStatements.isEmpty
    exact hif.append (htcondition.append (hdo.append (htthen.append
      (helse.append (htelses.append hend)))))
  · refine meets_expectText.bind fun _ rest hend => .pure ⟨.choice hcondition hthen nofun, ?_⟩
    exact hif.append (htcondition.append (hdo.append (htthen.append (.skip hend))))

/-- What stands before the first semicolon of a loop is spelled like a statement without its own. -/
theorem meets_forInitializer : forInitializer.Meets ts fun n rest =>
    IsForInitializer n ∧ Takes (headSymbols n) ts rest := by
  refine .ifNextIs (fun _ => .pure ⟨.inl rfl, .nil⟩) fun _ => ?_
  refine meets_identifier.bind fun name m ⟨hname, htname⟩ => ?_
  refine meets_expectText.bind fun _ m hequals => ?_
  refine (builds_expression m).bind fun e rest ⟨he, hte⟩ => .pure ⟨.inr ?_, ?_⟩
  · exact ⟨name, e, rfl, hname, he⟩
  · exact htname.append (hequals.append hte)

theorem meets_forIncrement : forIncrement.Meets ts fun n rest =>
    IsForIncrement n ∧ Takes (headSymbols n) ts rest := by
  refine .ifNextIs (fun _ => .pure ⟨.inl rfl, .nil⟩) fun _ => ?_
  refine (builds_expression ts).bind fun receiver m ⟨hreceiver, htreceiver⟩ => ?_
  refine meets_expectText.bind fun _ m hequals => ?_
  refine (builds_expression m).bind fun e rest ⟨he, hte⟩ => .pure ⟨.inr ?_, ?_⟩
  · exact ⟨receiver, e, rfl, hreceiver, he⟩
  · exact htreceiver.append (hequals.append hte)

theorem meets_forLoopWith (hinner : inner.BuildsStatements) {words : List String} :
    (forLoopWith inner).Meets ts fun s rest =>
      IsStatement words s ∧ Takes s.symbols ts rest := by
  refine meets_expectText.bind fun _ m hfor => ?_
  refine meets_expectText.bind fun _ m hopen => ?_
  refine meets_forInitializer.bind fun first m ⟨hfirst, htfirst⟩ => ?_
  refine meets_expectText.bind fun _ m hafter => ?_
  refine (builds_expression m).bind fun condition m ⟨hcondition, htcondition⟩ => ?_
  refine meets_expectText.bind fun _ m hafter' => ?_
  refine meets_forIncrement.bind fun increment m ⟨hincrement, htincrement⟩ => ?_
  refine meets_expectText.bind fun _ m hclose => ?_
  refine (meets_blockWith hinner _).bind fun statements m ⟨hstatements, htstatements⟩ => ?_
  refine meets_expectText.bind fun _ rest hend =>
    .pure ⟨.forLoop hfirst hcondition hincrement hstatements, ?_⟩
  exact hfor.append (hopen.append (htfirst.append (hafter.append (htcondition.append
    (hafter'.append (htincrement.append (hclose.append (htstatements.append hend))))))))

theorem meets_whileLoopWith (hinner : inner.BuildsStatements) {words : List String} :
    (whileLoopWith inner).Meets ts fun s rest =>
      IsStatement words s ∧ Takes s.symbols ts rest := by
  refine meets_expectText.bind fun _ m hwhile => ?_
  refine (builds_expression m).bind fun condition m ⟨hcondition, htcondition⟩ => ?_
  refine meets_expectText.bind fun _ m hdo => ?_
  refine (meets_blockWith hinner _).bind fun statements m ⟨hstatements, htstatements⟩ => ?_
  refine meets_expectText.bind fun _ rest hend => .pure ⟨.whileLoop hcondition hstatements, ?_⟩
  exact hwhile.append (htcondition.append (hdo.append (htstatements.append hend)))

theorem meets_answer {words : List String} : answer.Meets ts fun s rest =>
    IsStatement words s ∧ Takes s.symbols ts rest := by
  refine meets_expectText.bind fun _ m hreturn => ?_
  refine (builds_expression m).bind fun value m ⟨hvalue, htvalue⟩ => ?_
  refine meets_expectText.bind fun _ rest hend => .pure ⟨.answer hvalue, ?_⟩
  exact hreturn.append (htvalue.append hend)

/-- A simple statement is an expression first, and becomes an assignment if an equals sign follows.
    -/
theorem meets_simpleStatement {words : List String}
    (hwords : ∀ w ∈ statementWords ++ words, nextText? ts ≠ some w) :
    simpleStatement.Meets ts fun s rest => IsStatement words s ∧ Takes s.symbols ts rest := by
  refine (builds_expression ts).bind fun e m ⟨he, hte⟩ => ?_
  -- The first symbol of the expression is the text of the first token.
  have hstart : StartsWithout (statementWords ++ words) e := by
    intro w hw hhead
    obtain ⟨ss, hss⟩ := List.head?_eq_some_iff.1 hhead
    rw [hss] at hte
    exact hwords w hw hte.nextText?_eq
  refine .ifAccept (fun m hequals => ?_) fun _ => ?_
  · refine (builds_expression m).bind fun value m ⟨hvalue, htvalue⟩ => ?_
    refine meets_expectText.bind fun _ rest hend => .pure ⟨.assignment he hstart hvalue, ?_⟩
    exact hte.append (hequals.append (htvalue.append hend))
  · refine meets_expectText.bind fun _ rest hend => .pure ⟨.discard he hstart, ?_⟩
    exact hte.append hend

/-- Which statement is taken is told by the first token. -/
theorem buildsStatements_statementWith (hinner : inner.BuildsStatements) :
    (statementWith inner).BuildsStatements := by
  intro words ts hwords
  refine .ifNextIs (fun _ => meets_declaration) fun hlet => ?_
  refine .ifNextIs (fun _ => meets_choiceWith hinner) fun hif => ?_
  refine .ifNextIs (fun _ => meets_forLoopWith hinner) fun hfor => ?_
  refine .ifNextIs (fun _ => meets_whileLoopWith hinner) fun hwhile => ?_
  refine .ifNextIs (fun _ => meets_answer) fun hreturn => meets_simpleStatement ?_
  simp only [statementWords, List.forall_mem_append, List.forall_mem_cons]
  exact ⟨⟨hlet, hif, hfor, hwhile, hreturn, nofun⟩, hwords⟩

/-- By induction on how deep the statements nest. -/
theorem buildsStatements_statementWithin (depth : Nat) :
    (statementWithin depth).BuildsStatements := by
  induction depth with
  | zero => exact fun _ ts _ => .throw trivial
  | succ depth ih => exact buildsStatements_statementWith ih

theorem buildsStatements_statement : statement.BuildsStatements :=
  fun words ts hwords => .get (buildsStatements_statementWithin _ words ts hwords)

/-! ### Programs -/

theorem builds_field : field.Builds IsField := by
  intro ts
  refine meets_expectText.bind fun _ m hlet => meets_accept.bind fun isConstant m' hconst => ?_
  refine meets_identifier.bind fun name m'' ⟨hname, htname⟩ => ?_
  refine meets_initializer.bind fun value n ⟨hvalue, htvalue⟩ => ?_
  refine meets_expectText.bind fun _ rest hend => ?_
  have hrest := htname.append (htvalue.append hend)
  rcases hconst with ⟨rfl, hconst⟩ | ⟨rfl, rfl, hne⟩
  · exact .pure ⟨.field hname (.inl rfl) hvalue, hlet.append (hconst.append hrest)⟩
  · refine .pure ⟨.field hname (.inr ?_) hvalue, hlet.append hrest⟩
    rintro rfl
    exact hne htname.nextText?_eq

theorem builds_method : method.Builds IsMethod := by
  intro ts
  refine meets_expectText.bind fun _ m hdef => ?_
  refine meets_identifier.bind fun name m ⟨hname, htname⟩ => ?_
  refine meets_expectText.bind fun _ m hopen => ?_
  refine (meets_items fun ts => meets_identifier).bind
    fun parameters m ⟨hparameters, htparameters⟩ => ?_
  refine meets_expectText.bind fun _ m hdo => ?_
  refine (meets_blockWith buildsStatements_statement _).bind
    fun statements m ⟨hstatements, htstatements⟩ => ?_
  refine meets_expectText.bind fun _ rest hend => .pure ⟨.method hname hparameters hstatements, ?_⟩
  have := hdef.append (htname.append (hopen.append (htparameters.append (hdo.append
    (htstatements.append hend)))))
  rw [symbols, List.map_map]
  simpa [Function.comp_def] using this

/-- Fields or methods are spelled one after the other. By induction on the fuel. -/
theorem meets_whileNextIs {IsKind : Node → Prop} {rule : Parser Node} {text : String}
    (hrule : rule.Builds IsKind) (fuel : Nat) : (whileNextIs text rule fuel).Meets ts
      fun ns rest => (∀ n ∈ ns, IsKind n) ∧ Takes (eachSymbols ns).flatten ts rest := by
  induction fuel generalizing ts with
  | zero => exact .pure ⟨nofun, .nil⟩
  | succ fuel ih =>
    refine .ifNextIs (fun _ => ?_) fun _ => .pure ⟨nofun, .nil⟩
    refine (hrule ts).bind fun n m ⟨hn, htn⟩ => ih.bind fun ns _ ⟨hns, htns⟩ =>
      .pure ⟨List.forall_mem_cons.2 ⟨hn, hns⟩, htn.append htns⟩

/-- A program takes all tokens. -/
theorem meets_program : program.Meets ts fun n _ => IsProgram n ∧ SpelledBy n.symbols ts := by
  refine (Meets.unlimited (meets_whileNextIs builds_field)).bind
    fun fields m ⟨hfields, htfields⟩ => ?_
  refine (Meets.unlimited (meets_whileNextIs builds_method)).bind
    fun methods m ⟨hmethods, htmethods⟩ => .get ?_
  obtain _ | ⟨t, rest⟩ := m
  · exact .pure ⟨.program hfields hmethods, htfields.append htmethods⟩
  · exact .throw trivial

end Parser

/-- On tokens of their classes, the parser builds programs that all tokens spell, and
    fails only for reasons that the grammar gives. -/
theorem parse_meets {ts : List Token} (hl : AreLexical ts) :
    match parse ts with
    | .ok n => IsProgram n ∧ SpelledBy n.symbols ts
    | .error e => e.cause.IsGrammatical := by
  have h := Parser.meets_program hl
  rw [parse]
  cases hrun : Parser.program.run ts with
  | ok n rest =>
    rw [hrun] at h
    exact h.2
  | error cause rest =>
    rw [hrun] at h
    exact h

end Blockscript
