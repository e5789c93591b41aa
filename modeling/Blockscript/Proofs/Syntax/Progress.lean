import Blockscript.Proofs.Syntax.Locality
import Blockscript.Proofs.Syntax.Program
import Blockscript.Syntax.TokenCursor

/-!
# Rules that call each other

The rules of the grammar contain each other, and a loop contains itself for the rounds that
are left. Here they are taken as they are, without fuel: a *rule* is a name, and its body
calls other rules by their names. Bodies have no loops of their own, so that a rule ends if
its calls do not nest without bound. And they do not: calls that are made before a token is
taken go down a ladder, from a block to a statement, to an expression and its steps; and
wherever a rule comes back to a higher rung, it has taken a token.

* `Parser.Rule`: the names of the rules and of their loops, with what they give;
* `Rule.body`: what a rule does, if it is known what the rules that it calls do;
* `Rule.within`: a rule whose calls nest up to a given depth;
* `agrees_body`: a body does what the parser does, if the calls do that are lower on the
  ladder or have fewer tokens;
* `agrees_within`: so does a rule whose calls may nest deep enough, whatever is beyond;
* `rule_ends`: from every place, every rule ends, and moves the cursor forward.
-/

namespace Blockscript

open Text Token Node

/-- A rule moves the cursor to a place, before the tokens that it has not taken. -/
def TokenCursor.Moves {α : Type} (c : TokenCursor) (p : Parser α)
    (outcome : Except ParseError α) (next : Nat) : Prop :=
  c.run p = (outcome, ⟨c.tokens, next⟩) ∧
    Parser.remaining (p.run c.ahead) = c.tokens.drop next

namespace Parser

/-! ### Rules and their bodies -/

/-- The steps of the ladder that have operators. -/
inductive Rung where
  | logical
  | comparison
  | additive
  | multiplicative

/-- The operators of a step. -/
def Rung.operators : Rung → List String
  | .logical => logicalOperators
  | .comparison => comparisonOperators
  | .additive => additiveOperators
  | .multiplicative => multiplicativeOperators

/-- The rules that call each other, by what they give. Loops are among them, as rules that
    call themselves: `fields`, `methods` and `block`, and those that go on after a first
    item (`moreParameters`, `moreArguments`), operand (`operands`) or receiver (`members`). -/
inductive Rule : Type → Type
  | program : Rule Node
  | fields : Rule (List Node)
  | methods : Rule (List Node)
  | field : Rule Node
  | method : Rule Node
  | parameters : Rule (List String)
  | moreParameters : Rule (List String)
  | block (terminators : List String) : Rule (List Node)
  | statement : Rule Node
  | declaration : Rule Node
  | choice : Rule Node
  | forLoop : Rule Node
  | whileLoop : Rule Node
  | answer : Rule Node
  | expression : Rule Node
  | rung (r : Rung) : Rule Node
  | operands (r : Rung) (left : Node) : Rule Node
  | secondary : Rule Node
  | members (receiver : Node) : Rule Node
  | primary : Rule Node
  | arguments : Rule (List Node)
  | moreArguments : Rule (List Node)

/-- The rule of the operands of a step: the next step. -/
def Rung.operand : Rung → Rule Node
  | .logical => .rung .comparison
  | .comparison => .rung .additive
  | .additive => .rung .multiplicative
  | .multiplicative => .secondary

/-- The parser of the operands of a step. -/
def Rung.operandParser : Rung → Parser Node
  | .logical => Parser.comparison
  | .comparison => Parser.additive
  | .additive => Parser.multiplicative
  | .multiplicative => Parser.secondary

/-- The parser of a rule. -/
def Rule.parser {α : Type} : Rule α → Parser α
  | .program => Parser.program
  | .fields => unlimited (whileNextIs "LET" Parser.field)
  | .methods => unlimited (whileNextIs "DEF" Parser.method)
  | .field => Parser.field
  | .method => Parser.method
  | .parameters => items identifier
  | .moreParameters => unlimited (moreItems identifier)
  | .block terminators => Parser.block terminators
  | .statement => Parser.statement
  | .declaration => Parser.declaration
  | .choice => Parser.choice
  | .forLoop => Parser.forLoop
  | .whileLoop => Parser.whileLoop
  | .answer => Parser.answer
  | .expression => Parser.expression
  | .rung .logical => Parser.logical
  | .rung .comparison => Parser.comparison
  | .rung .additive => Parser.additive
  | .rung .multiplicative => Parser.multiplicative
  | .operands r left => unlimited (moreOperands r.operators r.operandParser · left)
  | .secondary => Parser.secondary
  | .members receiver => unlimited (moreMembers Parser.expression · receiver)
  | .primary => Parser.primary
  | .arguments => Parser.arguments
  | .moreArguments => unlimited (moreItems Parser.expression)

/-- What a rule does, where `call` is what the rules that it calls do. -/
def Rule.body (call : ∀ {β : Type}, Rule β → Parser β) {α : Type} : Rule α → Parser α
  | .program => programRule (call .fields) (call .methods)
  | .fields => whileRound "LET" (call .field) (call .fields)
  | .methods => whileRound "DEF" (call .method) (call .methods)
  | .field => fieldRule (initializerRule (call .expression))
  | .method => methodRule (call .parameters) (call (.block ["END"]))
  | .parameters => itemsRule identifier (call .moreParameters)
  | .moreParameters => itemRound identifier (call .moreParameters)
  | .block terminators =>
    statementRound terminators (call .statement) (call (.block terminators))
  | .statement => statementRule (call .declaration) (call .choice) (call .forLoop)
      (call .whileLoop) (call .answer) (simpleStatementRule (call .expression))
  | .declaration => declarationRule (initializerRule (call .expression))
  | .choice => choiceRule (call .expression) fun terminators => call (.block terminators)
  | .forLoop => forLoopRule (forInitializerRule (call .expression)) (call .expression)
      (forIncrementRule (call .expression)) (call (.block ["END"]))
  | .whileLoop => whileLoopRule (call .expression) (call (.block ["END"]))
  | .answer => answerRule (call .expression)
  | .expression => call (.rung .logical)
  | .rung r => do
    let left ← call r.operand
    call (.operands r left)
  | .operands r left =>
    operandRound r.operators (call r.operand) (fun left => call (.operands r left)) left
  | .secondary => do
    let receiver ← call .primary
    call (.members receiver)
  | .members receiver =>
    memberRound (call .arguments) (fun receiver => call (.members receiver)) receiver
  | .primary => primaryRule (call .expression) (call .arguments)
  | .arguments => itemsRule (call .expression) (call .moreArguments)
  | .moreArguments => itemRound (call .expression) (call .moreArguments)

/-- A rule whose calls nest less than `depth` deep. A call that is deeper is answered by
    `beyond`; if that fails, then so does the rule, as no rule goes on after a failure. -/
def Rule.within (beyond : ∀ {β : Type}, Rule β → Parser β) :
    (depth : Nat) → {α : Type} → Rule α → Parser α
  | 0, _, rule => beyond rule
  | depth + 1, _, rule => rule.body (within beyond depth)

/-- The rung at which a rule stands, above all rules that it calls before a token is
    taken. -/
def Rule.height {α : Type} : Rule α → Nat
  | .block _ => 9
  | .statement => 8
  | .arguments => 8
  | .expression => 7
  | .rung .logical => 6
  | .rung .comparison => 5
  | .rung .additive => 4
  | .rung .multiplicative => 3
  | .program => 3
  | .fields => 2
  | .methods => 2
  | .parameters => 2
  | .secondary => 2
  | _ => 1

/-- How deep the calls of a rule nest at most, on some number of tokens. -/
def Rule.depth {α : Type} (rule : Rule α) (tokens : Nat) : Nat :=
  rule.height + 9 * tokens

/-- How many tokens a rule takes at least. -/
def Rule.least {α : Type} : Rule α → Nat
  | .program => 0
  | .fields => 0
  | .methods => 0
  | .moreParameters => 0
  | .block _ => 0
  | .operands _ _ => 0
  | .members _ => 0
  | .moreArguments => 0
  | _ => 1

variable {α : Type} {ts : List Token} {w : Nat} {p q : Parser α}

theorem Rung.parser_operand (r : Rung) : r.operand.parser = r.operandParser := by
  cases r <;> rfl

theorem Rung.least_operand (r : Rung) : r.operand.least = 1 := by
  cases r <;> rfl

/-- The operands of a level of operators stand lower, so that the calls down the ladder come to an
    end. -/
theorem Rung.height_operand (r : Rung) : r.operand.height < (Rule.rung r).height := by
  cases r <;> decide

/-- The rule for a level of operators is a chain of operands of the next one. -/
theorem Rule.parser_rung (r : Rung) : (Rule.rung r).parser = chain r.operators r.operandParser := by
  cases r <;> rfl

theorem Rule.height_pos (rule : Rule α) : 0 < rule.height := by
  cases rule with
  | rung r => cases r <;> decide
  | _ => exact Nat.succ_pos _

/-- A block stands highest, at nine: this many calls may nest before a token is taken. -/
theorem Rule.height_le (rule : Rule α) : rule.height ≤ 9 := by
  cases rule with
  | rung r => cases r <;> decide
  | _ => exact Nat.le_of_ble_eq_true rfl

/-- On fewer tokens, the calls of every rule nest less deep. -/
theorem Rule.depth_lt_of_lt {β : Type} (rule : Rule α) (rule' : Rule β) {n n' : Nat} (h : n' < n) :
    rule'.depth n' < rule.depth n := by
  have hpos := rule.height_pos
  have hle := rule'.height_le
  rw [depth, depth]
  omega

/-! ### Loops and nested rules without fuel -/

/-- Rules that agree on tokens of the same number do the same. -/
theorem AgreesAt.run_eq (h : AgreesAt w 0 p q ts) : q.run ts = p.run ts := by
  obtain ⟨taken, heq, _, hagree⟩ := h
  have hrun := hagree _ rfl (by simp)
  rw [← heq] at hrun
  rw [hrun]
  cases p.run ts <;> rfl

theorem AgreesAt.congr_left {p' : Parser α} (h : AgreesAt w 0 p' q ts)
    (heq : p.run ts = p'.run ts) : AgreesAt w 0 p q ts := by
  rw [AgreesAt, heq]
  exact h

/-- A loop ends by itself: it never uses more rounds than there are tokens. -/
def IsLimited (loop : Nat → Parser α) : Prop :=
  ∀ (ts : List Token) (n : Nat), ts.length ≤ n → (loop n).run ts = (unlimited loop).run ts

/-- A loop that does the same with all fuel that is enough is limited. -/
theorem IsLimited.of_agrees {loop : Nat → Parser α}
    (h : ∀ (ts : List Token) (k k' : Nat), ts.length ≤ k → ts.length + (0 : Int) ≤ k' →
      AgreesAt 0 0 (loop k) (loop k') ts) : IsLimited loop :=
  fun ts n hn => (h ts ts.length n (Nat.le_refl _) (by omega)).run_eq

section Loops

variable {loop : Nat → Parser α} {n : Nat}

/-- What a loop does is told by its first round. -/
theorem IsLimited.agrees (hloop : IsLimited loop) (h : AgreesAt 0 0 (loop (ts.length + 1)) q ts) :
    AgreesAt 0 0 (unlimited loop) q ts :=
  h.congr_left (hloop ts _ (Nat.le_succ _)).symm

/-- There are rounds to spare for the tokens that are left after the first one. -/
theorem IsLimited.later (hloop : IsLimited loop)
    (h : ∀ m : List Token, m.length < n → AgreesAt 0 0 (unlimited loop) q m) (m : List Token)
    (hm : m.length < n) : AgreesAt 0 0 (loop n) q m :=
  (h m hm).congr_left (hloop m n (Nat.le_of_lt hm))

end Loops

/-- Every further item takes a comma, so that there are no more of them than tokens. -/
theorem isLimited_moreItems {item : Parser α} (hitem : ∀ ts, AgreesAt 0 0 item item ts) :
    IsLimited (moreItems item) :=
  .of_agrees fun ts _ _ => agrees_moreItems (fun m _ => hitem m) (Nat.le_refl ts.length)

/-- Every field or method takes its first word. -/
theorem isLimited_whileNextIs (text : String) {rule : Parser Node}
    (hrule : ∀ {ts}, AgreesAt 1 0 rule rule ts) : IsLimited (whileNextIs text rule) :=
  .of_agrees fun _ _ _ => agrees_whileNextIs hrule

/-- Every statement of a block takes a token. -/
theorem isLimited_statementsUntil (terminators : List String) :
    IsLimited fun n => statementsUntil terminators statement (n + 1) :=
  .of_agrees fun ts _ _ hk hk' => agrees_statementsUntil (fun _ _ => agrees_statement)
    (Nat.le_refl ts.length) (by omega) (by omega)

theorem isLimited_moreMembers (receiver : Node) :
    IsLimited (moreMembers expression · receiver) :=
  .of_agrees fun ts _ _ => agrees_moreMembers (fun _ _ => agrees_expression.weaken)
    (Nat.le_refl ts.length)

/-- The operands of a level of operators look at one token after them. -/
theorem agrees_operandParser (r : Rung) : AgreesAt 1 0 r.operandParser r.operandParser ts := by
  have hsecondary : ∀ ts, AgreesAt 1 0 secondary secondary ts :=
    fun _ => agrees_secondaryWith fun _ _ => agrees_expression.weaken
  have hmultiplicative : ∀ ts, AgreesAt 1 0 multiplicative multiplicative ts :=
    fun _ => agrees_chain fun m _ => hsecondary m
  have hadditive : ∀ ts, AgreesAt 1 0 additive additive ts :=
    fun _ => agrees_chain fun m _ => hmultiplicative m
  cases r with
  | logical => exact agrees_chain fun m _ => hadditive m
  | comparison => exact hadditive ts
  | additive => exact hmultiplicative ts
  | multiplicative => exact hsecondary ts

theorem isLimited_moreOperands (r : Rung) (left : Node) :
    IsLimited (moreOperands r.operators r.operandParser · left) :=
  .of_agrees fun ts _ _ => agrees_moreOperands (fun _ _ => (agrees_operandParser r).weaken)
    (Nat.le_refl ts.length)

/-- A rule with depth to spare does what it does with as much as there are tokens. -/
theorem agrees_unbounded_right {rule : Nat → Parser α} {n : Nat} (hn : ts.length < n)
    (h : ∀ n n' : Nat, ts.length < n → ts.length + (0 : Int) < n' →
      AgreesAt w 0 (rule n) (rule n') ts) : AgreesAt w 0 (rule n) (unbounded rule) ts :=
  AgreesAt.fuel (g := fun _ => rule n) fun us hus => h n (us.length + 1) hn (by omega)

/-- An expression is a chain of the loosest operators, whatever depth it is given. -/
theorem run_expression_eq (ts : List Token) : expression.run ts = logical.run ts := by
  have h : AgreesAt 1 0 (logicalWith (expressionWithin ts.length)) logical ts :=
    agrees_logicalWith fun m hm =>
      (agrees_unbounded_right hm fun _ _ => agrees_expressionWithin).weaken
  rw [h.run_eq, expression, unbounded, run_bind_of_ok (run_get ts), expressionWithin]

/-- A statement is parsed as one whose parts are statements, whatever depth it is given. -/
theorem run_statement_eq (ts : List Token) :
    statement.run ts = (statementWith statement).run ts := by
  have h : AgreesAt 1 0 (statementWith (statementWithin ts.length)) (statementWith statement) ts :=
    agrees_statementWith fun m hm => agrees_unbounded_right hm fun _ _ => agrees_statementWithin
  rw [h.run_eq, statement, unbounded, run_bind_of_ok (run_get ts), statementWithin]

/-! ### Calls come to an end -/

section Body

variable {call : ∀ {β : Type}, Rule β → Parser β}

/-- A body does what the parser of the rule does, if the calls do so that are made lower
    on the ladder or on fewer tokens. -/
theorem agrees_body (rule : Rule α)
    (hcall : ∀ {β : Type} (r : Rule β) (m : List Token), r.depth m.length < rule.depth ts.length →
      AgreesAt r.least 0 r.parser (call r) m) :
    AgreesAt rule.least 0 rule.parser (rule.body call) ts := by
  -- A call is made lower on the ladder, or later, when a token has been taken.
  have hlower : ∀ {β : Type} (r : Rule β) (m : List Token), r.height < rule.height →
      m.length ≤ ts.length → AgreesAt r.least 0 r.parser (call r) m := fun r m hr hm =>
    hcall r m (Nat.add_lt_add_of_lt_of_le hr (Nat.mul_le_mul_left 9 hm))
  have hstart : ∀ {β : Type} (r : Rule β), r.height < rule.height →
      AgreesAt r.least 0 r.parser (call r) ts := fun r hr => hlower r ts hr (Nat.le_refl _)
  have hlater : ∀ {β : Type} (r : Rule β) (m : List Token), m.length < ts.length →
      AgreesAt r.least 0 r.parser (call r) m := fun r m hm =>
    hcall r m (rule.depth_lt_of_lt r hm)
  have hvalue : ∀ m : List Token, m.length < ts.length →
      AgreesAt 1 0 expression (call .expression) m := hlater .expression
  have hblock : ∀ (words : List String) (m : List Token), m.length < ts.length →
      AgreesAt 0 0 (block words) (call (.block words)) m := fun words => hlater (.block words)
  cases rule with
  | program =>
    exact agrees_programRule (hstart .fields (by decide)) fun m hm =>
      hlower .methods m (by decide) hm
  | fields =>
    have hloop := isLimited_whileNextIs "LET" agrees_field
    exact hloop.agrees (agrees_whileRound (hstart .field (by decide))
      (hloop.later (hlater .fields)))
  | methods =>
    have hloop := isLimited_whileNextIs "DEF" agrees_method
    exact hloop.agrees (agrees_whileRound (hstart .method (by decide))
      (hloop.later (hlater .methods)))
  | field =>
    exact agrees_fieldRule fun m hm =>
      agrees_initializerRule fun m' hm' => hvalue m' (Nat.lt_trans hm' hm)
  | method =>
    exact agrees_methodRule (fun m hm => (hlater .parameters m hm).weaken) (hblock ["END"])
  | parameters =>
    exact agrees_itemsRule (fun _ _ => agrees_identifier.weaken) fun m hm =>
      hlower .moreParameters m (by decide) hm
  | moreParameters =>
    have hloop := isLimited_moreItems fun ts => agrees_identifier.weaken
    exact hloop.agrees (agrees_itemRound (fun _ _ => agrees_identifier.weaken)
      (hloop.later (hlater .moreParameters)))
  | block words =>
    have hloop := isLimited_statementsUntil words
    exact hloop.agrees (agrees_statementRound (hstart .statement (Nat.lt_succ_self 8))
      (hloop.later (hblock words)))
  | statement =>
    -- The statements inside are parsed with depth of their own, not with what is left.
    refine AgreesAt.congr_left ?_ (run_statement_eq ts)
    refine agrees_statementRule (hstart .declaration ?_) (hstart .choice ?_) (hstart .forLoop ?_)
      (hstart .whileLoop ?_) (hstart .answer ?_)
      (agrees_simpleStatementRule (hlower .expression · ?_))
    all_goals decide
  | declaration =>
    exact agrees_declarationRule fun m hm =>
      agrees_initializerRule fun m' hm' => hvalue m' (Nat.lt_trans hm' hm)
  | choice => exact agrees_choiceRule hvalue hblock
  | forLoop =>
    exact agrees_forLoopRule hvalue
      (fun m hm => agrees_forInitializerRule fun m' hm' => hvalue m' (Nat.lt_of_le_of_lt hm' hm))
      (fun m hm => agrees_forIncrementRule fun m' hm' => hvalue m' (Nat.lt_of_le_of_lt hm' hm))
      (hblock ["END"])
  | whileLoop => exact agrees_whileLoopRule hvalue (hblock ["END"])
  | answer => exact agrees_answerRule hvalue
  | expression =>
    exact (hstart (.rung .logical) (by decide)).congr_left (run_expression_eq ts)
  | rung r =>
    have hoperand := hstart r.operand r.height_operand
    rw [r.parser_operand, r.least_operand] at hoperand
    rw [Rule.parser_rung]
    exact hoperand.bindTaking fun left m hm => hlater (.operands r left) m hm
  | operands r left =>
    have hloop := isLimited_moreOperands r
    refine (hloop left).agrees (agrees_operandRound (fun m hm => ?_) fun n =>
      (hloop n).later (hlater (.operands r n)))
    have hoperand := hlater r.operand m hm
    rw [r.parser_operand] at hoperand
    exact hoperand.weaken
  | secondary =>
    exact (hstart .primary (by decide)).bindTaking fun receiver m hm =>
      hlater (.members receiver) m hm
  | members receiver =>
    have hloop := isLimited_moreMembers
    exact (hloop receiver).agrees (agrees_memberRound (fun m hm => (hlater .arguments m hm).weaken)
      fun n => (hloop n).later (hlater (.members n)))
  | primary =>
    exact agrees_primaryRule (fun m hm => (hvalue m hm).weaken) fun m hm =>
      (hlater .arguments m hm).weaken
  | arguments =>
    exact agrees_itemsRule (fun m hm => (hlower .expression m (by decide) hm).weaken) fun m hm =>
      hlower .moreArguments m (by decide) hm
  | moreArguments =>
    have hloop := isLimited_moreItems fun ts => agrees_expression.weaken
    exact hloop.agrees (agrees_itemRound (fun m hm => (hvalue m hm).weaken)
      (hloop.later (hlater .moreArguments)))

end Body

/-- A rule whose calls may nest deep enough does what the parser does, so that no call is
    answered by `beyond`. -/
theorem agrees_within (beyond : ∀ {β : Type}, Rule β → Parser β) {depth : Nat} (rule : Rule α)
    (h : rule.depth ts.length ≤ depth) :
    AgreesAt rule.least 0 rule.parser (rule.within beyond depth) ts := by
  -- Every call is of another rule on other tokens, for which one level less is enough.
  induction depth generalizing α ts with
  | zero =>
    have hpos := rule.height_pos
    rw [Rule.depth] at h
    omega
  | succ depth ih =>
    exact agrees_body rule fun r m hm => ih r (Nat.le_of_lt_succ (Nat.lt_of_lt_of_le hm h))

/-! ### Failures -/

/-- On tokens of their classes, a rule fails only for reasons that the grammar gives. -/
def FailsGrammatically (p : Parser α) : Prop :=
  ∀ ts, p.Meets ts fun _ _ => True

theorem Meets.anyResult {P : α → List Token → Prop} (h : p.Meets ts P) :
    p.Meets ts fun _ _ => True :=
  h.mono fun _ _ _ => trivial

/-- A chain of operators fails only where one of its operands does. -/
theorem failsGrammatically_moreOperands {operators : List String} {operand : Parser Node}
    (hoperand : operand.FailsGrammatically) (fuel : Nat) (left : Node) :
    (moreOperands operators operand fuel left).FailsGrammatically := by
  induction fuel generalizing left with
  | zero => exact fun ts => .pure trivial
  | succ fuel ih =>
    refine fun ts => .get ?_
    obtain _ | ⟨t, rest⟩ := ts
    · exact .pure trivial
    by_cases ht : operators.contains t.text
    · simp only [ht, if_true]
      exact .set ((hoperand rest).bind fun right m _ => ih _ m)
    · simp only [ht]
      exact .pure trivial

theorem failsGrammatically_chain {operators : List String} {operand : Parser Node}
    (hoperand : operand.FailsGrammatically) : (chain operators operand).FailsGrammatically :=
  fun ts => (hoperand ts).bind fun left m _ =>
    .unlimited fun fuel => failsGrammatically_moreOperands hoperand fuel left m

/-- A chain of members fails only for a missing name, or in its arguments. -/
theorem failsGrammatically_moreMembers (fuel : Nat) (receiver : Node) :
    (moreMembers expression fuel receiver).FailsGrammatically := by
  induction fuel generalizing receiver with
  | zero => exact fun ts => .pure trivial
  | succ fuel ih =>
    refine fun ts => .ifAccept (fun m _ => ?_) fun _ => .pure trivial
    refine meets_identifier.bind fun name m _ => .ifAccept (fun m' _ => ?_) fun _ => ih _ m
    exact (meets_items builds_expression).bind fun arguments rest _ => ih _ rest

theorem failsGrammatically_operandParser (r : Rung) : r.operandParser.FailsGrammatically := by
  have hsecondary : secondary.FailsGrammatically :=
    fun ts => (builds_secondaryWith builds_expression ts).anyResult
  cases r with
  | logical =>
    exact failsGrammatically_chain (failsGrammatically_chain (failsGrammatically_chain hsecondary))
  | comparison => exact failsGrammatically_chain (failsGrammatically_chain hsecondary)
  | additive => exact failsGrammatically_chain hsecondary
  | multiplicative => exact hsecondary

/-- The errors of all rules are those of the grammar: no rule fails at a literal that it cannot
    read. -/
theorem Rule.parser_failsGrammatically (rule : Rule α) : rule.parser.FailsGrammatically := by
  intro ts
  -- A rule that builds trees fails grammatically; only the loops of the operators and of the
  -- members, which continue a tree they are given, are shown on their own.
  have hstatement := buildsStatements_statement
  cases rule with
  | program => exact meets_program.anyResult
  | fields => exact (Meets.unlimited (meets_whileNextIs builds_field)).anyResult
  | methods => exact (Meets.unlimited (meets_whileNextIs builds_method)).anyResult
  | field => exact (builds_field ts).anyResult
  | method => exact (builds_method ts).anyResult
  | parameters => exact (meets_items fun _ => meets_identifier).anyResult
  | moreParameters => exact (Meets.unlimited (meets_moreItems fun _ => meets_identifier)).anyResult
  | block words => exact (meets_blockWith hstatement words).anyResult
  | statement => exact (hstatement [] ts nofun).anyResult
  | declaration => exact (@meets_declaration ts []).anyResult
  | choice => exact (@meets_choiceWith ts _ hstatement []).anyResult
  | forLoop => exact (@meets_forLoopWith ts _ hstatement []).anyResult
  | whileLoop => exact (@meets_whileLoopWith ts _ hstatement []).anyResult
  | answer => exact (@meets_answer ts []).anyResult
  | expression => exact (builds_expression ts).anyResult
  | rung r =>
    rw [Rule.parser_rung]
    exact failsGrammatically_chain (failsGrammatically_operandParser r) ts
  | operands r left =>
    exact .unlimited fun fuel =>
      failsGrammatically_moreOperands (failsGrammatically_operandParser r) fuel left ts
  | secondary => exact (builds_secondaryWith builds_expression ts).anyResult
  | members receiver =>
    exact .unlimited fun fuel => failsGrammatically_moreMembers fuel receiver ts
  | primary => exact (builds_primaryWith builds_expression ts).anyResult
  | arguments => exact (meets_items builds_expression).anyResult
  | moreArguments => exact (Meets.unlimited (meets_moreItems builds_expression)).anyResult

/-! ### Places -/

section Places

variable {tokens : List Token} {position next : Nat} {outcome : Except ParseError α}

/-- A rule that leaves the tokens from some place on moves the cursor there. -/
theorem moves_of_remaining (hnext : next ≤ tokens.length)
    (h : remaining (p.run (tokens.drop position)) = tokens.drop next) :
    TokenCursor.Moves ⟨tokens, position⟩ p (TokenCursor.run ⟨tokens, position⟩ p).1 next := by
  refine ⟨?_, h⟩
  have hlength : tokens.length - (remaining (p.run (tokens.drop position))).length = next := by
    rw [h, List.length_drop]
    omega
  rw [TokenCursor.run, TokenCursor.ahead]
  cases hrun : p.run (tokens.drop position) with
  | ok a rest => rw [← hlength, hrun, remaining]
  | error cause rest => rw [← hlength, hrun, remaining]

/-- A move of the cursor depends on nothing but how a rule runs on the tokens after it. -/
theorem moves_congr (h : q.run (tokens.drop position) = p.run (tokens.drop position))
    (hmoves : TokenCursor.Moves ⟨tokens, position⟩ p outcome next) :
    TokenCursor.Moves ⟨tokens, position⟩ q outcome next := by
  rw [TokenCursor.Moves, TokenCursor.run, TokenCursor.ahead, h]
  exact hmoves

/-- The outcome of a move is that of the run. -/
theorem run_eq_of_moves (h : TokenCursor.Moves ⟨tokens, position⟩ p outcome next) :
    p.run (tokens.drop position) = match outcome with
      | .ok a => .ok a (tokens.drop next)
      | .error e => .error e.cause (tokens.drop next) := by
  obtain ⟨hrun, hrest⟩ := h
  rw [TokenCursor.run] at hrun
  rw [TokenCursor.ahead] at hrun hrest
  cases h : p.run (tokens.drop position) with
  | ok a rest =>
    rw [h] at hrun hrest
    obtain rfl := (Prod.mk.inj hrun).1
    exact congrArg _ hrest
  | error cause rest =>
    rw [h] at hrun hrest
    obtain rfl := (Prod.mk.inj hrun).1
    exact congrArg _ hrest

end Places

/-- From every place among some tokens, every rule ends, as its calls nest no deeper than
    the tokens that are left allow: whatever answers the calls beyond, the cursor comes to
    the same place with the same outcome as that of the parser. It does not go back, nor
    past the last token, and if there is a result, it has gone over as many tokens as the
    rule takes at least. On the tokens of a text, a failure is one that the grammar gives a
    reason for. -/
theorem rule_ends {tokens : List Token} {position : Nat} (rule : Rule α)
    (hposition : position ≤ tokens.length) : ∃ outcome next,
      position ≤ next ∧ next ≤ tokens.length ∧
      TokenCursor.Moves ⟨tokens, position⟩ rule.parser outcome next ∧
      (∀ (beyond : ∀ {β : Type}, Rule β → Parser β) (depth : Nat),
        rule.depth (tokens.length - position) ≤ depth →
          TokenCursor.Moves ⟨tokens, position⟩ (rule.within beyond depth) outcome next) ∧
      (∀ a, outcome = .ok a → position + rule.least ≤ next) ∧
      ∀ e source, outcome = .error e → lex source = .ok tokens → e.cause.IsGrammatical := by
  -- The parser may well answer the calls that are not made: this gives the tokens it takes.
  obtain ⟨taken, heq, hleast, _⟩ :=
    agrees_within Rule.parser rule (Nat.le_refl (rule.depth (tokens.drop position).length))
  have hrest : remaining (rule.parser.run (tokens.drop position)) =
      tokens.drop (position + taken.length) := by
    rw [← List.drop_drop, heq, List.drop_left, ← heq]
  have hnext : position + taken.length ≤ tokens.length := by
    have hlength := congrArg List.length heq
    rw [List.length_drop, List.length_append] at hlength
    omega
  have hmoves := moves_of_remaining hnext hrest
  refine ⟨_, _, Nat.le_add_right _ _, hnext, hmoves, fun beyond depth h => ?_, fun a ha => ?_,
    fun e source he hlex => ?_⟩
  · exact moves_congr (agrees_within beyond rule (by rwa [List.length_drop])).run_eq hmoves
  · rw [ha] at hmoves
    exact Nat.add_le_add_left (hleast a _ (run_eq_of_moves hmoves)) position
  · have hl : AreLexical (tokens.drop position) := fun t ht =>
      areLexical_of_lex hlex t (List.mem_of_mem_drop ht)
    have hfails := rule.parser_failsGrammatically _ hl
    rw [he] at hmoves
    rw [run_eq_of_moves hmoves] at hfails
    exact hfails

/-- A block that breaks off among the arguments of a call fails at the end. -/
theorem rule_ends_truncated : ∃ tokens, lex "END RETURN f(1," = .ok tokens ∧ 1 ≤ tokens.length ∧
    ∃ e : ParseError, e.cause.IsGrammatical ∧
      TokenCursor.Moves ⟨tokens, 1⟩ (Rule.block ["END"]).parser (.error e) 6 ∧
      ∀ (beyond : ∀ {β : Type}, Rule β → Parser β) (depth : Nat), 54 ≤ depth →
        TokenCursor.Moves ⟨tokens, 1⟩ ((Rule.block ["END"]).within beyond depth) (.error e) 6 := by
  have hlex : lex "END RETURN f(1," = .ok [⟨.identifier, "END", 0⟩, ⟨.identifier, "RETURN", 4⟩,
      ⟨.identifier, "f", 11⟩, ⟨.operator, "(", 12⟩, ⟨.integer, "1", 13⟩,
      ⟨.operator, ",", 14⟩] := by
    decide +kernel
  have hposition : 1 ≤ 6 := by decide
  have hends := fun tokens (_ : lex "END RETURN f(1," = .ok tokens) =>
    @rule_ends _ tokens 1 (.block ["END"])
  obtain ⟨outcome, next, _, _, hmoves, hwithin, _, hfails⟩ := hends _ hlex hposition
  obtain ⟨houtcome, hcursor⟩ := Prod.mk.inj hmoves.1
  obtain rfl := (TokenCursor.mk.inj hcursor).2
  obtain rfl := houtcome
  exact ⟨_, hlex, hposition, _, hfails _ _ rfl hlex, hmoves, hwithin⟩

end Parser

end Blockscript
