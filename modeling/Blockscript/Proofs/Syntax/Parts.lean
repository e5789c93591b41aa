import Blockscript.Decimal.Range
import Blockscript.Proofs.Syntax.Program

/-!
# The parts of a tree

What holds of every label and of every literal of a tree is said once for all kinds
of nodes. In the tree of a text all labels are texts, and every literal is denoted by
a token of the text, so that a decimal has no more places than the text has
characters.

* `Node.Forall`: a tree whose labels and literals all have some property;
* `Node.IsProgram.forall`: the labels and literals of a program;
* `forall_of_parse`, `forall_of_parseSource`: the labels and literals of the tree of a text.
-/

namespace Blockscript

open Node

/-- A label that is a text. -/
def Label.IsText (l : Label) : Prop :=
  ∃ s, l = .text s

namespace Node

/-- All labels of a tree have a property, and all literals have one. -/
inductive Forall (L : Label → Prop) (P : Label → Payload → Prop) : Node → Prop
  | absent : Forall L P .absent
  | program {fields methods : List Node} : (∀ n ∈ fields, Forall L P n) →
      (∀ n ∈ methods, Forall L P n) → Forall L P (.program fields methods)
  | field {name : Label} {isConstant : Bool} {initializer : Node} : L name →
      Forall L P initializer → Forall L P (.field name isConstant initializer)
  | method {name : Label} {parameters : List Label} {statements : List Node} : L name →
      (∀ p ∈ parameters, L p) → (∀ n ∈ statements, Forall L P n) →
      Forall L P (.method name parameters statements)
  | discard {expression : Node} : Forall L P expression → Forall L P (.discard expression)
  | declaration {name : Label} {initializer : Node} : L name → Forall L P initializer →
      Forall L P (.declaration name initializer)
  | assignment {receiver value : Node} : Forall L P receiver → Forall L P value →
      Forall L P (.assignment receiver value)
  | choice {condition : Node} {thenStatements elseStatements : List Node} :
      Forall L P condition → (∀ n ∈ thenStatements, Forall L P n) →
      (∀ n ∈ elseStatements, Forall L P n) →
      Forall L P (.choice condition thenStatements elseStatements)
  | forLoop {initializer condition increment : Node} {statements : List Node} :
      Forall L P initializer → Forall L P condition → Forall L P increment →
      (∀ n ∈ statements, Forall L P n) →
      Forall L P (.forLoop initializer condition increment statements)
  | whileLoop {condition : Node} {statements : List Node} : Forall L P condition →
      (∀ n ∈ statements, Forall L P n) → Forall L P (.whileLoop condition statements)
  | answer {value : Node} : Forall L P value → Forall L P (.answer value)
  | literal {tag : Label} {payload : Payload} : P tag payload → Forall L P (.literal tag payload)
  | group {expression : Node} : Forall L P expression → Forall L P (.group expression)
  | binary {operator : Label} {left right : Node} : L operator → Forall L P left →
      Forall L P right → Forall L P (.binary operator left right)
  | access {receiver : Node} {name : Label} : Forall L P receiver → L name →
      Forall L P (.access receiver name)
  | call {receiver : Node} {name : Label} {arguments : List Node} : Forall L P receiver →
      L name → (∀ n ∈ arguments, Forall L P n) → Forall L P (.call receiver name arguments)

variable {L L' : Label → Prop} {P P' : Label → Payload → Prop} {n : Node}

/-- What holds of all parts of a node implies what is weaker. -/
theorem Forall.mono (h : n.Forall L P) (hL : ∀ l, L l → L' l)
    (hP : ∀ tag payload, P tag payload → P' tag payload) : n.Forall L' P' := by
  induction h with
  | absent => exact .absent
  | program _ _ ihf ihm => exact .program ihf ihm
  | field h _ ih => exact .field (hL _ h) ih
  | method h hp _ ih => exact .method (hL _ h) (fun p hmem => hL p (hp p hmem)) ih
  | discard _ ih => exact .discard ih
  | declaration h _ ih => exact .declaration (hL _ h) ih
  | assignment _ _ ihr ihv => exact .assignment ihr ihv
  | choice _ _ _ ihc iht ihe => exact .choice ihc iht ihe
  | forLoop _ _ _ _ ihi ihc ihu ihs => exact .forLoop ihi ihc ihu ihs
  | whileLoop _ _ ihc ihs => exact .whileLoop ihc ihs
  | answer _ ih => exact .answer ih
  | literal h => exact .literal (hP _ _ h)
  | group _ ih => exact .group ih
  | binary h _ _ ihl ihr => exact .binary (hL _ h) ihl ihr
  | access _ h ih => exact .access ih (hL _ h)
  | call _ h _ ihr iha => exact .call ihr (hL _ h) iha

/-! ### Programs -/

/-- A literal of some symbols holds what its tag says. -/
def IsLiteralOf (ss : List Symbol) (tag : Label) (payload : Payload) : Prop :=
  IsLiteral (.literal tag payload) ∧ .literal tag payload ∈ ss

/-- The literals of a part are among those of the whole. -/
theorem Forall.of_subset {ss ss' : List Symbol} (h : n.Forall L (IsLiteralOf ss)) (hss : ss ⊆ ss') :
    n.Forall L (IsLiteralOf ss') :=
  h.mono (fun _ hl => hl) fun _ _ hp => ⟨hp.1, hss hp.2⟩

/-- The symbols of a node of a list are among those of the list. -/
theorem subset_flatten {ns : List Node} (hn : n ∈ ns) : n.symbols ⊆ (eachSymbols ns).flatten := by
  intro s hs
  rw [eachSymbols_eq_map]
  exact List.mem_flatten_of_mem (List.mem_map_of_mem hn) hs

theorem subset_separated {ns : List Node} (hn : n ∈ ns) :
    n.symbols ⊆ Symbol.separated (eachSymbols ns) := by
  intro s hs
  obtain _ | ⟨first, rest⟩ := ns
  · cases hn
  · rw [eachSymbols, Symbol.separated, eachSymbols_eq_map, List.mem_append, List.mem_flatMap]
    rcases List.mem_cons.1 hn with rfl | hn
    · exact .inl hs
    · exact .inr ⟨n.symbols, List.mem_map_of_mem hn, List.mem_cons_of_mem _ hs⟩

/-- A tree is among the symbols that it brings with it. -/
theorem subset_ifPresent (s : Symbol) : n.symbols ⊆ n.ifPresent (s :: n.symbols) := by
  cases n with
  | absent => exact List.nil_subset _
  | _ => exact List.subset_cons_self _ _

/-- The labels of an expression are texts, and its literals are among its symbols. -/
theorem IsExpression.forall {k : Nat} (h : IsExpression k n) :
    n.Forall Label.IsText (IsLiteralOf n.symbols) := by
  -- By induction on the expression: a literal is its own symbol, and the symbols of the operands
  -- are symbols of the whole.
  induction h with
  | @literal n hn =>
    have hsymbols : ∃ tag payload, n = .literal tag payload := by
      cases hn <;> exact ⟨_, _, rfl⟩
    obtain ⟨tag, payload, rfl⟩ := hsymbols
    exact .literal ⟨hn, List.mem_singleton_self _⟩
  | group _ ih => exact .group (ih.of_subset (by simp [symbols]))
  | name _ => exact .access .absent ⟨_, rfl⟩
  | function _ _ ih =>
    refine .call .absent ⟨_, rfl⟩ fun a ha => (ih a ha).of_subset ?_
    exact List.Subset.trans (subset_separated ha) fun s hs => by simp [symbols, hs]
  | access hreceiver _ ih =>
    refine .access (ih.of_subset ?_) ⟨_, rfl⟩
    simp [symbols, hreceiver.ifPresent]
  | call hreceiver _ _ ih iha =>
    refine .call (ih.of_subset ?_) ⟨_, rfl⟩ fun a ha => (iha a ha).of_subset ?_
    · simp [symbols, hreceiver.ifPresent]
    · exact List.Subset.trans (subset_separated ha) fun s hs => by simp [symbols, hs]
  | binary _ _ _ ihl ihr =>
    exact .binary ⟨_, rfl⟩ (ihl.of_subset (by simp [symbols])) (ihr.of_subset (by simp [symbols]))
  | tighter _ _ ih => exact ih

/-- An initializer is missing, or it is an expression. -/
theorem IsOptionalExpression.forall (h : IsOptionalExpression n) :
    n.Forall Label.IsText (IsLiteralOf n.symbols) := by
  obtain rfl | h := h
  · exact .absent
  · exact h.forall

theorem IsForInitializer.forall (h : IsForInitializer n) :
    n.Forall Label.IsText (IsLiteralOf n.headSymbols) := by
  obtain rfl | ⟨name, e, rfl, _, he⟩ := h
  · exact .absent
  · exact .declaration ⟨_, rfl⟩ (he.forall.of_subset (by simp [headSymbols]))

theorem IsForIncrement.forall (h : IsForIncrement n) :
    n.Forall Label.IsText (IsLiteralOf n.headSymbols) := by
  obtain rfl | ⟨receiver, e, rfl, hr, he⟩ := h
  · exact .absent
  · exact .assignment (hr.forall.of_subset (by simp [headSymbols]))
      (he.forall.of_subset (by simp [headSymbols]))

/-- The names in a statement are texts, and its literals are among its symbols. By induction on the
    statement. -/
theorem IsStatement.forall {words : List String} (h : IsStatement words n) :
    n.Forall Label.IsText (IsLiteralOf n.symbols) := by
  -- The symbols of a part are among those of the whole, so a literal of the part is one of the
  -- whole.
  induction h with
  | discard he _ => exact .discard (he.forall.of_subset (by simp [symbols]))
  | declaration _ he =>
    refine .declaration ⟨_, rfl⟩ (he.forall.of_subset ?_)
    exact List.Subset.trans (subset_ifPresent (.ofText "=")) fun s hs => by simp [symbols, hs]
  | assignment hr _ hv =>
    exact .assignment (hr.forall.of_subset (by simp [symbols]))
      (hv.forall.of_subset fun s hs => by simp [symbols, hs])
  | choice hc _ _ iht ihe =>
    refine .choice (hc.forall.of_subset ?_) (fun s hs => (iht s hs).of_subset ?_)
      fun s hs => (ihe s hs).of_subset ?_
    · simp [symbols]
    · exact List.Subset.trans (subset_flatten hs) fun s hs => by simp [symbols, hs]
    · exact List.Subset.trans (subset_flatten hs) fun s hs => by simp [symbols, hs]
  | forLoop hi hc hu _ ih =>
    refine .forLoop (hi.forall.of_subset ?_) (hc.forall.of_subset ?_) (hu.forall.of_subset ?_)
      fun s hs => (ih s hs).of_subset ?_
    · exact fun s hs => by simp [symbols, hs]
    · exact fun s hs => by simp [symbols, hs]
    · exact fun s hs => by simp [symbols, hs]
    · exact List.Subset.trans (subset_flatten hs) fun s hs => by simp [symbols, hs]
  | whileLoop hc _ ih =>
    refine .whileLoop (hc.forall.of_subset ?_) fun s hs => (ih s hs).of_subset ?_
    · simp [symbols]
    · exact List.Subset.trans (subset_flatten hs) fun s hs => by simp [symbols, hs]
  | answer hv => exact .answer (hv.forall.of_subset (by simp [symbols]))

/-- A field consists of a name and an initializer. -/
theorem IsField.forall (h : IsField n) : n.Forall Label.IsText (IsLiteralOf n.symbols) := by
  obtain ⟨_, _, he⟩ := h
  refine .field ⟨_, rfl⟩ (he.forall.of_subset ?_)
  exact List.Subset.trans (subset_ifPresent (.ofText "=")) fun s hs => by simp [symbols, hs]

/-- A method consists of names and statements. -/
theorem IsMethod.forall (h : IsMethod n) : n.Forall Label.IsText (IsLiteralOf n.symbols) := by
  obtain ⟨_, _, hs⟩ := h
  refine .method ⟨_, rfl⟩ ?_ fun s hmem => (hs s hmem).forall.of_subset ?_
  · intro p hp
    obtain ⟨s, _, rfl⟩ := List.mem_map.1 hp
    exact ⟨s, rfl⟩
  · exact List.Subset.trans (subset_flatten hmem) fun s hs => by simp [symbols, hs]

/-- The labels of a program are texts, and its literals are among its symbols. -/
theorem IsProgram.forall (h : IsProgram n) : n.Forall Label.IsText (IsLiteralOf n.symbols) := by
  obtain ⟨hf, hm⟩ := h
  refine .program (fun f hmem => (hf f hmem).forall.of_subset ?_)
    fun m hmem => (hm m hmem).forall.of_subset ?_
  · exact List.Subset.trans (subset_flatten hmem) fun s hs => by simp [symbols, hs]
  · exact List.Subset.trans (subset_flatten hmem) fun s hs => by simp [symbols, hs]

end Node

/-! ### Tokens of literals -/

/-- Every literal among some symbols has a token. -/
theorem Takes.exists_denotes {ss : List Symbol} {ts rest : List Token} {tag : Label}
    {payload : Payload} (h : Takes ss ts rest) (hmem : .literal tag payload ∈ ss) :
    ∃ t ∈ ts, t.Denotes tag payload := by
  induction h with
  | nil => cases hmem
  | @cons t _ _ _ _ ht _ ih =>
    rcases List.mem_cons.1 hmem with rfl | hmem
    · cases ht with
      | literal hd => exact ⟨t, List.mem_cons_self, hd⟩
    · obtain ⟨u, hu, hd⟩ := ih hmem
      exact ⟨u, List.mem_cons_of_mem t hu, hd⟩
  | skip _ ih =>
    rcases List.mem_cons.1 hmem with heq | hmem
    · cases heq
    · exact ih hmem

/-- A token is no longer than the text that it is in. -/
theorem Lexer.Splits.length_le {n : Nat} {s : List Char} {ts : List Token} (h : Splits n s ts) :
    ∀ t ∈ ts, t.text.length ≤ s.length := by
  induction h with
  | blanks _ => exact nofun
  | token _ _ _ _ _ ih =>
    simp only [List.length_append, String.length_toList]
    intro u hu
    rcases List.mem_cons.1 hu with rfl | hu
    · omega
    · have := ih u hu
      omega

/-- A decimal that a token denotes has as many places as its digits after the point. -/
theorem Token.Denotes.exponent_ge {t : Token} {tag : Label} {d : Decimal}
    (h : t.Denotes tag (.decimal d)) : -(t.text.length : Int) ≤ d.exponent := by
  cases h with
  | decimal _ heq _ _ _ =>
    have := congrArg List.length heq
    simp only [List.length_append, List.length_cons, String.length_toList] at this
    rw [decimalOf]
    simp only
    omega

/-- What a literal of a text of a given length holds: what its tag says, and no
    decimal with more places than the text has characters. -/
def Node.IsLiteralWithin (length : Nat) (tag : Label) (payload : Payload) : Prop :=
  IsLiteral (.literal tag payload) ∧
    ∀ d, payload = .decimal d → -(length : Int) ≤ d.exponent

/-- A literal that one of some tokens denotes. -/
def Node.IsDenotedBy (tokens : List Token) (tag : Label) (payload : Payload) : Prop :=
  IsLiteral (.literal tag payload) ∧ ∃ t ∈ tokens, t.Denotes tag payload

/-- The labels of a tree that comes from a text are texts, and its literals stand in it. -/
theorem forall_of_parse {source : String} {tokens : List Token} {n : Node}
    (hlex : lex source = .ok tokens) (hparse : parse tokens = .ok n) :
    n.Forall Label.IsText (IsDenotedBy tokens) := by
  obtain ⟨hn, ht⟩ := (parse_lex_eq_ok_iff hlex).1 hparse
  exact hn.forall.mono (fun _ hl => hl) fun tag payload hp => ⟨hp.1, ht.exists_denotes hp.2⟩

/-- The labels of a tree that comes from a text are texts, and its literals are no
    finer than the text is long. -/
theorem forall_of_parseSource {source : String} {n : Node} (h : parseSource source = .ok n) :
    n.Forall Label.IsText (IsLiteralWithin source.length) := by
  obtain ⟨tokens, hlex, hparse⟩ := exists_lex_of_parseSource h
  refine (forall_of_parse hlex hparse).mono (fun _ hl => hl) fun tag payload hp => ⟨hp.1, ?_⟩
  rintro d rfl
  obtain ⟨-, t, htmem, hd⟩ := hp
  have hlen := (Lexer.tokensFrom_eq_ok_iff.1 hlex).length_le t htmem
  have hplaces := hd.exponent_ge
  rw [String.length_toList] at hlen
  omega

end Blockscript
