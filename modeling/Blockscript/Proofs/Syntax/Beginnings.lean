import Mathlib
import Blockscript.Proofs.Syntax.Written

/-!
# Beginnings of programs

Where a rule fails, the tokens that it has taken are the *beginning* of something that it
would have taken: they can be completed. A rule made of others stands for the
concatenation of *languages*. If the first of two rules fails, its completion is followed
by any text of the second one; no rule is without one.

* `Begins`: tokens that can be completed to a text of a language;
* `Parser.Recognizes`: a rule takes a text of a language, or the beginning of one;
* `Recognizes.bind`, `Recognizes.ifAccept`, `Recognizes.restrict`: rules made of others;
* `recognizes_expressionWithin`, `recognizesStatements_statementWithin`: expressions and
  statements, by induction on how deep they nest;
* `recognizes_program`: whole programs.
-/

namespace Blockscript

open Text Token Node
open scoped Computability

/-! ### Languages of tokens -/

/-- The tokens that spell things of a kind. -/
def spellingsOf {α : Type} (IsKind : α → Prop) (symbolsOf : α → List Symbol) : Language Token :=
  {ts | ∃ a, IsKind a ∧ SpelledBy (symbolsOf a) ts}

/-- The tokens that spell some symbols. -/
def spellings (ss : List Symbol) : Language Token :=
  {ts | SpelledBy ss ts}

/-- Tokens that do not start with any of some words. -/
def startingWithout (words : List String) : Language Token :=
  {ts | ∀ w ∈ words, nextText? ts ≠ some w}

/-- Tokens of their classes complete others to a text of a language. -/
def Begins (L : Language Token) (taken : List Token) : Prop :=
  ∃ more, AreLexical more ∧ taken ++ more ∈ L

variable {L M R : Language Token} {ts rest : List Token}

/-- What is taken does not depend on the tokens that follow all of them. -/
theorem Takes.append_right {ss : List Symbol} (h : Takes ss ts rest) (us : List Token) :
    Takes ss (ts ++ us) (rest ++ us) := by
  induction h with
  | nil => exact .nil
  | cons ht _ ih => exact .cons ht ih
  | skip _ ih => exact .skip ih

theorem SpelledBy.append {ss ss' : List Symbol} {us : List Token} (h : SpelledBy ss ts)
    (h' : SpelledBy ss' us) : SpelledBy (ss ++ ss') (ts ++ us) :=
  (Takes.append_right h us).append h'

/-- The beginning of a text is one of a text of any larger language. -/
theorem Begins.mono {taken : List Token} (h : Begins L taken) (hle : L ≤ M) :
    Begins M taken := by
  obtain ⟨more, hmore, hmem⟩ := h
  exact ⟨more, hmore, hle hmem⟩

/-- Nothing is the beginning of everything. -/
theorem begins_of_areSpellable {α : Type} {IsKind : α → Prop} {symbolsOf : α → List Symbol} {a : α}
    (ha : IsKind a) (h : Symbol.AreSpellable (symbolsOf a)) :
    Begins (spellingsOf IsKind symbolsOf) [] := by
  obtain ⟨us, hl, hus, _⟩ := Symbol.exists_tokens h
  exact ⟨us, hl, a, ha, hus⟩

/-- A word of the grammar can be written. -/
theorem begins_word {text : String} (h : text ∈ Symbol.grammarWords) :
    Begins (spellings [.ofText text]) [] := by
  obtain ⟨us, hl, hus, _⟩ := Symbol.exists_tokens
    (Symbol.areSpellable_cons.2 ⟨Symbol.isSpellable_of_mem text h, Symbol.areSpellable_nil⟩)
  exact ⟨us, hl, hus⟩

namespace Parser

/-- On tokens of their classes, a rule takes a text of a language, or the beginning of
    one if it fails. -/
def Recognizes {α : Type} (p : Parser α) (L : Language Token) (ts : List Token) : Prop :=
  AreLexical ts → match p.run ts with
    | .ok _ rest => ∃ taken ∈ L, ts = taken ++ rest
    | .error _ rest => ∃ taken, Begins L taken ∧ ts = taken ++ rest

variable {α β : Type} {p q : Parser α} {f : α → Parser β} {text : String} {words : List String}

namespace Recognizes

/-- A rule that takes nothing stands for a language that holds the empty text. -/
theorem pure (a : α) (h : [] ∈ L) : (Pure.pure a : Parser α).Recognizes L ts :=
  fun _ => ⟨[], h, rfl⟩

/-- A rule may fail wherever something of its language can begin. -/
theorem throw (cause : ParseError.Cause) (h : Begins L []) :
    (MonadExcept.throw cause : Parser α).Recognizes L ts :=
  fun _ => ⟨[], h, rfl⟩

theorem mono (hp : p.Recognizes L ts) (h : L ≤ M) : p.Recognizes M ts := by
  intro hl
  have hp := hp hl
  cases hrun : p.run ts with
  | ok a m =>
    rw [hrun] at hp
    obtain ⟨taken, htaken, heq⟩ := hp
    exact ⟨taken, h htaken, heq⟩
  | error cause m =>
    rw [hrun] at hp
    obtain ⟨taken, htaken, heq⟩ := hp
    exact ⟨taken, htaken.mono h, heq⟩

/-- The language of a rule is not empty: without tokens, it takes one or fails at the
    beginning of one. -/
theorem begins (hp : p.Recognizes L []) : Begins L [] := by
  have hp := hp (List.forall_mem_nil _)
  cases hrun : p.run [] with
  | ok a m =>
    rw [hrun] at hp
    obtain ⟨taken, htaken, heq⟩ := hp
    obtain ⟨rfl, rfl⟩ := List.append_eq_nil_iff.1 heq.symm
    exact ⟨[], List.forall_mem_nil _, htaken⟩
  | error cause m =>
    rw [hrun] at hp
    obtain ⟨taken, htaken, heq⟩ := hp
    obtain ⟨rfl, rfl⟩ := List.append_eq_nil_iff.1 heq.symm
    exact htaken

/-- Rules one after the other stand for the concatenation of their languages. If the first one
    fails, its completion is followed by any text of the second one. -/
theorem bind [Inhabited α] (hp : p.Recognizes L ts) (hf : ∀ a m, (f a).Recognizes R m) :
    (p >>= f).Recognizes (L * R) ts := by
  intro hl
  have hp := hp hl
  rw [EStateM.run_bind]
  -- Where the first parser fails, its beginning is completed by any text of the second language.
  cases hrun : p.run ts with
  | error cause m =>
    rw [hrun] at hp
    obtain ⟨taken, ⟨more, hmore, hmem⟩, heq⟩ := hp
    obtain ⟨more', hmore', hmem'⟩ := (hf default []).begins
    refine ⟨taken, ⟨more ++ more', List.forall_mem_append.2 ⟨hmore, hmore'⟩, ?_⟩, heq⟩
    rw [← List.append_assoc]
    exact Language.append_mem_mul hmem hmem'
  | ok a m =>
    rw [hrun] at hp
    obtain ⟨taken, htaken, heq⟩ := hp
    have hf := hf a m fun t ht => hl t (heq ▸ List.mem_append_right taken ht)
    simp only
    cases hrun' : (f a).run m with
    | ok b rest =>
      rw [hrun'] at hf
      obtain ⟨taken', htaken', heq'⟩ := hf
      refine ⟨taken ++ taken', Language.append_mem_mul htaken htaken', ?_⟩
      rw [List.append_assoc, ← heq', heq]
    | error cause rest =>
      rw [hrun'] at hf
      obtain ⟨taken', ⟨more, hmore, hmem⟩, heq'⟩ := hf
      refine ⟨taken ++ taken', ⟨more, hmore, ?_⟩, ?_⟩
      · rw [List.append_assoc]
        exact Language.append_mem_mul htaken hmem
      · rw [List.append_assoc, ← heq', heq]

/-- A result may be made into another. -/
theorem map {g : α → β} (hp : p.Recognizes L ts) :
    (p >>= fun a => Pure.pure (g a)).Recognizes L ts := by
  intro hl
  have hp := hp hl
  rw [EStateM.run_bind]
  cases hrun : p.run ts with
  | ok a m =>
    rw [hrun] at hp
    exact hp
  | error cause m =>
    rw [hrun] at hp
    exact hp

/-- The tokens may be taken to be of their classes. -/
theorem of_areLexical (h : AreLexical ts → p.Recognizes L ts) : p.Recognizes L ts :=
  fun hl => h hl hl

theorem get {f : List Token → Parser α} (h : (f ts).Recognizes L ts) :
    (MonadState.get >>= f).Recognizes L ts :=
  h

/-- The fuel of a loop is the number of tokens, so that the language has to be that of the loop with
    any fuel. -/
theorem unlimited {loop : Nat → Parser α} (h : ∀ fuel, (loop fuel).Recognizes L ts) :
    (Parser.unlimited loop).Recognizes L ts :=
  h ts.length

theorem set {t : Token} (ht : [t] ∈ L) :
    (MonadStateOf.set rest : Parser PUnit).Recognizes L (t :: rest) :=
  fun _ => ⟨[t], ht, rfl⟩

/-! ### Going on as the next token says -/

/-- A token is taken if it is the next one; only otherwise is it known what the next one is not. -/
theorem bindAccept {f : Bool → Parser α} (hyes : ∀ m, (f true).Recognizes R m)
    (hL : spellings [.ofText text] * R ≤ L)
    (hno : nextText? ts ≠ some text → (f false).Recognizes L ts) :
    (accept text >>= f).Recognizes L ts := by
  by_cases h : nextText? ts = some text
  · obtain ⟨t, m, rfl, ht⟩ := nextText?_eq_some_iff.1 h
    have hset : (accept text >>= f).run (t :: m) =
        (MonadStateOf.set m >>= fun _ => f true : Parser α).run (t :: m) :=
      run_bind_of_ok (run_accept_of_eq ht)
    rw [Recognizes, hset]
    exact ((Recognizes.set (.cons (.word ht) .nil)).bind fun _ => hyes).mono hL
  · have hskip := run_bind_of_ok (f := f) (run_accept_of_ne h)
    rw [Recognizes, hskip]
    exact hno h

/-- A choice by whether the next token is a given one, which is taken in the first case. -/
theorem ifAccept (hyes : ∀ m, p.Recognizes R m)
    (hL : spellings [.ofText text] * R ≤ L)
    (hno : nextText? ts ≠ some text → q.Recognizes L ts) :
    (accept text >>= fun b => if b = true then p else q).Recognizes L ts :=
  .bindAccept hyes hL hno

/-- A choice by whether the next token is a given one, which stays in either case. -/
theorem ifNextIs (hyes : p.Recognizes L ts)
    (hno : nextText? ts ≠ some text → q.Recognizes L ts) :
    (nextIs text >>= fun b => if b = true then p else q).Recognizes L ts := by
  by_cases h : nextText? ts = some text
  · rw [Recognizes, run_ifNextIs_of_eq h]
    exact hyes
  · rw [Recognizes, run_ifNextIs_of_ne h]
    exact hno h

theorem ifNextIsAny (hyes : p.Recognizes L ts)
    (hno : (∀ w ∈ words, nextText? ts ≠ some w) → q.Recognizes L ts) :
    (nextIsAny words >>= fun b => if b = true then p else q).Recognizes L ts := by
  by_cases h : ∃ w ∈ words, nextText? ts = some w
  · rw [Recognizes, run_ifNextIsAny_of_eq h]
    exact hyes
  · have h : ∀ w ∈ words, nextText? ts ≠ some w := fun w hw heq => h ⟨w, hw, heq⟩
    rw [Recognizes, run_ifNextIsAny_of_ne h]
    exact hno h

/-- What is taken starts as all tokens do. If nothing is taken, then any text of the
    language will do. -/
theorem restrict (hp : p.Recognizes L ts) (hL : Begins (L ⊓ startingWithout words) [])
    (h : ∀ w ∈ words, nextText? ts ≠ some w) :
    p.Recognizes (L ⊓ startingWithout words) ts := by
  have hstart : ∀ {t : Token} {taken us m : List Token}, ts = t :: taken ++ m →
      t :: taken ++ us ∈ startingWithout words := by
    rintro t taken us m rfl w hw
    exact h w hw
  intro hl
  have hp := hp hl
  cases hrun : p.run ts with
  | ok a m =>
    rw [hrun] at hp
    obtain ⟨_ | ⟨t, taken⟩, htaken, heq⟩ := hp
    · exact ⟨[], ⟨htaken, fun w _ => nofun⟩, heq⟩
    · refine ⟨t :: taken, ⟨htaken, ?_⟩, heq⟩
      rw [← List.append_nil (t :: taken)]
      exact hstart heq
  | error cause m =>
    rw [hrun] at hp
    obtain ⟨_ | ⟨t, taken⟩, ⟨more, hmore, hmem⟩, heq⟩ := hp
    · exact ⟨[], hL, heq⟩
    · exact ⟨t :: taken, ⟨more, hmore, hmem, hstart heq⟩, heq⟩

end Recognizes

/-- A rule that asks for a token stands for the texts of one token that are as asked. -/
theorem recognizes_expect {pattern : Token.Pattern} {cause : ParseError.Cause}
    (hL : Begins L []) (h : ∀ t : Token, t.IsLexical → t.fits pattern → [t] ∈ L) :
    (expect pattern cause).Recognizes L ts := by
  intro hl
  obtain _ | ⟨t, m⟩ := ts
  · exact ⟨[], hL, rfl⟩
  by_cases ht : t.fits pattern
  · rw [run_expect ht]
    exact ⟨[t], h t (hl t List.mem_cons_self) ht, rfl⟩
  · have hrun : (expect pattern cause).run (t :: m) = .error cause (t :: m) := by
      rw [expect, EStateM.run_bind, EStateM.run_get]
      simp only [ht]
      rfl
    rw [hrun]
    exact ⟨[], hL, rfl⟩

theorem recognizes_expectText (h : text ∈ Symbol.grammarWords) :
    (expectText text).Recognizes (spellings [.ofText text]) ts :=
  (recognizes_expect (begins_word h) fun t _ ht =>
    .cons (.word (by simpa [fits] using ht)) .nil).map

/-! ### Names -/

/-- The tokens of a name. -/
def names : Language Token :=
  spellingsOf IsName fun name => [.word (.text name)]

theorem begins_names {words : List String} (h : "a" ∉ words) :
    Begins (names ⊓ startingWithout words) [] := by
  have hname : IsName "a" := ⟨'a', [], rfl, rfl, nofun⟩
  refine ⟨[⟨.identifier, "a", 0⟩], List.forall_mem_singleton.2 hname, ?_, ?_⟩
  · exact ⟨"a", hname, .cons (.word rfl) .nil⟩
  · rintro w hw ⟨⟩
    exact h hw

/-- Names are what the rule for names takes. -/
theorem recognizes_identifier : identifier.Recognizes names ts := by
  refine (recognizes_expect ?_ fun t hl ht => ?_).map
  · exact (begins_names List.not_mem_nil).mono fun us h => h.1
  · have hk : t.kind = .identifier := by simpa [fits] using ht
    rw [IsLexical, hk] at hl
    exact ⟨t.text, hl, .cons (.word rfl) .nil⟩

/-! ### Lists of items -/

section Items

variable {item : Parser α} [Inhabited α] {γ : Type} {IsItem : γ → Prop}
  {symbolsOf : γ → List Symbol} (hitem : ∀ ts, item.Recognizes (spellingsOf IsItem symbolsOf) ts)

include hitem

/-- Further items of a list, each after a comma. -/
theorem recognizes_moreItems (fuel : Nat) : (moreItems item fuel).Recognizes
    (spellingsOf (fun as : List γ => ∀ a ∈ as, IsItem a)
      fun as => as.flatMap fun a => .ofText "," :: symbolsOf a) ts := by
  induction fuel generalizing ts with
  | zero => exact .pure [] ⟨[], List.forall_mem_nil _, .nil⟩
  | succ fuel ih =>
    refine .ifAccept (fun m => (hitem m).bind fun a m => ih.map) ?_ fun _ =>
      .pure [] ⟨[], List.forall_mem_nil _, .nil⟩
    rintro _ ⟨comma, hcomma, _, ⟨us, ⟨a, ha, hus⟩, vs, ⟨as, has, hvs⟩, rfl⟩, rfl⟩
    exact ⟨a :: as, List.forall_mem_cons.2 ⟨ha, has⟩, hcomma.append (hus.append hvs)⟩

/-- A list of items in parentheses, the closing one included. It may be empty, and it may not end in
    a comma. -/
theorem recognizes_items : (items item).Recognizes
    (spellingsOf (fun as : List γ => ∀ a ∈ as, IsItem a)
      fun as => Symbol.separated (as.map symbolsOf) ++ [.ofText ")"]) ts := by
  refine .ifNextIs (.mono (.map (recognizes_expectText (by decide))) fun us hus => ?_) fun _ => ?_
  · exact ⟨[], List.forall_mem_nil _, hus⟩
  · refine .mono (.bind (hitem ts) fun a m => .bind (.unlimited (recognizes_moreItems hitem))
      fun as m => .map (recognizes_expectText (by decide))) ?_
    rintro _ ⟨us, ⟨a, ha, hus⟩, _, ⟨vs, ⟨as, has, hvs⟩, close, hclose, rfl⟩, rfl⟩
    refine ⟨a :: as, List.forall_mem_cons.2 ⟨ha, has⟩, ?_⟩
    beta_reduce
    rw [List.map_cons, Symbol.separated, List.flatMap_map, List.append_assoc]
    exact hus.append (hvs.append hclose)

end Items

/-! ### Expressions -/

/-- The tokens of an expression of a step of the ladder. -/
def expressions (k : Nat) : Language Token :=
  spellingsOf (IsExpression k) symbols

/-- The tokens of arguments, up to the closing parenthesis. -/
def argumentLists : Language Token :=
  spellingsOf (fun as : List Node => ∀ a ∈ as, IsExpression 0 a)
    fun as => Symbol.separated (as.map symbols) ++ [.ofText ")"]

/-- The tokens of a member, with the point before it. -/
def members : Language Token :=
  spellings [.ofText "."] * (names * (1 + spellings [.ofText "("] * argumentLists))

/-- The tokens of an operator and its right operand. -/
def rightOperands (k : Nat) : Language Token :=
  spellingsOf (· ∈ operatorsAt k) (fun w => [.ofText w]) * expressions (k + 1)

/-- There is an expression of every level of binding: `NIL` is one of all of them. -/
theorem isExpression_nil {k : Nat} (hk : k ≤ 4) : IsExpression k .nil := by
  induction hk using Nat.decreasingInduction with
  | self => exact .literal .nil
  | of_succ k hk ih => exact .tighter hk ih

theorem begins_expressions {k : Nat} (hk : k ≤ 4) : Begins (expressions k) [] :=
  begins_of_areSpellable (isExpression_nil hk) (isExpression_nil hk).areSpellable

/-- No block ends at a literal. -/
theorem begins_startingWithout {words : List String} (h : "NIL" ∉ words) :
    Begins (expressions 0 ⊓ startingWithout words) [] := by
  refine ⟨[⟨.identifier, "NIL", 0⟩], List.forall_mem_singleton.2 ?_, ?_, ?_⟩
  · exact isName_of_mem_literalWords "NIL" (by simp)
  · exact ⟨.nil, isExpression_nil (by decide), .cons (.literal (.nil rfl)) .nil⟩
  · rintro w hw ⟨⟩
    exact h hw

/-- An expression goes on with members: a field or a call of a method. -/
theorem expressions_mul_members : expressions 4 * members ≤ expressions 4 := by
  rintro _ ⟨us, ⟨e, he, hus⟩, _, ⟨vs, hvs, _, ⟨ws, ⟨name, hname, hws⟩, _, hargs, rfl⟩, rfl⟩, rfl⟩
  have hmember := hus.append (SpelledBy.append hvs hws)
  rcases hargs with rfl | ⟨xs, hxs, ys, ⟨arguments, harguments, hys⟩, rfl⟩
  · refine ⟨.access e (.text name), .access he hname, ?_⟩
    rw [symbols, he.ifPresent, List.append_assoc]
    simpa using hmember
  · refine ⟨.call e (.text name) arguments, .call he hname harguments, ?_⟩
    rw [symbols, eachSymbols_eq_map, he.ifPresent]
    simpa using hmember.append (SpelledBy.append hxs hys)

/-- An operator of a level and an operand that binds tighter extend an expression of that level. -/
theorem expressions_mul_rightOperands (k : Nat) :
    expressions k * rightOperands k ≤ expressions k := by
  rintro _ ⟨us, ⟨left, hleft, hus⟩, _, ⟨vs, ⟨w, hw, hvs⟩, ws, ⟨right, hright, hws⟩, rfl⟩, rfl⟩
  exact ⟨.binary (.text w) left right, .binary hw hleft hright, hus.append (hvs.append hws)⟩

section Expressions

variable {inner : Parser Node} (hinner : ∀ ts, inner.Recognizes (expressions 0) ts)

include hinner

theorem recognizes_arguments : (items inner).Recognizes argumentLists ts :=
  recognizes_items hinner

/-- An expression in parentheses binds as tight as a name. -/
theorem recognizes_groupOr {operand : Parser Node}
    (hno : nextText? ts ≠ some "(" → operand.Recognizes (expressions 4) ts) :
    (do
      if ← accept "(" then
        let e ← inner
        expectText ")"
        return Node.group e
      else
        operand).Recognizes (expressions 4) ts := by
  refine .ifAccept (fun m => .bind (hinner m) fun e m =>
    .map (recognizes_expectText (by decide))) ?_ hno
  rintro _ ⟨us, hus, _, ⟨vs, ⟨e, he, hvs⟩, ws, hws, rfl⟩, rfl⟩
  exact ⟨.group e, .group he, SpelledBy.append hus (hvs.append hws)⟩

/-- A name alone is a variable, and one before a parenthesis is a call. -/
theorem recognizes_named (h : ∀ w ∈ ["NIL", "TRUE", "FALSE"], nextText? ts ≠ some w) :
    (do
      let name ← identifier
      if ← accept "(" then
        return Node.call .absent (.text name) (← items inner)
      else
        return Node.access .absent (.text name)).Recognizes (expressions 4) ts := by
  have hname := recognizes_identifier.restrict (begins_names (by decide)) h
  refine .mono (.bind hname fun name m =>
    Recognizes.ifAccept (L := 1 + spellings [.ofText "("] * argumentLists)
      (fun m => .map (recognizes_arguments hinner)) (fun us hus => .inr hus)
      fun _ => .pure _ (.inl rfl)) ?_
  rintro _ ⟨us, ⟨⟨name, hname, hus⟩, hfree⟩, _, hargs, rfl⟩
  have hfree : IsFreeName name := ⟨hname, fun hmem => hfree name hmem hus.nextText?_eq⟩
  rcases hargs with rfl | ⟨xs, hxs, ys, ⟨arguments, harguments, hys⟩, rfl⟩
  · refine ⟨.access .absent (.text name), .name hfree, ?_⟩
    simpa [symbols, ifPresent] using hus
  · refine ⟨.call .absent (.text name) arguments, .function hfree harguments, ?_⟩
    rw [symbols, eachSymbols_eq_map]
    exact hus.append (SpelledBy.append hxs hys)

/-- The expressions that bind tightest: literals, groups, variables and calls. -/
theorem recognizes_primaryWith : (primaryWith inner).Recognizes (expressions 4) ts := by
  refine .ifAccept (fun m => .pure _ Language.nil_mem_one) ?_ fun hnil =>
    .ifAccept (fun m => .pure _ Language.nil_mem_one) ?_ fun htrue =>
      .ifAccept (fun m => .pure _ Language.nil_mem_one) ?_ fun hfalse => .get ?_
  · rintro _ ⟨us, hus, _, rfl, rfl⟩
    obtain ⟨t, m, rfl, ht, ⟨⟩⟩ := Takes.ofText_cons_iff.1 hus
    exact ⟨.nil, .literal .nil, .cons (.literal (.nil ht)) .nil⟩
  · rintro _ ⟨us, hus, _, rfl, rfl⟩
    obtain ⟨t, m, rfl, ht, ⟨⟩⟩ := Takes.ofText_cons_iff.1 hus
    exact ⟨.boolean true, .literal (.boolean true), .cons (.literal (.true ht)) .nil⟩
  · rintro _ ⟨us, hus, _, rfl, rfl⟩
    obtain ⟨t, m, rfl, ht, ⟨⟩⟩ := Takes.ofText_cons_iff.1 hus
    exact ⟨.boolean false, .literal (.boolean false), .cons (.literal (.false ht)) .nil⟩
  -- The literal words are behind: an input that ends here is the beginning of an expression.
  obtain _ | ⟨t, rest⟩ := ts
  · exact .throw _ (begins_expressions (by decide))
  refine .of_areLexical fun hl => ?_
  have ht := hl t List.mem_cons_self
  cases hk : t.kind with
  | integer =>
    obtain ⟨i, hread, hd⟩ := exists_integer ht hk
    simp only [hk, hread]
    exact .map (.set ⟨.integer i, .literal (.integer i), .cons (.literal hd) .nil⟩)
  | decimal =>
    obtain ⟨d, hplaces, hread, hd⟩ := exists_decimal ht hk
    simp only [hk, hread]
    exact .map (.set ⟨.decimal d, .literal (.decimal hplaces), .cons (.literal hd) .nil⟩)
  | character =>
    obtain ⟨c, hread, hd⟩ := exists_character ht hk
    simp only [hk, hread]
    exact .map (.set ⟨.character _, .literal (.character c), .cons (.literal hd) .nil⟩)
  | string =>
    obtain ⟨s, hread, hd⟩ := exists_string ht hk
    simp only [hk, hread]
    exact .map (.set ⟨.string s, .literal (.string s), .cons (.literal hd) .nil⟩)
  -- The literal words were tried before, so an identifier here is a name.
  | identifier =>
    simp only [hk, if_true]
    refine recognizes_groupOr hinner fun _ => recognizes_named hinner ?_
    simp only [List.forall_mem_cons]
    exact ⟨hnil, htrue, hfalse, List.forall_mem_nil _⟩
  | operator =>
    simp only [hk]
    exact recognizes_groupOr hinner fun _ => .throw _ (begins_expressions (by decide))

/-- The members after a receiver, any number of them. -/
theorem recognizes_moreMembers (fuel : Nat) (receiver : Node) :
    (moreMembers inner fuel receiver).Recognizes members∗ ts := by
  induction fuel generalizing receiver ts with
  | zero => exact .pure receiver (Language.nil_mem_kstar members)
  | succ fuel ih =>
    refine .ifAccept (fun m => .bind recognizes_identifier fun name m =>
      Recognizes.ifAccept (L := (1 + spellings [.ofText "("] * argumentLists) * members∗)
        (fun m => .bind (recognizes_arguments hinner) fun _ _ => ih _) ?_
        fun _ => .mono (ih _) ?_) ?_ fun _ => .pure receiver (Language.nil_mem_kstar members)
    · rw [add_mul, mul_assoc]
      exact le_add_self
    · rw [add_mul, one_mul]
      exact le_self_add
    · rw [← mul_assoc, ← mul_assoc, mul_assoc (spellings _)]
      exact mul_kstar_le_kstar

theorem recognizes_secondaryWith : (secondaryWith inner).Recognizes (expressions 4) ts :=
  .mono (.bind (recognizes_primaryWith hinner) fun receiver _ =>
    .unlimited fun fuel => recognizes_moreMembers hinner fuel receiver)
      (mul_kstar_le_self expressions_mul_members)

omit hinner in
/-- The operators of a level with their right operands, any number of them. -/
theorem recognizes_moreOperands {k : Nat} {operand : Parser Node}
    (hop : ∀ ts, operand.Recognizes (expressions (k + 1)) ts) (fuel : Nat) (left : Node) :
    (moreOperands (operatorsAt k) operand fuel left).Recognizes (rightOperands k)∗ ts := by
  induction fuel generalizing left ts with
  | zero => exact .pure left (Language.nil_mem_kstar _)
  | succ fuel ih =>
    refine .get ?_
    obtain _ | ⟨t, rest⟩ := ts
    · exact .pure left (Language.nil_mem_kstar _)
    by_cases ht : (operatorsAt k).contains t.text
    · simp only [ht, if_true]
      have hset : [t] ∈ spellingsOf (· ∈ operatorsAt k) fun w => [.ofText w] :=
        ⟨t.text, List.contains_iff_mem.1 ht, .cons (.word rfl) .nil⟩
      refine .mono (.bind (.set hset) fun _ m => .bind (hop m) fun _ _ => ih _) ?_
      rw [← mul_assoc]
      exact mul_kstar_le_kstar
    · simp only [ht]
      exact .pure left (Language.nil_mem_kstar _)

omit hinner in
/-- Operands of the next level with operators of one level between them. -/
theorem recognizes_chain {k : Nat} {operand : Parser Node} (hk : k < 4)
    (hop : ∀ ts, operand.Recognizes (expressions (k + 1)) ts) :
    (chain (operatorsAt k) operand).Recognizes (expressions k) ts := by
  have htighter : expressions (k + 1) ≤ expressions k := by
    rintro us ⟨e, he, hus⟩
    exact ⟨e, .tighter hk he, hus⟩
  exact .mono (.bind (hop ts) fun left m => .unlimited fun fuel =>
      recognizes_moreOperands hop fuel left)
    (mul_kstar_le htighter (expressions_mul_rightOperands k))

/-- The ladder of operators, given the rule for what stands in parentheses. -/
theorem recognizes_logicalWith : (logicalWith inner).Recognizes (expressions 0) ts :=
  recognizes_chain (k := 0) (by decide) fun _ => recognizes_chain (k := 1) (by decide) fun _ =>
    recognizes_chain (k := 2) (by decide) fun _ => recognizes_chain (k := 3) (by decide) fun _ =>
      recognizes_secondaryWith hinner

end Expressions

/-- By induction on how deep the parentheses nest. -/
theorem recognizes_expressionWithin (depth : Nat) :
    (expressionWithin depth).Recognizes (expressions 0) ts := by
  induction depth generalizing ts with
  | zero => exact .throw _ (begins_expressions (by decide))
  | succ depth ih => exact recognizes_logicalWith fun _ => ih

theorem recognizes_expression : expression.Recognizes (expressions 0) ts :=
  .get (recognizes_expressionWithin _)

/-! ### Statements -/

/-- The tokens of an initializer, which may be left out. -/
def initializers : Language Token :=
  spellingsOf IsOptionalExpression fun n => n.ifPresent (.ofText "=" :: n.symbols)

/-- The tokens of a statement of a block that ends at one of some words. -/
def statements (words : List String) : Language Token :=
  spellingsOf (IsStatement words) symbols

/-- The tokens of trees of a kind, one after the other. -/
def sequences (IsKind : Node → Prop) : Language Token :=
  spellingsOf (fun ns : List Node => ∀ n ∈ ns, IsKind n) fun ns => (eachSymbols ns).flatten

/-- There is a statement that starts with none of the words that a block ends with. -/
theorem begins_statements {words : List String} : Begins (statements words) [] := by
  have h : IsStatement words (.discard .nil) :=
    .discard (isExpression_nil (by decide)) fun w _ => nofun
  exact begins_of_areSpellable h h.areSpellable

theorem nil_mem_sequences {IsKind : Node → Prop} : [] ∈ sequences IsKind :=
  ⟨[], List.forall_mem_nil _, .nil⟩

/-- A sequence goes on with one more of its kind. -/
theorem mul_sequences_le {IsKind : Node → Prop} :
    spellingsOf IsKind symbols * sequences IsKind ≤ sequences IsKind := by
  rintro _ ⟨us, ⟨n, hn, hus⟩, vs, ⟨ns, hns, hvs⟩, rfl⟩
  exact ⟨n :: ns, List.forall_mem_cons.2 ⟨hn, hns⟩, hus.append hvs⟩

/-- The initializer of a declaration may be missing. -/
theorem recognizes_initializer : initializer.Recognizes initializers ts := by
  refine .ifAccept (fun m => recognizes_expression) ?_ fun _ => .pure _ ⟨.absent, .inl rfl, .nil⟩
  rintro _ ⟨us, hus, vs, ⟨e, he, hvs⟩, rfl⟩
  refine ⟨e, .inr he, ?_⟩
  beta_reduce
  rw [he.ifPresent]
  exact SpelledBy.append hus hvs

/-- A rule recognizes statements: which words they do not start with is known from the
    next token. -/
def RecognizesStatements (p : Parser Node) : Prop :=
  ∀ words ts, "NIL" ∉ words → (∀ w ∈ words, nextText? ts ≠ some w) →
    p.Recognizes (statements words) ts

section Statements

variable {inner : Parser Node} (hinner : inner.RecognizesStatements) {words : List String}

include hinner

/-- Statements up to one of the words that end a block. That word is not taken. -/
theorem recognizes_blockWith (hnil : "NIL" ∉ words) :
    (blockWith inner words).Recognizes (sequences (IsStatement words)) ts := by
  have huntil : ∀ fuel ts,
      (statementsUntil words inner fuel).Recognizes (sequences (IsStatement words)) ts := by
    intro fuel
    induction fuel with
    | zero => exact fun ts => .throw _ ⟨[], List.forall_mem_nil _, nil_mem_sequences⟩
    | succ fuel ih =>
      refine fun ts => .ifNextIsAny (.pure _ nil_mem_sequences) fun hwords => ?_
      exact .mono (.bind (hinner words ts hnil hwords) fun s m => .map (ih m)) mul_sequences_le
  exact .get (huntil _ ts)

omit hinner in
theorem recognizes_declaration : declaration.Recognizes (statements words) ts := by
  refine .mono (.bind (recognizes_expectText (by decide)) fun _ m =>
    .bind recognizes_identifier fun name m => .bind recognizes_initializer fun value m =>
      .map (recognizes_expectText (by decide))) ?_
  rintro _ ⟨_, hlet, _, ⟨_, ⟨name, hname, htname⟩, _, ⟨_, ⟨value, hvalue, htvalue⟩, _, hend, rfl⟩,
    rfl⟩, rfl⟩
  exact ⟨_, .declaration hname hvalue,
    SpelledBy.append hlet (htname.append (htvalue.append hend))⟩

/-- A choice has a second branch or none. -/
theorem recognizes_choiceWith : (choiceWith inner).Recognizes (statements words) ts := by
  refine .mono (.bind (recognizes_expectText (by decide)) fun _ m =>
    .bind recognizes_expression fun condition m => .bind (recognizes_expectText (by decide))
      fun _ m => .bind (recognizes_blockWith hinner (by decide)) fun thenStatements m =>
        Recognizes.ifAccept (L := spellings [.ofText "ELSE"] * (sequences (IsStatement ["END"]) *
          spellings [.ofText "END"]) + spellings [.ofText "END"]) (fun m =>
          .bind (recognizes_blockWith hinner (by decide)) fun elseStatements m =>
            .map (recognizes_expectText (by decide))) le_self_add fun _ =>
              .mono (.map (recognizes_expectText (by decide))) le_add_self) ?_
  rintro _ ⟨_, hif, _, ⟨_, ⟨condition, hcondition, htcondition⟩, _, ⟨_, hdo, _,
    ⟨_, ⟨thenStatements, hthen, htthen⟩, _, helse, rfl⟩, rfl⟩, rfl⟩, rfl⟩
  have hstart := fun {ss us} (h : SpelledBy ss us) => SpelledBy.append hif (htcondition.append
    (SpelledBy.append hdo (htthen.append h)))
  rcases helse with ⟨_, helse, _, ⟨_, ⟨elseStatements, helses, htelses⟩, _, hend, rfl⟩, rfl⟩ | hend
  · refine ⟨_, .choice hcondition hthen helses, hstart ?_⟩
    exact SpelledBy.append (helse.optionalIf elseStatements.isEmpty) (htelses.append hend)
  · exact ⟨.choice condition thenStatements [], .choice hcondition hthen (List.forall_mem_nil _),
      hstart (.skip hend)⟩

omit hinner in
/-- What stands before the first semicolon of a loop: a declaration, an assignment, or nothing. -/
theorem recognizes_forInitializer :
    forInitializer.Recognizes (spellingsOf IsForInitializer headSymbols) ts := by
  refine .ifNextIs (.pure _ ⟨.absent, .inl rfl, .nil⟩) fun _ => ?_
  refine .mono (.bind recognizes_identifier fun name m =>
    .bind (recognizes_expectText (by decide)) fun _ m => .map recognizes_expression) ?_
  rintro _ ⟨_, ⟨name, hname, htname⟩, _, ⟨_, hequals, _, ⟨e, he, hte⟩, rfl⟩, rfl⟩
  exact ⟨.declaration (.text name) e, .inr ⟨name, e, rfl, hname, he⟩,
    htname.append (SpelledBy.append hequals hte)⟩

omit hinner in
/-- What stands after the second semicolon of a loop: an assignment, an expression, or nothing. -/
theorem recognizes_forIncrement :
    forIncrement.Recognizes (spellingsOf IsForIncrement headSymbols) ts := by
  refine .ifNextIs (.pure _ ⟨.absent, .inl rfl, .nil⟩) fun _ => ?_
  refine .mono (.bind recognizes_expression fun receiver m =>
    .bind (recognizes_expectText (by decide)) fun _ m => .map recognizes_expression) ?_
  rintro _ ⟨_, ⟨receiver, hreceiver, htreceiver⟩, _, ⟨_, hequals, _, ⟨e, he, hte⟩, rfl⟩, rfl⟩
  exact ⟨.assignment receiver e, .inr ⟨receiver, e, rfl, hreceiver, he⟩,
    htreceiver.append (SpelledBy.append hequals hte)⟩

theorem recognizes_forLoopWith : (forLoopWith inner).Recognizes (statements words) ts := by
  refine .mono (.bind (recognizes_expectText (by decide)) fun _ m =>
    .bind (recognizes_expectText (by decide)) fun _ m => .bind recognizes_forInitializer
      fun first m => .bind (recognizes_expectText (by decide)) fun _ m =>
        .bind recognizes_expression fun condition m => .bind (recognizes_expectText (by decide))
          fun _ m => .bind recognizes_forIncrement fun increment m =>
            .bind (recognizes_expectText (by decide)) fun _ m =>
              .bind (recognizes_blockWith hinner (by decide)) fun statements m =>
                .map (recognizes_expectText (by decide))) ?_
  rintro _ ⟨_, hfor, _, ⟨_, hopen, _, ⟨_, ⟨first, hfirst, htfirst⟩, _, ⟨_, hafter, _,
    ⟨_, ⟨condition, hcondition, htcondition⟩, _, ⟨_, hafter', _,
      ⟨_, ⟨increment, hincrement, htincrement⟩, _, ⟨_, hclose, _,
        ⟨_, ⟨statements, hstatements, htstatements⟩, _, hend, rfl⟩, rfl⟩, rfl⟩, rfl⟩, rfl⟩, rfl⟩,
    rfl⟩, rfl⟩, rfl⟩
  exact ⟨_, .forLoop hfirst hcondition hincrement hstatements,
    SpelledBy.append hfor (SpelledBy.append hopen (htfirst.append (SpelledBy.append hafter
      (htcondition.append (SpelledBy.append hafter' (htincrement.append (SpelledBy.append hclose
        (htstatements.append hend))))))))⟩

theorem recognizes_whileLoopWith : (whileLoopWith inner).Recognizes (statements words) ts := by
  refine .mono (.bind (recognizes_expectText (by decide)) fun _ m =>
    .bind recognizes_expression fun condition m => .bind (recognizes_expectText (by decide))
      fun _ m => .bind (recognizes_blockWith hinner (by decide)) fun statements m =>
        .map (recognizes_expectText (by decide))) ?_
  rintro _ ⟨_, hwhile, _, ⟨_, ⟨condition, hcondition, htcondition⟩, _, ⟨_, hdo, _,
    ⟨_, ⟨statements, hstatements, htstatements⟩, _, hend, rfl⟩, rfl⟩, rfl⟩, rfl⟩
  exact ⟨_, .whileLoop hcondition hstatements, SpelledBy.append hwhile (htcondition.append
    (SpelledBy.append hdo (htstatements.append hend)))⟩

omit hinner in
theorem recognizes_answer : answer.Recognizes (statements words) ts := by
  refine .mono (.bind (recognizes_expectText (by decide)) fun _ m =>
    .bind recognizes_expression fun value m => .map (recognizes_expectText (by decide))) ?_
  rintro _ ⟨_, hreturn, _, ⟨_, ⟨value, hvalue, htvalue⟩, _, hend, rfl⟩, rfl⟩
  exact ⟨_, .answer hvalue, SpelledBy.append hreturn (htvalue.append hend)⟩

omit hinner in
/-- An assignment or an expression. Both begin with an expression, which tells them apart by what
    follows. -/
theorem recognizes_simpleStatement (hnil : "NIL" ∉ words)
    (hwords : ∀ w ∈ statementWords ++ words, nextText? ts ≠ some w) :
    simpleStatement.Recognizes (statements words) ts := by
  have hnil : "NIL" ∉ statementWords ++ words := by simpa [statementWords] using hnil
  have hstart := recognizes_expression.restrict (begins_startingWithout hnil) hwords
  refine .mono (.bind hstart fun e m => Recognizes.ifAccept
    (L := spellings [.ofText "="] * (expressions 0 * spellings [.ofText ";"]) +
      spellings [.ofText ";"]) (fun m => .bind recognizes_expression fun value m =>
        .map (recognizes_expectText (by decide))) le_self_add fun _ =>
          .mono (.map (recognizes_expectText (by decide))) le_add_self) ?_
  rintro _ ⟨_, ⟨⟨e, he, hte⟩, hwords⟩, _, hrest, rfl⟩
  have hstart : StartsWithout (statementWords ++ words) e := by
    intro w hw hhead
    obtain ⟨ss, hss⟩ := List.head?_eq_some_iff.1 hhead
    rw [hss] at hte
    exact hwords w hw hte.nextText?_eq
  rcases hrest with ⟨_, hequals, _, ⟨_, ⟨value, hvalue, htvalue⟩, _, hend, rfl⟩, rfl⟩ | hend
  · exact ⟨_, .assignment he hstart hvalue,
      hte.append (SpelledBy.append hequals (htvalue.append hend))⟩
  · exact ⟨_, .discard he hstart, hte.append hend⟩

/-- The word that a statement starts with tells which one it is, if it is one of the words of
    statements. -/
theorem recognizesStatements_statementWith : (statementWith inner).RecognizesStatements := by
  intro words ts hnil hwords
  refine .ifNextIs recognizes_declaration fun hlet => ?_
  refine .ifNextIs (recognizes_choiceWith hinner) fun hif => ?_
  refine .ifNextIs (recognizes_forLoopWith hinner) fun hfor => ?_
  refine .ifNextIs (recognizes_whileLoopWith hinner) fun hwhile => ?_
  refine .ifNextIs recognizes_answer fun hreturn => recognizes_simpleStatement hnil ?_
  simp only [statementWords, List.forall_mem_append, List.forall_mem_cons]
  exact ⟨⟨hlet, hif, hfor, hwhile, hreturn, List.forall_mem_nil _⟩, hwords⟩

end Statements

/-- By induction on how deep the statements nest. -/
theorem recognizesStatements_statementWithin (depth : Nat) :
    (statementWithin depth).RecognizesStatements := by
  induction depth with
  | zero => exact fun words ts _ _ => .throw _ begins_statements
  | succ depth ih => exact recognizesStatements_statementWith ih

theorem recognizesStatements_statement : statement.RecognizesStatements :=
  fun words ts hnil hwords => .get (recognizesStatements_statementWithin _ words ts hnil hwords)

/-! ### Programs -/

theorem recognizes_field : field.Recognizes (spellingsOf IsField symbols) ts := by
  -- What follows CONST, or its absence, is the same; only the names it may begin with differ.
  have hrest : ∀ {ts L} {isConstant : Bool}, identifier.Recognizes L ts →
      (do
        let name ← identifier
        let value ← initializer
        expectText ";"
        return Node.field (.text name) isConstant value).Recognizes
          (L * (initializers * spellings [.ofText ";"])) ts :=
    fun h => .bind h fun name m => .bind recognizes_initializer fun value m =>
      .map (recognizes_expectText (by decide))
  -- Without CONST the name must be another word, which the branch takes along.
  refine .mono (.bind (recognizes_expectText (by decide)) fun _ m => Recognizes.bindAccept
    (L := spellings [.ofText "CONST"] * (names * (initializers * spellings [.ofText ";"])) +
      (names ⊓ startingWithout ["CONST"]) * (initializers * spellings [.ofText ";"]))
    (fun m => hrest recognizes_identifier) le_self_add fun h => .mono (hrest
      (recognizes_identifier.restrict (begins_names (by decide))
        (List.forall_mem_singleton.2 h))) le_add_self) ?_
  rintro _ ⟨_, hlet, _, h, rfl⟩
  rcases h with ⟨_, hconst, _, ⟨_, ⟨name, hname, htname⟩, _, ⟨_, ⟨value, hvalue, htvalue⟩, _, hend,
    rfl⟩, rfl⟩, rfl⟩ | ⟨_, ⟨⟨name, hname, htname⟩, hne⟩, _, ⟨_, ⟨value, hvalue, htvalue⟩, _, hend,
      rfl⟩, rfl⟩
  · exact ⟨.field (.text name) true value, .field hname (.inl rfl) hvalue, SpelledBy.append hlet
      (SpelledBy.append hconst (htname.append (htvalue.append hend)))⟩
  · refine ⟨.field (.text name) false value, .field hname (.inr ?_) hvalue, SpelledBy.append hlet
      (htname.append (htvalue.append hend))⟩
    rintro rfl
    exact hne "CONST" List.mem_cons_self htname.nextText?_eq

theorem recognizes_method : method.Recognizes (spellingsOf IsMethod symbols) ts := by
  refine .mono (.bind (recognizes_expectText (by decide)) fun _ m =>
    .bind recognizes_identifier fun name m => .bind (recognizes_expectText (by decide))
      fun _ m => .bind (recognizes_items fun _ => recognizes_identifier) fun parameters m =>
        .bind (recognizes_expectText (by decide)) fun _ m =>
          .bind (recognizes_blockWith recognizesStatements_statement (by decide)) fun body m =>
            .map (recognizes_expectText (by decide))) ?_
  rintro _ ⟨_, hdef, _, ⟨_, ⟨name, hname, htname⟩, _, ⟨_, hopen, _,
    ⟨_, ⟨parameters, hparameters, htparameters⟩, _, ⟨_, hdo, _,
      ⟨_, ⟨statements, hstatements, htstatements⟩, _, hend, rfl⟩, rfl⟩, rfl⟩, rfl⟩, rfl⟩, rfl⟩
  refine ⟨_, .method hname hparameters hstatements, ?_⟩
  have := SpelledBy.append hdef (htname.append (SpelledBy.append hopen (htparameters.append
    (SpelledBy.append hdo (htstatements.append hend)))))
  rw [symbols, List.map_map]
  simpa [Function.comp_def] using this

/-- Fields or methods, as long as the next token is the word that they start with. -/
theorem recognizes_whileNextIs {IsKind : Node → Prop} {rule : Parser Node}
    (hrule : ∀ ts, rule.Recognizes (spellingsOf IsKind symbols) ts) (fuel : Nat) :
    (whileNextIs text rule fuel).Recognizes (sequences IsKind) ts := by
  induction fuel generalizing ts with
  | zero => exact .pure _ nil_mem_sequences
  | succ fuel ih =>
    refine .ifNextIs ?_ fun _ => .pure _ nil_mem_sequences
    exact .mono (.bind (hrule ts) fun n m => .map ih) mul_sequences_le

/-- Whole programs. -/
theorem recognizes_program : program.Recognizes (spellingsOf IsProgram symbols) ts := by
  refine .mono (.bind (.unlimited (recognizes_whileNextIs fun _ => recognizes_field))
    fun fields m => .bind (.unlimited (recognizes_whileNextIs fun _ => recognizes_method))
      fun methods m => .get (L := 1) ?_) ?_
  · obtain _ | ⟨t, rest⟩ := m
    · exact .pure _ Language.nil_mem_one
    · exact .throw _ ⟨[], List.forall_mem_nil _, Language.nil_mem_one⟩
  · rw [mul_one]
    rintro _ ⟨us, ⟨fields, hfields, hus⟩, vs, ⟨methods, hmethods, hvs⟩, rfl⟩
    exact ⟨.program fields methods, .program hfields hmethods, hus.append hvs⟩

end Parser

end Blockscript
