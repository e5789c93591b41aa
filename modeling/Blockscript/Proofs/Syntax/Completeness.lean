import Blockscript.Proofs.Syntax.Outcome

/-!
# What the parser finds

Tokens that spell a tree of the grammar are parsed into this tree. A rule of the
ladder has no way to tell how long its expression is: it goes on with operators and
members while there are any, so that what follows must not be one of them. An
expression of a step, once it is read, may yet be the left operand of an operator
of this step; `run_ruleAt` therefore says that the rule of the step has come as far
as its loop, with the expression as what it has built so far.

* `Parser.Stops`: what may follow an expression of a step;
* `Parser.Reads`: a rule reads symbols, and gives what they stand for;
* `run_expression`, `readsStatement_statementWithin`: expressions and statements;
* `run_program`: whole programs.
-/

namespace Blockscript

open Text Token Node

variable {ts rest : List Token}

/-! ### First tokens -/

/-- A token that denotes a literal is one of the words for literals, or of a class
    that holds nothing else. -/
theorem Token.Denotes.text_ne {t : Token} {tag : Label} {payload : Payload} {w : String}
    (hd : t.Denotes tag payload) (ht : t.IsLexical) (hw : w ∉ ["NIL", "TRUE", "FALSE"])
    (hclass : ∀ k : Token.Kind, k.Contains w.toList → k = .identifier ∨ k = .operator) :
    t.text ≠ w := by
  rintro rfl
  have hk := hclass t.kind ht
  cases hd with
  | nil h => simp [h] at hw
  | true h => simp [h] at hw
  | false h => simp [h] at hw
  | integer h => simp [h] at hk
  | decimal h => simp [h] at hk
  | character h => simp [h] at hk
  | string h => simp [h] at hk

/-- A name is of no class of tokens but that of identifiers. -/
theorem Node.IsName.eq_identifier {w : String} (hw : IsName w) {k : Token.Kind}
    (h : k.Contains w.toList) : k = .identifier := by
  obtain ⟨c, rest, heq, hc, _⟩ := hw
  rw [heq] at h
  exact h.eq_identifier hc

/-- The first token of an expression is some word only if the expression starts with
    this word. -/
theorem Node.IsExpression.head?_of_nextText? {k : Nat} {e : Node} {w : String}
    (he : IsExpression k e) (hl : AreLexical ts) (ht : Takes e.symbols ts rest)
    (hw : w ∉ ["NIL", "TRUE", "FALSE"])
    (hclass : ∀ k : Token.Kind, k.Contains w.toList → k = .identifier ∨ k = .operator)
    (h : nextText? ts = some w) : e.symbols.head? = some (.ofText w) := by
  obtain ⟨s, ss, heq, hs⟩ := he.exists_head
  rw [heq] at ht ⊢
  rcases hs with rfl | ⟨name, _, rfl⟩ | ⟨tag, payload, rfl⟩
  · rw [← Option.some.inj (ht.nextText?_eq.symm.trans h)]
    rfl
  · rw [← Option.some.inj (ht.nextText?_eq.symm.trans h)]
    rfl
  · obtain ⟨t, m, rfl, hd, _⟩ := Takes.literal_cons_iff.1 ht
    exact absurd (Option.some.inj h) (hd.text_ne (hl t List.mem_cons_self) hw hclass)

/-- No expression starts with a closing parenthesis. -/
theorem Node.IsExpression.nextText?_ne_close {k : Nat} {e : Node} (he : IsExpression k e)
    (hl : AreLexical ts) (ht : Takes e.symbols ts rest) : nextText? ts ≠ some ")" := by
  intro h
  have hhead := he.head?_of_nextText? hl ht (by decide)
    (fun k hk => .inr (hk.eq_operator rfl rfl)) h
  obtain ⟨s, ss, heq, hs⟩ := he.exists_head
  rw [heq, List.head?_cons, Option.some.injEq] at hhead
  subst hhead
  rcases hs with hs | ⟨name, hname, hs⟩ | ⟨tag, payload, hs⟩
  · exact absurd (Label.text.inj (Symbol.word.inj hs)) (by decide)
  · obtain rfl := Label.text.inj (Symbol.word.inj hs)
    obtain ⟨c, rest, hc, hstart, _⟩ := hname
    obtain rfl := (List.cons.inj hc).1
    contradiction
  · exact nomatch hs

namespace Parser

variable {inner : Parser Node}

/-! ### Running rules -/

section Run

variable {α β : Type} {p q : Parser α} {f : α → Parser β} {a : α} {text : String}

/-- A rule after one that takes tokens goes on with those that remain. -/
theorem run_bind_of_ok (h : p.run ts = .ok a rest) : (p >>= f).run ts = (f a).run rest := by
  rw [EStateM.run_bind, h]

/-- The given token is next, and is taken. -/
theorem run_ifAccept_of_eq {t : Token} (h : t.text = text) :
    (accept text >>= fun b => if b = true then p else q).run (t :: ts) = p.run ts :=
  run_bind_of_ok (run_accept_of_eq h)

/-- The given token is not next, and nothing is taken. -/
theorem run_ifAccept_of_ne (h : nextText? ts ≠ some text) :
    (accept text >>= fun b => if b = true then p else q).run ts = q.run ts :=
  run_bind_of_ok (run_accept_of_ne h)

theorem run_ifNextIs_of_eq (h : nextText? ts = some text) :
    (nextIs text >>= fun b => if b = true then p else q).run ts = p.run ts := by
  rw [run_bind_of_ok (run_nextIs text ts), if_pos (decide_eq_true h)]

theorem run_ifNextIs_of_ne (h : nextText? ts ≠ some text) :
    (nextIs text >>= fun b => if b = true then p else q).run ts = q.run ts := by
  rw [run_bind_of_ok (run_nextIs text ts), if_neg (by simpa using h)]

theorem run_ifNextIsAny_of_eq {texts : List String} (h : ∃ w ∈ texts, nextText? ts = some w) :
    (nextIsAny texts >>= fun b => if b = true then p else q).run ts = p.run ts := by
  rw [run_bind_of_ok (run_nextIsAny texts ts), if_pos (decide_eq_true h)]

theorem run_ifNextIsAny_of_ne {texts : List String} (h : ∀ w ∈ texts, nextText? ts ≠ some w) :
    (nextIsAny texts >>= fun b => if b = true then p else q).run ts = q.run ts := by
  rw [run_bind_of_ok (run_nextIsAny texts ts), if_neg (by simpa using h)]

end Run

theorem run_get (ts : List Token) : (get : Parser (List Token)).run ts = .ok ts ts :=
  rfl

/-- The fuel of a loop is the number of tokens. -/
theorem run_unlimited {α : Type} (loop : Nat → Parser α) (ts : List Token) :
    (unlimited loop).run ts = (loop ts.length).run ts :=
  rfl

/-! ### What follows an expression -/

/-- The next token does not go on with an expression of a step of the ladder. A
    parenthesis goes on with a name. -/
def Stops (k : Nat) (ts : List Token) : Prop :=
  ∀ w, nextText? ts = some w → w ≠ "(" ∧ (k ≤ 4 → w ≠ ".") ∧ ∀ j, k ≤ j → w ∉ operatorsAt j

/-- An expression that binds tighter stops where a looser one does. -/
theorem Stops.mono {k k' : Nat} (h : Stops k ts) (hk : k ≤ k') : Stops k' ts := by
  intro w hw
  obtain ⟨hopen, hpoint, hop⟩ := h w hw
  exact ⟨hopen, fun hk' => hpoint (Nat.le_trans hk hk'), fun j hj => hop j (Nat.le_trans hk hj)⟩

theorem lt_of_mem_operatorsAt {k : Nat} {w : String} (h : w ∈ operatorsAt k) : k < 4 := by
  match k with
  | 0 | 1 | 2 | 3 => decide
  | k + 4 => exact nomatch h

/-- An operator goes on with no tighter expression. -/
theorem stops_of_operator {k : Nat} {w : String} (hw : w ∈ operatorsAt k)
    (h : nextText? ts = some w) : Stops (k + 1) ts := by
  have hdisjoint : ∀ k : Fin 4, ∀ w ∈ operatorsAt k, w ≠ "(" ∧ w ≠ "." ∧
      ∀ j : Fin 4, k < j → w ∉ operatorsAt j := by decide
  have hk := lt_of_mem_operatorsAt hw
  intro v hv
  obtain rfl := Option.some.inj (h.symm.trans hv)
  obtain ⟨hopen, hpoint, hop⟩ := hdisjoint ⟨k, hk⟩ w hw
  refine ⟨hopen, fun _ => hpoint, fun j hj hmem => ?_⟩
  exact hop ⟨j, lt_of_mem_operatorsAt hmem⟩ (Nat.lt_of_succ_le hj) hmem

/-- A point goes on with no receiver's inside. -/
theorem stops_of_point (h : nextText? ts = some ".") : Stops 5 ts := by
  intro v hv
  obtain rfl := Option.some.inj (h.symm.trans hv)
  refine ⟨by decide, fun hk => absurd hk (by decide), fun j hj hmem => ?_⟩
  exact absurd (lt_of_mem_operatorsAt hmem) (by omega)

/-- The words and separators after an expression do not go on with it. -/
theorem stops_of_closer {w : String} (hw : w ∈ ["=", ";", ",", ")", "DO"])
    (h : nextText? ts = some w) : Stops 0 ts := by
  have hcloser : ∀ w ∈ ["=", ";", ",", ")", "DO"], w ≠ "(" ∧ w ≠ "." ∧
      ∀ j : Fin 4, w ∉ operatorsAt j := by decide
  intro v hv
  obtain rfl := Option.some.inj (h.symm.trans hv)
  obtain ⟨hopen, hpoint, hop⟩ := hcloser w hw
  exact ⟨hopen, fun _ => hpoint, fun j _ hmem => hop ⟨j, lt_of_mem_operatorsAt hmem⟩ hmem⟩

/-! ### Lists of items -/

/-- A rule reads symbols: where not too many tokens spell them, and what follows does
    not go on with an expression, it gives what they stand for. -/
def Reads {α : Type} (p : Parser α) (depth : Nat) (ss : List Symbol) (a : α) : Prop :=
  ∀ ts rest, AreLexical ts → Takes ss ts rest → ts.length ≤ depth + rest.length →
    Stops 0 rest → p.run ts = .ok a rest

/-- Every item after the first takes a comma. -/
theorem length_le_of_takes_flatMap {α : Type} {symbolsOf : α → List Symbol} {as : List α}
    (ht : Takes (as.flatMap fun a => .ofText "," :: symbolsOf a) ts rest) :
    as.length ≤ ts.length := by
  induction as generalizing ts with
  | nil => exact Nat.zero_le _
  | cons a as ih =>
    rw [List.flatMap_cons, List.cons_append] at ht
    obtain ⟨t, m, rfl, _, ht⟩ := Takes.ofText_cons_iff.1 ht
    obtain ⟨m', hta, htas⟩ := Takes.append_iff.1 ht
    have := ih htas
    have := hta.length_le
    simp only [List.length_cons]
    omega

/-- Items that follow a first one do not go on with it. -/
theorem stops_of_items {α : Type} {symbolsOf : α → List Symbol} {as : List α}
    (ht : Takes (as.flatMap fun a => .ofText "," :: symbolsOf a) ts rest)
    (hclose : nextText? rest = some ")") : Stops 0 ts := by
  obtain _ | ⟨a, as⟩ := as
  · obtain rfl := Takes.nil_iff.1 ht
    exact stops_of_closer (by decide) hclose
  · exact stops_of_closer (by decide) ht.nextText?_eq

section Items

variable {α : Type} {item : Parser α} {depth : Nat} {symbolsOf : α → List Symbol} {as : List α}
  (hitem : ∀ a ∈ as, item.Reads depth (symbolsOf a) a)

include hitem

/-- Further items of a list are read up to the parenthesis that closes it. By induction on the
    items; each of them is followed by a comma or by the parenthesis. -/
theorem run_moreItems {fuel : Nat} (hfuel : as.length ≤ fuel) (hl : AreLexical ts)
    (ht : Takes (as.flatMap fun a => .ofText "," :: symbolsOf a) ts rest)
    (hdepth : ts.length ≤ depth + rest.length) (hclose : nextText? rest = some ")") :
    (moreItems item fuel).run ts = .ok as rest := by
  -- By induction on the items, each behind its comma; the fuel is one for an item, and there are no
  -- more items than tokens.
  induction as generalizing ts fuel with
  | nil =>
    obtain rfl := Takes.nil_iff.1 ht
    obtain _ | fuel := fuel
    · rfl
    · rw [moreItems, itemRound, run_ifAccept_of_ne (by simp [hclose])]
      rfl
  | cons a as ih =>
    obtain ⟨fuel, rfl⟩ := Nat.exists_eq_succ_of_ne_zero (Nat.ne_of_gt (Nat.lt_of_lt_of_le
      (Nat.succ_pos as.length) hfuel))
    rw [List.flatMap_cons, List.cons_append] at ht
    obtain ⟨t, m, rfl, hcomma, ht⟩ := Takes.ofText_cons_iff.1 ht
    obtain ⟨m', hta, htas⟩ := Takes.append_iff.1 ht
    have hle := htas.length_le
    have hstop := stops_of_items htas hclose
    have hle' := hta.length_le
    rw [List.length_cons] at hdepth
    rw [moreItems, itemRound, run_ifAccept_of_eq hcomma,
      run_bind_of_ok (hitem a List.mem_cons_self m m' hl.tail hta (by omega) hstop),
      run_bind_of_ok (ih (fun b hb => hitem b (List.mem_cons_of_mem a hb))
        (Nat.le_of_succ_le_succ hfuel) (hta.areLexical hl.tail) htas (by omega))]
    rfl

/-- A whole list of items is read. No item starts with a closing parenthesis, which is how an empty
    list is told. -/
theorem run_items (hfirst : ∀ a ∈ as, ∀ {ts rest}, AreLexical ts → Takes (symbolsOf a) ts rest →
      nextText? ts ≠ some ")") (hl : AreLexical ts)
    (ht : Takes (Symbol.separated (as.map symbolsOf) ++ [.ofText ")"]) ts rest)
    (hdepth : ts.length ≤ depth + rest.length) : (items item).run ts = .ok as rest := by
  obtain ⟨m, ht, hclose⟩ := Takes.append_iff.1 ht
  have hnext : nextText? m = some ")" := hclose.nextText?_eq
  obtain ⟨t, m', rfl, htext, ⟨⟩⟩ := Takes.ofText_cons_iff.1 hclose
  obtain _ | ⟨a, as⟩ := as
  · obtain rfl := Takes.nil_iff.1 ht
    rw [items, itemsRule, run_ifNextIs_of_eq hnext, run_bind_of_ok (run_expectText htext)]
    rfl
  · rw [List.map_cons, Symbol.separated, List.flatMap_map] at ht
    obtain ⟨m, hta, htas⟩ := Takes.append_iff.1 ht
    have hle := htas.length_le
    have hle' := hta.length_le
    have hcount := length_le_of_takes_flatMap htas
    have hstop := stops_of_items htas hnext
    rw [List.length_cons] at hle
    rw [items, itemsRule, run_ifNextIs_of_ne (hfirst a List.mem_cons_self hl hta),
      run_bind_of_ok (hitem a List.mem_cons_self ts m hl hta (by omega) hstop),
      run_bind_of_ok ((run_unlimited _ m).trans (run_moreItems
        (fun b hb => hitem b (List.mem_cons_of_mem a hb)) hcount (hta.areLexical hl) htas
        (by rw [List.length_cons]; omega) hnext)),
      run_bind_of_ok (run_expectText htext)]
    rfl

end Items

/-! ### Primary expressions -/

/-- None of the words for literals is next. -/
theorem run_ifLiteralWord_of_ne {α : Type} {p₁ p₂ p₃ q : Parser α}
    (h : ∀ w ∈ ["NIL", "TRUE", "FALSE"], nextText? ts ≠ some w) :
    (accept "NIL" >>= fun b => if b = true then p₁ else
      accept "TRUE" >>= fun b => if b = true then p₂ else
        accept "FALSE" >>= fun b => if b = true then p₃ else q).run ts = q.run ts := by
  rw [run_ifAccept_of_ne (h _ (by simp)), run_ifAccept_of_ne (h _ (by simp)),
    run_ifAccept_of_ne (h _ (by simp))]

theorem isName_of_mem_literalWords : ∀ w ∈ ["NIL", "TRUE", "FALSE"], IsName w := by
  simp only [List.forall_mem_cons]
  exact ⟨⟨'N', _, rfl, rfl, List.all_eq_true.1 rfl⟩, ⟨'T', _, rfl, rfl, List.all_eq_true.1 rfl⟩,
    ⟨'F', _, rfl, rfl, List.all_eq_true.1 rfl⟩, nofun⟩

/-- A token that denotes a literal is parsed into it. -/
theorem run_primaryWith_of_denotes {t : Token} {tag : Label} {payload : Payload}
    (ht : t.IsLexical) (hd : t.Denotes tag payload) :
    (primaryWith inner).run (t :: rest) = .ok (.literal tag payload) rest := by
  -- Only an identifier can be one of the three words that are tried first.
  have hne : t.kind ≠ .identifier →
      ∀ w ∈ ["NIL", "TRUE", "FALSE"], nextText? (t :: rest) ≠ some w := by
    rintro hk w hw heq
    obtain rfl := Option.some.inj heq
    exact hk ((isName_of_mem_literalWords _ hw).eq_identifier ht)
  rw [primaryWith, primaryRule]
  cases hd with
  | nil h =>
    rw [run_ifAccept_of_eq h]
    rfl
  | true h =>
    rw [run_ifAccept_of_ne (by simp [nextText?, h]), run_ifAccept_of_eq h]
    rfl
  | false h =>
    rw [run_ifAccept_of_ne (by simp [nextText?, h]), run_ifAccept_of_ne (by simp [nextText?, h]),
      run_ifAccept_of_eq h]
    rfl
  | integer hk heq hs hdigits =>
    rw [run_ifLiteralWord_of_ne (hne (by simp [hk])), run_bind_of_ok (run_get _)]
    simp only [hk, heq, readInteger?_append hs hdigits]
    rfl
  | decimal hk heq hs hwhole hfraction =>
    rw [run_ifLiteralWord_of_ne (hne (by simp [hk])), run_bind_of_ok (run_get _)]
    simp only [hk, heq, Decimal.read?_append hs hwhole hfraction]
    rfl
  | character hk heq hbody =>
    rw [run_ifLiteralWord_of_ne (hne (by simp [hk])), run_bind_of_ok (run_get _)]
    simp only [hk, unquote_of_denotes heq hbody]
    rfl
  | string hk heq hbody =>
    rw [run_ifLiteralWord_of_ne (hne (by simp [hk])), run_bind_of_ok (run_get _)]
    simp only [hk, unquote_of_denotes heq hbody]
    rfl

/-- A group is read if the expression in it is. -/
theorem run_primaryWith_group {e : Node} {m : List Token} {t u : Token}
    (ht : t.IsLexical) (hopen : t.text = "(") (he : inner.run m = .ok e (u :: rest))
    (hclose : u.text = ")") : (primaryWith inner).run (t :: m) = .ok (.group e) rest := by
  have hk : t.kind = .operator := by
    rw [IsLexical, hopen] at ht
    exact ht.eq_operator rfl rfl
  rw [primaryWith, primaryRule, run_ifLiteralWord_of_ne (by simp [nextText?, hopen]),
    run_bind_of_ok (run_get _)]
  simp only [hk]
  rw [run_ifAccept_of_eq hopen, run_bind_of_ok he, run_bind_of_ok (run_expectText hclose)]
  rfl

/-- A name is read, and then the next token tells a call from a variable. -/
theorem run_primaryWith_of_name {t : Token} (ht : t.IsLexical) (hname : IsFreeName t.text) :
    (primaryWith inner).run (t :: rest) = (accept "(" >>= fun b => if b = true then (do
        return .call .absent (.text t.text) (← items inner))
      else return .access .absent (.text t.text) : Parser Node).run rest := by
  obtain ⟨hname, hfree⟩ := hname
  have hk : t.kind = .identifier := hname.eq_identifier ht
  -- A parenthesis is an operator, and a name is none.
  have hopen : nextText? (t :: rest) ≠ some "(" := by
    intro heq
    rw [IsLexical, Option.some.inj heq] at ht
    exact absurd (hk.symm.trans (ht.eq_operator rfl rfl)) (by decide)
  rw [primaryWith, primaryRule, run_ifLiteralWord_of_ne, run_bind_of_ok (run_get _)]
  · simp only [hk, if_true]
    rw [run_ifAccept_of_ne hopen, run_bind_of_ok (run_identifier hk)]
  · rintro w hw heq
    obtain rfl := Option.some.inj heq
    exact hfree hw

/-! ### Expressions -/

/-- The rule of a step of the ladder. -/
def ruleAt (inner : Parser Node) : Nat → Parser Node
  | 0 => logicalWith inner
  | 1 => comparisonWith inner
  | 2 => additiveWith inner
  | 3 => multiplicativeWith inner
  | _ => secondaryWith inner

/-- The loop of a step of the ladder. -/
def moreAt (inner : Parser Node) (k fuel : Nat) (n : Node) : Parser Node :=
  if k < 4 then moreOperands (operatorsAt k) (ruleAt inner (k + 1)) fuel n
  else moreMembers inner fuel n

theorem ruleAt_of_lt {k : Nat} (hk : k < 4) :
    ruleAt inner k = chain (operatorsAt k) (ruleAt inner (k + 1)) := by
  match k, hk with
  | 0, _ | 1, _ | 2, _ | 3, _ => rfl

/-- The loop of a step ends where nothing goes on with an expression of the step. -/
theorem run_moreAt_of_stops {k fuel : Nat} {n : Node} (hk : k ≤ 4) (h : Stops k rest) :
    (moreAt inner k fuel n).run rest = .ok n rest := by
  rw [moreAt]
  obtain _ | fuel := fuel
  · split <;> rfl
  split
  · rw [moreOperands, operandRound, run_bind_of_ok (run_get _)]
    obtain _ | ⟨t, rest⟩ := rest
    · rfl
    · have : (operatorsAt k).contains t.text = false := by
        simpa using (h t.text rfl).2.2 k (Nat.le_refl k)
      simp only [this]
      rfl
  · rw [moreMembers, memberRound, run_ifAccept_of_ne]
    · rfl
    · exact fun hpoint => (h "." hpoint).2.1 hk rfl

/-- The member operators start at a primary expression, with fuel for all the tokens that remain. -/
theorem run_secondaryWith {n : Node} (h : (primaryWith inner).run ts = .ok n rest) :
    ∃ fuel, rest.length ≤ fuel ∧
      (ruleAt inner 4).run ts = (moreAt inner 4 fuel n).run rest := by
  refine ⟨rest.length, Nat.le_refl _, ?_⟩
  change (secondaryWith inner).run ts = _
  rw [secondaryWith, run_bind_of_ok h, run_unlimited, moreAt, if_neg (by decide)]

/-- A point and a name after a receiver make it one of its members. -/
theorem run_moreAt_of_point {receiver : Node} {fuel : Nat} {t u : Token} (hpoint : t.text = ".")
    (hk : u.kind = .identifier) :
    (moreAt inner 4 (fuel + 1) receiver).run (t :: u :: rest) =
      (accept "(" >>= fun b => if b = true then (do
          moreAt inner 4 fuel (.call receiver (.text u.text) (← items inner)))
        else moreAt inner 4 fuel (.access receiver (.text u.text)) : Parser Node).run rest := by
  have hloop : ∀ fuel n, moreAt inner 4 fuel n = moreMembers inner fuel n :=
    fun _ _ => if_neg (by decide)
  simp only [hloop]
  rw [moreMembers, memberRound, run_ifAccept_of_eq hpoint, run_bind_of_ok (run_identifier hk)]

/-- An expression is read to its end, once its loop is reached where nothing goes on
    with it. -/
theorem reads_of_run_ruleAt {depth : Nat} {e : Node}
    (h : ∀ {ts rest : List Token}, AreLexical ts → Takes e.symbols ts rest →
      ts.length ≤ depth + rest.length → Stops 1 rest → ∃ fuel, rest.length ≤ fuel ∧
        (ruleAt (expressionWithin depth) 0).run ts =
          (moreAt (expressionWithin depth) 0 fuel e).run rest) :
    (expressionWithin (depth + 1)).Reads depth e.symbols e := by
  intro ts rest hl ht hdepth hstop
  obtain ⟨fuel, _, hrun⟩ := h hl ht hdepth (hstop.mono (Nat.zero_le 1))
  exact hrun.trans (run_moreAt_of_stops (Nat.zero_le 4) hstop)

/-- The rule of a step comes as far as its loop, with the expression as what it has
    built so far, if no tighter expression goes on with what follows. -/
theorem run_ruleAt {k : Nat} {e : Node} (he : IsExpression k e) (depth : Nat)
    (hl : AreLexical ts) (ht : Takes e.symbols ts rest)
    (hdepth : ts.length ≤ depth + rest.length) (hstop : Stops (k + 1) rest) :
    ∃ fuel, rest.length ≤ fuel ∧ (ruleAt (expressionWithin depth) k).run ts =
      (moreAt (expressionWithin depth) k fuel e).run rest := by
  induction he generalizing ts rest depth with
  | @literal n hn =>
    have hsymbols : ∃ tag payload, n = .literal tag payload := by
      cases hn <;> exact ⟨_, _, rfl⟩
    obtain ⟨tag, payload, rfl⟩ := hsymbols
    obtain ⟨t, m, rfl, hd, ⟨⟩⟩ := Takes.literal_cons_iff.1 ht
    exact run_secondaryWith (run_primaryWith_of_denotes (hl t List.mem_cons_self) hd)
  | group he ih =>
    obtain ⟨t, m, rfl, hopen, ht⟩ := Takes.ofText_cons_iff.1 ht
    obtain ⟨m', hte, hclose⟩ := Takes.append_iff.1 ht
    obtain ⟨u, m', rfl, hu, ⟨⟩⟩ := Takes.ofText_cons_iff.1 hclose
    have hle := hte.length_le
    simp only [List.length_cons] at hle hdepth
    -- The parentheses are two tokens, so that there is depth left for what they hold.
    obtain ⟨depth, rfl⟩ : ∃ d, depth = d + 1 := ⟨depth - 1, by omega⟩
    have hrun := reads_of_run_ruleAt (ih depth) _ _ hl.tail hte (by rw [List.length_cons]; omega)
      (stops_of_closer (by decide) (congrArg some hu))
    exact run_secondaryWith (run_primaryWith_group (hl t List.mem_cons_self) hopen hrun hu)
  | name hname =>
    obtain ⟨t, m, rfl, heq, ⟨⟩⟩ := Takes.word_cons_iff.1 ht
    obtain rfl := Label.text.inj heq
    refine run_secondaryWith ?_
    rw [run_primaryWith_of_name (hl t List.mem_cons_self) hname, run_ifAccept_of_ne]
    · rfl
    · exact fun hopen => (hstop "(" hopen).1 rfl
  | @function name arguments hname hargs ih =>
    rw [symbols, eachSymbols_eq_map, ifPresent, List.nil_append] at ht
    obtain ⟨t, m, rfl, heq, hargsTaken⟩ := Takes.word_cons_iff.1 ht
    obtain ⟨u, m, rfl, hu, htargs⟩ := Takes.ofText_cons_iff.1 hargsTaken
    obtain rfl := Label.text.inj heq
    have hle := htargs.length_le
    simp only [List.length_cons] at hle hdepth
    obtain ⟨depth, rfl⟩ : ∃ d, depth = d + 1 := ⟨depth - 1, by omega⟩
    have hrun := run_items (fun a ha => reads_of_run_ruleAt (ih a ha depth))
      (fun a ha => (hargs a ha).nextText?_ne_close) hl.tail.tail htargs (by omega)
    refine run_secondaryWith ?_
    rw [run_primaryWith_of_name (hl t List.mem_cons_self) hname, run_ifAccept_of_eq hu,
      run_bind_of_ok hrun]
    rfl
  | @access receiver name hreceiver hname ih =>
    rw [symbols, hreceiver.ifPresent, List.append_assoc] at ht
    obtain ⟨m, htreceiver, ht⟩ := Takes.append_iff.1 ht
    -- The receiver is what the loop has built so far when it comes to the point. One of the
    -- rounds that are left takes the name.
    obtain ⟨fuel, hfuel, hrun⟩ := ih depth hl htreceiver (by have := ht.length_le; omega)
      (stops_of_point ht.nextText?_eq)
    have hlm := htreceiver.areLexical hl
    obtain ⟨t, m, rfl, hpoint, htname⟩ := Takes.ofText_cons_iff.1 ht
    obtain ⟨u, m, rfl, heq, ⟨⟩⟩ := Takes.word_cons_iff.1 htname
    obtain rfl := Label.text.inj heq
    simp only [List.length_cons] at hfuel
    obtain ⟨fuel, rfl⟩ : ∃ f, fuel = f + 1 := ⟨fuel - 1, by omega⟩
    refine ⟨fuel, by omega, hrun.trans ?_⟩
    rw [run_moreAt_of_point hpoint (hname.eq_identifier (hlm.tail u List.mem_cons_self)),
      run_ifAccept_of_ne fun hopen => (hstop "(" hopen).1 rfl]
  | @call receiver name arguments hreceiver hname hargs ih ihargs =>
    rw [symbols, hreceiver.ifPresent, eachSymbols_eq_map, List.append_assoc] at ht
    obtain ⟨m, htreceiver, ht⟩ := Takes.append_iff.1 ht
    obtain ⟨fuel, hfuel, hrun⟩ := ih depth hl htreceiver (by have := ht.length_le; omega)
      (stops_of_point ht.nextText?_eq)
    have hlm := htreceiver.areLexical hl
    have hlem := htreceiver.length_le
    obtain ⟨t, m, rfl, hpoint, htname⟩ := Takes.ofText_cons_iff.1 ht
    obtain ⟨u, m, rfl, heq, htopen⟩ := Takes.word_cons_iff.1 htname
    obtain ⟨v, m, rfl, hv, htargs⟩ := Takes.ofText_cons_iff.1 htopen
    obtain rfl := Label.text.inj heq
    have hle := htargs.length_le
    simp only [List.length_cons] at hfuel hlem
    obtain ⟨fuel, rfl⟩ : ∃ f, fuel = f + 1 := ⟨fuel - 1, by omega⟩
    obtain ⟨depth, rfl⟩ : ∃ d, depth = d + 1 := ⟨depth - 1, by omega⟩
    have hitems := run_items (fun a ha => reads_of_run_ruleAt (ihargs a ha depth))
      (fun a ha => (hargs a ha).nextText?_ne_close) hlm.tail.tail.tail htargs (by omega)
    refine ⟨fuel, by omega, hrun.trans ?_⟩
    rw [run_moreAt_of_point hpoint (hname.eq_identifier (hlm.tail u List.mem_cons_self)),
      run_ifAccept_of_eq hv, run_bind_of_ok hitems]
  | @binary k operator left right hop hleft hright ihleft ihright =>
    rw [symbols] at ht
    obtain ⟨m, htleft, ht⟩ := Takes.append_iff.1 ht
    have hstop' : Stops (k + 1) m := stops_of_operator hop ht.nextText?_eq
    obtain ⟨t, m, rfl, heq, htright⟩ := Takes.word_cons_iff.1 ht
    obtain rfl := Label.text.inj heq
    have hle := htright.length_le
    have hle' := htleft.length_le
    simp only [List.length_cons] at hle'
    -- The left operand is what the loop of this step has built so far when it comes to the
    -- operator; the right one is of a tighter step, whose loop ends where this one goes on.
    obtain ⟨fuel, hfuel, hrun⟩ := ihleft depth hl htleft (by rw [List.length_cons]; omega) hstop'
    rw [List.length_cons] at hfuel
    obtain ⟨fuel, rfl⟩ : ∃ f, fuel = f + 1 := ⟨fuel - 1, by omega⟩
    have hk := lt_of_mem_operatorsAt hop
    refine ⟨fuel, by omega, hrun.trans ?_⟩
    obtain ⟨fuel', _, hrun'⟩ := ihright depth (htleft.areLexical hl).tail htright (by omega)
      (hstop.mono (Nat.le_succ _))
    have hright := hrun'.trans (run_moreAt_of_stops hk hstop)
    rw [moreAt, if_pos hk, moreOperands, operandRound, run_bind_of_ok (run_get _), moreAt,
      if_pos hk]
    simp only [List.contains_iff_mem.2 hop, if_true]
    exact run_bind_of_ok hright
  | tighter hk he ih =>
    -- The loop of the tighter step ends, and that of this step starts with its node.
    obtain ⟨fuel, _, hrun⟩ := ih depth hl ht hdepth (hstop.mono (Nat.le_succ _))
    have hrun := hrun.trans (run_moreAt_of_stops hk hstop)
    refine ⟨rest.length, Nat.le_refl _, ?_⟩
    rw [ruleAt_of_lt hk, chain, run_bind_of_ok hrun, run_unlimited, moreAt, if_pos hk]

/-- Expressions are read. -/
theorem reads_expressionWithin {e : Node} (he : IsExpression 0 e) (depth : Nat) :
    (expressionWithin (depth + 1)).Reads depth e.symbols e :=
  reads_of_run_ruleAt (run_ruleAt he depth)

/-- An expression is read from the tokens that spell it, up to a token that no expression goes on
    with. -/
theorem run_expression {e : Node} (he : IsExpression 0 e) (hl : AreLexical ts)
    (ht : Takes e.symbols ts rest) (hstop : Stops 0 rest) : expression.run ts = .ok e rest := by
  rw [expression, unbounded, run_bind_of_ok (run_get ts)]
  exact reads_expressionWithin he ts.length ts rest hl ht (Nat.le_add_right _ _) hstop

/-! ### Statements -/

/-- The words of the grammar are spelled like names, so that only their text keeps them from being
    one. -/
theorem isName_of_mem_keywords :
    ∀ w ∈ ["LET", "IF", "FOR", "WHILE", "RETURN", "ELSE", "END"], IsName w := by
  simp only [List.forall_mem_cons]
  exact ⟨⟨'L', _, rfl, rfl, List.all_eq_true.1 rfl⟩, ⟨'I', _, rfl, rfl, List.all_eq_true.1 rfl⟩,
    ⟨'F', _, rfl, rfl, List.all_eq_true.1 rfl⟩, ⟨'W', _, rfl, rfl, List.all_eq_true.1 rfl⟩,
    ⟨'R', _, rfl, rfl, List.all_eq_true.1 rfl⟩, ⟨'E', _, rfl, rfl, List.all_eq_true.1 rfl⟩,
    ⟨'E', _, rfl, rfl, List.all_eq_true.1 rfl⟩, nofun⟩

/-- A keyword is not the first token of an expression that does not start with it. -/
theorem nextText?_ne_of_startsWithout {words : List String} {e : Node} {w : String}
    (h : StartsWithout words e) (he : IsExpression 0 e) (hl : AreLexical ts)
    (ht : Takes e.symbols ts rest) (hw : w ∈ words)
    (hkey : w ∈ ["LET", "IF", "FOR", "WHILE", "RETURN", "ELSE", "END"]) :
    nextText? ts ≠ some w := by
  have hliteral : ∀ w ∈ ["LET", "IF", "FOR", "WHILE", "RETURN", "ELSE", "END"],
      w ∉ ["NIL", "TRUE", "FALSE"] := by decide
  exact fun hnext => h w hw (he.head?_of_nextText? hl ht (hliteral w hkey)
    (fun k hk => .inl ((isName_of_mem_keywords w hkey).eq_identifier hk)) hnext)

/-- A statement does not start with a word that ends its block. -/
theorem nextText?_ne_of_isStatement {words : List String} {s : Node} {w : String}
    (hs : IsStatement words s) (hl : AreLexical ts) (ht : Takes s.symbols ts rest)
    (hw : w ∈ words) (hend : w ∈ ["ELSE", "END"]) : nextText? ts ≠ some w := by
  have hne : ∀ {v ss}, v ∉ ["ELSE", "END"] → Takes (.ofText v :: ss) ts rest →
      nextText? ts ≠ some w := by
    intro v ss hv ht heq
    rw [Option.some.inj (ht.nextText?_eq.symm.trans heq)] at hv
    exact hv hend
  have hkey : ∀ w ∈ ["ELSE", "END"],
      w ∈ ["LET", "IF", "FOR", "WHILE", "RETURN", "ELSE", "END"] := by decide
  cases hs with
  | discard he hstart =>
    obtain ⟨m, ht, _⟩ := Takes.append_iff.1 ht
    exact nextText?_ne_of_startsWithout hstart he hl ht (List.mem_append_right _ hw) (hkey w hend)
  | assignment he hstart _ =>
    obtain ⟨m, ht, _⟩ := Takes.append_iff.1 ht
    exact nextText?_ne_of_startsWithout hstart he hl ht (List.mem_append_right _ hw) (hkey w hend)
  | declaration _ _ => exact hne (by decide) ht
  | choice _ _ _ => exact hne (by decide) ht
  | forLoop _ _ _ _ => exact hne (by decide) ht
  | whileLoop _ _ => exact hne (by decide) ht
  | answer _ => exact hne (by decide) ht

/-- A statement takes tokens. -/
theorem length_lt_of_isStatement {words : List String} {s : Node} (hs : IsStatement words s)
    (ht : Takes s.symbols ts rest) : rest.length < ts.length := by
  have hfirst : ∀ {w ss} {ts : List Token}, Takes (.ofText w :: ss) ts rest →
      rest.length < ts.length := by
    intro w ss ts ht
    obtain ⟨t, m, rfl, _, ht⟩ := Takes.ofText_cons_iff.1 ht
    exact Nat.lt_succ_of_le ht.length_le
  cases hs with
  | discard _ _ =>
    obtain ⟨m, ht, hend⟩ := Takes.append_iff.1 ht
    exact Nat.lt_of_lt_of_le (hfirst hend) ht.length_le
  | assignment _ _ _ =>
    obtain ⟨m, ht, hequals⟩ := Takes.append_iff.1 ht
    exact Nat.lt_of_lt_of_le (hfirst hequals) ht.length_le
  | declaration _ _ => exact hfirst ht
  | choice _ _ _ => exact hfirst ht
  | forLoop _ _ _ _ => exact hfirst ht
  | whileLoop _ _ => exact hfirst ht
  | answer _ => exact hfirst ht

/-- A rule reads a statement, whatever follows. -/
def ReadsStatement (p : Parser Node) (depth : Nat) (s : Node) : Prop :=
  ∀ ts rest, AreLexical ts → Takes s.symbols ts rest → ts.length ≤ depth + rest.length →
    p.run ts = .ok s rest

/-- A block is read up to a word that ends it. No statement in it starts with such a word, and each
    of them nests less deep than the block has tokens. -/
theorem run_blockWith {words : List String} {ss : List Node} {depth : Nat}
    (hss : ∀ s ∈ ss, IsStatement words s) (hread : ∀ s ∈ ss, inner.ReadsStatement depth s)
    (hwords : ∀ w ∈ words, w ∈ ["ELSE", "END"]) (hl : AreLexical ts)
    (ht : Takes (eachSymbols ss).flatten ts rest) (hdepth : ts.length ≤ depth + rest.length)
    (hend : ∃ w ∈ words, nextText? rest = some w) :
    (blockWith inner words).run ts = .ok ss rest := by
  -- A statement takes a token, so that one round for every token and one for the end
  -- are enough.
  have huntil : ∀ fuel, ts.length < fuel →
      (statementsUntil words inner fuel).run ts = .ok ss rest := by
    intro fuel hfuel
    obtain ⟨fuel, rfl⟩ : ∃ f, fuel = f + 1 := ⟨fuel - 1, by omega⟩
    induction ss generalizing ts fuel with
    | nil =>
      obtain rfl := Takes.nil_iff.1 ht
      rw [statementsUntil, statementRound, run_ifNextIsAny_of_eq hend]
      rfl
    | cons s ss ih =>
      rw [List.forall_mem_cons] at hss hread
      obtain ⟨m, hts, htss⟩ := Takes.append_iff.1 ht
      have hlt := length_lt_of_isStatement hss.1 hts
      have hle := htss.length_le
      obtain ⟨fuel, rfl⟩ : ∃ f, fuel = f + 1 := ⟨fuel - 1, by omega⟩
      rw [statementsUntil, statementRound, run_ifNextIsAny_of_ne fun w hw =>
          nextText?_ne_of_isStatement hss.1 hl hts hw (hwords w hw),
        run_bind_of_ok (hread.1 ts m hl hts (by omega)),
        run_bind_of_ok (ih hss.2 hread.2 (hts.areLexical hl) htss (by omega) fuel (by omega))]
      rfl
  rw [blockWith, run_bind_of_ok (run_get ts), huntil _ (Nat.lt_succ_self _)]

/-- An initializer is read, or its absence, which the semicolon tells. -/
theorem run_initializer {e : Node} (he : IsOptionalExpression e) (hl : AreLexical ts)
    (ht : Takes (e.ifPresent (.ofText "=" :: e.symbols)) ts rest)
    (hnext : nextText? rest = some ";") : initializer.run ts = .ok e rest := by
  rcases he with rfl | he
  · obtain rfl := Takes.nil_iff.1 ht
    rw [initializer, initializerRule, run_ifAccept_of_ne (by simp [hnext])]
    rfl
  · rw [he.ifPresent] at ht
    obtain ⟨t, m, rfl, hequals, hte⟩ := Takes.ofText_cons_iff.1 ht
    rw [initializer, initializerRule, run_ifAccept_of_eq hequals]
    exact run_expression he hl.tail hte (stops_of_closer (by decide) hnext)

theorem run_declaration {name : String} {e : Node} (hname : IsName name)
    (he : IsOptionalExpression e) (hl : AreLexical ts)
    (ht : Takes (Node.declaration (.text name) e).symbols ts rest) :
    declaration.run ts = .ok (.declaration (.text name) e) rest := by
  obtain ⟨t, m, rfl, hlet, ht⟩ := Takes.ofText_cons_iff.1 ht
  obtain ⟨u, m, rfl, heq, ht⟩ := Takes.word_cons_iff.1 ht
  obtain ⟨m', hte, hend⟩ := Takes.append_iff.1 ht
  obtain rfl := Label.text.inj heq
  have hvalue := run_initializer he hl.tail.tail hte hend.nextText?_eq
  obtain ⟨v, m', rfl, hv, ⟨⟩⟩ := Takes.ofText_cons_iff.1 hend
  rw [declaration, declarationRule, run_bind_of_ok (run_expectText hlet),
    run_bind_of_ok (run_identifier (hname.eq_identifier (hl.tail u List.mem_cons_self))),
    run_bind_of_ok hvalue, run_bind_of_ok (run_expectText hv)]
  rfl

theorem run_answer {value : Node} (hvalue : IsExpression 0 value) (hl : AreLexical ts)
    (ht : Takes (Node.answer value).symbols ts rest) :
    answer.run ts = .ok (.answer value) rest := by
  obtain ⟨t, m, rfl, hreturn, ht⟩ := Takes.ofText_cons_iff.1 ht
  obtain ⟨m', hte, hend⟩ := Takes.append_iff.1 ht
  have hrun := run_expression hvalue hl.tail hte (stops_of_closer (by decide) hend.nextText?_eq)
  obtain ⟨u, m', rfl, hu, ⟨⟩⟩ := Takes.ofText_cons_iff.1 hend
  rw [answer, answerRule, run_bind_of_ok (run_expectText hreturn), run_bind_of_ok hrun,
    run_bind_of_ok (run_expectText hu)]
  rfl

/-- An expression is a statement if a semicolon follows it. -/
theorem run_simpleStatement_of_discard {e : Node} (he : IsExpression 0 e) (hl : AreLexical ts)
    (ht : Takes (Node.discard e).symbols ts rest) :
    simpleStatement.run ts = .ok (.discard e) rest := by
  obtain ⟨m, hte, hend⟩ := Takes.append_iff.1 ht
  have hnext : nextText? m = some ";" := hend.nextText?_eq
  have hrun := run_expression he hl hte (stops_of_closer (by decide) hnext)
  obtain ⟨t, m, rfl, hsemicolon, ⟨⟩⟩ := Takes.ofText_cons_iff.1 hend
  rw [simpleStatement, simpleStatementRule, run_bind_of_ok hrun,
    run_ifAccept_of_ne (by simp [hnext]), run_bind_of_ok (run_expectText hsemicolon)]
  rfl

/-- An assignment is read as the expression of its target first, before the equals sign. -/
theorem run_simpleStatement_of_assignment {receiver value : Node}
    (hreceiver : IsExpression 0 receiver) (hvalue : IsExpression 0 value) (hl : AreLexical ts)
    (ht : Takes (Node.assignment receiver value).symbols ts rest) :
    simpleStatement.run ts = .ok (.assignment receiver value) rest := by
  obtain ⟨m, hte, ht⟩ := Takes.append_iff.1 ht
  have hrun := run_expression hreceiver hl hte (stops_of_closer (by decide) ht.nextText?_eq)
  have hlm := hte.areLexical hl
  obtain ⟨t, m, rfl, hequals, ht⟩ := Takes.ofText_cons_iff.1 ht
  obtain ⟨m', htvalue, hend⟩ := Takes.append_iff.1 ht
  have hrun' := run_expression hvalue hlm.tail htvalue
    (stops_of_closer (by decide) hend.nextText?_eq)
  obtain ⟨u, m', rfl, hu, ⟨⟩⟩ := Takes.ofText_cons_iff.1 hend
  rw [simpleStatement, simpleStatementRule, run_bind_of_ok hrun, run_ifAccept_of_eq hequals,
    run_bind_of_ok hrun', run_bind_of_ok (run_expectText hu)]
  rfl

theorem run_whileLoopWith {condition : Node} {statements : List Node} {depth : Nat}
    (hcondition : IsExpression 0 condition) (hstatements : ∀ s ∈ statements, IsStatement ["END"] s)
    (hread : ∀ s ∈ statements, inner.ReadsStatement depth s) (hl : AreLexical ts)
    (ht : Takes (Node.whileLoop condition statements).symbols ts rest)
    (hdepth : ts.length ≤ depth + 1 + rest.length) :
    (whileLoopWith inner).run ts = .ok (.whileLoop condition statements) rest := by
  obtain ⟨t, m, rfl, hwhile, ht⟩ := Takes.ofText_cons_iff.1 ht
  obtain ⟨m', htc, ht⟩ := Takes.append_iff.1 ht
  have hrun := run_expression hcondition hl.tail htc
    (stops_of_closer (by decide) ht.nextText?_eq)
  have hlm := htc.areLexical hl.tail
  have hle := htc.length_le
  obtain ⟨u, m', rfl, hdo, ht⟩ := Takes.ofText_cons_iff.1 ht
  obtain ⟨m'', htblock, hend⟩ := Takes.append_iff.1 ht
  have hle' := htblock.length_le
  have hnext : nextText? m'' = some "END" := hend.nextText?_eq
  obtain ⟨v, m'', rfl, hv, ⟨⟩⟩ := Takes.ofText_cons_iff.1 hend
  simp only [List.length_cons] at hdepth hle hle'
  have hblock := run_blockWith hstatements hread (by simp) hlm.tail htblock
    (by rw [List.length_cons]; omega) ⟨"END", by simp, hnext⟩
  rw [whileLoopWith, whileLoopRule, run_bind_of_ok (run_expectText hwhile), run_bind_of_ok hrun,
    run_bind_of_ok (run_expectText hdo), run_bind_of_ok hblock, run_bind_of_ok (run_expectText hv)]
  rfl

/-- A choice is read with both branches. The second one is missing if `END` follows the first. -/
theorem run_choiceWith {condition : Node} {thenStatements elseStatements : List Node} {depth : Nat}
    (hcondition : IsExpression 0 condition)
    (hthen : ∀ s ∈ thenStatements, IsStatement ["ELSE", "END"] s)
    (helse : ∀ s ∈ elseStatements, IsStatement ["END"] s)
    (hreadThen : ∀ s ∈ thenStatements, inner.ReadsStatement depth s)
    (hreadElse : ∀ s ∈ elseStatements, inner.ReadsStatement depth s) (hl : AreLexical ts)
    (ht : Takes (Node.choice condition thenStatements elseStatements).symbols ts rest)
    (hdepth : ts.length ≤ depth + 1 + rest.length) :
    (choiceWith inner).run ts = .ok (.choice condition thenStatements elseStatements) rest := by
  obtain ⟨t, m, rfl, hif, ht⟩ := Takes.ofText_cons_iff.1 ht
  obtain ⟨m', htc, ht⟩ := Takes.append_iff.1 ht
  have hrun := run_expression hcondition hl.tail htc
    (stops_of_closer (by decide) ht.nextText?_eq)
  have hlm := htc.areLexical hl.tail
  have hle := htc.length_le
  obtain ⟨u, m', rfl, hdo, ht⟩ := Takes.ofText_cons_iff.1 ht
  obtain ⟨m'', htthen, ht⟩ := Takes.append_iff.1 ht
  have hle' := htthen.length_le
  have hle'' := ht.length_le
  simp only [List.length_cons] at hdepth hle
  have hblock := fun hnext => run_blockWith hthen hreadThen (fun w hw => hw) hlm.tail htthen
    (by omega) hnext
  rw [choiceWith, choiceRule, run_bind_of_ok (run_expectText hif), run_bind_of_ok hrun,
    run_bind_of_ok (run_expectText hdo)]
  rcases Takes.optionalIf_cons_iff.1 ht with ⟨hempty, ht⟩ | ⟨v, n, rfl, hv, ht⟩
  -- Without an `ELSE` there are no statements for it, and the end of the whole follows.
  · obtain rfl := List.isEmpty_iff.1 hempty
    rw [eachSymbols, List.flatten_nil, List.nil_append] at ht
    have hnext : nextText? m'' = some "END" := ht.nextText?_eq
    rw [run_bind_of_ok (hblock ⟨"END", by simp, hnext⟩), run_ifAccept_of_ne (by simp [hnext])]
    obtain ⟨w, n, rfl, hw, ⟨⟩⟩ := Takes.ofText_cons_iff.1 ht
    rw [pure_bind, run_bind_of_ok (run_expectText hw)]
    rfl
  · obtain ⟨n', htelse, hend⟩ := Takes.append_iff.1 ht
    have hlen := htelse.length_le
    have hnext : nextText? n' = some "END" := hend.nextText?_eq
    obtain ⟨w, n', rfl, hw, ⟨⟩⟩ := Takes.ofText_cons_iff.1 hend
    simp only [List.length_cons] at hlen hle' hle''
    rw [run_bind_of_ok (hblock ⟨"ELSE", by simp, congrArg some hv⟩), run_ifAccept_of_eq hv,
      run_bind_of_ok (run_blockWith helse hreadElse (by simp) (htthen.areLexical hlm.tail).tail
        htelse (by rw [List.length_cons]; omega) ⟨"END", by simp, hnext⟩),
      run_bind_of_ok (run_expectText hw)]
    rfl

/-- The first part of the head of a loop is read up to the semicolon. -/
theorem run_forInitializer {n : Node} (hn : IsForInitializer n) (hl : AreLexical ts)
    (ht : Takes (headSymbols n) ts rest) (hnext : nextText? rest = some ";") :
    forInitializer.run ts = .ok n rest := by
  rcases hn with rfl | ⟨name, e, rfl, hname, he⟩
  · obtain rfl := Takes.nil_iff.1 ht
    rw [forInitializer, forInitializerRule, run_ifNextIs_of_eq hnext]
    rfl
  · obtain ⟨t, m, rfl, heq, ht⟩ := Takes.word_cons_iff.1 ht
    obtain ⟨u, m, rfl, hequals, hte⟩ := Takes.ofText_cons_iff.1 ht
    obtain rfl := Label.text.inj heq
    have hk := hname.eq_identifier (hl t List.mem_cons_self)
    have hsemicolon : nextText? (t :: u :: m) ≠ some ";" := by
      intro h
      have ht := hl t List.mem_cons_self
      rw [IsLexical, Option.some.inj h] at ht
      exact absurd (hk.symm.trans (ht.eq_operator rfl rfl)) (by decide)
    rw [forInitializer, forInitializerRule, run_ifNextIs_of_ne hsemicolon,
      run_bind_of_ok (run_identifier hk), run_bind_of_ok (run_expectText hequals),
      run_bind_of_ok (run_expression he hl.tail.tail hte (stops_of_closer (by decide) hnext))]
    rfl

/-- The last part of the head of a loop is read up to the parenthesis. -/
theorem run_forIncrement {n : Node} (hn : IsForIncrement n) (hl : AreLexical ts)
    (ht : Takes (headSymbols n) ts rest) (hnext : nextText? rest = some ")") :
    forIncrement.run ts = .ok n rest := by
  rcases hn with rfl | ⟨receiver, e, rfl, hreceiver, he⟩
  · obtain rfl := Takes.nil_iff.1 ht
    rw [forIncrement, forIncrementRule, run_ifNextIs_of_eq hnext]
    rfl
  · obtain ⟨m, htreceiver, ht⟩ := Takes.append_iff.1 ht
    have hrun := run_expression hreceiver hl htreceiver
      (stops_of_closer (by decide) ht.nextText?_eq)
    have hlm := htreceiver.areLexical hl
    obtain ⟨t, m, rfl, hequals, hte⟩ := Takes.ofText_cons_iff.1 ht
    rw [forIncrement, forIncrementRule,
      run_ifNextIs_of_ne (hreceiver.nextText?_ne_close hl htreceiver),
      run_bind_of_ok hrun, run_bind_of_ok (run_expectText hequals),
      run_bind_of_ok (run_expression he hlm.tail hte (stops_of_closer (by decide) hnext))]
    rfl

/-- A loop is read with all parts of its head. The body nests one level less deep than the tokens of
    the loop allow. -/
theorem run_forLoopWith {initializer condition increment : Node} {statements : List Node}
    {depth : Nat} (hinitializer : IsForInitializer initializer)
    (hcondition : IsExpression 0 condition) (hincrement : IsForIncrement increment)
    (hstatements : ∀ s ∈ statements, IsStatement ["END"] s)
    (hread : ∀ s ∈ statements, inner.ReadsStatement depth s) (hl : AreLexical ts)
    (ht : Takes (Node.forLoop initializer condition increment statements).symbols ts rest)
    (hdepth : ts.length ≤ depth + 1 + rest.length) : (forLoopWith inner).run ts =
      .ok (.forLoop initializer condition increment statements) rest := by
  -- The tokens are taken apart in the order the rule reads them; each part ends at the symbol that
  -- follows it.
  obtain ⟨t, m, rfl, hfor, ht⟩ := Takes.ofText_cons_iff.1 ht
  obtain ⟨u, m, rfl, hopen, ht⟩ := Takes.ofText_cons_iff.1 ht
  obtain ⟨m₁, hti, ht⟩ := Takes.append_iff.1 ht
  have hfirst := run_forInitializer hinitializer hl.tail.tail hti ht.nextText?_eq
  have hl₁ := hti.areLexical hl.tail.tail
  have hle₁ := hti.length_le
  obtain ⟨v₁, m₁, rfl, hv₁, ht⟩ := Takes.ofText_cons_iff.1 ht
  obtain ⟨m₂, htc, ht⟩ := Takes.append_iff.1 ht
  have hrun := run_expression hcondition hl₁.tail htc (stops_of_closer (by decide) ht.nextText?_eq)
  have hl₂ := htc.areLexical hl₁.tail
  have hle₂ := htc.length_le
  obtain ⟨v₂, m₂, rfl, hv₂, ht⟩ := Takes.ofText_cons_iff.1 ht
  obtain ⟨m₃, htu, ht⟩ := Takes.append_iff.1 ht
  have hlast := run_forIncrement hincrement hl₂.tail htu ht.nextText?_eq
  have hl₃ := htu.areLexical hl₂.tail
  have hle₃ := htu.length_le
  obtain ⟨v₃, m₃, rfl, hv₃, ht⟩ := Takes.ofText_cons_iff.1 ht
  obtain ⟨m₄, htblock, hend⟩ := Takes.append_iff.1 ht
  have hnext : nextText? m₄ = some "END" := hend.nextText?_eq
  obtain ⟨v₄, m₄, rfl, hv₄, ⟨⟩⟩ := Takes.ofText_cons_iff.1 hend
  simp only [List.length_cons] at hdepth hle₁ hle₂ hle₃
  have hblock := run_blockWith hstatements hread (by simp) hl₃.tail htblock
    (by rw [List.length_cons]; omega) ⟨"END", by simp, hnext⟩
  rw [forLoopWith, forLoopRule, run_bind_of_ok (run_expectText hfor),
    run_bind_of_ok (run_expectText hopen),
    run_bind_of_ok hfirst, run_bind_of_ok (run_expectText hv₁), run_bind_of_ok hrun,
    run_bind_of_ok (run_expectText hv₂), run_bind_of_ok hlast, run_bind_of_ok (run_expectText hv₃),
    run_bind_of_ok hblock, run_bind_of_ok (run_expectText hv₄)]
  rfl

/-- A statement that starts with none of the words for statements is a simple one. -/
theorem run_statementWith_of_startsWithout {words : List String} {e : Node} {m : List Token}
    (he : IsExpression 0 e) (hstart : StartsWithout (statementWords ++ words) e)
    (hl : AreLexical ts) (ht : Takes e.symbols ts m) :
    (statementWith inner).run ts = simpleStatement.run ts := by
  have hne : ∀ w ∈ statementWords, nextText? ts ≠ some w := by
    have hkey : ∀ w ∈ statementWords,
        w ∈ ["LET", "IF", "FOR", "WHILE", "RETURN", "ELSE", "END"] := by decide
    exact fun w hw => nextText?_ne_of_startsWithout hstart he hl ht (List.mem_append_left _ hw)
      (hkey w hw)
  simp only [statementWords, List.forall_mem_cons] at hne
  obtain ⟨hlet, hif, hfor, hwhile, hreturn, _⟩ := hne
  rw [statementWith, statementRule, run_ifNextIs_of_ne hlet, run_ifNextIs_of_ne hif,
    run_ifNextIs_of_ne hfor, run_ifNextIs_of_ne hwhile, run_ifNextIs_of_ne hreturn]

/-- What starts with a word takes a token, so that there is depth left for what is
    inside. -/
theorem exists_eq_succ_of_takes {w : String} {ss : List Symbol} {depth : Nat}
    (ht : Takes (.ofText w :: ss) ts rest) (hdepth : ts.length ≤ depth + rest.length) :
    ∃ d, depth = d + 1 := by
  obtain ⟨t, m, rfl, _, ht⟩ := Takes.ofText_cons_iff.1 ht
  have := ht.length_le
  rw [List.length_cons] at hdepth
  exact ⟨depth - 1, by omega⟩

/-- Statements are read, as deep as there are tokens. -/
theorem readsStatement_statementWithin {words : List String} {s : Node} (hs : IsStatement words s)
    (depth : Nat) : (statementWithin (depth + 1)).ReadsStatement depth s := by
  -- By induction on the statement: its first word is passed over by every rule above its own, and
  -- the parts are read by the same parser one level deeper.
  induction hs generalizing depth with
  | discard he hstart =>
    intro ts rest hl ht _
    obtain ⟨m, hte, _⟩ := Takes.append_iff.1 ht
    rw [statementWithin, run_statementWith_of_startsWithout he hstart hl hte]
    exact run_simpleStatement_of_discard he hl ht
  | assignment he hstart hvalue =>
    intro ts rest hl ht _
    obtain ⟨m, hte, _⟩ := Takes.append_iff.1 ht
    rw [statementWithin, run_statementWith_of_startsWithout he hstart hl hte]
    exact run_simpleStatement_of_assignment he hvalue hl ht
  | declaration hname he =>
    intro ts rest hl ht _
    rw [statementWithin, statementWith, statementRule, run_ifNextIs_of_eq ht.nextText?_eq]
    exact run_declaration hname he hl ht
  | choice hcondition hthen helse ihthen ihelse =>
    intro ts rest hl ht hdepth
    have hnext : nextText? ts = some "IF" := ht.nextText?_eq
    obtain ⟨depth, rfl⟩ := exists_eq_succ_of_takes ht hdepth
    rw [statementWithin, statementWith, statementRule, run_ifNextIs_of_ne (by simp [hnext]),
      run_ifNextIs_of_eq hnext]
    exact run_choiceWith hcondition hthen helse (fun s hs => ihthen s hs depth)
      (fun s hs => ihelse s hs depth) hl ht hdepth
  | forLoop hinitializer hcondition hincrement hstatements ih =>
    intro ts rest hl ht hdepth
    have hnext : nextText? ts = some "FOR" := ht.nextText?_eq
    obtain ⟨depth, rfl⟩ := exists_eq_succ_of_takes ht hdepth
    rw [statementWithin, statementWith, statementRule, run_ifNextIs_of_ne (by simp [hnext]),
      run_ifNextIs_of_ne (by simp [hnext]), run_ifNextIs_of_eq hnext]
    exact run_forLoopWith hinitializer hcondition hincrement hstatements
      (fun s hs => ih s hs depth) hl ht hdepth
  | whileLoop hcondition hstatements ih =>
    intro ts rest hl ht hdepth
    have hnext : nextText? ts = some "WHILE" := ht.nextText?_eq
    obtain ⟨depth, rfl⟩ := exists_eq_succ_of_takes ht hdepth
    rw [statementWithin, statementWith, statementRule, run_ifNextIs_of_ne (by simp [hnext]),
      run_ifNextIs_of_ne (by simp [hnext]), run_ifNextIs_of_ne (by simp [hnext]),
      run_ifNextIs_of_eq hnext]
    exact run_whileLoopWith hcondition hstatements (fun s hs => ih s hs depth) hl ht hdepth
  | answer hvalue =>
    intro ts rest hl ht _
    have hnext : nextText? ts = some "RETURN" := ht.nextText?_eq
    rw [statementWithin, statementWith, statementRule, run_ifNextIs_of_ne (by simp [hnext]),
      run_ifNextIs_of_ne (by simp [hnext]), run_ifNextIs_of_ne (by simp [hnext]),
      run_ifNextIs_of_ne (by simp [hnext]), run_ifNextIs_of_eq hnext]
    exact run_answer hvalue hl ht

/-! ### Programs -/

/-- A rule reads trees of a kind, whatever follows. All of them start with one word. -/
def ReadsAll (p : Parser Node) (text : String) (IsKind : Node → Prop) : Prop :=
  ∀ n, IsKind n → (∃ ss, n.symbols = .ofText text :: ss) ∧
    ∀ ts rest, AreLexical ts → Takes n.symbols ts rest → p.run ts = .ok n rest

theorem readsAll_field : field.ReadsAll "LET" IsField := by
  rintro _ ⟨hname, hconst, he⟩
  rename_i name isConstant e
  refine ⟨⟨_, rfl⟩, fun ts rest hl ht => ?_⟩
  obtain ⟨t, m, rfl, hlet, ht⟩ := Takes.ofText_cons_iff.1 ht
  -- What follows is the same with and without the word for a constant.
  have hrest : ∀ m, AreLexical m →
      Takes (.word (.text name) :: (e.ifPresent (.ofText "=" :: e.symbols) ++ [.ofText ";"])) m
        rest →
      (identifier >>= fun name => initializer >>= fun value => expectText ";" >>= fun _ =>
        pure (Node.field (.text name) isConstant value) : Parser Node).run m =
          .ok (.field (.text name) isConstant e) rest := by
    intro m hl ht
    obtain ⟨u, m, rfl, heq, ht⟩ := Takes.word_cons_iff.1 ht
    obtain ⟨m', hte, hend⟩ := Takes.append_iff.1 ht
    have hvalue := run_initializer he hl.tail hte hend.nextText?_eq
    obtain ⟨v, m', rfl, hv, ⟨⟩⟩ := Takes.ofText_cons_iff.1 hend
    obtain rfl := Label.text.inj heq
    rw [run_bind_of_ok (run_identifier (hname.eq_identifier (hl u List.mem_cons_self))),
      run_bind_of_ok hvalue, run_bind_of_ok (run_expectText hv)]
    rfl
  rw [field, fieldRule, run_bind_of_ok (run_expectText hlet)]
  cases isConstant with
  | false =>
    have hne : nextText? m ≠ some "CONST" := by
      have ht : Takes (.word (.text name) :: _) m rest := ht
      rw [ht.nextText?_eq]
      simpa using hconst
    rw [run_bind_of_ok (run_accept_of_ne hne)]
    exact hrest m hl.tail ht
  | true =>
    obtain ⟨u, m, rfl, hu, ht⟩ := Takes.ofText_cons_iff.1 ht
    rw [run_bind_of_ok (run_accept_of_eq hu)]
    exact hrest m hl.tail.tail ht

/-- A name is read as such, whatever follows it. -/
theorem reads_identifier {name : String} (hname : IsName name) (depth : Nat) :
    identifier.Reads depth [.word (.text name)] name := by
  intro ts rest hl ht _ _
  obtain ⟨t, m, rfl, heq, ⟨⟩⟩ := Takes.word_cons_iff.1 ht
  obtain rfl := Label.text.inj heq
  exact run_identifier (hname.eq_identifier (hl t List.mem_cons_self))

theorem nextText?_ne_close_of_isName {name : String} (hname : IsName name)
    (ht : Takes [.word (.text name)] ts rest) : nextText? ts ≠ some ")" := by
  intro h
  obtain rfl := Option.some.inj (ht.nextText?_eq.symm.trans h)
  obtain ⟨c, rest, hc, hstart, _⟩ := hname
  obtain rfl := (List.cons.inj hc).1
  contradiction

theorem readsAll_method : method.ReadsAll "DEF" IsMethod := by
  rintro _ ⟨hname, hparameters, hstatements⟩
  rename_i name parameters statements
  refine ⟨⟨_, rfl⟩, fun ts rest hl ht => ?_⟩
  -- The tokens of the method in the order the rule reads them: DEF, the name, the parameters, the
  -- block.
  rw [symbols, List.map_map] at ht
  obtain ⟨t, m, rfl, hdef, ht⟩ := Takes.ofText_cons_iff.1 ht
  obtain ⟨u, m, rfl, heq, ht⟩ := Takes.word_cons_iff.1 ht
  obtain ⟨v, m, rfl, hopen, ht⟩ := Takes.ofText_cons_iff.1 ht
  rw [List.append_cons] at ht
  obtain ⟨m', htparameters, ht⟩ := Takes.append_iff.1 ht
  have hl' := hl.tail.tail.tail
  have hitems := run_items (fun p hp => reads_identifier (hparameters p hp) m.length)
    (fun p hp _ _ _ => nextText?_ne_close_of_isName (hparameters p hp)) hl' htparameters
    (Nat.le_add_right _ _)
  have hlm := htparameters.areLexical hl'
  obtain ⟨w, m', rfl, hdo, ht⟩ := Takes.ofText_cons_iff.1 ht
  obtain ⟨n, htblock, hend⟩ := Takes.append_iff.1 ht
  have hnext : nextText? n = some "END" := hend.nextText?_eq
  obtain ⟨x, n, rfl, hx, ⟨⟩⟩ := Takes.ofText_cons_iff.1 hend
  -- A statement of the body is read by the unbounded parser, within as many levels as there are
  -- tokens.
  have hread : ∀ s ∈ statements, statement.ReadsStatement m'.length s := by
    intro s hs ts rest hl ht _
    rw [statement, unbounded, run_bind_of_ok (run_get ts)]
    exact readsStatement_statementWithin (hstatements s hs) ts.length ts rest hl ht
      (Nat.le_add_right _ _)
  have hblock := run_blockWith hstatements hread (by simp) hlm.tail htblock
    (Nat.le_add_right _ _) ⟨"END", by simp, hnext⟩
  obtain rfl := Label.text.inj heq
  rw [method, methodRule, run_bind_of_ok (run_expectText hdef),
    run_bind_of_ok (run_identifier (hname.eq_identifier (hl.tail u List.mem_cons_self))),
    run_bind_of_ok (run_expectText hopen), run_bind_of_ok hitems,
    run_bind_of_ok (run_expectText hdo), block, run_bind_of_ok hblock,
    run_bind_of_ok (run_expectText hx)]
  rfl

/-- Fields or methods are read until the next token does not start one. By induction on the nodes.
    -/
theorem run_whileNextIs {rule : Parser Node} {text : String} {IsKind : Node → Prop}
    {ns : List Node} {fuel : Nat} (hrule : rule.ReadsAll text IsKind) (hns : ∀ n ∈ ns, IsKind n)
    (hl : AreLexical ts) (ht : Takes (eachSymbols ns).flatten ts rest)
    (hnext : nextText? rest ≠ some text) (hfuel : ts.length ≤ fuel) :
    (whileNextIs text rule fuel).run ts = .ok ns rest := by
  -- By induction on the nodes: each begins with the keyword, and what follows the last does not.
  induction ns generalizing ts fuel with
  | nil =>
    obtain rfl := Takes.nil_iff.1 ht
    obtain _ | fuel := fuel
    · rfl
    · rw [whileNextIs, whileRound, run_ifNextIs_of_ne hnext]
      rfl
  | cons n ns ih =>
    rw [List.forall_mem_cons] at hns
    obtain ⟨m, htn, htns⟩ := Takes.append_iff.1 ht
    obtain ⟨⟨ss, hss⟩, hread⟩ := hrule n hns.1
    have hrun := hread ts m hl htn
    have hlm := htn.areLexical hl
    rw [hss] at htn
    have hfirst : nextText? ts = some text := htn.nextText?_eq
    obtain ⟨t, m', rfl, _, htn⟩ := Takes.ofText_cons_iff.1 htn
    have hle := htn.length_le
    rw [List.length_cons] at hfuel
    obtain ⟨fuel, rfl⟩ : ∃ f, fuel = f + 1 := ⟨fuel - 1, by omega⟩
    rw [whileNextIs, whileRound, run_ifNextIs_of_eq hfirst, run_bind_of_ok hrun,
      run_bind_of_ok (ih hns.2 hlm htns (by omega))]
    rfl

/-- A program is read from the tokens that spell it, and none is left. -/
theorem run_program {n : Node} (hn : IsProgram n) (hl : AreLexical ts)
    (ht : SpelledBy n.symbols ts) : program.run ts = .ok n [] := by
  obtain ⟨hfields, hmethods⟩ := hn
  rename_i fields methods
  obtain ⟨m, htfields, htmethods⟩ := Takes.append_iff.1 ht
  have hnext : nextText? m ≠ some "LET" := by
    obtain _ | ⟨method, methods⟩ := methods
    · obtain rfl := Takes.nil_iff.1 htmethods
      exact (Option.some_ne_none _).symm
    · obtain ⟨⟨ss, hss⟩, _⟩ := readsAll_method method (hmethods method List.mem_cons_self)
      rw [eachSymbols, List.flatten_cons, hss] at htmethods
      rw [htmethods.nextText?_eq]
      decide
  have hlm : AreLexical m := htfields.areLexical hl
  have hend : nextText? [] ≠ some "DEF" := (Option.some_ne_none _).symm
  rw [program, programRule,
    run_bind_of_ok ((run_unlimited _ ts).trans
      (run_whileNextIs readsAll_field hfields hl htfields hnext (Nat.le_refl _))),
    run_bind_of_ok ((run_unlimited _ m).trans
      (run_whileNextIs readsAll_method hmethods hlm htmethods hend (Nat.le_refl _)))]
  rfl

end Parser

end Blockscript
