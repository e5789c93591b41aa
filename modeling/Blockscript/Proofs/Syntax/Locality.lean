import Blockscript.Proofs.Syntax.Completeness

/-!
# One token of lookahead

What a rule does not take is of no account to it, but for the first token of that. It is
this token that a rule fails at. All other tokens that remain may be exchanged for any
number of others; a rule then runs with more or less *fuel*, of which there is as much as
there are tokens. Loops and nested rules never use all of it.

* `Parser.AgreesAt`: two rules do the same on tokens that start alike;
* `AgreesAt.bind`, `AgreesAt.ifAccept`, `AgreesAt.taking`: rules made of others;
* `agrees_itemsRule`, `agrees_choiceRule`, …: rules whose parts do the same;
* `agrees_expressionWithin`, `agrees_statementWithin`: nested rules with different fuel;
* `agrees_program`: whole programs.
-/

namespace Blockscript

open Text Token

namespace Parser

/-- The tokens that remain after a run, whether it fails or not. -/
def remaining {α : Type} : EStateM.Result ParseError.Cause (List Token) α → List Token
  | .ok _ rest => rest
  | .error _ rest => rest

/-- The same outcome with other tokens that remain. -/
def leaving {α : Type} (us : List Token) :
    EStateM.Result ParseError.Cause (List Token) α → EStateM.Result ParseError.Cause (List Token) α
  | .ok a _ => .ok a us
  | .error cause _ => .error cause us

/-- A rule takes tokens off the front, at least `w` of them if it does not fail. Another
    rule has the same outcome on tokens that start alike, up to the first one that
    remains, and of which there are `d` more. -/
def AgreesAt {α : Type} (w : Nat) (d : Int) (p p' : Parser α) (ts : List Token) : Prop :=
  ∃ taken, ts = taken ++ remaining (p.run ts) ∧ (∀ a m, p.run ts = .ok a m → w ≤ taken.length) ∧
    ∀ us, us.head? = (remaining (p.run ts)).head? →
      (us.length : Int) = (remaining (p.run ts)).length + d →
        p'.run (taken ++ us) = leaving us (p.run ts)

variable {α β : Type} {p p' q q' : Parser α} {f f' : α → Parser β} {ts : List Token} {v w : Nat}
  {d d' : Int} {text : String}

namespace AgreesAt

theorem pure (a : α) : AgreesAt 0 d (Pure.pure a : Parser α) (Pure.pure a) ts :=
  ⟨[], rfl, fun _ _ _ => Nat.zero_le _, fun _ _ _ => rfl⟩

theorem throw (cause : ParseError.Cause) :
    AgreesAt w d (MonadExcept.throw cause : Parser α) (MonadExcept.throw cause) ts :=
  ⟨[], rfl, nofun, fun _ _ _ => rfl⟩

/-- What starts alike has the same first token. -/
theorem head?_append {taken us rest : List Token} (h : us.head? = rest.head?) :
    (taken ++ us).head? = (taken ++ rest).head? := by
  cases taken with
  | nil => exact h
  | cons => rfl

/-- Rules one after the other take what they take together. -/
theorem bindAdd (hp : AgreesAt v d p p' ts)
    (hf : ∀ a m, m.length + v ≤ ts.length → AgreesAt w d (f a) (f' a) m) :
    AgreesAt (w + v) d (p >>= f) (p' >>= f') ts := by
  obtain ⟨taken, heq, hweight, hagree⟩ := hp
  rw [AgreesAt, EStateM.run_bind]
  cases hrun : p.run ts with
  | error cause m =>
    -- A failure of the first parser is the failure of both; otherwise the second one starts at the
    -- same token of either input, the difference in length unchanged.
    rw [hrun] at heq hagree
    refine ⟨taken, heq, nofun, fun us hhead hlength => ?_⟩
    rw [EStateM.run_bind, hagree us hhead hlength]
    rfl
  | ok a m =>
    rw [hrun] at heq hagree
    have hv := hweight a m hrun
    have hlengths := congrArg List.length heq
    rw [List.length_append, remaining] at hlengths
    obtain ⟨taken', heq', hweight', hagree'⟩ := hf a m (by omega)
    have hlengths' := congrArg List.length heq'
    rw [List.length_append] at hlengths'
    refine ⟨taken ++ taken', ?_, fun b r hb => ?_, fun us hhead hlength => ?_⟩
    · rw [List.append_assoc]
      exact heq' ▸ heq
    · rw [List.length_append, Nat.add_comm]
      exact Nat.add_le_add hv (hweight' b r hb)
    · have hm : (taken' ++ us).head? = m.head? := (head?_append hhead).trans (by rw [← heq'])
      have hlength' : ((taken' ++ us).length : Int) = m.length + d := by
        rw [List.length_append]
        change (us.length : Int) = (remaining ((f a).run m)).length + d at hlength
        omega
      rw [List.append_assoc, EStateM.run_bind, hagree (taken' ++ us) hm hlength']
      exact hagree' us hhead hlength

/-- Rules one after the other. The second runs on what the first one leaves, of which there is not
    more. -/
theorem bind (hp : AgreesAt 0 d p p' ts)
    (hf : ∀ a m, m.length ≤ ts.length → AgreesAt w d (f a) (f' a) m) :
    AgreesAt w d (p >>= f) (p' >>= f') ts :=
  hp.bindAdd hf

/-- The first of two rules takes a token at least. -/
theorem bindTaking (hp : AgreesAt 1 d p p' ts)
    (hf : ∀ a m, m.length < ts.length → AgreesAt 0 d (f a) (f' a) m) :
    AgreesAt 1 d (p >>= f) (p' >>= f') ts :=
  hp.bindAdd hf

/-- A rule that takes some tokens takes fewer. -/
theorem mono (hp : AgreesAt v d p p' ts) (h : w ≤ v) : AgreesAt w d p p' ts := by
  obtain ⟨taken, heq, hweight, hagree⟩ := hp
  exact ⟨taken, heq, fun a m hrun => Nat.le_trans h (hweight a m hrun), hagree⟩

/-- It may be forgotten how many tokens a rule takes. -/
theorem weaken (hp : AgreesAt w d p p' ts) : AgreesAt 0 d p p' ts :=
  hp.mono (Nat.zero_le w)

/-! ### The next token -/

/-- Without tokens there is nothing to exchange. -/
theorem nil (hrest : remaining (p.run []) = []) (hw : ∀ a m, p.run [] = .ok a m → w = 0)
    (h : p'.run [] = p.run []) : AgreesAt w d p p' [] := by
  refine ⟨[], hrest.symm, fun a m hrun => Nat.le_of_eq (hw a m hrun), fun us hhead _ => ?_⟩
  rw [hrest, List.head?_nil, List.head?_eq_none_iff] at hhead
  subst hhead
  rw [List.append_nil, h]
  cases hrun : p.run [] with
  | ok a m =>
    rw [hrun] at hrest
    exact congrArg _ hrest
  | error cause m =>
    rw [hrun] at hrest
    exact congrArg _ hrest

/-- How a rule goes on is told by the next token. -/
theorem of_head (hq : AgreesAt w d q q' ts) (h : p.run ts = q.run ts)
    (h' : ∀ us, us.head? = ts.head? → p'.run us = q'.run us) : AgreesAt w d p p' ts := by
  obtain ⟨taken, heq, hweight, hagree⟩ := hq
  rw [AgreesAt, h]
  refine ⟨taken, heq, hweight, fun us hhead hlength => ?_⟩
  rw [h' _ ((head?_append hhead).trans (by rw [← heq]))]
  exact hagree us hhead hlength

/-- On tokens of which the first is known, a rule may go on as another one. -/
theorem of_cons {t : Token} {m : List Token} (hq : AgreesAt w d q q' (t :: m))
    (h : p.run (t :: m) = q.run (t :: m)) (h' : ∀ m', p'.run (t :: m') = q'.run (t :: m')) :
    AgreesAt w d p p' (t :: m) := by
  refine hq.of_head h fun us hus => ?_
  obtain ⟨m', rfl⟩ := List.head?_eq_some_iff.1 hus
  exact h' m'

/-- A rule that takes the next token goes on without it. -/
theorem taking {t : Token} {m : List Token} (hq : AgreesAt w d q q' m)
    (h : p.run (t :: m) = q.run m) (h' : ∀ m', p'.run (t :: m') = q'.run m') :
    AgreesAt (w + 1) d p p' (t :: m) := by
  obtain ⟨taken, heq, hweight, hagree⟩ := hq
  rw [AgreesAt, h]
  refine ⟨t :: taken, congrArg _ heq, fun a r ha => Nat.succ_le_succ (hweight a r ha),
    fun us hhead hlength => ?_⟩
  rw [← hagree us hhead hlength]
  exact h' _

/-- A rule may use the number of tokens as fuel. -/
theorem fuel {g g' : List Token → Parser α}
    (h : ∀ us : List Token, ts.length + d ≤ us.length → AgreesAt w d (g ts) (g' us) ts) :
    AgreesAt w d (get >>= g) (get >>= g') ts := by
  -- The tokens taken are the same whatever the fuel of the other rule.
  obtain ⟨taken, heq, hweight, -⟩ := h (List.replicate (ts.length + d).toNat ⟨.operator, "", 0⟩)
    (by rw [List.length_replicate]; omega)
  refine ⟨taken, heq, hweight, fun us hhead hlength => ?_⟩
  have hrest : remaining ((get >>= g).run ts) = remaining ((g ts).run ts) := rfl
  have hlengths := congrArg List.length heq
  rw [List.length_append] at hlengths
  rw [hrest] at hlength
  obtain ⟨taken', heq', _, hagree⟩ := h (taken ++ us) (by rw [List.length_append]; omega)
  obtain rfl := List.append_cancel_right (heq.symm.trans heq')
  exact hagree us hhead hlength

/-- If the exchange would leave no tokens at all, then there were none. -/
theorem of_pos (hne : ts ≠ []) (hbase : AgreesAt w d p q ts)
    (h : 0 < ts.length + d → AgreesAt w d p p' ts) : AgreesAt w d p p' ts := by
  by_cases hd : 0 < ts.length + d
  · exact h hd
  obtain ⟨taken, heq, hweight, _⟩ := hbase
  refine ⟨taken, heq, hweight, fun us hhead hlength => absurd ?_ hne⟩
  have hlengths := congrArg List.length heq
  rw [List.length_append] at hlengths
  have hus : us.length = 0 ∧ taken.length = 0 := by omega
  rw [List.length_eq_zero_iff, List.length_eq_zero_iff] at hus
  obtain ⟨rfl, rfl⟩ := hus
  rw [List.head?_nil, eq_comm, List.head?_eq_none_iff] at hhead
  rw [heq, List.nil_append, hhead]

/-- A loop with fuel for all tokens has some, or nothing to do. -/
theorem of_le (loop' : Nat → Parser α) {n : Nat} (hn : ts.length + d ≤ n)
    (hnil : ts = [] → AgreesAt w d p (loop' n) ts)
    (h : ∀ k : Nat, ts.length + d ≤ k + 1 → AgreesAt w d p (loop' (k + 1)) ts) :
    AgreesAt w d p (loop' n) ts := by
  by_cases hts : ts = []
  · exact hnil hts
  obtain _ | k := n
  · exact of_pos hts (h 0 (by omega)) fun hpos => absurd hn (by omega)
  · exact h k hn

/-- A rule with fuel for one more than all tokens has some. -/
theorem of_lt (rule' : Nat → Parser α) {n : Nat} (hn : ts.length + d < n)
    (h : ∀ k : Nat, ts.length + d < k + 1 → AgreesAt w d p (rule' (k + 1)) ts) :
    AgreesAt w d p (rule' n) ts := by
  obtain _ | k := n
  · obtain ⟨taken, heq, hweight, _⟩ := h 0 (by omega)
    refine ⟨taken, heq, hweight, fun us _ hlength => absurd hlength ?_⟩
    have hlengths := congrArg List.length heq
    rw [List.length_append] at hlengths
    omega
  · exact h k hn

/-! ### Going on as the next token says -/

theorem nextText?_congr {us : List Token} (h : us.head? = ts.head?) :
    nextText? us = nextText? ts := by
  rw [nextText?, nextText?, h]

/-- Which token is next is told by the first one that remains, and this is kept. -/
theorem ifNextIs (hyes : AgreesAt w d p p' ts) (hno : AgreesAt w d q q' ts) :
    AgreesAt w d (nextIs text >>= fun b => if b = true then p else q)
      (nextIs text >>= fun b => if b = true then p' else q') ts := by
  by_cases h : nextText? ts = some text
  · exact hyes.of_head (run_ifNextIs_of_eq h) fun us hus =>
      run_ifNextIs_of_eq ((nextText?_congr hus).trans h)
  · exact hno.of_head (run_ifNextIs_of_ne h) fun us hus =>
      run_ifNextIs_of_ne (nextText?_congr hus ▸ h)

theorem ifNextIsAny {texts : List String} (hyes : AgreesAt w d p p' ts)
    (hno : AgreesAt w d q q' ts) :
    AgreesAt w d (nextIsAny texts >>= fun b => if b = true then p else q)
      (nextIsAny texts >>= fun b => if b = true then p' else q') ts := by
  by_cases h : ∃ v ∈ texts, nextText? ts = some v
  · exact hyes.of_head (run_ifNextIsAny_of_eq h) fun us hus =>
      run_ifNextIsAny_of_eq (nextText?_congr hus ▸ h)
  · have h : ∀ v ∈ texts, nextText? ts ≠ some v := fun v hv heq => h ⟨v, hv, heq⟩
    exact hno.of_head (run_ifNextIsAny_of_ne h) fun us hus =>
      run_ifNextIsAny_of_ne (nextText?_congr hus ▸ h)

/-- The token that is accepted counts among those that are taken. -/
theorem ifAcceptTaking (hw : w ≤ v + 1) (hyes : ∀ m, m.length < ts.length → AgreesAt v d p p' m)
    (hno : AgreesAt w d q q' ts) :
    AgreesAt w d (accept text >>= fun b => if b = true then p else q)
      (accept text >>= fun b => if b = true then p' else q') ts := by
  by_cases h : nextText? ts = some text
  · obtain ⟨t, m, rfl, ht⟩ := nextText?_eq_some_iff.1 h
    exact ((hyes m (Nat.lt_succ_self _)).taking (run_ifAccept_of_eq ht)
      fun m' => run_ifAccept_of_eq ht).mono hw
  · exact hno.of_head (run_ifAccept_of_ne h) fun us hus =>
      run_ifAccept_of_ne (nextText?_congr hus ▸ h)

/-- A token that is taken leaves fewer of them to the rule that goes on. -/
theorem ifAccept (hyes : ∀ m, m.length < ts.length → AgreesAt w d p p' m)
    (hno : AgreesAt w d q q' ts) :
    AgreesAt w d (accept text >>= fun b => if b = true then p else q)
      (accept text >>= fun b => if b = true then p' else q') ts :=
  ifAcceptTaking (Nat.le_succ w) hyes hno

end AgreesAt

/-- A token that is asked for is taken, or it is the one to fail at. -/
theorem agrees_expect {pattern : Token.Pattern} {cause : ParseError.Cause} :
    AgreesAt 1 d (expect pattern cause) (expect pattern cause) ts := by
  obtain _ | ⟨t, m⟩ := ts
  · exact .nil rfl nofun rfl
  by_cases ht : t.fits pattern
  · exact (AgreesAt.pure t).taking (run_expect ht) fun m' => run_expect ht
  · have hrun : ∀ m, (expect pattern cause).run (t :: m) = .error cause (t :: m) := by
      intro m
      rw [expect, EStateM.run_bind, EStateM.run_get]
      simp only [ht]
      rfl
    exact (AgreesAt.throw cause).of_cons (hrun m) hrun

theorem agrees_expectText : AgreesAt 1 d (expectText text) (expectText text) ts :=
  agrees_expect.bindTaking fun _ _ _ => .pure ()

theorem agrees_identifier : AgreesAt 1 d identifier identifier ts :=
  agrees_expect.bindTaking fun t _ _ => .pure t.text

theorem agrees_accept : AgreesAt 0 d (accept text) (accept text) ts := by
  by_cases h : nextText? ts = some text
  · obtain ⟨t, m, rfl, ht⟩ := nextText?_eq_some_iff.1 h
    exact ((AgreesAt.pure true).taking (run_accept_of_eq ht) fun m' => run_accept_of_eq ht).weaken
  · exact (AgreesAt.pure false).of_head (run_accept_of_ne h) fun us hus =>
      run_accept_of_ne (AgreesAt.nextText?_congr hus ▸ h)

/-- A loop may have as many rounds as there are tokens. -/
theorem agrees_unlimited {loop loop' : Nat → Parser α}
    (h : ∀ k k' : Nat, ts.length ≤ k → ts.length + d ≤ k' → AgreesAt w d (loop k) (loop' k') ts) :
    AgreesAt w d (unlimited loop) (unlimited loop') ts :=
  .fuel fun us hus => h ts.length us.length (Nat.le_refl _) hus

/-! ### Lists of items -/

section Items

variable {item item' : Parser α} {more more' : Parser (List α)}

/-- One round of a list: a comma, an item and the rounds after it. -/
theorem agrees_itemRound (hitem : ∀ m, m.length < ts.length → AgreesAt 0 d item item' m)
    (hmore : ∀ m, m.length < ts.length → AgreesAt 0 d more more' m) :
    AgreesAt 0 d (itemRound item more) (itemRound item' more') ts := by
  refine .ifAccept (fun m hm => (hitem m hm).bind fun a m' hm' => ?_) (.pure [])
  exact (hmore m' (by omega)).bind fun as _ _ => .pure (a :: as)

/-- Every comma takes fuel, but also a token. -/
theorem agrees_moreItems {n k k' : Nat} (hitem : ∀ m, m.length < n → AgreesAt 0 d item item' m)
    (hn : ts.length ≤ n) (hk : ts.length ≤ k) (hk' : ts.length + d ≤ k') :
    AgreesAt 0 d (moreItems item k) (moreItems item' k') ts := by
  have hnil : ∀ {item : Parser α} k, (moreItems item k).run [] = .ok [] [] := by
    intro item k
    cases k <;> rfl
  induction k generalizing ts k' with
  | zero =>
    obtain rfl := List.length_eq_zero_iff.1 (Nat.le_zero.1 hk)
    exact .nil rfl (fun _ _ _ => rfl) (hnil k')
  | succ k ih =>
    refine .of_le (moreItems item') hk' ?_ fun k' hk' => ?_
    · rintro rfl
      exact .nil rfl (fun _ _ _ => rfl) (hnil k')
    · exact agrees_itemRound (fun m hm => hitem m (by omega)) fun m hm =>
        ih (by omega) (by omega) (by omega)

/-- The closing parenthesis is the token that every list takes. -/
theorem agrees_itemsRule (hitem : ∀ m, m.length ≤ ts.length → AgreesAt 0 d item item' m)
    (hmore : ∀ m, m.length ≤ ts.length → AgreesAt 0 d more more' m) :
    AgreesAt 1 d (itemsRule item more) (itemsRule item' more') ts := by
  refine .ifNextIs (agrees_expectText.bindTaking fun _ _ _ => .pure []) ?_
  refine (hitem ts (Nat.le_refl _)).bind fun a m hm => (hmore m hm).bind fun as _ _ => ?_
  exact agrees_expectText.bindTaking fun _ _ _ => .pure (a :: as)

/-- A list of items is at least its closing parenthesis. -/
theorem agrees_items (hitem : ∀ m, m.length ≤ ts.length → AgreesAt 0 d item item' m) :
    AgreesAt 1 d (items item) (items item') ts := by
  refine agrees_itemsRule hitem fun m hm => agrees_unlimited fun k k' hk hk' => ?_
  exact agrees_moreItems (n := m.length) (fun m' hm' => hitem m' (by omega)) (Nat.le_refl _) hk hk'

end Items

/-! ### Expressions -/

section Expressions

variable {inner inner' operand operand' : Parser Node} {arguments arguments' : Parser (List Node)}
  {more more' : Node → Parser Node} {operators : List String} {left receiver : Node}

/-- A group, or what a rule does without a parenthesis. -/
theorem agrees_groupOr (hinner : ∀ m, m.length < ts.length → AgreesAt 0 d inner inner' m)
    (hno : AgreesAt 1 d operand operand' ts) :
    AgreesAt 1 d (do
        if ← accept "(" then
          let e ← inner
          expectText ")"
          return Node.group e
        else
          operand)
      (do
        if ← accept "(" then
          let e ← inner'
          expectText ")"
          return Node.group e
        else
          operand') ts := by
  refine .ifAccept (fun m hm => (hinner m hm).bind fun e _ _ => ?_) hno
  exact agrees_expectText.bindTaking fun _ _ _ => .pure (Node.group e)

/-- A name, with the arguments that follow it. -/
theorem agrees_named
    (harguments : ∀ m, m.length < ts.length → AgreesAt 0 d arguments arguments' m) :
    AgreesAt 1 d (do
        let name ← identifier
        if ← accept "(" then
          return Node.call .absent (.text name) (← arguments)
        else
          return Node.access .absent (.text name))
      (do
        let name ← identifier
        if ← accept "(" then
          return Node.call .absent (.text name) (← arguments')
        else
          return Node.access .absent (.text name)) ts := by
  refine agrees_identifier.bindTaking fun name m hm => .ifAccept (fun m' hm' => ?_) (.pure _)
  exact (harguments m' (by omega)).bind fun arguments _ _ => .pure _

/-- The token of a literal decides alone. -/
theorem agrees_literal {t : Token} {m : List Token} (q : Parser Node) (hq : AgreesAt 0 d q q m)
    (h : operand.run (t :: m) = q.run m) (h' : ∀ m', operand'.run (t :: m') = q.run m') :
    AgreesAt 1 d operand operand' (t :: m) :=
  hq.taking h h'

/-- What a literal stands for is told by its token alone. -/
theorem agrees_unquote (t : Token) : AgreesAt 0 d (unquote t) (unquote t) ts := by
  rw [unquote]
  split
  · exact .pure _
  · exact .throw _

/-- A token is taken whatever the parts do. -/
theorem agrees_primaryRule (hinner : ∀ m, m.length < ts.length → AgreesAt 0 d inner inner' m)
    (harguments : ∀ m, m.length < ts.length → AgreesAt 0 d arguments arguments' m) :
    AgreesAt 1 d (primaryRule inner arguments) (primaryRule inner' arguments') ts := by
  have hword : ∀ n : Node, ∀ m : List Token, m.length < ts.length →
      AgreesAt 0 d (pure n) (pure n) m := fun n _ _ => .pure n
  refine .ifAcceptTaking (Nat.le_refl 1) (hword _) (.ifAcceptTaking (Nat.le_refl 1) (hword _)
    (.ifAcceptTaking (Nat.le_refl 1) (hword _) ?_))
  -- After the three literal words, the kind of the next token decides; a parser that has looked at
  -- that token reads the two inputs alike.
  obtain _ | ⟨t, m⟩ := ts
  · exact .nil rfl nofun rfl
  cases hk : t.kind with
  | integer =>
    refine agrees_literal ((readInteger? t.text.toList).elim (throw .unreadableInteger)
      (pure ∘ .integer)) ?_ ?_ fun m' => ?_
    · cases readInteger? t.text.toList with
      | none => exact .throw _
      | some i => exact .pure _
    all_goals
      rw [run_bind_of_ok (run_get _)]
      simp only [hk]
      cases readInteger? t.text.toList <;> rfl
  | decimal =>
    refine agrees_literal ((Decimal.read? t.text.toList).elim (throw .unreadableDecimal)
      (pure ∘ .decimal)) ?_ ?_ fun m' => ?_
    · cases Decimal.read? t.text.toList with
      | none => exact .throw _
      | some d => exact .pure _
    all_goals
      rw [run_bind_of_ok (run_get _)]
      simp only [hk]
      cases Decimal.read? t.text.toList <;> rfl
  | character =>
    refine agrees_literal (do return .character (← unquote t)) ?_ ?_ fun m' => ?_
    · exact (agrees_unquote t).bind fun s _ _ => .pure _
    all_goals
      rw [run_bind_of_ok (run_get _)]
      simp only [hk]
      rfl
  | string =>
    refine agrees_literal (do return .string (← unquote t)) ?_ ?_ fun m' => ?_
    · exact (agrees_unquote t).bind fun s _ _ => .pure _
    all_goals
      rw [run_bind_of_ok (run_get _)]
      simp only [hk]
      rfl
  -- A name or a call, unless a group stands here.
  | identifier =>
    refine AgreesAt.of_cons (agrees_groupOr hinner (agrees_named harguments)) ?_ fun m' => ?_
    all_goals
      rw [run_bind_of_ok (run_get _)]
      simp only [hk]
      rfl
  | operator =>
    refine AgreesAt.of_cons (agrees_groupOr hinner (.throw .missingExpression)) ?_ fun m' => ?_
    all_goals
      rw [run_bind_of_ok (run_get _)]
      simp only [hk]
      rfl

theorem agrees_primaryWith (hinner : ∀ m, m.length < ts.length → AgreesAt 0 d inner inner' m) :
    AgreesAt 1 d (primaryWith inner) (primaryWith inner') ts :=
  agrees_primaryRule hinner fun _ hm => (agrees_items fun m hm' => hinner m (by omega)).weaken

/-- One round of a chain of operators: an operator, its operand and the rounds after it. -/
theorem agrees_operandRound (hoperand : ∀ m, m.length < ts.length → AgreesAt 0 d operand operand' m)
    (hmore : ∀ n m, m.length < ts.length → AgreesAt 0 d (more n) (more' n) m) :
    AgreesAt 0 d (operandRound operators operand more left)
      (operandRound operators operand' more' left) ts := by
  obtain _ | ⟨t, m⟩ := ts
  · exact .nil rfl (fun _ _ _ => rfl) rfl
  -- Only the text of the next token is looked at, and it is the same in both inputs.
  by_cases ht : operators.contains t.text
  · have hright : AgreesAt 0 d
        (do
          let right ← operand
          more (.binary (.text t.text) left right))
        (do
          let right ← operand'
          more' (.binary (.text t.text) left right)) m :=
      (hoperand m (Nat.lt_succ_self _)).bind fun right m' hm' =>
        hmore _ m' (Nat.lt_succ_of_le hm')
    refine (hright.taking ?_ fun m' => ?_).weaken
    all_goals
      rw [operandRound, run_bind_of_ok (run_get _)]
      simp only [ht, if_true]
      rfl
  · refine (AgreesAt.pure left).of_cons ?_ fun m' => ?_
    all_goals
      rw [operandRound, run_bind_of_ok (run_get _)]
      simp only [ht]
      rfl

/-- Every operator takes fuel, but also a token. -/
theorem agrees_moreOperands {n k k' : Nat}
    (hoperand : ∀ m, m.length < n → AgreesAt 0 d operand operand' m) (hn : ts.length ≤ n)
    (hk : ts.length ≤ k) (hk' : ts.length + d ≤ k') :
    AgreesAt 0 d (moreOperands operators operand k left) (moreOperands operators operand' k' left)
      ts := by
  have hnil : ∀ {operand : Parser Node} k left,
      (moreOperands operators operand k left).run [] = .ok left [] := by
    intro operand k left
    cases k <;> rfl
  induction k generalizing ts k' left with
  | zero =>
    obtain rfl := List.length_eq_zero_iff.1 (Nat.le_zero.1 hk)
    exact .nil rfl (fun _ _ _ => rfl) (hnil k' left)
  | succ k ih =>
    refine .of_le (moreOperands operators operand' · left) hk' ?_ fun k' hk' => ?_
    · rintro rfl
      exact .nil rfl (fun _ _ _ => rfl) (hnil k' left)
    · exact agrees_operandRound (fun m hm => hoperand m (by omega)) fun n m hm =>
        ih (by omega) (by omega) (by omega)

theorem agrees_chain (hoperand : ∀ m, m.length ≤ ts.length → AgreesAt 1 d operand operand' m) :
    AgreesAt 1 d (chain operators operand) (chain operators operand') ts := by
  refine (hoperand ts (Nat.le_refl _)).bindTaking fun left m hm =>
    agrees_unlimited fun k k' hk hk' => ?_
  exact agrees_moreOperands (n := m.length) (fun m' hm' => (hoperand m' (by omega)).weaken)
    (Nat.le_refl _) hk hk'

/-- One round of a chain of members: a point, a name, maybe arguments and the rounds after it. -/
theorem agrees_memberRound
    (harguments : ∀ m, m.length < ts.length → AgreesAt 0 d arguments arguments' m)
    (hmore : ∀ n m, m.length < ts.length → AgreesAt 0 d (more n) (more' n) m) :
    AgreesAt 0 d (memberRound arguments more receiver) (memberRound arguments' more' receiver)
      ts := by
  refine .ifAccept (fun m hm => agrees_identifier.weaken.bind fun name m' hm' => ?_) (.pure _)
  refine .ifAccept (fun m'' hm'' => ?_) (hmore _ m' (by omega))
  exact (harguments m'' (by omega)).bind fun arguments r hr => hmore _ r (by omega)

/-- Every point takes fuel, but also a token. -/
theorem agrees_moreMembers {n k k' : Nat}
    (hinner : ∀ m, m.length < n → AgreesAt 0 d inner inner' m) (hn : ts.length ≤ n)
    (hk : ts.length ≤ k) (hk' : ts.length + d ≤ k') :
    AgreesAt 0 d (moreMembers inner k receiver) (moreMembers inner' k' receiver) ts := by
  have hnil : ∀ {inner : Parser Node} k receiver,
      (moreMembers inner k receiver).run [] = .ok receiver [] := by
    intro inner k receiver
    cases k <;> rfl
  induction k generalizing ts k' receiver with
  | zero =>
    obtain rfl := List.length_eq_zero_iff.1 (Nat.le_zero.1 hk)
    exact .nil rfl (fun _ _ _ => rfl) (hnil k' receiver)
  | succ k ih =>
    refine .of_le (moreMembers inner' · receiver) hk' ?_ fun k' hk' => ?_
    · rintro rfl
      exact .nil rfl (fun _ _ _ => rfl) (hnil k' receiver)
    · exact agrees_memberRound
        (fun m hm => (agrees_items fun m' hm' => hinner m' (by omega)).weaken)
        fun n m hm => ih (by omega) (by omega) (by omega)

theorem agrees_secondaryWith (hinner : ∀ m, m.length < ts.length → AgreesAt 0 d inner inner' m) :
    AgreesAt 1 d (secondaryWith inner) (secondaryWith inner') ts := by
  refine (agrees_primaryWith hinner).bindTaking fun receiver m hm =>
    agrees_unlimited fun k k' hk hk' => ?_
  exact agrees_moreMembers (n := m.length) (fun m' hm' => hinner m' (by omega)) (Nat.le_refl _)
    hk hk'

/-- The ladder of operators is one chain around the other. -/
theorem agrees_logicalWith (hinner : ∀ m, m.length < ts.length → AgreesAt 0 d inner inner' m) :
    AgreesAt 1 d (logicalWith inner) (logicalWith inner') ts := by
  refine agrees_chain fun m₁ h₁ => agrees_chain fun m₂ h₂ => agrees_chain fun m₃ h₃ =>
    agrees_chain fun m₄ h₄ => agrees_secondaryWith fun m hm => hinner m ?_
  omega

end Expressions

/-- An expression nests less deep than it has tokens. -/
theorem agrees_expressionWithin {n n' : Nat} (hn : ts.length < n) (hn' : ts.length + d < n') :
    AgreesAt 1 d (expressionWithin n) (expressionWithin n') ts := by
  induction n generalizing ts n' with
  | zero => exact absurd hn (Nat.not_lt_zero _)
  | succ n ih =>
    exact .of_lt expressionWithin hn' fun n' hn' =>
      agrees_logicalWith fun m hm => (ih (by omega) (by omega)).weaken

/-- A rule whose depth is the number of tokens is given some for the tokens exchanged, too; so it is
    enough that it does the same at any two depths that are larger than these numbers. -/
theorem agrees_unbounded {rule : Nat → Parser α}
    (h : ∀ n n' : Nat, ts.length < n → ts.length + d < n' → AgreesAt w d (rule n) (rule n') ts) :
    AgreesAt w d (unbounded rule) (unbounded rule) ts :=
  .fuel fun us hus => h (ts.length + 1) (us.length + 1) (by omega) (by omega)

theorem agrees_expression : AgreesAt 1 d expression expression ts :=
  agrees_unbounded fun _ _ hn hn' => agrees_expressionWithin hn hn'

/-! ### Statements -/

section Statements

variable {inner inner' : Parser Node} {words : List String}

section Rules

variable {value value' first first' last last' : Parser Node} {body body' : Parser (List Node)}
  {block block' : List String → Parser (List Node)}

section Later

variable (hvalue : ∀ m, m.length < ts.length → AgreesAt 1 d value value' m)

include hvalue

/-- The branches of a choice run on fewer tokens, as its first word is taken before. -/
theorem agrees_choiceRule
    (hblock : ∀ words m, m.length < ts.length → AgreesAt 0 d (block words) (block' words) m) :
    AgreesAt 1 d (choiceRule value block) (choiceRule value' block') ts := by
  refine agrees_expectText.bindTaking fun _ m₁ h₁ => (hvalue m₁ h₁).weaken.bind fun test m₂ h₂ => ?_
  refine agrees_expectText.weaken.bind fun _ m₃ h₃ => ?_
  refine (hblock _ m₃ (by omega)).bind fun thenStatements m₄ h₄ => .ifAccept (fun m₅ h₅ => ?_) ?_
  · refine (hblock _ m₅ (by omega)).bind fun elseStatements _ _ => ?_
    exact agrees_expectText.weaken.bind fun _ _ _ => .pure _
  · exact agrees_expectText.weaken.bind fun _ _ _ => .pure _

theorem agrees_whileLoopRule (hbody : ∀ m, m.length < ts.length → AgreesAt 0 d body body' m) :
    AgreesAt 1 d (whileLoopRule value body) (whileLoopRule value' body') ts := by
  refine agrees_expectText.bindTaking fun _ m₁ h₁ => (hvalue m₁ h₁).weaken.bind fun test m₂ h₂ => ?_
  refine agrees_expectText.weaken.bind fun _ m₃ h₃ => ?_
  refine (hbody m₃ (by omega)).bind fun statements _ _ => ?_
  exact agrees_expectText.weaken.bind fun _ _ _ => .pure _

/-- The parts of the head of a loop and its body run on fewer tokens, as its first word is taken
    before. -/
theorem agrees_forLoopRule (hfirst : ∀ m, m.length < ts.length → AgreesAt 0 d first first' m)
    (hlast : ∀ m, m.length < ts.length → AgreesAt 0 d last last' m)
    (hbody : ∀ m, m.length < ts.length → AgreesAt 0 d body body' m) :
    AgreesAt 1 d (forLoopRule first value last body) (forLoopRule first' value' last' body')
      ts := by
  refine agrees_expectText.bindTaking fun _ m₁ h₁ => agrees_expectText.weaken.bind fun _ m₂ h₂ => ?_
  refine (hfirst m₂ (by omega)).bind fun _ m₃ h₃ => agrees_expectText.weaken.bind fun _ m₄ h₄ => ?_
  refine (hvalue m₄ (by omega)).weaken.bind fun _ m₅ h₅ => ?_
  refine agrees_expectText.weaken.bind fun _ m₆ h₆ => (hlast m₆ (by omega)).bind fun _ m₇ h₇ => ?_
  refine agrees_expectText.weaken.bind fun _ m₈ h₈ => ?_
  refine (hbody m₈ (by omega)).bind fun statements _ _ => ?_
  exact agrees_expectText.weaken.bind fun _ _ _ => .pure _

theorem agrees_answerRule : AgreesAt 1 d (answerRule value) (answerRule value') ts := by
  refine agrees_expectText.bindTaking fun _ m hm => (hvalue m hm).weaken.bind fun _ _ _ => ?_
  exact agrees_expectText.weaken.bind fun _ _ _ => .pure _

/-- An initializer is taken if an equals sign is next. -/
theorem agrees_initializerRule : AgreesAt 0 d (initializerRule value) (initializerRule value') ts :=
  .ifAccept (fun m hm => (hvalue m hm).weaken) (.pure Node.absent)

end Later

theorem agrees_declarationRule (hfirst : ∀ m, m.length < ts.length → AgreesAt 0 d first first' m) :
    AgreesAt 1 d (declarationRule first) (declarationRule first') ts := by
  refine agrees_expectText.bindTaking fun _ m hm => agrees_identifier.weaken.bind fun _ m' hm' => ?_
  refine (hfirst m' (by omega)).bind fun value _ _ => ?_
  exact agrees_expectText.weaken.bind fun _ _ _ => .pure _

variable (hvalue : ∀ m, m.length ≤ ts.length → AgreesAt 1 d value value' m)

include hvalue

theorem agrees_forInitializerRule :
    AgreesAt 0 d (forInitializerRule value) (forInitializerRule value') ts := by
  refine .ifNextIs (.pure _) (agrees_identifier.weaken.bind fun name m hm => ?_)
  refine agrees_expectText.weaken.bind fun _ m' hm' => ?_
  exact (hvalue m' (by omega)).weaken.bind fun e _ _ => .pure _

theorem agrees_forIncrementRule :
    AgreesAt 0 d (forIncrementRule value) (forIncrementRule value') ts := by
  refine .ifNextIs (.pure _) ((hvalue ts (Nat.le_refl _)).weaken.bind fun receiver m hm => ?_)
  refine agrees_expectText.weaken.bind fun _ m' hm' => ?_
  exact (hvalue m' (by omega)).weaken.bind fun e _ _ => .pure _

/-- The semicolon is the token that every simple statement takes. -/
theorem agrees_simpleStatementRule :
    AgreesAt 1 d (simpleStatementRule value) (simpleStatementRule value') ts := by
  refine (hvalue ts (Nat.le_refl _)).weaken.bind fun e m hm => .ifAccept (fun m' hm' => ?_) ?_
  · refine (hvalue m' (by omega)).weaken.bind fun value _ _ => ?_
    exact agrees_expectText.bindTaking fun _ _ _ => .pure _
  · exact agrees_expectText.bindTaking fun _ _ _ => .pure _

end Rules

/-- Which statement it is is told by the next token, and this is kept. -/
theorem agrees_statementRule {p₁ p₁' p₂ p₂' p₃ p₃' p₄ p₄' p₅ p₅' p₆ p₆' : Parser Node}
    (h₁ : AgreesAt 1 d p₁ p₁' ts) (h₂ : AgreesAt 1 d p₂ p₂' ts) (h₃ : AgreesAt 1 d p₃ p₃' ts)
    (h₄ : AgreesAt 1 d p₄ p₄' ts) (h₅ : AgreesAt 1 d p₅ p₅' ts) (h₆ : AgreesAt 1 d p₆ p₆' ts) :
    AgreesAt 1 d (statementRule p₁ p₂ p₃ p₄ p₅ p₆) (statementRule p₁' p₂' p₃' p₄' p₅' p₆') ts :=
  .ifNextIs h₁ (.ifNextIs h₂ (.ifNextIs h₃ (.ifNextIs h₄ (.ifNextIs h₅ h₆))))

theorem agrees_initializer : AgreesAt 0 d initializer initializer ts :=
  agrees_initializerRule fun _ _ => agrees_expression

/-- One round of a block: a statement and the rounds after it, unless a word is next that ends the
    block. -/
theorem agrees_statementRound {more more' : Parser (List Node)}
    (hinner : AgreesAt 1 d inner inner' ts)
    (hmore : ∀ m, m.length < ts.length → AgreesAt 0 d more more' m) :
    AgreesAt 0 d (statementRound words inner more) (statementRound words inner' more') ts := by
  refine .ifNextIsAny (.pure []) (hinner.bindTaking fun s m hm => ?_).weaken
  exact (hmore m hm).bind fun ss _ _ => .pure (s :: ss)

/-- Every statement takes fuel, but also a token. -/
theorem agrees_statementsUntil {n k k' : Nat}
    (hinner : ∀ m, m.length ≤ n → AgreesAt 1 d inner inner' m) (hn : ts.length ≤ n)
    (hk : ts.length < k) (hk' : ts.length + d < k') :
    AgreesAt 0 d (statementsUntil words inner k) (statementsUntil words inner' k') ts := by
  induction k generalizing ts k' with
  | zero => exact absurd hk (Nat.not_lt_zero _)
  | succ k ih =>
    refine .of_lt (statementsUntil words inner') hk' fun k' hk' => ?_
    exact agrees_statementRound (hinner ts hn) fun m hm => ih (by omega) (by omega) (by omega)

theorem agrees_blockWith (hinner : ∀ m, m.length ≤ ts.length → AgreesAt 1 d inner inner' m) :
    AgreesAt 0 d (blockWith inner words) (blockWith inner' words) ts :=
  .fuel fun us hus => agrees_statementsUntil hinner (Nat.le_refl _) (by omega) (by omega)

/-- A statement takes its first word before any statement inside of it is parsed. -/
theorem agrees_statementWith (hinner : ∀ m, m.length < ts.length → AgreesAt 1 d inner inner' m) :
    AgreesAt 1 d (statementWith inner) (statementWith inner') ts := by
  have hvalue : ∀ m, AgreesAt 1 d expression expression m := fun _ => agrees_expression
  have hblock : ∀ words m, m.length < ts.length →
      AgreesAt 0 d (blockWith inner words) (blockWith inner' words) m :=
    fun words m hm => agrees_blockWith fun m' hm' => hinner m' (by omega)
  refine agrees_statementRule ?_ ?_ ?_ ?_ ?_ ?_
  · exact agrees_declarationRule fun _ _ => agrees_initializer
  · exact agrees_choiceRule (fun m _ => hvalue m) hblock
  · exact agrees_forLoopRule (fun m _ => hvalue m)
      (fun _ _ => agrees_forInitializerRule fun m _ => hvalue m)
      (fun _ _ => agrees_forIncrementRule fun m _ => hvalue m) (hblock _)
  · exact agrees_whileLoopRule (fun m _ => hvalue m) (hblock _)
  · exact agrees_answerRule fun m _ => hvalue m
  · exact agrees_simpleStatementRule fun m _ => hvalue m

/-- A statement nests less deep than it has tokens. -/
theorem agrees_statementWithin {n n' : Nat} (hn : ts.length < n) (hn' : ts.length + d < n') :
    AgreesAt 1 d (statementWithin n) (statementWithin n') ts := by
  induction n generalizing ts n' with
  | zero => exact absurd hn (Nat.not_lt_zero _)
  | succ n ih =>
    exact .of_lt statementWithin hn' fun n' hn' =>
      agrees_statementWith fun m hm => ih (by omega) (by omega)

theorem agrees_statement : AgreesAt 1 d statement statement ts :=
  agrees_unbounded fun _ _ hn hn' => agrees_statementWithin hn hn'

end Statements

/-! ### Programs -/

theorem agrees_fieldRule {first first' : Parser Node}
    (hfirst : ∀ m, m.length < ts.length → AgreesAt 0 d first first' m) :
    AgreesAt 1 d (fieldRule first) (fieldRule first') ts := by
  refine agrees_expectText.bindTaking fun _ m hm => agrees_accept.bind fun isConstant m' hm' => ?_
  refine agrees_identifier.weaken.bind fun name m'' hm'' => ?_
  refine (hfirst m'' (by omega)).bind fun value _ _ => ?_
  exact agrees_expectText.weaken.bind fun _ _ _ => .pure _

/-- The parameters and the body of a method run on fewer tokens, as the word `DEF` is taken before.
    -/
theorem agrees_methodRule {parameters parameters' : Parser (List String)}
    {body body' : Parser (List Node)}
    (hparameters : ∀ m, m.length < ts.length → AgreesAt 0 d parameters parameters' m)
    (hbody : ∀ m, m.length < ts.length → AgreesAt 0 d body body' m) :
    AgreesAt 1 d (methodRule parameters body) (methodRule parameters' body') ts := by
  refine agrees_expectText.bindTaking fun _ m₁ h₁ => agrees_identifier.weaken.bind fun _ m₂ h₂ => ?_
  refine agrees_expectText.weaken.bind fun _ m₃ h₃ => ?_
  refine (hparameters m₃ (by omega)).bind fun parameters m₄ h₄ => ?_
  refine agrees_expectText.weaken.bind fun _ m₅ h₅ => ?_
  refine (hbody m₅ (by omega)).bind fun statements _ _ => ?_
  exact agrees_expectText.weaken.bind fun _ _ _ => .pure _

theorem agrees_field : AgreesAt 1 d field field ts :=
  agrees_fieldRule fun _ _ => agrees_initializer

theorem agrees_method : AgreesAt 1 d method method ts :=
  agrees_methodRule (fun _ _ => (agrees_items fun _ _ => agrees_identifier.weaken).weaken)
    fun _ _ => agrees_blockWith fun _ _ => agrees_statement

theorem agrees_whileRound {rule rule' : Parser Node} {more more' : Parser (List Node)}
    (hrule : AgreesAt 1 d rule rule' ts)
    (hmore : ∀ m, m.length < ts.length → AgreesAt 0 d more more' m) :
    AgreesAt 0 d (whileRound text rule more) (whileRound text rule' more') ts := by
  refine .ifNextIs (hrule.bindTaking fun n m hm => ?_).weaken (.pure [])
  exact (hmore m hm).bind fun ns _ _ => .pure (n :: ns)

/-- The number of rounds is not used up, as each of them takes a token. -/
theorem agrees_whileNextIs {rule : Parser Node} {k k' : Nat}
    (hrule : ∀ {ts}, AgreesAt 1 d rule rule ts) (hk : ts.length ≤ k) (hk' : ts.length + d ≤ k') :
    AgreesAt 0 d (whileNextIs text rule k) (whileNextIs text rule k') ts := by
  have hnil : ∀ k, (whileNextIs text rule k).run [] = .ok [] [] := by
    intro k
    cases k <;> rfl
  induction k generalizing ts k' with
  | zero =>
    obtain rfl := List.length_eq_zero_iff.1 (Nat.le_zero.1 hk)
    exact .nil rfl (fun _ _ _ => rfl) (hnil k')
  | succ k ih =>
    refine .of_le (whileNextIs text rule) hk' ?_ fun k' hk' => ?_
    · rintro rfl
      exact .nil (by rw [hnil]; rfl) (fun _ _ _ => rfl) (by rw [hnil, hnil])
    · exact agrees_whileRound hrule fun m hm => ih (by omega) (by omega)

/-- The methods of a program run on what its fields leave. -/
theorem agrees_programRule {fields fields' methods methods' : Parser (List Node)}
    (hfields : AgreesAt 0 d fields fields' ts)
    (hmethods : ∀ m, m.length ≤ ts.length → AgreesAt 0 d methods methods' m) :
    AgreesAt 0 d (programRule fields methods) (programRule fields' methods') ts := by
  refine hfields.bind fun fields m hm => (hmethods m hm).bind fun methods m' hm' => ?_
  obtain _ | ⟨t, rest⟩ := m'
  · exact .nil rfl (fun _ _ _ => rfl) rfl
  · exact (AgreesAt.throw .missingMethod).of_cons rfl fun _ => rfl

/-- Whole programs. -/
theorem agrees_program : AgreesAt 0 d program program ts :=
  agrees_programRule (agrees_unlimited fun _ _ => agrees_whileNextIs agrees_field)
    fun _ _ => agrees_unlimited fun _ _ => agrees_whileNextIs agrees_method

end Parser

end Blockscript
