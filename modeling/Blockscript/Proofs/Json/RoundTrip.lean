import Blockscript.Proofs.Json.Quoted
import Blockscript.Proofs.Text.Numeral

/-!
# Reading JSON texts that have been written

Reading the text of a file undoes writing it for *plain* values, those that hold no
numbers but integers within the bound on digits, and no key twice in an object. What
follows a value, a comma or the line break before a closing bracket, tells where it ends.

* `Json.IsPlain`: values that are read as they are written;
* `Json.readValue_write`: a value before more text;
* `Json.read_toText`: a whole text;
* `Json.not_mem_write`: a written value has no carriage return.
-/

namespace Blockscript.Json

open Text

/-- A value without numbers but integers of few enough digits, and without an object that has a
    key twice. -/
inductive IsPlain (digits : Option Nat) : Json → Prop
  | null : IsPlain digits .null
  | boolean (b : Bool) : IsPlain digits (.boolean b)
  | integer {i : Int} : ¬ digits.any (exceedsDigits i.natAbs) → IsPlain digits (.integer i)
  | string (s : String) : IsPlain digits (.string s)
  | array {items : List Json} : (∀ j ∈ items, IsPlain digits j) → IsPlain digits (.array items)
  | object {members : List (String × Json)} : (members.map Prod.fst).Nodup →
      (∀ m ∈ members, IsPlain digits m.2) → IsPlain digits (.object members)

variable {digits : Option Nat}

/-- What may follow a value in a file: nothing, a comma or a line break. -/
def FollowsValue (rest : List Char) : Prop :=
  ∀ c, rest.head? = some c → c = ',' ∨ c = '\n'

/-- A line break ends a number. -/
theorem followsValue_lineBreak (depth : Nat) (rest : List Char) :
    FollowsValue (indented.lineBreak depth ++ rest) := by
  rintro c ⟨⟩
  exact .inr rfl

theorem followsValue_comma (rest : List Char) : FollowsValue (',' :: rest) := by
  rintro c ⟨⟩
  exact .inl rfl

/-! ### Integers -/

/-- The digits of a natural number have no leading zero, so that all of them are read as one number.
    -/
theorem readWhole_digitsOf {n : Nat} {rest : List Char} (hr : FollowsValue rest) :
    readWhole (digitsOf n ++ rest) = some (digitsOf n, rest) := by
  have hdigits := isDigits_digitsOf n
  have hends : ∀ c, rest.head? = some c → isDigit c = false := by
    intro c hc
    rcases hr c hc with rfl | rfl
    · rfl
    · rfl
  -- A zero stands alone; other numbers begin with another digit.
  by_cases hn : n = 0
  · subst hn
    rfl
  · have hhead := head_digitsOf_ne (Nat.pos_of_ne_zero hn)
    have htake := takeWhile_append_of_ends hdigits.2 hends
    have hdrop : (digitsOf n ++ rest).dropWhile isDigit = rest := by
      have := List.takeWhile_append_dropWhile (p := isDigit) (l := digitsOf n ++ rest)
      rwa [htake, List.append_cancel_left_eq] at this
    rw [readWhole.eq_2, htake, hdrop]
    · split
      · next heq => exact absurd heq hdigits.1
      · rfl
    · intro s heq
      obtain ⟨c, digits, hcons⟩ := List.exists_cons_of_ne_nil hdigits.1
      rw [hcons, List.cons_append] at heq
      rw [hcons, (List.cons.inj heq).1] at hhead
      exact hhead rfl

/-- After an integer, no fraction is read. -/
theorem readFraction_eq {rest : List Char} (hr : FollowsValue rest) :
    readFraction rest = ([], rest) := by
  refine readFraction.eq_2 rest ?_
  rintro s rfl
  rcases hr '.' rfl with h | h
  · exact absurd h (by decide)
  · exact absurd h (by decide)

/-- After an integer, no power of ten is read. -/
theorem readPower_eq {rest : List Char} (hr : FollowsValue rest) :
    readPower rest = ([], rest) := by
  obtain _ | ⟨c, rest⟩ := rest
  · rfl
  · rcases hr c rfl with rfl | rfl
    · rfl
    · rfl

/-- A numeral starts with a digit. -/
theorem exists_digitsOf (n : Nat) : ∃ c digits, digitsOf n = c :: digits ∧ isDigit c := by
  have hdigits := isDigits_digitsOf n
  obtain ⟨c, digits, hcons⟩ := List.exists_cons_of_ne_nil hdigits.1
  exact ⟨c, digits, hcons, hdigits.2 c (hcons ▸ List.mem_cons_self)⟩

/-- An integer within the bound on digits is read back. -/
theorem readNumber_writeInteger {i : Int} (hi : ¬ digits.any (exceedsDigits i.natAbs))
    {rest : List Char} (hr : FollowsValue rest) :
    readNumber digits (writeInteger i ++ rest) = some (.integer i, rest) := by
  have hvalue : digitsValue ((digitsOf i.natAbs).map fun c => c.toNat - '0'.toNat) = i.natAbs := by
    rw [digitsValue_map, digitsOf, Nat.ofDigitChars_ten_toDigits]
  rw [writeInteger]
  -- With or without a minus sign, the digits are those of the absolute value.
  split
  · simp only [readNumber, List.cons_append, readWhole_digitsOf hr, Option.bind_eq_bind,
      Option.bind_some, readFraction_eq hr, readPower_eq hr, hvalue, if_neg hi]
    have hi : -(i.natAbs : Int) = i := by omega
    change some (integer (-(i.natAbs : Int)), rest) = _
    rw [hi]
  · obtain ⟨c, digits, hcons, hc⟩ := exists_digitsOf i.natAbs
    have hread := readWhole_digitsOf (n := i.natAbs) hr
    rw [readNumber]
    · simp only [hread, Option.bind_eq_bind, Option.bind_some,
        readFraction_eq hr, readPower_eq hr, hvalue, if_neg hi]
      have hi : (i.natAbs : Int) = i := by omega
      change some (integer i.natAbs, rest) = _
      rw [hi]
    · rintro s heq
      rw [hcons, List.cons_append] at heq
      rw [(List.cons.inj heq).1] at hc
      exact absurd hc (by decide)

/-- No name starts with a digit, after a minus sign or without one. -/
theorem readName_writeInteger (i : Int) (rest : List Char) :
    readName (writeInteger i ++ rest) = none := by
  obtain ⟨c, digits, hcons, hc⟩ := exists_digitsOf i.natAbs
  have hne : ∀ d : Char, isDigit d = false → (d == c) = false := by
    rintro d hd
    refine beq_false_of_ne ?_
    rintro rfl
    rw [hc] at hd
    contradiction
  have hnames : names.find? (fun n => n.1.isPrefixOf (writeInteger i ++ rest)) = none := by
    rw [writeInteger, hcons]
    split
    · simp [names, List.isPrefixOf, hne 'I' rfl]
    · simp [names, List.isPrefixOf, hne 'n' rfl, hne 't' rfl, hne 'f' rfl, hne 'N' rfl, hne 'I' rfl,
        hne '-' rfl]
  rw [readName, hnames]
  rfl

/-! ### Layout -/

/-- What starts a written value is no space, and closes no bracket. -/
theorem exists_write (depth : Nat) {j : Json} (hj : j.IsPlain digits) :
    ∃ c s, write indented depth j = c :: s ∧ isSpace c = false ∧ c ≠ ']' := by
  cases hj with
  | null => exact ⟨_, _, rfl, rfl, by decide⟩
  | boolean b => cases b <;> exact ⟨_, _, rfl, rfl, by decide⟩
  | @integer i _ =>
    obtain ⟨c, digits, hcons, hc⟩ := exists_digitsOf i.natAbs
    rw [write, writeInteger, hcons]
    split
    · exact ⟨_, _, rfl, rfl, by decide⟩
    · refine ⟨c, digits, rfl, ?_, ?_⟩
      · rw [isDigit_iff] at hc
        simp only [isSpace, Bool.or_eq_false_iff, beq_eq_false_iff_ne]
        refine ⟨⟨⟨?_, ?_⟩, ?_⟩, ?_⟩ <;> (rintro rfl; exact absurd hc (by decide))
      · rintro rfl
        exact absurd hc (by decide)
  | string s => exact ⟨_, _, rfl, rfl, by decide⟩
  | @array items _ => cases items <;> exact ⟨_, _, rfl, rfl, by decide⟩
  | @object members _ _ => cases members <;> exact ⟨_, _, rfl, rfl, by decide⟩

theorem skipSpace_cons {c : Char} (hc : isSpace c = false) (s : List Char) :
    skipSpace (c :: s) = c :: s :=
  List.dropWhile_cons_of_neg (by simp [hc])

/-- No value starts with a blank. -/
theorem skipSpace_write (depth : Nat) {j : Json} (hj : j.IsPlain digits) (s : List Char) :
    skipSpace (write indented depth j ++ s) = write indented depth j ++ s := by
  obtain ⟨c, s', heq, hc, _⟩ := exists_write depth hj
  rw [heq, List.cons_append, skipSpace_cons hc]

/-- A line break is skipped as a whole. -/
theorem skipSpace_lineBreak (depth : Nat) (s : List Char) :
    skipSpace (indented.lineBreak depth ++ s) = skipSpace s := by
  refine List.dropWhile_append_of_pos (List.forall_mem_cons.2 ⟨rfl, fun d hd => ?_⟩)
  rw [List.eq_of_mem_replicate hd]
  rfl

theorem skipSpace_space (s : List Char) : skipSpace (' ' :: s) = skipSpace s :=
  rfl

/-! ### Values -/

/-- Reading a written value before more text, with more fuel than the value has
    characters, gives the value back. -/
def IsReadBack (digits : Option Nat) (j : Json) : Prop :=
  ∀ depth fuel rest, (write indented depth j).length < fuel → FollowsValue rest →
    readValue digits fuel (write indented depth j ++ rest) = .ok (j, rest)

/-- What follows an item ends a number: a comma or a line break. -/
theorem followsValue_writeItems (depth outer : Nat) (items : List Json) (rest : List Char) :
    FollowsValue (writeItems indented depth items ++ (indented.lineBreak outer ++ rest)) := by
  cases items with
  | nil => exact followsValue_lineBreak outer rest
  | cons item items =>
    rw [writeItems, List.cons_append]
    exact followsValue_comma _

theorem followsValue_writeMembers (depth outer : Nat) (members : List (String × Json))
    (rest : List Char) :
    FollowsValue (writeMembers indented depth members ++ (indented.lineBreak outer ++ rest)) := by
  cases members with
  | nil => exact followsValue_lineBreak outer rest
  | cons member members =>
    rw [writeMembers, List.cons_append]
    exact followsValue_comma _

/-- The items of a list, up to its closing bracket. -/
theorem readItems_write {item : Json} {items : List Json} (depth outer : Nat) (rest : List Char)
    (hplain : ∀ j ∈ item :: items, j.IsPlain digits)
    (h : ∀ j ∈ item :: items, j.IsReadBack digits) :
    ∀ fuel, (write indented depth item).length + (writeItems indented depth items).length + 1 <
        fuel →
      readItems digits fuel (write indented depth item ++ (writeItems indented depth items ++
        (indented.lineBreak outer ++ ']' :: rest))) = .ok (item :: items, rest) := by
  induction items generalizing item with
  | nil =>
    rintro (_ | fuel) hfuel
    · omega
    · rw [writeItems, List.nil_append, readItems,
        h item List.mem_cons_self depth fuel _ (by omega) (followsValue_lineBreak outer _)]
      simp only [bind, Except.bind, skipSpace_lineBreak]
      rfl
  | cons next items ih =>
    rintro (_ | fuel) hfuel
    · omega
    · have hnext := (List.forall_mem_cons.1 hplain).2
      rw [readItems, h item List.mem_cons_self depth fuel _ (by omega)
        (followsValue_writeItems depth outer (next :: items) _)]
      simp only [writeItems, List.length_append, List.length_cons, List.cons_append,
        List.append_assoc, bind, Except.bind] at hfuel ⊢
      rw [skipSpace_cons rfl]
      simp only [skipSpace_lineBreak, skipSpace_write depth (hnext next List.mem_cons_self)]
      rw [ih hnext (List.forall_mem_cons.1 h).2 fuel (by omega)]
      rfl

/-- A key and its value, before more text. -/
theorem writeMember_append (depth : Nat) (member : String × Json) (rest : List Char) :
    writeMember indented depth member ++ rest =
      '"' :: (member.1.toList.flatMap (quoteChar false) ++
        '"' :: ':' :: ' ' :: (write indented depth member.2 ++ rest)) := by
  obtain ⟨key, value⟩ := member
  simp only [writeMember, quote, List.append_assoc, List.cons_append]
  rfl

/-- No member starts with a blank, as a quotation mark is first. -/
theorem skipSpace_writeMember (depth : Nat) (member : String × Json) (rest : List Char) :
    skipSpace (writeMember indented depth member ++ rest) =
      writeMember indented depth member ++ rest := by
  rw [writeMember_append, skipSpace_cons rfl]

/-- Reading a key and its value goes on with what follows the value. -/
theorem readMembers_append {member : String × Json} (depth fuel : Nat) {rest : List Char}
    (hplain : member.2.IsPlain digits) (h : member.2.IsReadBack digits) (hr : FollowsValue rest)
    (hfuel : (write indented depth member.2).length < fuel) :
    readMembers digits (fuel + 1) (writeMember indented depth member ++ rest) =
      match skipSpace rest with
      | ',' :: rest => do
        let (members, rest) ← readMembers digits fuel (skipSpace rest)
        return (member :: members, rest)
      | '\x7d' :: rest => .ok ([member], rest)
      | _ => .error .malformed := by
  rw [writeMember_append, readMembers]
  simp only [readText_quote, bind, Except.bind]
  rw [skipSpace_cons rfl]
  simp only [skipSpace_space, skipSpace_write depth hplain, h depth fuel rest hfuel hr]
  rfl

/-- The members of an object, up to its closing brace. -/
theorem readMembers_write {member : String × Json} {members : List (String × Json)}
    (depth outer : Nat) (rest : List Char) (hplain : ∀ m ∈ member :: members, m.2.IsPlain digits)
    (h : ∀ m ∈ member :: members, m.2.IsReadBack digits) :
    ∀ fuel, (writeMember indented depth member).length +
        (writeMembers indented depth members).length < fuel →
      readMembers digits fuel (writeMember indented depth member ++
        (writeMembers indented depth members ++ (indented.lineBreak outer ++ '\x7d' :: rest))) =
          .ok (member :: members, rest) := by
  -- By induction on the members: after each, the fuel that is left is enough for the characters
  -- that are left.
  induction members generalizing member with
  | nil =>
    rintro (_ | fuel) hfuel
    · omega
    · have hlength := congrArg List.length (writeMember_append depth member [])
      simp only [List.length_append, List.length_cons, List.length_nil] at hlength
      rw [writeMembers, List.nil_append, readMembers_append depth fuel
        (hplain _ List.mem_cons_self) (h _ List.mem_cons_self)
        (followsValue_lineBreak outer _) (by omega), skipSpace_lineBreak]
      rfl
  | cons next members ih =>
    rintro (_ | fuel) hfuel
    · omega
    · have hlength := congrArg List.length (writeMember_append depth member [])
      simp only [List.length_append, List.length_cons, List.length_nil] at hlength
      rw [readMembers_append depth fuel (hplain _ List.mem_cons_self) (h _ List.mem_cons_self)
        (followsValue_writeMembers depth outer (next :: members) _) (by omega)]
      simp only [writeMembers, List.length_append, List.length_cons, List.cons_append,
        List.append_assoc] at hfuel ⊢
      rw [skipSpace_cons rfl]
      simp only [skipSpace_lineBreak, skipSpace_writeMember]
      rw [ih (List.forall_mem_cons.1 hplain).2 (List.forall_mem_cons.1 h).2 fuel (by omega)]
      rfl

/-- A new key comes last. -/
theorem put_of_not_mem {key : String} {value : Json} {members : List (String × Json)}
    (h : key ∉ members.map Prod.fst) : put key value members = members ++ [(key, value)] := by
  induction members with
  | nil => rfl
  | cons m members ih =>
    rw [List.map_cons, List.mem_cons, not_or] at h
    rw [put, if_neg (Ne.symm h.1), ih h.2, List.cons_append]

/-- Members with different keys are put one after the other. -/
theorem foldl_put {members before : List (String × Json)}
    (h : ((before ++ members).map Prod.fst).Nodup) :
    members.foldl (fun ms m => put m.1 m.2 ms) before = before ++ members := by
  induction members generalizing before with
  | nil => rw [List.foldl_nil, List.append_nil]
  | cons m members ih =>
    have hm : m.1 ∉ before.map Prod.fst := by
      rw [List.map_append, List.map_cons, List.nodup_append] at h
      exact fun hmem => h.2.2 m.1 hmem m.1 List.mem_cons_self rfl
    rw [List.foldl_cons, put_of_not_mem hm, ih, List.append_assoc, List.singleton_append]
    rwa [List.append_assoc]

/-- Members without repeated keys stay as they are, and in their order. -/
theorem ofMembers_eq {members : List (String × Json)} (h : (members.map Prod.fst).Nodup) :
    ofMembers members = .object members := by
  have hput := @foldl_put members [] h
  rw [ofMembers, hput, List.nil_append]

/-- To be read back, a value only needs to be with some fuel left for it, as no value is written
    without characters. -/
theorem isReadBack_of_succ {j : Json}
    (h : ∀ depth fuel rest, (write indented depth j).length ≤ fuel → FollowsValue rest →
      readValue digits (fuel + 1) (write indented depth j ++ rest) = .ok (j, rest)) :
    j.IsReadBack digits := by
  rintro depth (_ | fuel) rest hfuel hr
  · omega
  · exact h depth fuel rest (Nat.le_of_lt_succ hfuel) hr

theorem isReadBack_integer {i : Int} (hi : ¬ digits.any (exceedsDigits i.natAbs)) :
    (integer i).IsReadBack digits := by
  refine isReadBack_of_succ fun depth fuel rest _ hr => ?_
  have hhead : ∀ c s, isDigit c = false → c ≠ '-' → writeInteger i ++ rest ≠ c :: s := by
    intro c s hc hminus heq
    obtain ⟨d, digits, hcons, hd⟩ := exists_digitsOf i.natAbs
    rw [writeInteger, hcons] at heq
    split at heq
    · exact hminus (List.cons.inj heq).1.symm
    · rw [(List.cons.inj heq).1, hc] at hd
      contradiction
  rw [write, readValue, readName_writeInteger, readNumber_writeInteger hi hr]
  · rfl
  · exact fun s => hhead '"' s rfl (by decide)
  · exact fun s => hhead '[' s rfl (by decide)
  · exact fun s => hhead '\x7b' s rfl (by decide)

theorem isReadBack_string (s : String) : (string s).IsReadBack digits := by
  refine isReadBack_of_succ fun depth fuel rest _ _ => ?_
  have hquote : write indented depth (string s) ++ rest =
      '"' :: (s.toList.flatMap (quoteChar false) ++ '"' :: rest) := by
    simp only [write, quote, List.append_assoc, List.cons_append]
    rfl
  rw [hquote, readValue, readText_quote]
  rfl

/-- An array is read back if its items are. -/
theorem isReadBack_array {items : List Json} (hplain : ∀ j ∈ items, j.IsPlain digits)
    (h : ∀ j ∈ items, j.IsReadBack digits) : (array items).IsReadBack digits := by
  refine isReadBack_of_succ fun depth fuel rest hfuel _ => ?_
  cases items with
  | nil => rfl
  | cons item items =>
    obtain ⟨c, s, heq, _, hc⟩ := exists_write (depth + 1) (hplain item List.mem_cons_self)
    have hread := readItems_write (depth + 1) depth rest hplain h fuel
    simp only [write, List.cons_append, List.append_assoc, List.length_cons, List.length_append,
      List.nil_append] at hfuel ⊢
    rw [readValue, skipSpace_lineBreak, skipSpace_write _ (hplain item List.mem_cons_self)]
    split
    · next heq' =>
      rw [heq, List.cons_append] at heq'
      exact absurd (List.cons.inj heq').1 hc
    · rw [hread (by omega)]
      rfl

/-- An object is read back if its members are: no key is put twice. -/
theorem isReadBack_object {members : List (String × Json)}
    (hkeys : (members.map Prod.fst).Nodup) (hplain : ∀ m ∈ members, m.2.IsPlain digits)
    (h : ∀ m ∈ members, m.2.IsReadBack digits) : (object members).IsReadBack digits := by
  refine isReadBack_of_succ fun depth fuel rest hfuel _ => ?_
  cases members with
  | nil => rfl
  | cons member members =>
    have hread := readMembers_write (depth + 1) depth rest hplain h fuel
    simp only [write, List.cons_append, List.append_assoc, List.length_cons, List.length_append,
      List.nil_append] at hfuel ⊢
    rw [readValue, skipSpace_lineBreak, skipSpace_writeMember]
    split
    · next heq' =>
      rw [writeMember_append] at heq'
      exact absurd (List.cons.inj heq').1 (by decide)
    · rw [hread (by omega)]
      exact congrArg (fun j => Except.ok (j, rest)) (ofMembers_eq hkeys)

/-- Reading a plain value that has been written gives it back. -/
theorem readValue_write {j : Json} (hj : j.IsPlain digits) : j.IsReadBack digits := by
  induction hj with
  | null => exact isReadBack_of_succ fun _ _ _ _ _ => rfl
  | boolean b => cases b <;> exact isReadBack_of_succ fun _ _ _ _ _ => rfl
  | integer hi => exact isReadBack_integer hi
  | string s => exact isReadBack_string s
  | array hplain ih => exact isReadBack_array hplain ih
  | object hkeys hplain ih => exact isReadBack_object hkeys hplain ih

/-- Reading the text of a plain value gives the value back. -/
theorem read_toText {j : Json} (hj : j.IsPlain digits) :
    read digits (toText indented j).toList = .ok j := by
  have hvalue :=
    readValue_write hj 0 ((write indented 0 j).length + 1) [] (Nat.lt_succ_self _) nofun
  have hspace := skipSpace_write 0 hj []
  rw [List.append_nil] at hvalue hspace
  rw [toText, String.toList_ofList, read, hspace, hvalue]
  rfl

/-! ### Line ends -/

theorem ne_return_of_isDigit {c : Char} (hc : isDigit c) : '\r' ≠ c := by
  rintro rfl
  exact absurd hc (by decide)

/-- The digits of an escape are no carriage return. -/
theorem hexDigit_ne_return (n : Nat) : '\r' ≠ hexDigit n := by
  have : ∀ d : Fin 16, '\r' ≠ Nat.digitChar d.val := by decide
  exact this ⟨n % 16, Nat.mod_lt n (by decide)⟩

/-- A carriage return inside quotes is escaped. -/
theorem not_mem_quoteChar (c : Char) : '\r' ∉ quoteChar false c := by
  unfold quoteChar
  split
  all_goals try decide
  next hreturn _ _ _ =>
    split
    · simp [unitEscape, hexDigit_ne_return]
    · simp [Ne.symm hreturn]

/-- A carriage return in a text is escaped, so that there is none in the file. -/
theorem not_mem_quote (s : String) : '\r' ∉ quote false s := by
  rw [quote, List.mem_append, List.mem_cons, List.mem_flatMap]
  rintro ((h | ⟨c, _, h⟩) | h)
  · exact absurd h (by decide)
  · exact not_mem_quoteChar c h
  · exact absurd h (by decide)

theorem not_mem_lineBreak (depth : Nat) : '\r' ∉ indented.lineBreak depth := by
  rw [indented, List.mem_cons, List.mem_replicate]
  rintro (h | ⟨_, h⟩)
  · exact absurd h (by decide)
  · exact absurd h (by decide)

theorem not_mem_writeInteger (i : Int) : '\r' ∉ writeInteger i := by
  have hdigits : '\r' ∉ digitsOf i.natAbs :=
    fun h => ne_return_of_isDigit ((isDigits_digitsOf i.natAbs).2 _ h) rfl
  rw [writeInteger]
  split
  · rw [List.mem_cons, not_or]
    exact ⟨by decide, hdigits⟩
  · exact hdigits

/-- Between items, there are only commas and line feeds. -/
theorem not_mem_writeItems {items : List Json} {depth : Nat}
    (h : ∀ j ∈ items, '\r' ∉ write indented depth j) : '\r' ∉ writeItems indented depth items := by
  induction items with
  | nil => exact List.not_mem_nil
  | cons item items ih =>
    have ⟨hitem, hitems⟩ := List.forall_mem_cons.1 h
    simp only [writeItems, List.mem_append, List.mem_cons, not_or]
    exact ⟨⟨⟨by decide, not_mem_lineBreak depth⟩, hitem⟩, ih hitems⟩

/-- A key is quoted, and so has no carriage return either. -/
theorem not_mem_writeMember {member : String × Json} {depth : Nat}
    (h : '\r' ∉ write indented depth member.2) : '\r' ∉ writeMember indented depth member := by
  obtain ⟨key, value⟩ := member
  simp only [writeMember, List.mem_append, not_or]
  exact ⟨⟨not_mem_quote key, by decide⟩, h⟩

theorem not_mem_writeMembers {members : List (String × Json)} {depth : Nat}
    (h : ∀ m ∈ members, '\r' ∉ write indented depth m.2) :
    '\r' ∉ writeMembers indented depth members := by
  induction members with
  | nil => exact List.not_mem_nil
  | cons member members ih =>
    have ⟨hmember, hmembers⟩ := List.forall_mem_cons.1 h
    simp only [writeMembers, List.mem_append, List.mem_cons, not_or]
    exact ⟨⟨⟨by decide, not_mem_lineBreak depth⟩, not_mem_writeMember hmember⟩, ih hmembers⟩

/-- A plain value is written without carriage returns. -/
theorem not_mem_write {j : Json} (hj : j.IsPlain digits) (depth : Nat) :
    '\r' ∉ write indented depth j := by
  -- By induction on the document: literals and digits have no line break, a quoted text escapes it,
  -- and the breaks between the items are newlines.
  induction hj generalizing depth with
  | null => exact (by decide : '\r' ∉ "null".toList)
  | boolean b =>
    cases b with
    | true => exact (by decide : '\r' ∉ "true".toList)
    | false => exact (by decide : '\r' ∉ "false".toList)
  | integer _ => exact not_mem_writeInteger _
  | string s => exact not_mem_quote s
  | @array items _ ih =>
    cases items with
    | nil => exact (by decide : '\r' ∉ ['[', ']'])
    | cons item items =>
      have ⟨hitem, hitems⟩ := List.forall_mem_cons.1 fun j hj => ih j hj (depth + 1)
      simp only [write, List.mem_append, List.mem_cons, not_or]
      exact ⟨⟨⟨⟨⟨by decide, not_mem_lineBreak _⟩, hitem⟩, not_mem_writeItems hitems⟩,
        not_mem_lineBreak _⟩, by decide⟩
  | @object members _ _ ih =>
    cases members with
    | nil => exact (by decide : '\r' ∉ ['\x7b', '\x7d'])
    | cons member members =>
      have ⟨hmember, hmembers⟩ := List.forall_mem_cons.1 fun m hm => ih m hm (depth + 1)
      simp only [write, List.mem_append, List.mem_cons, not_or]
      exact ⟨⟨⟨⟨⟨by decide, not_mem_lineBreak _⟩, not_mem_writeMember hmember⟩,
        not_mem_writeMembers hmembers⟩, not_mem_lineBreak _⟩, by decide⟩

end Blockscript.Json
