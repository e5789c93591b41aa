import Blockscript.Proofs.Syntax.Parts
import Blockscript.Proofs.Text.Scientific
import Blockscript.Proofs.Text.Special
import Blockscript.Syntax.Document

/-!
# Trees and their documents

The document of a tree is one of the many that stand for it. A tree is *storable* if
it is the tree of its own document: a label must not hold a text as another value,
and a decimal has to be in range, or no number, and to stand under the tag for
decimals, which nothing else may have. The trees of texts are storable, and so is
whatever a document can stand for, so that writing a tree that has been read is a
normal form of documents.

* `Label.IsStorable`, `Node.IsStorableLiteral`: the parts of storable trees;
* `Node.ofJson_toJson`: a storable tree is the tree of its document;
* `Node.returns_ofJson`: what documents stand for is storable;
* `Node.ofJson_toJson_of_read`: reading a document undoes writing it, for all trees
  that come from texts or from documents.
-/

namespace Blockscript

/-- A label that its own document stands for. -/
def Label.IsStorable (l : Label) : Prop :=
  Label.ofJson l.toJson = l

/-- Whatever a label of a document holds, a text is held as such. -/
theorem Label.isStorable_ofJson (j : Json) : (Label.ofJson j).IsStorable := by
  cases j <;> rfl

theorem Label.IsText.isStorable {l : Label} (h : l.IsText) : l.IsStorable := by
  obtain ⟨s, rfl⟩ := h
  rfl

namespace Node

/-- A literal that its own document stands for: the tag for decimals goes with
    decimals in range and those that are no numbers, and every other tag with a value
    of a document. -/
inductive IsStorableLiteral : Label → Payload → Prop
  | decimal {payload : Payload} : isDecimalInRange payload →
      IsStorableLiteral (.text "Decimal") payload
  | json {tag : Label} {value : Json} : tag.IsStorable → tag ≠ .text "Decimal" →
      IsStorableLiteral tag (.json value)

/-- A tree all of whose parts are storable. -/
abbrev IsStorable (n : Node) : Prop :=
  n.Forall Label.IsStorable IsStorableLiteral

/-! ### Reading what has been written -/

/-- A decimal in range is read back from its scientific form. -/
theorem decimalOfText_scientific {d : Decimal} (h : d.inRange) :
    decimalOfText d.scientific = .ok (.decimal d) := by
  rw [decimalOfText, Decimal.read?_scientific h]

/-- A decimal that is no number is read back from its written form. -/
theorem decimalOfText_text (s : Special) : decimalOfText s.text = .ok (.special s) := by
  rw [decimalOfText, Special.decimalRead?_text, Special.read?_text]

/-- A decimal in range is the one that its document denotes. -/
theorem decimalOfJson_payloadToJson {payload : Payload} (h : isDecimalInRange payload) :
    decimalOfJson (payloadToJson payload) = .ok payload := by
  have hread : anyDecimalOfJson (payloadToJson payload) = .ok payload := by
    cases payload with
    | decimal d =>
      rw [payloadToJson, anyDecimalOfJson, String.toList_ofList, decimalOfText_scientific h]
    | special s => rw [payloadToJson, anyDecimalOfJson, String.toList_ofList, decimalOfText_text]
    | json value => contradiction
  rw [decimalOfJson, hread]
  change (if isDecimalInRange payload then _ else _) = _
  rw [if_pos h]
  rfl

theorem map_ofJson_toJson {ls : List Label} (h : ∀ l ∈ ls, l.IsStorable) :
    (ls.map Label.toJson).map Label.ofJson = ls := by
  rw [List.map_map]
  exact (List.map_congr_left h).trans (List.map_id ls)

/-- If every tree of a list is the tree of its document, then so is the list. -/
theorem ofJsons_toJsons {ns : List Node} (h : ∀ n ∈ ns, ofJson n.toJson = .ok n) :
    ofJsons (toJsons ns) = .ok ns := by
  induction ns with
  | nil => rfl
  | cons n ns ih =>
    rw [toJsons, ofJsons, h n List.mem_cons_self, ih fun m hm => h m (List.mem_cons_of_mem n hm)]
    rfl

/-- The payload of a literal that is tagged as a decimal is read as one. -/
theorem Members.literal_decimal {ms : Members} {value : Json}
    (hv : ms.value "value" = .ok value) (ht : ms.label "literal_type" = .ok (.text "Decimal")) :
    ms.literal = .literal (.text "Decimal") <$> decimalOfJson value := by
  rw [literal, hv, ht]
  rfl

/-- The payload of another literal is kept as it is. -/
theorem Members.literal_json {ms : Members} {value : Json} {tag : Label}
    (hv : ms.value "value" = .ok value) (ht : ms.label "literal_type" = .ok tag)
    (hne : tag ≠ .text "Decimal") : ms.literal = .ok (.literal tag (.json value)) := by
  rw [literal, hv, ht]
  dsimp only [bind, Except.bind]
  split
  · contradiction
  · rfl

/-- A storable literal is the literal of its document. -/
theorem ofJson_toJson_literal {tag : Label} {payload : Payload}
    (h : IsStorableLiteral tag payload) :
    ofJson (toJson (.literal tag payload)) = .ok (.literal tag payload) := by
  rw [toJson, typed, ofJson, Members.decode]
  change Members.literal (membersOf _) = _
  cases h with
  | decimal hd =>
    rw [Members.literal_decimal rfl rfl, decimalOfJson_payloadToJson hd]
    rfl
  | json htag hne =>
    refine Members.literal_json rfl ?_ hne
    change Except.ok (Label.ofJson _) = _
    rw [htag]

/-- A storable tree is the tree of its document. -/
theorem ofJson_toJson {n : Node} (h : n.IsStorable) : ofJson n.toJson = .ok n := by
  -- By induction on the tree, one case a node: each member reads back by its own hypothesis, and a
  -- label that was stored is the label its JSON gives.
  induction h with
  | absent => rfl
  | program _ _ ihf ihm =>
    simp only [toJson, typed, ofJson, membersOf, memberOf, ofJsonList, ofJsons_toJsons ihf,
      ofJsons_toJsons ihm]
    rfl
  | field hname _ ih =>
    simp only [toJson, typed, ofJson, membersOf, memberOf, ih]
    change Except.ok (Node.field (Label.ofJson _) _ _) = _
    rw [hname]
    rfl
  | method hname hp _ ih =>
    simp only [toJson, typed, ofJson, membersOf, memberOf, ofJsonList, ofJsons_toJsons ih]
    change Except.ok (Node.method (Label.ofJson _) (List.map _ _) _) = _
    rw [hname, map_ofJson_toJson hp]
  | discard _ ih =>
    simp only [toJson, typed, ofJson, membersOf, memberOf, ih]
    rfl
  | declaration hname _ ih =>
    simp only [toJson, typed, ofJson, membersOf, memberOf, ih]
    change Except.ok (Node.declaration (Label.ofJson _) _) = _
    rw [hname]
  | assignment _ _ ihr ihv =>
    simp only [toJson, typed, ofJson, membersOf, memberOf, ihr, ihv]
    rfl
  | choice _ _ _ ihc iht ihe =>
    simp only [toJson, typed, ofJson, membersOf, memberOf, ofJsonList, ihc, ofJsons_toJsons iht,
      ofJsons_toJsons ihe]
    rfl
  | forLoop _ _ _ _ ihi ihc ihu ihs =>
    simp only [toJson, typed, ofJson, membersOf, memberOf, ofJsonList, ihi, ihc, ihu,
      ofJsons_toJsons ihs]
    rfl
  | whileLoop _ _ ihc ihs =>
    simp only [toJson, typed, ofJson, membersOf, memberOf, ofJsonList, ihc, ofJsons_toJsons ihs]
    rfl
  | answer _ ih =>
    simp only [toJson, typed, ofJson, membersOf, memberOf, ih]
    rfl
  | literal h => exact ofJson_toJson_literal h
  | group _ ih =>
    simp only [toJson, typed, ofJson, membersOf, memberOf, ih]
    rfl
  | binary hoperator _ _ ihl ihr =>
    simp only [toJson, typed, ofJson, membersOf, memberOf, ihl, ihr]
    change Except.ok (Node.binary (Label.ofJson _) _ _) = _
    rw [hoperator]
  | access _ hname ih =>
    simp only [toJson, typed, ofJson, membersOf, memberOf, ih]
    change Except.ok (Node.access _ (Label.ofJson _)) = _
    rw [hname]
  | call _ hname _ ihr iha =>
    simp only [toJson, typed, ofJson, membersOf, memberOf, ofJsonList, ihr, ofJsons_toJsons iha]
    change Except.ok (Node.call _ (Label.ofJson _) _) = _
    rw [hname]

/-! ### What documents stand for -/

/-- Whatever a reader gives has a property. -/
def Returns {α : Type} (Q : α → Prop) (r : Except DocumentError α) : Prop :=
  ∀ a, r = .ok a → Q a

section Returns

variable {α β : Type} {P : α → Prop} {Q : β → Prop}

theorem returns_ok {a : α} (h : P a) : Returns P (.ok a) := by
  rintro _ ⟨⟩
  exact h

theorem returns_error {e : DocumentError} : Returns P (.error e) :=
  nofun

/-- Reading one part after the other: what holds of the first part may be used for what is read from
    it. -/
theorem Returns.bind {r : Except DocumentError α} {f : α → Except DocumentError β}
    (hr : Returns P r) (hf : ∀ a, P a → Returns Q (f a)) : Returns Q (r >>= f) := by
  cases r with
  | error e => exact returns_error
  | ok a => exact hf a (hr a rfl)

end Returns

/-- A decimal that is read from a document is in range, or no number. -/
theorem returns_decimalOfJson (value : Json) :
    Returns (fun payload => isDecimalInRange payload = true) (decimalOfJson value) := by
  refine Returns.bind (P := fun _ => True) (fun _ _ => trivial) fun payload _ => ?_
  split
  · next h => exact returns_ok h
  · exact returns_error

/-- What a member stands for is storable, in either of its roles. -/
structure Member.IsStorable (m : Member) : Prop where
  node : Returns Node.IsStorable m.node
  nodes : Returns (∀ n ∈ ·, Node.IsStorable n) m.nodes

namespace Members

variable {ms : Members}

/-- What the members of an object stand for is storable. -/
def AreStorable (ms : Members) : Prop :=
  ∀ key m, ms.lookup key = some m → m.IsStorable

/-- A member that has to be there has parts that are storable, as all members have. -/
theorem returns_required (h : ms.AreStorable) (key : String) :
    Returns Member.IsStorable (ms.required key) := by
  rw [required]
  split
  · next m hm => exact returns_ok (h key m hm)
  · exact returns_error

theorem returns_node (h : ms.AreStorable) (key : String) :
    Returns Node.IsStorable (ms.node key) :=
  (returns_required h key).bind fun _ hm => hm.node

/-- The nodes of a member that is a list are storable. -/
theorem returns_nodes (h : ms.AreStorable) (key : String) :
    Returns (∀ n ∈ ·, Node.IsStorable n) (ms.nodes key) :=
  (returns_required h key).bind fun _ hm => hm.nodes

theorem returns_nodeOrAbsent (h : ms.AreStorable) (key : String) :
    Returns Node.IsStorable (ms.nodeOrAbsent key) := by
  rw [nodeOrAbsent]
  split
  · next m hm => exact (h key m hm).node
  · exact returns_ok .absent

theorem returns_nodesOrNone (h : ms.AreStorable) (key : String) :
    Returns (∀ n ∈ ·, Node.IsStorable n) (ms.nodesOrNone key) := by
  rw [nodesOrNone]
  split
  · next m hm => exact (h key m hm).nodes
  · exact returns_ok (List.forall_mem_nil _)

/-- A label of a member is storable, whatever value it is. -/
theorem returns_label (ms : Members) (key : String) :
    Returns Label.IsStorable (ms.label key) :=
  Returns.bind (P := fun _ => True) (fun _ _ => trivial) fun j _ =>
    returns_ok (Label.isStorable_ofJson j)

theorem returns_labels (ms : Members) (key : String) :
    Returns (∀ l ∈ ·, Label.IsStorable l) (ms.labels key) := by
  refine Returns.bind (P := fun _ => True) (fun _ _ => trivial) fun j _ => ?_
  split
  · refine returns_ok fun l hl => ?_
    obtain ⟨j, _, rfl⟩ := List.mem_map.1 hl
    exact Label.isStorable_ofJson j
  · exact returns_error

/-- A literal that is read from a document is storable: a decimal in it is in range. -/
theorem returns_literal (ms : Members) : Returns Node.IsStorable ms.literal := by
  refine Returns.bind (P := fun _ => True) (fun _ _ => trivial) fun value _ => ?_
  refine (returns_label ms "literal_type").bind fun tag htag => ?_
  split
  · exact (returns_decimalOfJson value).bind fun d hd => returns_ok (.literal (.decimal hd))
  · next hne => exact returns_ok (.literal (.json htag hne))

/-- Whatever the kind, a node made of storable members is storable. -/
theorem returns_toNode (h : ms.AreStorable) (type : String) :
    Returns Node.IsStorable (ms.toNode type) := by
  -- By the type of the node: each member is read by a function that returns only storable parts.
  unfold toNode
  split
  · exact (returns_nodes h _).bind fun _ hf => (returns_nodes h _).bind fun _ hm =>
      returns_ok (.program hf hm)
  · exact (returns_label ms _).bind fun _ hn => (returns_nodeOrAbsent h _).bind fun _ hi =>
      returns_ok (.field hn hi)
  · exact (returns_label ms _).bind fun _ hn => (returns_labels ms _).bind fun _ hp =>
      (returns_nodes h _).bind fun _ hs => returns_ok (.method hn hp hs)
  · exact (returns_node h _).bind fun _ he => returns_ok (.discard he)
  · exact (returns_label ms _).bind fun _ hn => (returns_nodeOrAbsent h _).bind fun _ hi =>
      returns_ok (.declaration hn hi)
  · exact (returns_node h _).bind fun _ hr => (returns_node h _).bind fun _ hv =>
      returns_ok (.assignment hr hv)
  · exact (returns_node h _).bind fun _ hc => (returns_nodes h _).bind fun _ ht =>
      (returns_nodesOrNone h _).bind fun _ he => returns_ok (.choice hc ht he)
  · exact (returns_nodeOrAbsent h _).bind fun _ hi => (returns_node h _).bind fun _ hc =>
      (returns_nodeOrAbsent h _).bind fun _ hu => (returns_nodes h _).bind fun _ hs =>
        returns_ok (.forLoop hi hc hu hs)
  · exact (returns_node h _).bind fun _ hc => (returns_nodes h _).bind fun _ hs =>
      returns_ok (.whileLoop hc hs)
  · exact (returns_node h _).bind fun _ hv => returns_ok (.answer hv)
  · exact returns_literal ms
  · exact (returns_node h _).bind fun _ he => returns_ok (.group he)
  · exact (returns_label ms _).bind fun _ ho => (returns_node h _).bind fun _ hl =>
      (returns_node h _).bind fun _ hr => returns_ok (.binary ho hl hr)
  · exact (returns_nodeOrAbsent h _).bind fun _ hr => (returns_label ms _).bind fun _ hn =>
      returns_ok (.access hr hn)
  · exact (returns_nodeOrAbsent h _).bind fun _ hr => (returns_label ms _).bind fun _ hn =>
      (returns_nodes h _).bind fun _ ha => returns_ok (.call hr hn ha)
  · exact returns_error

/-- The node of a kind is storable if its members are. -/
theorem returns_decode (h : ms.AreStorable) : Returns Node.IsStorable ms.decode := by
  rw [decode]
  split
  · exact returns_toNode h _
  · exact returns_error
  · exact returns_error

theorem areStorable_cons {key : String} {m : Member} (hm : m.IsStorable) (h : ms.AreStorable) :
    AreStorable ((key, m) :: ms) := by
  intro k m' hlookup
  rw [List.lookup_cons] at hlookup
  split at hlookup
  · obtain rfl := Option.some.inj hlookup
    exact hm
  · exact h k m' hlookup

end Members

mutual

/-- Whatever document it is read from, a tree is storable. -/
theorem returns_ofJson : (j : Json) → Returns IsStorable (ofJson j)
  | .null => returns_ok .absent
  | .object members => Members.returns_decode (areStorable_membersOf members)
  | .boolean _ => returns_error
  | .integer _ => returns_error
  | .real _ => returns_error
  | .string _ => returns_error
  | .array _ => returns_error

/-- The nodes that a list of a document stands for are storable: those of an array, and none of an
    empty text. By induction with the nodes themselves. -/
theorem returns_ofJsonList : (j : Json) → Returns (∀ n ∈ ·, IsStorable n) (ofJsonList j)
  | .array items => returns_ofJsons items
  | .string s => by
    rw [ofJsonList]
    split
    · exact returns_ok (List.forall_mem_nil _)
    · exact returns_error
  | .object members => by
    rw [ofJsonList]
    split
    · exact returns_ok (List.forall_mem_nil _)
    · exact returns_error
  | .null => returns_error
  | .boolean _ => returns_error
  | .integer _ => returns_error
  | .real _ => returns_error

theorem returns_ofJsons : (js : List Json) → Returns (∀ n ∈ ·, IsStorable n) (ofJsons js)
  | [] => returns_ok (List.forall_mem_nil _)
  | j :: js => (returns_ofJson j).bind fun _ hn => (returns_ofJsons js).bind fun _ hns =>
      returns_ok (List.forall_mem_cons.2 ⟨hn, hns⟩)

theorem areStorable_membersOf : (ms : List (String × Json)) → (membersOf ms).AreStorable
  | [] => nofun
  | m :: ms => by
    rw [membersOf]
    exact Members.areStorable_cons (isStorable_memberOf m) (areStorable_membersOf ms)

theorem isStorable_memberOf : (m : String × Json) → (memberOf m).2.IsStorable
  | (_, j) => ⟨returns_ofJson j, returns_ofJsonList j⟩

end

/-! ### Round trips -/

/-- The literals of a text are storable, as no text is long enough for a decimal that
    is too fine. -/
theorem IsLiteralWithin.isStorable {length : Nat} {tag : Label} {payload : Payload}
    (h : IsLiteralWithin length tag payload) (hlength : Decimal.leastExponent ≤ -(length : Int)) :
    IsStorableLiteral tag payload := by
  obtain ⟨hliteral, hfine⟩ := h
  cases hliteral with
  | @decimal d hd =>
    have := hfine d rfl
    refine .decimal ?_
    simp only [isDecimalInRange, Decimal.inRange, Bool.and_eq_true, Bool.or_eq_true,
      decide_eq_true_eq]
    omega
  | _ => exact .json rfl (by simp)

/-- The tree of a program is storable, if the text is not so long that a decimal in it would be out
    of range. -/
theorem isStorable_of_parseSource {source : String} {n : Node} (h : parseSource source = .ok n)
    (hlength : Decimal.leastExponent ≤ -(source.length : Int)) : n.IsStorable :=
  (forall_of_parseSource h).mono (fun _ hl => hl.isStorable) fun _ _ hp => hp.isStorable hlength

/-- Reading undoes writing, for every tree that comes from a text or from a document,
    so that reading a document and writing its tree is a normal form of documents. The
    texts are those that have no more characters than a decimal can have places. -/
theorem ofJson_toJson_of_read :
    (∀ source n, Decimal.leastExponent ≤ -(source.length : Int) → parseSource source = .ok n →
      ofJson n.toJson = .ok n) ∧
    (∀ j n, ofJson j = .ok n → ofJson n.toJson = .ok n) ∧
    ∀ j k, (ofJson j).map toJson = .ok k → (ofJson k).map toJson = .ok k := by
  have hread : ∀ j n, ofJson j = .ok n → ofJson n.toJson = .ok n :=
    fun j n h => ofJson_toJson (returns_ofJson j n h)
  refine ⟨fun source n hlength h => ofJson_toJson (isStorable_of_parseSource h hlength), hread,
    fun j k h => ?_⟩
  cases hj : ofJson j with
  | error e =>
    rw [hj] at h
    contradiction
  | ok n =>
    rw [hj] at h
    obtain rfl := Except.ok.inj h
    rw [hread j n hj]
    rfl

/-- A constant survives, and so does a decimal that a document spells out in parts. -/
theorem ofJson_toJson_constant :
    let n := Node.program [.field (.text "a") true (.decimal ⟨false, 150, -2⟩)] []
    let j := typed "Literal" [("literal_type", .string "Decimal"),
      ("value", .array [.boolean true, .array [.integer 1, .integer 5, .integer 0], .integer 3])]
    (parseSource "LET CONST a = 1.50;" = .ok n ∧ ofJson n.toJson = .ok n) ∧
    ofJson j = .ok (.decimal ⟨true, 150, 3⟩) ∧
    ofJson (toJson (.decimal ⟨true, 150, 3⟩)) = .ok (.decimal ⟨true, 150, 3⟩) ∧
    (ofJson (toJson (.decimal ⟨true, 150, 3⟩))).map toJson =
      .ok (toJson (.decimal ⟨true, 150, 3⟩)) := by
  intro n j
  have hlex : lex "LET CONST a = 1.50;" = .ok [⟨.identifier, "LET", 0⟩,
      ⟨.identifier, "CONST", 4⟩, ⟨.identifier, "a", 10⟩, ⟨.operator, "=", 12⟩,
      ⟨.decimal, "1.50", 14⟩, ⟨.operator, ";", 18⟩] := by
    decide +kernel
  have hparse : parseSource "LET CONST a = 1.50;" = .ok n := by
    rw [parseSource, hlex]
    rfl
  have hj : ofJson j = .ok (.decimal ⟨true, 150, 3⟩) := rfl
  obtain ⟨hsource, hdocument, hnormal⟩ := ofJson_toJson_of_read
  exact ⟨⟨hparse, hsource _ n (by decide) hparse⟩, hj, hdocument j _ hj,
    hnormal j _ (by rw [hj]; rfl)⟩

end Node

end Blockscript
