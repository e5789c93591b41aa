import Blockscript.Decimal.Written
import Blockscript.Proofs.Syntax.Program

/-!
# Writing programs

A tree is written as its symbols, one after the other with a space between any two.
A space ends every token, so that the lexer finds the symbols again, and the parser
the tree. It does not matter how the literals are spelled, nor whether the keywords
that may be left out are there.

* `Node.write`: the written form of a tree;
* `unwords`, `lex_unwords`: tokens with spaces between them, which lexing finds again;
* `parseSource_unwords`: parsing undoes writing, however literals are spelled.
-/

namespace Blockscript

open Text Token Node Lexer

/-! ### Words with spaces between them -/

/-- The texts of tokens with single spaces between them. -/
def unwords (ts : List Token) : String :=
  " ".intercalate (ts.map Token.text)

/-- Tokens as they lie in such a text, the first of them at place `n`. -/
def placedFrom (n : Nat) : List Token → List Token
  | [] => []
  | t :: ts => { t with offset := n } :: placedFrom (n + t.text.length + 1) ts

/-- The text of tokens: each but the first one follows a space. -/
theorem toList_unwords_cons (t : Token) (ts : List Token) :
    (unwords (t :: ts)).toList = t.text.toList ++ ts.flatMap fun u => ' ' :: u.text.toList := by
  induction ts generalizing t with
  | nil => simp [unwords]
  | cons u ts ih =>
    rw [List.flatMap_cons, List.cons_append, ← ih u]
    simp [unwords]

/-- What follows a token in such a text ends it. -/
theorem endsBefore_flatMap (k : Token.Kind) (text : List Char) (ts : List Token) :
    ∀ c, (ts.flatMap fun t => ' ' :: t.text.toList).head? = some c → k.EndsBefore text c := by
  intro c hc
  obtain _ | ⟨t, ts⟩ := ts
  · contradiction
  · obtain rfl := Option.some.inj hc
    exact k.endsBefore_of_isBlank text rfl

/-- Words that each have a space before them are what a text splits into. -/
theorem splits_flatMap {ts : List Token} (hl : AreLexical ts) (n : Nat) :
    Splits n (ts.flatMap fun t => ' ' :: t.text.toList) (placedFrom (n + 1) ts) := by
  induction ts generalizing n with
  | nil => exact .blanks nofun
  | cons t ts ih =>
    have ht := hl t List.mem_cons_self
    have hblanks : ∀ c ∈ [' '], isBlank c := List.forall_mem_singleton.2 rfl
    exact .token (t := ⟨t.kind, t.text, n + 1⟩) hblanks rfl ht (endsBefore_flatMap _ _ ts)
      (ih hl.tail _)

/-- Lexing finds tokens that have spaces between them. -/
theorem lex_unwords {ts : List Token} (hl : AreLexical ts) :
    lex (unwords ts) = .ok (placedFrom 0 ts) := by
  rw [lex, tokensFrom_eq_ok_iff]
  obtain _ | ⟨t, ts⟩ := ts
  · exact .blanks (by simp [unwords])
  · rw [toList_unwords_cons]
    have ht := hl t List.mem_cons_self
    have hblanks : ∀ c ∈ [], isBlank c := List.forall_mem_nil _
    exact .token (t := ⟨t.kind, t.text, 0⟩) hblanks rfl ht (endsBefore_flatMap _ _ ts)
      (splits_flatMap hl.tail _)

/-- What a token stands for does not depend on its place. -/
theorem Token.Spells.placed {t : Token} {s : Symbol} (h : t.Spells s) (n : Nat) :
    { t with offset := n }.Spells s := by
  obtain ht | ⟨hd⟩ | ht := h
  · exact .word ht
  · refine .literal ?_
    cases hd with
    | nil h => exact .nil h
    | true h => exact .true h
    | false h => exact .false h
    | integer hk heq hs hd => exact .integer hk heq hs hd
    | decimal hk heq hs hw hf => exact .decimal hk heq hs hw hf
    | character hk heq hd => exact .character hk heq hd
    | string hk heq hd => exact .string hk heq hd
  · exact .optional ht

/-- Tokens may stand at other places, as no symbol is told by its place. -/
theorem Takes.placedFrom {ss : List Symbol} {ts rest : List Token} (h : Takes ss ts rest)
    (n : Nat) : ∃ m, Takes ss (placedFrom n ts) (placedFrom m rest) := by
  induction h generalizing n with
  | nil => exact ⟨n, .nil⟩
  | @cons t _ _ _ _ ht _ ih =>
    obtain ⟨m, ih⟩ := ih (n + t.text.length + 1)
    exact ⟨m, .cons (ht.placed n) ih⟩
  | skip _ ih =>
    obtain ⟨m, ih⟩ := ih n
    exact ⟨m, .skip ih⟩

theorem SpelledBy.placedFrom {ss : List Symbol} {ts : List Token} (h : SpelledBy ss ts) (n : Nat) :
    SpelledBy ss (placedFrom n ts) := by
  obtain ⟨m, h⟩ := Takes.placedFrom h n
  exact h

/-- A token keeps its class at another place. -/
theorem areLexical_placedFrom {ts : List Token} (hl : AreLexical ts) (n : Nat) :
    AreLexical (placedFrom n ts) := by
  induction ts generalizing n with
  | nil => exact nofun
  | cons t ts ih =>
    exact List.forall_mem_cons.2 ⟨hl t List.mem_cons_self, ih hl.tail _⟩

/-- Parsing finds a program again however its literals are spelled, and whether or not
    the keywords that may be left out are there. -/
theorem parseSource_unwords {n : Node} {ts : List Token} (hn : IsProgram n) (hl : AreLexical ts)
    (ht : SpelledBy n.symbols ts) : parseSource (unwords ts) = .ok n := by
  have hparse := (parse_eq_ok_iff (areLexical_placedFrom hl 0)).2 ⟨hn, ht.placedFrom 0⟩
  simp only [parseSource, lex_unwords hl, hparse]
  rfl

/-! ### The written form -/

namespace Symbol

/-- The quote around a literal. -/
def quoteOf : Label → Char
  | .text "Character" => '\''
  | _ => '"'

/-- The word that is written for what a literal holds. -/
def literalWord (tag : Label) : Payload → List Char
  | .decimal d => d.plain
  | .special s => s.text
  | .json .null => "NIL".toList
  | .json (.boolean true) => "TRUE".toList
  | .json (.boolean false) => "FALSE".toList
  | .json (.integer i) => writeInteger i
  | .json (.string s) => quoteOf tag :: (Escape.encode (quoteOf tag) s.toList ++ [quoteOf tag])
  | .json _ => []

/-- The word that is written for a symbol, if one is needed. -/
def written? : Symbol → Option String
  | .word (.text text) => some text
  | .word (.other _) => none
  | .literal tag payload => some (String.ofList (literalWord tag payload))
  | .optional _ => none

/-- There are tokens for a symbol. -/
def IsSpellable : Symbol → Prop
  | .word (.text text) => ∃ k : Token.Kind, k.Contains text.toList
  | .word (.other _) => False
  | .literal tag payload => IsLiteral (.literal tag payload)
  | .optional _ => True

/-- A word that belongs to a class is the text of a token. -/
theorem exists_token {k : Token.Kind} {word : List Char} {tag : Label} {payload : Payload}
    (hk : k.Contains word)
    (hd : ∀ t : Token, t.kind = k → t.text.toList = word → t.Denotes tag payload) :
    ∃ t : Token, t.IsLexical ∧ t.Denotes tag payload ∧ t.text = String.ofList word := by
  refine ⟨⟨k, String.ofList word, 0⟩, ?_, hd _ rfl String.toList_ofList, rfl⟩
  rw [IsLexical, String.toList_ofList]
  exact hk

/-- Integers are written without zeros in front. -/
theorem isInteger_writeInteger (i : Int) : IsInteger (writeInteger i) := by
  obtain ⟨sign, digits, heq, hs, hd, _, rfl | hfirst⟩ := exists_writeInteger i
  · exact .inl rfl
  · obtain ⟨c, digits, rfl⟩ := List.exists_cons_of_ne_nil hd.1
    obtain ⟨hc, hdigits⟩ := List.forall_mem_cons.1 hd.2
    exact .inr ⟨sign, c, digits, heq, hs, hc, fun h => hfirst (congrArg some h), hdigits⟩

/-- A literal is written as a token that denotes it. -/
theorem exists_token_of_isLiteral {tag : Label} {payload : Payload}
    (h : IsLiteral (.literal tag payload)) : ∃ t : Token, t.IsLexical ∧ t.Denotes tag payload ∧
      t.text = String.ofList (literalWord tag payload) := by
  have hquoted : ∀ {quote : Char} (s : List Char), Escape.escaped? quote = some quote →
      Escape.Denotes quote (Escape.encode quote s) s := fun s hq => Escape.denotes_encode hq s
  -- The literal is generalized, for its tag and payload are fixed only by the case it is.
  generalize hn : Node.literal tag payload = n at h
  cases h with
  | nil =>
    obtain ⟨rfl, rfl⟩ := Node.literal.inj hn
    exact ⟨⟨.identifier, "NIL", 0⟩, Parser.isName_of_mem_literalWords _ (by simp), .nil rfl, rfl⟩
  | boolean b =>
    obtain ⟨rfl, rfl⟩ := Node.literal.inj hn
    cases b with
    | false =>
      exact ⟨⟨.identifier, "FALSE", 0⟩, Parser.isName_of_mem_literalWords _ (by simp), .false rfl,
        rfl⟩
    | true =>
      exact ⟨⟨.identifier, "TRUE", 0⟩, Parser.isName_of_mem_literalWords _ (by simp), .true rfl,
        rfl⟩
  | integer i =>
    obtain ⟨rfl, rfl⟩ := Node.literal.inj hn
    obtain ⟨sign, digits, heq, hs, hd, hi, _⟩ := exists_writeInteger i
    refine exists_token (k := .integer) (isInteger_writeInteger i) fun t hk ht => ?_
    rw [← hi]
    exact .integer hk (ht.trans heq) hs hd
  | @decimal d hd =>
    obtain ⟨rfl, rfl⟩ := Node.literal.inj hn
    obtain ⟨sign, whole, fraction, heq, hs, hw, hf, hval⟩ := Decimal.exists_plain hd
    refine exists_token (k := .decimal) ⟨sign, whole, fraction, heq, hs, hw, hf⟩ fun t hk ht => ?_
    rw [← hval]
    exact .decimal hk (ht.trans heq) hs hw hf
  | character c =>
    obtain ⟨rfl, rfl⟩ := Node.literal.inj hn
    rw [literalWord, String.toList_singleton]
    refine exists_token (k := .character) ⟨_, c, rfl, hquoted [c] rfl⟩ fun t hk ht => ?_
    exact .character hk ht (hquoted [c] rfl)
  | string s =>
    obtain ⟨rfl, rfl⟩ := Node.literal.inj hn
    refine exists_token (k := .string) ⟨_, _, rfl, hquoted s.toList rfl⟩ fun t hk ht => ?_
    have hd := Token.Denotes.string hk ht (hquoted s.toList rfl)
    rwa [String.ofList_toList] at hd

/-- Spellable symbols are written as tokens that stand for them. -/
theorem exists_tokens {ss : List Symbol} (hss : ∀ s ∈ ss, s.IsSpellable) : ∃ ts : List Token,
    AreLexical ts ∧ SpelledBy ss ts ∧ ts.map Token.text = ss.filterMap written? := by
  induction ss with
  | nil => exact ⟨[], nofun, .nil, rfl⟩
  | cons s ss ih =>
    rw [List.forall_mem_cons] at hss
    obtain ⟨ts, hl, ht, hwords⟩ := ih hss.2
    cases s with
    | word label =>
      cases label with
      | text text =>
        obtain ⟨k, hk⟩ := hss.1
        refine ⟨⟨k, text, 0⟩ :: ts, List.forall_mem_cons.2 ⟨hk, hl⟩, .cons (.word rfl) ht, ?_⟩
        rw [List.map_cons, hwords]
        rfl
      | other value => exact hss.1.elim
    | literal tag payload =>
      obtain ⟨t, htl, hd, htext⟩ := exists_token_of_isLiteral hss.1
      refine ⟨t :: ts, List.forall_mem_cons.2 ⟨htl, hl⟩, .cons (.literal hd) ht, ?_⟩
      rw [List.map_cons, hwords, htext]
      rfl
    | optional text => exact ⟨ts, hl, .skip ht, hwords⟩

/-- There are tokens for every one of some symbols. -/
def AreSpellable (ss : List Symbol) : Prop :=
  ∀ s ∈ ss, s.IsSpellable

theorem areSpellable_append {ss ss' : List Symbol} :
    AreSpellable (ss ++ ss') ↔ AreSpellable ss ∧ AreSpellable ss' :=
  List.forall_mem_append

/-- Symbols can be written if each of them can. -/
theorem areSpellable_cons {s : Symbol} {ss : List Symbol} :
    AreSpellable (s :: ss) ↔ s.IsSpellable ∧ AreSpellable ss :=
  List.forall_mem_cons

theorem areSpellable_nil : AreSpellable [] :=
  List.forall_mem_nil _

/-- The nodes of a list are written one after the other. -/
theorem areSpellable_flatten {ns : List Node} (h : ∀ n ∈ ns, AreSpellable n.symbols) :
    AreSpellable (eachSymbols ns).flatten := by
  intro s hs
  rw [eachSymbols_eq_map, ← List.flatMap_def] at hs
  obtain ⟨n, hn, hs⟩ := List.mem_flatMap.1 hs
  exact h n hn s hs

theorem isSpellable_name {name : String} (h : IsName name) : (word (.text name)).IsSpellable :=
  ⟨.identifier, h⟩

/-- The words of the grammar: keywords, operators, brackets and separators. -/
def grammarWords : List String :=
  ["LET", "CONST", "DEF", "DO", "IF", "ELSE", "FOR", "WHILE", "RETURN", "END", "(", ")", ",", ".",
    ";", "=", "&&", "||", "<", "<=", ">", ">=", "==", "!=", "+", "-", "*", "/"]

/-- All words of the grammar are tokens. -/
theorem isSpellable_of_mem : ∀ w ∈ grammarWords, (ofText w).IsSpellable := by
  -- By the head and the tail of each word, as the existentials of a class are not decided.
  have hclass : ∀ w ∈ grammarWords,
      (w.toList = w.toList.headD ' ' :: w.toList.tail ∧ isIdentifierStart (w.toList.headD ' ') ∧
        w.toList.tail.all isIdentifierPart) ∨
      w.toList ∈ longOperators ∨ (w.toList = [w.toList.headD ' '] ∧
        isBlank (w.toList.headD ' ') = false ∧ isIdentifierStart (w.toList.headD ' ') = false ∧
        isDigit (w.toList.headD ' ') = false ∧ w.toList.headD ' ' ≠ '\'' ∧
        w.toList.headD ' ' ≠ '"') := by decide
  intro w hw
  rcases hclass w hw with h | h | h
  · exact ⟨.identifier, _, _, h.1, h.2.1, List.all_eq_true.1 h.2.2⟩
  · exact ⟨.operator, .inl h⟩
  · exact ⟨.operator, .inr ⟨_, h⟩⟩

/-- An operator of any level is a word of the grammar. -/
theorem mem_grammarWords_of_operator {k : Nat} {w : String} (h : w ∈ operatorsAt k) :
    w ∈ grammarWords := by
  have hall : ∀ k : Fin 4, ∀ w ∈ operatorsAt k, w ∈ grammarWords := by decide
  exact hall ⟨k, Parser.lt_of_mem_operatorsAt h⟩ w h

/-- Lists with commas between them can be written if their items can. -/
theorem areSpellable_separated {items : List (List Symbol)}
    (h : ∀ item ∈ items, AreSpellable item) : AreSpellable (separated items) := by
  obtain _ | ⟨item, items⟩ := items
  · exact areSpellable_nil
  rw [List.forall_mem_cons] at h
  refine areSpellable_append.2 ⟨h.1, fun s hs => ?_⟩
  obtain ⟨item, hitem, hs⟩ := List.mem_flatMap.1 hs
  rcases List.mem_cons.1 hs with rfl | hs
  · exact isSpellable_of_mem "," (by decide)
  · exact h.2 item hitem s hs

end Symbol

namespace Node

open Blockscript.Symbol

theorem areSpellable_separated_symbols {ns : List Node} (h : ∀ n ∈ ns, AreSpellable n.symbols) :
    AreSpellable (separated (eachSymbols ns)) := by
  refine areSpellable_separated fun item hitem => ?_
  rw [eachSymbols_eq_map] at hitem
  obtain ⟨n, hn, rfl⟩ := List.mem_map.1 hitem
  exact h n hn

/-- There are tokens for every symbol of an expression. -/
theorem IsExpression.areSpellable {k : Nat} {e : Node} (h : IsExpression k e) :
    AreSpellable e.symbols := by
  -- By induction on the expression, with the literal as the one case that depends on its payload.
  induction h with
  | @literal n hn =>
    have hsymbols : ∃ tag payload, n = .literal tag payload := by
      cases hn <;> exact ⟨_, _, rfl⟩
    obtain ⟨tag, payload, rfl⟩ := hsymbols
    exact areSpellable_cons.2 ⟨hn, areSpellable_nil⟩
  | group _ ih =>
    simp (disch := decide) only [symbols, areSpellable_cons, areSpellable_append, areSpellable_nil,
      isSpellable_of_mem, ih, and_true]
  | name hname => exact areSpellable_cons.2 ⟨isSpellable_name hname.1, areSpellable_nil⟩
  | function hname _ ih =>
    refine areSpellable_cons.2 ⟨isSpellable_name hname.1, ?_⟩
    simp (disch := decide) only [areSpellable_cons, areSpellable_append, areSpellable_nil,
      isSpellable_of_mem, areSpellable_separated_symbols ih, and_true]
  | access hreceiver hname ih =>
    rw [symbols, hreceiver.ifPresent]
    simp (disch := decide) only [areSpellable_cons, areSpellable_append, areSpellable_nil,
      isSpellable_of_mem, isSpellable_name hname, ih, and_true]
  | call hreceiver hname _ ih ihargs =>
    rw [symbols, hreceiver.ifPresent]
    simp (disch := decide) only [areSpellable_cons, areSpellable_append, areSpellable_nil,
      isSpellable_of_mem, isSpellable_name hname, ih, areSpellable_separated_symbols ihargs,
      and_true]
  | binary hop _ _ ihleft ihright =>
    exact areSpellable_append.2 ⟨ihleft, areSpellable_cons.2
      ⟨isSpellable_of_mem _ (mem_grammarWords_of_operator hop), ihright⟩⟩
  | tighter _ _ ih => exact ih

/-- An initializer is written after an equals sign. -/
theorem IsOptionalExpression.areSpellable {n : Node} (h : IsOptionalExpression n) :
    AreSpellable (n.ifPresent (ofText "=" :: n.symbols)) := by
  rcases h with rfl | h
  · exact areSpellable_nil
  · rw [h.ifPresent]
    exact areSpellable_cons.2 ⟨isSpellable_of_mem _ (by decide), h.areSpellable⟩

/-- What stands at the head of a loop is written without a semicolon of its own. -/
theorem IsForInitializer.areSpellable {n : Node} (h : IsForInitializer n) :
    AreSpellable n.headSymbols := by
  rcases h with rfl | ⟨name, e, rfl, hname, he⟩
  · exact areSpellable_nil
  · simp (disch := decide) only [headSymbols, areSpellable_cons, isSpellable_of_mem,
      isSpellable_name hname, he.areSpellable, and_true]

theorem IsForIncrement.areSpellable {n : Node} (h : IsForIncrement n) :
    AreSpellable n.headSymbols := by
  rcases h with rfl | ⟨receiver, e, rfl, hreceiver, he⟩
  · exact areSpellable_nil
  · simp (disch := decide) only [headSymbols, areSpellable_append, areSpellable_cons,
      isSpellable_of_mem, hreceiver.areSpellable, he.areSpellable, and_true]

/-- There are tokens for every symbol of a statement. -/
theorem IsStatement.areSpellable {words : List String} {s : Node} (h : IsStatement words s) :
    AreSpellable s.symbols := by
  -- By induction on the statement: keywords and punctuation are spelled as they stand, names and
  -- expressions by their own lemmas.
  induction h with
  | discard he _ =>
    simp (disch := decide) only [symbols, areSpellable_append, areSpellable_cons, areSpellable_nil,
      isSpellable_of_mem, he.areSpellable, and_true]
  | declaration hname he =>
    simp (disch := decide) only [symbols, areSpellable_append, areSpellable_cons, areSpellable_nil,
      isSpellable_of_mem, isSpellable_name hname, he.areSpellable, and_true]
  | assignment hreceiver _ hvalue =>
    simp (disch := decide) only [symbols, areSpellable_append, areSpellable_cons, areSpellable_nil,
      isSpellable_of_mem, hreceiver.areSpellable, hvalue.areSpellable, and_true]
  | @choice _ condition thenStatements elseStatements hcondition _ _ ihthen ihelse =>
    have helse : (if elseStatements.isEmpty then Symbol.optional "ELSE" else
        ofText "ELSE").IsSpellable := by
      split
      · trivial
      · exact isSpellable_of_mem _ (by decide)
    simp (disch := decide) only [symbols, areSpellable_append, areSpellable_cons, areSpellable_nil,
      isSpellable_of_mem, hcondition.areSpellable, areSpellable_flatten ihthen, helse,
      areSpellable_flatten ihelse, and_true]
  | forLoop hinitializer hcondition hincrement _ ih =>
    simp (disch := decide) only [symbols, areSpellable_append, areSpellable_cons, areSpellable_nil,
      isSpellable_of_mem, hinitializer.areSpellable, hcondition.areSpellable,
      hincrement.areSpellable, areSpellable_flatten ih, and_true]
  | whileLoop hcondition _ ih =>
    simp (disch := decide) only [symbols, areSpellable_append, areSpellable_cons, areSpellable_nil,
      isSpellable_of_mem, hcondition.areSpellable, areSpellable_flatten ih, and_true]
  | answer hvalue =>
    simp (disch := decide) only [symbols, areSpellable_append, areSpellable_cons, areSpellable_nil,
      isSpellable_of_mem, hvalue.areSpellable, and_true]

/-- A field is written with its word, its name and its initializer, if it has one. -/
theorem IsField.areSpellable {n : Node} (h : IsField n) : AreSpellable n.symbols := by
  obtain @⟨name, isConstant, e, hname, _, he⟩ := h
  have hconst : AreSpellable (if isConstant then [ofText "CONST"] else []) := by
    split
    · exact areSpellable_cons.2 ⟨isSpellable_of_mem _ (by decide), areSpellable_nil⟩
    · exact areSpellable_nil
  simp (disch := decide) only [symbols, areSpellable_append, areSpellable_cons, areSpellable_nil,
    isSpellable_of_mem, hconst, isSpellable_name hname, he.areSpellable, and_true]

/-- A method is written with its name, its parameters and the statements of its body. -/
theorem IsMethod.areSpellable {n : Node} (h : IsMethod n) : AreSpellable n.symbols := by
  obtain @⟨name, parameters, statements, hname, hparameters, hstatements⟩ := h
  have hitems : AreSpellable (separated
      ((parameters.map Label.text).map fun p => [Symbol.word p])) := by
    refine areSpellable_separated fun item hitem => ?_
    rw [List.map_map] at hitem
    obtain ⟨p, hp, rfl⟩ := List.mem_map.1 hitem
    exact areSpellable_cons.2 ⟨isSpellable_name (hparameters p hp), areSpellable_nil⟩
  have hblock := areSpellable_flatten fun s hs => (hstatements s hs).areSpellable
  simp (disch := decide) only [symbols, areSpellable_append, areSpellable_cons, areSpellable_nil,
    isSpellable_of_mem, isSpellable_name hname, hitems, hblock, and_true]

/-- There are tokens for every symbol of a program. -/
theorem IsProgram.areSpellable {n : Node} (h : IsProgram n) : AreSpellable n.symbols := by
  obtain ⟨hfields, hmethods⟩ := h
  exact areSpellable_append.2 ⟨areSpellable_flatten fun f hf => (hfields f hf).areSpellable,
    areSpellable_flatten fun m hm => (hmethods m hm).areSpellable⟩

/-- The written form of a tree: its words with single spaces between them. -/
def write (n : Node) : String :=
  " ".intercalate (n.symbols.filterMap Symbol.written?)

end Node

/-- Parsing undoes writing, however the literals are spelled, and whether or not the
    keywords that may be left out are there. -/
theorem parseSource_of_isProgram {n : Node} (hn : IsProgram n) :
    parseSource n.write = .ok n ∧
      ∀ ts, AreLexical ts → SpelledBy n.symbols ts → parseSource (unwords ts) = .ok n := by
  obtain ⟨ts, hl, ht, hwords⟩ := Symbol.exists_tokens hn.areSpellable
  refine ⟨?_, fun ts hl ht => parseSource_unwords hn hl ht⟩
  rw [write, ← hwords]
  exact parseSource_unwords hn hl ht

/-- A sign is part of a number, but not of the operator before it. -/
theorem parseSource_write_difference :
    IsProgram (.program [.field (.text "a") false
      (.binary (.text "-") (.integer 1) (.decimal ⟨true, 5, -1⟩))] []) ∧
    parseSource "LET a = 1 - -0.5 ;" = .ok (.program [.field (.text "a") false
      (.binary (.text "-") (.integer 1) (.decimal ⟨true, 5, -1⟩))] []) := by
  have hname : IsName "a" := ⟨'a', [], rfl, rfl, nofun⟩
  have hleft : IsExpression 2 (.integer 1) :=
    .tighter (by decide) (.tighter (by decide) (.literal (.integer 1)))
  have hright : IsExpression 3 (.decimal ⟨true, 5, -1⟩) :=
    .tighter (by decide) (.literal (.decimal (Int.le_refl _)))
  have he : IsExpression 2 (.binary (.text "-") (.integer 1) (.decimal ⟨true, 5, -1⟩)) :=
    .binary (by decide) hleft hright
  have hn : IsProgram (.program [.field (.text "a") false
      (.binary (.text "-") (.integer 1) (.decimal ⟨true, 5, -1⟩))] []) := by
    refine .program (List.forall_mem_singleton.2 (.field hname (.inr (by decide)) (.inr ?_))) nofun
    exact .tighter (by decide) (.tighter (by decide) he)
  exact ⟨hn, (parseSource_of_isProgram hn).1⟩

end Blockscript
