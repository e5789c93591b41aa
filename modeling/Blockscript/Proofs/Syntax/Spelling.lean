import Blockscript.Proofs.Syntax.Grammar

/-!
# Spellings

Tokens *spell* the symbols of a tree one by one: a word by its text, and a literal
by any text that denotes it. Only a keyword that may be left out takes no token or
one.

* `Token.Spells`: a token for a symbol;
* `Takes`: symbols spelled by the first of some tokens, and the tokens that remain;
* `SpelledBy`: symbols spelled by all tokens.
-/

namespace Blockscript

open Text Token

namespace Token

/-- A token belongs to its class. -/
def IsLexical (t : Token) : Prop :=
  t.kind.Contains t.text.toList

/-- Every one of some tokens belongs to its class. -/
def AreLexical (ts : List Token) : Prop :=
  ∀ t ∈ ts, t.IsLexical

/-- The text of the next token. -/
def nextText? (ts : List Token) : Option String :=
  ts.head?.map Token.text

theorem AreLexical.tail {t : Token} {ts : List Token} (h : AreLexical (t :: ts)) :
    AreLexical ts :=
  fun u hu => h u (List.mem_cons_of_mem t hu)

/-- The next token has some text just if there is one. -/
theorem nextText?_eq_some_iff {ts : List Token} {text : String} :
    nextText? ts = some text ↔ ∃ t rest, ts = t :: rest ∧ t.text = text := by
  obtain _ | ⟨t, ts⟩ := ts
  · exact ⟨nofun, fun ⟨_, _, h, _⟩ => nomatch h⟩
  · simp [nextText?]

/-- A token denotes what a literal holds. -/
inductive Denotes (t : Token) : Label → Payload → Prop
  | nil : t.text = "NIL" → Denotes t (.text "Nil") (.json .null)
  | true : t.text = "TRUE" → Denotes t (.text "Boolean") (.json (.boolean true))
  | false : t.text = "FALSE" → Denotes t (.text "Boolean") (.json (.boolean false))
  | integer {sign digits : List Char} : t.kind = .integer → t.text.toList = sign ++ digits →
      IsOptionalSign sign → IsDigits digits →
      Denotes t (.text "Integer") (.json (.integer (integerOf sign digits)))
  | decimal {sign whole fraction : List Char} : t.kind = .decimal →
      t.text.toList = sign ++ (whole ++ '.' :: fraction) → IsOptionalSign sign →
      IsDigits whole → IsDigits fraction →
      Denotes t (.text "Decimal") (.decimal (decimalOf sign whole fraction))
  | character {body text : List Char} : t.kind = .character →
      t.text.toList = '\'' :: (body ++ ['\'']) → Escape.Denotes '\'' body text →
      Denotes t (.text "Character") (.json (.string (String.ofList text)))
  | string {body text : List Char} : t.kind = .string →
      t.text.toList = '"' :: (body ++ ['"']) → Escape.Denotes '"' body text →
      Denotes t (.text "String") (.json (.string (String.ofList text)))

/-- A token stands for a symbol. -/
inductive Spells (t : Token) : Symbol → Prop
  | word {text : String} : t.text = text → Spells t (.word (.text text))
  | literal {tag : Label} {payload : Payload} : t.Denotes tag payload →
      Spells t (.literal tag payload)
  | optional {text : String} : t.text = text → Spells t (.optional text)

end Token

/-- The first of some tokens stand for some symbols, and the others remain. -/
inductive Takes : List Symbol → List Token → List Token → Prop
  | nil {ts : List Token} : Takes [] ts ts
  | cons {t : Token} {s : Symbol} {ss : List Symbol} {ts rest : List Token} : t.Spells s →
      Takes ss ts rest → Takes (s :: ss) (t :: ts) rest
  | skip {text : String} {ss : List Symbol} {ts rest : List Token} : Takes ss ts rest →
      Takes (.optional text :: ss) ts rest

/-- Tokens stand for some symbols, all of them. -/
def SpelledBy (ss : List Symbol) (ts : List Token) : Prop :=
  Takes ss ts []

namespace Takes

variable {ss ss' : List Symbol} {ts rest : List Token}

/-- Symbols after symbols take tokens after tokens. -/
theorem append {m : List Token} (h : Takes ss ts m) (h' : Takes ss' m rest) :
    Takes (ss ++ ss') ts rest := by
  induction h with
  | nil => exact h'
  | cons ht _ ih => exact .cons ht (ih h')
  | skip _ ih => exact .skip (ih h')

/-- Where symbols follow others, there is a place between what the first take and what the second
    take. -/
theorem append_iff : Takes (ss ++ ss') ts rest ↔ ∃ m, Takes ss ts m ∧ Takes ss' m rest := by
  refine ⟨fun h => ?_, fun ⟨m, h, h'⟩ => h.append h'⟩
  induction ss generalizing ts with
  | nil => exact ⟨ts, .nil, h⟩
  | cons s ss ih =>
    cases h with
    | cons ht h =>
      obtain ⟨m, h, h'⟩ := ih h
      exact ⟨m, .cons ht h, h'⟩
    | skip h =>
      obtain ⟨m, h, h'⟩ := ih h
      exact ⟨m, .skip h, h'⟩

theorem nil_iff : Takes [] ts rest ↔ ts = rest :=
  ⟨fun h => by cases h; rfl, fun h => h ▸ .nil⟩

/-- A word takes one token, of which it is the text. -/
theorem word_cons_iff {label : Label} : Takes (.word label :: ss) ts rest ↔
    ∃ t m, ts = t :: m ∧ label = .text t.text ∧ Takes ss m rest := by
  constructor
  · rintro (_ | ⟨⟨rfl⟩, h⟩)
    exact ⟨_, _, rfl, rfl, h⟩
  · rintro ⟨t, m, rfl, rfl, h⟩
    exact .cons (.word rfl) h

/-- A fixed text takes one token of this text. -/
theorem ofText_cons_iff {text : String} : Takes (.ofText text :: ss) ts rest ↔
    ∃ t m, ts = t :: m ∧ t.text = text ∧ Takes ss m rest := by
  rw [Symbol.ofText, word_cons_iff]
  simp only [Label.text.injEq, eq_comm]

/-- The first token of a word is the next one. -/
theorem nextText?_eq {text : String} (h : Takes (.word (.text text) :: ss) ts rest) :
    nextText? ts = some text := by
  obtain ⟨t, m, rfl, ht, _⟩ := word_cons_iff.1 h
  rw [Label.text.inj ht]
  rfl

/-- A keyword may be there where it may be left out. -/
theorem optionalIf {text : String} (h : Takes [.ofText text] ts rest) (b : Bool) :
    Takes [if b then .optional text else .ofText text] ts rest := by
  cases b with
  | false => exact h
  | true =>
    obtain ⟨t, m, rfl, ht, ⟨⟩⟩ := ofText_cons_iff.1 h
    exact .cons (.optional ht) .nil

/-- A text that may be missing takes a token or none. -/
theorem optionalIf_cons_iff {text : String} {b : Bool} :
    Takes ((if b then .optional text else .ofText text) :: ss) ts rest ↔
      b ∧ Takes ss ts rest ∨ ∃ t m, ts = t :: m ∧ t.text = text ∧ Takes ss m rest := by
  cases b with
  | false => simp [ofText_cons_iff]
  | true =>
    constructor
    · rintro (_ | ⟨⟨ht⟩, h⟩ | h)
      · exact .inr ⟨_, _, rfl, ‹_›, h⟩
      · exact .inl ⟨rfl, h⟩
    · rintro (⟨_, h⟩ | ⟨t, m, rfl, ht, h⟩)
      · exact .skip h
      · exact .cons (.optional ht) h

/-- A literal takes one token that denotes it. -/
theorem literal_cons_iff {tag : Label} {payload : Payload} :
    Takes (.literal tag payload :: ss) ts rest ↔
      ∃ t m, ts = t :: m ∧ t.Denotes tag payload ∧ Takes ss m rest := by
  constructor
  · rintro (_ | ⟨⟨_⟩, h⟩)
    exact ⟨_, _, rfl, ‹_›, h⟩
  · rintro ⟨t, m, rfl, hd, h⟩
    exact .cons (.literal hd) h

/-- What remains is the end of all tokens. -/
theorem isSuffix (h : Takes ss ts rest) : rest <:+ ts := by
  induction h with
  | nil => exact List.suffix_rfl
  | cons _ _ ih => exact ih.trans (List.suffix_cons _ _)
  | skip _ ih => exact ih

theorem areLexical (h : Takes ss ts rest) (hl : AreLexical ts) : AreLexical rest :=
  fun t ht => hl t (h.isSuffix.subset ht)

/-- What remains is not longer than what was there. -/
theorem length_le (h : Takes ss ts rest) : rest.length ≤ ts.length :=
  h.isSuffix.length_le

end Takes

end Blockscript
