import Blockscript.Text.Escape

/-!
# Quoted texts

What stands between two quotes *denotes* a text: an escape sequence denotes the
character it stands for, and any other character but the quote itself and the
backslash denotes itself. A text has many such spellings, as some characters may
be written either way, but each spelling denotes one text.

* `Escape.Denotes`: the relation between a spelling and its text;
* `Denotes.append`: spellings one after the other;
* `decode_of_denotes`: decoding finds the text that a spelling denotes;
* `Escape.encode`, `denotes_encode`: the shortest spelling of a text.
-/

namespace Blockscript.Text.Escape

/-- What stands between two quotes, and the text it denotes. -/
inductive Denotes (quote : Char) : List Char → List Char → Prop
  | nil : Denotes quote [] []
  | plain {c : Char} {body text : List Char} : c ≠ quote → c ≠ '\\' →
      Denotes quote body text → Denotes quote (c :: body) (c :: text)
  | escape {c d : Char} {body text : List Char} : escaped? c = some d →
      Denotes quote body text → Denotes quote ('\\' :: c :: body) (d :: text)

/-- Decoding finds the text that a spelling denotes. -/
theorem decode_of_denotes {quote : Char} {body text : List Char}
    (h : Denotes quote body text) : decode body = .ok text := by
  induction h with
  | nil => rfl
  | plain _ hc _ ih =>
    rw [decode.eq_2 _ _ (fun _ _ h _ => hc h), ih]
    rfl
  | escape he _ ih =>
    rw [decode, he]
    simp only [ih]
    rfl

/-- Spellings that stand one after the other denote what each of them denotes. -/
theorem Denotes.append {quote : Char} {body text body' text' : List Char}
    (h : Denotes quote body text) (h' : Denotes quote body' text') :
    Denotes quote (body ++ body') (text ++ text') := by
  induction h with
  | nil => exact h'
  | plain hq hb _ ih => exact .plain hq hb ih
  | escape he _ ih => exact .escape he ih

/-- The shortest spelling of a text: only the quote and the backslash are escaped. -/
def encode (quote : Char) (text : List Char) : List Char :=
  text.flatMap fun c => if c = quote ∨ c = '\\' then ['\\', c] else [c]

/-- A spelling of a text denotes it, for every quote that can be escaped. -/
theorem denotes_encode {quote : Char} (hq : escaped? quote = some quote) (text : List Char) :
    Denotes quote (encode quote text) text := by
  induction text with
  | nil => exact .nil
  | cons c text ih =>
    rw [encode, List.flatMap_cons]
    by_cases hc : c = quote ∨ c = '\\'
    · rw [if_pos hc]
      refine .escape ?_ ih
      rcases hc with rfl | rfl
      · exact hq
      · rfl
    · rw [if_neg hc]
      exact .plain (fun h => hc (.inl h)) (fun h => hc (.inr h)) ih

end Blockscript.Text.Escape
