import Blockscript.Json.Printer
import Blockscript.Text.Invisible

/-!
# JSON values in messages

A message may have to show a value where a name or a kind was expected. A text
is shown as it is; any other value in a form that tells the kinds apart, with
texts in quotes.

* `Json.display`: a value as a message shows it;
* `Json.literal`: a value inside another one, texts in quotes.
-/

namespace Blockscript.Json

open Text

/-- The last `count` hexadecimal digits of a number. -/
def hexDigits : (count : Nat) → Nat → List Char
  | 0, _ => []
  | count + 1, n => hexDigits count (n / 16) ++ [hexDigit n]

/-- A character of a quoted text. -/
def literalChar (quotation : Char) (c : Char) : List Char :=
  if c = quotation ∨ c = '\\' then ['\\', c]
  else if c = '\n' then ['\\', 'n']
  else if c = '\r' then ['\\', 'r']
  else if c = '\t' then ['\\', 't']
  else if !isInvisible c then [c]
  else if c.toNat < 0x100 then '\\' :: 'x' :: hexDigits 2 c.toNat
  else if c.toNat < 0x10000 then '\\' :: 'u' :: hexDigits 4 c.toNat
  else '\\' :: 'U' :: hexDigits 8 c.toNat

/-- A text in single quotes, or in double ones if only single ones occur in it. -/
def literalText (s : List Char) : List Char :=
  let quotation := if s.contains '\'' && !s.contains '"' then '"' else '\''
  quotation :: s.flatMap (literalChar quotation) ++ [quotation]

/-- A real number in a message. -/
def realText : Real → List Char
  | .undefined => "nan".toList
  | .infinite negative => (if negative then "-inf" else "inf").toList
  | r => r.text

mutual

/-- A value inside another one. -/
def literal : Json → List Char
  | .null => "None".toList
  | .boolean true => "True".toList
  | .boolean false => "False".toList
  | .integer i => writeInteger i
  | .real r => realText r
  | .string s => literalText s.toList
  | .array [] => ['[', ']']
  | .array (item :: items) => '[' :: literal item ++ literalItems items ++ [']']
  | .object [] => ['\x7b', '\x7d']
  | .object (member :: members) =>
    '\x7b' :: literalMember member ++ literalMembers members ++ ['\x7d']

/-- The items of a list after its first one. -/
def literalItems : List Json → List Char
  | [] => []
  | item :: items => ',' :: ' ' :: literal item ++ literalItems items

/-- A key with its value. -/
def literalMember : String × Json → List Char
  | (key, value) => literalText key.toList ++ ':' :: ' ' :: literal value

/-- The members of an object after its first one. -/
def literalMembers : List (String × Json) → List Char
  | [] => []
  | member :: members => ',' :: ' ' :: literalMember member ++ literalMembers members

end

/-- A value as a message shows it: a text as it is. -/
def display : Json → String
  | .string s => s
  | value => String.ofList (literal value)

end Blockscript.Json
