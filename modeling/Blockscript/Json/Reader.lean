import Blockscript.Decimal.Reader
import Blockscript.Json.Basic
import Blockscript.Text.Digit

/-!
# Reading JSON texts

The grammar of JSON, with two liberties: an object may repeat a key (the last
value counts), and the names `NaN`, `Infinity` and `-Infinity` are numbers.
Quoted texts hold no control characters. There may be a bound on the digits of integers.

Half of a surrogate pair may be escaped alone. It is no character, so that no text of ours
holds it: reading stops there, with a reason of its own.

* `Json.Unreadable`: the reasons why no value is read;
* `Json.read`: the value that a whole text denotes;
* `Json.readText`, `Json.readNumber`, `Json.readValue`: the value that starts a
  text, with what is left of it.
-/

namespace Blockscript.Json

open Text

/-- Why no value is read from a text. -/
inductive Unreadable where
  /-- It is no JSON text, or an integer in it has too many digits. -/
  | malformed
  /-- Half of a surrogate pair is alone in a quoted text. -/
  | loneSurrogate
  deriving DecidableEq, Repr

/-- The blanks of a JSON text. -/
def isSpace (c : Char) : Bool :=
  c == ' ' || c == '\t' || c == '\n' || c == '\r'

/-- A text without the blanks that start it. -/
def skipSpace (s : List Char) : List Char :=
  s.dropWhile isSpace

/-- The value of a hexadecimal digit. -/
def hexValue? (c : Char) : Option Nat :=
  if isDigit c then some (c.toNat - '0'.toNat)
  else if 'a' ≤ c && c ≤ 'f' then some (c.toNat - 'a'.toNat + 10)
  else if 'A' ≤ c && c ≤ 'F' then some (c.toNat - 'A'.toNat + 10)
  else none

/-- The number that four hexadecimal digits denote. -/
def hexUnit? (a b c d : Char) : Option Nat := do
  return (← hexValue? a) * 4096 + (← hexValue? b) * 256 + (← hexValue? c) * 16 + (← hexValue? d)

/-- The character of a one-letter escape. -/
def simpleEscape? (c : Char) : Option Char :=
  [('"', '"'), ('\\', '\\'), ('/', '/'), ('b', '\x08'), ('f', '\x0c'),
   ('n', '\n'), ('r', '\r'), ('t', '\t')].lookup c

/-- The code units of a quoted text, after its opening quote, and what follows
    the closing one. The units read so far are given in reverse. -/
def readUnits : List Char → List Nat → Option (List Nat × List Char)
  | '"' :: rest, units => some (units.reverse, rest)
  | '\\' :: 'u' :: a :: b :: c :: d :: rest, units =>
    match hexUnit? a b c d with
    | some u => readUnits rest (u :: units)
    | none => none
  | '\\' :: c :: rest, units =>
    match simpleEscape? c with
    | some d => readUnits rest (d.toNat :: units)
    | none => none
  | c :: rest, units => if c.toNat < 0x20 then none else readUnits rest (c.toNat :: units)
  | [], _ => none

/-- The characters of a list of code units: two halves of a surrogate pair make
    one character, and none may be alone. -/
def joinSurrogates : List Nat → Option (List Char)
  | high :: low :: rest =>
    if 0xD800 ≤ high ∧ high ≤ 0xDBFF ∧ 0xDC00 ≤ low ∧ low ≤ 0xDFFF then
      (joinSurrogates rest).map
        (Char.ofNat (0x10000 + (high - 0xD800) * 1024 + (low - 0xDC00)) :: ·)
    else if 0xD800 ≤ high ∧ high ≤ 0xDFFF then
      none
    else
      (joinSurrogates (low :: rest)).map (Char.ofNat high :: ·)
  | [unit] => if 0xD800 ≤ unit ∧ unit ≤ 0xDFFF then none else some [Char.ofNat unit]
  | [] => some []

/-- A quoted text, after its opening quote. -/
def readText (s : List Char) : Except Unreadable (String × List Char) :=
  match readUnits s [] with
  | none => .error .malformed
  | some (units, rest) =>
    match joinSurrogates units with
    | none => .error .loneSurrogate
    | some text => .ok (String.ofList text, rest)

/-- The digits of the whole part of a number: a zero stands alone. -/
def readWhole : List Char → Option (List Char × List Char)
  | '0' :: rest => some (['0'], rest)
  | s => match s.takeWhile isDigit with
    | [] => none
    | ds => some (ds, s.dropWhile isDigit)

/-- The part of a number after its point, if there is one with a digit. -/
def readFraction : List Char → List Char × List Char
  | '.' :: rest => match rest.takeWhile isDigit with
    | [] => ([], '.' :: rest)
    | ds => ('.' :: ds, rest.dropWhile isDigit)
  | s => ([], s)

/-- The exponent of a number, if there is one with a digit. -/
def readPower (s : List Char) : List Char × List Char :=
  match s with
  | e :: rest =>
    if e == 'e' || e == 'E' then
      let (sign, digits) := match rest with
        | '+' :: r => (['+'], r)
        | '-' :: r => (['-'], r)
        | r => ([], r)
      match digits.takeWhile isDigit with
      | [] => ([], s)
      | ds => (e :: sign ++ ds, digits.dropWhile isDigit)
    else
      ([], s)
  | [] => ([], [])

/-- A number: an integer if it has neither a point nor an exponent. -/
def readNumber (digits : Option Nat) (s : List Char) : Option (Json × List Char) := do
  let (sign, body) := match s with
    | '-' :: rest => (['-'], rest)
    | s => ([], s)
  let (whole, rest) ← readWhole body
  let (fraction, rest) := readFraction rest
  let (power, rest) := readPower rest
  if fraction.isEmpty && power.isEmpty then
    let n := digitsValue (whole.map fun c => c.toNat - '0'.toNat)
    if digits.any (exceedsDigits n) then none
    else return (.integer (if sign.isEmpty then n else -(n : Int)), rest)
  else
    return (.real (Real.nearest (← Decimal.readAny? (sign ++ whole ++ fraction ++ power))), rest)

/-- The names that denote values, besides those written in other ways. -/
def names : List (List Char × Json) :=
  [("null".toList, .null), ("true".toList, .boolean true), ("false".toList, .boolean false),
   ("NaN".toList, .real .undefined), ("Infinity".toList, .real (.infinite false)),
   ("-Infinity".toList, .real (.infinite true))]

/-- A value written as a name. -/
def readName (s : List Char) : Option (Json × List Char) :=
  (names.find? fun n => n.1.isPrefixOf s).map fun n => (n.2, s.drop n.1.length)

/-- What has been read, if anything. -/
def orMalformed {α : Type} : Option α → Except Unreadable α
  | some a => .ok a
  | none => .error .malformed

section Values

variable (digits : Option Nat)

mutual

/-- The value that starts a text. Each level of nesting takes one of `depth`. -/
def readValue : (depth : Nat) → List Char → Except Unreadable (Json × List Char)
  | 0, _ => .error .malformed
  | depth + 1, s =>
    match s with
    | '"' :: rest => do
      let (text, rest) ← readText rest
      return (.string text, rest)
    | '[' :: rest =>
      match skipSpace rest with
      | ']' :: rest => return (.array [], rest)
      | rest => do
        let (items, rest) ← readItems depth rest
        return (.array items, rest)
    | '\x7b' :: rest =>
      match skipSpace rest with
      | '\x7d' :: rest => return (.object [], rest)
      | rest => do
        let (members, rest) ← readMembers depth rest
        return (ofMembers members, rest)
    | s => orMalformed (readName s <|> readNumber digits s)

/-- The items of a list up to its closing bracket. -/
def readItems : (depth : Nat) → List Char → Except Unreadable (List Json × List Char)
  | 0, _ => .error .malformed
  | depth + 1, s => do
    let (value, rest) ← readValue depth s
    match skipSpace rest with
    | ',' :: rest =>
      let (values, rest) ← readItems depth (skipSpace rest)
      return (value :: values, rest)
    | ']' :: rest => return ([value], rest)
    | _ => throw .malformed

/-- The members of an object up to its closing brace. -/
def readMembers : (depth : Nat) → List Char →
    Except Unreadable (List (String × Json) × List Char)
  | 0, _ => .error .malformed
  | depth + 1, s =>
    match s with
    | '"' :: rest => do
      let (key, rest) ← readText rest
      match skipSpace rest with
      | ':' :: rest =>
        let (value, rest) ← readValue depth (skipSpace rest)
        match skipSpace rest with
        | ',' :: rest =>
          let (members, rest) ← readMembers depth (skipSpace rest)
          return ((key, value) :: members, rest)
        | '\x7d' :: rest => return ([(key, value)], rest)
        | _ => throw .malformed
      | _ => throw .malformed
    | _ => .error .malformed

end

/-- The value that a whole text denotes, if it is a JSON text. No value nests
    deeper than it has characters. -/
def read (s : List Char) : Except Unreadable Json := do
  let (value, rest) ← readValue digits (s.length + 1) (skipSpace s)
  if (skipSpace rest).isEmpty then return value else throw .malformed

end Values

end Blockscript.Json
