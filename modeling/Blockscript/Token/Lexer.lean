import Blockscript.Text.Blank
import Blockscript.Text.Digit
import Blockscript.Text.Escape
import Blockscript.Token.Basic

/-!
# Lexing

A program splits into tokens and the blanks between them. What a token starts
with decides its class, and the token is the longest of its class; where the
text cannot go on, an error names the first character that cannot belong to it.

Scanning is a function of the text that remains. A *scanner* finds the length of
the token that starts there, or fails, and places are relative to where it
starts.

* `Lexer.scanToken`: the class and the length of the token that starts a text;
* `Lexer.scanIdentifier`, `Lexer.scanNumber`, `Lexer.scanCharacter`,
  `Lexer.scanString`, `Lexer.scanOperator`: the same for each class;
* `lex`: the tokens of a program.
-/

namespace Blockscript

open Text

/-- The ways in which a text fails to be a token. -/
inductive LexError.Cause where
  | invalidIdentifierStart
  | missingDigit
  | missingFraction
  | leadingZero
  | signedZero
  | unterminatedCharacter
  | emptyCharacter
  | unterminatedString
  | invalidEscape
  | invalidOperator
  deriving DecidableEq, Repr

/-- The wording of an error. -/
def LexError.Cause.message : LexError.Cause → String
  | .invalidIdentifierStart => "invalid identifier start"
  | .missingDigit => "expected digit"
  | .missingFraction => "expected digit after decimal point"
  | .leadingZero => "leading zero in integer literal"
  | .signedZero => "signed zero integer literal"
  | .unterminatedCharacter => "unterminated character literal"
  | .emptyCharacter => "empty character literal"
  | .unterminatedString => "unterminated string literal"
  | .invalidEscape => "invalid escape sequence"
  | .invalidOperator => "invalid operator"

/-- A failure to find a token: its cause, the offset of the character that cannot
    be there, and how far the text was read. -/
structure LexError where
  cause : LexError.Cause
  offset : Nat
  reached : Nat
  deriving DecidableEq, Repr

namespace LexError

/-- An error at the place up to which the text was read. -/
def here (cause : Cause) (n : Nat) : LexError :=
  ⟨cause, n, n⟩

/-- The same error, with its places counted from `n` characters earlier. -/
def shift (e : LexError) (n : Nat) : LexError :=
  { e with offset := e.offset + n, reached := e.reached + n }

/-- The wording of an error, without its place. -/
def message (e : LexError) : String :=
  e.cause.message

end LexError

namespace Lexer

/-- A letter or an underscore, which may start an identifier. -/
def isIdentifierStart (c : Char) : Bool :=
  ('a' ≤ c && c ≤ 'z') || ('A' ≤ c && c ≤ 'Z') || c == '_'

/-- A character that may follow in an identifier. -/
def isIdentifierPart (c : Char) : Bool :=
  isIdentifierStart c || isDigit c || c == '-'

/-- A sign that may start a number. -/
def isSign (c : Char) : Bool :=
  c == '+' || c == '-'

/-- The operators of two characters. -/
def longOperators : List (List Char) :=
  [['!', '='], ['=', '='], ['<', '='], ['>', '='], ['&', '&'], ['|', '|']]

/-- Whether a text starts with a digit. -/
def startsWithDigit : List Char → Bool
  | c :: _ => isDigit c
  | [] => false

/-- Whether a text starts with a number: a digit, or a sign right before one. -/
def startsWithNumber : List Char → Bool
  | c :: rest => isDigit c || (isSign c && startsWithDigit rest)
  | [] => false

/-- The length of the identifier that starts a text. -/
def scanIdentifier (s : List Char) : Except LexError Nat :=
  if s.head?.any isIdentifierStart then
    .ok (s.takeWhile isIdentifierPart).length
  else
    .error (.here .invalidIdentifierStart 0)

/-- The class and the length of the number that starts a text. An integer has
    neither a leading zero nor, if it is zero, a sign; a decimal has a digit on
    either side of its point. -/
def scanNumber (s : List Char) : Except LexError (Token.Kind × Nat) :=
  let signLength := if s.head?.any isSign then 1 else 0
  let digits := (s.drop signLength).takeWhile isDigit
  let n := signLength + digits.length
  if digits.isEmpty then
    .error (.here .missingDigit signLength)
  else
    match s.drop n with
    | '.' :: rest =>
      match rest.takeWhile isDigit with
      | [] => .error ⟨.missingFraction, n + 1, n⟩
      | fraction => .ok (.decimal, n + 1 + fraction.length)
    | _ =>
      if digits.head? = some '0' ∧ 1 < digits.length then
        .error ⟨.leadingZero, signLength + 1, n⟩
      else if 0 < signLength ∧ digits = ['0'] then
        .error (.here .signedZero n)
      else
        .ok (.integer, n)

/-- The length of the escape sequence that starts a text, whose first character
    is taken for the backslash. -/
def scanEscape (s : List Char) : Except LexError Nat :=
  match s.drop 1 with
  | c :: _ => if (Escape.escaped? c).isSome then .ok 2 else .error (.here .invalidEscape 1)
  | [] => .error (.here .invalidEscape 1)

/-- Closes a character literal after `n` of its characters. -/
def closeCharacter (s : List Char) (n : Nat) : Except LexError Nat :=
  if (s.drop n).head? = some '\'' then .ok (n + 1) else .error (.here .unterminatedCharacter n)

/-- The length of the character literal that starts a text, whose first character
    is taken for the opening quote. -/
def scanCharacter (s : List Char) : Except LexError Nat :=
  match s.drop 1 with
  | [] => .error (.here .unterminatedCharacter 1)
  | '\\' :: rest =>
    match scanEscape ('\\' :: rest) with
    | .ok n => closeCharacter s (1 + n)
    | .error e => .error (e.shift 1)
  | '\'' :: _ => .error (.here .emptyCharacter 1)
  | _ :: _ => closeCharacter s 2

/-- The length of a string literal up to its closing quote, from `n` characters
    after its start. -/
def scanStringFrom : (n : Nat) → List Char → Except LexError Nat
  | n, [] => .error (.here .unterminatedString n)
  | n, '"' :: _ => .ok (n + 1)
  | n, '\\' :: c :: rest =>
    if (Escape.escaped? c).isSome then scanStringFrom (n + 2) rest
    else .error (.here .invalidEscape (n + 1))
  | n, ['\\'] => .error (.here .invalidEscape (n + 1))
  | n, _ :: rest => scanStringFrom (n + 1) rest

/-- The length of the string literal that starts a text, whose first character is
    taken for the opening quote. A literal that does not end is reported at the
    end of the text. -/
def scanString (s : List Char) : Except LexError Nat :=
  match scanStringFrom 1 (s.drop 1) with
  | .error ⟨.unterminatedString, _, reached⟩ => .error ⟨.unterminatedString, s.length, reached⟩
  | r => r

/-- The length of the operator that starts a text: one of the long ones, or any
    character that is no blank. -/
def scanOperator (s : List Char) : Except LexError Nat :=
  if longOperators.contains (s.take 2) then .ok 2
  else if s.head?.any fun c => !isBlank c then .ok 1
  else .error (.here .invalidOperator 0)

/-- The class and the length of the token that starts a text. -/
def scanToken (s : List Char) : Except LexError (Token.Kind × Nat) :=
  if s.head?.any isIdentifierStart then
    (scanIdentifier s).map (.identifier, ·)
  else if startsWithNumber s then
    scanNumber s
  else if s.head? = some '\'' then
    (scanCharacter s).map (.character, ·)
  else if s.head? = some '"' then
    (scanString s).map (.string, ·)
  else
    (scanOperator s).map (.operator, ·)

/-- The tokens of a text that starts at an offset. -/
def tokensFrom (offset : Nat) (s : List Char) : Except LexError (List Token) :=
  match _h : s.dropWhile isBlank with
  | [] => .ok []
  | c :: rest =>
    let start := offset + (s.takeWhile isBlank).length
    match scanToken (c :: rest) with
    | .error e => .error (e.shift start)
    | .ok (kind, n) =>
      (⟨kind, String.ofList ((c :: rest).take n), start⟩ :: ·) <$>
        tokensFrom (start + n) (rest.drop (n - 1))
termination_by s.length
decreasing_by
  have := (List.dropWhile_sublist isBlank (l := s)).length_le
  simp only [_h, List.length_cons] at this
  simp only [List.length_drop]
  omega

end Lexer

/-- The tokens of a program, in order. -/
def lex (source : String) : Except LexError (List Token) :=
  Lexer.tokensFrom 0 source.toList

end Blockscript
