/-!
# Blanks

The characters that count as blank space: they separate tokens in a program,
and may surround the text of a number. They are the characters of Unicode with
the property *white space*, together with the four separators
`U+001C`–`U+001F`.

* `isBlank`: the class itself;
* `trim`: a text without the blanks at its two ends.
-/

namespace Blockscript.Text

/-- The blank characters, as inclusive ranges of code points. -/
def blankRanges : List (Nat × Nat) :=
  [(0x09, 0x0D), (0x1C, 0x20), (0x85, 0x85), (0xA0, 0xA0), (0x1680, 0x1680),
   (0x2000, 0x200A), (0x2028, 0x2029), (0x202F, 0x202F), (0x205F, 0x205F),
   (0x3000, 0x3000)]

/-- A blank character, at which a token may end and before which none starts. -/
def isBlank (c : Char) : Bool :=
  blankRanges.any fun r => r.1 ≤ c.toNat && c.toNat ≤ r.2

/-- A text without the characters of the class `p` at its two ends. -/
def trimBy (p : Char → Bool) (s : List Char) : List Char :=
  ((s.dropWhile p).reverse.dropWhile p).reverse

/-- A text without the blanks at its two ends. -/
def trim (s : List Char) : List Char :=
  trimBy isBlank s

end Blockscript.Text
