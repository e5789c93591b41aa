/-!
# Decimal digits

The digits of a program are the ten ASCII ones. The text of a number that comes
from elsewhere may be written in the digits of any script: each script has ten
consecutive characters, in the order of their values, so that a table of their
zeros gives the value of all of them.

* `isDigit`: the ASCII digits, the only ones that start a number of a program;
* `digitValue?`: the value of a digit of any script;
* `digitsValue`: the number that a run of digits denotes;
* `digitsOf`, `exceedsDigits`: the digits of a number, and whether there are too many.
-/

namespace Blockscript.Text

/-- An ASCII digit. -/
def isDigit (c : Char) : Bool :=
  '0' ≤ c && c ≤ '9'

/-- The code points of the zeros of all scripts (the characters of the category
    *decimal number* whose value is zero). -/
def digitZeros : List Nat :=
  [0x30, 0x660, 0x6F0, 0x7C0, 0x966, 0x9E6, 0xA66, 0xAE6, 0xB66, 0xBE6, 0xC66,
   0xCE6, 0xD66, 0xDE6, 0xE50, 0xED0, 0xF20, 0x1040, 0x1090, 0x17E0, 0x1810,
   0x1946, 0x19D0, 0x1A80, 0x1A90, 0x1B50, 0x1BB0, 0x1C40, 0x1C50, 0xA620,
   0xA8D0, 0xA900, 0xA9D0, 0xA9F0, 0xAA50, 0xABF0, 0xFF10, 0x104A0, 0x10D30,
   0x11066, 0x110F0, 0x11136, 0x111D0, 0x112F0, 0x11450, 0x114D0, 0x11650,
   0x116C0, 0x11730, 0x118E0, 0x11950, 0x11C50, 0x11D50, 0x11DA0, 0x16A60,
   0x16AC0, 0x16B50, 0x1D7CE, 0x1D7D8, 0x1D7E2, 0x1D7EC, 0x1D7F6, 0x1E140,
   0x1E2F0, 0x1E950, 0x1FBF0]

/-- The value of a digit of any script. -/
def digitValue? (c : Char) : Option Nat :=
  (digitZeros.find? fun z => z ≤ c.toNat && c.toNat ≤ z + 9).map (c.toNat - ·)

/-- The number that a list of digit values denotes, the most significant first. -/
def digitsValue (ds : List Nat) : Nat :=
  ds.foldl (fun n d => 10 * n + d) 0

/-- The decimal digits of a natural number, the most significant first and
    without leading zeros. -/
def digitsOf (n : Nat) : List Char :=
  Nat.toDigits 10 n

/-- Whether a natural number has more digits than some positive number of them. -/
def exceedsDigits (n limit : Nat) : Bool :=
  Nat.pow 10 limit ≤ n

end Blockscript.Text
