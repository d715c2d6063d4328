/-
Module: SlotEvidence.Text.Blank
Purpose: Three sets of blank characters, and trimming.
Trusted boundary: the character tables of Unicode 14, human-reviewed
Main exports: Text.isWhiteSpace, Text.isSeparator, Text.isAsciiBlank, Text.trim
-/

namespace SlotEvidence

namespace Text

/-- The characters with the Unicode property White_Space. -/
def isWhiteSpace (c : Char) : Bool :=
  let n := c.toNat
  (9 ≤ n && n ≤ 13) || n = 0x20 || n = 0x85 || n = 0xa0 || n = 0x1680 ||
    (0x2000 ≤ n && n ≤ 0x200a) || n = 0x2028 || n = 0x2029 || n = 0x202f || n = 0x205f || n = 0x3000

/-- White space, or one of the four information separators of ASCII. -/
def isSeparator (c : Char) : Bool :=
  isWhiteSpace c || (0x1c ≤ c.toNat && c.toNat ≤ 0x1f)

def isAsciiBlank (c : Char) : Bool :=
  (9 ≤ c.toNat && c.toNat ≤ 13) || c.toNat = 0x20

/-- The text without the characters of a set at its start and its end. -/
def trim (blank : Char → Bool) (text : List Char) : List Char :=
  ((text.dropWhile blank).reverse.dropWhile blank).reverse

end Text

end SlotEvidence
