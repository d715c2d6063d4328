/-
Module: SlotEvidence.Text.Quoted
Purpose: The quoted form in which messages show texts and byte strings.
Trusted boundary: the forms in which the interpreter shows texts and byte strings
Main exports: Text.quote, Text.quoteBytes, Text.quoteBuffer
-/
import SlotEvidence.Bytes
import SlotEvidence.Hex
import SlotEvidence.Text.Printable

namespace SlotEvidence

namespace Text

/-- The `width` lowest hexadecimal digits of a number, in lower case. -/
def hexDigits : (width : Nat) → Nat → List Char
  | 0, _ => []
  | width + 1, n => hexDigits width (n / 16) ++ [Hex.digit (n % 16)]

/-- The quotation mark for a text: the apostrophe, unless the text holds one and no double
quote. -/
def quoteMark (text : List Char) : Char :=
  if '\'' ∈ text ∧ '"' ∉ text then '"' else '\''

/-- A backslash escape by code point, in the shortest of the three widths. -/
def escapeCode (c : Char) : List Char :=
  let n := c.toNat
  if n < 0x100 then '\\' :: 'x' :: hexDigits 2 n
  else if n < 0x10000 then '\\' :: 'u' :: hexDigits 4 n
  else '\\' :: 'U' :: hexDigits 8 n

/-- The form of one character between quotation marks.  `raw` tells the characters that stand for
themselves; `guarded` is the quotation mark that gets a backslash, as a backslash does. -/
def quoteChar (raw : Char → Bool) (guarded c : Char) : List Char :=
  if c = guarded ∨ c = '\\' then ['\\', c]
  else if c = '\n' then ['\\', 'n']
  else if c = '\r' then ['\\', 'r']
  else if c = '\t' then ['\\', 't']
  else if raw c then [c]
  else escapeCode c

/-- Characters between quotation marks. -/
def quoteChars (raw : Char → Bool) (mark guarded : Char) (text : List Char) : String :=
  String.ofList (mark :: text.flatMap (quoteChar raw guarded) ++ [mark])

/-- The quoted form of a text: unprintable characters are escaped. -/
def quote (text : String) : String :=
  let mark := quoteMark text.toList
  quoteChars isPrintable mark mark text.toList

def isPrintableAscii (c : Char) : Bool := c.toNat < 127 && 32 ≤ c.toNat

/-- The characters whose code points are the bytes. -/
def charsOfBytes (bytes : Bytes) : List Char := bytes.map fun b => Char.ofNat b.toNat

/-- The quoted form of a byte string: bytes that are not printable ASCII are escaped. -/
def quoteBytes (bytes : Bytes) : String :=
  let chars := charsOfBytes bytes
  let mark := quoteMark chars
  "b" ++ quoteChars isPrintableAscii mark mark chars

/-- The quoted form of a mutable byte string.  Apostrophes are escaped even between double quotes.
A double quote never needs to be: where there is one, the quotation marks are apostrophes. -/
def quoteBuffer (bytes : Bytes) : String :=
  let chars := charsOfBytes bytes
  "bytearray(b" ++ quoteChars isPrintableAscii (quoteMark chars) '\'' chars ++ ")"

end Text

end SlotEvidence
