/-
Module: SlotEvidence.Wire.HashText
Purpose: Hashes as texts on the wire: the marker 0x and 64 hexadecimal digits.
Specification: SPEC_FULL 8, hashes as texts of 0x and 64 digits
Trusted boundary: the interpreter's patterns, whose end also stands before a final line feed
Main exports: Wire.isHashText, Wire.checkHashText, Wire.HashTextFault
-/
import SlotEvidence.Hex

namespace SlotEvidence

namespace Wire

/-- Removes a line feed from the end. -/
def dropFinalLineFeed (chars : List Char) : List Char :=
  if chars.getLast? = some '\n' then chars.dropLast else chars

/-- Whether characters are the marker and 64 digits of either case. -/
def isMarkedHash : List Char → Bool
  | '0' :: 'x' :: digits =>
      digits.length = 2 * hashLength && digits.all fun c => (Hex.digitValue? c).isSome
  | _ => false

/-- Whether a text is taken for a hash.  One line feed may follow the digits. -/
def isHashText (text : String) : Bool := isMarkedHash (dropFinalLineFeed text.toList)

/-- A field whose text is no hash. -/
structure HashTextFault where
  field : String
  text : String
deriving DecidableEq

/-- The wording of a fault.  Of a text of more than 20 characters it shows the first 20. -/
def HashTextFault.message (f : HashTextFault) : String :=
  let shown :=
    if 20 < f.text.toList.length then String.ofList (f.text.toList.take 20) ++ "..." else f.text
  f.field ++ " must be a valid 32-byte hex string with 0x prefix (64 hex chars), got: " ++ shown

/-- The text of a hash with its letters in lower case, `validate_hex_hash`. -/
def checkHashText (field text : String) : Except HashTextFault String :=
  if isHashText text then .ok (String.ofList (text.toList.map Char.toLower))
  else .error ⟨field, text⟩

end Wire

end SlotEvidence
