/-
Module: SlotEvidence.Hex
Purpose: The written form of byte strings: the marker 0x and two hexadecimal digits a byte.
Specification: SPEC_FULL 8, hashes as texts (`to_hex`, `from_hex`)
Trusted boundary: the interpreter's reading of hexadecimal digits, which skips ASCII blanks between
  bytes
Main exports: Hex.digits, Hex.encode, Hex.decode, Hex.Error, Hex.Error.message
-/
import SlotEvidence.Bytes

namespace SlotEvidence

namespace Hex

/-- The lower-case hexadecimal digit of a number below sixteen. -/
def digit (n : Nat) : Char :=
  if n < 10 then Char.ofNat (48 + n) else Char.ofNat (87 + n)

/-- The value of a hexadecimal digit of either case. -/
def digitValue? (c : Char) : Option Nat :=
  if '0' ≤ c ∧ c ≤ '9' then some (c.toNat - 48)
  else if 'a' ≤ c ∧ c ≤ 'f' then some (c.toNat - 87)
  else if 'A' ≤ c ∧ c ≤ 'F' then some (c.toNat - 55)
  else none

/-- Two lower-case digits for each byte. -/
def digits (bytes : Bytes) : List Char :=
  bytes.flatMap fun b => [digit (b.toNat / 16), digit (b.toNat % 16)]

/-- The written form of a byte string, `to_hex`. -/
def encode (bytes : Bytes) : String :=
  String.ofList ('0' :: 'x' :: digits bytes)

/-- Why a text is not the written form of a byte string. -/
inductive Error where
  /-- The marker is missing; `start` holds the first ten characters of the text. -/
  | noMarker (start : String)
  /-- The number of characters after the marker is odd. -/
  | oddLength (length : Nat)
  /-- The character at this place after the marker is no digit. -/
  | badCharacter (position : Nat)
deriving DecidableEq

def Error.message : Error → String
  | .noMarker start => s!"Hex string must start with '0x' prefix, got: {start}..."
  | .oddLength length =>
      s!"Hex string must have even length after 0x prefix, got length {length}"
  | .badCharacter position =>
      "Invalid hex characters in string: non-hexadecimal number found in fromhex() arg at position "
        ++ toString position

/-- The blanks that may stand between two bytes: space, tab, line feed, vertical tab, form feed
and carriage return. -/
def isBlank (c : Char) : Bool :=
  c = ' ' || ('\t' ≤ c && c ≤ '\r')

/-- Reads pairs of digits, where `position` characters come before them.  Blanks are skipped
before a pair and at the end, but not inside a pair. -/
def decodePairs (position : Nat) : List Char → Except Error Bytes
  | [] => .ok []
  | c :: rest =>
      if isBlank c then decodePairs (position + 1) rest
      else
        match digitValue? c, rest with
        | none, _ => .error (.badCharacter position)
        | some _, [] => .error (.badCharacter (position + 1))
        | some high, d :: rest =>
            match digitValue? d with
            | none => .error (.badCharacter (position + 1))
            | some low =>
                (decodePairs (position + 2) rest).map (UInt8.ofNat (16 * high + low) :: ·)

/-- Reads the characters after the marker.  A character outside ASCII is reported before any
other. -/
def decodeBody (body : List Char) : Except Error Bytes :=
  if body.length % 2 ≠ 0 then .error (.oddLength body.length)
  else if body.all (·.toNat < 128) then decodePairs 0 body
  else .error (.badCharacter (body.takeWhile (·.toNat < 128)).length)

/-- Reads the written form of a byte string, `from_hex`. -/
def decode (text : String) : Except Error Bytes :=
  match text.toList with
  | '0' :: 'x' :: body => decodeBody body
  | chars => .error (.noMarker (String.ofList (chars.take 10)))

end Hex

def Bytes32.hex (b : Bytes32) : String := Hex.encode b.bytes

end SlotEvidence
