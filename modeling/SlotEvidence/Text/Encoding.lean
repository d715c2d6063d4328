/-
Module: SlotEvidence.Text.Encoding
Purpose: Reading text from bytes in UTF-8, UTF-16 or UTF-32, with the encoding told from the first
  bytes.
Trusted boundary: the encodings of the Unicode standard, and the interpreter's guess of the one in
  use
Main exports: Text.Encoding, Text.Encoding.detect, Text.Undecodable, Text.decode
-/
import SlotEvidence.Bytes
import SlotEvidence.Hex

namespace SlotEvidence

namespace Text

/-- A Unicode encoding form with its byte order. -/
inductive Encoding where
  | utf8
  | utf16 (bigEndian : Bool)
  | utf32 (bigEndian : Bool)
deriving DecidableEq

def Encoding.name : Encoding → String
  | .utf8 => "utf-8"
  | .utf16 false => "utf-16-le"
  | .utf16 true => "utf-16-be"
  | .utf32 false => "utf-32-le"
  | .utf32 true => "utf-32-be"

/-- What is wrong with bytes that are no text. -/
inductive Undecodable.Reason where
  | invalidStart
  | invalidContinuation
  | unexpectedEnd
  | truncated
  | outOfRange
deriving DecidableEq

/-- Bytes that are no text: the faulty ones are those from place `first` to place `last`. -/
structure Undecodable where
  encoding : Encoding
  byte : UInt8
  first : Nat
  last : Nat
  reason : Undecodable.Reason
deriving DecidableEq

def Undecodable.Reason.message : Undecodable.Reason → String
  | .invalidStart => "invalid start byte"
  | .invalidContinuation => "invalid continuation byte"
  | .unexpectedEnd => "unexpected end of data"
  | .truncated => "truncated data"
  | .outOfRange => "code point not in range(0x110000)"

/-- The wording of the fault: a single byte is shown, of several only the places. -/
def Undecodable.message (u : Undecodable) : String :=
  let place :=
    if u.first = u.last then
      "byte 0x" ++ String.ofList (Hex.digits [u.byte]) ++ " in position " ++ toString u.first
    else "bytes in position " ++ toString u.first ++ "-" ++ toString u.last
  "'" ++ u.encoding.name ++ "' codec can't decode " ++ place ++ ": " ++ u.reason.message

/-- The character of a code point.  A surrogate alone is no character and is read as the
replacement character. -/
def charOfCode (code : Nat) : Char :=
  if 0xd800 ≤ code ∧ code < 0xe000 then '\ufffd' else Char.ofNat code

def isHighSurrogate (unit : Nat) : Bool := 0xd800 ≤ unit && unit < 0xdc00

def isLowSurrogate (unit : Nat) : Bool := 0xdc00 ≤ unit && unit < 0xe000

def joinSurrogates (high low : Nat) : Nat := 0x10000 + (high - 0xd800) * 0x400 + (low - 0xdc00)

/-- The number of bytes that must follow a start byte above ASCII. -/
def followers? (start : UInt8) : Option Nat :=
  if 0xc2 ≤ start ∧ start < 0xe0 then some 1
  else if 0xe0 ≤ start ∧ start < 0xf0 then some 2
  else if 0xf0 ≤ start ∧ start < 0xf5 then some 3
  else none

/-- A byte that may follow a start byte somewhere. -/
def isContinuation (b : UInt8) : Bool := 0x80 ≤ b && b < 0xc0

/-- A byte that may come directly after a start byte: overlong forms, surrogates and code points
past the last one are ruled out here. -/
def isFirstContinuation (start b : UInt8) : Bool :=
  if start = 0xe0 then 0xa0 ≤ b && b < 0xc0
  else if start = 0xed then 0x80 ≤ b && b < 0xa0
  else if start = 0xf0 then 0x90 ≤ b && b < 0xc0
  else if start = 0xf4 then 0x80 ≤ b && b < 0x90
  else isContinuation b

/-- How many of the bytes after a start byte continue it. -/
def continued (start : UInt8) : Bytes → Nat
  | [] => 0
  | b :: rest =>
      if isFirstContinuation start b then 1 + (rest.takeWhile isContinuation).length else 0

/-- The code point of a start byte with its followers. -/
def joinBytes (start : UInt8) (following : Bytes) : Nat :=
  let high := start.toNat % Nat.pow 2 (6 - following.length)
  following.foldl (fun code b => code * 64 + b.toNat % 64) high

/-- A surrogate in the form of three bytes. -/
def isSurrogateForm (start : UInt8) : Bytes → Bool
  | b :: c :: _ => start = 0xed && 0xa0 ≤ b && b < 0xc0 && isContinuation c
  | _ => false

/-- Reads UTF-8, where `position` bytes come before. -/
def decodeUtf8 (position : Nat) (bytes : Bytes) : Except Undecodable (List Char) :=
  match bytes with
  | [] => .ok []
  | b :: rest =>
      if b < 0x80 then (decodeUtf8 (position + 1) rest).map (Char.ofNat b.toNat :: ·)
      else
        match followers? b with
        | none => .error ⟨.utf8, b, position, position, .invalidStart⟩
        | some count =>
            let found := min count (continued b (rest.take count))
            if found = count then
              (decodeUtf8 (position + 1 + count) (rest.drop count)).map
                (charOfCode (joinBytes b (rest.take count)) :: ·)
            else if isSurrogateForm b rest then
              (decodeUtf8 (position + 3) (rest.drop 2)).map ('\ufffd' :: ·)
            else if found = rest.length then
              .error ⟨.utf8, b, position, position + found, .unexpectedEnd⟩
            else .error ⟨.utf8, b, position, position + found, .invalidContinuation⟩
termination_by bytes.length
decreasing_by all_goals simp only [List.length_drop, List.length_cons]; omega

/-- The unit of two bytes. -/
def unit16 (bigEndian : Bool) (a b : UInt8) : Nat :=
  if bigEndian then a.toNat * 256 + b.toNat else b.toNat * 256 + a.toNat

/-- Reads UTF-16, where `position` bytes come before. -/
def decodeUtf16 (bigEndian : Bool) (position : Nat) : Bytes → Except Undecodable (List Char)
  | [] => .ok []
  | [a] => .error ⟨.utf16 bigEndian, a, position, position, .truncated⟩
  | a :: b :: c :: d :: rest =>
      let high := unit16 bigEndian a b
      let low := unit16 bigEndian c d
      if isHighSurrogate high && isLowSurrogate low then
        (decodeUtf16 bigEndian (position + 4) rest).map (charOfCode (joinSurrogates high low) :: ·)
      else
        (decodeUtf16 bigEndian (position + 2) (c :: d :: rest)).map (charOfCode high :: ·)
  | a :: b :: rest =>
      (decodeUtf16 bigEndian (position + 2) rest).map (charOfCode (unit16 bigEndian a b) :: ·)

/-- Reads UTF-32, where `position` bytes come before. -/
def decodeUtf32 (bigEndian : Bool) (position : Nat) : Bytes → Except Undecodable (List Char)
  | [] => .ok []
  | a :: b :: c :: d :: rest =>
      let four := [a, b, c, d]
      let code := ofLittleEndian (if bigEndian then four.reverse else four)
      if code < 0x110000 then
        (decodeUtf32 bigEndian (position + 4) rest).map (charOfCode code :: ·)
      else .error ⟨.utf32 bigEndian, a, position, position + 3, .outOfRange⟩
  | a :: rest => .error ⟨.utf32 bigEndian, a, position, position + rest.length, .truncated⟩

/-- The encoding of a byte string and the length of its byte order mark.  Without a mark the
places of zero bytes decide, since a text that is read begins with an ASCII character. -/
def Encoding.detect : Bytes → Encoding × Nat
  | 0x00 :: 0x00 :: 0xfe :: 0xff :: _ => (.utf32 true, 4)
  | 0xff :: 0xfe :: 0x00 :: 0x00 :: _ => (.utf32 false, 4)
  | 0xfe :: 0xff :: _ => (.utf16 true, 2)
  | 0xff :: 0xfe :: _ => (.utf16 false, 2)
  | 0xef :: 0xbb :: 0xbf :: _ => (.utf8, 3)
  | a :: b :: c :: d :: _ =>
      if a = 0 then (if b = 0 then .utf32 true else .utf16 true, 0)
      else if b = 0 then (if c = 0 ∧ d = 0 then .utf32 false else .utf16 false, 0)
      else (.utf8, 0)
  | [a, b] =>
      if a = 0 then (.utf16 true, 0) else if b = 0 then (.utf16 false, 0) else (.utf8, 0)
  | _ => (.utf8, 0)

/-- Reads a byte string as text.  Places are counted from the start of the bytes, but in UTF-8 from
the end of the mark. -/
def decode (bytes : Bytes) : Except Undecodable (List Char) :=
  match Encoding.detect bytes with
  | (.utf8, mark) => decodeUtf8 0 (bytes.drop mark)
  | (.utf16 bigEndian, mark) => decodeUtf16 bigEndian mark (bytes.drop mark)
  | (.utf32 bigEndian, mark) => decodeUtf32 bigEndian mark (bytes.drop mark)

end Text

end SlotEvidence
