/-
Module: SlotEvidence.Json.Token
Purpose: The tokens of a JSON text, with the places where they start.
Trusted boundary: the grammar of the interpreter's own reader, with its limit on digits
Main exports: Json.Trouble, Json.Token, Json.scalarToken, Json.tokens
-/
import SlotEvidence.Json
import SlotEvidence.Text.Encoding

namespace SlotEvidence

namespace Json

/-- What can be wrong with a JSON text. -/
inductive Trouble where
  | expectingValue
  | expectingName
  | expectingColon
  | expectingComma
  | extraData
  | unterminatedText
  | controlCharacter
  | badEscape
  | badUnicodeEscape
  | byteOrderMark
  /-- An integer is written in so many digits, more than are read. -/
  | longNumber (digits : Nat)
deriving DecidableEq

/-- Trouble at a place of the text. -/
structure Misplaced where
  trouble : Trouble
  position : Nat
deriving DecidableEq

inductive Token where
  | leftBrace
  | rightBrace
  | leftBracket
  | rightBracket
  | comma
  | colon
  | text (s : String)
  /-- A literal name or a number. -/
  | scalar (value : Json)
  /-- An integer of so many digits, more than are read. -/
  | longNumber (digits : Nat)
  /-- A text that has no end or holds something that may not stand in a text. -/
  | badText (fault : Misplaced)
  /-- A character that begins no token. -/
  | junk

/-- A token and the place where it starts. -/
structure Located where
  token : Token
  position : Nat

def isBlank (c : Char) : Bool := c = ' ' || c = '\t' || c = '\n' || c = '\r'

/-- The character of a one-letter escape. -/
def letterEscape? (c : Char) : Option Char :=
  if c = '"' ∨ c = '\\' ∨ c = '/' then some c
  else if c = 'b' then some '\x08'
  else if c = 'f' then some '\x0c'
  else if c = 'n' then some '\n'
  else if c = 'r' then some '\r'
  else if c = 't' then some '\t'
  else none

/-- The number that the first four characters write in hexadecimal. -/
def fourDigits? : List Char → Option Nat
  | a :: b :: c :: d :: _ => do
      let a ← Hex.digitValue? a
      let b ← Hex.digitValue? b
      let c ← Hex.digitValue? c
      let d ← Hex.digitValue? d
      pure (((a * 16 + b) * 16 + c) * 16 + d)
  | _ => none

/-- Reads what follows `\u`, where the `u` has the given place, and counts the characters read.
The text must go on after the digits; a second unit is taken along if the two make a surrogate
pair. -/
def readUnits (mark : Nat) (chars : List Char) : Except Misplaced (Char × Nat) :=
  match fourDigits? chars, chars.drop 4 with
  | some first, next :: following =>
      match next, following with
      | '\\', 'u' :: digits =>
          if Text.isHighSurrogate first ∧ digits.drop 4 ≠ [] then
            match fourDigits? digits with
            | none => .error ⟨.badUnicodeEscape, mark + 6⟩
            | some second =>
                if Text.isLowSurrogate second then
                  .ok (Text.charOfCode (Text.joinSurrogates first second), 10)
                else .ok (Text.charOfCode first, 4)
          else .ok (Text.charOfCode first, 4)
      | _, _ => .ok (Text.charOfCode first, 4)
  | _, _ => .error ⟨.badUnicodeEscape, mark⟩

/-- Reads what follows a backslash, which has the place `position`, and counts the characters
read.  The text began at the place `opening`. -/
def readEscape (opening position : Nat) : List Char → Except Misplaced (Char × Nat)
  | [] => .error ⟨.unterminatedText, opening⟩
  | 'u' :: rest => (readUnits (position + 1) rest).map fun (c, count) => (c, count + 1)
  | c :: _ =>
      match letterEscape? c with
      | some d => .ok (d, 1)
      | none => .error ⟨.badEscape, position⟩

/-- Reads a text up to and with its closing quote, and counts the characters read.  The opening
quote has the place `opening`, the next character the place `position`. -/
def readText (opening position : Nat) (chars : List Char) : Except Misplaced (List Char × Nat) :=
  match chars with
  | [] => .error ⟨.unterminatedText, opening⟩
  | c :: rest =>
      if c = '"' then .ok ([], 1)
      else if c = '\\' then
        match readEscape opening position rest with
        | .error fault => .error fault
        | .ok (d, count) =>
            (readText opening (position + 1 + count) (rest.drop count)).map
              fun (read, more) => (d :: read, more + count + 1)
      else if c.toNat < 32 then .error ⟨.controlCharacter, position⟩
      else
        (readText opening (position + 1) rest).map fun (read, more) => (c :: read, more + 1)
termination_by chars.length
decreasing_by all_goals simp only [List.length_drop, List.length_cons]; omega

/-- The literal names and their values. -/
def names : List (List Char × Json) :=
  [("null".toList, .null), ("true".toList, .bool true), ("false".toList, .bool false),
   ("NaN".toList, .float .nan), ("Infinity".toList, .float (.infinity false)),
   ("-Infinity".toList, .float (.infinity true))]

/-- The literal name that a text begins with, and its length. -/
def readName? (chars : List Char) : Option (Json × Nat) :=
  (names.find? fun (name, _) => name.isPrefixOf chars).map fun (name, value) => (value, name.length)

/-- The digits before the point that a text begins with: a zero alone, or digits that begin with
another one. -/
def wholeDigits : List Char → List Char
  | '0' :: _ => ['0']
  | chars => chars.takeWhile Char.isDigit

/-- The fraction that a text begins with: a point and at least one digit.  The digits are
returned. -/
def fractionDigits : List Char → List Char
  | '.' :: rest => rest.takeWhile Char.isDigit
  | _ => []

/-- The exponent that a text begins with: a mark, an optional sign and at least one digit.  The
exponent and the number of its characters are returned. -/
def readExponent? : List Char → Option (Int × Nat)
  | mark :: rest =>
      let (sign, digits) :=
        match rest with
        | '-' :: rest => (['-'], rest.takeWhile Char.isDigit)
        | '+' :: rest => (['+'], rest.takeWhile Char.isDigit)
        | rest => ([], rest.takeWhile Char.isDigit)
      if (mark = 'e' ∨ mark = 'E') ∧ digits ≠ [] then
        let size := Binary64.natOfDigits digits
        some (if sign = ['-'] then -(size : Int) else size, 1 + sign.length + digits.length)
      else none
  | [] => none

/-- The number that a text begins with, and its length.  With a fraction or an exponent it is a
floating-point number, else an integer of whatever size. -/
def readNumber? (chars : List Char) : Option (Json × Nat) :=
  let (negative, chars, signLength) :=
    match chars with
    | '-' :: rest => (true, rest, 1)
    | chars => (false, chars, 0)
  let whole := wholeDigits chars
  if whole = [] then none
  else
    let rest := chars.drop whole.length
    let fraction := fractionDigits rest
    let fractionLength := if fraction = [] then 0 else 1 + fraction.length
    let length := signLength + whole.length + fractionLength
    match readExponent? (rest.drop fractionLength) with
    | some (exponent, exponentLength) =>
        some (.float (.ofScientific negative whole fraction exponent), length + exponentLength)
    | none =>
        if fraction = [] then
          let size : Int := Binary64.natOfDigits whole
          some (.int (if negative then -size else size), length)
        else some (.float (.ofScientific negative whole fraction 0), length)

/-- The token of a literal name or a number.  An integer is read only if it has no more digits than
are written; its digits begin with no zero, so that they are as many as the text has. -/
def scalarToken : Json → Token
  | .int n =>
      if Text.Writable n then .scalar (.int n)
      else .longNumber (Nat.toDigits 10 n.natAbs).length
  | value => .scalar value

/-- The mark that a character is by itself. -/
def mark? (c : Char) : Option Token :=
  if c = '\x7b' then some .leftBrace
  else if c = '\x7d' then some .rightBrace
  else if c = '[' then some .leftBracket
  else if c = ']' then some .rightBracket
  else if c = ',' then some .comma
  else if c = ':' then some .colon
  else none

/-- The tokens of a text, where `position` characters come before.  After a character that begins
no token, and after a faulty text, there are no more. -/
def tokens (position : Nat) (chars : List Char) : List Located :=
  match chars with
  | [] => []
  | c :: rest =>
      if isBlank c then tokens (position + 1) rest
      else if c = '"' then
        match readText position (position + 1) rest with
        | .error fault => [⟨.badText fault, position⟩]
        | .ok (read, count) =>
            ⟨.text (String.ofList read), position⟩ ::
              tokens (position + 1 + count) (rest.drop count)
      else
        match mark? c with
        | some token => ⟨token, position⟩ :: tokens (position + 1) rest
        | none =>
            match (readName? (c :: rest)).or (readNumber? (c :: rest)) with
            | some (value, length) =>
                ⟨scalarToken value, position⟩ ::
                  tokens (position + length) (rest.drop (length - 1))
            | none => [⟨.junk, position⟩]
termination_by chars.length
decreasing_by all_goals simp only [List.length_drop, List.length_cons]; omega

end Json

end SlotEvidence
