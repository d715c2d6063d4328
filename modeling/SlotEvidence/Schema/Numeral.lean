/-
Module: SlotEvidence.Schema.Numeral
Purpose: The integers that texts stand for where a schema wants an integer.  A text loses its
  blanks, its zeros in front, a fraction of zeros and the underscores between its groups of digits;
  what is left must be an integer in its plain form.
Trusted boundary: the lenient mode of the validation library
Main exports: Schema.dropZeros?, Schema.dropZeroFraction, Schema.joinGroups, Schema.readPlain,
  Schema.integerOfText
-/
import SlotEvidence.Schema.Defect
import SlotEvidence.Text.Integer

namespace SlotEvidence

namespace Schema

/-- What follows zeros and underscores of which `last` was the latest.  At the end and before a
point that one stays.  A minus may follow as well as a digit. -/
def afterZeros? (last : Char) : List Char → Option (List Char)
  | [] => some [last]
  | c :: rest =>
      if c = '0' ∨ c = '_' then afterZeros? c rest
      else if c = '.' then some (last :: c :: rest)
      else if c = '-' ∨ c.isDigit then some (c :: rest)
      else none

/-- A numeral without the zeros in front.  It must begin with a digit. -/
def dropZeros? : List Char → Option (List Char)
  | [] => none
  | c :: rest =>
      if c = '0' then afterZeros? c rest
      else if c.isDigit then some (c :: rest)
      else none

/-- Removes a fraction that consists of a point and zeros. -/
def dropZeroFraction (chars : List Char) : List Char :=
  let fraction := (chars.dropWhile (· ≠ '.')).drop 1
  if fraction ≠ [] ∧ fraction.all (· = '0') then chars.takeWhile (· ≠ '.') else chars

/-- Whether two underscores stand side by side. -/
def hasDoubleUnderscore : List Char → Bool
  | '_' :: '_' :: _ => true
  | _ :: rest => hasDoubleUnderscore rest
  | [] => false

/-- Removes the underscores, if each of them stands between two other characters. -/
def joinGroups (chars : List Char) : List Char :=
  if chars.head? = some '_' ∨ chars.getLast? = some '_' ∨ hasDoubleUnderscore chars then chars
  else chars.filter (· ≠ '_')

/-- Reads an integer in its plain form: a minus or no sign, and digits with no zero in front.  Where
it is longer than any integer that is read, it does not matter what follows. -/
def readPlain (chars : List Char) : Checked Int :=
  let (negative, digits) :=
    match chars with
    | '-' :: rest => (true, rest)
    | _ => (false, chars)
  let row := digits.takeWhile Char.isDigit
  let length := if negative then row.length + 1 else row.length
  if digits = ['0'] then .ok 0
  else if row = [] ∨ row.head? = some '0' then refuse .unreadableInteger
  else if Text.digitLimit < length then refuse .oversizedInteger
  else if row ≠ digits then refuse .unreadableInteger
  else .ok (Text.signed negative (Text.ofDigits (row.map fun c => c.toNat - '0'.toNat)))

/-- The integer that a text stands for.  It may have a sign; a second one can only be a minus that
follows zeros, and not where the first one is a minus, too. -/
def integerOfText (s : String) : Checked Int :=
  let (negative, rest) := Text.splitSign (Text.trim Text.isWhiteSpace s.toList)
  match dropZeros? rest with
  | some rest =>
      let size := joinGroups (dropZeroFraction rest)
      readPlain (if negative then '-' :: size else size)
  | none => refuse .unreadableInteger

end Schema

end SlotEvidence
