/-
Module: SlotEvidence.Text.Integer
Purpose: Reading integers from text: digits with single underscores between them, a sign, and
  blanks around.
Trusted boundary: the interpreter's grammar of integers, with its limit on digits
Main exports: Text.readDigits?, Text.readInteger?, Text.splitSign, Text.digitLimit
-/
import SlotEvidence.Text.Blank
import SlotEvidence.Text.DecimalDigit

namespace SlotEvidence

namespace Text

/-- No integer of more digits is read. -/
def digitLimit : Nat := 4300

/-- The values of a row of digits.  An underscore may stand between two of them. -/
def readDigits? (value? : Char → Option Nat) : List Char → Option (List Nat)
  | [] => none
  | [c] => (value? c).map ([·])
  | c :: '_' :: rest => do
      let digit ← value? c
      let digits ← readDigits? value? rest
      pure (digit :: digits)
  | c :: rest => do
      let digit ← value? c
      let digits ← readDigits? value? rest
      pure (digit :: digits)

/-- The number that a row of digits writes. -/
def ofDigits (digits : List Nat) : Nat := digits.foldl (fun n digit => 10 * n + digit) 0

/-- Splits off a sign; no sign is a plus. -/
def splitSign : List Char → Bool × List Char
  | '-' :: rest => (true, rest)
  | '+' :: rest => (false, rest)
  | chars => (false, chars)

/-- A size with a sign. -/
def signed (negative : Bool) (size : Nat) : Int := if negative then -(size : Int) else size

/-- Reads an integer between blanks. -/
def readInteger? (blank : Char → Bool) (value? : Char → Option Nat) (chars : List Char) :
    Option Int :=
  let (negative, rest) := splitSign (trim blank chars)
  match readDigits? value? rest with
  | some digits =>
      if digits.length ≤ digitLimit then some (signed negative (ofDigits digits)) else none
  | none => none

end Text

end SlotEvidence
