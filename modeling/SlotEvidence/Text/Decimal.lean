/-
Module: SlotEvidence.Text.Decimal
Purpose: Writing integers in base ten.  An integer of too many digits has no text, and a text that
  would show it is not made.
Trusted boundary: the limit on digits is the one that the interpreter sets by default
Main exports: Text.Writable, Text.Overlong, Text.written, Text.decimal, Text.told,
  Text.overlongDigits
-/
import SlotEvidence.Text.Integer

namespace SlotEvidence

namespace Text

/-- An integer has a text when it has no more digits than are written. -/
def Writable (n : Int) : Prop := (Nat.toDigits 10 n.natAbs).length ≤ digitLimit

instance (n : Int) : Decidable (Writable n) :=
  inferInstanceAs (Decidable ((Nat.toDigits 10 n.natAbs).length ≤ digitLimit))

/-- The refusal to write an integer. -/
structure Overlong where
  number : Int
  not_writable : ¬ Writable number
deriving DecidableEq

def limitText : String :=
  "Exceeds the limit (" ++ toString digitLimit ++ " digits) for integer string conversion"

def limitHint : String := "; use sys.set_int_max_str_digits() to increase the limit"

def Overlong.message (_ : Overlong) : String := limitText ++ limitHint

/-- What is said of a text that writes an integer in so many digits. -/
def overlongDigits (count : Nat) : String :=
  limitText ++ ": value has " ++ toString count ++ " digits" ++ limitHint

/-- A text that shows integers, made only if each of them has a text.  The first one that has none
is refused. -/
def written (numbers : List Int) (text : String) : Except Overlong String :=
  match numbers with
  | [] => .ok text
  | n :: rest => if h : Writable n then written rest text else .error ⟨n, h⟩

/-- The text of an integer. -/
def decimal (n : Int) : Except Overlong String := written [n] (toString n)

/-- What is said where the refusal is told in the same way as the text: one of the two. -/
def told : Except Overlong String → String
  | .ok text => text
  | .error refusal => refusal.message

end Text

end SlotEvidence
