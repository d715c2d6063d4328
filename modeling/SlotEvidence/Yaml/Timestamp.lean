/-
Module: SlotEvidence.Yaml.Timestamp
Purpose: Scalars that write a day, or a time on a day.
Trusted boundary: the YAML library's pattern for moments
Main exports: Yaml.timestamp?
-/
import SlotEvidence.Binary64
import SlotEvidence.Calendar
import SlotEvidence.Yaml.Token

namespace SlotEvidence

namespace Yaml

/-- A number in `least` to `most` digits, and what follows it. -/
def takeNumber? (least most : Nat) (chars : List Char) : Option (Nat × List Char) :=
  let row := (chars.takeWhile Char.isDigit).take most
  if row.length < least then none
  else some (Binary64.natOfDigits row, chars.drop row.length)

/-- What follows a character. -/
def expect? (wanted : Char) : List Char → Option (List Char)
  | [] => none
  | c :: rest => if c = wanted then some rest else none

/-- A fraction of a second in millionths, and what follows it.  Further digits do not count. -/
def takeFraction : List Char → Nat × List Char
  | '.' :: rest =>
      let row := rest.takeWhile Char.isDigit
      let counted := row.take 6
      (Binary64.natOfDigits counted * Nat.pow 10 (6 - counted.length), rest.drop row.length)
  | rest => (0, rest)

/-- The minutes ahead of universal time, at the end of a time of day. -/
def ahead? (chars : List Char) : Option (Option Int) :=
  if chars = [] then some none
  else
    match chars.dropWhile isBlank with
    | ['Z'] => some (some 0)
    | sign :: rest =>
        if sign = '+' ∨ sign = '-' then do
          let (hours, rest) ← takeNumber? 1 2 rest
          let (minutes, rest) ←
            match rest with
            | ':' :: rest => takeNumber? 2 2 rest
            | rest => some (0, rest)
          let size : Int := (60 * hours + minutes : Nat)
          if rest = [] then some (some (if sign = '-' then -size else size)) else none
        else none
    | [] => none

def clock? (chars : List Char) : Option Clock := do
  let (hour, rest) ← takeNumber? 1 2 chars
  let (minute, rest) ← takeNumber? 2 2 (← expect? ':' rest)
  let (second, rest) ← takeNumber? 2 2 (← expect? ':' rest)
  let (microsecond, rest) := takeFraction rest
  let ahead ← ahead? rest
  some { hour, minute, second, microsecond, ahead }

/-- What follows the letter or the blanks between a day and a time. -/
def afterDay? : List Char → Option (List Char)
  | [] => none
  | c :: rest =>
      if c = 'T' ∨ c = 't' then some rest
      else if isBlank c then some (rest.dropWhile isBlank)
      else none

/-- The moment that a scalar writes.  A day alone has two digits for the month and two for the
day. -/
def timestamp? (chars : List Char) : Option Moment := do
  let (year, rest) ← takeNumber? 4 4 chars
  let (month, rest) ← takeNumber? 1 2 (← expect? '-' rest)
  let (day, rest) ← takeNumber? 1 2 (← expect? '-' rest)
  if rest = [] then
    if chars.length = 10 then some { year, month, day, clock := none } else none
  else
    let clock ← clock? (← afterDay? rest)
    some { year, month, day, clock := some clock }

end Yaml

end SlotEvidence
