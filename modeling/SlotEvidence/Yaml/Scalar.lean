/-
Module: SlotEvidence.Yaml.Scalar
Purpose: What a scalar without quotes stands for: null, a truth value, a number, a moment or a
  text.
Trusted boundary: the YAML library's patterns for scalars without quotes
Main exports: Yaml.Fault, Yaml.resolve, Yaml.integer, Yaml.float?
-/
import SlotEvidence.Hex
import SlotEvidence.Text.Decimal
import SlotEvidence.Value
import SlotEvidence.Yaml.Timestamp

namespace SlotEvidence

namespace Yaml

/-- Why a text cannot be read. -/
inductive Fault where
  /-- It does not have the right form. -/
  | unreadable
  /-- A number in this base has no digits. -/
  | noDigits (base : Nat)
  | tooManyDigits (count : Nat)
  | noMoment (fault : Moment.Fault)
deriving DecidableEq

def Fault.message : Fault → String
  | .unreadable => "not a readable text"
  | .noDigits base => "invalid literal for int() with base " ++ toString base ++ ": ''"
  | .tooManyDigits count => Text.overlongDigits count
  | .noMoment fault => fault.message

def nullWords : List String := ["", "~", "null", "Null", "NULL"]

def trueWords : List String := ["yes", "Yes", "YES", "true", "True", "TRUE", "on", "On", "ON"]

def falseWords : List String := ["no", "No", "NO", "false", "False", "FALSE", "off", "Off", "OFF"]

/-- The number that characters write in a base, with underscores anywhere between the digits. -/
def inBase? (base : Nat) (chars : List Char) : Option Nat := do
  let digits ← (chars.filter (· ≠ '_')).mapM Hex.digitValue?
  if digits ≠ [] ∧ digits.all (· < base) then
    some (digits.foldl (fun n digit => base * n + digit) 0)
  else none

/-- The characters between colons. -/
def colonParts : List Char → List (List Char)
  | [] => [[]]
  | ':' :: rest => [] :: colonParts rest
  | c :: rest =>
      match colonParts rest with
      | part :: parts => (c :: part) :: parts
      | [] => [[c]]

/-- A number below sixty in one or two digits. -/
def sixtieth? (chars : List Char) : Option Nat :=
  if chars.length ≤ 2 ∧ chars.all Char.isDigit then (inBase? 10 chars).filter (· < 60) else none

/-- The number in a base that nothing but underscores may write; without a digit there is none. -/
def inBase (base : Nat) (chars : List Char) : Option (Except Fault Nat) :=
  if chars ≠ [] ∧ chars.all (· = '_') then some (.error (.noDigits base))
  else (inBase? base chars).map .ok

/-- A number in decimal digits with underscores anywhere between them, if there are not too many
digits. -/
def decimal (chars : List Char) : Option (Except Fault Nat) :=
  (inBase? 10 chars).map fun n =>
    let count := (chars.filter (· ≠ '_')).length
    if count ≤ Text.digitLimit then .ok n else .error (.tooManyDigits count)

/-- An integer without a sign: binary after 0b, hexadecimal after 0x, octal after 0, decimal, or in
parts of sixty with colons between them. -/
def natural : List Char → Option (Except Fault Nat)
  | ['0'] => some (.ok 0)
  | '0' :: 'b' :: digits => inBase 2 digits
  | '0' :: 'x' :: digits => inBase 16 digits
  | '0' :: digits => (inBase? 8 ('0' :: digits)).map .ok
  | '_' :: _ => none
  | chars =>
      match colonParts chars with
      | [] => none
      | part :: parts => do
          let first ← decimal part
          let rest ← parts.mapM sixtieth?
          some (first.map fun first => rest.foldl (fun n part => 60 * n + part) first)

def integer (chars : List Char) : Option (Except Fault Int) :=
  let (negative, rest) := Text.splitSign chars
  (natural rest).map fun n => n.map (Text.signed negative)

/-- Whether characters are nothing, or a mark, a sign and digits. -/
def isSignedExponent : List Char → Bool
  | [] => true
  | mark :: sign :: digits =>
      (mark = 'e' || mark = 'E') && (sign = '+' || sign = '-') && !digits.isEmpty
        && digits.all Char.isDigit
  | _ => false

def startsWithDigit (chars : List Char) : Bool := (chars.head?.map Char.isDigit).getD false

/-- A digit, or an underscore between digits. -/
def isDigitPart (c : Char) : Bool := c.isDigit || c = '_'

/-- Whether characters after a sign, if there is one, write a decimal with a point.  Where no digit
comes before the point there is no sign either. -/
def isPointed (hasSign : Bool) (chars : List Char) : Bool :=
  let whole := chars.takeWhile isDigitPart
  match chars.dropWhile isDigitPart with
  | '.' :: rest =>
      (startsWithDigit whole || (whole.isEmpty && !hasSign && startsWithDigit rest))
        && isSignedExponent (rest.dropWhile isDigitPart)
  | _ => false

/-- The number that parts of sixty make together, the greatest part first. -/
def ofSixtieths (parts : List Binary64) : Binary64 :=
  let sum :=
    parts.reverse.foldl (fun (sum, unit) part => (sum.plus (part.times unit), 60 * unit))
      (Binary64.ofParts false 0, 1)
  sum.1

/-- A number in parts of sixty with colons between them, the last one with a point. -/
def sixtieths? (chars : List Char) : Option Binary64 :=
  let fraction := chars.dropWhile (· ≠ '.')
  match colonParts (chars.takeWhile (· ≠ '.')) with
  | first :: second :: others =>
      let smaller := second :: others
      if fraction ≠ [] ∧ (fraction.drop 1).all isDigitPart ∧ startsWithDigit first
          ∧ first.all isDigitPart ∧ smaller.all (sixtieth? · |>.isSome) then
        let last := smaller.getLast?.getD [] ++ fraction
        let parts := (first :: smaller.dropLast ++ [last]).map (·.filter (· ≠ '_'))
        (parts.mapM (Binary64.readUnsigned? false)).map ofSixtieths
      else none
  | _ => none

def float? (chars : List Char) : Option Binary64 :=
  let (negative, rest) := Text.splitSign chars
  let hasSign := rest.length < chars.length
  if String.ofList rest ∈ [".inf", ".Inf", ".INF"] then some (.infinity negative)
  else if String.ofList chars ∈ [".nan", ".NaN", ".NAN"] then some .nan
  else if isPointed hasSign rest then Binary64.readUnsigned? negative (rest.filter (· ≠ '_'))
  else (sixtieths? rest).map fun x => Binary64.ofParts negative x.unsignedBits

/-- The moment that a scalar writes, if there is such a moment. -/
def moment (chars : List Char) : Option (Except Fault Value) :=
  (timestamp? chars).map fun m =>
    match m.fault? with
    | some fault => .error (.noMoment fault)
    | none => .ok (.moment m)

def mergeMark : String := "<<"

def valueMark : String := "="

/-- What a scalar without quotes stands for.  The two marks stand for nothing alone. -/
def resolve (s : String) : Except Fault Value :=
  if s ∈ nullWords then .ok .null
  else if s ∈ trueWords then .ok (.bool true)
  else if s ∈ falseWords then .ok (.bool false)
  else if s = mergeMark ∨ s = valueMark then .error .unreadable
  else
    match float? s.toList, integer s.toList, moment s.toList with
    | some x, _, _ => .ok (.float x)
    | none, some n, _ => n.map .int
    | none, none, some m => m
    | none, none, none => .ok (.text s)

end Yaml

end SlotEvidence
