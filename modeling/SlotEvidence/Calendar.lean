/-
Module: SlotEvidence.Calendar
Purpose: Dates and times of day: which of them there are, and the forms in which they are shown.
Trusted boundary: the days of the proleptic Gregorian calendar, and the forms in which the
  interpreter shows them
Main exports: Clock, Moment, Moment.Fault, Moment.fault?, Moment.literal, Moment.display
-/

namespace SlotEvidence

structure Clock where
  hour : Nat
  minute : Nat
  second : Nat
  microsecond : Nat
  /-- By how many minutes the clock is ahead of universal time, if that is told. -/
  ahead : Option Int
deriving DecidableEq

/-- A day, or a time on a day. -/
structure Moment where
  year : Nat
  month : Nat
  day : Nat
  clock : Option Clock
deriving DecidableEq

namespace Moment

/-- Why there is no such moment. -/
inductive Fault where
  | year (given : Nat)
  | month
  | day
  | hour
  | minute
  | second
  /-- A clock is less than a day ahead or behind. -/
  | ahead (minutes : Int)
deriving DecidableEq

/-- A number of minutes as messages show it: in days and in seconds of a last, incomplete day. -/
def durationLiteral (minutes : Int) : String :=
  let days := Int.fdiv minutes 1440
  let seconds := 60 * Int.fmod minutes 1440
  let parts :=
    (if days = 0 then [] else ["days=" ++ toString days])
      ++ (if seconds = 0 then [] else ["seconds=" ++ toString seconds])
  "datetime.timedelta(" ++ (if parts = [] then "0" else ", ".intercalate parts) ++ ")"

def Fault.message : Fault → String
  | .year given => "year " ++ toString given ++ " is out of range"
  | .month => "month must be in 1..12"
  | .day => "day is out of range for month"
  | .hour => "hour must be in 0..23"
  | .minute => "minute must be in 0..59"
  | .second => "second must be in 0..59"
  | .ahead minutes =>
      "offset must be a timedelta strictly between -timedelta(hours=24) and timedelta(hours=24), "
        ++ "not " ++ durationLiteral minutes ++ "."

def isLeap (year : Nat) : Bool := year % 4 = 0 && (year % 100 ≠ 0 || year % 400 = 0)

def daysInMonth (year month : Nat) : Nat :=
  if month = 2 then (if isLeap year then 29 else 28)
  else if month ∈ [4, 6, 9, 11] then 30
  else 31

def dayFault? (m : Moment) : Option Fault :=
  if m.year = 0 then some (.year m.year)
  else if m.month = 0 ∨ 12 < m.month then some .month
  else if m.day = 0 ∨ daysInMonth m.year m.month < m.day then some .day
  else none

def clockFault? (c : Clock) : Option Fault :=
  if 24 ≤ c.hour then some .hour
  else if 60 ≤ c.minute then some .minute
  else if 60 ≤ c.second then some .second
  else none

/-- Why there is no such moment, if there is none. -/
def fault? (m : Moment) : Option Fault :=
  match m.clock with
  | none => m.dayFault?
  | some c =>
      match c.ahead with
      | some minutes =>
          if 1440 ≤ minutes.natAbs then some (.ahead minutes)
          else m.dayFault?.orElse fun _ => clockFault? c
      | none => m.dayFault?.orElse fun _ => clockFault? c

def typeName (m : Moment) : String := if m.clock.isSome then "datetime" else "date"

/-- How far a clock is ahead, as messages show it. -/
def aheadLiteral (minutes : Int) : String :=
  if minutes = 0 then "datetime.timezone.utc"
  else "datetime.timezone(" ++ durationLiteral minutes ++ ")"

/-- The numbers of a time of day without zeros at the end; hours and minutes are always there. -/
def clockNumbers (c : Clock) : List Nat :=
  [c.hour, c.minute]
    ++ (if c.microsecond ≠ 0 then [c.second, c.microsecond]
      else if c.second ≠ 0 then [c.second]
      else [])

/-- A moment as messages show it among other values. -/
def literal (m : Moment) : String :=
  let numbers := [m.year, m.month, m.day] ++ (m.clock.map clockNumbers).getD []
  let ahead :=
    match m.clock.bind (·.ahead) with
    | some minutes => ["tzinfo=" ++ aheadLiteral minutes]
    | none => []
  "datetime." ++ m.typeName ++ "(" ++ ", ".intercalate (numbers.map toString ++ ahead) ++ ")"

/-- A number in at least `width` digits. -/
def padded (width n : Nat) : String :=
  let digits := toString n
  String.ofList (List.replicate (width - digits.length) '0') ++ digits

/-- A time of day with its distance to universal time. -/
def clockText (c : Clock) : String :=
  let fraction := if c.microsecond = 0 then "" else "." ++ padded 6 c.microsecond
  let ahead :=
    match c.ahead with
    | some minutes =>
        (if minutes < 0 then "-" else "+") ++ padded 2 (minutes.natAbs / 60) ++ ":"
          ++ padded 2 (minutes.natAbs % 60)
    | none => ""
  padded 2 c.hour ++ ":" ++ padded 2 c.minute ++ ":" ++ padded 2 c.second ++ fraction ++ ahead

def display (m : Moment) : String :=
  let day := padded 4 m.year ++ "-" ++ padded 2 m.month ++ "-" ++ padded 2 m.day
  match m.clock with
  | some c => day ++ " " ++ clockText c
  | none => day

end Moment

end SlotEvidence
