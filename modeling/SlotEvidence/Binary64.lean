/-
Module: SlotEvidence.Binary64
Purpose: Binary floating-point numbers of 64 bits as data: their exact values, the number nearest
  to a decimal, and the fewest decimal digits that read back.
Trusted boundary: the rounding of IEEE 754 and the interpreter's shortest form of a number, written
  out here
Main exports: Binary64, Binary64.ofDecimal, Binary64.truncate?, Binary64.shortest, Binary64.text,
  Binary64.ofText?
-/

namespace SlotEvidence

/-- A floating-point number, given by its 64 bits: a sign, an 11-bit exponent and a 52-bit
fraction. -/
structure Binary64 where
  bits : UInt64
deriving DecidableEq

namespace Binary64

/-- The value of the sign bit. -/
def signBit : Nat := 0x8000000000000000

/-- The number of different fractions. -/
def fractionCount : Nat := 0x10000000000000

/-- Two to the power `n`; one if `n` is negative. -/
def twoTo (n : Int) : Nat := Nat.pow 2 n.toNat

/-- Ten to the power `n`; one if `n` is negative. -/
def tenTo (n : Int) : Nat := Nat.pow 10 n.toNat

def isNegative (x : Binary64) : Bool := signBit ≤ x.bits.toNat

def unsignedBits (x : Binary64) : Nat := x.bits.toNat % signBit

/-- The bits of positive infinity; finite numbers have smaller unsigned bits. -/
def infinityBits : Nat := 0x7ff * fractionCount

/-- A number with a magnitude: neither infinite nor NaN. -/
def isFinite (x : Binary64) : Bool := x.unsignedBits < infinityBits

def isNaN (x : Binary64) : Bool := infinityBits < x.unsignedBits

/-- The number with these unsigned bits and this sign. -/
def ofParts (negative : Bool) (unsignedBits : Nat) : Binary64 :=
  ⟨UInt64.ofNat (if negative then signBit + unsignedBits else unsignedBits)⟩

def nan : Binary64 := ofParts false (infinityBits + fractionCount / 2)

def infinity (negative : Bool) : Binary64 := ofParts negative infinityBits

/-- The integer `m` in the magnitude `m * 2 ^ q` of a finite number. -/
def significand (x : Binary64) : Nat :=
  let fraction := x.unsignedBits % fractionCount
  if x.unsignedBits / fractionCount = 0 then fraction else fractionCount + fraction

/-- The exponent `q` in the magnitude `m * 2 ^ q` of a finite number. -/
def exponent (x : Binary64) : Int :=
  let raised := x.unsignedBits / fractionCount
  if raised = 0 then -1074 else (raised : Int) - 1075

/-- The numerator of the magnitude of a finite number. -/
def numerator (x : Binary64) : Nat := x.significand * twoTo x.exponent

/-- The denominator of the magnitude of a finite number: a power of two. -/
def denominator (x : Binary64) : Nat := twoTo (-x.exponent)

/-- A quotient rounded to the nearest integer; a half goes to the even neighbour. -/
def roundHalfEven (num den : Nat) : Nat :=
  let quotient := num / den
  let twice := 2 * (num % den)
  if twice < den then quotient
  else if den < twice then quotient + 1
  else quotient + quotient % 2

/-- The exponent of the largest power of two that a positive fraction reaches. -/
def floorLog2 (num den : Nat) : Int :=
  let guess : Int := (num.log2 : Int) - den.log2
  if den * twoTo guess ≤ num * twoTo (-guess) then guess else guess - 1

/-- The number nearest to a fraction; a half goes to the even neighbour, and what is too large is
infinite. -/
def ofFraction (negative : Bool) (num den : Nat) : Binary64 :=
  if num = 0 then ofParts negative 0
  else
    let scale := max (floorLog2 num den - 52) (-1074)
    let rounded := roundHalfEven (num * twoTo (-scale)) (den * twoTo scale)
    let unsignedBits := (scale + 1074).toNat * fractionCount + rounded
    ofParts negative (min unsignedBits infinityBits)

/-- The number of decimal digits of a number; zero has one. -/
def digitCount (n : Nat) : Nat := (Nat.toDigits 10 n).length

/-- The number nearest to `digits * 10 ^ power`.  Every decimal of at least `10 ^ 310` is infinite
and every one below `10 ^ (-330)` is zero, so no larger power of ten is ever computed. -/
def ofDecimal (negative : Bool) (digits : Nat) (power : Int) : Binary64 :=
  let magnitude := (digitCount digits : Int) + power
  if digits = 0 ∨ magnitude < -330 then ofParts negative 0
  else if 311 < magnitude then infinity negative
  else ofFraction negative (digits * tenTo power) (tenTo (-power))

/-- The integer part of a finite number, with its sign. -/
def truncate? (x : Binary64) : Option Int :=
  if x.isFinite then
    let whole : Int := (x.numerator / x.denominator : Nat)
    some (if x.isNegative then -whole else whole)
  else none

/-- A finite number without a fractional part. -/
def isWhole (x : Binary64) : Bool :=
  x.isFinite && x.numerator % x.denominator = 0

/-- The sum of two numbers that are not negative. -/
def plus (x y : Binary64) : Binary64 :=
  if !x.isFinite then x
  else if !y.isFinite then y
  else
    ofFraction false (x.numerator * y.denominator + y.numerator * x.denominator)
      (x.denominator * y.denominator)

/-- The product of a number that is not negative and a natural number above zero. -/
def times (x : Binary64) (n : Nat) : Binary64 :=
  let y := ofFraction false n 1
  if !x.isFinite then x
  else if !y.isFinite then y
  else ofFraction false (x.numerator * y.numerator) (x.denominator * y.denominator)

/-- A decimal `digits * 10 ^ power`. -/
structure Decimal where
  digits : Nat
  power : Int
deriving DecidableEq

/-- The same decimal without zeros at the end of its digits; `bound` limits their number. -/
def Decimal.dropZeros (d : Decimal) : (bound : Nat) → Decimal
  | 0 => d
  | bound + 1 =>
      if d.digits % 10 = 0 then (Decimal.mk (d.digits / 10) (d.power + 1)).dropZeros bound else d

/-- The exponent of the largest power of ten that the magnitude of a finite number other than zero
reaches. -/
def floorLog10 (x : Binary64) : Int :=
  let scaled := x.numerator * tenTo 340 / x.denominator
  (digitCount scaled : Int) - 341

/-- The decimal with `count` digits that reads back as the magnitude `x`, if there is one: of the
two neighbours of `x` among these decimals the nearer that reads back, and of two equally near ones
the even one. -/
def decimal? (x : Binary64) (count : Nat) : Option Decimal :=
  let power := x.floorLog10 + 1 - count
  let num := x.numerator * tenTo (-power)
  let den := x.denominator * tenTo power
  let nearest := roundHalfEven num den
  let other := if nearest * den ≤ num then nearest + 1 else nearest - 1
  ([nearest, other].find? fun digits => decide (ofDecimal false digits power = x)).map (⟨·, power⟩)

/-- The magnitude of a finite number other than zero in the fewest digits that read back. -/
def shortest (x : Binary64) : Decimal :=
  let x := ofParts false x.unsignedBits
  match (List.range 17).findSome? fun extra => x.decimal? (extra + 1) with
  | some d => d.dropZeros 17
  | none => ⟨0, 0⟩

/-- A decimal exponent with its sign and at least two digits. -/
def exponentText (e : Int) : String :=
  let digits := toString e.natAbs
  (if e < 0 then "-" else "+") ++ (if digits.length < 2 then "0" ++ digits else digits)

/-- The text of a decimal: positional for exponents from -4 to 15 and with a fraction in any case,
else with one digit before the point and an exponent. -/
def Decimal.text (d : Decimal) : String :=
  let digits := (toString d.digits).toList
  let point : Int := digits.length + d.power
  let zeros (n : Int) : List Char := List.replicate n.toNat '0'
  if -4 < point ∧ point ≤ 16 then
    if point ≤ 0 then String.ofList ('0' :: '.' :: zeros (-point) ++ digits)
    else if d.power < 0 then
      String.ofList (digits.take point.toNat ++ '.' :: digits.drop point.toNat)
    else String.ofList (digits ++ zeros d.power ++ ['.', '0'])
  else
    let fraction := if digits.length = 1 then [] else '.' :: digits.drop 1
    String.ofList (digits.take 1 ++ fraction) ++ "e" ++ exponentText (point - 1)

/-- The text of a number: the fewest digits that read back. -/
def text (x : Binary64) : String :=
  if x.isNaN then "nan"
  else
    let magnitude :=
      if !x.isFinite then "inf" else if x.unsignedBits = 0 then "0.0" else x.shortest.text
    if x.isNegative then "-" ++ magnitude else magnitude

/-- The value of a row of ASCII digits. -/
def natOfDigits (digits : List Char) : Nat :=
  digits.foldl (fun n c => 10 * n + (c.toNat - 48)) 0

/-- The number nearest to a decimal in scientific form, given by the digits before and after the
point and the exponent. -/
def ofScientific (negative : Bool) (whole fraction : List Char) (exponent : Int) : Binary64 :=
  ofDecimal negative (natOfDigits (whole ++ fraction)) (exponent - fraction.length)

/-- The exponent that follows the mark: an optional sign and at least one digit, to the end. -/
def readExponent? (chars : List Char) : Option Int :=
  let (negative, digits) :=
    match chars with
    | '-' :: rest => (true, rest)
    | '+' :: rest => (false, rest)
    | rest => (false, rest)
  if digits.isEmpty || !digits.all Char.isDigit then none
  else some (if negative then -(natOfDigits digits : Int) else natOfDigits digits)

/-- Reads a decimal without a sign: digits, an optional point and fraction, an optional exponent. -/
def readUnsigned? (negative : Bool) (chars : List Char) : Option Binary64 :=
  let whole := chars.takeWhile Char.isDigit
  let rest := chars.dropWhile Char.isDigit
  let (fraction, rest) :=
    match rest with
    | '.' :: rest => (rest.takeWhile Char.isDigit, rest.dropWhile Char.isDigit)
    | rest => ([], rest)
  if whole.isEmpty && fraction.isEmpty then none
  else
    match rest with
    | [] => some (ofScientific negative whole fraction 0)
    | c :: rest =>
        if c = 'e' ∨ c = 'E' then
          (readExponent? rest).map (ofScientific negative whole fraction ·)
        else none

def ofText? (text : String) : Option Binary64 :=
  let (negative, chars) :=
    match text.toList with
    | '-' :: rest => (true, rest)
    | rest => (false, rest)
  if chars = "inf".toList then some (infinity negative)
  else if chars = "nan".toList then some nan
  else readUnsigned? negative chars

end Binary64

end SlotEvidence
