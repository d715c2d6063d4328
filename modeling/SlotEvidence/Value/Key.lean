/-
Module: SlotEvidence.Value.Key
Purpose: Values as the keys of mappings: which of them are the same key, which one comes first, and
  mappings and sets in which no key comes twice.
Trusted boundary: the interpreter's equality and order of keys
Main exports: Value.Place, Value.sameKey, Value.keyBefore, Value.putEntry, Value.mappingOf,
  Value.setOf
-/
import SlotEvidence.Value

namespace SlotEvidence

namespace Value

/-- The place of a number on the number line with its two ends. -/
inductive Place where
  | leftEnd
  | fraction (num : Int) (den : Nat)
  | rightEnd
deriving DecidableEq

namespace Place

/-- The place of an integer. -/
def ofInt (n : Int) : Place := .fraction n 1

/-- The place of a floating-point number; what is not a number has none. -/
def ofFloat? (x : Binary64) : Option Place :=
  if x.isNaN then none
  else if !x.isFinite then some (if x.isNegative then .leftEnd else .rightEnd)
  else
    let num : Int := x.numerator
    some (.fraction (if x.isNegative then -num else num) x.denominator)

/-- Whether a place is to the left of another one. -/
def before : Place → Place → Bool
  | .leftEnd, .leftEnd => false
  | .leftEnd, _ => true
  | .fraction m d, .fraction n e => decide (m * e < n * d)
  | .fraction _ _, .rightEnd => true
  | _, _ => false

end Place

/-- The place of a value that is a number.  Truth values count as one and zero. -/
def place? : Value → Option Place
  | .bool b => some (.ofInt (if b then 1 else 0))
  | .int n => some (.ofInt n)
  | .float x => Place.ofFloat? x
  | _ => none

/-- Two numbers of which neither is the smaller one, whatever their types. -/
def sameNumber (a b : Value) : Bool :=
  match a.place?, b.place? with
  | some p, some q => !p.before q && !q.before p
  | _, _ => false

/-- Whether the first of two numbers is the smaller one. -/
def numberBefore (a b : Value) : Bool :=
  match a.place?, b.place? with
  | some p, some q => p.before q
  | _, _ => false

mutual

/-- Whether two values are the same key: numbers are compared by value and tuples item by item. -/
def sameKey : Value → Value → Bool
  | .null, .null => true
  | .text a, .text b => a == b
  | .bytes a, .bytes b => a == b
  | .moment a, .moment b => a == b
  | .tuple as, .tuple bs => sameKeys as bs
  | a, b => sameNumber a b

/-- Whether two lists have the same keys in the same places. -/
def sameKeys : List Value → List Value → Bool
  | [], [] => true
  | a :: as, b :: bs => a.sameKey b && sameKeys as bs
  | _, _ => false

end

mutual

/-- Whether a key comes before another one in a listing: texts in the order of their code points,
numbers by value, byte strings and tuples by their first difference. -/
def keyBefore : Value → Value → Bool
  | .text a, .text b => decide (a < b)
  | .bytes a, .bytes b => Bytes.before a b
  | .tuple as, .tuple bs => keysBefore as bs
  | a, b => numberBefore a b

/-- Whether the first difference of two lists puts the first one in front. -/
def keysBefore : List Value → List Value → Bool
  | _, [] => false
  | [], _ :: _ => true
  | a :: as, b :: bs => if a.sameKey b then keysBefore as bs else a.keyBefore b

end

/-- Sets the value of a key.  A known key stays as it is, in its place. -/
def putEntry (key value : Value) : List (Value × Value) → List (Value × Value)
  | [] => [(key, value)]
  | (other, old) :: rest =>
      if other.sameKey key then (other, value) :: rest
      else (other, old) :: putEntry key value rest

/-- The mapping of entries in which a key may come more than once; its last value counts. -/
def mappingOf (entries : List (Value × Value)) : Value :=
  .mapping (entries.foldl (fun entries entry => putEntry entry.1 entry.2 entries) [])

/-- The set of items among which there may be equal ones; the first one of them stays. -/
def setOf (items : List Value) : Value :=
  .set (items.foldl
    (fun kept item => if kept.any (·.sameKey item) then kept else kept ++ [item]) [])

end Value

end SlotEvidence
