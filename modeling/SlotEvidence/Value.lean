/-
Module: SlotEvidence.Value
Purpose: The dynamic values that proofs, reports and settings are described with, and the texts that
  show them.  A text is made only of a value all of whose integers have one.
Trusted boundary: the forms in which the interpreter shows values
Main exports: Value, ReportKind, Value.typeName, Value.literal, Value.integers, Value.Writable,
  Value.shown, Value.Displayable, Value.displayed, Value.named, Value.isHash
-/
import SlotEvidence.Binary64
import SlotEvidence.Calendar
import SlotEvidence.Members
import SlotEvidence.Text.Decimal
import SlotEvidence.Text.Quoted

namespace SlotEvidence

/-- The three kinds of report that a verification hands out. -/
inductive ReportKind where
  | failure
  | check
  | verdict
deriving DecidableEq

inductive Value where
  | null
  | bool (b : Bool)
  | int (n : Int)
  | float (x : Binary64)
  | text (s : String)
  /-- An immutable byte string. -/
  | bytes (b : Bytes)
  /-- A mutable byte string. -/
  | buffer (b : Bytes)
  | moment (m : Moment)
  | list (items : List Value)
  | tuple (items : List Value)
  | set (items : List Value)
  /-- A mapping from arbitrary keys, in insertion order. -/
  | mapping (entries : List (Value × Value))
  /-- A member of an enumeration, standing for another value. -/
  | member (value : Value)
  /-- A record with named fields. -/
  | record (fields : List (String × Value))
  /-- A report whose fields have been validated. -/
  | report (kind : ReportKind) (fields : List (String × Value))
  /-- A value without structure. -/
  | object

namespace Value

/-- The mapping from texts with these members. -/
def ofMembers (members : Members Value) : Value :=
  .mapping (members.map fun (name, value) => (.text name, value))

def typeName : Value → String
  | .null => "NoneType"
  | .bool _ => "bool"
  | .int _ => "int"
  | .float _ => "float"
  | .text _ => "str"
  | .bytes _ => "bytes"
  | .buffer _ => "bytearray"
  | .moment m => m.typeName
  | .list _ => "list"
  | .tuple _ => "tuple"
  | .set _ => "set"
  | .mapping _ => "dict"
  | .member _ => "Enum"
  | .record _ => "record"
  | .report .failure _ => "ProofError"
  | .report .check _ => "CheckResult"
  | .report .verdict _ => "VerificationResult"
  | .object => "object"

/-- Parts between brackets. -/
def bracket (left right : String) (parts : List String) : String :=
  left ++ ", ".intercalate parts ++ right

/-- A tuple of one has a comma after its item. -/
def tupleText : List String → String
  | [part] => "(" ++ part ++ ",)"
  | parts => bracket "(" ")" parts

/-- A set without items has no brackets of its own. -/
def setText : List String → String
  | [] => "set()"
  | parts => bracket "\x7b" "\x7d" parts

mutual

/-- A value as messages show it: texts are quoted, numbers are in full. -/
def literal : Value → String
  | .null => "None"
  | .bool true => "True"
  | .bool false => "False"
  | .int n => toString n
  | .float x => x.text
  | .text s => Text.quote s
  | .bytes b => Text.quoteBytes b
  | .buffer b => Text.quoteBuffer b
  | .moment m => m.literal
  | .list items => bracket "[" "]" (literals items)
  | .tuple items => tupleText (literals items)
  | .set items => setText (literals items)
  | .mapping entries => bracket "\x7b" "\x7d" (entryLiterals entries)
  | .member value => "<" ++ value.literal ++ ">"
  | .record fields => bracket "record(" ")" (fieldLiterals fields)
  | .report _ fields => bracket "report(" ")" (fieldLiterals fields)
  | .object => "<object>"

def literals : List Value → List String
  | [] => []
  | value :: rest => value.literal :: literals rest

def entryLiterals : List (Value × Value) → List String
  | [] => []
  | (key, value) :: rest => (key.literal ++ ": " ++ value.literal) :: entryLiterals rest

def fieldLiterals : List (String × Value) → List String
  | [] => []
  | (name, value) :: rest => (name ++ "=" ++ value.literal) :: fieldLiterals rest

end

mutual

/-- The integers that a value shows, in the order in which they are written. -/
def integers : Value → List Int
  | .int n => [n]
  | .list items | .tuple items | .set items => itemIntegers items
  | .mapping entries => entryIntegers entries
  | .member value => value.integers
  | .record fields | .report _ fields => fieldIntegers fields
  | .null | .bool _ | .float _ | .text _ | .bytes _ | .buffer _ | .moment _ | .object => []

def itemIntegers : List Value → List Int
  | [] => []
  | value :: rest => value.integers ++ itemIntegers rest

def entryIntegers : List (Value × Value) → List Int
  | [] => []
  | (key, value) :: rest => key.integers ++ value.integers ++ entryIntegers rest

def fieldIntegers : List (String × Value) → List Int
  | [] => []
  | (_, value) :: rest => value.integers ++ fieldIntegers rest

end

/-- Every integer in the value has a text. -/
def Writable (value : Value) : Prop := ∀ n ∈ value.integers, Text.Writable n

instance (value : Value) : Decidable value.Writable :=
  inferInstanceAs (Decidable (∀ n ∈ value.integers, Text.Writable n))

/-- The literal of a value, refused where an integer in it has no text. -/
def shown (value : Value) : Except Text.Overlong String :=
  Text.written value.integers value.literal

/-- A value as a text: a text is itself, a moment is written with signs between its numbers, a
member of an enumeration goes by its name and not by what it stands for, any other value is its
literal. -/
def display : Value → String
  | .text s => s
  | .moment m => m.display
  | .member _ => "<member>"
  | value => value.literal

/-- The integers that a value shows as a text. -/
def displayIntegers : Value → List Int
  | .member _ => []
  | value => value.integers

/-- Every integer that the value shows as a text has a text. -/
def Displayable (value : Value) : Prop := ∀ n ∈ value.displayIntegers, Text.Writable n

instance (value : Value) : Decidable value.Displayable :=
  inferInstanceAs (Decidable (∀ n ∈ value.displayIntegers, Text.Writable n))

/-- A value as a text, refused where an integer in it has no text. -/
def displayed (value : Value) : Except Text.Overlong String :=
  Text.written value.displayIntegers value.display

/-- A text that stands for a value in a report: the one given, or the type of the value where that
text is refused. -/
def named (value : Value) (text : Except Text.Overlong String) : String :=
  match text with
  | .ok text => text
  | .error _ => "<unprintable " ++ value.typeName ++ " object>"

/-- Whether a value is a hash: an immutable string of 32 bytes. -/
def isHash : Value → Bool
  | .bytes b => b.length = hashLength
  | _ => false

end Value

end SlotEvidence
