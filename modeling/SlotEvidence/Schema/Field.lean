/-
Module: SlotEvidence.Schema.Field
Purpose: The schemas that records are put together from.  They are lenient: what plainly stands for
  a value of the wanted type is taken for it.
Trusted boundary: the lenient mode of the validation library
Main exports: Schema.text, Schema.boolean, Schema.natural, Schema.listOf, Schema.mapping,
  Schema.listed, Schema.required, Schema.optional, Schema.closed
-/
import SlotEvidence.Schema.Numeral

namespace SlotEvidence

namespace Schema

/-- The text of UTF-8 bytes.  A surrogate has no UTF-8 form. -/
def decodeText? (bytes : Bytes) : Option String := String.fromUTF8? bytes.toByteArray

/-- A text.  UTF-8 bytes stand for their text, a member of an enumeration for the text of its
value. -/
def text : Value → Checked String
  | .text s => .ok s
  | .bytes b | .buffer b =>
      match decodeText? b with
      | some s => .ok s
      | none => refuse .undecodableText
  | .member value => value.displayed.mapError fun refusal => [⟨.interrupted refusal, []⟩]
  | _ => refuse .notText

/-- A text with at least one character. -/
def nonemptyText (value : Value) : Checked String := do
  let s ← text value
  if s = "" then refuse .emptyText else pure s

/-- The truth value that a text stands for, whatever the case of its letters. -/
def booleanOfText? (s : String) : Option Bool :=
  let word := String.ofList (s.toList.map Char.toLower)
  if word ∈ ["1", "true", "t", "yes", "y", "on"] then some true
  else if word ∈ ["0", "false", "f", "no", "n", "off"] then some false
  else none

/-- Whether an integer has at most 64 bits, its sign among them. -/
def fitsWord (n : Int) : Bool :=
  decide (-0x8000000000000000 ≤ n ∧ n < 0x8000000000000000)

/-- The truth value that one and zero stand for. -/
def booleanOfInteger (n : Int) : Checked Bool :=
  if n = 1 then .ok true else if n = 0 then .ok false else refuse .unreadableBoolean

/-- The integer that a floating-point number is, if it is whole and has at most 63 bits. -/
def wholeNumber (x : Binary64) : Checked Int :=
  match x.truncate? with
  | none => refuse .notFinite
  | some n =>
      if !x.isWhole then refuse .fractionalInteger
      else if n.natAbs < 0x8000000000000000 then .ok n
      else refuse .oversizedInteger

/-- A truth value.  One and zero stand for true and false, so do some words.  An integer
of more than 64 bits counts as something else than a truth value, not as an unreadable one. -/
def boolean : Value → Checked Bool
  | .bool b => .ok b
  | .int n => if fitsWord n then booleanOfInteger n else refuse .notBoolean
  | .float x =>
      match wholeNumber x with
      | .ok n => booleanOfInteger n
      | .error _ => refuse .notBoolean
  | .text s =>
      match booleanOfText? s with
      | some b => .ok b
      | none => refuse .unreadableBoolean
  | .bytes b =>
      match (decodeText? b).bind booleanOfText? with
      | some b => .ok b
      | none => refuse .unreadableBoolean
  | _ => refuse .notBoolean

/-- An integer of any size.  Truth values stand for one and zero, whole floating-point numbers of at
most 63 bits for their values, texts for what they write. -/
def anyInteger : Value → Checked Int
  | .int n => .ok n
  | .bool b => .ok (if b then 1 else 0)
  | .float x => wholeNumber x
  | .text s => integerOfText s
  | .bytes b =>
      match decodeText? b with
      | some s => integerOfText s
      | none => refuse .unreadableInteger
  | _ => refuse .notInteger

/-- A natural number, at most the maximum if there is one. -/
def natural (maximum? : Option Nat) (value : Value) : Checked Nat := do
  let n ← anyInteger value
  if n < 0 then refuse (.belowMinimum 0)
  else
    match maximum? with
    | some maximum => if maximum < n.toNat then refuse (.aboveMaximum maximum) else pure n.toNat
    | none => pure n.toNat

/-- A list.  Tuples and sets stand for the lists of their items. -/
def list : Value → Checked (List Value)
  | .list items | .tuple items | .set items => .ok items
  | _ => refuse .notList

def listOf {α : Type} (item : Value → Checked α) (value : Value) : Checked (List α) := do
  let items ← list value
  Checked.all 0 (items.map item)

/-- The step to a key of a mapping.  Integers of at most 64 bits and truth values are numbers, other
keys are named by their texts or literals. -/
def keyStep : Value → Step
  | .text s => .name s
  | .int n => if fitsWord n then .index n else .name ((Value.int n).named (Text.decimal n))
  | .bool b => .index (if b then 1 else 0)
  | key => .name (key.named key.shown)

/-- The members of a mapping whose keys are texts. -/
def textKeys : List (Value × Value) → Checked (List (String × Value))
  | [] => .ok []
  | (key, value) :: rest =>
      let name := ((text key).within (.name "[key]")).within (keyStep key)
      (name.both (textKeys rest)).map fun (name, rest) => (name, value) :: rest

/-- A mapping from texts to anything. -/
def mapping : Value → Checked (Members Value)
  | .mapping entries => (textKeys entries).map Members.ofList
  | _ => refuse .notMapping

def listed {α : Type} (all : List α) (name : α → String) (value : Value) : Checked α :=
  let found :=
    match value with
    | .text s => all.find? (name · == s)
    | _ => none
  match found with
  | some a => .ok a
  | none => refuse (.notListed (all.map name))

/-- Null, or what fits a schema. -/
def nullable {α : Type} (read : Value → Checked α) : Value → Checked (Option α)
  | .null => .ok none
  | value => (read value).map some

/-- The value of a name among the entries of a mapping. -/
def member? (name : String) : List (Value × Value) → Option Value
  | [] => none
  | (.text other, value) :: rest => if other = name then some value else member? name rest
  | _ :: rest => member? name rest

/-- A field that must be there. -/
def required {α : Type} (entries : List (Value × Value)) (name : String)
    (read : Value → Checked α) : Checked α :=
  match member? name entries with
  | some value => (read value).within (.name name)
  | none => (refuse .missing).within (.name name)

/-- A field that may be missing. -/
def optional {α : Type} (entries : List (Value × Value)) (name : String) (absent : α)
    (read : Value → Checked α) : Checked α :=
  match member? name entries with
  | some value => (read value).within (.name name)
  | none => .ok absent

/-- The defects of a key that is not among the known names. -/
def keyDefects (known : List String) (key : Value) : List Defect :=
  match key with
  | .text s => if s ∈ known then [] else [⟨.unexpected, [.name s]⟩]
  | key => [⟨.keyNotText, [keyStep key]⟩]

/-- A record that has been read from the entries of a mapping, which may have no keys but the known
names.  Strange keys come after the defects of the fields. -/
def closed {α : Type} (known : List String) (entries : List (Value × Value)) (a : Checked α) :
    Checked α :=
  let strange := entries.flatMap fun (key, _) => keyDefects known key
  (a.both (if strange = [] then .ok () else .error strange)).map (·.1)

end Schema

end SlotEvidence
