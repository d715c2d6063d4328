/-
Module: SlotEvidence.Json
Purpose: JSON values and their canonical text: members sorted by name, no blanks, ASCII only.  It is
  written only where all integers in it have a text.
Trusted boundary: none
Main exports: Json, Json.render, Json.integers, Json.Writable, Json.dump, Json.toValue
-/
import SlotEvidence.Value

namespace SlotEvidence

/-- A JSON value.  The members of an object are in input order. -/
inductive Json where
  | null
  | bool (b : Bool)
  | int (n : Int)
  | float (x : Binary64)
  | text (s : String)
  | array (items : List Json)
  | object (members : List (String × Json))

namespace Json

mutual

/-- The dynamic value of a JSON value. -/
def toValue : Json → Value
  | .null => .null
  | .bool b => .bool b
  | .int n => .int n
  | .float x => .float x
  | .text s => .text s
  | .array items => .list (itemValues items)
  | .object members => .mapping (memberValues members)

def itemValues : List Json → List Value
  | [] => []
  | item :: rest => item.toValue :: itemValues rest

def memberValues : List (String × Json) → List (Value × Value)
  | [] => []
  | (name, value) :: rest => (.text name, value.toValue) :: memberValues rest

end

/-- The escape of a UTF-16 unit. -/
def escapeUnit (n : Nat) : List Char := '\\' :: 'u' :: Text.hexDigits 4 n

/-- The form of one character in a text: the quote and the backslash are escaped, so are control
characters, with a letter where there is one, and every character outside ASCII is written in UTF-16
units. -/
def escapeChar (c : Char) : List Char :=
  if c = '"' then ['\\', '"']
  else if c = '\\' then ['\\', '\\']
  else if c = '\n' then ['\\', 'n']
  else if c = '\r' then ['\\', 'r']
  else if c = '\t' then ['\\', 't']
  else if c.toNat = 8 then ['\\', 'b']
  else if c.toNat = 12 then ['\\', 'f']
  else if 32 ≤ c.toNat ∧ c.toNat < 127 then [c]
  else if c.toNat < 0x10000 then escapeUnit c.toNat
  else
    escapeUnit (0xd800 + (c.toNat - 0x10000) / 0x400)
      ++ escapeUnit (0xdc00 + (c.toNat - 0x10000) % 0x400)

/-- A text between double quotes. -/
def renderText (s : String) : List Char := '"' :: s.toList.flatMap escapeChar ++ ['"']

/-- Parts with a comma between each two. -/
def commaSeparated : List (List Char) → List Char
  | [] => []
  | [part] => part
  | part :: rest => part ++ ',' :: commaSeparated rest

/-- Members in the order of their names; the order of texts is that of their code points. -/
def sortMembers {α : Type} (members : List (String × α)) : List (String × α) :=
  members.mergeSort fun a b => !decide (b.1 < a.1)

/-- The text of a floating-point number. -/
def renderFloat (x : Binary64) : String :=
  if x.isNaN then "NaN"
  else if x.isFinite then x.text
  else if x.isNegative then "-Infinity" else "Infinity"

mutual

/-- The canonical text of a JSON value. -/
def render : Json → List Char
  | .null => "null".toList
  | .bool true => "true".toList
  | .bool false => "false".toList
  | .int n => (toString n).toList
  | .float x => (renderFloat x).toList
  | .text s => renderText s
  | .array items => '[' :: commaSeparated (renderItems items) ++ [']']
  | .object members =>
      '\x7b' :: commaSeparated
        ((sortMembers (renderMembers members)).map fun (name, value) =>
          renderText name ++ ':' :: value) ++ ['\x7d']

def renderItems : List Json → List (List Char)
  | [] => []
  | item :: rest => item.render :: renderItems rest

/-- Names with the canonical texts of their values. -/
def renderMembers : List (String × Json) → List (String × List Char)
  | [] => []
  | (name, value) :: rest => (name, value.render) :: renderMembers rest

end

mutual

/-- The integers in a value. -/
def integers : Json → List Int
  | .int n => [n]
  | .array items => itemIntegers items
  | .object members => memberIntegers members
  | .null | .bool _ | .float _ | .text _ => []

def itemIntegers : List Json → List Int
  | [] => []
  | item :: rest => item.integers ++ itemIntegers rest

def memberIntegers : List (String × Json) → List Int
  | [] => []
  | (_, value) :: rest => value.integers ++ memberIntegers rest

end

/-- Every integer in the value has a text. -/
def Writable (value : Json) : Prop := ∀ n ∈ value.integers, Text.Writable n

instance (value : Json) : Decidable value.Writable :=
  inferInstanceAs (Decidable (∀ n ∈ value.integers, Text.Writable n))

/-- Writes the canonical text, unless an integer in it has no text. -/
def dump (value : Json) : Except Text.Overlong String :=
  Text.written value.integers (String.ofList value.render)

end Json

end SlotEvidence
