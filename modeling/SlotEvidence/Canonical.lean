/-
Module: SlotEvidence.Canonical
Purpose: The canonical form of dynamic values: the JSON value that stands for a value wherever it
  is stored, compared or hashed.
Specification: SPEC_FULL 8, canonical JSON (`canonicalize_value`, `dumps_canonical`)
Trusted boundary: none
Main exports: Canonical.Fault, Canonical.Trouble, Value.canonical, Value.canonicalText,
  Value.canonicalHash, Value.canonicallyEqual
-/
import SlotEvidence.Digest.Sha256
import SlotEvidence.Fault
import SlotEvidence.Json

namespace SlotEvidence

namespace Canonical

/-- Why a value has no canonical form. -/
inductive Cause where
  /-- Floating-point numbers have none. -/
  | float (x : Binary64)
  /-- Every key of a mapping must be a text. -/
  | keyNotText (key : Value)
  /-- Values of this type have none. -/
  | unsupported (typeName : String)

/-- A value without canonical form inside another one.  The path tells where: names are joined by
points, places in a sequence stand in brackets. -/
structure Fault where
  cause : Cause
  path : String

def Fault.message (f : Fault) : String :=
  match f.cause with
  | .float x => "Floats have no canonical form: " ++ x.text
  | .keyNotText key => "Object keys must be strings, got " ++ key.typeName
  | .unsupported typeName => "Cannot canonicalize value of type " ++ typeName

/-- The path and what is wrong there.  A key is shown in full. -/
def Fault.details (f : Fault) : Except Text.Overlong (Members Value) :=
  match f.cause with
  | .float x => return [("path", .text f.path), ("value", .text x.text)]
  | .keyNotText key => return [("path", .text f.path), ("key", .text (← key.shown))]
  | .unsupported typeName => return [("path", .text f.path), ("type", .text typeName)]

/-- The fault that is raised, or the refusal to show the key in it. -/
def Fault.report (f : Fault) : Except Text.Overlong SlotEvidence.Fault :=
  f.details.map fun details => .canonicalization f.message details

/-- Why a value has no canonical text: it has no canonical form, or an integer in the form has no
text. -/
inductive Trouble where
  | unfit (fault : Fault)
  | overlong (refusal : Text.Overlong)

/-- The fault that is raised, or the refusal to write an integer. -/
def Trouble.report : Trouble → Except Text.Overlong SlotEvidence.Fault
  | .unfit fault => fault.report
  | .overlong refusal => .error refusal

def memberPath (path name : String) : String := if path = "" then name else path ++ "." ++ name

def itemPath (path : String) (index : Nat) : String := path ++ "[" ++ toString index ++ "]"

end Canonical

namespace Value

open Canonical

mutual

/-- The canonical form of the value at a path, `canonicalize_value`.  Byte strings become their
written form, enumeration members stand for their values, and members that are null are left out. -/
def canonical (path : String) : Value → Except Canonical.Fault Json
  | .null => .ok .null
  | .bool b => .ok (.bool b)
  | .int n => .ok (.int n)
  | .text s => .ok (.text s)
  | .bytes b => .ok (.text (Hex.encode b))
  | .buffer b => .ok (.text (Hex.encode b))
  | .float x => .error ⟨.float x, path⟩
  | .member value => value.canonical path
  | .list items => (canonicalItems path 0 items).map .array
  | .tuple items => (canonicalItems path 0 items).map .array
  | .mapping entries => (canonicalEntries path entries).map fun members =>
      .object (Members.ofList members)
  | .record fields => (canonicalFields path fields).map fun members =>
      .object (Members.ofList members)
  | .report _ fields => (canonicalFields path fields).map fun members =>
      .object (Members.ofList members)
  | .moment m => .error ⟨.unsupported m.typeName, path⟩
  | .set items => .error ⟨.unsupported (Value.set items).typeName, path⟩
  | .object => .error ⟨.unsupported Value.object.typeName, path⟩

/-- The canonical forms of the items of a sequence, from the one with the number `index` on. -/
def canonicalItems (path : String) (index : Nat) : List Value → Except Canonical.Fault (List Json)
  | [] => .ok []
  | item :: rest => do
      let item ← item.canonical (itemPath path index)
      let rest ← canonicalItems path (index + 1) rest
      pure (item :: rest)

/-- The canonical members of a mapping.  Its keys are looked at before their values. -/
def canonicalEntries (path : String) :
    List (Value × Value) → Except Canonical.Fault (List (String × Json))
  | [] => .ok []
  | (.text _, .null) :: rest => canonicalEntries path rest
  | (.text name, value) :: rest => do
      let value ← value.canonical (memberPath path name)
      let rest ← canonicalEntries path rest
      pure ((name, value) :: rest)
  | (key, _) :: _ => .error ⟨.keyNotText key, path⟩

def canonicalFields (path : String) :
    List (String × Value) → Except Canonical.Fault (List (String × Json))
  | [] => .ok []
  | (_, .null) :: rest => canonicalFields path rest
  | (name, value) :: rest => do
      let value ← value.canonical (memberPath path name)
      let rest ← canonicalFields path rest
      pure ((name, value) :: rest)

end

/-- The canonical text of a value, `dumps_canonical`: that of its canonical form. -/
def canonicalText (value : Value) : Except Canonical.Trouble String := do
  let json ← (value.canonical "").mapError .unfit
  json.dump.mapError .overlong

def canonicalBytes (value : Value) : Except Canonical.Trouble Bytes :=
  value.canonicalText.map fun text => text.toUTF8.toList

/-- The hash of a value: the SHA-256 hash of its canonical text. -/
def canonicalHash (value : Value) : Except Canonical.Trouble Bytes32 :=
  value.canonicalBytes.map Digest.sha256

/-- The canonical text to compare a value by, or none for a value without a canonical form.  The
refusal to write an integer is passed on. -/
def comparedText (value : Value) : Except Text.Overlong (Option String) :=
  match value.canonicalText with
  | .ok s => .ok (some s)
  | .error trouble => trouble.report.map fun _ => none

/-- Whether two values have the same canonical text.  A value without a canonical form equals none;
the second value is looked at only if the first one has a text. -/
def canonicallyEqual (a b : Value) : Except Text.Overlong Bool := do
  match ← a.comparedText with
  | none => pure false
  | some s => pure ((← b.comparedText) == some s)

end Value

end SlotEvidence
