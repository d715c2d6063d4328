/-
Module: SlotEvidence.Settings.Load
Purpose: Reading settings from mappings and from environment variables.
Specification: SPEC_FULL 4, `from_dict`, `from_env` and `with_env_overrides`
Trusted boundary: the environment is a list of names and texts
Main exports: Settings.ofEntries, Settings.ofMembers, Settings.Environment, Settings.ofEnvironment,
  Settings.withEnvironment
-/
import SlotEvidence.Settings
import SlotEvidence.Text.Integer
import SlotEvidence.Value.Key

namespace SlotEvidence

namespace Settings

/-- Reads the integer of a field.  Numbers lose their fractions, and texts and bytes are read. -/
def readInteger (field : Field) (given : Value) : Except Fault Int :=
  let read (n? : Option Int) : Except Fault Int :=
    match n? with
    | some n => .ok n
    | none => .error (.unreadableInteger field given)
  match given with
  | .int n => .ok n
  | .float x => if x.isFinite || x.isNaN then read x.truncate? else .error .infinite
  | .text s => read (Text.readInteger? Text.isWhiteSpace Text.decimalValue? s.toList)
  | .bytes b | .buffer b =>
      read (Text.readInteger? Text.isAsciiBlank Text.asciiValue?
        (b.map fun byte => Char.ofNat byte.toNat))
  | _ => read none

/-- The words for true and false. -/
def booleanOfWord? (word : String) : Option Bool :=
  if word ∈ ["true", "1", "yes", "on"] then some true
  else if word ∈ ["false", "0", "no", "off"] then some false
  else none

/-- The text of a value that is wanted as one. -/
def readText (given : Value) : Except Fault String := given.displayed.mapError .overlong

/-- Reads the truth value of a field from its text, whatever the case of its letters. -/
def readBoolean (field : Field) (given : Value) : Except Fault Bool :=
  match given with
  | .bool b => .ok b
  | _ => do
      let text ← readText given
      let word := (Text.trim Text.isSeparator text.toList).map Char.toLower
      match booleanOfWord? (String.ofList word) with
      | some b => .ok b
      | none => .error (.unreadableBoolean field given)

/-- Reads the byte string of a field from its written form or takes it as it is. -/
def readBytes (field : Field) : Value → Except Fault Bytes
  | .text s => (Hex.decode s).mapError (.unreadableBytes field ·)
  | .bytes b | .buffer b => .ok b
  | given => .error (.notBytes field given)

/-- The value of a field after reading. -/
def readField (field : Field) (given : Value) : Except Fault Value :=
  match field with
  | .algorithm => (readText given).map .text
  | .padPartialGroups => (readBoolean field given).map .bool
  | .emptyChild => (readBytes field given).map .bytes
  | .fanout | .chunkSize | .historyWindow | .maxWorkers => (readInteger field given).map .int

/-- The fields of a mapping, if all its keys are names of fields. -/
def knownFields (entries : List (Value × Value)) : Except Fault (List (Field × Value)) :=
  let field? : Value → Option Field
    | .text name => Field.ofName? name
    | _ => none
  let unknown := entries.filterMap fun (key, _) => if (field? key).isNone then some key else none
  if unknown.isEmpty then
    .ok (entries.filterMap fun (key, value) => (field? key).map (·, value))
  else .error (.unknownFields (unknown.mergeSort fun a b => !b.keyBefore a))

/-- Reads fields in order, until one cannot be read. -/
def readFields : List (Field × Value) → Except Fault (List (Field × Value))
  | [] => .ok []
  | (field, given) :: rest => do
      let value ← readField field given
      let rest ← readFields rest
      pure ((field, value) :: rest)

/-- Reads settings from a mapping.  Fields that are not in it have their standard values. -/
def ofEntries (entries : List (Value × Value)) : Except Fault Settings := do
  let fields ← knownFields entries
  let fields ← readFields fields
  ofDraft (draftOf fields)

/-- The settings in a mapping, `from_dict` [SPEC_FULL 4]. -/
def ofMembers (members : Members Value) : Except Fault Settings :=
  ofEntries (members.map fun (name, value) => (.text name, value))

/-- The value of each environment variable that is set. -/
abbrev Environment := List (String × String)

/-- The environment variables and the fields that they set. -/
def variableFields : List (String × Field) :=
  [("ANCHOR_HASH_ALGORITHM", .algorithm), ("ANCHOR_MERKLE_FANOUT", .fanout),
   ("ANCHOR_CHUNK_SIZE", .chunkSize), ("ANCHOR_HISTORY_WINDOW", .historyWindow),
   ("ANCHOR_PAD_PARTIAL_GROUPS", .padPartialGroups), ("ANCHOR_MAX_WORKERS", .maxWorkers)]

/-- The members that the environment sets.  An empty variable counts as not set. -/
def overrides (environment : Environment) : Members Value :=
  variableFields.filterMap fun (name, field) =>
    match Members.get? environment name with
    | some "" => none
    | some given => some (field.name, .text given)
    | none => none

/-- The settings of the environment alone, `from_env` [SPEC_FULL 4]. -/
def ofEnvironment (environment : Environment) : Except Fault Settings :=
  ofMembers (overrides environment)

/-- The settings with the changes of the environment, `with_env_overrides` [SPEC_FULL 4]. -/
def withEnvironment (s : Settings) (environment : Environment) : Except Fault Settings :=
  match overrides environment with
  | [] => .ok s
  | changes => ofMembers (s.toMembers.putAll changes)

end Settings

end SlotEvidence
