/-
Module: SlotEvidence.Settings
Purpose: The constants that the maker and the verifier of evidence must agree on.
Specification: SPEC_FULL 4, ProofConfig
Trusted boundary: none
Main exports: Settings, Settings.digest, Settings.emptyRoot, Settings.Draft, Settings.ofDraft,
  Settings.Fault
-/
import SlotEvidence.Digest.Algorithm
import SlotEvidence.Fault

namespace SlotEvidence

/-- The agreed constants. -/
structure Settings where
  algorithm : Digest.Algorithm := .sha256
  /-- How many nodes of a tree hang under one parent. -/
  fanout : Nat := 16
  /-- How many bytes of a blob are hashed at a time. -/
  chunkSize : Nat := 915
  /-- How many entries a slot history may have as evidence. -/
  historyWindow : Nat := 512
  /-- Whether a group of fewer than `fanout` nodes is filled up with `emptyChild`. -/
  padPartialGroups : Bool := true
  emptyChild : Bytes32 := .zero
  maxWorkers : Nat := 1
  two_le_fanout : 2 ≤ fanout := by decide
  chunkSize_pos : 0 < chunkSize := by decide
  historyWindow_pos : 0 < historyWindow := by decide
  maxWorkers_pos : 0 < maxWorkers := by decide
deriving DecidableEq

namespace Settings

/-- The settings without further choices. -/
def standard : Settings := {}

/-- The hash of a byte string. -/
def digest (s : Settings) (bytes : Bytes) : Bytes32 := s.algorithm.digest bytes

/-- The hash of several byte strings in a row.  No lengths are hashed. -/
def digestParts (s : Settings) (parts : List Bytes) : Bytes32 := s.digest parts.flatten

/-- The root of a tree without leaves: the hash of the empty byte string. -/
def emptyRoot (s : Settings) : Bytes32 := s.digest []

theorem fanout_pos (s : Settings) : 0 < s.fanout := Nat.lt_of_lt_of_le (by decide) s.two_le_fanout

inductive Field where
  | algorithm
  | fanout
  | chunkSize
  | historyWindow
  | padPartialGroups
  | emptyChild
  | maxWorkers
deriving DecidableEq

namespace Field

def name : Field → String
  | .algorithm => "hash_algorithm"
  | .fanout => "fanout"
  | .chunkSize => "chunk_size"
  | .historyWindow => "history_window"
  | .padPartialGroups => "pad_partial_groups"
  | .emptyChild => "empty_child"
  | .maxWorkers => "max_workers"

def all : List Field :=
  [.algorithm, .fanout, .chunkSize, .historyWindow, .padPartialGroups, .emptyChild, .maxWorkers]

def ofName? (name : String) : Option Field := all.find? (·.name == name)

@[simp] theorem ofName?_name (f : Field) : ofName? f.name = some f := by
  cases f <;> rfl

end Field

/-- A value for each field, of whatever type. -/
structure Draft where
  algorithm : Value := .text "sha256"
  fanout : Value := .int 16
  chunkSize : Value := .int 915
  historyWindow : Value := .int 512
  padPartialGroups : Value := .bool true
  emptyChild : Value := .bytes Bytes32.zero.bytes
  maxWorkers : Value := .int 1

def Draft.set (d : Draft) (field : Field) (value : Value) : Draft :=
  match field with
  | .algorithm => { d with algorithm := value }
  | .fanout => { d with fanout := value }
  | .chunkSize => { d with chunkSize := value }
  | .historyWindow => { d with historyWindow := value }
  | .padPartialGroups => { d with padPartialGroups := value }
  | .emptyChild => { d with emptyChild := value }
  | .maxWorkers => { d with maxWorkers := value }

/-- Why a draft makes no settings, or data no draft. -/
inductive Fault where
  | unknownAlgorithm (given : Value)
  | notAnInteger (field : Field) (given : Value)
  | fanoutTooSmall (given : Int)
  | notPositive (field : Field) (given : Int)
  | paddingNotBoolean
  | emptyChildNotHash
  | unknownFields (names : List Value)
  | unreadableInteger (field : Field) (given : Value)
  | unreadableBoolean (field : Field) (given : Value)
  | unreadableBytes (field : Field) (cause : Hex.Error)
  | notBytes (field : Field) (given : Value)
  | notAMapping (given : Value)
  /-- A text was wanted of a value that shows an integer without one. -/
  | overlong (refusal : Text.Overlong)
  /-- An integer was wanted and an infinity given. -/
  | infinite
  /-- There is no file to read. -/
  | fileMissing
  /-- The file holds no text of the right form. -/
  | unreadableFile
  /-- The file holds a number or a moment that there is not. -/
  | unreadableNumber (reason : String)

namespace Fault

def text : Fault → String
  | .unknownAlgorithm given => "Unsupported hash algorithm " ++ given.literal
  | .notAnInteger field given => field.name ++ " must be an integer, got " ++ given.literal
  | .fanoutTooSmall given => "fanout must be at least 2, got " ++ toString given
  | .notPositive field given => field.name ++ " must be positive, got " ++ toString given
  | .paddingNotBoolean => "pad_partial_groups must be a boolean"
  | .emptyChildNotHash => "empty_child must be 32 bytes"
  | .unknownFields names => "Unknown config keys: " ++ (Value.list names).literal
  | .unreadableInteger field given =>
      "Expected an integer for " ++ field.name ++ ", got " ++ given.literal
  | .unreadableBoolean field given =>
      "Expected a boolean for " ++ field.name ++ ", got " ++ given.literal
  | .unreadableBytes _ cause => cause.message
  | .notBytes field given =>
      "Expected bytes or 0x-hex for " ++ field.name ++ ", got " ++ given.typeName
  | .notAMapping given => "Config file must contain a mapping, got " ++ given.typeName
  | .overlong refusal => refusal.message
  | .infinite => "cannot convert float infinity to integer"
  | .fileMissing => "Config file not found"
  | .unreadableFile => "Config file is not readable"
  | .unreadableNumber reason => reason

/-- The integers that the text of a fault shows. -/
def integers : Fault → List Int
  | .unknownAlgorithm given | .notAnInteger _ given | .unreadableInteger _ given
  | .unreadableBoolean _ given => given.integers
  | .fanoutTooSmall given | .notPositive _ given => [given]
  | .unknownFields names => (Value.list names).integers
  | .overlong refusal => [refusal.number]
  | .paddingNotBoolean | .emptyChildNotHash | .unreadableBytes _ _ | .notBytes _ _
  | .notAMapping _ | .infinite | .fileMissing | .unreadableFile | .unreadableNumber _ => []

/-- The text of a fault, refused where an integer in it has none. -/
def message (f : Fault) : Except Text.Overlong String := Text.written f.integers f.text

/-- The field that a fault is about. -/
def field? : Fault → Option Field
  | .unknownAlgorithm _ => some .algorithm
  | .fanoutTooSmall _ => some .fanout
  | .paddingNotBoolean => some .padPartialGroups
  | .emptyChildNotHash => some .emptyChild
  | .notAnInteger field _ | .notPositive field _ | .unreadableInteger field _
  | .unreadableBoolean field _ | .unreadableBytes field _ | .notBytes field _ => some field
  | .unknownFields _ | .notAMapping _ | .overlong _ | .infinite | .fileMissing | .unreadableFile
  | .unreadableNumber _ => none

def details : Fault → Members Value
  | .unknownAlgorithm _ =>
      [("supported", .list (Digest.Algorithm.all.map fun a => .text a.name))]
  | .unknownFields names => [("unknown", .list names)]
  | _ => []

/-- Faults that come from outside the settings: an infinity, and trouble with a file. -/
def isOutside : Fault → Bool
  | .infinite | .fileMissing | .unreadableFile | .unreadableNumber _ => true
  | _ => false

/-- The fault in the form in which faults of the library are reported, if it comes from the settings
and has a text. -/
def report? (f : Fault) : Option SlotEvidence.Fault :=
  if f.isOutside then none
  else f.message.toOption.map fun message =>
    .configuration message ((f.field?.map Field.name).getD "") f.details

end Fault

/-- The hash function of a name. -/
def draftAlgorithm : Value → Except Fault Digest.Algorithm
  | .text name =>
      match Digest.Algorithm.ofName? name with
      | some algorithm => .ok algorithm
      | none => .error (.unknownAlgorithm (.text name))
  | given => .error (.unknownAlgorithm given)

/-- The integer in a field.  Truth values are none here. -/
def draftInteger (field : Field) : Value → Except Fault Int
  | .int n => .ok n
  | given => .error (.notAnInteger field given)

/-- A number of nodes that may hang under one parent. -/
def branching (n : Int) : Except Fault { n : Nat // 2 ≤ n } :=
  if h : 2 ≤ n.toNat then .ok ⟨n.toNat, h⟩ else .error (.fanoutTooSmall n)

/-- A number that must be positive. -/
def positive (field : Field) (n : Int) : Except Fault { n : Nat // 0 < n } :=
  if h : 0 < n.toNat then .ok ⟨n.toNat, h⟩ else .error (.notPositive field n)

def draftPadding : Value → Except Fault Bool
  | .bool b => .ok b
  | _ => .error .paddingNotBoolean

def draftChild : Value → Except Fault Bytes32
  | .bytes b =>
      match Bytes32.ofBytes? b with
      | some b => .ok b
      | none => .error .emptyChildNotHash
  | _ => .error .emptyChildNotHash

/-- The settings of a draft.  First the hash function is looked up, then the types of all integers
are checked, then their sizes, then the rest. -/
def ofDraft (d : Draft) : Except Fault Settings := do
  let algorithm ← draftAlgorithm d.algorithm
  let fanout ← draftInteger .fanout d.fanout
  let chunkSize ← draftInteger .chunkSize d.chunkSize
  let historyWindow ← draftInteger .historyWindow d.historyWindow
  let maxWorkers ← draftInteger .maxWorkers d.maxWorkers
  let fanout ← branching fanout
  let chunkSize ← positive .chunkSize chunkSize
  let historyWindow ← positive .historyWindow historyWindow
  let maxWorkers ← positive .maxWorkers maxWorkers
  let padPartialGroups ← draftPadding d.padPartialGroups
  let emptyChild ← draftChild d.emptyChild
  .ok { algorithm, fanout := fanout.val, chunkSize := chunkSize.val,
        historyWindow := historyWindow.val, padPartialGroups, emptyChild,
        maxWorkers := maxWorkers.val, two_le_fanout := fanout.property,
        chunkSize_pos := chunkSize.property, historyWindow_pos := historyWindow.property,
        maxWorkers_pos := maxWorkers.property }

/-- The draft with the given fields and standard values elsewhere. -/
def draftOf (fields : List (Field × Value)) : Draft :=
  fields.foldl (fun d (field, value) => d.set field value) {}

/-- The settings with the group layout of the chain: trailing groups are not filled up, unless the
given fields say otherwise. -/
def chainCompatible (fields : List (Field × Value)) : Except Fault Settings :=
  ofDraft (draftOf ((.padPartialGroups, .bool false) :: fields))

def toMembers (s : Settings) : Members Value :=
  [(Field.algorithm.name, .text s.algorithm.name),
   (Field.fanout.name, .int s.fanout),
   (Field.chunkSize.name, .int s.chunkSize),
   (Field.historyWindow.name, .int s.historyWindow),
   (Field.padPartialGroups.name, .bool s.padPartialGroups),
   (Field.emptyChild.name, .text s.emptyChild.hex),
   (Field.maxWorkers.name, .int s.maxWorkers)]

end Settings

end SlotEvidence
