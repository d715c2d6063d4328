/-
Module: SlotEvidence.History
Purpose: Slot histories: the bank hashes of recent slots, the newest first, and their binary
  record.
Specification: SPEC_FULL 7.4, SlotHistorySnapshot (`from_sysvar_bytes`, `to_sysvar_bytes`)
Trusted boundary: none
Main exports: SlotEntry, History, History.ofPairs, History.ofRecord, History.toRecord,
  History.get?, History.Fault
-/
import SlotEvidence.Settings

namespace SlotEvidence

/-- A slot and its bank hash. -/
structure SlotEntry where
  slot : UInt64
  hash : Bytes32
deriving DecidableEq

/-- Entries in strictly descending order of their slots. -/
def SlotEntry.Descending : List SlotEntry → Prop
  | [] => True
  | [_] => True
  | a :: b :: rest => b.slot.toNat < a.slot.toNat ∧ Descending (b :: rest)

/-- The bank hashes of recent slots. -/
structure History where
  entries : List SlotEntry
  descending : SlotEntry.Descending entries
deriving DecidableEq

namespace History

/-- Why entries make no history, or bytes no record. -/
inductive Fault where
  | slotRange (position : Nat) (slot : Int)
  | hashLength (position : Nat) (slot : Nat)
  | notDescending (position : Nat) (previous slot : Nat)
  | recordTooShort
  | recordLength (length expected count : Nat)
deriving DecidableEq

namespace Fault

/-- What is said of a fault.  A slot that is out of range may have no text; the other slots are in
range. -/
def message : Fault → Except Text.Overlong String
  | .slotRange _ slot => return "Slot " ++ (← Text.decimal slot) ++ " does not fit in u64"
  | .hashLength _ slot => return s!"Bank hash for slot {slot} is not 32 bytes"
  | .notDescending _ previous slot =>
      return s!"Slot history must be strictly descending: {previous} then {slot}"
  | .recordTooShort => return "Slot history record is shorter than its length prefix"
  | .recordLength length expected count =>
      return s!"Slot history record is {length} bytes, expected {expected} for {count} entries"

def details : Fault → Members Value
  | .slotRange position _ => [("position", .int position)]
  | .hashLength position slot | .notDescending position _ slot =>
      [("position", .int position), ("slot", .int slot)]
  | .recordTooShort => []
  | .recordLength length _ count => [("count", .int count), ("length", .int length)]

/-- The fault that is raised, or the refusal to write the number of its message. -/
def report (f : Fault) : Except Text.Overlong SlotEvidence.Fault :=
  f.message.map fun message => .structural message f.details

end Fault

/-- The entry of a slot and a hash at a place. -/
def entryOf (position : Nat) (slot : Int) (hash : Bytes) : Except Fault SlotEntry :=
  if slot < 0 ∨ UInt64.size ≤ slot then .error (.slotRange position slot)
  else
    match Bytes32.ofBytes? hash with
    | some hash => .ok ⟨UInt64.ofNat slot.toNat, hash⟩
    | none => .error (.hashLength position slot.toNat)

/-- The entries that come after `previous`, the first of which has the place `position`. -/
def entriesAfter (position : Nat) (previous : SlotEntry) : (pairs : List (Int × Bytes)) →
    Except Fault { entries : List SlotEntry // SlotEntry.Descending (previous :: entries) }
  | [] => .ok ⟨[], trivial⟩
  | (slot, hash) :: rest => do
      let entry ← entryOf position slot hash
      if h : entry.slot.toNat < previous.slot.toNat then do
        let ⟨entries, descending⟩ ← entriesAfter (position + 1) entry rest
        .ok ⟨entry :: entries, h, descending⟩
      else .error (.notDescending position previous.slot.toNat entry.slot.toNat)

/-- The history of pairs of slots and hashes. -/
def ofPairs : (pairs : List (Int × Bytes)) → Except Fault History
  | [] => .ok ⟨[], trivial⟩
  | (slot, hash) :: rest => do
      let entry ← entryOf 0 slot hash
      let ⟨entries, descending⟩ ← entriesAfter 1 entry rest
      .ok ⟨entry :: entries, descending⟩

/-- The record of an entry: the slot in eight bytes, then the hash. -/
def entryRecord (e : SlotEntry) : Bytes := littleEndian 8 e.slot.toNat ++ e.hash.bytes

/-- The number of bytes of an entry's record. -/
def entrySize : Nat := 40

/-- The record of a history, `to_sysvar_bytes` [SPEC_FULL 7.4]: the number of entries in eight
bytes, then the entries. -/
def toRecord (h : History) : Bytes :=
  littleEndian 8 h.entries.length ++ h.entries.flatMap entryRecord

theorem entrySize_pos : 0 < entrySize := by decide

/-- The pairs of slots and hashes in the records of entries. -/
def pairsOfRecord (bytes : Bytes) : List (Int × Bytes) :=
  (slices entrySize entrySize_pos bytes).map fun record =>
    (Int.ofNat (ofLittleEndian (record.take 8)), record.drop 8)

/-- Reads the record of a history, `from_sysvar_bytes` [SPEC_FULL 7.4].  Its length must be the one
that its number of entries calls for. -/
def ofRecord (bytes : Bytes) : Except Fault History :=
  if bytes.length < 8 then .error .recordTooShort
  else
    let count := ofLittleEndian (bytes.take 8)
    let expected := 8 + count * entrySize
    if bytes.length ≠ expected then .error (.recordLength bytes.length expected count)
    else ofPairs (pairsOfRecord (bytes.drop 8))

def newest? (h : History) : Option Nat := h.entries.head?.map (·.slot.toNat)

def oldest? (h : History) : Option Nat := h.entries.getLast?.map (·.slot.toNat)

/-- The hash of a slot among entries.  The search ends at the first smaller slot. -/
def lookup (slot : Int) : List SlotEntry → Option Bytes32
  | [] => none
  | e :: rest =>
      if slot = e.slot.toNat then some e.hash
      else if e.slot.toNat < slot then none
      else lookup slot rest

/-- The bank hash of a slot. -/
def get? (h : History) (slot : Int) : Option Bytes32 := lookup slot h.entries

/-- The hash that entries hold for a slot, in whatever order they are.  Of several entries for the
slot the last one counts. -/
def held (slot : UInt64) (entries : List SlotEntry) : Option Bytes32 :=
  entries.foldl (fun known e => if e.slot = slot then some e.hash else known) none

def size (h : History) : Nat := h.entries.length

end History

end SlotEvidence
