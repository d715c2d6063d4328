/-
Module: SlotEvidence.Evidence
Purpose: All kinds of evidence under one type.
Specification: SPEC_FULL 8, the kinds of an envelope
Trusted boundary: none
Main exports: Evidence, EvidenceKind, Evidence.kind, Evidence.toValue
-/
import SlotEvidence.Compound.Completeness
import SlotEvidence.Compound.Inclusion

namespace SlotEvidence

inductive EvidenceKind where
  | inclusion
  | exclusion
  | blob
  | bankHash
  | slotHash
  | compoundInclusion
  | compoundCompleteness
deriving DecidableEq

namespace EvidenceKind

def name : EvidenceKind → String
  | .inclusion => "inclusion"
  | .exclusion => "exclusion"
  | .blob => "blob"
  | .bankHash => "bank_hash"
  | .slotHash => "slot_hash"
  | .compoundInclusion => CompoundInclusion.kind
  | .compoundCompleteness => CompoundCompleteness.kind

/-- All kinds in the order in which they are listed. -/
def all : List EvidenceKind :=
  [.inclusion, .exclusion, .blob, .bankHash, .slotHash, .compoundInclusion, .compoundCompleteness]

end EvidenceKind

inductive Evidence where
  /-- A hash is a leaf of a tree. -/
  | inclusion (path : Path)
  /-- A hash is no leaf of a tree. -/
  | exclusion (absence : Absence)
  /-- A blob is the one that an account commits to. -/
  | blob (commitment : BlobCommitment)
  /-- The parts of a bank hash. -/
  | bankHash (bank : Bank)
  /-- A history that holds a slot. -/
  | slotHash (exhibit : SlotExhibit)
  | compoundInclusion (compound : CompoundInclusion)
  | compoundCompleteness (compound : CompoundCompleteness)
deriving DecidableEq

def Evidence.kind : Evidence → EvidenceKind
  | .inclusion _ => .inclusion
  | .exclusion _ => .exclusion
  | .blob _ => .blob
  | .bankHash _ => .bankHash
  | .slotHash _ => .slotHash
  | .compoundInclusion _ => .compoundInclusion
  | .compoundCompleteness _ => .compoundCompleteness

/-! ### Evidence as a dynamic value: a record of its parts -/

def Level.toValue (level : Level) : Value :=
  .record [("siblings", .tuple (level.siblings.map Value.bytes)), ("index", .int level.index)]

def Path.toValue (p : Path) : Value :=
  .record [("leaf", .bytes p.leaf), ("levels", .tuple (p.levels.map Level.toValue))]

def Absence.toValue : Absence → Value
  | .empty => .record []
  | .left path | .right path => .record [("path", path.toValue)]
  | .inner lower upper => .record [("left", lower.toValue), ("right", upper.toValue)]

def Exhibit.toValue : Exhibit → Value
  | .absence a => a.toValue
  | .path p => p.toValue

def BlobCommitment.toValue (c : BlobCommitment) : Value :=
  .record
    [("address", .bytes c.address.bytes), ("digest", .bytes c.digest.bytes),
     ("blob_size", .int c.size.toNat)]

def Bank.toValue (b : Bank) : Value :=
  .record
    [("parent_bank_hash", .bytes b.parent.bytes),
     ("accounts_delta_hash", .bytes b.accountsDelta.bytes),
     ("signature_count", .int b.signatureCount.toNat), ("blockhash", .bytes b.blockhash.bytes)]

def SlotEntry.toValue (e : SlotEntry) : Value := .tuple [.int e.slot.toNat, .bytes e.hash.bytes]

def History.toValue (h : History) : Value :=
  .record [("entries", .tuple (h.entries.map SlotEntry.toValue))]

def SlotExhibit.toValue (e : SlotExhibit) : Value :=
  .record [("slot", .int e.slot), ("history", e.history.toValue)]

def CompoundInclusion.Entry.toValue (e : CompoundInclusion.Entry) : Value :=
  .tuple [e.blob.toValue, e.path.toValue]

def CompoundInclusion.toValue (c : CompoundInclusion) : Value :=
  .record
    [("target_slot", .int c.targetSlot), ("bank_hash_proof", c.bank.toValue),
     ("slot_hash_proof", c.slotExhibit.toValue),
     ("blob_proofs", .tuple (c.entries.map CompoundInclusion.Entry.toValue))]

def CompoundCompleteness.toValue (c : CompoundCompleteness) : Value :=
  .record
    [("target_slot", .int c.targetSlot), ("bank_hash_proof", c.bank.toValue),
     ("slot_hash_proof", c.slotExhibit.toValue), ("exclusion_proof", c.exhibit.toValue)]

def Evidence.toValue : Evidence → Value
  | .inclusion p => p.toValue
  | .exclusion a => a.toValue
  | .blob c => c.toValue
  | .bankHash b => b.toValue
  | .slotHash e => e.toValue
  | .compoundInclusion c => c.toValue
  | .compoundCompleteness c => c.toValue

end SlotEvidence
