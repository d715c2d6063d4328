/-
Module: SlotEvidence.Wire.Reading
Purpose: Reading the payloads of wire texts.  Data are first held against their schema, which finds
  all defects at once; what fits is then made into evidence, which ends at the first misfit.
Specification: SPEC_FULL 8, models of the payloads (`to_proof`)
Trusted boundary: the lenient mode of the validation library
Main exports: Wire.Made, Wire.Misfit, Wire.readPath, Wire.readAbsence, Wire.readBlob, Wire.readBank,
  Wire.readSlotExhibit, Wire.readCompoundInclusion, Wire.readCompoundCompleteness, Wire.readPayload
-/
import SlotEvidence.Evidence
import SlotEvidence.Schema.Field
import SlotEvidence.Wire.HashText

namespace SlotEvidence

namespace Wire

open Schema

/-- Why data that fit their schema make no evidence. -/
inductive Misfit where
  | hash (error : Hex.Error)
  | blob (misfit : BlobCommitment.Misfit)
  | bank (misfit : Bank.Misfit)
  | history (fault : History.Fault)
deriving DecidableEq

def Misfit.message : Misfit → String
  | .hash error => error.message
  | .blob misfit => misfit.message
  | .bank misfit => misfit.message
  | .history fault => Text.told fault.message

/-- What data that fit their schema make. -/
abbrev Made (α : Type) := Except Misfit α

/-- All the things made, or the first misfit. -/
def Made.all {α : Type} : List (Made α) → Made (List α)
  | [] => .ok []
  | made :: rest => do
      let a ← made
      let rest ← all rest
      pure (a :: rest)

/-- The entries of a mapping where a record of the given name is expected. -/
def recordEntries (name : String) : Value → Checked (List (Value × Value))
  | .mapping entries => .ok entries
  | _ => refuse (.notRecord name)

/-- The hash that a text of a field stands for. -/
def hashOfText (field s : String) : Checked (Made Bytes) :=
  match checkHashText field s with
  | .ok s => .ok ((Hex.decode s).mapError .hash)
  | .error fault => refuse (.refused fault.message)

def readHash (field : String) (value : Value) : Checked (Made Bytes) := do
  let s ← text value
  hashOfText field s

/-- Reads a field that must hold a hash. -/
def requiredHash (entries : List (Value × Value)) (field : String) : Checked (Made Bytes) :=
  required entries field (readHash field)

/-- The hashes that texts stand for, the first of which has the number `index`.  Only the first
text that is no hash is reported. -/
def hashesOfTexts (index : Nat) : List String → Checked (List (Made Bytes))
  | [] => .ok []
  | s :: rest => do
      let hash ← hashOfText s!"siblings[{index}]" s
      let rest ← hashesOfTexts (index + 1) rest
      pure (hash :: rest)

def readSiblings (value : Value) : Checked (Made (List Bytes)) := do
  let texts ← listOf text value
  (hashesOfTexts 0 texts).map Made.all

def readLevel (value : Value) : Checked (Made Level) := do
  let entries ← recordEntries "WireInclusionLevel" value
  closed ["siblings", "index"] entries <|
    ((optional entries "siblings" (.ok []) readSiblings).both
      (required entries "index" (natural none))).map
      fun (siblings, index) => do
        let siblings ← siblings
        pure ⟨siblings, index⟩

def readPath (value : Value) : Checked (Made Path) := do
  let entries ← recordEntries "WireInclusionProof" value
  closed ["leaf", "levels"] entries <|
    ((requiredHash entries "leaf").both (required entries "levels" (listOf readLevel))).map
      fun (leaf, levels) => do
        let leaf ← leaf
        let levels ← Made.all levels
        pure ⟨leaf, levels⟩

/-- The forms of evidence of absence, by which its records are tagged. -/
def absenceKinds : List String := ["empty", "left", "right", "inner"]

def readOneSided (make : Path → Absence) (entries : List (Value × Value)) :
    Checked (Made Absence) :=
  closed ["kind", "path"] entries <|
    (required entries "path" readPath).map fun path => path.map make

def readInner (entries : List (Value × Value)) : Checked (Made Absence) :=
  closed ["kind", "left", "right"] entries <|
    ((required entries "left" readPath).both (required entries "right" readPath)).map
      fun (lower, upper) => do
        let lower ← lower
        let upper ← upper
        pure (.inner lower upper)

/-- Reads evidence of absence whose form has the given name. -/
def readForm? (entries : List (Value × Value)) : String → Option (Checked (Made Absence))
  | "empty" => some (closed ["kind"] entries (.ok (.ok .empty)))
  | "left" => some (readOneSided .left entries)
  | "right" => some (readOneSided .right entries)
  | "inner" => some (readInner entries)
  | _ => none

/-- The text by which a tag is looked up and told. -/
def tagText (tag : Value) : String := tag.named tag.displayed

/-- Reads evidence of absence.  Its tag names its form. -/
def readAbsence : Value → Checked (Made Absence)
  | .mapping entries =>
      match member? "kind" entries with
      | none => refuse (.tagMissing "kind")
      | some tag =>
          match readForm? entries (tagText tag) with
          | some read => read.within (.name (tagText tag))
          | none => refuse (.tagUnknown "kind" (tagText tag) absenceKinds)
  | _ => refuse .notTagged

/-- The greatest number of four bytes. -/
def maximumSize : Nat := UInt32.size - 1

/-- The greatest number of eight bytes. -/
def maximumCount : Nat := UInt64.size - 1

def readBlob (value : Value) : Checked (Made BlobCommitment) := do
  let entries ← recordEntries "WireBlobProof" value
  closed ["address", "digest", "blob_size"] entries <|
    ((requiredHash entries "address").both
      ((requiredHash entries "digest").both
        (required entries "blob_size" (natural (some maximumSize))))).map
      fun (address, digest, size) => do
        let address ← address
        let digest ← digest
        (BlobCommitment.ofParts address digest size).mapError .blob

def readBank (value : Value) : Checked (Made Bank) := do
  let entries ← recordEntries "WireBankHashProof" value
  closed ["parent_bank_hash", "accounts_delta_hash", "signature_count", "blockhash"] entries <|
    ((requiredHash entries "parent_bank_hash").both
      ((requiredHash entries "accounts_delta_hash").both
        ((required entries "signature_count" (natural (some maximumCount))).both
          (requiredHash entries "blockhash")))).map
      fun (parent, accountsDelta, signatureCount, blockhash) => do
        let parent ← parent
        let accountsDelta ← accountsDelta
        let blockhash ← blockhash
        (Bank.ofParts parent accountsDelta signatureCount blockhash).mapError .bank

/-- Reads a slot in a field. -/
def requiredSlot (entries : List (Value × Value)) (field : String) : Checked Nat :=
  required entries field (natural (some maximumCount))

def readSlotEntry (value : Value) : Checked (Made (Int × Bytes)) := do
  let entries ← recordEntries "WireSlotHistoryEntry" value
  closed ["slot", "bank_hash"] entries <|
    ((requiredSlot entries "slot").both (requiredHash entries "bank_hash")).map
      fun (slot, hash) => do
        let hash ← hash
        pure (slot, hash)

def readSlotExhibit (value : Value) : Checked (Made SlotExhibit) := do
  let entries ← recordEntries "WireSlotHashProof" value
  closed ["slot", "history"] entries <|
    ((requiredSlot entries "slot").both (required entries "history" (listOf readSlotEntry))).map
      fun (slot, pairs) => do
        let pairs ← Made.all pairs
        let history ← (History.ofPairs pairs).mapError .history
        pure ⟨slot, history⟩

def readEntry (value : Value) : Checked (Made CompoundInclusion.Entry) := do
  let entries ← recordEntries "WireBlobInclusion" value
  closed ["blob", "inclusion"] entries <|
    ((required entries "blob" readBlob).both (required entries "inclusion" readPath)).map
      fun (blob, path) => do
        let blob ← blob
        let path ← path
        pure ⟨blob, path⟩

def readCompoundInclusion (value : Value) : Checked (Made CompoundInclusion) := do
  let entries ← recordEntries "WireCompoundInclusion" value
  closed ["target_slot", "bank_hash_proof", "slot_hash_proof", "blob_proofs"] entries <|
    ((requiredSlot entries "target_slot").both
      ((required entries "bank_hash_proof" readBank).both
        ((required entries "slot_hash_proof" readSlotExhibit).both
          (required entries "blob_proofs" (listOf readEntry))))).map
      fun (targetSlot, bank, slotExhibit, blobs) => do
        let bank ← bank
        let slotExhibit ← slotExhibit
        let blobs ← Made.all blobs
        pure ⟨targetSlot, bank, slotExhibit, blobs⟩

def readCompoundCompleteness (value : Value) : Checked (Made CompoundCompleteness) := do
  let entries ← recordEntries "WireCompoundCompleteness" value
  closed ["target_slot", "bank_hash_proof", "slot_hash_proof", "exclusion_proof"] entries <|
    ((requiredSlot entries "target_slot").both
      ((required entries "bank_hash_proof" readBank).both
        ((required entries "slot_hash_proof" readSlotExhibit).both
          (required entries "exclusion_proof" readAbsence)))).map
      fun (targetSlot, bank, slotExhibit, absence) => do
        let bank ← bank
        let slotExhibit ← slotExhibit
        let absence ← absence
        pure ⟨targetSlot, bank, slotExhibit, .absence absence⟩

def readPayload (kind : EvidenceKind) (value : Value) : Checked (Made Evidence) :=
  match kind with
  | .inclusion => (readPath value).map fun made => made.map .inclusion
  | .exclusion => (readAbsence value).map fun made => made.map .exclusion
  | .blob => (readBlob value).map fun made => made.map .blob
  | .bankHash => (readBank value).map fun made => made.map .bankHash
  | .slotHash => (readSlotExhibit value).map fun made => made.map .slotHash
  | .compoundInclusion =>
      (readCompoundInclusion value).map fun made => made.map .compoundInclusion
  | .compoundCompleteness =>
      (readCompoundCompleteness value).map fun made => made.map .compoundCompleteness

end Wire

end SlotEvidence
