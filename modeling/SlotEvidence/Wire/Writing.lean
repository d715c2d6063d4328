/-
Module: SlotEvidence.Wire.Writing
Purpose: Writing the payloads of wire texts.  Parts are written before the whole, and each of them
  must fit the schema that readers hold it against.
Specification: SPEC_FULL 8, models of the payloads (`from_proof`)
Trusted boundary: none
Main exports: Wire.WriteFault, Wire.writePath, Wire.writeAbsence, Wire.writeBlob, Wire.writeBank,
  Wire.writeSlotExhibit, Wire.writeCompoundInclusion, Wire.writeCompoundCompleteness,
  Wire.writePayload
-/
import SlotEvidence.Json
import SlotEvidence.Wire.Reading

namespace SlotEvidence

namespace Wire

open Schema

/-- Why something has no wire text. -/
inductive WriteFault where
  /-- A part does not fit its schema. -/
  | unfit (defects : List Defect)
  /-- The path of a leaf stands where evidence of absence is expected. -/
  | notAbsence
  /-- Values of this type are no evidence. -/
  | notEvidence (typeName : String)
  /-- An integer has no text. -/
  | overlong (refusal : Text.Overlong)
deriving DecidableEq

/-- What has been written. -/
abbrev Written (α : Type) := Except WriteFault α

/-- A part that must fit its schema. -/
def fitting {α : Type} (a : Checked α) : Written α := a.mapError .unfit

def writeHash (field : String) (hash : Bytes) : Checked Json :=
  if hash.length = hashLength then .ok (.text (Hex.encode hash))
  else refuse (.refused (HashTextFault.message ⟨field, Hex.encode hash⟩))

/-- The texts of siblings, the first of which has the number `index`. -/
def writeSiblings (index : Nat) : List Bytes → Checked (List Json)
  | [] => .ok []
  | sibling :: rest => do
      let sibling ← writeHash s!"siblings[{index}]" sibling
      let rest ← writeSiblings (index + 1) rest
      pure (sibling :: rest)

def writeLevel (level : Level) : Checked Json := do
  let siblings ← (writeSiblings 0 level.siblings).within (.name "siblings")
  pure (.object [("siblings", .array siblings), ("index", .int level.index)])

def writeLevels : List Level → Checked (List Json)
  | [] => .ok []
  | level :: rest => do
      let level ← writeLevel level
      let rest ← writeLevels rest
      pure (level :: rest)

def writePath (p : Path) : Checked Json := do
  let levels ← writeLevels p.levels
  let leaf ← (writeHash "leaf" p.leaf).within (.name "leaf")
  pure (.object [("leaf", leaf), ("levels", .array levels)])

/-- Evidence of absence, tagged with its form. -/
def writeAbsence (a : Absence) : Checked Json :=
  let tag := ("kind", Json.text a.kind)
  match a with
  | .empty => .ok (.object [tag])
  | .left path | .right path => do
      let path ← writePath path
      pure (.object [tag, ("path", path)])
  | .inner lower upper => do
      let lower ← writePath lower
      let upper ← writePath upper
      pure (.object [tag, ("left", lower), ("right", upper)])

def writeBlob (c : BlobCommitment) : Json :=
  .object
    [("address", .text c.address.hex), ("digest", .text c.digest.hex),
     ("blob_size", .int c.size.toNat)]

def writeBank (b : Bank) : Json :=
  .object
    [("parent_bank_hash", .text b.parent.hex), ("accounts_delta_hash", .text b.accountsDelta.hex),
     ("signature_count", .int b.signatureCount.toNat), ("blockhash", .text b.blockhash.hex)]

def writeSlot (field : String) (slot : Int) : Checked Json :=
  ((natural (some maximumCount) (.int slot)).within (.name field)).map fun slot => .int slot

def writeSlotEntry (e : SlotEntry) : Json :=
  .object [("slot", .int e.slot.toNat), ("bank_hash", .text e.hash.hex)]

def writeSlotExhibit (e : SlotExhibit) : Checked Json := do
  let slot ← writeSlot "slot" e.slot
  pure (.object [("slot", slot), ("history", .array (e.history.entries.map writeSlotEntry))])

def writeEntries : List CompoundInclusion.Entry → Checked (List Json)
  | [] => .ok []
  | entry :: rest => do
      let path ← writePath entry.path
      let rest ← writeEntries rest
      pure (.object [("blob", writeBlob entry.blob), ("inclusion", path)] :: rest)

def writeCompoundInclusion (c : CompoundInclusion) : Checked Json := do
  let slotExhibit ← writeSlotExhibit c.slotExhibit
  let entries ← writeEntries c.entries
  let targetSlot ← writeSlot "target_slot" c.targetSlot
  pure (.object
    [("target_slot", targetSlot), ("bank_hash_proof", writeBank c.bank),
     ("slot_hash_proof", slotExhibit), ("blob_proofs", .array entries)])

def writeExhibit : Exhibit → Written Json
  | .absence a => fitting (writeAbsence a)
  | .path _ => .error .notAbsence

def writeCompoundCompleteness (c : CompoundCompleteness) : Written Json := do
  let slotExhibit ← fitting (writeSlotExhibit c.slotExhibit)
  let exhibit ← writeExhibit c.exhibit
  let targetSlot ← fitting (writeSlot "target_slot" c.targetSlot)
  pure (.object
    [("target_slot", targetSlot), ("bank_hash_proof", writeBank c.bank),
     ("slot_hash_proof", slotExhibit), ("exclusion_proof", exhibit)])

def writePayload : Evidence → Written Json
  | .inclusion p => fitting (writePath p)
  | .exclusion a => fitting (writeAbsence a)
  | .blob c => .ok (writeBlob c)
  | .bankHash b => .ok (writeBank b)
  | .slotHash e => fitting (writeSlotExhibit e)
  | .compoundInclusion c => fitting (writeCompoundInclusion c)
  | .compoundCompleteness c => writeCompoundCompleteness c

end Wire

end SlotEvidence
