/-
Module: SlotEvidence.Proofs.Wire.Anchor
Purpose: Commitments to blobs, parts of bank hashes and slot histories are read back from what is
  written.  Their types leave nothing else to fit but the slot that a history is offered for, and
  their numbers are never too long to be written.
Trusted boundary: none
Main exports: Wire.readBlob_writeBlob, Wire.readBank_writeBank, Wire.SlotFits,
  Wire.writable_of_le_maximumCount, Wire.roundTrip_slotExhibit
-/
import SlotEvidence.Proofs.Bank
import SlotEvidence.Proofs.Blob
import SlotEvidence.Proofs.History
import SlotEvidence.Proofs.Wire.HashText
import SlotEvidence.Proofs.Wire.Path
import SlotEvidence.Proofs.Wire.Record

namespace SlotEvidence

namespace Wire

open Schema

/-- The text of a hash in a field of a written record is read as the hash. -/
theorem requiredHash_entries {members : Members Json} (hdistinct : members.names.Nodup)
    {field : String} {hash : Bytes32} (h : (field, .text hash.hex) ∈ members) :
    requiredHash (entries members) field = .ok (.ok hash.bytes) :=
  required_entries hdistinct h (hashOfText_encode field hash.length_bytes)

/-- A number in a field of a written record is read as it is, if it is within its bound. -/
theorem requiredNatural_entries {members : Members Json} (hdistinct : members.names.Nodup)
    {field : String} {n maximum : Nat} (h : (field, .int n) ∈ members) (hbound : n ≤ maximum) :
    required (entries members) field (natural (some maximum)) = .ok n := by
  apply required_entries hdistinct h
  apply natural_int
  intro m hm
  cases hm
  exact hbound

/-- A number of eight bytes can be written. -/
theorem writable_of_le_maximumCount {n : Nat} (h : n ≤ maximumCount) : (Json.int n).Writable :=
  Json.writable_int_iff.2 (Text.writable_of_lt_size (Nat.lt_succ_of_le h))

/-! ### Commitments and bank hashes -/

theorem blobNames_distinct (address digest size : Json) :
    (Members.names [("address", address), ("digest", digest), ("blob_size", size)]).Nodup := by
  change ["address", "digest", "blob_size"].Nodup
  decide

theorem legible_writeBlob (c : BlobCommitment) : (writeBlob c).Legible := by
  apply Json.Legible.object (blobNames_distinct _ _ _)
  simp only [List.forall_mem_cons]
  exact ⟨.text _, .text _, .int _, nofun⟩

theorem writable_writeBlob (c : BlobCommitment) : (writeBlob c).Writable := by
  have hsize : c.size.toNat ≤ maximumCount :=
    Nat.le_trans (Nat.le_pred_of_lt c.size.toNat_lt) (by decide)
  simp only [writeBlob, Json.writable_object_iff, List.forall_mem_cons]
  exact ⟨Json.writable_text _, Json.writable_text _, writable_of_le_maximumCount hsize, nofun⟩

/-- A commitment to a blob is read back, whatever it holds. -/
theorem readBlob_writeBlob (c : BlobCommitment) :
    readBlob (writeBlob c).asRead = .ok (.ok c) := by
  have hdistinct := blobNames_distinct (.text c.address.hex) (.text c.digest.hex)
    (.int c.size.toNat)
  have hsize : c.size.toNat ≤ maximumSize := Nat.le_pred_of_lt c.size.toNat_lt
  apply read_record
  rw [requiredHash_entries hdistinct (.head _),
    requiredHash_entries hdistinct (.tail _ (.head _)),
    requiredNatural_entries hdistinct (.tail _ (.tail _ (.head _))) hsize]
  refine congrArg Except.ok ?_
  exact mapError_eq_ok.2 (BlobCommitment.ofParts_eq_ok_iff.2 ⟨rfl, rfl, rfl⟩)

theorem bankNames_distinct (parent accountsDelta signatureCount blockhash : Json) :
    (Members.names [("parent_bank_hash", parent), ("accounts_delta_hash", accountsDelta),
      ("signature_count", signatureCount), ("blockhash", blockhash)]).Nodup := by
  change ["parent_bank_hash", "accounts_delta_hash", "signature_count", "blockhash"].Nodup
  decide

theorem legible_writeBank (b : Bank) : (writeBank b).Legible := by
  apply Json.Legible.object (bankNames_distinct _ _ _ _)
  simp only [List.forall_mem_cons]
  exact ⟨.text _, .text _, .int _, .text _, nofun⟩

theorem writable_writeBank (b : Bank) : (writeBank b).Writable := by
  have hcount : b.signatureCount.toNat ≤ maximumCount := Nat.le_pred_of_lt b.signatureCount.toNat_lt
  simp only [writeBank, Json.writable_object_iff, List.forall_mem_cons]
  exact ⟨Json.writable_text _, Json.writable_text _, writable_of_le_maximumCount hcount,
    Json.writable_text _, nofun⟩

/-- The parts of a bank are read back, whatever they are. -/
theorem readBank_writeBank (b : Bank) : readBank (writeBank b).asRead = .ok (.ok b) := by
  have hdistinct := bankNames_distinct (.text b.parent.hex) (.text b.accountsDelta.hex)
    (.int b.signatureCount.toNat) (.text b.blockhash.hex)
  have hcount : b.signatureCount.toNat ≤ maximumCount := Nat.le_pred_of_lt b.signatureCount.toNat_lt
  apply read_record
  rw [requiredHash_entries hdistinct (.head _),
    requiredHash_entries hdistinct (.tail _ (.head _)),
    requiredNatural_entries hdistinct (.tail _ (.tail _ (.head _))) hcount,
    requiredHash_entries hdistinct (.tail _ (.tail _ (.tail _ (.head _))))]
  refine congrArg Except.ok ?_
  exact mapError_eq_ok.2 b.ofParts_bytes

/-! ### Slots

The two slots of the evidence are not bounded by its type.  A slot is written only if it fits in
eight bytes, while slots in a history always do. -/

/-- A slot is a number of eight bytes. -/
def SlotFits (slot : Int) : Prop := 0 ≤ slot ∧ slot < UInt64.size

theorem slotFits_of_le {slot : Nat} (h : slot ≤ maximumCount) : SlotFits slot :=
  ⟨Int.natCast_nonneg _, Int.ofNat_lt.2 (Nat.lt_succ_of_le h)⟩

/-- A slot that fits is a natural number of eight bytes. -/
theorem exists_of_slotFits {slot : Int} (h : SlotFits slot) :
    ∃ n : Nat, slot = n ∧ n ≤ maximumCount := by
  obtain ⟨n, rfl⟩ := Int.eq_ofNat_of_zero_le h.1
  exact ⟨n, rfl, Nat.le_pred_of_lt (Int.ofNat_lt.1 h.2)⟩

/-- A slot that is read fits. -/
theorem slotFits_of_requiredSlot {entries : List (Value × Value)} {field : String} {slot : Nat}
    (h : requiredSlot entries field = .ok slot) : SlotFits slot := by
  obtain ⟨_, -, hread⟩ := required_eq_ok.1 h
  exact slotFits_of_le (le_of_natural hread)

/-- A slot is written just when it fits in eight bytes. -/
theorem writeSlot_eq_ok {field : String} {slot : Int} {json : Json} :
    writeSlot field slot = .ok json ↔
      ∃ n : Nat, slot = n ∧ n ≤ maximumCount ∧ json = .int n := by
  simp only [writeSlot, map_eq_ok, bind_eq_ok, within_eq_ok]
  constructor
  · rintro ⟨_, ⟨n, hn, h⟩, rfl⟩
    cases h
    exact ⟨n, eq_of_natural_int hn, le_of_natural hn, rfl⟩
  · rintro ⟨n, rfl, hn, rfl⟩
    refine ⟨n, ⟨n, natural_int ?_, rfl⟩, rfl⟩
    rintro _ ⟨⟩
    exact hn

theorem slotEntryNames_distinct (slot hash : Json) :
    (Members.names [("slot", slot), ("bank_hash", hash)]).Nodup := by
  change ["slot", "bank_hash"].Nodup
  decide

theorem legible_writeSlotEntry (e : SlotEntry) : (writeSlotEntry e).Legible := by
  apply Json.Legible.object (slotEntryNames_distinct _ _)
  simp only [List.forall_mem_cons]
  exact ⟨.int _, .text _, nofun⟩

theorem writable_writeSlotEntry (e : SlotEntry) : (writeSlotEntry e).Writable := by
  have hslot : e.slot.toNat ≤ maximumCount := Nat.le_pred_of_lt e.slot.toNat_lt
  simp only [writeSlotEntry, Json.writable_object_iff, List.forall_mem_cons]
  exact ⟨writable_of_le_maximumCount hslot, Json.writable_text _, nofun⟩

/-- An entry of a history is read back as the pair that it is made from. -/
theorem readSlotEntry_writeSlotEntry (e : SlotEntry) :
    readSlotEntry (writeSlotEntry e).asRead = .ok (.ok (History.pairOf e)) := by
  have hdistinct := slotEntryNames_distinct (.int e.slot.toNat) (.text e.hash.hex)
  have hslot : e.slot.toNat ≤ maximumCount := Nat.le_pred_of_lt e.slot.toNat_lt
  apply read_record
  rw [requiredSlot, requiredNatural_entries hdistinct (.head _) hslot,
    requiredHash_entries hdistinct (.tail _ (.head _))]
  rfl

theorem exhibitNames_distinct (slot history : Json) :
    (Members.names [("slot", slot), ("history", history)]).Nodup := by
  change ["slot", "history"].Nodup
  decide

/-- The written form of a slot history that is offered for a slot. -/
def exhibitMembers (slot : Nat) (history : History) : Members Json :=
  [("slot", .int slot), ("history", .array (history.entries.map writeSlotEntry))]

/-- A history with its slot is written just when the slot fits in eight bytes. -/
theorem writeSlotExhibit_eq_ok {e : SlotExhibit} {json : Json} :
    writeSlotExhibit e = .ok json ↔
      ∃ n : Nat, e.slot = n ∧ n ≤ maximumCount ∧ json = .object (exhibitMembers n e.history) := by
  simp only [writeSlotExhibit, bind_eq_ok, writeSlot_eq_ok]
  constructor
  · rintro ⟨_, ⟨n, hslot, hn, rfl⟩, h⟩
    cases h
    exact ⟨n, hslot, hn, rfl⟩
  · rintro ⟨n, hslot, hn, rfl⟩
    exact ⟨_, ⟨n, hslot, hn, rfl⟩, rfl⟩

/-- A history with its slot goes to the wire and back: the pairs that are read make the history
again, since their slots descend. -/
theorem roundTrip_slotExhibit :
    RoundTrip writeSlotExhibit readSlotExhibit fun e => SlotFits e.slot where
  legible := by
    intro e json h
    obtain ⟨n, -, -, rfl⟩ := writeSlotExhibit_eq_ok.1 h
    apply Json.Legible.object (exhibitNames_distinct _ _)
    simp only [List.forall_mem_cons]
    refine ⟨.int _, .array ?_, nofun⟩
    intro item hitem
    obtain ⟨entry, -, rfl⟩ := List.mem_map.1 hitem
    exact legible_writeSlotEntry entry
  read_written := by
    intro e json h
    obtain ⟨n, hslot, hn, rfl⟩ := writeSlotExhibit_eq_ok.1 h
    have hdistinct : (exhibitMembers n e.history).names.Nodup := exhibitNames_distinct _ _
    have hhistory : required (entries (exhibitMembers n e.history)) "history"
        (listOf readSlotEntry) = .ok ((e.history.entries.map History.pairOf).map .ok) := by
      apply required_entries hdistinct (.tail _ (.head _))
      refine listOf_eq_ok.2 ⟨_, by rw [asRead_array]; rfl, ?_⟩
      rw [List.map_map, List.map_map, List.map_map, List.map_map]
      exact List.map_congr_left fun entry _ => readSlotEntry_writeSlotEntry entry
    apply read_record
    rw [requiredSlot, requiredNatural_entries hdistinct (.head _) hn, hhistory]
    refine congrArg Except.ok ?_
    refine bind_eq_ok.2 ⟨_, made_all_eq_ok.2 rfl, ?_⟩
    -- The pairs that are read make the history that they were taken from.
    refine bind_eq_ok.2 ⟨e.history, mapError_eq_ok.2 e.history.ofPairs_map_pairOf, ?_⟩
    rw [← hslot]
    rfl
  exists_written := by
    intro e h
    obtain ⟨n, hslot, hn⟩ := exists_of_slotFits h
    refine ⟨_, writeSlotExhibit_eq_ok.2 ⟨n, hslot, hn, rfl⟩, ?_⟩
    simp only [exhibitMembers, Json.writable_object_iff, List.forall_mem_cons]
    refine ⟨writable_of_le_maximumCount hn, Json.writable_array_iff.2 ?_, nofun⟩
    exact List.forall_mem_map.2 fun entry _ => writable_writeSlotEntry entry
  fits_of_read := by
    intro e value _ h
    obtain ⟨entries, -, hfields⟩ := exists_fields h
    simp only [map_eq_ok, both_eq_ok, bind_eq_ok] at hfields
    obtain ⟨⟨slot, _⟩, ⟨hslot, -⟩, _, -, history, -, he⟩ := hfields
    cases he
    exact slotFits_of_requiredSlot hslot

end Wire

end SlotEvidence
