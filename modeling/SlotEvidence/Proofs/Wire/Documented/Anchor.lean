/-
Module: SlotEvidence.Proofs.Wire.Documented.Anchor
Purpose: Commitments to blobs, parts of bank hashes and slot histories in the documented form are
  alike what is written of what they are read as.
Trusted boundary: none
Main exports: Wire.faithful_blob, Wire.faithful_bank, Wire.faithful_slotExhibit
-/
import SlotEvidence.Proofs.Wire.Anchor
import SlotEvidence.Proofs.Wire.Documented.Path

namespace SlotEvidence

namespace Wire

open Schema Json

/-! ### Commitments and bank hashes -/

theorem complete_writeBlob (c : BlobCommitment) : Complete (writeBlob c) := by
  refine .object ⟨by simp [integerFields], by simp [Members.names]⟩ ?_
  simp only [List.forall_mem_cons]
  exact ⟨.text _, .text _, .int _, List.forall_mem_nil _⟩

/-- A complete value that is read as a commitment to a blob is like the one that is written for it.
-/
theorem faithful_blob : Faithful (fun c => (.ok (writeBlob c) : Checked Json)) readBlob where
  complete := by
    intro c json h
    cases h
    exact complete_writeBlob c
  alike := by
    intro c written json hcomplete hread hwrite
    cases hwrite
    obtain ⟨members, rfl, hknown, hfields⟩ := exists_members hread
    obtain ⟨hwritten, -⟩ := hcomplete.members
    simp only [map_eq_ok, both_eq_ok, bind_eq_ok] at hfields
    obtain ⟨⟨_, _, size⟩, ⟨haddress, hdigest, hsize⟩, _, rfl, _, rfl, hmade⟩ := hfields
    obtain ⟨rfl, rfl, rfl⟩ := BlobCommitment.ofParts_eq_ok_iff.1 (mapError_eq_ok.1 hmade)
    have hsize := integerField hwritten (by decide) hsize
    refine alike_object hknown (List.forall_mem_cons.2 ⟨hashField haddress, ?_⟩)
    exact List.forall_mem_cons.2 ⟨hashField hdigest, List.forall_mem_singleton.2 hsize⟩

theorem complete_writeBank (b : Bank) : Complete (writeBank b) := by
  refine .object ⟨by simp [integerFields], by simp [Members.names]⟩ ?_
  simp only [List.forall_mem_cons]
  exact ⟨.text _, .text _, .int _, .text _, List.forall_mem_nil _⟩

/-- A complete value that is read as the parts of a bank is like the one that is written for them.
-/
theorem faithful_bank : Faithful (fun b => (.ok (writeBank b) : Checked Json)) readBank where
  complete := by
    intro b json h
    cases h
    exact complete_writeBank b
  alike := by
    intro b written json hcomplete hread hwrite
    cases hwrite
    obtain ⟨members, rfl, hknown, hfields⟩ := exists_members hread
    obtain ⟨hwritten, -⟩ := hcomplete.members
    simp only [map_eq_ok, both_eq_ok, bind_eq_ok] at hfields
    obtain ⟨⟨_, _, count, _⟩, ⟨hparent, hdelta, hcount, hblockhash⟩, _, rfl, _, rfl, _, rfl,
      hmade⟩ := hfields
    obtain ⟨rfl, rfl, hsame, rfl⟩ := Bank.parts_of_ofParts (mapError_eq_ok.1 hmade)
    obtain rfl := Int.ofNat_inj.1 hsame
    have hcount := integerField hwritten (by decide) hcount
    refine alike_object hknown (List.forall_mem_cons.2 ⟨hashField hparent, ?_⟩)
    refine List.forall_mem_cons.2 ⟨hashField hdelta, List.forall_mem_cons.2 ⟨hcount, ?_⟩⟩
    exact List.forall_mem_singleton.2 (hashField hblockhash)

/-! ### Slots -/

/-- The written form of a slot and a hash. -/
def writePair (pair : Int × Bytes) : Json :=
  .object [("slot", .int pair.1), ("bank_hash", .text (Hex.encode pair.2))]

theorem writePair_pairOf (e : SlotEntry) : writePair (History.pairOf e) = writeSlotEntry e := rfl

/-- A complete value that is read as an entry of a history is like the one that is written for it.
-/
theorem faithful_pair :
    Faithful (fun pair => (.ok (writePair pair) : Checked Json)) readSlotEntry where
  complete := by
    intro pair json h
    cases h
    refine .object ⟨by simp [integerFields], by simp [Members.names]⟩ ?_
    simp only [List.forall_mem_cons]
    exact ⟨.int _, .text _, List.forall_mem_nil _⟩
  alike := by
    intro pair written json hcomplete hread hwrite
    cases hwrite
    obtain ⟨members, rfl, hknown, hfields⟩ := exists_members hread
    obtain ⟨hwritten, -⟩ := hcomplete.members
    simp only [map_eq_ok, both_eq_ok, bind_eq_ok] at hfields
    obtain ⟨⟨slot, _⟩, ⟨hslot, hhash⟩, hash, rfl, hpair⟩ := hfields
    cases hpair
    have hslot := integerField hwritten (by decide) hslot
    refine alike_object hknown (List.forall_mem_cons.2 ⟨hslot, ?_⟩)
    exact List.forall_mem_singleton.2 (hashField hhash)

/-- The entries of a history are written as their pairs. -/
theorem forall₂_writePair (history : History) :
    List.Forall₂ (fun pair item => (.ok (writePair pair) : Checked Json) = .ok item)
      (history.entries.map History.pairOf) (history.entries.map writeSlotEntry) := by
  rw [List.forall₂_map_left_iff, List.forall₂_map_right_iff, List.forall₂_same]
  intro e _
  rw [writePair_pairOf]

/-- A complete value that is read as a history with its slot is like the one that is written for it.
-/
theorem faithful_slotExhibit : Faithful writeSlotExhibit readSlotExhibit where
  complete := by
    intro e json h
    obtain ⟨n, -, -, rfl⟩ := writeSlotExhibit_eq_ok.1 h
    refine .object ⟨by simp [exhibitMembers, integerFields], ?_⟩ ?_
    · simp [exhibitMembers, Members.names]
    · simp only [exhibitMembers, List.forall_mem_cons]
      exact ⟨.int _, faithful_pair.completeList (forall₂_writePair e.history),
        List.forall_mem_nil _⟩
  alike := by
    intro e written json hcomplete hread hwrite
    obtain ⟨n, hn, -, rfl⟩ := writeSlotExhibit_eq_ok.1 hwrite
    obtain ⟨members, rfl, hknown, hfields⟩ := exists_members hread
    obtain ⟨hwritten, hvalues⟩ := hcomplete.members
    simp only [map_eq_ok, both_eq_ok, bind_eq_ok] at hfields
    obtain ⟨⟨slot, made⟩, ⟨hslot, hhistory⟩, pairs, hmade, history, hpairs, he⟩ := hfields
    cases he
    obtain rfl := Int.ofNat_inj.1 hn
    obtain rfl := History.eq_map_pairOf_of_ofPairs (mapError_eq_ok.1 hpairs)
    have hslot := integerField hwritten (by decide) hslot
    refine alike_object hknown (List.forall_mem_cons.2 ⟨hslot, List.forall_mem_singleton.2 ?_⟩)
    exact faithful_pair.listField hvalues hhistory hmade (forall₂_writePair history)

end Wire

end SlotEvidence
