/-
Module: SlotEvidence.Proofs.Wire.Compound
Purpose: Compound evidence is read back from what is written, where its paths fit and its slots are
  numbers of eight bytes.
Trusted boundary: none
Main exports: Wire.roundTrip_entry, Wire.roundTrip_compoundInclusion,
  Wire.roundTrip_compoundCompleteness
-/
import SlotEvidence.Proofs.Wire.Absence
import SlotEvidence.Proofs.Wire.Anchor

namespace SlotEvidence

namespace Wire

open Schema

/-! ### Entries -/

/-- The written form of an entry. -/
def writeEntry (e : CompoundInclusion.Entry) : Checked Json :=
  (writePath e.path).map fun path => .object [("blob", writeBlob e.blob), ("inclusion", path)]

/-- Entries are written one by one. -/
theorem writeEntries_eq_ok {es : List CompoundInclusion.Entry} {items : List Json} :
    writeEntries es = .ok items ↔
      List.Forall₂ (fun e item => writeEntry e = .ok item) es items := by
  induction es generalizing items with
  | nil => simp [writeEntries, eq_comm]
  | cons e rest ih =>
      simp only [writeEntries, writeEntry, bind_eq_ok, map_eq_ok, ih, List.forall₂_cons_left_iff]
      constructor
      · rintro ⟨path, hpath, others, hothers, h⟩
        cases h
        exact ⟨_, others, ⟨path, hpath, rfl⟩, hothers, rfl⟩
      · rintro ⟨_, others, ⟨path, hpath, rfl⟩, hothers, rfl⟩
        exact ⟨path, hpath, others, hothers, rfl⟩

theorem entryNames_distinct (blob path : Json) :
    (Members.names [("blob", blob), ("inclusion", path)]).Nodup := by
  change ["blob", "inclusion"].Nodup
  decide

/-- The evidence for one blob goes to the wire and back, if its path does. -/
theorem roundTrip_entry : RoundTrip writeEntry readEntry fun e => PathFits e.path where
  legible := by
    intro e json h
    obtain ⟨path, hpath, rfl⟩ := map_eq_ok.1 h
    apply Json.Legible.object (entryNames_distinct _ _)
    simp only [List.forall_mem_cons]
    exact ⟨legible_writeBlob _, roundTrip_path.legible hpath, nofun⟩
  read_written := by
    intro e json h
    obtain ⟨path, hpath, rfl⟩ := map_eq_ok.1 h
    have hdistinct := entryNames_distinct (writeBlob e.blob) path
    have hblob : required (entries _) "blob" readBlob = .ok (.ok e.blob) :=
      required_entries hdistinct (.head _) (readBlob_writeBlob e.blob)
    have hread : required (entries _) "inclusion" readPath = .ok (.ok e.path) :=
      required_entries hdistinct (.tail _ (.head _)) (roundTrip_path.read_written hpath)
    apply read_record
    rw [hblob, hread]
    rfl
  exists_written := by
    intro e h
    obtain ⟨path, hpath, hwritable⟩ := roundTrip_path.exists_written h
    refine ⟨_, map_eq_ok.2 ⟨path, hpath, rfl⟩, ?_⟩
    simp only [Json.writable_object_iff, List.forall_mem_cons]
    exact ⟨writable_writeBlob _, hwritable, nofun⟩
  fits_of_read := by
    intro e value hvalue h
    obtain ⟨entries, rfl, hfields⟩ := exists_fields h
    simp only [map_eq_ok, both_eq_ok, bind_eq_ok] at hfields
    obtain ⟨⟨_, _⟩, ⟨-, hpath⟩, blob, -, path, rfl, he⟩ := hfields
    cases he
    exact roundTrip_path.fits_of_read_field hvalue hpath

/-! ### Compound evidence

Both kinds share the members for the slot, the bank and the history. -/

/-- The members that all compound evidence has, and the one that tells what it is evidence of. -/
def compoundMembers (targetSlot : Nat) (bank : Bank) (slotExhibit : Json) (name : String)
    (what : Json) : Members Json :=
  [("target_slot", .int targetSlot), ("bank_hash_proof", writeBank bank),
   ("slot_hash_proof", slotExhibit), (name, what)]

/-- The parts of compound evidence are read back, if the last of them is. -/
theorem read_compoundMembers {α : Type} {members : Members Json} {targetSlot : Nat} {bank : Bank}
    {e : SlotExhibit} {slotExhibit : Json} {name : String} {what : Json}
    (hmembers : members = compoundMembers targetSlot bank slotExhibit name what)
    (hdistinct : members.names.Nodup) (hslot : targetSlot ≤ maximumCount)
    (hexhibit : writeSlotExhibit e = .ok slotExhibit) {read : Value → Checked α} {a : α}
    (hread : read what.asRead = .ok a) :
    (requiredSlot (entries members) "target_slot").both
      ((required (entries members) "bank_hash_proof" readBank).both
        ((required (entries members) "slot_hash_proof" readSlotExhibit).both
          (required (entries members) name read))) =
      .ok (targetSlot, .ok bank, .ok e, a) := by
  subst hmembers
  rw [requiredSlot, requiredNatural_entries hdistinct (.head _) hslot,
    required_entries hdistinct (.tail _ (.head _)) (readBank_writeBank bank),
    required_entries hdistinct (.tail _ (.tail _ (.head _)))
      (roundTrip_slotExhibit.read_written hexhibit),
    required_entries hdistinct (.tail _ (.tail _ (.tail _ (.head _)))) hread]
  rfl

theorem legible_compoundMembers {targetSlot : Nat} {bank : Bank} {e : SlotExhibit}
    {slotExhibit : Json} {name : String} {what : Json}
    (hdistinct : (compoundMembers targetSlot bank slotExhibit name what).names.Nodup)
    (hexhibit : writeSlotExhibit e = .ok slotExhibit) (hwhat : what.Legible) :
    (Json.object (compoundMembers targetSlot bank slotExhibit name what)).Legible := by
  apply Json.Legible.object hdistinct
  simp only [compoundMembers, List.forall_mem_cons]
  exact ⟨.int _, legible_writeBank bank, roundTrip_slotExhibit.legible hexhibit, hwhat, nofun⟩

theorem writable_compoundMembers {targetSlot : Nat} {bank : Bank} {slotExhibit : Json}
    {name : String} {what : Json} (hslot : targetSlot ≤ maximumCount)
    (hexhibit : slotExhibit.Writable) (hwhat : what.Writable) :
    (Json.object (compoundMembers targetSlot bank slotExhibit name what)).Writable := by
  simp only [compoundMembers, Json.writable_object_iff, List.forall_mem_cons]
  exact ⟨writable_of_le_maximumCount hslot, writable_writeBank bank, hexhibit, hwhat, nofun⟩

/-! ### Evidence about blobs -/

theorem inclusionMembers_distinct (targetSlot : Nat) (bank : Bank) (slotExhibit blobs : Json) :
    (compoundMembers targetSlot bank slotExhibit "blob_proofs" blobs).names.Nodup := by
  change ["target_slot", "bank_hash_proof", "slot_hash_proof", "blob_proofs"].Nodup
  decide

/-- Evidence for blobs is written just when its parts are. -/
theorem writeCompoundInclusion_eq_ok {c : CompoundInclusion} {json : Json} :
    writeCompoundInclusion c = .ok json ↔
      ∃ (n : Nat) (slotExhibit : Json) (items : List Json), c.targetSlot = n ∧ n ≤ maximumCount ∧
        writeSlotExhibit c.slotExhibit = .ok slotExhibit ∧
        List.Forall₂ (fun e item => writeEntry e = .ok item) c.entries items ∧
        json = .object (compoundMembers n c.bank slotExhibit "blob_proofs" (.array items)) := by
  simp only [writeCompoundInclusion, bind_eq_ok, writeEntries_eq_ok, writeSlot_eq_ok]
  constructor
  · rintro ⟨slotExhibit, hexhibit, items, hitems, _, ⟨n, hslot, hn, rfl⟩, h⟩
    cases h
    exact ⟨n, slotExhibit, items, hslot, hn, hexhibit, hitems, rfl⟩
  · rintro ⟨n, slotExhibit, items, hslot, hn, hexhibit, hitems, rfl⟩
    exact ⟨slotExhibit, hexhibit, items, hitems, _, ⟨n, hslot, hn, rfl⟩, rfl⟩

/-- Evidence for blobs goes to the wire and back, if its slots and paths do. -/
theorem roundTrip_compoundInclusion :
    RoundTrip writeCompoundInclusion readCompoundInclusion fun c =>
      SlotFits c.targetSlot ∧ SlotFits c.slotExhibit.slot ∧ ∀ e ∈ c.entries, PathFits e.path where
  legible := by
    intro c json h
    obtain ⟨n, slotExhibit, items, -, -, hexhibit, hitems, rfl⟩ := writeCompoundInclusion_eq_ok.1 h
    exact legible_compoundMembers (inclusionMembers_distinct _ _ _ _) hexhibit
      (roundTrip_entry.legible_list hitems)
  read_written := by
    intro c json h
    obtain ⟨n, slotExhibit, items, hslot, hn, hexhibit, hitems, rfl⟩ :=
      writeCompoundInclusion_eq_ok.1 h
    apply read_record
    rw [read_compoundMembers rfl (inclusionMembers_distinct _ _ _ _) hn hexhibit
      (roundTrip_entry.read_list hitems)]
    refine congrArg Except.ok ?_
    refine bind_eq_ok.2 ⟨_, rfl, bind_eq_ok.2 ⟨_, rfl, ?_⟩⟩
    refine bind_eq_ok.2 ⟨c.entries, made_all_eq_ok.2 rfl, ?_⟩
    rw [← hslot]
    rfl
  exists_written := by
    rintro c ⟨hslot, hexhibit, hentries⟩
    obtain ⟨n, hn, hbound⟩ := exists_of_slotFits hslot
    obtain ⟨slotExhibit, hwritten, hexhibitWritable⟩ :=
      roundTrip_slotExhibit.exists_written hexhibit
    obtain ⟨items, hitems, hitemsWritable⟩ := roundTrip_entry.exists_written_list hentries
    exact ⟨_, writeCompoundInclusion_eq_ok.2
      ⟨n, slotExhibit, items, hn, hbound, hwritten, hitems, rfl⟩,
      writable_compoundMembers hbound hexhibitWritable hitemsWritable⟩
  fits_of_read := by
    intro c value hvalue h
    obtain ⟨entries, rfl, hfields⟩ := exists_fields h
    simp only [map_eq_ok, both_eq_ok, bind_eq_ok] at hfields
    obtain ⟨⟨slot, _, _, made⟩, ⟨hslot, -, hexhibit, hblobs⟩, bank, -, e, rfl, es, hmade, hc⟩ :=
      hfields
    cases hc
    exact ⟨slotFits_of_requiredSlot hslot, roundTrip_slotExhibit.fits_of_read_field hvalue hexhibit,
      roundTrip_entry.fits_of_read_list_field hvalue hblobs hmade⟩

/-! ### Evidence that an account was not touched -/

theorem completenessMembers_distinct (targetSlot : Nat) (bank : Bank)
    (slotExhibit absence : Json) :
    (compoundMembers targetSlot bank slotExhibit "exclusion_proof" absence).names.Nodup := by
  change ["target_slot", "bank_hash_proof", "slot_hash_proof", "exclusion_proof"].Nodup
  decide

/-- What is exhibited is written just when it is evidence of absence. -/
theorem writeExhibit_eq_ok {exhibit : Exhibit} {json : Json} :
    writeExhibit exhibit = .ok json ↔
      ∃ a, exhibit = .absence a ∧ writeAbsence a = .ok json := by
  cases exhibit with
  | absence a =>
      rw [writeExhibit, fitting, mapError_eq_ok]
      simp
  | path p => simp [writeExhibit]

/-- Evidence that an account was not touched is written just when its parts are. -/
theorem writeCompoundCompleteness_eq_ok {c : CompoundCompleteness} {json : Json} :
    writeCompoundCompleteness c = .ok json ↔
      ∃ (n : Nat) (slotExhibit : Json) (a : Absence) (absence : Json),
        c.targetSlot = n ∧ n ≤ maximumCount ∧
        writeSlotExhibit c.slotExhibit = .ok slotExhibit ∧ c.exhibit = .absence a ∧
        writeAbsence a = .ok absence ∧
        json = .object (compoundMembers n c.bank slotExhibit "exclusion_proof" absence) := by
  simp only [writeCompoundCompleteness, bind_eq_ok, fitting, mapError_eq_ok, writeExhibit_eq_ok,
    writeSlot_eq_ok]
  constructor
  · rintro ⟨slotExhibit, hexhibit, absence, ⟨a, ha, habsence⟩, _, ⟨n, hslot, hn, rfl⟩, h⟩
    cases h
    exact ⟨n, slotExhibit, a, absence, hslot, hn, hexhibit, ha, habsence, rfl⟩
  · rintro ⟨n, slotExhibit, a, absence, hslot, hn, hexhibit, ha, habsence, rfl⟩
    exact ⟨slotExhibit, hexhibit, absence, ⟨a, ha, habsence⟩, _, ⟨n, hslot, hn, rfl⟩, rfl⟩

/-- Evidence that an account was not touched goes to the wire and back, if its slots and paths do
and it does exhibit an absence. -/
theorem roundTrip_compoundCompleteness :
    RoundTrip writeCompoundCompleteness readCompoundCompleteness fun c =>
      SlotFits c.targetSlot ∧ SlotFits c.slotExhibit.slot ∧
        ∃ a, c.exhibit = .absence a ∧ ∀ p ∈ a.paths, PathFits p where
  legible := by
    intro c json h
    obtain ⟨n, slotExhibit, a, absence, -, -, hexhibit, -, habsence, rfl⟩ :=
      writeCompoundCompleteness_eq_ok.1 h
    exact legible_compoundMembers (completenessMembers_distinct _ _ _ _) hexhibit
      (roundTrip_absence.legible habsence)
  read_written := by
    intro c json h
    obtain ⟨n, slotExhibit, a, absence, hslot, hn, hexhibit, ha, habsence, rfl⟩ :=
      writeCompoundCompleteness_eq_ok.1 h
    apply read_record
    rw [read_compoundMembers rfl (completenessMembers_distinct _ _ _ _) hn hexhibit
      (roundTrip_absence.read_written habsence)]
    refine congrArg Except.ok ?_
    refine bind_eq_ok.2 ⟨_, rfl, bind_eq_ok.2 ⟨_, rfl, bind_eq_ok.2 ⟨_, rfl, ?_⟩⟩⟩
    rw [← hslot, ← ha]
    rfl
  exists_written := by
    rintro c ⟨hslot, hexhibit, a, ha, hpaths⟩
    obtain ⟨n, hn, hbound⟩ := exists_of_slotFits hslot
    obtain ⟨slotExhibit, hwritten, hexhibitWritable⟩ :=
      roundTrip_slotExhibit.exists_written hexhibit
    obtain ⟨absence, habsence, habsenceWritable⟩ := roundTrip_absence.exists_written hpaths
    exact ⟨_, writeCompoundCompleteness_eq_ok.2
      ⟨n, slotExhibit, a, absence, hn, hbound, hwritten, ha, habsence, rfl⟩,
      writable_compoundMembers hbound hexhibitWritable habsenceWritable⟩
  fits_of_read := by
    intro c value hvalue h
    obtain ⟨entries, rfl, hfields⟩ := exists_fields h
    simp only [map_eq_ok, both_eq_ok, bind_eq_ok] at hfields
    obtain ⟨⟨slot, _, _, _⟩, ⟨hslot, -, hexhibit, habsence⟩, bank, -, e, rfl, a, rfl, hc⟩ :=
      hfields
    cases hc
    exact ⟨slotFits_of_requiredSlot hslot, roundTrip_slotExhibit.fits_of_read_field hvalue hexhibit,
      a, rfl, roundTrip_absence.fits_of_read_field hvalue habsence⟩

end Wire

end SlotEvidence
