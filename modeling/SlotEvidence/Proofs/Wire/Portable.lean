/-
Module: SlotEvidence.Proofs.Wire.Portable
Purpose: The evidence that has a wire text: its leaves and siblings have the length of a hash, its
  slots are numbers of eight bytes, and the numbers in its paths are not too long to be written.
  Its payload is read back from what is written, and whatever is read as a payload is such
  evidence.
Trusted boundary: none
Main exports: Evidence.hashes, Evidence.slots, Evidence.indices, Evidence.Portable,
  Wire.readBack_writePayload, Wire.exists_writePayload, Wire.portable_of_readPayload
-/
import SlotEvidence.Proofs.Wire.Compound

namespace SlotEvidence

/-! ### What the evidence holds

The parts on which it depends whether evidence can be written: its hashes, its slots and the places
in its paths. -/

/-- The paths in evidence. -/
def Evidence.paths : Evidence → List Path
  | .inclusion p => [p]
  | .exclusion a => a.paths
  | .blob _ | .bankHash _ | .slotHash _ => []
  | .compoundInclusion c => c.entries.map (·.path)
  | .compoundCompleteness c =>
      match c.exhibit with
      | .absence a => a.paths
      | .path p => [p]

/-- The leaves and the siblings of all paths in evidence. -/
def Evidence.hashes (e : Evidence) : List Bytes := e.paths.flatMap Path.hashes

/-- The numbers of the levels of all paths in evidence. -/
def Evidence.indices (e : Evidence) : List Nat := e.paths.flatMap Path.indices

/-- The slots that evidence is for. -/
def Evidence.slots : Evidence → List Int
  | .slotHash e => [e.slot]
  | .compoundInclusion c => [c.targetSlot, c.slotExhibit.slot]
  | .compoundCompleteness c => [c.targetSlot, c.slotExhibit.slot]
  | .inclusion _ | .exclusion _ | .blob _ | .bankHash _ => []

/-- Evidence that an account was not touched holds evidence of absence, and no path in its place. -/
def Evidence.HasAbsence : Evidence → Prop
  | .compoundCompleteness c => ∃ a, c.exhibit = .absence a
  | _ => True

/-- Evidence that has a wire text. -/
structure Evidence.Portable (e : Evidence) : Prop where
  hasAbsence : e.HasAbsence
  /-- Every leaf and every sibling has 32 bytes. -/
  hashes_fit : ∀ hash ∈ e.hashes, hash.length = hashLength
  /-- Every slot is a number of eight bytes. -/
  slots_fit : ∀ slot ∈ e.slots, 0 ≤ slot ∧ slot < UInt64.size
  /-- No number in a path has more digits than are written. -/
  indices_fit : ∀ index ∈ e.indices, Text.Writable index

namespace Wire

open Schema

/-- Evidence is portable just when there is an absence to write, and its paths and slots fit. -/
theorem portable_iff {e : Evidence} :
    e.Portable ↔
      e.HasAbsence ∧ (∀ p ∈ e.paths, PathFits p) ∧ ∀ slot ∈ e.slots, SlotFits slot := by
  constructor
  · rintro ⟨habsence, hhashes, hslots, hindices⟩
    refine ⟨habsence, fun p hp => ⟨?_, ?_⟩, hslots⟩
    · exact Json.forall_mem_flatMap_iff.1 hhashes p hp
    · exact Json.forall_mem_flatMap_iff.1 hindices p hp
  · rintro ⟨habsence, hpaths, hslots⟩
    refine ⟨habsence, ?_, hslots, ?_⟩
    · exact Json.forall_mem_flatMap_iff.2 fun p hp => (hpaths p hp).hashes
    · exact Json.forall_mem_flatMap_iff.2 fun p hp => (hpaths p hp).indices

/-! ### Payloads -/

/-- Evidence that is made of what is read. -/
theorem map_made_eq_ok {α β : Type} {read : Checked (Made α)} {make : α → β} {b : β} :
    (read.map fun made => made.map make) = .ok (.ok b) ↔
      ∃ a, read = .ok (.ok a) ∧ make a = b := by
  rw [map_eq_ok]
  constructor
  · rintro ⟨made, hread, hmade⟩
    obtain ⟨a, rfl, ha⟩ := map_eq_ok.1 hmade
    exact ⟨a, hread, ha⟩
  · rintro ⟨a, hread, rfl⟩
    exact ⟨.ok a, hread, rfl⟩

/-- What is written of evidence is legible, and is read back as evidence of its kind. -/
theorem readBack_writePayload {e : Evidence} {json : Json} (h : writePayload e = .ok json) :
    json.Legible ∧ readPayload e.kind json.asRead = .ok (.ok e) := by
  cases e with
  | inclusion p =>
      have hp := mapError_eq_ok.1 h
      exact ⟨roundTrip_path.legible hp,
        map_made_eq_ok.2 ⟨p, roundTrip_path.read_written hp, rfl⟩⟩
  | exclusion a =>
      have ha := mapError_eq_ok.1 h
      exact ⟨roundTrip_absence.legible ha,
        map_made_eq_ok.2 ⟨a, roundTrip_absence.read_written ha, rfl⟩⟩
  | blob c =>
      cases h
      exact ⟨legible_writeBlob c, map_made_eq_ok.2 ⟨c, readBlob_writeBlob c, rfl⟩⟩
  | bankHash b =>
      cases h
      exact ⟨legible_writeBank b, map_made_eq_ok.2 ⟨b, readBank_writeBank b, rfl⟩⟩
  | slotHash e =>
      have he := mapError_eq_ok.1 h
      exact ⟨roundTrip_slotExhibit.legible he,
        map_made_eq_ok.2 ⟨e, roundTrip_slotExhibit.read_written he, rfl⟩⟩
  | compoundInclusion c =>
      have hc := mapError_eq_ok.1 h
      exact ⟨roundTrip_compoundInclusion.legible hc,
        map_made_eq_ok.2 ⟨c, roundTrip_compoundInclusion.read_written hc, rfl⟩⟩
  | compoundCompleteness c =>
      exact ⟨roundTrip_compoundCompleteness.legible h,
        map_made_eq_ok.2 ⟨c, roundTrip_compoundCompleteness.read_written h, rfl⟩⟩

/-- The payload of portable evidence is written. -/
theorem exists_writePayload {e : Evidence} (h : e.Portable) :
    ∃ json, writePayload e = .ok json ∧ json.Writable := by
  obtain ⟨habsence, hpaths, hslots⟩ := portable_iff.1 h
  cases e with
  | inclusion p =>
      obtain ⟨json, hjson, hwritable⟩ := roundTrip_path.exists_written (hpaths p (.head _))
      exact ⟨json, mapError_eq_ok.2 hjson, hwritable⟩
  | exclusion a =>
      obtain ⟨json, hjson, hwritable⟩ := roundTrip_absence.exists_written hpaths
      exact ⟨json, mapError_eq_ok.2 hjson, hwritable⟩
  | blob c => exact ⟨_, rfl, writable_writeBlob c⟩
  | bankHash b => exact ⟨_, rfl, writable_writeBank b⟩
  | slotHash e =>
      obtain ⟨json, hjson, hwritable⟩ := roundTrip_slotExhibit.exists_written (hslots _ (.head _))
      exact ⟨json, mapError_eq_ok.2 hjson, hwritable⟩
  | compoundInclusion c =>
      have hentries : ∀ e ∈ c.entries, PathFits e.path := fun e he =>
        hpaths e.path (List.mem_map_of_mem he)
      obtain ⟨json, hjson, hwritable⟩ := roundTrip_compoundInclusion.exists_written
        ⟨hslots _ (.head _), hslots _ (.tail _ (.head _)), hentries⟩
      exact ⟨json, mapError_eq_ok.2 hjson, hwritable⟩
  | compoundCompleteness c =>
      obtain ⟨a, ha⟩ := habsence
      simp only [Evidence.paths, ha] at hpaths
      exact roundTrip_compoundCompleteness.exists_written
        ⟨hslots _ (.head _), hslots _ (.tail _ (.head _)), a, ha, hpaths⟩

/-- Whatever is read as a payload has a wire text. -/
theorem portable_of_readPayload {kind : EvidenceKind} {value : Value} {e : Evidence}
    (hvalue : value.Writable) (h : readPayload kind value = .ok (.ok e)) : e.Portable := by
  apply portable_iff.2
  cases kind with
  | inclusion =>
      obtain ⟨p, hp, rfl⟩ := map_made_eq_ok.1 h
      exact ⟨trivial, List.forall_mem_singleton.2 (roundTrip_path.fits_of_read hvalue hp),
        fun _ => nofun⟩
  | exclusion =>
      obtain ⟨a, ha, rfl⟩ := map_made_eq_ok.1 h
      exact ⟨trivial, roundTrip_absence.fits_of_read hvalue ha, fun _ => nofun⟩
  | blob =>
      obtain ⟨c, -, rfl⟩ := map_made_eq_ok.1 h
      exact ⟨trivial, fun _ => nofun, fun _ => nofun⟩
  | bankHash =>
      obtain ⟨b, -, rfl⟩ := map_made_eq_ok.1 h
      exact ⟨trivial, fun _ => nofun, fun _ => nofun⟩
  | slotHash =>
      obtain ⟨e, he, rfl⟩ := map_made_eq_ok.1 h
      exact ⟨trivial, fun _ => nofun,
        List.forall_mem_singleton.2 (roundTrip_slotExhibit.fits_of_read hvalue he)⟩
  | compoundInclusion =>
      obtain ⟨c, hc, rfl⟩ := map_made_eq_ok.1 h
      obtain ⟨htarget, hslot, hentries⟩ := roundTrip_compoundInclusion.fits_of_read hvalue hc
      refine ⟨trivial, ?_, List.forall_mem_cons.2 ⟨htarget, List.forall_mem_singleton.2 hslot⟩⟩
      intro p hp
      obtain ⟨entry, hentry, rfl⟩ := List.mem_map.1 hp
      exact hentries entry hentry
  | compoundCompleteness =>
      obtain ⟨c, hc, rfl⟩ := map_made_eq_ok.1 h
      obtain ⟨htarget, hslot, a, ha, hpaths⟩ :=
        roundTrip_compoundCompleteness.fits_of_read hvalue hc
      refine ⟨⟨a, ha⟩, ?_, List.forall_mem_cons.2 ⟨htarget, List.forall_mem_singleton.2 hslot⟩⟩
      simp only [Evidence.paths, ha]
      exact hpaths

/-- Payloads are read from mappings. -/
theorem exists_mapping_of_readPayload {kind : EvidenceKind} {value : Value} {e : Evidence}
    (h : readPayload kind value = .ok (.ok e)) : ∃ entries, value = .mapping entries := by
  cases kind with
  | exclusion =>
      obtain ⟨a, ha, -⟩ := map_made_eq_ok.1 h
      obtain ⟨entries, _, _, hvalue, -⟩ := exists_form ha
      exact ⟨entries, hvalue⟩
  | inclusion | blob | bankHash | slotHash | compoundInclusion | compoundCompleteness =>
      obtain ⟨_, hread, -⟩ := map_made_eq_ok.1 h
      obtain ⟨entries, hvalue, -⟩ := exists_fields hread
      exact ⟨entries, hvalue⟩

end Wire

end SlotEvidence
