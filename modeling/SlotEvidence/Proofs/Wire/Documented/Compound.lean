/-
Module: SlotEvidence.Proofs.Wire.Documented.Compound
Purpose: Compound evidence in the documented form is alike what is written of what it is read as.
Trusted boundary: none
Main exports: Wire.faithful_entry, Wire.faithful_compoundInclusion,
  Wire.faithful_compoundCompleteness
-/
import SlotEvidence.Proofs.Wire.Compound
import SlotEvidence.Proofs.Wire.Documented.Absence
import SlotEvidence.Proofs.Wire.Documented.Anchor

namespace SlotEvidence

namespace Wire

open Schema Json

/-- A complete value that is read as the evidence for one blob is like the one that is written for
it. -/
theorem faithful_entry : Faithful writeEntry readEntry where
  complete := by
    intro e json h
    obtain ⟨path, hpath, rfl⟩ := map_eq_ok.1 h
    refine .object (.of_names ["blob", "inclusion"] rfl (by decide)) ?_
    simp only [List.forall_mem_cons]
    exact ⟨complete_writeBlob _, faithful_path.complete hpath, List.forall_mem_nil _⟩
  alike := by
    intro e written json hcomplete hread hwrite
    obtain ⟨path, hpath, rfl⟩ := map_eq_ok.1 hwrite
    obtain ⟨members, rfl, hknown, hfields⟩ := exists_members hread
    obtain ⟨-, hvalues⟩ := hcomplete.members
    simp only [map_eq_ok, both_eq_ok, bind_eq_ok] at hfields
    obtain ⟨⟨_, _⟩, ⟨hblob, hinclusion⟩, blob, rfl, p, rfl, he⟩ := hfields
    cases he
    refine alike_object hknown (List.forall_mem_cons.2 ⟨?_, List.forall_mem_singleton.2 ?_⟩)
    · exact faithful_blob.field hvalues hblob rfl
    · exact faithful_path.field hvalues hinclusion hpath

/-! ### The common members

The slot, the bank and the history are the same for both kinds. -/

section CompoundMembers

variable {targetSlot : Nat} {bank : Bank} {e : SlotExhibit} {slotExhibit what : Json}
  {name : String}

theorem complete_compoundMembers (hname : name ∉ integerFields)
    (hexhibit : writeSlotExhibit e = .ok slotExhibit) (hwhat : Complete what) :
    Complete (.object (compoundMembers targetSlot bank slotExhibit name what)) := by
  refine .object ⟨?_, ?_⟩ ?_
  · simp only [compoundMembers, List.forall_mem_cons]
    refine ⟨fun _ => ⟨_, rfl⟩, ?_, ?_, fun hinteger => absurd hinteger hname, List.forall_mem_nil _⟩
    · exact fun hinteger => absurd hinteger (by decide)
    · exact fun hinteger => absurd hinteger (by decide)
  · intro hindex
    have hmem : "index" ∈ ["target_slot", "bank_hash_proof", "slot_hash_proof", name] := hindex
    obtain rfl : "index" = name := by simpa using hmem
    exact absurd (by decide) hname
  · simp only [compoundMembers, List.forall_mem_cons]
    exact ⟨.int _, complete_writeBank bank, faithful_slotExhibit.complete hexhibit, hwhat,
      List.forall_mem_nil _⟩

/-- Both kinds of compound evidence share the members for the slot, the bank and the history; they
are alike if what is particular to the kind is. -/
theorem alike_compoundMembers {members : Members Json} (hcomplete : Complete (.object members))
    (hknown : ∀ other ∈ members.names,
      other ∈ (compoundMembers targetSlot bank slotExhibit name what).names)
    (hslot : requiredSlot (memberValues members) "target_slot" = .ok targetSlot)
    (hbank : required (memberValues members) "bank_hash_proof" readBank = .ok (.ok bank))
    (hexhibit : required (memberValues members) "slot_hash_proof" readSlotExhibit = .ok (.ok e))
    (hwrite : writeSlotExhibit e = .ok slotExhibit)
    (hwhat : ∃ value, members.get? name = some value ∧ Alike SameText value what) :
    Alike SameText (.object members)
      (.object (compoundMembers targetSlot bank slotExhibit name what)) := by
  obtain ⟨hwritten, hvalues⟩ := hcomplete.members
  have hslot := integerField hwritten (by decide) hslot
  refine alike_object hknown (List.forall_mem_cons.2 ⟨hslot, ?_⟩)
  refine List.forall_mem_cons.2 ⟨faithful_bank.field hvalues hbank rfl, ?_⟩
  refine List.forall_mem_cons.2 ⟨faithful_slotExhibit.field hvalues hexhibit hwrite, ?_⟩
  exact List.forall_mem_singleton.2 hwhat

end CompoundMembers

/-! ### Evidence about blobs and about untouched accounts -/

/-- A complete value that is read as evidence for blobs is like the one that is written for it. -/
theorem faithful_compoundInclusion :
    Faithful writeCompoundInclusion readCompoundInclusion where
  complete := by
    intro c json h
    obtain ⟨n, slotExhibit, items, -, -, hexhibit, hitems, rfl⟩ := writeCompoundInclusion_eq_ok.1 h
    exact complete_compoundMembers (by decide) hexhibit (faithful_entry.completeList hitems)
  alike := by
    intro c written json hcomplete hread hwrite
    obtain ⟨n, slotExhibit, items, hn, -, hexhibit, hitems, rfl⟩ :=
      writeCompoundInclusion_eq_ok.1 hwrite
    obtain ⟨members, rfl, hknown, hfields⟩ := exists_members hread
    simp only [map_eq_ok, both_eq_ok, bind_eq_ok] at hfields
    obtain ⟨⟨slot, _, _, made⟩, ⟨hslot, hbank, hreadExhibit, hblobs⟩, bank, rfl, e, rfl, es, hmade,
      hc⟩ := hfields
    cases hc
    obtain rfl := Int.ofNat_inj.1 hn
    exact alike_compoundMembers hcomplete hknown hslot hbank hreadExhibit hexhibit
      (faithful_entry.listField hcomplete.members.2 hblobs hmade hitems)

/-- A complete value that is read as evidence that an account was not touched is like the one that
is written for it. -/
theorem faithful_compoundCompleteness :
    Faithful writeCompoundCompleteness readCompoundCompleteness where
  complete := by
    intro c json h
    obtain ⟨n, slotExhibit, a, absence, -, -, hexhibit, -, habsence, rfl⟩ :=
      writeCompoundCompleteness_eq_ok.1 h
    exact complete_compoundMembers (by decide) hexhibit (faithful_absence.complete habsence)
  alike := by
    intro c written json hcomplete hread hwrite
    obtain ⟨n, slotExhibit, a, absence, hn, -, hexhibit, ha, habsence, rfl⟩ :=
      writeCompoundCompleteness_eq_ok.1 hwrite
    obtain ⟨members, rfl, hknown, hfields⟩ := exists_members hread
    simp only [map_eq_ok, both_eq_ok, bind_eq_ok] at hfields
    obtain ⟨⟨slot, _, _, _⟩, ⟨hslot, hbank, hreadExhibit, hreadAbsence⟩, bank, rfl, e, rfl, b, rfl,
      hc⟩ := hfields
    cases hc
    cases ha
    obtain rfl := Int.ofNat_inj.1 hn
    exact alike_compoundMembers hcomplete hknown hslot hbank hreadExhibit hexhibit
      (faithful_absence.field hcomplete.members.2 hreadAbsence habsence)

end Wire

end SlotEvidence
