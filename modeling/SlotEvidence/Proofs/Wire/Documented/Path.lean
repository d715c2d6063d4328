/-
Module: SlotEvidence.Proofs.Wire.Documented.Path
Purpose: Hashes and paths in the documented form are alike what is written of what they are read as.
Trusted boundary: none
Main exports: Wire.faithful_hash, Wire.hashField, Wire.faithful_level, Wire.faithful_path
-/
import SlotEvidence.Proofs.Wire.Documented.Form

namespace SlotEvidence

namespace Wire

open Schema Json

/-! ### Hashes

Hashes are written in small letters and read in either case. -/

/-- A text that is read as a hash is the written form of the hash but for the case of letters. -/
theorem sameText_of_hashOfText {field s : String} {hash : Bytes}
    (h : hashOfText field s = .ok (.ok hash)) : SameText s (Hex.encode hash) := by
  unfold hashOfText at h
  split at h
  · rename_i t hcheck
    obtain ⟨htext, hlength, hlower⟩ :=
      encode_of_checkHashText hcheck (mapError_eq_ok.1 (Except.ok.inj h))
    refine .inr ⟨htext, isHashText_encode hlength, ?_⟩
    rw [hlower, map_toLower_encode]
  · cases h

/-- A text that is read as a hash is like the one that is written for it, up to the case of its
digits. -/
theorem alike_of_readHash {field : String} {json : Json} {hash : Bytes}
    (h : readHash field json.toValue = .ok (.ok hash)) :
    Alike SameText json (.text (Hex.encode hash)) := by
  obtain ⟨s, hs, hhash⟩ := bind_eq_ok.1 h
  obtain rfl := eq_text_of_text hs
  exact .text (sameText_of_hashOfText hhash)

theorem faithful_hash (written read : String) : Faithful (writeHash written) (readHash read) where
  complete := by
    intro hash json h
    obtain ⟨-, rfl⟩ := writeHash_eq_ok.1 h
    exact .text _
  alike := by
    intro hash written json _ hread hwrite
    obtain ⟨-, rfl⟩ := writeHash_eq_ok.1 hwrite
    exact alike_of_readHash hread

/-- A field that is read as a hash is alike the written form of the hash. -/
theorem hashField {members : Members Json} {name : String} {hash : Bytes}
    (h : requiredHash (memberValues members) name = .ok (.ok hash)) :
    ∃ value, members.get? name = some value ∧
      Alike SameText value (.text (Hex.encode hash)) := by
  obtain ⟨value, hvalue, hread⟩ := required_memberValues.1 h
  exact ⟨value, hvalue, alike_of_readHash hread⟩

/-! ### Levels -/

theorem eq_map_text {elements : List Json} {texts : List String}
    (h : elements.map (fun element => Schema.text element.toValue) = texts.map .ok) :
    elements = texts.map Json.text := by
  induction elements generalizing texts with
  | nil =>
      rw [List.map_nil] at h
      rw [List.map_eq_nil_iff.1 h.symm]
      rfl
  | cons element rest ih =>
      obtain ⟨s, later, rfl, hs, hlater⟩ := List.map_eq_cons_iff.1 h.symm
      rw [List.map_cons, eq_text_of_text hs.symm, ih hlater.symm]

/-- Texts that are read as siblings are like those that are written for them. -/
theorem alike_of_readSiblings {json : Json} {siblings : List Bytes}
    (h : readSiblings json.toValue = .ok (.ok siblings)) :
    Alike SameText json (.array (siblingTexts siblings)) := by
  simp only [readSiblings, bind_eq_ok, map_eq_ok, listOf_eq_ok] at h
  obtain ⟨texts, ⟨values, hvalues, htexts⟩, made, hmade, hall⟩ := h
  obtain ⟨elements, rfl, rfl⟩ := exists_array_of_list hvalues
  obtain rfl := made_all_eq_ok.1 hall
  rw [List.map_map] at htexts
  rw [eq_map_text htexts, siblingTexts, alike_array_iff, List.forall₂_map_left_iff,
    List.forall₂_map_right_iff]
  refine (forall₂_of_hashesOfTexts hmade).imp ?_
  intro text sibling hexists
  obtain ⟨_, hs⟩ := hexists
  exact .text (sameText_of_hashOfText hs)

theorem writtenOut_level (level : Level) : WrittenOut (levelMembers level) where
  integers := by simp [levelMembers, integerFields]
  siblings := by simp [levelMembers, Members.names]

theorem complete_siblingTexts (siblings : List Bytes) :
    Complete (.array (siblingTexts siblings)) := by
  refine .array fun item hitem => ?_
  obtain ⟨sibling, -, rfl⟩ := List.mem_map.1 hitem
  exact .text _

/-- A complete value that is read as a level is like the one that is written for it. -/
theorem faithful_level : Faithful writeLevel readLevel where
  complete := by
    intro level json h
    obtain ⟨-, rfl⟩ := writeLevel_eq_ok.1 h
    refine .object (writtenOut_level level) ?_
    simp only [levelMembers, List.forall_mem_cons]
    exact ⟨complete_siblingTexts _, .int _, List.forall_mem_nil _⟩
  alike := by
    intro level written json hcomplete hread hwrite
    obtain ⟨-, rfl⟩ := writeLevel_eq_ok.1 hwrite
    obtain ⟨members, rfl, hknown, hfields⟩ := exists_members hread
    obtain ⟨hwritten, -⟩ := hcomplete.members
    simp only [map_eq_ok, both_eq_ok, bind_eq_ok] at hfields
    obtain ⟨⟨made, index⟩, ⟨hsiblings, hindex⟩, siblings, rfl, hlevel⟩ := hfields
    cases hlevel
    obtain ⟨index', hindex', hsame⟩ := integerField hwritten (by decide) hindex
    -- the index is there, so that the siblings are, which may be left out otherwise
    obtain ⟨siblings', hsiblings'⟩ := Members.exists_get?_of_mem_names
      (hwritten.siblings (Members.mem_names_of_get?_eq_some hindex'))
    rw [Schema.optional, member?_memberValues, hsiblings'] at hsiblings
    have halike := alike_of_readSiblings (within_eq_ok.1 hsiblings)
    refine alike_object hknown (List.forall_mem_cons.2 ⟨⟨siblings', hsiblings', halike⟩, ?_⟩)
    exact List.forall_mem_singleton.2 ⟨index', hindex', hsame⟩

/-! ### Paths -/

/-- A complete value that is read as a path is like the one that is written for it. -/
theorem faithful_path : Faithful writePath readPath where
  complete := by
    intro p json h
    obtain ⟨leaf, levels, hleaf, hlevels, rfl⟩ := writePath_eq_ok.1 h
    refine .object (.of_names ["leaf", "levels"] rfl (by decide)) ?_
    simp only [List.forall_mem_cons]
    exact ⟨(faithful_hash "leaf" "leaf").complete hleaf, faithful_level.completeList hlevels,
      List.forall_mem_nil _⟩
  alike := by
    intro p written json hcomplete hread hwrite
    obtain ⟨leaf, levels, hleaf, hlevels, rfl⟩ := writePath_eq_ok.1 hwrite
    obtain ⟨members, rfl, hknown, hfields⟩ := exists_members hread
    obtain ⟨-, hvalues⟩ := hcomplete.members
    simp only [map_eq_ok, both_eq_ok, bind_eq_ok, requiredHash] at hfields
    obtain ⟨⟨_, made⟩, ⟨hreadLeaf, hreadLevels⟩, leaf', rfl, levels', hmade, hp⟩ := hfields
    cases hp
    refine alike_object hknown (List.forall_mem_cons.2 ⟨?_, List.forall_mem_singleton.2 ?_⟩)
    · exact (faithful_hash "leaf" "leaf").field hvalues hreadLeaf hleaf
    · exact faithful_level.listField hvalues hreadLevels hmade hlevels

end Wire

end SlotEvidence
