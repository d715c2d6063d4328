/-
Module: SlotEvidence.Proofs.Wire.Path
Purpose: Paths are read back from what is written.  Just those can be written and read whose leaf
  and siblings have the length of a hash, and the numbers of whose levels have a text.
Trusted boundary: none
Main exports: Path.hashes, Path.indices, Wire.HashLengths, Wire.PathFits, Wire.roundTrip_hash,
  Wire.roundTrip_level, Wire.roundTrip_path
-/
import SlotEvidence.Proofs.Wire.HashText
import SlotEvidence.Proofs.Wire.Record

namespace SlotEvidence

/-- The leaf of a path and all its siblings. -/
def Path.hashes (p : Path) : List Bytes := p.leaf :: p.levels.flatMap (·.siblings)

/-- The numbers of the levels of a path among their siblings. -/
def Path.indices (p : Path) : List Nat := p.levels.map (·.index)

namespace Wire

open Schema

/-- All byte strings of a list have the length of a hash. -/
def HashLengths (hashes : List Bytes) : Prop := ∀ hash ∈ hashes, hash.length = hashLength

/-- A level that can be written: its siblings are hashes, and its number is not too long. -/
structure LevelFits (level : Level) : Prop where
  siblings : HashLengths level.siblings
  index : Text.Writable level.index

/-- A path that can be written: leaf and siblings are hashes, and no number is too long. -/
structure PathFits (p : Path) : Prop where
  hashes : HashLengths p.hashes
  indices : ∀ index ∈ p.indices, Text.Writable index

/-! ### Hashes -/

/-- The written form of a hash is read as the hash. -/
theorem hashOfText_encode (field : String) {hash : Bytes} (h : hash.length = hashLength) :
    hashOfText field (Hex.encode hash) = .ok (.ok hash) := by
  rw [hashOfText, checkHashText_encode field h]
  dsimp only
  rw [Hex.decode_encode]
  rfl

/-- What is read as a hash has the length of one. -/
theorem length_of_hashOfText {field s : String} {hash : Bytes}
    (h : hashOfText field s = .ok (.ok hash)) : hash.length = hashLength := by
  unfold hashOfText at h
  split at h
  · rename_i t hcheck
    exact length_of_checkHashText hcheck (mapError_eq_ok.1 (Except.ok.inj h))
  · cases h

theorem length_of_readHash {field : String} {value : Value} {hash : Bytes}
    (h : readHash field value = .ok (.ok hash)) : hash.length = hashLength := by
  obtain ⟨s, -, hs⟩ := bind_eq_ok.1 h
  exact length_of_hashOfText hs

/-- Bytes are written as a hash just when they have the length of one. -/
theorem writeHash_eq_ok {field : String} {hash : Bytes} {json : Json} :
    writeHash field hash = .ok json ↔
      hash.length = hashLength ∧ json = .text (Hex.encode hash) := by
  unfold writeHash
  split
  · rename_i hlength
    constructor
    · rintro ⟨⟩
      exact ⟨hlength, rfl⟩
    · rintro ⟨-, rfl⟩
      rfl
  · rename_i hlength
    constructor
    · intro h
      exact absurd h refuse_ne_ok
    · rintro ⟨h, -⟩
      exact absurd h hlength

theorem roundTrip_hash (written read : String) :
    RoundTrip (writeHash written) (readHash read) fun hash => hash.length = hashLength where
  legible := by
    intro hash json h
    obtain ⟨-, rfl⟩ := writeHash_eq_ok.1 h
    exact .text _
  read_written := by
    intro hash json h
    obtain ⟨hlength, rfl⟩ := writeHash_eq_ok.1 h
    exact hashOfText_encode read hlength
  exists_written := by
    intro hash h
    exact ⟨_, writeHash_eq_ok.2 ⟨h, rfl⟩, Json.writable_text _⟩
  fits_of_read _ h := length_of_readHash h

/-! ### Siblings and levels

Siblings are written in their order, each as a text. -/

/-- The written form of siblings. -/
def siblingTexts (siblings : List Bytes) : List Json :=
  siblings.map fun sibling => .text (Hex.encode sibling)

/-- Siblings are written just when all of them are hashes. -/
theorem writeSiblings_eq_ok {index : Nat} {siblings : List Bytes} {items : List Json} :
    writeSiblings index siblings = .ok items ↔
      HashLengths siblings ∧ items = siblingTexts siblings := by
  induction siblings generalizing index items with
  | nil => simp [writeSiblings, HashLengths, siblingTexts, eq_comm]
  | cons sibling rest ih =>
      simp only [writeSiblings, bind_eq_ok, writeHash_eq_ok, ih, HashLengths, List.forall_mem_cons]
      constructor
      · rintro ⟨_, ⟨hsibling, rfl⟩, _, ⟨hrest, rfl⟩, h⟩
        cases h
        exact ⟨⟨hsibling, hrest⟩, rfl⟩
      · rintro ⟨⟨hsibling, hrest⟩, rfl⟩
        exact ⟨_, ⟨hsibling, rfl⟩, _, ⟨hrest, rfl⟩, rfl⟩

theorem hashesOfTexts_encode (index : Nat) {siblings : List Bytes} (h : HashLengths siblings) :
    hashesOfTexts index (siblings.map Hex.encode) = .ok (siblings.map .ok) := by
  induction siblings generalizing index with
  | nil => rfl
  | cons sibling rest ih =>
      obtain ⟨hsibling, hrest⟩ := List.forall_mem_cons.1 h
      rw [List.map_cons, hashesOfTexts, hashOfText_encode _ hsibling, ih _ hrest]
      rfl

/-- The texts of siblings are read one by one, each under a name of its own. -/
theorem forall₂_of_hashesOfTexts {index : Nat} {texts : List String} {hashes : List Bytes}
    (h : hashesOfTexts index texts = .ok (hashes.map .ok)) :
    List.Forall₂ (fun s hash => ∃ field, hashOfText field s = .ok (.ok hash)) texts hashes := by
  induction texts generalizing index hashes with
  | nil =>
      cases hashes with
      | nil => exact .nil
      | cons hash hashes => cases h
  | cons s rest ih =>
      simp only [hashesOfTexts, bind_eq_ok] at h
      obtain ⟨made, hs, others, hrest, h⟩ := h
      cases hashes with
      | nil => cases h
      | cons hash hashes =>
          cases h
          exact .cons ⟨_, hs⟩ (ih hrest)

/-- Siblings are read back. -/
theorem readSiblings_siblingTexts {siblings : List Bytes} (h : HashLengths siblings) :
    readSiblings (Json.array (siblingTexts siblings)).asRead = .ok (.ok siblings) := by
  have htexts : listOf text (Json.array (siblingTexts siblings)).asRead =
      .ok (siblings.map Hex.encode) := by
    refine listOf_eq_ok.2 ⟨_, by rw [asRead_array]; rfl, ?_⟩
    rw [siblingTexts, List.map_map, List.map_map, List.map_map]
    rfl
  rw [readSiblings, htexts]
  change (hashesOfTexts 0 (siblings.map Hex.encode)).map Made.all = _
  rw [hashesOfTexts_encode 0 h]
  exact congrArg Except.ok (made_all_eq_ok.2 rfl)

theorem lengths_of_readSiblings {value : Value} {siblings : List Bytes}
    (h : readSiblings value = .ok (.ok siblings)) : HashLengths siblings := by
  simp only [readSiblings, bind_eq_ok, map_eq_ok] at h
  obtain ⟨texts, -, made, htexts, hmade⟩ := h
  obtain rfl := made_all_eq_ok.1 hmade
  intro hash hhash
  obtain ⟨s, -, field, hs⟩ :=
    exists_of_mem_forall₂_right (forall₂_of_hashesOfTexts htexts) hhash
  exact length_of_hashOfText hs

/-- The written form of a level. -/
def levelMembers (level : Level) : Members Json :=
  [("siblings", .array (siblingTexts level.siblings)), ("index", .int level.index)]

/-- A level is written just when its siblings are. -/
theorem writeLevel_eq_ok {level : Level} {json : Json} :
    writeLevel level = .ok json ↔
      HashLengths level.siblings ∧ json = .object (levelMembers level) := by
  simp only [writeLevel, bind_eq_ok, within_eq_ok, writeSiblings_eq_ok]
  constructor
  · rintro ⟨_, ⟨hlengths, rfl⟩, h⟩
    cases h
    exact ⟨hlengths, rfl⟩
  · rintro ⟨hlengths, rfl⟩
    exact ⟨_, ⟨hlengths, rfl⟩, rfl⟩

theorem levelMembers_distinct (level : Level) : (levelMembers level).names.Nodup := by
  change ["siblings", "index"].Nodup
  decide

theorem legible_siblingTexts (siblings : List Bytes) :
    (Json.array (siblingTexts siblings)).Legible := by
  apply Json.Legible.array
  intro item hitem
  obtain ⟨sibling, -, rfl⟩ := List.mem_map.1 hitem
  exact .text _

theorem readLevel_levelMembers {level : Level} (h : HashLengths level.siblings) :
    readLevel (Json.object (levelMembers level)).asRead = .ok (.ok level) := by
  have hdistinct := levelMembers_distinct level
  have hsiblings : optional (entries (levelMembers level)) "siblings" (.ok []) readSiblings =
      .ok (.ok level.siblings) :=
    optional_of_member? (member?_entries hdistinct (.head _)) (readSiblings_siblingTexts h)
  have hindex : required (entries (levelMembers level)) "index" (natural none) =
      .ok level.index :=
    required_entries hdistinct (.tail _ (.head _)) (natural_int (by simp))
  apply read_record
  rw [hsiblings, hindex]
  rfl

theorem writable_levelMembers {level : Level} (h : Text.Writable level.index) :
    (Json.object (levelMembers level)).Writable := by
  simp only [Json.writable_object_iff, levelMembers, List.forall_mem_cons]
  refine ⟨Json.writable_array_iff.2 ?_, Json.writable_int_iff.2 h, nofun⟩
  intro item hitem
  obtain ⟨sibling, -, rfl⟩ := List.mem_map.1 hitem
  exact Json.writable_text _

/-- A level goes to the wire and back, if its siblings are hashes and its place has a text. -/
theorem roundTrip_level : RoundTrip writeLevel readLevel LevelFits where
  legible := by
    intro level json h
    obtain ⟨-, rfl⟩ := writeLevel_eq_ok.1 h
    apply Json.Legible.object (levelMembers_distinct level)
    simp only [levelMembers, List.forall_mem_cons]
    exact ⟨legible_siblingTexts _, .int _, nofun⟩
  read_written := by
    intro level json h
    obtain ⟨hlengths, rfl⟩ := writeLevel_eq_ok.1 h
    exact readLevel_levelMembers hlengths
  exists_written := by
    intro level h
    exact ⟨_, writeLevel_eq_ok.2 ⟨h.siblings, rfl⟩, writable_levelMembers h.index⟩
  fits_of_read := by
    intro level value hvalue h
    obtain ⟨entries, rfl, hfields⟩ := exists_fields h
    simp only [map_eq_ok, both_eq_ok, bind_eq_ok, required_eq_ok] at hfields
    obtain ⟨⟨made, index⟩, ⟨hsiblings, _, hmember, hindex⟩, siblings, rfl, hlevel⟩ := hfields
    cases hlevel
    refine ⟨?_, writable_of_natural (writable_of_member? hvalue hmember) hindex⟩
    rcases optional_cases hsiblings with hnone | ⟨value, hread⟩
    · cases hnone
      exact fun _ => nofun
    · exact lengths_of_readSiblings hread

/-! ### Paths

A path fits if its leaf and siblings are hashes and its places have texts. -/

theorem writeLevels_eq_ok {levels : List Level} {items : List Json} :
    writeLevels levels = .ok items ↔
      List.Forall₂ (fun level item => writeLevel level = .ok item) levels items := by
  induction levels generalizing items with
  | nil => simp [writeLevels, eq_comm]
  | cons level rest ih =>
      simp only [writeLevels, bind_eq_ok, ih, List.forall₂_cons_left_iff]
      constructor
      · rintro ⟨item, hitem, others, hothers, h⟩
        cases h
        exact ⟨item, others, hitem, hothers, rfl⟩
      · rintro ⟨item, others, hitem, hothers, rfl⟩
        exact ⟨item, hitem, others, hothers, rfl⟩

/-- A path is written just when its leaf and its levels are. -/
theorem writePath_eq_ok {p : Path} {json : Json} :
    writePath p = .ok json ↔
      ∃ leaf levels, writeHash "leaf" p.leaf = .ok leaf ∧
        List.Forall₂ (fun level item => writeLevel level = .ok item) p.levels levels ∧
        json = .object [("leaf", leaf), ("levels", .array levels)] := by
  simp only [writePath, bind_eq_ok, within_eq_ok, writeLevels_eq_ok]
  constructor
  · rintro ⟨levels, hlevels, leaf, hleaf, h⟩
    cases h
    exact ⟨leaf, levels, hleaf, hlevels, rfl⟩
  · rintro ⟨leaf, levels, hleaf, hlevels, rfl⟩
    exact ⟨levels, hlevels, leaf, hleaf, rfl⟩

/-- A path fits when its leaf is a hash and each of its levels fits. -/
theorem pathFits_iff {p : Path} :
    PathFits p ↔ p.leaf.length = hashLength ∧ ∀ level ∈ p.levels, LevelFits level := by
  constructor
  · rintro ⟨hhashes, hindices⟩
    obtain ⟨hleaf, hsiblings⟩ := List.forall_mem_cons.1 hhashes
    refine ⟨hleaf, fun level hlevel => ⟨fun hash hhash => ?_, ?_⟩⟩
    · exact hsiblings hash (List.mem_flatMap.2 ⟨level, hlevel, hhash⟩)
    · exact hindices level.index (List.mem_map_of_mem hlevel)
  · rintro ⟨hleaf, hlevels⟩
    refine ⟨List.forall_mem_cons.2 ⟨hleaf, fun hash hhash => ?_⟩, fun index hindex => ?_⟩
    · obtain ⟨level, hlevel, hhash⟩ := List.mem_flatMap.1 hhash
      exact (hlevels level hlevel).siblings hash hhash
    · obtain ⟨level, hlevel, rfl⟩ := List.mem_map.1 hindex
      exact (hlevels level hlevel).index

theorem pathNames_distinct (leaf levels : Json) :
    (Members.names [("leaf", leaf), ("levels", levels)]).Nodup := by
  change ["leaf", "levels"].Nodup
  decide

/-- A path goes to the wire and back, if its leaf is a hash and its levels fit. -/
theorem roundTrip_path : RoundTrip writePath readPath PathFits where
  legible := by
    intro p json h
    obtain ⟨leaf, levels, hleaf, hlevels, rfl⟩ := writePath_eq_ok.1 h
    apply Json.Legible.object (pathNames_distinct _ _)
    simp only [List.forall_mem_cons]
    exact ⟨(roundTrip_hash "leaf" "leaf").legible hleaf, roundTrip_level.legible_list hlevels,
      nofun⟩
  read_written := by
    intro p json h
    obtain ⟨leaf, levels, hleaf, hlevels, rfl⟩ := writePath_eq_ok.1 h
    have hdistinct := pathNames_distinct leaf (.array levels)
    have hreadLeaf : requiredHash (entries _) "leaf" = .ok (.ok p.leaf) :=
      required_entries hdistinct (.head _) ((roundTrip_hash "leaf" "leaf").read_written hleaf)
    have hreadLevels : required (entries _) "levels" (listOf readLevel) =
        .ok (p.levels.map .ok) :=
      required_entries hdistinct (.tail _ (.head _)) (roundTrip_level.read_list hlevels)
    apply read_record
    rw [hreadLeaf, hreadLevels]
    refine congrArg Except.ok ?_
    refine bind_eq_ok.2 ⟨_, rfl, bind_eq_ok.2 ⟨p.levels, made_all_eq_ok.2 rfl, rfl⟩⟩
  exists_written := by
    intro p h
    obtain ⟨hleaf, hlevels⟩ := pathFits_iff.1 h
    obtain ⟨leaf, hwritten, hleafWritable⟩ :=
      (roundTrip_hash "leaf" "leaf").exists_written hleaf
    obtain ⟨levels, hitems, hlevelsWritable⟩ := roundTrip_level.exists_written_list hlevels
    refine ⟨_, writePath_eq_ok.2 ⟨leaf, levels, hwritten, hitems, rfl⟩, ?_⟩
    simp only [Json.writable_object_iff, List.forall_mem_cons]
    exact ⟨hleafWritable, hlevelsWritable, nofun⟩
  fits_of_read := by
    intro p value hvalue h
    obtain ⟨entries, rfl, hfields⟩ := exists_fields h
    simp only [map_eq_ok, both_eq_ok, bind_eq_ok, requiredHash] at hfields
    obtain ⟨⟨_, made⟩, ⟨hleaf, hlevels⟩, leaf, rfl, levels, hmade, hp⟩ := hfields
    cases hp
    exact pathFits_iff.2 ⟨(roundTrip_hash "leaf" "leaf").fits_of_read_field hvalue hleaf,
      roundTrip_level.fits_of_read_list_field hvalue hlevels hmade⟩

end Wire

end SlotEvidence
