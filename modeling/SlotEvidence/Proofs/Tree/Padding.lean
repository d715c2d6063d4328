/-
Module: SlotEvidence.Proofs.Tree.Padding
Purpose: What filling up incomplete groups does to the root.  Where all groups of all rows are
  complete, which is so when the number of leaves is a power of the fanout, it does nothing.
  Otherwise it gives another root: from equal roots one comes down row by row to equal leaves, and
  finds every group on the way complete, unless two of the byte strings that were hashed have one
  digest.
Trusted boundary: none
Main exports: Settings.withPadding, Tree.parents_withPadding, Tree.rows_eq_of_parents_eq,
  Tree.length_row_of_power, Tree.Counterparts, Tree.Counterparts.root_eq_of_power,
  Tree.Counterparts.row_eq_of_root_eq, Tree.padding_changes_incomplete_roots
-/
import Mathlib.Algebra.Group.Nat.Defs
import SlotEvidence.Proofs.HashBreak
import SlotEvidence.Proofs.Tree.Building
import SlotEvidence.Proofs.Tree.Inclusion

namespace SlotEvidence

namespace Settings

/-- The settings with another choice about incomplete groups. -/
def withPadding (s : Settings) (pad : Bool) : Settings := { s with padPartialGroups := pad }

section WithPadding

variable (s : Settings) (pad : Bool)

@[simp] theorem padPartialGroups_withPadding : (s.withPadding pad).padPartialGroups = pad := rfl

@[simp] theorem fanout_withPadding : (s.withPadding pad).fanout = s.fanout := rfl

end WithPadding

end Settings

namespace Tree

/-! ### The parents of a row with and without filling up

The last group of a row is hashed with fillers or without.  Its parent is the same just when it is
full, since fillers make what is hashed longer. -/

section Parents

variable (s : Settings) (height : Nat)

/-- A complete group is not filled up. -/
theorem padGroup_of_length_eq {children : List Bytes} (h : children.length = s.fanout) :
    padGroup s children = children := by
  simp [padGroup, h]

/-- Over a row whose groups are all complete it makes no difference whether groups are filled up. -/
theorem parents_withPadding {row : List Bytes32} (hdvd : s.fanout ∣ row.length) :
    parents (s.withPadding true) height row = parents (s.withPadding false) height row := by
  apply List.map_congr_left
  intro group hgroup
  have hlength : (group.map (·.bytes)).length = s.fanout := by
    rw [List.length_map]
    exact length_of_mem_slices_of_dvd s.fanout_pos hdvd hgroup
  have hcomplete (pad : Bool) : padGroup (s.withPadding pad) (group.map (·.bytes)) =
      group.map (·.bytes) := padGroup_of_length_eq _ hlength
  simp only [hashGroup, groupPreimage, hcomplete]
  rfl

/-- Where a group that is filled up and one that is not are hashed as one byte string, they are one
group, and it is complete. -/
theorem eq_of_groupPreimage_withPadding {xs ys : List Bytes}
    (hxs : ∀ x ∈ xs, x.length = hashLength) (hys : ∀ y ∈ ys, y.length = hashLength)
    (hlength : xs.length = ys.length)
    (h : groupPreimage (s.withPadding true) height xs =
      groupPreimage (s.withPadding false) height ys) :
    xs = ys ∧ s.fanout ≤ xs.length := by
  obtain ⟨-, hflatten⟩ := List.cons.inj h
  rw [padGroup_of_not_pad (s.padPartialGroups_withPadding false)] at hflatten
  have hfilled := eq_of_flatten_eq (length_of_mem_padGroup hxs) hys hflatten
  rw [padGroup_of_pad (s.padPartialGroups_withPadding true)] at hfilled
  have hnone : (s.withPadding true).fanout - xs.length = 0 := by
    have hcount := congrArg List.length hfilled
    rw [List.length_append, List.length_replicate] at hcount
    omega
  rw [hnone, List.replicate_zero, List.append_nil] at hfilled
  exact ⟨hfilled, Nat.le_of_sub_eq_zero hnone⟩

/-- What is hashed for the parent with a number. -/
theorem getElem?_rowGroups_withPadding (pad : Bool) {row : List Bytes32} {number : Nat}
    (h : number * s.fanout < row.length) :
    (rowGroups (s.withPadding pad) height row)[number]? =
      some (groupPreimage (s.withPadding pad) height
        (sliceAt s.fanout (row.map (·.bytes)) number)) := by
  rw [getElem?_rowGroups]
  exact if_pos h

/-- Two rows of one length that have the same parents, one with groups filled up and one without,
have the same slices, and these are complete. -/
theorem sliceAt_eq_of_parents_eq {filled plain : List Bytes32}
    (hlength : filled.length = plain.length)
    (hsafe : ¬ Collision s (rowGroups (s.withPadding true) height filled ++
      rowGroups (s.withPadding false) height plain))
    (h : parents (s.withPadding true) height filled = parents (s.withPadding false) height plain)
    {number : Nat} (hnumber : number * s.fanout < filled.length) :
    sliceAt s.fanout (filled.map (·.bytes)) number =
        sliceAt s.fanout (plain.map (·.bytes)) number ∧
      number * s.fanout + s.fanout ≤ filled.length := by
  have hleft := getElem?_rowGroups_withPadding s height true hnumber
  have hright := getElem?_rowGroups_withPadding s height false (hlength ▸ hnumber)
  have hdigest := congrArg (·[number]?) h
  simp only [parents_eq_map_digest, List.getElem?_map, hleft, hright, Option.map_some,
    Option.some.injEq] at hdigest
  -- The two groups at this place have one hash, and so were hashed from the same bytes.
  have hpreimage := eq_of_not_collision hsafe
    (List.mem_append_left _ (List.mem_of_getElem? hleft))
    (List.mem_append_right _ (List.mem_of_getElem? hright)) hdigest
  have hhash (row : List Bytes32) : ∀ x ∈ sliceAt s.fanout (row.map (·.bytes)) number,
      x.length = hashLength := by
    intro x hx
    exact length_of_mem_map_bytes row x (mem_of_mem_sliceAt _ hx)
  have hcount : (sliceAt s.fanout (filled.map (·.bytes)) number).length =
      (sliceAt s.fanout (plain.map (·.bytes)) number).length := by
    rw [length_sliceAt, length_sliceAt, List.length_map, List.length_map, hlength]
  obtain ⟨hslice, hfull⟩ :=
    eq_of_groupPreimage_withPadding s height (hhash filled) (hhash plain) hcount hpreimage
  refine ⟨hslice, ?_⟩
  rw [length_sliceAt, List.length_map] at hfull
  omega

/-- Such rows are one row, and all its groups are complete. -/
theorem rows_eq_of_parents_eq {filled plain : List Bytes32} (hlength : filled.length = plain.length)
    (hsafe : ¬ Collision s (rowGroups (s.withPadding true) height filled ++
      rowGroups (s.withPadding false) height plain))
    (h : parents (s.withPadding true) height filled =
      parents (s.withPadding false) height plain) :
    filled = plain ∧ s.fanout ∣ filled.length := by
  have hslice {number : Nat} (hnumber : number * s.fanout < filled.length) :=
    sliceAt_eq_of_parents_eq s height hlength hsafe h hnumber
  constructor
  · have hbytes : filled.map (·.bytes) = plain.map (·.bytes) := by
      refine List.ext_getElem? fun place => ?_
      by_cases hplace : place < filled.length
      · have hnumber : place / s.fanout * s.fanout < filled.length :=
          Nat.lt_of_le_of_lt (Nat.div_mul_le_self _ _) hplace
        rw [← getElem?_sliceAt_div s.fanout s.fanout_pos, (hslice hnumber).1,
          getElem?_sliceAt_div s.fanout s.fanout_pos]
      · rw [List.getElem?_eq_none (by simpa using hplace),
          List.getElem?_eq_none (by simpa [← hlength] using hplace)]
    exact List.map_injective_iff.2 (fun _ _ => Bytes32.ext) hbytes
  · -- the slice in which the row ends would otherwise be short
    have hdiv := Nat.div_add_mod filled.length s.fanout
    have hmod := Nat.mod_lt filled.length s.fanout_pos
    rw [Nat.mul_comm] at hdiv
    apply Nat.dvd_of_mod_eq_zero
    apply Decidable.byContradiction
    intro hrest
    have hshort := (@hslice (filled.length / s.fanout) (by omega)).2
    omega

end Parents

/-! ### Trees with and without filling up

Trees on the same leaves have rows of the same lengths.  They agree from the bottom up as long as
all rows divide into full groups, and without a break never again after one that does not. -/

section Height

variable (t : Tree)

/-- A row of complete groups is as many times longer than the next one as the fanout says. -/
theorem length_row_of_dvd {height : Nat} (hdvd : t.settings.fanout ∣ (t.row height).length) :
    (t.row height).length = t.settings.fanout * (t.row (height + 1)).length := by
  have hpos := t.settings.fanout_pos
  obtain ⟨count, hcount⟩ := hdvd
  have hparents : (t.row (height + 1)).length = count := by
    rw [length_row_succ, hcount]
    apply Nat.div_eq_of_lt_le
    · rw [Nat.mul_comm]
      omega
    · rw [Nat.succ_mul, Nat.mul_comm count]
      omega
  rw [hparents, hcount]

theorem rowGroups_subset_groups {height : Nat} (h : height < t.depth) :
    rowGroups t.settings height (t.row height) ⊆ t.groups := fun _ hmem =>
  List.mem_flatMap.2 ⟨height, List.mem_range.2 h, hmem⟩

/-- Over a power of the fanout of leaves each row is a smaller power long. -/
theorem length_row_of_power {exponent : Nat}
    (h : t.leaves.length = t.settings.fanout ^ exponent) {height : Nat}
    (hheight : height ≤ exponent) :
    (t.row height).length = t.settings.fanout ^ (exponent - height) := by
  induction height with
  | zero => exact h
  | succ height ih =>
      have hrow := ih (Nat.le_of_succ_le hheight)
      have hexponent : exponent - height = exponent - (height + 1) + 1 := by omega
      rw [hexponent, Nat.pow_succ'] at hrow
      have hparents := t.length_row_of_dvd ⟨_, hrow⟩
      rw [hparents] at hrow
      exact Nat.eq_of_mul_eq_mul_left t.settings.fanout_pos hrow

/-- Below the top of such a tree all groups are complete. -/
theorem dvd_length_row_of_power {exponent : Nat}
    (h : t.leaves.length = t.settings.fanout ^ exponent) {height : Nat}
    (hheight : height < exponent) : t.settings.fanout ∣ (t.row height).length := by
  have hexponent : exponent - height = exponent - (height + 1) + 1 := by omega
  rw [t.length_row_of_power h (Nat.le_of_lt hheight), hexponent, Nat.pow_succ']
  exact Nat.dvd_mul_right _ _

end Height

/-- Trees over the same leaves, the first with its groups filled up and the second without. -/
structure Counterparts (s : Settings) (filled plain : Tree) : Prop where
  filled_settings : filled.settings = s.withPadding true
  plain_settings : plain.settings = s.withPadding false
  leaves_eq : filled.leaves = plain.leaves

namespace Counterparts

variable {s : Settings} {filled plain : Tree} (h : Counterparts s filled plain)

include h

theorem fanout_eq : filled.settings.fanout = s.fanout := by
  rw [h.filled_settings, Settings.fanout_withPadding]

/-- Filling up groups changes no row's length. -/
theorem length_row_eq (height : Nat) : (filled.row height).length = (plain.row height).length := by
  induction height with
  | zero => exact congrArg List.length h.leaves_eq
  | succ height ih =>
      rw [length_row_succ, length_row_succ, ih, h.filled_settings, h.plain_settings]
      rfl

/-- Padding changes no depth, since a group has one parent however many of its places are taken. -/
theorem depth_eq (hne : filled.leaves ≠ []) : filled.depth = plain.depth := by
  have hplain : plain.leaves ≠ [] := h.leaves_eq ▸ hne
  apply Nat.le_antisymm
  · apply filled.depth_le_of_length_row hne (plain.depth_pos hplain)
    rw [h.length_row_eq, plain.row_depth hplain, List.length_singleton]
  · apply plain.depth_le_of_length_row hplain (filled.depth_pos hne)
    rw [← h.length_row_eq, filled.row_depth hne, List.length_singleton]

/-- Equal rows of complete groups have equal rows above them. -/
theorem row_succ_eq {height : Nat} (hrow : filled.row height = plain.row height)
    (hdvd : s.fanout ∣ (filled.row height).length) :
    filled.row (height + 1) = plain.row (height + 1) := by
  rw [row_succ, row_succ, ← hrow, h.filled_settings, h.plain_settings]
  exact parents_withPadding s height hdvd

/-- Over a power of the fanout of leaves all groups below the root are complete. -/
theorem row_eq_of_power {exponent : Nat} (hpower : filled.leaves.length = s.fanout ^ exponent)
    {height : Nat} (hheight : height ≤ exponent) : filled.row height = plain.row height := by
  induction height with
  | zero => exact h.leaves_eq
  | succ height ih =>
      have hdvd := filled.dvd_length_row_of_power (h.fanout_eq ▸ hpower) hheight
      exact h.row_succ_eq (ih (Nat.le_of_succ_le hheight)) (h.fanout_eq ▸ hdvd)

/-- Where the number of leaves is a power of the fanout, all groups are full, and padding changes
nothing. -/
theorem root_eq_of_power (hne : filled.leaves ≠ []) {exponent : Nat} (hpos : 1 ≤ exponent)
    (hpower : filled.leaves.length = s.fanout ^ exponent) : filled.root = plain.root := by
  have htop : (filled.row exponent).length = 1 := by
    rw [filled.length_row_of_power (h.fanout_eq ▸ hpower) (Nat.le_refl _), Nat.sub_self,
      Nat.pow_zero]
  have hdepth := filled.depth_le_of_length_row hne hpos htop
  have hrow := h.row_eq_of_power hpower hdepth
  rw [filled.row_depth hne, h.depth_eq hne, plain.row_depth (h.leaves_eq ▸ hne)] at hrow
  exact List.head_eq_of_cons_eq hrow

/-- Equal rows lie over equal rows of complete groups. -/
theorem row_eq_of_row_succ_eq (hne : filled.leaves ≠ [])
    (hsafe : ¬ Collision s (filled.groups ++ plain.groups)) {height : Nat}
    (hheight : height < filled.depth) (hrow : filled.row (height + 1) = plain.row (height + 1)) :
    filled.row height = plain.row height ∧ s.fanout ∣ (filled.row height).length := by
  have hleft := filled.rowGroups_subset_groups hheight
  have hright := plain.rowGroups_subset_groups (h.depth_eq hne ▸ hheight)
  rw [h.filled_settings] at hleft
  rw [h.plain_settings] at hright
  rw [row_succ, row_succ, h.filled_settings, h.plain_settings] at hrow
  apply rows_eq_of_parents_eq s height (h.length_row_eq height) _ hrow
  intro hcollision
  refine hsafe (hcollision.mono (List.append_subset.2 ⟨?_, ?_⟩))
  · exact List.subset_append_of_subset_left _ hleft
  · exact List.subset_append_of_subset_right _ hright

/-- Below equal roots the rows are equal, and each is as many times longer than the one above it as
the fanout says. -/
theorem row_eq_of_root_eq (hne : filled.leaves ≠ [])
    (hsafe : ¬ Collision s (filled.groups ++ plain.groups)) (hroot : filled.root = plain.root)
    {below : Nat} (hbelow : below ≤ filled.depth) :
    filled.row (filled.depth - below) = plain.row (filled.depth - below) ∧
      (filled.row (filled.depth - below)).length = s.fanout ^ below := by
  induction below with
  | zero =>
      rw [Nat.sub_zero, filled.row_depth hne, h.depth_eq hne, plain.row_depth (h.leaves_eq ▸ hne),
        hroot]
      exact ⟨rfl, rfl⟩
  | succ below ih =>
      obtain ⟨hrow, hlength⟩ := ih (Nat.le_of_succ_le hbelow)
      have hheight : filled.depth - below = filled.depth - (below + 1) + 1 := by omega
      rw [hheight] at hrow hlength
      obtain ⟨heq, hdvd⟩ := h.row_eq_of_row_succ_eq hne hsafe (by omega) hrow
      refine ⟨heq, ?_⟩
      rw [filled.length_row_of_dvd (h.fanout_eq ▸ hdvd), hlength, h.fanout_eq, Nat.pow_succ']

end Counterparts

/-- Hashes without the filler make a tree in either way. -/
theorem exists_counterparts {s : Settings} {hashes : List Bytes}
    (hlength : ∀ hash ∈ hashes, hash.length = hashLength) (hascending : StrictlyAscending hashes)
    (hfiller : s.emptyChild.bytes ∉ hashes) :
    ∃ filled plain, build (s.withPadding true) hashes = .ok filled ∧
      build (s.withPadding false) hashes = .ok plain ∧ Counterparts s filled plain := by
  have hbuilt (pad : Bool) : ∃ t, build (s.withPadding pad) hashes = .ok t :=
    exists_build_iff.2 ⟨⟨hlength, fun _ => hfiller⟩, hascending⟩
  obtain ⟨filled, hfilled⟩ := hbuilt true
  obtain ⟨plain, hplain⟩ := hbuilt false
  obtain ⟨hfilledSettings, hfilledLeaves⟩ := build_ok hfilled
  obtain ⟨hplainSettings, hplainLeaves⟩ := build_ok hplain
  refine ⟨filled, plain, hfilled, hplain, hfilledSettings, hplainSettings, ?_⟩
  apply List.map_injective_iff.2 (fun _ _ => Bytes32.ext)
  exact hfilledLeaves.trans hplainLeaves.symm

/-- Filling up incomplete groups leaves the root as it is when there are no leaves, or as many as a
power of the fanout says.  Over any other number of leaves it gives another root, unless two of the
byte strings that are hashed for the two trees have one digest. -/
theorem padding_changes_incomplete_roots (s : Settings) {hashes : List Bytes}
    (hlength : ∀ hash ∈ hashes, hash.length = hashLength) (hascending : StrictlyAscending hashes)
    (hfiller : s.emptyChild.bytes ∉ hashes) :
    ∃ filled plain, build (s.withPadding true) hashes = .ok filled ∧
      build (s.withPadding false) hashes = .ok plain ∧
      ((hashes.length = 0 ∨ ∃ exponent ≥ 1, hashes.length = s.fanout ^ exponent) →
        filled.root = plain.root) ∧
      (¬ (hashes.length = 0 ∨ ∃ exponent ≥ 1, hashes.length = s.fanout ^ exponent) →
        filled.root ≠ plain.root ∨ Collision s (filled.groups ++ plain.groups)) := by
  obtain ⟨filled, plain, hfilled, hplain, h⟩ := exists_counterparts hlength hascending hfiller
  have hcount : filled.leaves.length = hashes.length := by
    rw [← (build_ok hfilled).2, List.length_map]
  refine ⟨filled, plain, hfilled, hplain, ?_, ?_⟩
  · rintro (hzero | ⟨exponent, hpos, hpower⟩)
    · have hnil : filled.leaves = [] := List.length_eq_zero_iff.1 (hcount.trans hzero)
      rw [filled.root_of_leaves_eq_nil hnil, plain.root_of_leaves_eq_nil (h.leaves_eq ▸ hnil),
        h.filled_settings, h.plain_settings]
      rfl
    · have hne : filled.leaves ≠ [] := by
        apply List.ne_nil_of_length_pos
        rw [hcount, hpower]
        exact Nat.pow_pos s.fanout_pos
      exact h.root_eq_of_power hne hpos (hcount.trans hpower)
  · intro hother
    by_cases hsafe : Collision s (filled.groups ++ plain.groups)
    · exact .inr hsafe
    · left
      intro hroot
      have hne : filled.leaves ≠ [] := by
        intro hnil
        exact hother (.inl (hcount.symm.trans (List.length_eq_zero_iff.2 hnil)))
      -- From equal roots down, all rows divide into full groups, so that the leaves number a power
      -- of the fanout.
      obtain ⟨-, hpower⟩ := h.row_eq_of_root_eq hne hsafe hroot (Nat.le_refl _)
      rw [Nat.sub_self] at hpower
      exact hother (.inr ⟨filled.depth, filled.depth_pos hne, hcount.symm.trans hpower⟩)

/-- With two nodes under each parent, two leaves have one root under both choices; three leaves, of
which the last is alone in its group, have two. -/
theorem pair_keeps_root_triple_does_not :
    ((∀ hash ∈ sample.leaves.map (·.bytes), hash.length = hashLength) ∧
      StrictlyAscending (sample.leaves.map (·.bytes)) ∧
      sample.settings.emptyChild.bytes ∉ sample.leaves.map (·.bytes)) ∧
    (∃ filled plain,
      build (sample.settings.withPadding true) ((sample.leaves.take 2).map (·.bytes)) =
        .ok filled ∧
      build (sample.settings.withPadding false) ((sample.leaves.take 2).map (·.bytes)) =
        .ok plain ∧
      filled.root = plain.root) ∧
    ∃ filled plain,
      build (sample.settings.withPadding true) (sample.leaves.map (·.bytes)) = .ok filled ∧
      build (sample.settings.withPadding false) (sample.leaves.map (·.bytes)) = .ok plain ∧
      (filled.root ≠ plain.root ∨ Collision sample.settings (filled.groups ++ plain.groups)) := by
  have hlength (leaves : List Bytes32) : ∀ hash ∈ leaves.map (·.bytes),
      hash.length = hashLength := List.forall_mem_map.2 fun leaf _ => leaf.length_bytes
  have htriple : ¬ (3 = 0 ∨ ∃ exponent ≥ 1, 3 = 2 ^ exponent) := by
    rintro (h | ⟨exponent, hpos, h⟩)
    · cases h
    · obtain ⟨half, rfl⟩ := Nat.exists_eq_add_one.2 hpos
      rw [Nat.pow_succ] at h
      omega
  refine ⟨⟨hlength _, by decide, by decide⟩, ?_, ?_⟩
  · obtain ⟨filled, plain, hfilled, hplain, hsame, -⟩ := padding_changes_incomplete_roots
      sample.settings (hlength (sample.leaves.take 2)) (by decide) (by decide)
    exact ⟨filled, plain, hfilled, hplain, hsame (.inr ⟨1, Nat.le_refl 1, rfl⟩)⟩
  · obtain ⟨filled, plain, hfilled, hplain, -, hother⟩ := padding_changes_incomplete_roots
      sample.settings (hlength sample.leaves) (by decide) (by decide)
    exact ⟨filled, plain, hfilled, hplain, hother htriple⟩

end Tree

end SlotEvidence
