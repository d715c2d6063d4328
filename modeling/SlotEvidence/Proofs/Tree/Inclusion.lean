/-
Module: SlotEvidence.Proofs.Tree.Inclusion
Purpose: Paths against the root of a tree.  A path is followed from the root down: as long as the
  hash function is not broken, each of its groups is the group of the tree that ends in the same
  node, so that the path is the one the tree itself makes for one of its leaves.
Trusted boundary: none
Main exports: Tree.level_of_preimage_eq, Tree.exists_leaf_of_climb_eq, Tree.climb_of_upToFillers,
  Tree.accepted_paths_are_honest
-/
import SlotEvidence.Proofs.HashBreak
import SlotEvidence.Proofs.Tree.Path
import SlotEvidence.Proofs.Tree.PathLevels
import SlotEvidence.Proofs.Tree.Search

namespace SlotEvidence

namespace Level

variable {s : Settings} {level : Level}

/-- The node stands at its place among the children. -/
theorem getElem?_children (node : Bytes) (h : level.index ≤ level.siblings.length) :
    (level.children node)[level.index]? = some node := by
  have hlength : (level.siblings.take level.index).length = level.index := by
    rw [List.length_take, Nat.min_eq_left h]
  rw [children, List.getElem?_append_right (Nat.le_of_eq hlength), hlength, Nat.sub_self]
  rfl

/-- The siblings are the other children. -/
theorem eraseIdx_children (node : Bytes) (h : level.index ≤ level.siblings.length) :
    (level.children node).eraseIdx level.index = level.siblings := by
  have hlength : (level.siblings.take level.index).length = level.index := by
    rw [List.length_take, Nat.min_eq_left h]
  rw [children, List.eraseIdx_append_of_length_le (Nat.le_of_eq hlength), hlength, Nat.sub_self,
    List.eraseIdx_cons_zero, List.take_append_drop]

theorem length_of_mem_children {node : Bytes} (h : level.WellFormed s)
    (hnode : node.length = hashLength) :
    ∀ c ∈ level.children node, c.length = hashLength := by
  intro c hc
  rcases List.mem_append.1 hc with hc | hc
  · exact h.siblings_hash c (List.mem_of_mem_take hc)
  · rcases List.mem_cons.1 hc with rfl | hc
    · exact hnode
    · exact h.siblings_hash c (List.mem_of_mem_drop hc)

end Level

namespace Tree

/-! ### From a node down

What is hashed for a group fixes its height and its children.  Without a break, a path that leads to
the root must run through the groups of the tree, from the root down to a leaf. -/

section Descent

variable {s : Settings}

/-- If a level with a node put in is hashed as a real group is, then both are groups of leaves or
neither is, the node is the member of the real group at its place, and the siblings are the other
members, with fillers at the end perhaps. -/
theorem level_of_preimage_eq {real : List Bytes} {level : Level} {node : Bytes} {height other : Nat}
    (hlevel : level.WellFormed s) (hnode : node.length = hashLength)
    (hnoFiller : s.padPartialGroups = true → node ≠ s.emptyChild.bytes)
    (hreal : ∀ c ∈ real, c.length = hashLength)
    (hrealNoFiller : s.padPartialGroups = true → s.emptyChild.bytes ∉ real)
    (h : groupPreimage s height real = groupPreimage s other (level.children node)) :
    (height = 0 ↔ other = 0) ∧ real[level.index]? = some node ∧
      Level.UpToFillers s ⟨real.eraseIdx level.index, level.index⟩ level := by
  obtain ⟨htag, hgroup⟩ := groupPreimage_inj hreal (Level.length_of_mem_children hlevel hnode) h
  obtain ⟨count, hchildren, hcount⟩ := exists_fillers_of_padGroup_eq hrealNoFiller hgroup
  have hat : (real ++ List.replicate count s.emptyChild.bytes)[level.index]? = some node := by
    rw [← hchildren]
    exact Level.getElem?_children node hlevel.index_le
  -- past the members of the real group there are fillers only, and the node is none
  have hlt : level.index < real.length := by
    apply Decidable.byContradiction
    intro hge
    rw [List.getElem?_append_right (Nat.not_lt.1 hge)] at hat
    have hmem := List.mem_of_getElem? hat
    rcases hcount with rfl | hpad
    · simp at hmem
    · exact hnoFiller hpad (List.eq_of_mem_replicate hmem)
  refine ⟨htag, ?_, rfl, hlevel.siblings_lt, count, ?_, hcount⟩
  · rwa [List.getElem?_append_left hlt] at hat
  · rw [← Level.eraseIdx_children node hlevel.index_le, hchildren,
      List.eraseIdx_append_of_lt_length hlt]

end Descent

section Sound

variable (t : Tree) {groups others : List Bytes}

/-- No leaf is the filler of incomplete groups, and another node is it only as the digest of its
group. -/
theorem fillerDigest_of_mem_row (hpad : t.settings.padPartialGroups = true) {height : Nat}
    (hheight : height ≤ t.depth) (h : t.settings.emptyChild ∈ t.row height) :
    FillerDigest t.settings t.groups := by
  cases height with
  | zero => exact absurd rfl (t.noFiller _ h hpad)
  | succ height => exact ⟨hpad, t.exists_digest_of_mem_row hheight h⟩

/-- Without a break, no node of a tree is the filler of incomplete groups. -/
theorem emptyChild_not_mem_group (hsafe : ¬ HashBreak t.settings groups others)
    (htree : t.groups ⊆ groups) (hpad : t.settings.padPartialGroups = true) {height : Nat}
    (hheight : height ≤ t.depth) (place : Nat) :
    t.settings.emptyChild.bytes ∉ t.group height place := by
  intro h
  obtain ⟨node, hnode, hbytes⟩ := List.mem_map.1 (mem_of_mem_sliceAt _ h)
  obtain rfl : node = t.settings.emptyChild := Bytes32.ext hbytes
  exact hsafe (.inr ((t.fillerDigest_of_mem_row hpad hheight hnode).mono htree))

/-- Without a break, no levels lead from another hash to the filler of incomplete groups. -/
theorem climb_ne_emptyChild (hsafe : ¬ HashBreak t.settings groups others)
    (hpad : t.settings.padPartialGroups = true) {leaf : Bytes}
    (hleaf : leaf ≠ t.settings.emptyChild.bytes) {levels : List Level}
    (hgroups : Path.groupsFrom t.settings 0 leaf levels ⊆ groups) :
    Path.climb t.settings 0 leaf levels ≠ t.settings.emptyChild.bytes := by
  by_cases hnil : levels = []
  · rw [hnil]
    exact hleaf
  · obtain ⟨group, hgroup, hdigest⟩ := Path.exists_digest_of_climb t.settings 0 leaf hnil
    rw [hdigest]
    intro h
    exact digest_ne_emptyChild hsafe hpad (hgroups hgroup) (Bytes32.ext h)

/-- The members of a group are nodes of the row in which the group lies. -/
theorem exists_node_of_getElem?_group {height place index : Nat} {x : Bytes}
    (h : (t.group height place)[index]? = some x) :
    ∃ below child, below / t.settings.fanout = place ∧ below % t.settings.fanout = index ∧
      (t.row height)[below]? = some child ∧ child.bytes = x := by
  rw [group, getElem?_sliceAt] at h
  split at h
  · rename_i hindex
    rw [List.getElem?_map, Option.map_eq_some_iff] at h
    obtain ⟨child, hrow, hbytes⟩ := h
    refine ⟨place * t.settings.fanout + index, child, ?_, ?_, hrow, hbytes⟩
    · rw [Nat.mul_comm, Nat.mul_add_div t.settings.fanout_pos, Nat.div_eq_of_lt hindex,
        Nat.add_zero]
    · rw [Nat.mul_comm, Nat.mul_add_mod, Nat.mod_eq_of_lt hindex]
  · cases h

/-- Without a break, the last level on the way to a node above the leaves is the group of the node,
up to fillers, and what the levels before it lead to is a child of the node. -/
theorem exists_child_of_climb_eq (hsafe : ¬ HashBreak t.settings groups others)
    (htree : t.groups ⊆ groups) {leaf : Bytes} (hleaf : leaf.length = hashLength)
    (hnoFiller : t.settings.padPartialGroups = true → leaf ≠ t.settings.emptyChild.bytes)
    {height place : Nat} {lower : List Level} {top : Level} {node : Bytes32}
    (hheight : height < t.depth) (htop : top.WellFormed t.settings)
    (hgroups : Path.groupsFrom t.settings 0 leaf (lower ++ [top]) ⊆ groups)
    (hnode : (t.row (height + 1))[place]? = some node)
    (hclimb : Path.climb t.settings 0 leaf (lower ++ [top]) = node.bytes) :
    (height = 0 ↔ lower = []) ∧ ∃ below child, below / t.settings.fanout = place ∧
      (t.row height)[below]? = some child ∧
      Path.climb t.settings 0 leaf lower = child.bytes ∧
      Level.UpToFillers t.settings
        (Level.inRow t.settings.fanout ((t.row height).map (·.bytes)) below) top := by
  rw [Path.groupsFrom_concat, Nat.zero_add, List.append_subset] at hgroups
  obtain ⟨hlowerGroups, htopGroup⟩ := hgroups
  -- the node is the digest of its own group, and of the last group on the path
  rw [t.getElem?_row_succ] at hnode
  split at hnode
  · rename_i hplace
    cases hnode
    rw [Path.climb_concat, Nat.zero_add] at hclimb
    have hdigest : t.settings.digest (groupPreimage t.settings height (t.group height place)) =
        t.settings.digest (groupPreimage t.settings lower.length
          (top.children (Path.climb t.settings 0 leaf lower))) := Bytes32.ext hclimb.symm
    have hpreimage := eq_of_digest_eq hsafe
      (List.mem_append_left _ (htree (t.groupPreimage_mem_groups hheight hplace)))
      (List.mem_append_left _ (htopGroup (List.mem_singleton.2 rfl))) hdigest
    obtain ⟨htag, hat, hfillers⟩ := level_of_preimage_eq htop
      (Path.length_climb t.settings 0 hleaf lower)
      (fun hpad => t.climb_ne_emptyChild hsafe hpad (hnoFiller hpad) hlowerGroups)
      t.length_of_mem_group
      (fun hpad => t.emptyChild_not_mem_group hsafe htree hpad (Nat.le_of_lt hheight) place)
      hpreimage
    rw [List.length_eq_zero_iff] at htag
    obtain ⟨below, child, hdiv, hmod, hrow, hbytes⟩ := t.exists_node_of_getElem?_group hat
    refine ⟨htag, below, child, hdiv, hrow, hbytes.symm, ?_⟩
    rw [Level.inRow, hdiv, hmod]
    exact hfillers
  · cases hnode

/-- Without a break, levels that lead from a hash to a node above the leaves are those of the path
of a leaf under the node, up to fillers, and the hash is the leaf. -/
theorem exists_leaf_of_climb_eq (hsafe : ¬ HashBreak t.settings groups others)
    (htree : t.groups ⊆ groups) {leaf : Bytes} (hleaf : leaf.length = hashLength)
    (hnoFiller : t.settings.padPartialGroups = true → leaf ≠ t.settings.emptyChild.bytes)
    {height : Nat} (hheight : height ≤ t.depth) (hpos : 0 < height) {place : Nat}
    {levels : List Level} {node : Bytes32} (hne : levels ≠ [])
    (hlevels : ∀ level ∈ levels, level.WellFormed t.settings)
    (hgroups : Path.groupsFrom t.settings 0 leaf levels ⊆ groups)
    (hnode : (t.row height)[place]? = some node)
    (hclimb : Path.climb t.settings 0 leaf levels = node.bytes) :
    ∃ i b, t.leaves[i]? = some b ∧ b.bytes = leaf ∧
      ancestor t.settings.fanout height i = place ∧
      List.Forall₂ (Level.UpToFillers t.settings)
        ((List.range height).map (t.honestLevel i)) levels := by
  induction height generalizing place levels node with
  | zero => exact absurd hpos (Nat.lt_irrefl 0)
  | succ height ih =>
      obtain rfl | ⟨lower, top, rfl⟩ := List.eq_nil_or_concat' levels
      · exact absurd rfl hne
      obtain ⟨hbottom, below, child, hplace, hchild, hlowerClimb, htop⟩ :=
        t.exists_child_of_climb_eq hsafe htree hleaf hnoFiller hheight (hlevels top (by simp))
          hgroups hnode hclimb
      rw [Path.groupsFrom_concat, List.append_subset] at hgroups
      cases height with
      | zero =>
          -- the tag of leaves: the path ends here just as the tree does
          obtain rfl := hbottom.1 rfl
          exact ⟨below, child, hchild, hlowerClimb.symm, hplace, .cons htop .nil⟩
      | succ height =>
          have hlowerNe : lower ≠ [] := fun hnil => absurd (hbottom.2 hnil) (Nat.succ_ne_zero _)
          obtain ⟨i, b, hb, hbytes, hancestor, hlower⟩ :=
            ih (Nat.le_of_succ_le hheight) (Nat.succ_pos _) hlowerNe
              (fun level hlevel => hlevels level (List.mem_append_left _ hlevel)) hgroups.1 hchild
              hlowerClimb
          refine ⟨i, b, hb, hbytes, ?_, ?_⟩
          · rw [ancestor_succ, hancestor, hplace]
          · rw [List.range_succ, List.map_append]
            refine forall₂_concat_iff.2 ⟨lower, top, rfl, hlower, ?_⟩
            rw [honestLevel, hancestor]
            exact htop

/-- Without a break, a path of the right form that leads to the root of a tree is the path of one of
its leaves, up to fillers. -/
theorem exists_leaf_of_root_eq (hsafe : ¬ HashBreak t.settings groups others)
    (htree : t.groups ⊆ groups) (hempty : [] ∈ groups ++ others) {p : Path}
    (hpath : p.groups t.settings ⊆ groups) (hdefect : p.defect? t.settings = none)
    (hroot : p.root t.settings = t.root.bytes) :
    ∃ i b, t.leaves[i]? = some b ∧ (t.path b i).UpToFillers t.settings p := by
  obtain ⟨hleaf, hnoFiller, hne, hlevels⟩ := Path.defect?_eq_none_iff.1 hdefect
  by_cases hnil : t.leaves = []
  · -- the digest of the empty byte string is not the one of a group
    obtain ⟨group, hgroup, hdigest⟩ := Path.exists_digest_of_climb t.settings 0 p.leaf hne
    have hsame : t.settings.digest group = t.settings.digest [] := by
      rw [← t.root_of_leaves_eq_nil hnil]
      exact Bytes32.ext (hdigest.symm.trans hroot)
    have hgroupNil := eq_of_digest_eq hsafe (List.mem_append_left _ (hpath hgroup)) hempty hsame
    exact absurd hgroupNil (Path.ne_nil_of_mem_groupsFrom t.settings hgroup)
  · have htop : (t.row t.depth)[0]? = some t.root := by
      rw [t.row_depth hnil]
      rfl
    obtain ⟨i, b, hb, hbytes, -, hforall⟩ := t.exists_leaf_of_climb_eq hsafe htree hleaf hnoFiller
      (Nat.le_refl _) (t.depth_pos hnil) hne hlevels hpath htop hroot
    refine ⟨i, b, hb, hbytes.symm, ?_⟩
    rw [t.levels_path hnil]
    exact hforall

end Sound

/-! ### From a leaf up

A path of the tree leads to the root even if it lists the fillers of its groups as siblings. -/

section Complete

variable (t : Tree)

/-- The levels of a leaf's path lead to the ancestors of the leaf, also if they list fillers. -/
theorem climb_of_upToFillers {place : Nat} {b : Bytes32} (hb : t.leaves[place]? = some b)
    {height : Nat} {levels : List Level}
    (h : List.Forall₂ (Level.UpToFillers t.settings)
      ((List.range height).map (t.honestLevel place)) levels) :
    ∃ node, (t.row height)[ancestor t.settings.fanout height place]? = some node ∧
      Path.climb t.settings 0 b.bytes levels = node.bytes := by
  have hplace : place < t.leaves.length := (List.getElem?_eq_some_iff.1 hb).1
  induction height generalizing levels with
  | zero =>
      cases h
      exact ⟨b, hb, rfl⟩
  | succ height ih =>
      rw [List.range_succ, List.map_append] at h
      obtain ⟨lower, top, rfl, hlower, htop⟩ := forall₂_concat_iff.1 h
      obtain ⟨node, hnode, hclimb⟩ := ih hlower
      have hlength : lower.length = height := by
        have := hlower.length_eq
        simpa using this.symm
      have hparent := htop.parent_eq (index_honestLevel_le height hplace) height node.bytes
      refine ⟨_, t.getElem?_row_ancestor hplace height, ?_⟩
      rw [Path.climb_concat, Nat.zero_add, hlength, hclimb, hparent, Level.parent, hashGroup,
        t.children_honestLevel hnode]

/-- The path of a leaf has the right form, also if it lists fillers. -/
theorem defect?_of_upToFillers {place : Nat} {b : Bytes32} (hb : t.leaves[place]? = some b)
    {p : Path} (h : (t.path b place).UpToFillers t.settings p) : p.defect? t.settings = none := by
  have hplace : place < t.leaves.length := (List.getElem?_eq_some_iff.1 hb).1
  have hnil : t.leaves ≠ [] := List.ne_nil_of_length_pos (Nat.zero_lt_of_lt hplace)
  have hforall := h.levels
  rw [t.levels_path hnil] at hforall
  rw [Path.defect?_eq_none_iff, h.leaf_eq]
  refine ⟨b.length_bytes, ?_, ?_, ?_⟩
  · intro hpad hfiller
    exact t.noFiller b (List.mem_of_getElem? hb) hpad (Bytes32.ext hfiller)
  · intro hlevels
    have hlength := hforall.length_eq
    rw [hlevels, List.length_map, List.length_range] at hlength
    exact absurd hlength (Nat.ne_of_gt (t.depth_pos hnil))
  · intro level hlevel
    obtain ⟨honest, hmem, hup⟩ := exists_of_mem_forall₂_right hforall hlevel
    obtain ⟨height, -, rfl⟩ := List.mem_map.1 hmem
    apply hup.wellFormed (index_honestLevel_le height hplace)
    intro x hx
    exact t.length_of_mem_group x (t.mem_group_of_mem_siblings height hx)

/-- The path of a leaf leads to the root, also if it lists fillers. -/
theorem root_of_upToFillers {place : Nat} {b : Bytes32} (hb : t.leaves[place]? = some b) {p : Path}
    (h : (t.path b place).UpToFillers t.settings p) : p.root t.settings = t.root.bytes := by
  have hplace : place < t.leaves.length := (List.getElem?_eq_some_iff.1 hb).1
  have hnil : t.leaves ≠ [] := List.ne_nil_of_length_pos (Nat.zero_lt_of_lt hplace)
  have hforall := h.levels
  rw [t.levels_path hnil] at hforall
  obtain ⟨node, hnode, hclimb⟩ := t.climb_of_upToFillers hb hforall
  rw [t.row_depth hnil, List.getElem?_singleton] at hnode
  split at hnode
  · cases hnode
    rw [Path.root, h.leaf_eq]
    exact hclimb
  · cases hnode

/-- The levels of a leaf's path are themselves, up to fillers. -/
theorem forall₂_honestLevel_refl {place : Nat} (hplace : place < t.leaves.length) (rows : Nat) :
    List.Forall₂ (Level.UpToFillers t.settings) ((List.range rows).map (t.honestLevel place))
      ((List.range rows).map (t.honestLevel place)) := by
  rw [List.forall₂_same]
  intro level hlevel
  obtain ⟨height, -, rfl⟩ := List.mem_map.1 hlevel
  exact Level.UpToFillers.refl (length_siblings_honestLevel_lt height hplace)

/-- A path that was made is itself up to fillers, since it leaves room for the node. -/
theorem upToFillers_refl {place : Nat} {b : Bytes32} (hb : t.leaves[place]? = some b) :
    (t.path b place).UpToFillers t.settings (t.path b place) := by
  have hplace : place < t.leaves.length := (List.getElem?_eq_some_iff.1 hb).1
  have hnil : t.leaves ≠ [] := List.ne_nil_of_length_pos (Nat.zero_lt_of_lt hplace)
  refine ⟨rfl, ?_⟩
  rw [t.levels_path hnil]
  exact t.forall₂_honestLevel_refl hplace t.depth

end Complete

/-! ### Paths against the root

The two directions together: the paths that are accepted are those of the tree, up to listed
fillers. -/

/-- A path is accepted against the root of a tree if it is the path that the tree makes for one of
its leaves, up to fillers that are listed at the end of its levels.  No other path is accepted
unless the hash function is broken by what was hashed for the tree and for the path. -/
theorem accepted_paths_are_honest {s : Settings} {leaves : List Bytes} {t : Tree}
    (h : build s leaves = .ok t) (p : Path) :
    ((∃ leaf ∈ leaves, ∃ honest, t.proveInclusion leaf = .ok honest ∧ honest.UpToFillers s p) →
      (p.verify s t.root.bytes).ok = true) ∧
    ((p.verify s t.root.bytes).ok = true →
      (∃ leaf ∈ leaves, ∃ honest, t.proveInclusion leaf = .ok honest ∧
        honest.UpToFillers s p) ∨
      HashBreak s (t.groups ++ p.groups s) [[]]) := by
  obtain ⟨rfl, rfl⟩ := build_ok h
  constructor
  · rintro ⟨leaf, hleaf, honest, hprove, hup⟩
    obtain ⟨b, hb, rfl⟩ := List.mem_map.1 hleaf
    obtain ⟨place, hplace⟩ := List.getElem?_of_mem hb
    rw [t.proveInclusion_of_getElem? hplace] at hprove
    cases hprove
    exact Path.verify_ok_iff.2 ⟨t.defect?_of_upToFillers hplace hup,
      t.root_of_upToFillers hplace hup⟩
  · intro hok
    obtain ⟨hdefect, hroot⟩ := Path.verify_ok_iff.1 hok
    by_cases hsafe : HashBreak t.settings (t.groups ++ p.groups t.settings) [[]]
    · exact .inr hsafe
    · left
      obtain ⟨place, b, hb, hup⟩ := t.exists_leaf_of_root_eq hsafe (List.subset_append_left _ _)
        (by simp) (List.subset_append_right _ _) hdefect hroot
      exact ⟨b.bytes, List.mem_map.2 ⟨b, List.mem_of_getElem? hb, rfl⟩, t.path b place,
        t.proveInclusion_of_getElem? hb, hup⟩

/-- The hash that has one byte everywhere. -/
def uniform (b : UInt8) : Bytes32 := ⟨List.replicate hashLength b, List.length_replicate⟩

/-- Three leaves with two nodes under each parent, so that the last group of leaves is filled up. -/
def sample : Tree where
  settings := { Settings.standard with fanout := 2, two_le_fanout := Nat.le_refl 2 }
  leaves := [uniform 1, uniform 2, uniform 4]
  ascending := ⟨rfl, rfl, trivial⟩
  noFiller := by decide
  rows := _
  rows_eq := rfl

/-- The paths that are accepted against the root of a small tree. -/
theorem sample_accepts_honest_paths :
    build sample.settings (sample.leaves.map (·.bytes)) = .ok sample ∧
      ∀ p, (p.verify sample.settings sample.root.bytes).ok = true →
        (∃ leaf ∈ sample.leaves.map (·.bytes), ∃ honest,
          sample.proveInclusion leaf = .ok honest ∧ honest.UpToFillers sample.settings p) ∨
        HashBreak sample.settings (sample.groups ++ p.groups sample.settings) [[]] :=
  ⟨build_leaves sample, fun p => (accepted_paths_are_honest (build_leaves sample) p).2⟩

end Tree

end SlotEvidence
