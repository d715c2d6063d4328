/-
Module: SlotEvidence.Proofs.Tree.Binding
Purpose: The root of a tree fixes its leaves.  The path of each leaf of one tree leads to the common
  root, so that the leaf is found again in the other tree, and ascending lists with the same members
  are equal.
Trusted boundary: none
Main exports: Tree.groups_path_subset, Tree.mem_leaves_of_root_eq, Tree.eq_of_mem_iff,
  Tree.leaves_eq_of_root_eq
-/
import SlotEvidence.Proofs.Tree.Building
import SlotEvidence.Proofs.Tree.Inclusion

namespace SlotEvidence

namespace Tree

/-! ### What an honest path hashes

The groups along a path of the tree are groups of the tree. -/

section Groups

variable (t : Tree)

/-- The levels of a leaf's path hash groups of the tree only. -/
theorem groupsFrom_honestLevels_subset {place : Nat} {b : Bytes32} (hb : t.leaves[place]? = some b)
    {height : Nat} (hheight : height ≤ t.depth) :
    Path.groupsFrom t.settings 0 b.bytes ((List.range height).map (t.honestLevel place)) ⊆
      t.groups := by
  have hplace : place < t.leaves.length := (List.getElem?_eq_some_iff.1 hb).1
  induction height with
  | zero => exact List.nil_subset _
  | succ height ih =>
      obtain ⟨node, hnode, hclimb⟩ :=
        t.climb_of_upToFillers hb (t.forall₂_honestLevel_refl hplace height)
      rw [List.range_succ, List.map_append, List.map_singleton, Path.groupsFrom_concat,
        List.length_map, List.length_range, Nat.zero_add, hclimb, t.children_honestLevel hnode]
      apply List.append_subset.2
      refine ⟨ih (Nat.le_of_succ_le hheight), ?_⟩
      intro group hgroup
      rw [List.mem_singleton.1 hgroup]
      exact t.groupPreimage_mem_groups hheight (t.ancestor_mul_lt_length hplace height)

/-- What is hashed on the path of a leaf was hashed when the tree was built. -/
theorem groups_path_subset {place : Nat} {b : Bytes32} (hb : t.leaves[place]? = some b) :
    (t.path b place).groups t.settings ⊆ t.groups := by
  rw [Path.groups, t.levels_path (List.ne_nil_of_mem (List.mem_of_getElem? hb))]
  exact t.groupsFrom_honestLevels_subset hb (Nat.le_refl _)

end Groups

/-! ### Ascending lists -/

theorem Ascending.nodup {leaves : List Bytes32} (h : Ascending leaves) : leaves.Nodup :=
  (List.pairwise_map.1 (strictlyAscending_map_bytes.2 h).nodup).imp fun hne heq =>
    hne (congrArg Bytes32.bytes heq)

/-- Ascending lists with the same members are equal. -/
theorem eq_of_mem_iff {xs ys : List Bytes32} (hxs : Ascending xs) (hys : Ascending ys)
    (h : ∀ b, b ∈ xs ↔ b ∈ ys) : xs = ys := by
  have hperm : xs.Perm ys := (List.perm_ext_iff_of_nodup hxs.nodup hys.nodup).2 h
  apply List.map_injective_iff.2 (fun _ _ => Bytes32.ext)
  exact (strictlyAscending_map_bytes.2 hxs).eq_of_perm (strictlyAscending_map_bytes.2 hys)
    (hperm.map _)

/-! ### Trees with one root

Without a break, every leaf of one tree is a leaf of the other: its path leads to the root of both.
-/

section Roots

variable {s : Settings} {groups others : List Bytes} {t u : Tree}

/-- Without a break, a leaf of a tree is a leaf of every tree that has the same root. -/
theorem mem_leaves_of_root_eq (hsafe : ¬ HashBreak s groups others) (hempty : [] ∈ groups ++ others)
    (ht : t.settings = s) (hu : u.settings = s) (htree : t.groups ⊆ groups)
    (hother : u.groups ⊆ groups) (hroot : t.root = u.root) {b : Bytes32} (hb : b ∈ t.leaves) :
    b ∈ u.leaves := by
  subst hu
  obtain ⟨place, hplace⟩ := List.getElem?_of_mem hb
  have hself := t.upToFillers_refl hplace
  have hdefect := t.defect?_of_upToFillers hplace hself
  have hclimb := t.root_of_upToFillers hplace hself
  have hpath := List.Subset.trans (t.groups_path_subset hplace) htree
  rw [ht] at hdefect hclimb hpath
  -- the path of the leaf in one tree is now a path to the root of the other
  rw [hroot] at hclimb
  obtain ⟨i, c, hc, hup⟩ := u.exists_leaf_of_root_eq hsafe hother hempty hpath hdefect hclimb
  have hleaf : b = c := Bytes32.ext hup.leaf_eq
  rw [hleaf]
  exact List.mem_of_getElem? hc

/-- The root of a tree commits to its leaves: trees with one root have the same leaves, whatever
their sizes and depths, unless the hash function is broken by what was hashed when they were
built. -/
theorem leaves_eq_of_root_eq {xs ys : List Bytes} (ht : build s xs = .ok t)
    (hu : build s ys = .ok u) (hroot : t.root = u.root) :
    xs = ys ∨ HashBreak s (t.groups ++ u.groups) [[]] := by
  obtain ⟨hts, rfl⟩ := build_ok ht
  obtain ⟨hus, rfl⟩ := build_ok hu
  by_cases hsafe : HashBreak s (t.groups ++ u.groups) [[]]
  · exact .inr hsafe
  · left
    have hleft : t.groups ⊆ t.groups ++ u.groups := List.subset_append_left _ _
    have hright : u.groups ⊆ t.groups ++ u.groups := List.subset_append_right _ _
    have hempty : [] ∈ t.groups ++ u.groups ++ [[]] := by simp
    have hleaves : t.leaves = u.leaves := by
      apply eq_of_mem_iff t.ascending u.ascending
      intro b
      constructor
      · intro hb
        exact mem_leaves_of_root_eq hsafe hempty hts hus hleft hright hroot hb
      · intro hb
        exact mem_leaves_of_root_eq hsafe hempty hus hts hright hleft hroot.symm hb
    rw [hleaves]

/-- What the root of a small tree tells about the leaves of any other tree with this root. -/
theorem sample_root_commits :
    build sample.settings (sample.leaves.map (·.bytes)) = .ok sample ∧
      build sample.settings (sample.leaves.map (·.bytes)) = .ok sample ∧
      sample.root = sample.root ∧
      (sample.leaves.map (·.bytes) = sample.leaves.map (·.bytes) ∨
        HashBreak sample.settings (sample.groups ++ sample.groups) [[]]) :=
  ⟨build_leaves sample, build_leaves sample, rfl,
    leaves_eq_of_root_eq (build_leaves sample) (build_leaves sample) rfl⟩

end Roots

end Tree

end SlotEvidence
