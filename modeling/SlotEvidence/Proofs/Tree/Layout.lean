/-
Module: SlotEvidence.Proofs.Tree.Layout
Purpose: How the rows of a tree lie above its leaves: every row holds the parents of the row below,
  the last one holds the root alone, and a node above the leaves is the digest of a group that was
  hashed when the tree was built.
Trusted boundary: none
Main exports: Tree.row, Tree.rows_eq_map_row, Tree.row_depth, Tree.depth_le_of_length_row,
  Tree.groups, Tree.getElem?_row_succ, Tree.build_ok
-/
import SlotEvidence.Proofs.Outcome
import SlotEvidence.Proofs.Bytes
import SlotEvidence.Tree

namespace SlotEvidence

namespace Tree

/-! ### Rows above a row

A row is hashed group by group until one node is left. -/

section Rows

variable (s : Settings) (height : Nat)

/-- The row that lies a number of rows above a row of nodes of the given height. -/
def rowAbove (row : List Bytes32) : (count : Nat) → List Bytes32
  | 0 => row
  | count + 1 => parents s (height + count) (rowAbove row count)

/-- The row so many above the parents is the row one more above their children. -/
theorem rowAbove_parents (row : List Bytes32) (count : Nat) :
    rowAbove s (height + 1) (parents s height row) count = rowAbove s height row (count + 1) := by
  induction count with
  | zero => rfl
  | succ count ih =>
      have hheight : height + 1 + count = height + (count + 1) := by omega
      rw [rowAbove, ih, hheight]
      rfl

/-- The byte strings that are hashed for the parents of a row. -/
def rowGroups (row : List Bytes32) : List Bytes :=
  (slices s.fanout s.fanout_pos row).map fun group =>
    groupPreimage s height (group.map (·.bytes))

/-- The parents of a row are the digests of what is hashed for them. -/
theorem parents_eq_map_digest (row : List Bytes32) :
    parents s height row = (rowGroups s height row).map s.digest := by
  simp [parents, rowGroups, hashGroup]

/-- A row has a parent for each of its slices. -/
theorem getElem?_rowGroups (row : List Bytes32) (number : Nat) :
    (rowGroups s height row)[number]? =
      if number * s.fanout < row.length then
        some (groupPreimage s height (sliceAt s.fanout (row.map (·.bytes)) number))
      else none := by
  rw [rowGroups, List.getElem?_map, getElem?_slices]
  by_cases h : number * s.fanout < row.length
  · simp only [if_pos h, Option.map_some, map_sliceAt]
  · simp only [if_neg h, Option.map_none]

theorem length_parents (row : List Bytes32) :
    (parents s height row).length = (row.length + s.fanout - 1) / s.fanout := by
  rw [parents, List.length_map, length_slices]

theorem parents_ne_nil {row : List Bytes32} (h : row ≠ []) : parents s height row ≠ [] := by
  have hrow : 0 < row.length := List.length_pos_iff.2 h
  have hpos : 0 < (parents s height row).length := by
    rw [length_parents]
    exact Nat.div_pos (by omega) s.fanout_pos
  exact List.ne_nil_of_length_pos hpos

/-- The rows above a row are its parents, their parents and so on, and the last of them is the first
that holds a single node. -/
theorem rowsAbove_eq_map {row : List Bytes32} (h : row ≠ []) :
    ∃ count, rowsAbove s height row =
        (List.range (count + 1)).map (fun number => rowAbove s height row (number + 1)) ∧
      (rowAbove s height row (count + 1)).length = 1 := by
  fun_induction rowsAbove s height row with
  | case1 height row hmore ih =>
      obtain ⟨count, hrows, hlast⟩ := ih (parents_ne_nil s height h)
      refine ⟨count + 1, ?_, ?_⟩
      · rw [hrows, List.range_succ_eq_map (n := count + 1), List.map_cons, List.map_map]
        simp only [rowAbove_parents, Function.comp_def]
        rfl
      · rw [rowAbove_parents] at hlast
        exact hlast
  | case2 height row hsingle =>
      refine ⟨0, rfl, ?_⟩
      have hpos : 0 < (parents s height row).length :=
        List.length_pos_iff.2 (parents_ne_nil s height h)
      change (parents s height row).length = 1
      omega

/-- Of the rows above a row all but the last hold more than one node. -/
theorem one_lt_length_rowAbove (row : List Bytes32) {number : Nat}
    (h : number + 1 < (rowsAbove s height row).length) :
    1 < (rowAbove s height row (number + 1)).length := by
  fun_induction rowsAbove s height row generalizing number with
  | case1 height row hmore ih =>
      cases number with
      | zero => exact hmore
      | succ number =>
          rw [← rowAbove_parents]
          exact ih (Nat.lt_of_succ_lt_succ h)
  | case2 height row hsingle =>
      rw [List.length_singleton] at h
      omega

end Rows

/-! ### Rows of a tree

The same by height, with the leaves at height zero. -/

section RowsOfTree

variable (t : Tree)

/-- The row of a tree at a height. -/
def row (height : Nat) : List Bytes32 := rowAbove t.settings 0 t.leaves height

theorem row_succ (height : Nat) :
    t.row (height + 1) = parents t.settings height (t.row height) := by
  change parents t.settings (0 + height) (t.row height) = _
  rw [Nat.zero_add]

/-- A row has one node for each group of the row below, the last of which may not be full. -/
theorem length_row_succ (height : Nat) :
    (t.row (height + 1)).length =
      ((t.row height).length + t.settings.fanout - 1) / t.settings.fanout := by
  rw [row_succ, length_parents]

/-- The row above the leaves up to the first one with a single node are the rows of the tree. -/
theorem exists_rows_eq (h : t.leaves ≠ []) :
    ∃ count, t.rows = (List.range (count + 2)).map t.row ∧ (t.row (count + 1)).length = 1 := by
  obtain ⟨count, hrows, hlast⟩ := rowsAbove_eq_map t.settings 0 h
  refine ⟨count, ?_, hlast⟩
  rw [t.rows_eq, rowsOf, if_neg h, hrows, List.range_succ_eq_map (n := count + 1), List.map_cons,
    List.map_map]
  rfl

/-- There is a row of parents above the leaves, even above a single one. -/
theorem depth_pos (h : t.leaves ≠ []) : 0 < t.depth := by
  obtain ⟨count, hrows, -⟩ := t.exists_rows_eq h
  simp [depth, hrows]

/-- The rows of a tree are those up to its depth. -/
theorem rows_eq_map_row (h : t.leaves ≠ []) :
    t.rows = (List.range (t.depth + 1)).map t.row := by
  obtain ⟨count, hrows, -⟩ := t.exists_rows_eq h
  have hdepth : t.depth = count + 1 := by simp [depth, hrows]
  rw [hdepth, hrows]

/-- The last row holds the root alone. -/
theorem row_depth (h : t.leaves ≠ []) : t.row t.depth = [t.root] := by
  obtain ⟨count, hrows, hlast⟩ := t.exists_rows_eq h
  have hdepth : t.depth = count + 1 := by simp [depth, hrows]
  rw [← hdepth] at hlast
  obtain ⟨node, hnode⟩ := List.length_eq_one_iff.1 hlast
  have hroot : t.root = node := by
    rw [root, if_neg h, t.rows_eq_map_row h, List.range_succ, List.map_append]
    simp [hnode]
  rw [hnode, hroot]

/-- The first row above the leaves that holds a single node is the last one. -/
theorem depth_le_of_length_row (h : t.leaves ≠ []) {height : Nat} (hpos : 0 < height)
    (hrow : (t.row height).length = 1) : t.depth ≤ height := by
  obtain ⟨number, rfl⟩ := Nat.exists_eq_add_one.2 hpos
  apply Nat.le_of_not_lt
  intro hlt
  rw [depth, t.rows_eq, rowsOf, if_neg h, List.length_cons, Nat.add_sub_cancel] at hlt
  have hmore := one_lt_length_rowAbove t.settings 0 t.leaves hlt
  change 1 < (t.row (number + 1)).length at hmore
  omega

/-- Without leaves, the root is the digest of the empty byte string. -/
theorem root_of_leaves_eq_nil (h : t.leaves = []) : t.root = t.settings.digest [] := by
  rw [root, if_pos h]
  rfl

/-- The children, in the row of a height, of the node that has a place in the row above. -/
def group (height place : Nat) : List Bytes :=
  sliceAt t.settings.fanout ((t.row height).map (·.bytes)) place

theorem length_of_mem_group {height place : Nat} :
    ∀ c ∈ t.group height place, c.length = hashLength := by
  intro c hc
  exact length_of_mem_map_bytes _ c (mem_of_mem_sliceAt _ hc)

/-- The byte strings that are hashed for groups when the tree is built. -/
def groups : List Bytes :=
  (List.range t.depth).flatMap fun height => rowGroups t.settings height (t.row height)

theorem ne_nil_of_mem_groups {preimage : Bytes} (h : preimage ∈ t.groups) : preimage ≠ [] := by
  obtain ⟨height, -, hrow⟩ := List.mem_flatMap.1 h
  obtain ⟨members, -, rfl⟩ := List.mem_map.1 hrow
  exact List.cons_ne_nil _ _

/-- A node above the leaves is the digest of its group. -/
theorem getElem?_row_succ (height place : Nat) :
    (t.row (height + 1))[place]? =
      if place * t.settings.fanout < (t.row height).length then
        some (t.settings.digest (groupPreimage t.settings height (t.group height place)))
      else none := by
  rw [row_succ, parents_eq_map_digest, List.getElem?_map, getElem?_rowGroups]
  split <;> rfl

/-- What is hashed for a group below the root is among what is hashed when the tree is built. -/
theorem groupPreimage_mem_groups {height place : Nat} (hheight : height < t.depth)
    (hplace : place * t.settings.fanout < (t.row height).length) :
    groupPreimage t.settings height (t.group height place) ∈ t.groups := by
  refine List.mem_flatMap.2 ⟨height, List.mem_range.2 hheight, ?_⟩
  apply List.mem_of_getElem? (i := place)
  rw [getElem?_rowGroups, if_pos hplace]
  rfl

/-- A node above the leaves is the digest of a group that was hashed when the tree was built. -/
theorem exists_digest_of_mem_row {height : Nat} (hheight : height < t.depth) {node : Bytes32}
    (h : node ∈ t.row (height + 1)) : ∃ group ∈ t.groups, t.settings.digest group = node := by
  rw [row_succ, parents_eq_map_digest] at h
  obtain ⟨group, hgroup, rfl⟩ := List.mem_map.1 h
  exact ⟨group, List.mem_flatMap.2 ⟨height, List.mem_range.2 hheight, hgroup⟩, rfl⟩

end RowsOfTree

/-! ### What a tree is built from

The checks change nothing: a tree holds the leaves that it was given. -/

section Build

variable {s : Settings}

/-- A leaf that passes is left as it is. -/
theorem bytes_of_checkLeaf_ok {index : Nat} {leaf : Bytes}
    {b : { b : Bytes32 // s.padPartialGroups = true → b ≠ s.emptyChild }}
    (h : checkLeaf s index leaf = .ok b) : b.val.bytes = leaf := by
  unfold checkLeaf at h
  split at h
  · split at h
    · cases h
    · cases h
      rfl
  · cases h

/-- Leaves that pass after another one are left as they are. -/
theorem map_bytes_of_checkAfter_ok {leaves : List Bytes} :
    ∀ {index : Nat} {previous : Bytes32}
      {bs : { bs : List Bytes32 // Ascending (previous :: bs) ∧
        ∀ b ∈ bs, s.padPartialGroups = true → b ≠ s.emptyChild }},
      checkAfter s index previous leaves = .ok bs → bs.val.map (·.bytes) = leaves := by
  induction leaves with
  | nil =>
      intro index previous bs h
      cases h
      rfl
  | cons leaf rest ih =>
      intro index previous bs h
      rw [checkAfter, bind_eq_ok] at h
      obtain ⟨b, hb, h⟩ := h
      have hleaf := bytes_of_checkLeaf_ok hb
      obtain ⟨b, hfiller⟩ := b
      simp only at h hleaf
      split at h
      · cases h
      · split at h
        · rw [bind_eq_ok] at h
          obtain ⟨after, hafter, h⟩ := h
          have hrest := ih hafter
          obtain ⟨after, hascending, hfillers⟩ := after
          cases h
          exact List.cons_eq_cons.2 ⟨hleaf, hrest⟩
        · cases h

/-- Leaves that pass are left as they are. -/
theorem map_bytes_of_checkLeaves_ok {leaves : List Bytes}
    {bs : { bs : List Bytes32 // Ascending bs ∧
      ∀ b ∈ bs, s.padPartialGroups = true → b ≠ s.emptyChild }}
    (h : checkLeaves s leaves = .ok bs) : bs.val.map (·.bytes) = leaves := by
  cases leaves with
  | nil =>
      cases h
      rfl
  | cons leaf rest =>
      rw [checkLeaves, bind_eq_ok] at h
      obtain ⟨b, hb, h⟩ := h
      have hleaf := bytes_of_checkLeaf_ok hb
      obtain ⟨b, hfiller⟩ := b
      rw [bind_eq_ok] at h
      obtain ⟨after, hafter, h⟩ := h
      have hrest := map_bytes_of_checkAfter_ok hafter
      obtain ⟨after, hascending, hfillers⟩ := after
      cases h
      exact List.cons_eq_cons.2 ⟨hleaf, hrest⟩

/-- A tree is over the leaves and under the settings that it was built from. -/
theorem build_ok {leaves : List Bytes} {t : Tree} (h : build s leaves = .ok t) :
    t.settings = s ∧ t.leaves.map (·.bytes) = leaves := by
  rw [build, bind_eq_ok] at h
  obtain ⟨bs, hbs, h⟩ := h
  have hleaves := map_bytes_of_checkLeaves_ok hbs
  obtain ⟨bs, hascending, hfillers⟩ := bs
  cases h
  exact ⟨rfl, hleaves⟩

theorem checkLeaf_bytes (index : Nat) {b : Bytes32}
    (h : s.padPartialGroups = true → b ≠ s.emptyChild) :
    checkLeaf s index b.bytes = .ok ⟨b, h⟩ := by
  have hfiller : ¬ (s.padPartialGroups = true ∧ (⟨b.bytes, b.length_bytes⟩ : Bytes32) =
      s.emptyChild) := by
    rintro ⟨hpad, heq⟩
    exact h hpad heq
  rw [checkLeaf, dif_pos b.length_bytes, dif_neg hfiller]

/-- Ascending leaves without the filler pass after one that lies before them. -/
theorem checkAfter_map_bytes {bs : List Bytes32} :
    ∀ (index : Nat) {previous : Bytes32}, Ascending (previous :: bs) →
      (∀ b ∈ bs, s.padPartialGroups = true → b ≠ s.emptyChild) →
      ∃ h, checkAfter s index previous (bs.map (·.bytes)) = .ok ⟨bs, h⟩ := by
  induction bs with
  | nil =>
      intro index previous hascending hfillers
      exact ⟨⟨hascending, hfillers⟩, rfl⟩
  | cons b rest ih =>
      intro index previous hascending hfillers
      obtain ⟨hbefore, hrest⟩ := hascending
      have hne : b ≠ previous := by
        rintro rfl
        rw [Bytes.before_irrefl] at hbefore
        cases hbefore
      obtain ⟨⟨hsorted, hnoFiller⟩, hafter⟩ := ih (index + 1) hrest
        fun c hc => hfillers c (List.mem_cons_of_mem _ hc)
      refine ⟨⟨⟨hbefore, hrest⟩, hfillers⟩, ?_⟩
      rw [List.map_cons, checkAfter, checkLeaf_bytes index (hfillers b List.mem_cons_self)]
      simp only [bind, Except.bind, if_neg hne, dif_pos hbefore, hafter]

/-- Ascending leaves without the filler pass. -/
theorem checkLeaves_map_bytes {bs : List Bytes32} (hascending : Ascending bs)
    (hfillers : ∀ b ∈ bs, s.padPartialGroups = true → b ≠ s.emptyChild) :
    ∃ h, checkLeaves s (bs.map (·.bytes)) = .ok ⟨bs, h⟩ := by
  cases bs with
  | nil => exact ⟨⟨hascending, hfillers⟩, rfl⟩
  | cons b rest =>
      obtain ⟨⟨hsorted, hnoFiller⟩, hafter⟩ := checkAfter_map_bytes 1 hascending
        fun c hc => hfillers c (List.mem_cons_of_mem _ hc)
      refine ⟨⟨hascending, hfillers⟩, ?_⟩
      rw [List.map_cons, checkLeaves, checkLeaf_bytes 0 (hfillers b List.mem_cons_self)]
      simp only [bind, Except.bind, hafter]

/-- Every tree can be built from its leaves. -/
theorem build_leaves (t : Tree) : build t.settings (t.leaves.map (·.bytes)) = .ok t := by
  obtain ⟨s, leaves, ascending, noFiller, rows, rfl⟩ := t
  obtain ⟨⟨hsorted, hfillers⟩, hleaves⟩ := checkLeaves_map_bytes ascending noFiller
  simp only [build, hleaves, bind, Except.bind]

end Build

end Tree

end SlotEvidence
