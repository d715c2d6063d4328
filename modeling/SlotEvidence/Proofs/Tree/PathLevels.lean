/-
Module: SlotEvidence.Proofs.Tree.PathLevels
Purpose: The levels of an honest path one by one: at each height the level is taken from the row of
  that height, at the place of the node that the leaf hangs under.
Trusted boundary: none
Main exports: Level.inRow, Level.children_inRow, ancestor, succ_in_group, succ_past_group,
  pathLevels_eq_map, Tree.levels_path
-/
import SlotEvidence.Proofs.Tree.Layout

namespace SlotEvidence

/-! ### A node among the members of its group

The level of a node in a row: its place in its group, and the other members. -/

namespace Level

variable (fanout : Nat)

/-- The level of the node that has a place in a row. -/
def inRow (row : List Bytes) (place : Nat) : Level :=
  ⟨(sliceAt fanout row (place / fanout)).eraseIdx (place % fanout), place % fanout⟩

@[simp] theorem index_inRow (row : List Bytes) (place : Nat) :
    (inRow fanout row place).index = place % fanout := rfl

variable {fanout} (positive : 0 < fanout) {row : List Bytes} {place : Nat} {node : Bytes}

include positive in
/-- With its own node put in, a level is the group in the row. -/
theorem children_inRow (h : row[place]? = some node) :
    (inRow fanout row place).children node = sliceAt fanout row (place / fanout) := by
  rw [← getElem?_sliceAt_div fanout positive] at h
  obtain ⟨hlt, hnode⟩ := List.getElem?_eq_some_iff.1 h
  have hlength : ((sliceAt fanout row (place / fanout)).take (place % fanout)).length =
      place % fanout := by
    rw [List.length_take, Nat.min_eq_left (Nat.le_of_lt hlt)]
  rw [children, inRow, List.eraseIdx_eq_take_drop_succ, List.take_left' hlength,
    List.drop_left' hlength, ← hnode, ← List.drop_eq_getElem_cons hlt, List.take_append_drop]

include positive in
/-- A level lists one node less than the group has. -/
theorem length_siblings_inRow (h : place < row.length) :
    (inRow fanout row place).siblings.length + 1 =
      (sliceAt fanout row (place / fanout)).length := by
  have hplace := getElem?_sliceAt_div fanout positive row place
  rw [List.getElem?_eq_getElem h] at hplace
  have hlt := (List.getElem?_eq_some_iff.1 hplace).1
  rw [inRow, List.length_eraseIdx_of_lt hlt]
  omega

include positive in
/-- The place of the node is one of the places among its siblings or right after them. -/
theorem index_inRow_le (h : place < row.length) :
    (inRow fanout row place).index ≤ (inRow fanout row place).siblings.length := by
  have hplace := getElem?_sliceAt_div fanout positive row place
  rw [List.getElem?_eq_getElem h] at hplace
  have hlt := (List.getElem?_eq_some_iff.1 hplace).1
  have hlength := length_siblings_inRow positive h
  rw [index_inRow]
  omega

include positive in
theorem length_siblings_inRow_lt (h : place < row.length) :
    (inRow fanout row place).siblings.length < fanout := by
  have hlength := length_siblings_inRow positive h
  have hle := length_sliceAt_le fanout row (place / fanout)
  omega

end Level

/-! ### Ancestors

The ancestor of a place is found by dividing by the fanout, once for each row. -/

/-- The place, a number of rows up, of the node above a place. -/
def ancestor (fanout : Nat) : (rows place : Nat) → Nat
  | 0, place => place
  | rows + 1, place => ancestor fanout rows place / fanout

theorem ancestor_succ (fanout rows place : Nat) :
    ancestor fanout (rows + 1) place = ancestor fanout rows place / fanout := rfl

theorem ancestor_zero (fanout rows : Nat) : ancestor fanout rows 0 = 0 := by
  induction rows with
  | zero => rfl
  | succ rows ih => rw [ancestor_succ, ih, Nat.zero_div]

/-- The ancestor of a parent is one row further from its child. -/
theorem ancestor_div (fanout rows place : Nat) :
    ancestor fanout rows (place / fanout) = ancestor fanout (rows + 1) place := by
  induction rows with
  | zero => rfl
  | succ rows ih => rw [ancestor_succ, ih, ancestor_succ fanout (rows + 1)]

/-- The place after one that is not the last of its group lies in the same group. -/
theorem succ_in_group {fanout place : Nat} (h : place % fanout + 1 < fanout) :
    (place + 1) / fanout = place / fanout ∧ (place + 1) % fanout = place % fanout + 1 := by
  have hplace : place + 1 = fanout * (place / fanout) + (place % fanout + 1) := by
    have hmod := Nat.div_add_mod place fanout
    omega
  constructor
  · rw [hplace, Nat.mul_add_div (Nat.zero_lt_of_lt h), Nat.div_eq_of_lt h, Nat.add_zero]
  · rw [hplace, Nat.mul_add_mod, Nat.mod_eq_of_lt h]

/-- The place after the last one of a group is the first of the next group. -/
theorem succ_past_group {fanout place : Nat} (h : place % fanout + 1 = fanout) :
    (place + 1) / fanout = place / fanout + 1 ∧ (place + 1) % fanout = 0 := by
  have hplace : place + 1 = (place / fanout + 1) * fanout := by
    have hmod := Nat.div_add_mod place fanout
    rw [Nat.succ_mul, Nat.mul_comm]
    omega
  constructor
  · rw [hplace, Nat.mul_div_cancel _ (by omega)]
  · rw [hplace, Nat.mul_mod_left]

/-- The places of the node and of its ancestors within their groups, for a number of rows. -/
def digits (fanout : Nat) : (rows place : Nat) → List Nat
  | 0, _ => []
  | rows + 1, place => place % fanout :: digits fanout rows (place / fanout)

@[simp] theorem length_digits (fanout rows place : Nat) :
    (digits fanout rows place).length = rows := by
  induction rows generalizing place with
  | zero => rfl
  | succ rows ih => rw [digits, List.length_cons, ih]

/-- The places along a path are the digits of the place of its leaf. -/
theorem map_ancestor_mod (fanout rows place : Nat) :
    (List.range rows).map (fun height => ancestor fanout height place % fanout) =
      digits fanout rows place := by
  induction rows generalizing place with
  | zero => rfl
  | succ rows ih =>
      rw [List.range_succ_eq_map, List.map_cons, List.map_map, digits, ← ih]
      simp only [ancestor_div]
      rfl

/-- The places within groups and the ancestor above them tell the place. -/
theorem eq_of_digits_eq {fanout rows place other : Nat}
    (hdigits : digits fanout rows place = digits fanout rows other)
    (htop : ancestor fanout rows place = ancestor fanout rows other) : place = other := by
  induction rows generalizing place other with
  | zero => exact htop
  | succ rows ih =>
      obtain ⟨hmod, hrest⟩ := List.cons.inj hdigits
      rw [← ancestor_div, ← ancestor_div] at htop
      have hdiv := ih hrest htop
      rw [← Nat.div_add_mod place fanout, ← Nat.div_add_mod other fanout, hmod, hdiv]

/-- The levels of a path from one row to the next ones. -/
theorem pathLevels_eq_map (fanout : Nat) (row : Nat → List Bytes) (count place : Nat) :
    pathLevels fanout ((List.range (count + 1)).map row) place =
      (List.range count).map fun height =>
        Level.inRow fanout (row height) (ancestor fanout height place) := by
  induction count generalizing row place with
  | zero => rfl
  | succ count ih =>
      have hrows : (List.range (count + 1 + 1)).map row =
          row 0 :: (List.range (count + 1)).map fun height => row (height + 1) := by
        rw [List.range_succ_eq_map, List.map_cons, List.map_map]
        rfl
      have hnext : (List.range (count + 1)).map (fun height => row (height + 1)) ≠ [] := by simp
      have hlevels : (List.range (count + 1)).map (fun height =>
            Level.inRow fanout (row height) (ancestor fanout height place)) =
          Level.inRow fanout (row 0) place :: (List.range count).map fun height =>
            Level.inRow fanout (row (height + 1)) (ancestor fanout height (place / fanout)) := by
        rw [List.range_succ_eq_map, List.map_cons, List.map_map]
        simp only [ancestor_div]
        rfl
      rw [hrows, pathLevels.eq_3 _ _ _ _ (by simp), ih, hlevels, Level.inRow,
        Nat.mod_eq_sub_div_mul]
      rfl

namespace Tree

variable (t : Tree)

/-- The level at a height of the path of the leaf at a place. -/
def honestLevel (place height : Nat) : Level :=
  Level.inRow t.settings.fanout ((t.row height).map (·.bytes))
    (ancestor t.settings.fanout height place)

/-- The levels of an honest path. -/
theorem levels_path (h : t.leaves ≠ []) (leaf : Bytes32) (place : Nat) :
    (t.path leaf place).levels = (List.range t.depth).map (t.honestLevel place) := by
  rw [path, t.rows_eq_map_row h, List.map_map, pathLevels_eq_map]
  rfl

/-- The places on the levels of a tree are the digits of the place of the leaf. -/
theorem map_index_honestLevel (place rows : Nat) :
    ((List.range rows).map (t.honestLevel place)).map (·.index) =
      digits t.settings.fanout rows place := by
  rw [List.map_map, ← map_ancestor_mod]
  rfl

/-- The ancestors of a leaf are nodes of the tree. -/
theorem ancestor_lt_length {place : Nat} (h : place < t.leaves.length) (height : Nat) :
    ancestor t.settings.fanout height place < (t.row height).length := by
  induction height with
  | zero => exact h
  | succ height ih =>
      have hbegin : ancestor t.settings.fanout height place / t.settings.fanout *
          t.settings.fanout < (t.row height).length :=
        Nat.lt_of_le_of_lt (Nat.div_mul_le_self _ _) ih
      have hnode := t.getElem?_row_succ height (ancestor t.settings.fanout (height + 1) place)
      rw [ancestor_succ, if_pos hbegin] at hnode
      exact (List.getElem?_eq_some_iff.1 hnode).1

theorem ancestor_mul_lt_length {place : Nat} (h : place < t.leaves.length) (height : Nat) :
    ancestor t.settings.fanout (height + 1) place * t.settings.fanout < (t.row height).length :=
  Nat.lt_of_le_of_lt (Nat.div_mul_le_self _ _) (t.ancestor_lt_length h height)

/-- The ancestor of every leaf in the last row is the root. -/
theorem ancestor_depth {place : Nat} (h : place < t.leaves.length) :
    ancestor t.settings.fanout t.depth place = 0 := by
  have hnil : t.leaves ≠ [] := List.ne_nil_of_length_pos (Nat.zero_lt_of_lt h)
  have hlt := t.ancestor_lt_length h t.depth
  rw [t.row_depth hnil, List.length_singleton] at hlt
  exact Nat.lt_one_iff.1 hlt

/-- An ancestor of a leaf is the digest of the group with the ancestor below. -/
theorem getElem?_row_ancestor {place : Nat} (h : place < t.leaves.length) (height : Nat) :
    (t.row (height + 1))[ancestor t.settings.fanout (height + 1) place]? =
      some (t.settings.digest (groupPreimage t.settings height
        (t.group height (ancestor t.settings.fanout (height + 1) place)))) := by
  rw [t.getElem?_row_succ, if_pos (t.ancestor_mul_lt_length h height)]

section HonestLevel

variable {place : Nat} (height : Nat)

@[simp] theorem index_honestLevel :
    (t.honestLevel place height).index =
      ancestor t.settings.fanout height place % t.settings.fanout := rfl

/-- The siblings on a level are nodes of the group. -/
theorem mem_group_of_mem_siblings {x : Bytes} (h : x ∈ (t.honestLevel place height).siblings) :
    x ∈ t.group height (ancestor t.settings.fanout (height + 1) place) :=
  List.mem_of_mem_eraseIdx h

variable {t} (h : place < t.leaves.length)

include h in
theorem ancestor_lt_length_map :
    ancestor t.settings.fanout height place < ((t.row height).map (·.bytes)).length := by
  rw [List.length_map]
  exact t.ancestor_lt_length h height

include h in
theorem index_honestLevel_le :
    (t.honestLevel place height).index ≤ (t.honestLevel place height).siblings.length :=
  Level.index_inRow_le t.settings.fanout_pos (ancestor_lt_length_map height h)

include h in
/-- A group has one node more than there are siblings. -/
theorem length_siblings_honestLevel :
    (t.honestLevel place height).siblings.length + 1 =
      (t.group height (ancestor t.settings.fanout (height + 1) place)).length :=
  Level.length_siblings_inRow t.settings.fanout_pos (ancestor_lt_length_map height h)

include h in
theorem length_siblings_honestLevel_lt :
    (t.honestLevel place height).siblings.length < t.settings.fanout :=
  Level.length_siblings_inRow_lt t.settings.fanout_pos (ancestor_lt_length_map height h)

end HonestLevel

/-- With the node above the leaf put in, a level of an honest path is the group of the next node
above. -/
theorem children_honestLevel {place height : Nat} {node : Bytes32}
    (h : (t.row height)[ancestor t.settings.fanout height place]? = some node) :
    (t.honestLevel place height).children node.bytes =
      t.group height (ancestor t.settings.fanout (height + 1) place) := by
  apply Level.children_inRow t.settings.fanout_pos
  rw [List.getElem?_map, h]
  rfl

end Tree

end SlotEvidence
