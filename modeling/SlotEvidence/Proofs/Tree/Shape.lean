/-
Module: SlotEvidence.Proofs.Tree.Shape
Purpose: The shape of the tree over a number of leaves.  The rows are made one after the other, each
  from the one below, until a row holds a single node.  A row of more than one node is shorter than
  the one below, so that this comes to an end; it does so at the first power of the fanout, but for
  the zeroth, that is not below the number of leaves.  At each height the row is as long as the
  leaves divided by that power of the fanout, rounded up.
Trusted boundary: none
Main exports: ceilDiv_ceilDiv, Tree.Growing, Tree.Growing.EndsAfter, Tree.length_row_eq_ceilDiv,
  Tree.isLeast_depth, Tree.getElem?_rows, Tree.Shaped, Tree.shaped_of_build
-/
import Mathlib.Algebra.Order.Floor.Div
import Mathlib.Algebra.Order.Ring.Nat
import SlotEvidence.Proofs.Tree.Building
import SlotEvidence.Proofs.Tree.Inclusion

namespace SlotEvidence

/-- Rounding up twice is rounding up once. -/
theorem ceilDiv_ceilDiv (n : Nat) {a b : Nat} (ha : 0 < a) (hb : 0 < b) :
    n ⌈/⌉ a ⌈/⌉ b = n ⌈/⌉ (a * b) := by
  refine eq_of_forall_ge_iff fun c => ?_
  rw [ceilDiv_le_iff_le_mul hb, ceilDiv_le_iff_le_mul ha, ceilDiv_le_iff_le_mul (Nat.mul_pos ha hb),
    Nat.mul_assoc]

namespace Tree

/-! ### Making the rows

The rows are made in passes, each of which hashes the groups of the last row, and there is at least
one. -/

/-- A tree whose rows are being made: those that there are so far, and the one that the next is made
from. -/
structure Growing where
  rows : List (List Bytes32)
  current : List Bytes32

namespace Growing

/-- At first there are only the leaves. -/
def start (leaves : List Bytes32) : Growing := ⟨[leaves], leaves⟩

/-- A pass puts the parents of the current row on top and goes on from them. -/
def pass (s : Settings) (g : Growing) : Growing :=
  let above := parents s (g.rows.length - 1) g.current
  ⟨g.rows ++ [above], above⟩

/-- The number of the first pass that leaves a single node. -/
def EndsAfter (s : Settings) (leaves : List Bytes32) (passes : Nat) : Prop :=
  IsLeast {n | 1 ≤ n ∧ ((pass s)^[n] (start leaves)).current.length = 1} passes

/-- Each pass adds the row that comes next. -/
theorem iterate_pass (s : Settings) (leaves : List Bytes32) (passes : Nat) :
    (pass s)^[passes] (start leaves) =
      ⟨(List.range (passes + 1)).map (rowAbove s 0 leaves), rowAbove s 0 leaves passes⟩ := by
  induction passes with
  | zero => rfl
  | succ passes ih =>
      have habove : parents s passes (rowAbove s 0 leaves passes) =
          rowAbove s 0 leaves (passes + 1) := by
        rw [rowAbove, Nat.zero_add]
      rw [Function.iterate_succ_apply', ih, pass, List.length_map, List.length_range,
        Nat.add_sub_cancel, habove, List.range_succ (n := passes + 1), List.map_append]
      rfl

/-- A pass that leaves more than one node leaves fewer than it found. -/
theorem length_current_pass_lt {s : Settings} {g : Growing}
    (h : 1 < (pass s g).current.length) : (pass s g).current.length < g.current.length :=
  length_parents_lt s _ h

end Growing

/-! ### The lengths of the rows and their number

Each pass divides the length of the row by the fanout and rounds up, so that the rows come down to
one node. -/

section Lengths

variable (t : Tree)

/-- The leaves, divided by a power of the fanout and rounded up, are the nodes at a height. -/
theorem length_row_eq_ceilDiv (height : Nat) :
    (t.row height).length = t.leaves.length ⌈/⌉ t.settings.fanout ^ height := by
  induction height with
  | zero => rw [Nat.pow_zero, ceilDiv_one]; rfl
  | succ height ih =>
      have hpos := t.settings.fanout_pos
      rw [length_row_succ, ← Nat.ceilDiv_eq_add_pred_div, ih,
        ceilDiv_ceilDiv _ (Nat.pow_pos hpos) hpos, Nat.pow_succ]

variable {t} (h : t.leaves ≠ [])

include h

/-- A row holds a single node when the leaves are no more than its power of the fanout. -/
theorem length_row_eq_one_iff {height : Nat} :
    (t.row height).length = 1 ↔ t.leaves.length ≤ t.settings.fanout ^ height := by
  have hpower : 0 < t.settings.fanout ^ height := Nat.pow_pos t.settings.fanout_pos
  have hone : (t.row height).length ≤ 1 ↔ t.leaves.length ≤ t.settings.fanout ^ height := by
    rw [length_row_eq_ceilDiv, ceilDiv_le_iff_le_mul hpower, Nat.mul_one]
  have hnode : 0 < (t.row height).length := by
    rw [length_row_eq_ceilDiv, ← Nat.not_le, ceilDiv_le_iff_le_mul hpower, Nat.mul_zero, Nat.not_le]
    exact List.length_pos_iff.2 h
  omega

/-- The first row of parents that holds a single node is the last one. -/
theorem isLeast_length_row_eq_one : IsLeast {n | 1 ≤ n ∧ (t.row n).length = 1} t.depth := by
  refine ⟨⟨t.depth_pos h, ?_⟩, fun _ hn => t.depth_le_of_length_row h hn.1 hn.2⟩
  rw [t.row_depth h, List.length_singleton]

/-- The depth is the least number of rows above the leaves by which they come down to one node. -/
theorem isLeast_depth :
    IsLeast {n | 1 ≤ n ∧ t.leaves.length ≤ t.settings.fanout ^ n} t.depth := by
  simp only [← length_row_eq_one_iff h]
  exact isLeast_length_row_eq_one h

/-- The rows are made in as many passes as there are rows above the leaves. -/
theorem endsAfter_depth : Growing.EndsAfter t.settings t.leaves t.depth := by
  simp only [Growing.EndsAfter, Growing.iterate_pass]
  exact isLeast_length_row_eq_one h

/-- After as many passes as the tree is deep, all rows are there and the root is the last. -/
theorem iterate_pass_depth :
    (Growing.pass t.settings)^[t.depth] (.start t.leaves) = ⟨t.rows, [t.root]⟩ := by
  rw [Growing.iterate_pass, t.rows_eq_map_row h, ← t.row_depth h]
  rfl

/-- There is a row at each height up to the depth, and no other. -/
theorem getElem?_rows (height : Nat) :
    t.rows[height]? = if height ≤ t.depth then some (t.row height) else none := by
  rw [t.rows_eq_map_row h, List.getElem?_map]
  by_cases hheight : height ≤ t.depth
  · rw [if_pos hheight, List.getElem?_range (by omega)]
    rfl
  · rw [if_neg hheight, List.getElem?_eq_none (by simp; omega)]
    rfl

theorem getElem?_rows_eq_some_iff {height : Nat} {nodes : List Bytes32} :
    t.rows[height]? = some nodes ↔ height ≤ t.depth ∧ nodes = t.row height := by
  rw [getElem?_rows h]
  split <;> simp [*, eq_comm]

end Lengths

/-! ### The nodes

The node at a place hashes the nodes under it, as many of them as there are. -/

/-- The nodes of a row that hang under one parent: those from one multiple of the fanout up to the
next one, or to the end of the row. -/
def nodesUnder (fanout : Nat) (nodes : List Bytes32) (place : Nat) : List Bytes32 :=
  nodes.extract (place * fanout) (min ((place + 1) * fanout) nodes.length)

section Nodes

variable (t : Tree)

theorem map_bytes_nodesUnder (height place : Nat) :
    (nodesUnder t.settings.fanout (t.row height) place).map (·.bytes) = t.group height place := by
  rw [nodesUnder, ← sliceAt_eq_extract, map_sliceAt]
  rfl

/-- Each node above the leaves is the hash of the nodes under it. -/
theorem getElem?_row_succ_eq_hashGroup {height place : Nat}
    (h : place < (t.row (height + 1)).length) :
    (t.row (height + 1))[place]? = some (hashGroup t.settings height
      ((nodesUnder t.settings.fanout (t.row height) place).map (·.bytes))) := by
  have hnode := t.getElem?_row_succ height place
  rw [List.getElem?_eq_getElem h] at hnode ⊢
  split at hnode
  · rw [hnode, map_bytes_nodesUnder]
    rfl
  · cases hnode

end Nodes

/-! ### Shape -/

/-- How the tree over hashes comes about, and what it looks like. -/
structure Shaped (s : Settings) (hashes : List Bytes) (t : Tree) : Prop where
  /-- The rows are complete when a pass leaves a single node for the first time, the root. -/
  ends : Growing.EndsAfter s t.leaves t.depth
  made : (Growing.pass s)^[t.depth] (.start t.leaves) = ⟨t.rows, [t.root]⟩
  /-- Before that each pass leaves fewer nodes than it found. -/
  shrinks : ∀ passes, 1 < ((Growing.pass s)^[passes + 1] (.start t.leaves)).current.length →
    ((Growing.pass s)^[passes + 1] (.start t.leaves)).current.length <
      ((Growing.pass s)^[passes] (.start t.leaves)).current.length
  depth : IsLeast {n | 1 ≤ n ∧ hashes.length ≤ s.fanout ^ n} t.depth
  count : t.rows.length = t.depth + 1
  leaves : t.rows[0]? = some t.leaves ∧ t.leaves.map (·.bytes) = hashes
  root : t.rows[t.depth]? = some [t.root]
  length : ∀ {height nodes}, t.rows[height]? = some nodes →
    nodes.length = hashes.length ⌈/⌉ s.fanout ^ height
  nodes : ∀ {height below above}, t.rows[height]? = some below → t.rows[height + 1]? = some above →
    ∀ place < above.length, above[place]? =
      some (hashGroup s height ((nodesUnder s.fanout below place).map (·.bytes)))

/-- A tree with leaves has the shape that its definition promises. -/
theorem shaped_of_leaves_ne_nil {t : Tree} (h : t.leaves ≠ []) :
    Shaped t.settings (t.leaves.map (·.bytes)) t where
  ends := endsAfter_depth h
  made := iterate_pass_depth h
  shrinks passes hmore := by
    rw [Function.iterate_succ_apply'] at hmore ⊢
    exact Growing.length_current_pass_lt hmore
  depth := by
    rw [List.length_map]
    exact isLeast_depth h
  count := by rw [t.rows_eq_map_row h, List.length_map, List.length_range]
  leaves := ⟨(getElem?_rows_eq_some_iff h).2 ⟨Nat.zero_le _, rfl⟩, rfl⟩
  root := (getElem?_rows_eq_some_iff h).2 ⟨Nat.le_refl _, (t.row_depth h).symm⟩
  length := by
    intro height nodes hnodes
    obtain ⟨-, rfl⟩ := (getElem?_rows_eq_some_iff h).1 hnodes
    rw [length_row_eq_ceilDiv, List.length_map]
  nodes := by
    intro height below above hbelow habove place hplace
    obtain ⟨-, rfl⟩ := (getElem?_rows_eq_some_iff h).1 hbelow
    obtain ⟨-, rfl⟩ := (getElem?_rows_eq_some_iff h).1 habove
    exact t.getElem?_row_succ_eq_hashGroup hplace

/-- From hashes that are fit for leaves and ascend a tree is built, whose rows come to an end: there
are as many above the leaves as the least power of the fanout, from the first on, that is not below
the number of leaves; each holds the leaves divided by its power of the fanout, rounded up; the last
one holds the root alone; and each of their nodes is the hash of the nodes under it. -/
theorem shaped_of_build (s : Settings) {hashes : List Bytes} (hfit : FitLeaves s hashes)
    (hascending : StrictlyAscending hashes) (hne : hashes ≠ []) :
    ∃ t, build s hashes = .ok t ∧ Shaped s hashes t := by
  obtain ⟨t, ht⟩ := exists_build_iff.2 ⟨hfit, hascending⟩
  obtain ⟨rfl, rfl⟩ := build_ok ht
  refine ⟨t, ht, shaped_of_leaves_ne_nil ?_⟩
  rintro hnil
  exact hne (congrArg (List.map (·.bytes)) hnil)

/-- Three leaves with two under each parent have two nodes above them and above these the root. -/
theorem sample_shaped :
    (FitLeaves sample.settings (sample.leaves.map (·.bytes)) ∧
      StrictlyAscending (sample.leaves.map (·.bytes)) ∧ sample.leaves.map (·.bytes) ≠ []) ∧
    ∃ t, build sample.settings (sample.leaves.map (·.bytes)) = .ok t ∧
      Shaped sample.settings (sample.leaves.map (·.bytes)) t ∧ t.depth = 2 ∧
      ∃ nodes, t.rows[1]? = some nodes ∧ nodes.length = 2 := by
  have hfit := fitLeaves_leaves sample
  have hascending := strictlyAscending_map_bytes.2 sample.ascending
  obtain ⟨t, ht, hshaped⟩ := shaped_of_build sample.settings hfit hascending (by decide)
  have htwo : t.depth = 2 := by
    have hleast : IsLeast {n | 1 ≤ n ∧ 3 ≤ 2 ^ n} t.depth := hshaped.depth
    have hthree : IsLeast {n | 1 ≤ n ∧ 3 ≤ 2 ^ n} 2 := by
      refine ⟨by decide, ?_⟩
      rintro n ⟨hpos, hpower⟩
      apply Nat.le_of_not_lt
      intro hlt
      have htwo : 2 ^ n ≤ 2 ^ 1 := Nat.pow_le_pow_right (by decide) (Nat.le_of_lt_succ hlt)
      omega
    exact hleast.unique hthree
  have hlt : 1 < t.rows.length := by rw [hshaped.count, htwo]; decide
  refine ⟨⟨hfit, hascending, by decide⟩, t, ht, hshaped, htwo, t.rows[1], ?_⟩
  have hrow := List.getElem?_eq_getElem hlt
  exact ⟨hrow, hshaped.length hrow⟩

end Tree

end SlotEvidence
