/-
Module: SlotEvidence.Tree
Purpose: Sorted trees of account leaves: building them, and making evidence of presence and
  absence.
Specification: SPEC_FULL 7.2, AccountMerkleTree (`build_tree`, `prove_inclusion`, `prove_exclusion`,
  `prove`)
Trusted boundary: none
Main exports: Tree, Tree.build, Tree.ofHashes, Tree.rows, Tree.root, Tree.proveInclusion,
  Tree.proveExclusion, Tree.prove
-/
import SlotEvidence.Tree.Absence

namespace SlotEvidence

namespace Tree

/-- Leaves in strictly ascending order. -/
def Ascending : List Bytes32 → Prop
  | [] => True
  | [_] => True
  | a :: b :: rest => a.bytes.before b.bytes = true ∧ Ascending (b :: rest)

/-- Why a list of byte strings makes no tree. -/
inductive Fault where
  | notHash (index : Nat)
  /-- A leaf is the filler of incomplete groups. -/
  | filler (index : Nat)
  | duplicate (index : Nat) (leaf : Bytes)
  | unsorted (index : Nat)
deriving DecidableEq

namespace Fault

def message : Fault → String
  | .notHash index => s!"Leaf {index} is not a 32-byte hash"
  | .filler index => s!"Leaf {index} equals the padding sentinel"
  | .duplicate index _ => s!"Duplicate leaf at index {index}"
  | .unsorted index =>
      "Leaves are not sorted: index " ++ toString index ++ " sorts before index "
        ++ toString (index - 1)

def details : Fault → Members Value
  | .notHash index | .filler index | .unsorted index => [("index", .int index)]
  | .duplicate index leaf => [("index", .int index), ("leaf", .text (Hex.encode leaf))]

def report (f : Fault) : SlotEvidence.Fault := .structural f.message f.details

end Fault

/-- A leaf of 32 bytes that is no filler. -/
def checkLeaf (s : Settings) (index : Nat) (leaf : Bytes) :
    Except Fault { b : Bytes32 // s.padPartialGroups = true → b ≠ s.emptyChild } :=
  if hlength : leaf.length = hashLength then
    if hfiller : s.padPartialGroups = true ∧ (⟨leaf, hlength⟩ : Bytes32) = s.emptyChild then
      .error (.filler index)
    else .ok ⟨⟨leaf, hlength⟩, fun hpad heq => hfiller ⟨hpad, heq⟩⟩
  else .error (.notHash index)

/-- The leaves that come after `previous`, the first of which has the number `index`. -/
def checkAfter (s : Settings) (index : Nat) (previous : Bytes32) : (leaves : List Bytes) →
    Except Fault { bs : List Bytes32 // Ascending (previous :: bs) ∧
      ∀ b ∈ bs, s.padPartialGroups = true → b ≠ s.emptyChild }
  | [] => .ok ⟨[], trivial, by simp⟩
  | leaf :: rest => do
      let ⟨b, hfiller⟩ ← checkLeaf s index leaf
      if b = previous then .error (.duplicate index leaf)
      else if hbefore : previous.bytes.before b.bytes = true then do
        let ⟨bs, hsorted, hfillers⟩ ← checkAfter s (index + 1) b rest
        .ok ⟨b :: bs, ⟨hbefore, hsorted⟩, by
          intro c hc
          rcases List.mem_cons.1 hc with rfl | hc
          · exact hfiller
          · exact hfillers c hc⟩
      else .error (.unsorted index)

/-- The leaves of a tree: byte strings of 32 bytes in strictly ascending order, none of which is the
filler of incomplete groups. -/
def checkLeaves (s : Settings) : (leaves : List Bytes) →
    Except Fault { bs : List Bytes32 // Ascending bs ∧
      ∀ b ∈ bs, s.padPartialGroups = true → b ≠ s.emptyChild }
  | [] => .ok ⟨[], trivial, by simp⟩
  | leaf :: rest => do
      let ⟨b, hfiller⟩ ← checkLeaf s 0 leaf
      let ⟨bs, hsorted, hfillers⟩ ← checkAfter s 1 b rest
      .ok ⟨b :: bs, hsorted, by
        intro c hc
        rcases List.mem_cons.1 hc with rfl | hc
        · exact hfiller
        · exact hfillers c hc⟩

/-- The parents of a row of nodes of the given height. -/
def parents (s : Settings) (height : Nat) (row : List Bytes32) : List Bytes32 :=
  (slices s.fanout s.fanout_pos row).map fun group => hashGroup s height (group.map (·.bytes))

/-- A row of more than one parent is shorter than the row below. -/
theorem length_parents_lt (s : Settings) (height : Nat) {row : List Bytes32}
    (h : 1 < (parents s height row).length) : (parents s height row).length < row.length := by
  have htwo := s.two_le_fanout
  simp only [parents, List.length_map, length_slices] at h ⊢
  generalize row.length = n at h ⊢
  generalize s.fanout = f at h htwo ⊢
  have hn : f < n := by
    apply Decidable.byContradiction
    intro hle
    have : (n + f - 1) / f ≤ 1 := by
      rw [Nat.div_le_iff_le_mul_add_pred (by omega)]
      omega
    omega
  rw [Nat.div_lt_iff_lt_mul (by omega)]
  have : n * 2 ≤ n * f := Nat.mul_le_mul_left n htwo
  omega

/-- The rows above a row of nodes of the given height, up to a row with a single node. -/
def rowsAbove (s : Settings) (height : Nat) (row : List Bytes32) : List (List Bytes32) :=
  if 1 < (parents s height row).length then
    parents s height row :: rowsAbove s (height + 1) (parents s height row)
  else [parents s height row]
termination_by row.length
decreasing_by exact length_parents_lt s height (by assumption)

/-- The rows of the tree over the given leaves, the leaves first and the root last.  Over a single
leaf there is one more row; without leaves there is the empty row only. -/
def rowsOf (s : Settings) (leaves : List Bytes32) : List (List Bytes32) :=
  if leaves = [] then [[]] else leaves :: rowsAbove s 0 leaves

end Tree

/-- A tree over sorted leaves. -/
structure Tree where
  settings : Settings
  leaves : List Bytes32
  ascending : Tree.Ascending leaves
  noFiller : ∀ b ∈ leaves, settings.padPartialGroups = true → b ≠ settings.emptyChild
  /-- All nodes: the leaves first, the root last. -/
  rows : List (List Bytes32)
  rows_eq : rows = Tree.rowsOf settings leaves

namespace Tree

/-- The tree over the given leaves, `build_tree` [SPEC_FULL 7.2].  Each of them must be a hash, they
must ascend strictly, and none may be the filler if groups are padded. -/
def build (s : Settings) (leaves : List Bytes) : Except Fault Tree := do
  let ⟨bs, ascending, noFiller⟩ ← checkLeaves s leaves
  .ok ⟨s, bs, ascending, noFiller, rowsOf s bs, rfl⟩

/-- The tree over hashes in any order, `from_account_hashes` [SPEC_FULL 7.2]. -/
def ofHashes (s : Settings) (hashes : List Bytes) : Except Fault Tree :=
  build s (hashes.mergeSort fun a b => !b.before a)

/-- The number of rows above the leaves. -/
def depth (t : Tree) : Nat := t.rows.length - 1

def root (t : Tree) : Bytes32 :=
  if t.leaves = [] then t.settings.emptyRoot
  else ((t.rows.getLast?).bind List.head?).getD t.settings.emptyRoot

/-- The number of leaves before a byte string: the place where it is or would be. -/
def position (t : Tree) (bytes : Bytes) : Nat :=
  (t.leaves.takeWhile fun leaf => leaf.bytes.before bytes).length

def index? (t : Tree) (leaf : Bytes) : Option Nat :=
  match t.leaves[t.position leaf]? with
  | some found => if found.bytes = leaf then some (t.position leaf) else none
  | none => none

def contains (t : Tree) (leaf : Bytes) : Bool := (t.index? leaf).isSome

/-- Whether a value is a leaf; only immutable byte strings can be. -/
def containsValue (t : Tree) : Value → Bool
  | .bytes leaf => t.contains leaf
  | _ => false

/-- Why there is no evidence to make. -/
inductive Refusal where
  | absent (leaf : Bytes)
  | present (candidate : Bytes)
  | candidateLength (length : Nat)
deriving DecidableEq

def Refusal.message : Refusal → String
  | .absent leaf => "Leaf " ++ Hex.encode leaf ++ " is not in the tree"
  | .present candidate => "Candidate " ++ Hex.encode candidate ++ " is present in the tree"
  | .candidateLength length => s!"Candidate must be 32 bytes, got {length}"

def indexOf (t : Tree) (leaf : Bytes) : Except Refusal Nat :=
  match t.index? leaf with
  | some index => .ok index
  | none => .error (.absent leaf)

/-- The path of a leaf at a place. -/
def path (t : Tree) (leaf : Bytes32) (index : Nat) : Path where
  leaf := leaf.bytes
  levels := pathLevels t.settings.fanout (t.rows.map fun row => row.map (·.bytes)) index

/-- The path of a leaf, `prove_inclusion` [SPEC_FULL 7.2]. -/
def proveInclusion (t : Tree) (leaf : Bytes) : Except Refusal Path :=
  match t.leaves[t.position leaf]? with
  | some found =>
      if found.bytes = leaf then .ok (t.path found (t.position leaf)) else .error (.absent leaf)
  | none => .error (.absent leaf)

/-- Evidence that a hash is no leaf, `prove_exclusion` [SPEC_FULL 7.2]. -/
def proveExclusion (t : Tree) (candidate : Bytes) : Except Refusal Absence :=
  if candidate.length ≠ hashLength then .error (.candidateLength candidate.length)
  else
    let position := t.position candidate
    let before? := if position = 0 then none else t.leaves[position - 1]?
    match before?, t.leaves[position]? with
    | none, none => .ok .empty
    | some before, none => .ok (.right (t.path before (position - 1)))
    | none, some after =>
        if after.bytes = candidate then .error (.present candidate)
        else .ok (.left (t.path after position))
    | some before, some after =>
        if after.bytes = candidate then .error (.present candidate)
        else .ok (.inner (t.path before (position - 1)) (t.path after position))

/-- Evidence of presence or absence, whichever holds, `prove` [SPEC_FULL 7.2]. -/
def prove (t : Tree) (candidate : Bytes) : Except Refusal (Path ⊕ Absence) :=
  if t.contains candidate then (t.proveInclusion candidate).map .inl
  else (t.proveExclusion candidate).map .inr

end Tree

end SlotEvidence
