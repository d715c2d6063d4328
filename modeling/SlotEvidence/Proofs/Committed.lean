/-
Module: SlotEvidence.Proofs.Committed
Purpose: The things that a commitment can be the hash of are never taken for one another.  No
  lengths are hashed with them, but what is hashed for each kind has a length of its own when whole
  hashes are left out of account: a tag of one byte for a group of nodes, a number of eight bytes
  for a bank, one of four bytes for an account and nothing for a tree without leaves.
Trusted boundary: none
Main exports: Committed, Committed.preimage, Committed.digest, Committed.Same,
  Committed.length_preimage_mod, Committed.same_of_preimage_eq, Committed.same_of_digest_eq,
  Committed.preimages_faithful
-/
import Mathlib.Data.List.Basic
import SlotEvidence.Proofs.Bank
import SlotEvidence.Proofs.Blob
import SlotEvidence.Proofs.Tree.Preimage

namespace SlotEvidence

/-- What a commitment is the hash of. -/
inductive Committed where
  /-- Sibling nodes, which have the given height. -/
  | group (height : Nat) (children : List Bytes32)
  | bank (parts : Bank)
  | account (commitment : BlobCommitment)
  /-- A tree without leaves. -/
  | noLeaves

namespace Committed

/-- The children of a group, filled up as the settings say. -/
def filledUp (s : Settings) (children : List Bytes32) : List Bytes :=
  Tree.padGroup s (children.map (·.bytes))

/-- The byte string that is hashed. -/
def preimage (s : Settings) : Committed → Bytes
  | .group height children => Tree.groupPreimage s height (children.map (·.bytes))
  | .bank parts => parts.preimage
  | .account commitment => commitment.leafPreimage
  | .noLeaves => []

/-- The commitment itself. -/
def digest (s : Settings) : Committed → Bytes32
  | .group height children => Tree.hashGroup s height (children.map (·.bytes))
  | .bank parts => parts.hash s
  | .account commitment => commitment.leaf s
  | .noLeaves => s.emptyRoot

/-- Two things are one as far as a commitment goes: of groups only whether they are groups of leaves
matters, and the children with the fillers after them. -/
inductive Same (s : Settings) : Committed → Committed → Prop where
  | group {height other : Nat} {children others : List Bytes32}
      (leaves : height = 0 ↔ other = 0) (filled : filledUp s children = filledUp s others) :
      Same s (.group height children) (.group other others)
  | bank (parts : Bank) : Same s (.bank parts) (.bank parts)
  | account (commitment : BlobCommitment) : Same s (.account commitment) (.account commitment)
  | noLeaves : Same s .noLeaves .noLeaves

/-- The bytes beside whole hashes in what is hashed. -/
def surplus : Committed → Nat
  | .group _ _ => 1
  | .bank _ => 8
  | .account _ => 4
  | .noLeaves => 0

variable {s : Settings}

theorem digest_eq (s : Settings) (x : Committed) : x.digest s = s.digest (x.preimage s) := by
  cases x <;> rfl

/-- A group is hashed as its tag and then whole hashes. -/
theorem length_groupPreimage (height : Nat) (children : List Bytes32) :
    (Tree.groupPreimage s height (children.map (·.bytes))).length =
      hashLength * (filledUp s children).length + 1 := by
  have hfilled := Tree.length_of_mem_padGroup (s := s) (length_of_mem_map_bytes children)
  rw [Tree.groupPreimage, List.length_cons, length_flatten_of_hashes hfilled, Nat.mul_comm]
  rfl

/-- The length of what is hashed tells the kinds apart, however many children a group has. -/
theorem length_preimage_mod (s : Settings) (x : Committed) :
    (x.preimage s).length % hashLength = x.surplus := by
  cases x with
  | group height children =>
      rw [preimage, length_groupPreimage, Nat.mul_add_mod]
      rfl
  | bank parts => simp [preimage, Bank.preimage, Bytes32.length_bytes, hashLength, surplus]
  | account commitment =>
      simp [preimage, BlobCommitment.leafPreimage, Bytes32.length_bytes, hashLength, surplus]
  | noLeaves => rfl

/-- What is hashed tells what it is hashed for. -/
theorem same_of_preimage_eq {x y : Committed} (h : x.preimage s = y.preimage s) : Same s x y := by
  -- things of two kinds leave different numbers of bytes beside whole hashes
  have hkind : x.surplus = y.surplus := by
    rw [← length_preimage_mod s x, ← length_preimage_mod s y, h]
  cases x with
  | group height children =>
      cases y with
      | group other others =>
          obtain ⟨hleaves, hchildren⟩ :=
            Tree.groupPreimage_inj (length_of_mem_map_bytes _) (length_of_mem_map_bytes _) h
          exact .group hleaves hchildren
      | bank | account | noLeaves => cases hkind
  | bank parts =>
      cases y with
      | bank others =>
          obtain rfl := Bank.preimage_inj h
          exact .bank parts
      | group | account | noLeaves => cases hkind
  | account commitment =>
      cases y with
      | account other =>
          obtain rfl := BlobCommitment.leafPreimage_inj h
          exact .account commitment
      | group | bank | noLeaves => cases hkind
  | noLeaves =>
      cases y with
      | noLeaves => exact .noLeaves
      | group | bank | account => cases hkind

/-- What is hashed for a thing is decided by its parts. -/
theorem Same.preimage_eq {x y : Committed} (h : Same s x y) : x.preimage s = y.preimage s := by
  cases h with
  | group hleaves hchildren =>
      rw [preimage, preimage, Tree.groupPreimage, Tree.groupPreimage,
        Tree.groupTag_eq_iff.2 hleaves]
      exact congrArg (fun filled => _ :: List.flatten filled) hchildren
  | bank | account | noLeaves => rfl

/-- Groups without fillers among their members are the same only with the same children. -/
theorem Same.children_eq {height other : Nat} {children others : List Bytes32}
    (h : Same s (.group height children) (.group other others))
    (hchildren : s.padPartialGroups = true → s.emptyChild ∉ children)
    (hothers : s.padPartialGroups = true → s.emptyChild ∉ others) : children = others := by
  have hmem {nodes : List Bytes32} :
      s.emptyChild.bytes ∈ nodes.map (·.bytes) ↔ s.emptyChild ∈ nodes :=
    List.mem_map_of_injective fun _ _ => Bytes32.ext
  cases h with
  | group hleaves hfilled =>
      obtain ⟨count, hgiven, hcount⟩ := Tree.exists_fillers_of_padGroup_eq
        (fun hpad => hmem.not.2 (hchildren hpad)) hfilled
      cases count with
      | zero =>
          rw [List.replicate_zero, List.append_nil] at hgiven
          exact (List.map_injective_iff.2 fun _ _ => Bytes32.ext) hgiven.symm
      | succ count =>
          have hpad := hcount.resolve_left (Nat.succ_ne_zero count)
          refine absurd (hmem.1 ?_) (hothers hpad)
          rw [hgiven]
          simp

/-- Without a collision a commitment tells what it was made for. -/
theorem same_of_digest_eq {x y : Committed} (hsafe : ¬ Collision s [x.preimage s, y.preimage s])
    (h : x.digest s = y.digest s) : Same s x y := by
  rw [digest_eq, digest_eq] at h
  exact same_of_preimage_eq (eq_of_not_collision hsafe (by simp) (by simp) h)

/-- Each commitment is the hash of a byte string, and the byte strings of two things are equal when
the things are the same as far as a commitment goes, and not otherwise. -/
theorem preimages_faithful (s : Settings) (x y : Committed) :
    x.digest s = s.digest (x.preimage s) ∧ y.digest s = s.digest (y.preimage s) ∧
      (x.preimage s = y.preimage s ↔ Same s x y) :=
  ⟨digest_eq s x, digest_eq s y, same_of_preimage_eq, Same.preimage_eq⟩

end Committed

end SlotEvidence
