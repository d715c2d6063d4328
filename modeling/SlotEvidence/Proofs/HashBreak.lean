/-
Module: SlotEvidence.Proofs.HashBreak
Purpose: What it means that a computation breaks the hash function.  Of the hash function nothing is
  assumed but the length of its digests, so that soundness holds unless two byte strings which
  were really hashed have one digest, or the digest of a group is the filler of incomplete groups.
Trusted boundary: none
Main exports: Collision, FillerDigest, HashBreak, eq_of_not_collision, eq_of_digest_eq,
  digest_ne_emptyChild
-/
import SlotEvidence.Settings

namespace SlotEvidence

/-- Two different byte strings of a list have one digest. -/
def Collision (s : Settings) (hashed : List Bytes) : Prop :=
  ∃ a ∈ hashed, ∃ b ∈ hashed, a ≠ b ∧ s.digest a = s.digest b

/-- Incomplete groups are filled up, and the digest of one of the given groups is the filler. -/
def FillerDigest (s : Settings) (groups : List Bytes) : Prop :=
  s.padPartialGroups = true ∧ ∃ group ∈ groups, s.digest group = s.emptyChild

/-- The hash function is broken by what was hashed for groups of nodes and for other things. -/
def HashBreak (s : Settings) (groups others : List Bytes) : Prop :=
  Collision s (groups ++ others) ∨ FillerDigest s groups

variable {s : Settings}

/-- A collision stays one when more is hashed. -/
theorem Collision.mono {few many : List Bytes} (hsub : few ⊆ many) (h : Collision s few) :
    Collision s many := by
  obtain ⟨a, ha, b, hb, hne, hdigest⟩ := h
  exact ⟨a, hsub ha, b, hsub hb, hne, hdigest⟩

/-- A group whose digest is the filler stays one among more groups. -/
theorem FillerDigest.mono {few many : List Bytes} (hsub : few ⊆ many) (h : FillerDigest s few) :
    FillerDigest s many := by
  obtain ⟨hpad, group, hgroup, hdigest⟩ := h
  exact ⟨hpad, group, hsub hgroup, hdigest⟩

section Safe

variable {groups others : List Bytes}

/-- Without a collision, byte strings that were hashed are known by their digests. -/
theorem eq_of_not_collision {hashed : List Bytes} (hsafe : ¬ Collision s hashed) {a b : Bytes}
    (ha : a ∈ hashed) (hb : b ∈ hashed) (h : s.digest a = s.digest b) : a = b := by
  apply Decidable.byContradiction
  intro hne
  exact hsafe ⟨a, ha, b, hb, hne, h⟩

/-- Without a break, byte strings that were hashed and have the same hash are equal. -/
theorem eq_of_digest_eq (hsafe : ¬ HashBreak s groups others) {a b : Bytes}
    (ha : a ∈ groups ++ others) (hb : b ∈ groups ++ others) (h : s.digest a = s.digest b) :
    a = b := by
  apply eq_of_not_collision _ ha hb h
  intro hcollision
  exact hsafe (.inl hcollision)

/-- Without a break, the digest of a group is not the filler. -/
theorem digest_ne_emptyChild (hsafe : ¬ HashBreak s groups others)
    (hpad : s.padPartialGroups = true) {group : Bytes} (hgroup : group ∈ groups) :
    s.digest group ≠ s.emptyChild := by
  intro h
  exact hsafe (.inr ⟨hpad, group, hgroup, h⟩)

end Safe

end SlotEvidence
