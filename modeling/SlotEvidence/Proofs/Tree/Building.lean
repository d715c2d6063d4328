/-
Module: SlotEvidence.Proofs.Tree.Building
Purpose: Which lists make a tree.  The members must be fit for leaves, each of them by itself, and
  the list must ascend; that neighbours ascend is what is checked, and that all members do is what
  the tree relies on.  Of hashes in any order it is only asked that none comes twice, and the order
  in which they are given leaves no trace, neither in the tree nor in the fault.
Trusted boundary: none
Main exports: Tree.FitLeaves, Tree.build_eq_ok_iff, Tree.exists_build_iff, Tree.inOrder,
  Tree.inOrder_eq_of_perm, Tree.strictlyAscending_inOrder_iff, Tree.exists_ofHashes_iff,
  Tree.builds_from_distinct_hashes
-/
import SlotEvidence.Proofs.Tree.Layout
import SlotEvidence.Proofs.Tree.Search

namespace SlotEvidence

namespace Tree

/-- Byte strings that can be leaves: each has the length of a hash, and where incomplete groups are
filled up none is the filler. -/
structure FitLeaves (s : Settings) (hashes : List Bytes) : Prop where
  length : ∀ hash ∈ hashes, hash.length = hashLength
  noFiller : s.padPartialGroups = true → s.emptyChild.bytes ∉ hashes

/-- Every member comes before all later ones. -/
abbrev StrictlyAscending (hashes : List Bytes) : Prop :=
  hashes.Pairwise fun a b => a.before b = true

section Fit

variable {s : Settings}

/-- Whether byte strings can be leaves does not depend on their order. -/
theorem FitLeaves.of_perm {xs ys : List Bytes} (hperm : ys.Perm xs) (h : FitLeaves s xs) :
    FitLeaves s ys where
  length hash hhash := h.length hash (hperm.mem_iff.1 hhash)
  noFiller hpad hfiller := h.noFiller hpad (hperm.mem_iff.1 hfiller)

/-- Whether leaves fit does not depend on their order. -/
theorem fitLeaves_of_perm_iff {xs ys : List Bytes} (hperm : ys.Perm xs) :
    FitLeaves s ys ↔ FitLeaves s xs :=
  ⟨.of_perm hperm.symm, .of_perm hperm⟩

/-- The leaves of a tree can be leaves. -/
theorem fitLeaves_leaves (t : Tree) : FitLeaves t.settings (t.leaves.map (·.bytes)) where
  length := length_of_mem_map_bytes t.leaves
  noFiller hpad hfiller := by
    obtain ⟨leaf, hleaf, hbytes⟩ := List.mem_map.1 hfiller
    exact t.noFiller leaf hleaf hpad (Bytes32.ext hbytes)

theorem strictlyAscending_map_bytes {leaves : List Bytes32} :
    StrictlyAscending (leaves.map (·.bytes)) ↔ Ascending leaves := by
  rw [StrictlyAscending, List.pairwise_map, ascending_iff_pairwise]

/-- No hash comes twice where each lies before the next. -/
theorem StrictlyAscending.nodup {hashes : List Bytes} (h : StrictlyAscending hashes) :
    hashes.Nodup := by
  apply h.imp
  rintro a b hab rfl
  rw [Bytes.before_irrefl] at hab
  cases hab

/-- Ascending lists with the same members are equal. -/
theorem StrictlyAscending.eq_of_perm {xs ys : List Bytes} (hxs : StrictlyAscending xs)
    (hys : StrictlyAscending ys) (hperm : xs.Perm ys) : xs = ys := by
  apply hperm.eq_of_pairwise _ hxs hys
  intro a b _ _ hab hba
  rw [Bytes.not_before_of_before hab] at hba
  cases hba

/-- A tree is built just from its leaves, under its settings. -/
theorem build_eq_ok_iff {hashes : List Bytes} {t : Tree} :
    build s hashes = .ok t ↔ t.settings = s ∧ t.leaves.map (·.bytes) = hashes := by
  constructor
  · exact build_ok
  · rintro ⟨rfl, rfl⟩
    exact build_leaves t

/-- The lists that make a tree are those of ascending members that can be leaves. -/
theorem exists_build_iff {hashes : List Bytes} :
    (∃ t, build s hashes = .ok t) ↔ FitLeaves s hashes ∧ StrictlyAscending hashes := by
  constructor
  · rintro ⟨t, ht⟩
    obtain ⟨rfl, rfl⟩ := build_ok ht
    exact ⟨fitLeaves_leaves t, strictlyAscending_map_bytes.2 t.ascending⟩
  · rintro ⟨hfit, hascending⟩
    obtain ⟨leaves, rfl⟩ : ∃ leaves : List Bytes32, leaves.map (·.bytes) = hashes :=
      ⟨hashes.pmap Bytes32.mk hfit.length, by simp [List.map_pmap]⟩
    have hfillers : ∀ b ∈ leaves, s.padPartialGroups = true → b ≠ s.emptyChild := by
      rintro b hb hpad rfl
      exact hfit.noFiller hpad (List.mem_map_of_mem hb)
    exact ⟨⟨s, leaves, strictlyAscending_map_bytes.1 hascending, hfillers, rowsOf s leaves, rfl⟩,
      build_eq_ok_iff.2 ⟨rfl, rfl⟩⟩

end Fit

/-! ### Hashes in any order

Hashes are sorted first, so that only their lengths, the filler and repetitions can be at fault. -/

section Order

/-- Hashes in the order in which they make a tree. -/
def inOrder (hashes : List Bytes) : List Bytes := hashes.mergeSort fun a b => !b.before a

theorem inOrder_perm (hashes : List Bytes) : (inOrder hashes).Perm hashes :=
  List.mergeSort_perm _ _

/-- No member comes before an earlier one, though the same member may follow. -/
theorem pairwise_inOrder (hashes : List Bytes) :
    (inOrder hashes).Pairwise fun a b => b.before a = false := by
  have htrans : ∀ a b c : Bytes, (!b.before a) = true → (!c.before b) = true →
      (!c.before a) = true := by
    intro a b c hab hbc
    simp only [Bool.not_eq_true'] at hab hbc ⊢
    rcases Bytes.before_total a b with h | rfl | h
    · rcases Bytes.before_total b c with h' | rfl | h'
      · exact Bytes.not_before_of_before (Bytes.before_trans h h')
      · exact hab
      · rw [hbc] at h'
        cases h'
    · exact hbc
    · rw [hab] at h
      cases h
  have htotal : ∀ a b : Bytes, (!b.before a || !a.before b) = true := by
    intro a b
    cases hba : b.before a with
    | false => rfl
    | true => simp [Bytes.not_before_of_before hba]
  refine (List.pairwise_mergeSort htrans htotal hashes).imp ?_
  intro a b h
  rwa [Bool.not_eq_true'] at h

/-- The order of a list is forgotten when it is put in order. -/
theorem inOrder_eq_of_perm {xs ys : List Bytes} (hperm : ys.Perm xs) : inOrder ys = inOrder xs := by
  have hsorted : (inOrder ys).Perm (inOrder xs) :=
    ((inOrder_perm ys).trans hperm).trans (inOrder_perm xs).symm
  apply hsorted.eq_of_pairwise _ (pairwise_inOrder ys) (pairwise_inOrder xs)
  intro a b _ _ hba hab
  rcases Bytes.before_total a b with h | h | h
  · rw [hab] at h
    cases h
  · exact h
  · rw [hba] at h
    cases h

/-- Put in order, a list ascends just when no member comes twice. -/
theorem strictlyAscending_inOrder_iff {hashes : List Bytes} :
    StrictlyAscending (inOrder hashes) ↔ hashes.Nodup := by
  constructor
  · intro h
    exact (inOrder_perm hashes).nodup_iff.1 h.nodup
  · intro h
    have hdistinct : (inOrder hashes).Pairwise (· ≠ ·) := (inOrder_perm hashes).nodup_iff.2 h
    refine ((pairwise_inOrder hashes).and hdistinct).imp ?_
    rintro a b ⟨hba, hne⟩
    rcases Bytes.before_total a b with hab | rfl | hab
    · exact hab
    · exact absurd rfl hne
    · rw [hba] at hab
      cases hab

variable (s : Settings)

theorem ofHashes_eq (hashes : List Bytes) : ofHashes s hashes = build s (inOrder hashes) := rfl

/-- Hashes in any order make a tree when they can be leaves and none comes twice. -/
theorem exists_ofHashes_iff {hashes : List Bytes} :
    (∃ t, ofHashes s hashes = .ok t) ↔ FitLeaves s hashes ∧ hashes.Nodup := by
  rw [ofHashes_eq, exists_build_iff, fitLeaves_of_perm_iff (inOrder_perm hashes),
    strictlyAscending_inOrder_iff]

/-- In whatever order hashes are given, the tree is the same. -/
theorem ofHashes_eq_of_perm {xs ys : List Bytes} (hperm : ys.Perm xs) :
    ofHashes s ys = ofHashes s xs := by
  rw [ofHashes_eq, ofHashes_eq, inOrder_eq_of_perm hperm]

end Order

/-- A list makes a tree when its members are fit for leaves and ascend; hashes in any order make one
when they are fit for leaves and distinct, and the leaves are then the hashes in ascending order.
Another order of the hashes gives the same tree or the same fault. -/
theorem builds_from_distinct_hashes (s : Settings) {xs ys : List Bytes} (hperm : ys.Perm xs) :
    ((∃ t, build s xs = .ok t) ↔ FitLeaves s xs ∧ StrictlyAscending xs) ∧
      ((∃ t, ofHashes s xs = .ok t) ↔ FitLeaves s xs ∧ xs.Nodup) ∧
      (∀ t, ofHashes s xs = .ok t → t.settings = s ∧ (t.leaves.map (·.bytes)).Perm xs ∧
        StrictlyAscending (t.leaves.map (·.bytes))) ∧
      ofHashes s ys = ofHashes s xs := by
  refine ⟨exists_build_iff, exists_ofHashes_iff s, ?_, ofHashes_eq_of_perm s hperm⟩
  intro t ht
  obtain ⟨hsettings, hleaves⟩ := build_ok ht
  refine ⟨hsettings, ?_, strictlyAscending_map_bytes.2 t.ascending⟩
  rw [hleaves]
  exact inOrder_perm xs

/-- Two hashes, the later one first. -/
def laterFirst : List Bytes := [List.replicate hashLength 2, List.replicate hashLength 1]

/-- Two hashes make one tree in whichever order they are given, though only in the ascending order
they make it as they are. -/
theorem laterFirst_builds_in_any_order :
    laterFirst.reverse.Perm laterFirst ∧
      (∃ t, ofHashes .standard laterFirst = .ok t ∧ ofHashes .standard laterFirst.reverse = .ok t ∧
        t.leaves.map (·.bytes) = laterFirst.reverse) ∧
      ¬ ∃ t, build .standard laterFirst = .ok t := by
  have hperm : laterFirst.reverse.Perm laterFirst := List.reverse_perm _
  have hfit : FitLeaves .standard laterFirst := ⟨by decide, by decide⟩
  obtain ⟨hbuild, hmade, hleaves, hsame⟩ := builds_from_distinct_hashes .standard hperm
  obtain ⟨t, ht⟩ := hmade.2 ⟨hfit, by decide⟩
  refine ⟨hperm, ⟨t, ht, hsame.trans ht, ?_⟩, ?_⟩
  · obtain ⟨-, hmembers, hascending⟩ := hleaves t ht
    exact hascending.eq_of_perm (by decide) (hmembers.trans hperm.symm)
  · rw [hbuild]
    rintro ⟨-, hascending⟩
    revert hascending
    decide

end Tree

end SlotEvidence
