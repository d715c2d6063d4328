/-
Module: SlotEvidence.Proofs.Tree.Preimage
Purpose: What the byte string that is hashed for a group tells about the group: whether its
  children are leaves, and the children themselves up to fillers at the end.
Trusted boundary: none
Main exports: length_flatten_of_hashes, eq_of_flatten_eq, Tree.groupPreimage_inj,
  Tree.padGroup_append_fillers, Tree.exists_fillers_of_padGroup_eq
-/
import SlotEvidence.Tree.Group

namespace SlotEvidence

/-- Byte strings of the length of a hash are as long as so many hashes in a row. -/
theorem map_length_eq_replicate {xs : List Bytes} (h : ∀ x ∈ xs, x.length = hashLength) :
    xs.map List.length = List.replicate xs.length hashLength :=
  List.eq_replicate_iff.2 ⟨List.length_map _, by simpa using h⟩

theorem length_flatten_of_hashes {xs : List Bytes} (h : ∀ x ∈ xs, x.length = hashLength) :
    xs.flatten.length = xs.length * hashLength := by
  rw [List.length_flatten, map_length_eq_replicate h, List.sum_replicate_nat]

/-- Byte strings of the length of a hash can be told apart in a row of them. -/
theorem eq_of_flatten_eq {xs ys : List Bytes} (hxs : ∀ x ∈ xs, x.length = hashLength)
    (hys : ∀ y ∈ ys, y.length = hashLength) (h : xs.flatten = ys.flatten) : xs = ys := by
  have hlength : xs.length * hashLength = ys.length * hashLength := by
    rw [← length_flatten_of_hashes hxs, ← length_flatten_of_hashes hys, h]
  have hcount : xs.length = ys.length := Nat.eq_of_mul_eq_mul_right (by decide) hlength
  refine List.eq_iff_flatten_eq.2 ⟨h, ?_⟩
  rw [map_length_eq_replicate hxs, map_length_eq_replicate hys, hcount]

namespace Tree

variable {s : Settings}

theorem padGroup_of_not_pad (hpad : s.padPartialGroups = false) (children : List Bytes) :
    padGroup s children = children := by
  simp [padGroup, hpad]

/-- A padded group has fillers at the places that its children leave. -/
theorem padGroup_of_pad (hpad : s.padPartialGroups = true) (children : List Bytes) :
    padGroup s children =
      children ++ List.replicate (s.fanout - children.length) s.emptyChild.bytes := by
  simp [padGroup, hpad]

/-- Filling up a group adds no member of another length. -/
theorem length_of_mem_padGroup {children : List Bytes}
    (hchildren : ∀ c ∈ children, c.length = hashLength) :
    ∀ c ∈ padGroup s children, c.length = hashLength := by
  intro c hc
  cases hpad : s.padPartialGroups with
  | false =>
      rw [padGroup_of_not_pad hpad] at hc
      exact hchildren c hc
  | true =>
      rw [padGroup_of_pad hpad] at hc
      rcases List.mem_append.1 hc with hc | hc
      · exact hchildren c hc
      · rw [List.eq_of_mem_replicate hc]
        exact s.emptyChild.length_bytes

/-- Fillers that are listed already make no difference to the group when it is filled up. -/
theorem padGroup_append_fillers (hpad : s.padPartialGroups = true) {children : List Bytes}
    {count : Nat} (hroom : children.length + count ≤ s.fanout) :
    padGroup s (children ++ List.replicate count s.emptyChild.bytes) = padGroup s children := by
  have hcount : count + (s.fanout - (children.length + count)) = s.fanout - children.length := by
    omega
  rw [padGroup_of_pad hpad, padGroup_of_pad hpad, List.length_append, List.length_replicate,
    List.append_assoc, List.replicate_append_replicate, hcount]

/-- Of two groups that are one when filled up, if the first has no filler among its members then
the second is the first with fillers at the end, of which there are none unless groups are filled
up. -/
theorem exists_fillers_of_padGroup_eq {real given : List Bytes}
    (hreal : s.padPartialGroups = true → s.emptyChild.bytes ∉ real)
    (h : padGroup s real = padGroup s given) :
    ∃ count, given = real ++ List.replicate count s.emptyChild.bytes ∧
      (count = 0 ∨ s.padPartialGroups = true) := by
  cases hpad : s.padPartialGroups with
  | false =>
      rw [padGroup_of_not_pad hpad, padGroup_of_not_pad hpad] at h
      exact ⟨0, by simp [h], .inl rfl⟩
  | true =>
      rw [padGroup_of_pad hpad, padGroup_of_pad hpad] at h
      rcases List.append_eq_append_iff.1 h with ⟨rest, hgiven, hfill⟩ | ⟨rest, hrest, hfill⟩
      · -- the given group goes on after the real one, and all that follows is filler
        have hfiller := (List.append_eq_replicate_iff.1 hfill.symm).2.1
        exact ⟨rest.length, by rw [hgiven, ← hfiller], .inr rfl⟩
      · -- the real group goes on after the given one, so that what follows would be filler
        have hfiller := (List.append_eq_replicate_iff.1 hfill.symm).2.1
        cases rest with
        | nil => exact ⟨0, by simpa using hrest.symm, .inl rfl⟩
        | cons x rest =>
            have hx : x = s.emptyChild.bytes := by
              apply List.eq_of_mem_replicate (n := (x :: rest).length)
              rw [← hfiller]
              exact List.mem_cons_self
            have hmem : s.emptyChild.bytes ∈ real := by
              rw [hrest, hx]
              simp
            exact absurd hmem (hreal hpad)

/-- The tag tells groups of leaves from all others. -/
theorem groupTag_eq_iff {height other : Nat} :
    groupTag height = groupTag other ↔ (height = 0 ↔ other = 0) := by
  unfold groupTag
  by_cases h : height = 0 <;> by_cases ho : other = 0 <;> simp [h, ho]

/-- What is hashed for a group is never the empty byte string. -/
theorem groupPreimage_ne_nil (height : Nat) (children : List Bytes) :
    groupPreimage s height children ≠ [] :=
  List.cons_ne_nil _ _

/-- What is hashed for a group tells whether the children are leaves, and the children after the
group was filled up. -/
theorem groupPreimage_inj {height other : Nat} {xs ys : List Bytes}
    (hxs : ∀ x ∈ xs, x.length = hashLength) (hys : ∀ y ∈ ys, y.length = hashLength)
    (h : groupPreimage s height xs = groupPreimage s other ys) :
    (height = 0 ↔ other = 0) ∧ padGroup s xs = padGroup s ys := by
  obtain ⟨htag, hflatten⟩ := List.cons.inj h
  refine ⟨groupTag_eq_iff.1 htag, ?_⟩
  exact eq_of_flatten_eq (length_of_mem_padGroup hxs) (length_of_mem_padGroup hys) hflatten

end Tree

end SlotEvidence
