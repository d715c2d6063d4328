/-
Module: SlotEvidence.Proofs.Tree.Search
Purpose: Where a byte string lies among the sorted leaves of a tree, and which evidence is made from
  the place.
Trusted boundary: none
Main exports: Tree.ascending_iff_pairwise, Tree.position_eq, Tree.proveInclusion_of_getElem?,
  Tree.proveExclusion_of_mem, Tree.proveExclusion_left, Tree.proveExclusion_right,
  Tree.proveExclusion_inner
-/
import SlotEvidence.Tree

namespace SlotEvidence

/-- Of two byte strings at most one comes first. -/
theorem Bytes.not_before_of_before {a b : Bytes} (h : a.before b = true) :
    b.before a = false := by
  cases hba : b.before a with
  | false => rfl
  | true =>
      have haa := Bytes.before_trans h hba
      rw [Bytes.before_irrefl] at haa
      cases haa

namespace Tree

/-- In an ascending list every member comes before all later ones. -/
theorem ascending_iff_pairwise {leaves : List Bytes32} :
    Ascending leaves ↔ leaves.Pairwise fun a b => a.bytes.before b.bytes = true := by
  induction leaves with
  | nil => exact ⟨fun _ => .nil, fun _ => trivial⟩
  | cons a rest ih =>
      cases rest with
      | nil => exact ⟨fun _ => List.pairwise_singleton _ _, fun _ => trivial⟩
      | cons b rest =>
          rw [Ascending, ih, List.pairwise_cons (a := a)]
          constructor
          · rintro ⟨hab, hrest⟩
            refine ⟨?_, hrest⟩
            intro c hc
            rcases List.mem_cons.1 hc with rfl | hc
            · exact hab
            · exact Bytes.before_trans hab ((List.pairwise_cons.1 hrest).1 c hc)
          · rintro ⟨hfirst, hrest⟩
            exact ⟨hfirst b List.mem_cons_self, hrest⟩

section Position

variable (t : Tree)

/-- A leaf comes before every leaf at a later place. -/
theorem before_of_lt {i j : Nat} {a b : Bytes32} (hij : i < j) (ha : t.leaves[i]? = some a)
    (hb : t.leaves[j]? = some b) : a.bytes.before b.bytes = true := by
  obtain ⟨hi, rfl⟩ := List.getElem?_eq_some_iff.1 ha
  obtain ⟨hj, rfl⟩ := List.getElem?_eq_some_iff.1 hb
  exact List.pairwise_iff_getElem.1 (ascending_iff_pairwise.1 t.ascending) i j hi hj hij

/-- The place of a byte string is the only one with earlier leaves before it and no earlier leaf
after it. -/
theorem position_eq {bytes : Bytes} {place : Nat} (hplace : place ≤ t.leaves.length)
    (hbefore : ∀ i < place, ∀ b, t.leaves[i]? = some b → b.bytes.before bytes = true)
    (hstop : ∀ b, t.leaves[place]? = some b → b.bytes.before bytes = false) :
    t.position bytes = place := by
  have htake : ∀ b ∈ t.leaves.take place, b.bytes.before bytes = true := by
    intro b hb
    obtain ⟨i, hi⟩ := List.getElem?_of_mem hb
    rw [List.getElem?_take] at hi
    split at hi
    · exact hbefore i (by assumption) b hi
    · cases hi
  have hdrop : (t.leaves.drop place).takeWhile (fun leaf => leaf.bytes.before bytes) = [] := by
    cases hrest : t.leaves.drop place with
    | nil => rfl
    | cons b rest =>
        have hb : t.leaves[place]? = some b := by
          have := congrArg (·[0]?) hrest
          simpa using this
        simp [hstop b hb]
  rw [position, ← List.take_append_drop place t.leaves, List.takeWhile_append_of_pos htake, hdrop,
    List.append_nil, List.length_take, Nat.min_eq_left hplace]

/-- The place of a leaf is where it is. -/
theorem position_of_getElem? {place : Nat} {b : Bytes32} (h : t.leaves[place]? = some b) :
    t.position b.bytes = place := by
  have hlt : place < t.leaves.length := (List.getElem?_eq_some_iff.1 h).1
  apply t.position_eq (Nat.le_of_lt hlt)
  · intro i hi a ha
    exact t.before_of_lt hi ha h
  · intro a ha
    rw [h] at ha
    cases ha
    exact Bytes.before_irrefl _

/-- The place of what comes after the leaf at a place, and before the next one if there is one. -/
theorem position_after {place : Nat} {a : Bytes32} {bytes : Bytes}
    (ha : t.leaves[place]? = some a) (habove : a.bytes.before bytes = true)
    (hbelow : ∀ b, t.leaves[place + 1]? = some b → bytes.before b.bytes = true) :
    t.position bytes = place + 1 := by
  have hlt : place < t.leaves.length := (List.getElem?_eq_some_iff.1 ha).1
  apply t.position_eq hlt
  · intro i hi b hb
    rcases Nat.lt_or_eq_of_le (Nat.le_of_lt_succ hi) with hlt | rfl
    · exact Bytes.before_trans (t.before_of_lt hlt hb ha) habove
    · rw [ha] at hb
      cases hb
      exact habove
  · intro b hb
    exact Bytes.not_before_of_before (hbelow b hb)

/-- The place of a byte string lies among the leaves or right after them. -/
theorem position_le_length (bytes : Bytes) : t.position bytes ≤ t.leaves.length :=
  (List.takeWhile_prefix _).length_le

/-- The leaves in front of the place of a byte string come before it. -/
theorem before_of_lt_position {bytes : Bytes} {i : Nat} (hi : i < t.position bytes) {b : Bytes32}
    (hb : t.leaves[i]? = some b) : b.bytes.before bytes = true := by
  have hget := List.prefix_iff_getElem?.1
    (List.takeWhile_prefix (fun leaf : Bytes32 => leaf.bytes.before bytes)) i hi
  rw [hb] at hget
  have hall := List.all_eq_true.1 (List.all_takeWhile (p := fun leaf : Bytes32 =>
    leaf.bytes.before bytes)) _ (List.getElem_mem hi)
  rw [Option.some.inj hget]
  exact hall

/-- The leaf at the place of a byte string does not come before it. -/
theorem not_before_of_position {bytes : Bytes} {b : Bytes32}
    (hb : t.leaves[t.position bytes]? = some b) : b.bytes.before bytes = false := by
  have hdrop := List.head?_dropWhile_not (fun leaf : Bytes32 => leaf.bytes.before bytes) t.leaves
  have hsplit := List.takeWhile_append_dropWhile (p := fun leaf : Bytes32 =>
    leaf.bytes.before bytes) (l := t.leaves)
  rw [← hsplit, position, List.getElem?_append_right (Nat.le_refl _), Nat.sub_self,
    ← List.head?_eq_getElem?] at hb
  rw [hb] at hdrop
  simpa using hdrop

/-- The path of a leaf is made from its place. -/
theorem proveInclusion_of_getElem? {place : Nat} {b : Bytes32} (h : t.leaves[place]? = some b) :
    t.proveInclusion b.bytes = .ok (t.path b place) := by
  rw [proveInclusion, t.position_of_getElem? h, h]
  simp

end Position

/-! ### Evidence of absence by the place of the candidate

The place of the candidate among the leaves decides the form of the evidence. -/

section Exclusion

variable (t : Tree) {candidate : Bytes}

/-- For a leaf there is no evidence of absence. -/
theorem proveExclusion_of_mem (h : candidate ∈ t.leaves.map (·.bytes)) :
    t.proveExclusion candidate = .error (.present candidate) := by
  obtain ⟨b, hb, rfl⟩ := List.mem_map.1 h
  obtain ⟨place, hplace⟩ := List.getElem?_of_mem hb
  rw [proveExclusion, if_neg (by simp [b.length_bytes]), t.position_of_getElem? hplace]
  simp only [hplace]
  split <;> simp_all

/-- A tree without leaves has the evidence that it is empty, for every candidate. -/
theorem proveExclusion_empty (hlength : candidate.length = hashLength) (h : t.leaves = []) :
    t.proveExclusion candidate = .ok .empty := by
  simp [proveExclusion, hlength, position, h]

/-- Before the first leaf, the evidence is its path. -/
theorem proveExclusion_left (hlength : candidate.length = hashLength) {b : Bytes32}
    (hb : t.leaves[0]? = some b) (hbefore : candidate.before b.bytes = true) :
    t.proveExclusion candidate = .ok (.left (t.path b 0)) := by
  have hposition : t.position candidate = 0 := by
    apply t.position_eq (Nat.zero_le _)
    · intro i hi
      omega
    · intro a ha
      rw [hb] at ha
      cases ha
      exact Bytes.not_before_of_before hbefore
  have hne : b.bytes ≠ candidate := by
    rintro rfl
    rw [Bytes.before_irrefl] at hbefore
    cases hbefore
  simp [proveExclusion, hlength, hposition, hb, hne]

/-- After the last leaf, the evidence is its path. -/
theorem proveExclusion_right (hlength : candidate.length = hashLength) {place : Nat} {a : Bytes32}
    (ha : t.leaves[place]? = some a) (hlast : place + 1 = t.leaves.length)
    (habove : a.bytes.before candidate = true) :
    t.proveExclusion candidate = .ok (.right (t.path a place)) := by
  have hnone : t.leaves[place + 1]? = none := List.getElem?_eq_none (by omega)
  have hposition : t.position candidate = place + 1 := by
    apply t.position_after ha habove
    intro b hb
    rw [hnone] at hb
    cases hb
  simp [proveExclusion, hlength, hposition, ha, hnone]

/-- Between two neighbours, the evidence is the paths of both. -/
theorem proveExclusion_inner (hlength : candidate.length = hashLength) {place : Nat}
    {a b : Bytes32} (ha : t.leaves[place]? = some a) (hb : t.leaves[place + 1]? = some b)
    (habove : a.bytes.before candidate = true) (hbelow : candidate.before b.bytes = true) :
    t.proveExclusion candidate = .ok (.inner (t.path a place) (t.path b (place + 1))) := by
  have hposition : t.position candidate = place + 1 := by
    apply t.position_after ha habove
    intro c hc
    rw [hb] at hc
    cases hc
    exact hbelow
  have hne : b.bytes ≠ candidate := by
    rintro rfl
    rw [Bytes.before_irrefl] at hbelow
    cases hbelow
  simp [proveExclusion, hlength, hposition, ha, hb, hne]

end Exclusion

end Tree

end SlotEvidence
