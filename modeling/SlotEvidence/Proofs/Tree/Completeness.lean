/-
Module: SlotEvidence.Proofs.Tree.Completeness
Purpose: A tree makes evidence for every hash: a path if the hash is a leaf, else evidence of
  absence from the place where the leaf would be.  What it makes is accepted against its root,
  whatever the hash function does.
Trusted boundary: none
Main exports: Tree.Gap, Tree.gap_of_not_mem, Tree.Gap.exists_accepted,
  Tree.exists_accepted_path, Tree.evidence_for_every_hash
-/
import SlotEvidence.Proofs.Tree.Exclusion

namespace SlotEvidence

namespace Tree

/-! ### Where a hash lies that is no leaf

The search for a hash ends at the place where it would have to be put in. -/

/-- The place of a hash among the leaves of a tree that do not hold it. -/
inductive Gap (t : Tree) (candidate : Bytes) : Prop
  | empty (no_leaves : t.leaves = [])
  | left {b : Bytes32} (first : t.leaves[0]? = some b) (below : candidate.before b.bytes = true)
  | right {place : Nat} {a : Bytes32} (here : t.leaves[place]? = some a)
      (last : place + 1 = t.leaves.length) (above : a.bytes.before candidate = true)
  | inner {place : Nat} {a b : Bytes32} (here : t.leaves[place]? = some a)
      (next : t.leaves[place + 1]? = some b) (above : a.bytes.before candidate = true)
      (below : candidate.before b.bytes = true)

section Gap

variable (t : Tree) {candidate : Bytes}

/-- What is no leaf comes before the leaf that is found at its place. -/
theorem before_of_position (hmem : candidate ∉ t.leaves.map (·.bytes)) {b : Bytes32}
    (hb : t.leaves[t.position candidate]? = some b) : candidate.before b.bytes = true := by
  have hstop := t.not_before_of_position hb
  rcases Bytes.before_total b.bytes candidate with habove | heq | hbelow
  · rw [hstop] at habove
    cases habove
  · exact absurd (List.mem_map.2 ⟨b, List.mem_of_getElem? hb, heq⟩) hmem
  · exact hbelow

/-- Every hash that is no leaf lies before the first leaf, after the last one or between two
neighbours, if there are leaves. -/
theorem gap_of_not_mem (hmem : candidate ∉ t.leaves.map (·.bytes)) : t.Gap candidate := by
  have hbelow : ∀ b, t.leaves[t.position candidate]? = some b → candidate.before b.bytes = true :=
    fun _ hb => t.before_of_position hmem hb
  have habove : ∀ i < t.position candidate, ∀ b, t.leaves[i]? = some b →
      b.bytes.before candidate = true := fun _ hi _ hb => t.before_of_lt_position hi hb
  have hle := t.position_le_length candidate
  generalize t.position candidate = position at hbelow habove hle
  cases position with
  | zero =>
      cases hfirst : t.leaves[0]? with
      | none =>
          have hlength := Nat.le_zero.1 (List.getElem?_eq_none_iff.1 hfirst)
          exact .empty (List.length_eq_zero_iff.1 hlength)
      | some b => exact .left hfirst (hbelow b hfirst)
  | succ place =>
      have hhere : t.leaves[place]? = some t.leaves[place] := List.getElem?_eq_getElem hle
      have hlow := habove place (Nat.lt_succ_self place) _ hhere
      cases hnext : t.leaves[place + 1]? with
      | none =>
          have hlast := Nat.le_antisymm hle (List.getElem?_eq_none_iff.1 hnext)
          exact .right hhere hlast hlow
      | some b => exact .inner hhere hnext hlow (hbelow b hnext)

end Gap

/-! ### Paths along the borders of a tree

The path to the last leaf holds the last place of each group on its way. -/

section Borders

variable (t : Tree) {place : Nat}

/-- The levels of a path that was made are those of the node above its leaf, height by height. -/
theorem exists_height_of_mem_levels {b : Bytes32} (hb : t.leaves[place]? = some b) {level : Level}
    (h : level ∈ (t.path b place).levels) : ∃ height, level = t.honestLevel place height := by
  rw [t.levels_path (List.ne_nil_of_mem (List.mem_of_getElem? hb))] at h
  obtain ⟨height, -, rfl⟩ := List.mem_map.1 h
  exact ⟨height, rfl⟩

/-- The ancestors of the last leaf are the last nodes of their rows. -/
theorem succ_ancestor_of_last (hlast : place + 1 = t.leaves.length) (height : Nat) :
    ancestor t.settings.fanout height place + 1 = (t.row height).length := by
  induction height with
  | zero => exact hlast
  | succ height ih =>
      have hround : ancestor t.settings.fanout height place + 1 + t.settings.fanout - 1 =
          ancestor t.settings.fanout height place + t.settings.fanout := by
        omega
      rw [ancestor_succ, row_succ, length_parents, ← ih, hround,
        Nat.add_div_right _ t.settings.fanout_pos]

/-- On the path of the last leaf no node comes after the leaf's ancestors. -/
theorem isLast_honestLevel (hlast : place + 1 = t.leaves.length) (height : Nat) :
    Absence.isLast t.settings (t.honestLevel place height) = true := by
  have hplace : place < t.leaves.length := by
    rw [← hlast]
    exact Nat.lt_succ_self place
  have hlength := length_siblings_honestLevel height hplace
  have htrailing : (t.honestLevel place height).siblings.drop
      (t.honestLevel place height).index = [] := by
    apply List.drop_eq_nil_of_le
    rw [group, length_sliceAt, List.length_map, ← t.succ_ancestor_of_last hlast height,
      ancestor_succ] at hlength
    -- the group ends with its row, and the row with the ancestor of the last leaf
    rw [index_honestLevel, Nat.mod_eq_sub_div_mul]
    omega
  simp only [Absence.isLast, htrailing, List.all_nil, List.isEmpty_nil, ite_self]

end Borders

/-! ### What a tree makes is accepted

The four cases of a gap are the four forms of the evidence. -/

section Accepted

variable (t : Tree) {candidate : Bytes}

/-- The path that a tree makes for a leaf is accepted. -/
theorem exists_accepted_path (hmem : candidate ∈ t.leaves.map (·.bytes)) :
    ∃ p : Path, t.proveInclusion candidate = .ok p ∧ p.leaf = candidate ∧
      (p.verify t.settings t.root.bytes).ok = true := by
  obtain ⟨b, hb, rfl⟩ := List.mem_map.1 hmem
  obtain ⟨place, hplace⟩ := List.getElem?_of_mem hb
  have hself := t.upToFillers_refl hplace
  refine ⟨t.path b place, t.proveInclusion_of_getElem? hplace, rfl, ?_⟩
  exact Path.verify_ok_iff.2
    ⟨t.defect?_of_upToFillers hplace hself, t.root_of_upToFillers hplace hself⟩

/-- The path of the first leaf is accepted for what comes before it. -/
theorem verify_left (hlength : candidate.length = hashLength) {b : Bytes32}
    (hb : t.leaves[0]? = some b) (hbelow : candidate.before b.bytes = true) :
    ((Absence.left (t.path b 0)).verify t.settings candidate t.root.bytes).ok = true := by
  have hself := t.upToFillers_refl hb
  rw [Absence.verify_ok_iff, Absence.objection?_left_eq_none_iff]
  refine ⟨hlength, t.defect?_of_upToFillers hb hself, ?_, hbelow, t.root_of_upToFillers hb hself⟩
  intro level hlevel
  obtain ⟨height, rfl⟩ := t.exists_height_of_mem_levels hb hlevel
  rw [index_honestLevel, ancestor_zero, Nat.zero_mod]

/-- The path of the last leaf is accepted for what comes after it. -/
theorem verify_right (hlength : candidate.length = hashLength) {place : Nat} {a : Bytes32}
    (ha : t.leaves[place]? = some a) (hlast : place + 1 = t.leaves.length)
    (habove : a.bytes.before candidate = true) :
    ((Absence.right (t.path a place)).verify t.settings candidate t.root.bytes).ok = true := by
  have hself := t.upToFillers_refl ha
  rw [Absence.verify_ok_iff, Absence.objection?_right_eq_none_iff]
  refine ⟨hlength, t.defect?_of_upToFillers ha hself, ?_, habove, t.root_of_upToFillers ha hself⟩
  intro level hlevel
  obtain ⟨height, rfl⟩ := t.exists_height_of_mem_levels ha hlevel
  exact t.isLast_honestLevel hlast height

variable {t}

/-- For a hash in a gap the tree makes evidence of absence, and it is accepted. -/
theorem Gap.exists_accepted (h : t.Gap candidate) (hlength : candidate.length = hashLength) :
    ∃ a : Absence, t.proveExclusion candidate = .ok a ∧
      (a.verify t.settings candidate t.root.bytes).ok = true := by
  cases h with
  | empty hnil =>
      have hroot : t.root.bytes = t.settings.emptyRoot.bytes := by
        rw [t.root_of_leaves_eq_nil hnil]
        rfl
      refine ⟨.empty, t.proveExclusion_empty hlength hnil, ?_⟩
      rw [Absence.verify_ok_iff, Absence.objection?_empty_eq_none_iff]
      exact ⟨hlength, hroot⟩
  | left hb hbelow =>
      exact ⟨_, t.proveExclusion_left hlength hb hbelow, t.verify_left hlength hb hbelow⟩
  | right ha hlast habove =>
      exact ⟨_, t.proveExclusion_right hlength ha hlast habove,
        t.verify_right hlength ha hlast habove⟩
  | inner ha hb habove hbelow =>
      exact ⟨_, t.proveExclusion_inner hlength ha hb habove hbelow,
        t.verify_inner hlength ha hb habove hbelow⟩

variable (t)

/-- For a hash that is no leaf the tree makes evidence of absence, and it is accepted. -/
theorem exists_accepted_absence (hlength : candidate.length = hashLength)
    (hmem : candidate ∉ t.leaves.map (·.bytes)) :
    ∃ a : Absence, t.proveExclusion candidate = .ok a ∧
      (a.verify t.settings candidate t.root.bytes).ok = true :=
  (t.gap_of_not_mem hmem).exists_accepted hlength

/-! ### Evidence of the other kind

A hash that is a leaf has no evidence of absence, and a hash that is none has no path. -/

/-- For a hash that is no leaf there is no path. -/
theorem proveInclusion_of_not_mem (hmem : candidate ∉ t.leaves.map (·.bytes)) :
    t.proveInclusion candidate = .error (.absent candidate) := by
  unfold proveInclusion
  cases hfound : t.leaves[t.position candidate]? with
  | none => rfl
  | some found =>
      have hne : found.bytes ≠ candidate := by
        intro heq
        exact hmem (List.mem_map.2 ⟨found, List.mem_of_getElem? hfound, heq⟩)
      simp only [if_neg hne]

/-- A path that the tree makes begins at the hash that was asked for and is accepted. -/
theorem accepted_of_proveInclusion {p : Path} (h : t.proveInclusion candidate = .ok p) :
    p.leaf = candidate ∧ (p.verify t.settings t.root.bytes).ok = true := by
  by_cases hmem : candidate ∈ t.leaves.map (·.bytes)
  · obtain ⟨q, hprove, hleaf, hok⟩ := t.exists_accepted_path hmem
    rw [h] at hprove
    cases hprove
    exact ⟨hleaf, hok⟩
  · rw [t.proveInclusion_of_not_mem hmem] at h
    cases h

/-- The lookup finds just the leaves. -/
theorem contains_iff : t.contains candidate = true ↔ candidate ∈ t.leaves.map (·.bytes) := by
  constructor
  · intro h
    unfold contains index? at h
    cases hfound : t.leaves[t.position candidate]? with
    | none => simp [hfound] at h
    | some found =>
        simp only [hfound] at h
        split at h
        · rename_i heq
          exact List.mem_map.2 ⟨found, List.mem_of_getElem? hfound, heq⟩
        · cases h
  · intro h
    obtain ⟨b, hb, rfl⟩ := List.mem_map.1 h
    obtain ⟨place, hplace⟩ := List.getElem?_of_mem hb
    simp [contains, index?, t.position_of_getElem? hplace, hplace]

end Accepted

/-- For every hash the tree makes just one kind of evidence: a path from the hash if it is a leaf,
and evidence of absence if it is not.  Asked for either kind it hands out this one, and it is
accepted against the root of the tree.  Nothing is assumed of the hash function. -/
theorem evidence_for_every_hash {s : Settings} {leaves : List Bytes} {t : Tree}
    (h : build s leaves = .ok t) {candidate : Bytes} (hlength : candidate.length = hashLength) :
    (candidate ∈ leaves ∧ ∃ p : Path, t.proveInclusion candidate = .ok p ∧ p.leaf = candidate ∧
      t.proveExclusion candidate = .error (.present candidate) ∧
      t.prove candidate = .ok (.inl p) ∧ (p.verify s t.root.bytes).ok = true) ∨
    (candidate ∉ leaves ∧ ∃ a : Absence, t.proveExclusion candidate = .ok a ∧
      t.proveInclusion candidate = .error (.absent candidate) ∧
      t.prove candidate = .ok (.inr a) ∧ (a.verify s candidate t.root.bytes).ok = true) := by
  obtain ⟨rfl, rfl⟩ := build_ok h
  by_cases hmem : candidate ∈ t.leaves.map (·.bytes)
  · obtain ⟨p, hprove, hleaf, hok⟩ := t.exists_accepted_path hmem
    have hevidence : t.prove candidate = .ok (.inl p) := by
      rw [prove, if_pos (t.contains_iff.2 hmem), hprove]
      rfl
    exact .inl ⟨hmem, p, hprove, hleaf, t.proveExclusion_of_mem hmem, hevidence, hok⟩
  · obtain ⟨a, hprove, hok⟩ := t.exists_accepted_absence hlength hmem
    have hcontains : ¬ t.contains candidate = true := fun hfound => hmem (t.contains_iff.1 hfound)
    have hevidence : t.prove candidate = .ok (.inr a) := by
      rw [prove, if_neg hcontains, hprove]
      rfl
    exact .inr ⟨hmem, a, hprove, t.proveInclusion_of_not_mem hmem, hevidence, hok⟩

/-- The evidence that a small tree makes for a hash after its last leaf, whose group is filled
up. -/
theorem sample_evidence_past_last_leaf :
    build sample.settings (sample.leaves.map (·.bytes)) = .ok sample ∧
      (uniform 5).bytes.length = hashLength ∧
      (((uniform 5).bytes ∈ sample.leaves.map (·.bytes) ∧ ∃ p : Path,
        sample.proveInclusion (uniform 5).bytes = .ok p ∧ p.leaf = (uniform 5).bytes ∧
        sample.proveExclusion (uniform 5).bytes = .error (.present (uniform 5).bytes) ∧
        sample.prove (uniform 5).bytes = .ok (.inl p) ∧
        (p.verify sample.settings sample.root.bytes).ok = true) ∨
      ((uniform 5).bytes ∉ sample.leaves.map (·.bytes) ∧ ∃ a : Absence,
        sample.proveExclusion (uniform 5).bytes = .ok a ∧
        sample.proveInclusion (uniform 5).bytes = .error (.absent (uniform 5).bytes) ∧
        sample.prove (uniform 5).bytes = .ok (.inr a) ∧
        (a.verify sample.settings (uniform 5).bytes sample.root.bytes).ok = true)) :=
  ⟨build_leaves sample, (uniform 5).length_bytes,
    evidence_for_every_hash (build_leaves sample) (uniform 5).length_bytes⟩

end Tree

end SlotEvidence
