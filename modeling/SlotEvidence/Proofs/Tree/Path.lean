/-
Module: SlotEvidence.Proofs.Tree.Path
Purpose: What a path hashes on its way to the root, when its form is right, and when it differs from
  another one by listed fillers only.
Trusted boundary: none
Main exports: Path.groups, Path.climb_concat, Level.WellFormed, Path.defect?_eq_none_iff,
  Path.verify_ok_iff, Path.verify_settles, Level.UpToFillers,
  Path.UpToFillers, Level.UpToFillers.padGroup_children
-/
import SlotEvidence.Proofs.Outcome
import SlotEvidence.Proofs.Ruling
import SlotEvidence.Proofs.Tree.Preimage
import SlotEvidence.Tree.Path

namespace SlotEvidence

/-! ### The groups on a path

What is hashed on the way from a leaf to the root, one group for each level. -/

namespace Path

section Climb

variable (s : Settings)

/-- The byte strings that are hashed on the way from a node of the given height. -/
def groupsFrom (height : Nat) (node : Bytes) : List Level → List Bytes
  | [] => []
  | level :: rest =>
      Tree.groupPreimage s height (level.children node) ::
        groupsFrom (height + 1) (level.parent s height node).bytes rest

/-- The byte strings that are hashed when the root of a path is computed. -/
def groups (p : Path) : List Bytes := groupsFrom s 0 p.leaf p.levels

/-- The last step of a climb hashes the group in which the steps before it end. -/
theorem climb_concat (height : Nat) (node : Bytes) (lower : List Level) (top : Level) :
    climb s height node (lower ++ [top]) =
      (top.parent s (height + lower.length) (climb s height node lower)).bytes := by
  induction lower generalizing height node with
  | nil => rfl
  | cons level lower ih =>
      rw [List.cons_append, climb, ih, climb, List.length_cons, Nat.add_right_comm, Nat.add_assoc]

/-- The last group on the way up is the one of the top level. -/
theorem groupsFrom_concat (height : Nat) (node : Bytes) (lower : List Level) (top : Level) :
    groupsFrom s height node (lower ++ [top]) =
      groupsFrom s height node lower ++
        [Tree.groupPreimage s (height + lower.length)
          (top.children (climb s height node lower))] := by
  induction lower generalizing height node with
  | nil => rfl
  | cons level lower ih =>
      rw [List.cons_append, groupsFrom, ih, groupsFrom, climb, List.length_cons,
        Nat.add_right_comm, Nat.add_assoc, List.cons_append]

theorem ne_nil_of_mem_groupsFrom {height : Nat} {node group : Bytes} {levels : List Level}
    (h : group ∈ groupsFrom s height node levels) : group ≠ [] := by
  induction levels generalizing height node with
  | nil => cases h
  | cons level rest ih =>
      rcases List.mem_cons.1 h with rfl | h
      · exact Tree.groupPreimage_ne_nil _ _
      · exact ih h

/-- A climb of at least one step ends in the digest of the last group that it hashes. -/
theorem exists_digest_of_climb (height : Nat) (node : Bytes) {levels : List Level}
    (h : levels ≠ []) :
    ∃ group ∈ groupsFrom s height node levels,
      climb s height node levels = (s.digest group).bytes := by
  obtain rfl | ⟨lower, top, rfl⟩ := List.eq_nil_or_concat' levels
  · exact absurd rfl h
  · refine ⟨_, ?_, climb_concat s height node lower top⟩
    rw [groupsFrom_concat]
    exact List.mem_append_right _ (List.mem_singleton.2 rfl)

/-- What a path leads to has the length of a hash. -/
theorem length_climb (height : Nat) {node : Bytes} (hnode : node.length = hashLength)
    (levels : List Level) : (climb s height node levels).length = hashLength := by
  cases levels with
  | nil => exact hnode
  | cons level rest =>
      obtain ⟨group, -, hclimb⟩ :=
        exists_digest_of_climb s height node (List.cons_ne_nil level rest)
      rw [hclimb]
      exact (s.digest group).length_bytes

end Climb

end Path

/-! ### The form of a path

A path has a leaf and at least one level, and all hashes in it have the right length.  No bound on
its length is checked. -/

/-- The form that every level of evidence must have. -/
structure Level.WellFormed (s : Settings) (level : Level) : Prop where
  siblings_lt : level.siblings.length < s.fanout
  index_le : level.index ≤ level.siblings.length
  siblings_hash : ∀ x ∈ level.siblings, x.length = hashLength

namespace Path

variable {s : Settings}

/-- A level has no defect just when it is well formed. -/
theorem levelDefect?_eq_none_iff {height : Nat} {level : Level} :
    levelDefect? s height level = none ↔ level.WellFormed s := by
  have hpos := s.fanout_pos
  unfold levelDefect?
  constructor
  · intro h
    split at h
    · cases h
    · split at h
      · cases h
      · split at h
        · cases h
        · rename_i hmany hindex hany
          exact ⟨by omega, by omega, by simpa using hany⟩
  · intro h
    have hmany : ¬ s.fanout - 1 < level.siblings.length := by
      have := h.siblings_lt
      omega
    have hany : level.siblings.any (·.length ≠ hashLength) = false := by
      simpa using h.siblings_hash
    rw [if_neg hmany, if_neg (Nat.not_lt.2 h.index_le), hany]
    rfl

theorem levelsDefect?_eq_none_iff (height : Nat) {levels : List Level} :
    levelsDefect? s height levels = none ↔ ∀ level ∈ levels, level.WellFormed s := by
  induction levels generalizing height with
  | nil => simp [levelsDefect?]
  | cons level rest ih =>
      rw [levelsDefect?, Option.or_eq_none_iff, levelDefect?_eq_none_iff, ih, List.forall_mem_cons]

/-- A path has no defect just when its leaf is a hash that is no filler, it has levels, and all of
them are well formed. -/
theorem defect?_eq_none_iff {p : Path} :
    p.defect? s = none ↔ p.leaf.length = hashLength ∧
      (s.padPartialGroups = true → p.leaf ≠ s.emptyChild.bytes) ∧ p.levels ≠ [] ∧
      ∀ level ∈ p.levels, level.WellFormed s := by
  unfold defect?
  rw [← levelsDefect?_eq_none_iff 0]
  split
  · simp_all
  · split
    · simp_all
    · split
      · simp_all
      · simp_all

/-! ### Verdicts

A path is accepted if it is well formed and leads to the expected root. -/

/-- The places that a path gives for its nodes, which are integers of the evidence. -/
def places (p : Path) : List Int := p.levels.map fun level => (level.index : Int)

/-- Only the place of a node can be too long for the message about a defect. -/
theorem Defect.message_eq_error_iff {d : Defect} {refusal : Text.Overlong} :
    d.message = .error refusal ↔
      ∃ height count, d = .indexTooLarge height refusal.number.toNat count ∧
        0 ≤ refusal.number := by
  obtain ⟨n, hn⟩ := refusal
  cases d with
  | indexTooLarge height index count =>
      by_cases h : Text.Writable index
      · simp only [message, Text.decimal_of_writable h]
        constructor
        · rintro ⟨⟩
        · rintro ⟨_, _, ⟨⟩, hpos⟩
          rw [Int.toNat_of_nonneg hpos] at h
          exact absurd h hn
      · simp only [message, Text.decimal_of_not_writable h]
        constructor
        · rintro ⟨⟩
          exact ⟨height, count, rfl, Int.natCast_nonneg index⟩
        · rintro ⟨_, _, ⟨⟩, hpos⟩
          simp [Int.toNat_of_nonneg hpos, bind, Except.bind]
  | _ => simp [message, pure, Except.pure]

/-- The place that a defect shows is that of a level. -/
theorem index_mem_of_levelsDefect? {height : Nat} {levels : List Level} {place index count : Nat}
    (h : levelsDefect? s height levels = some (.indexTooLarge place index count)) :
    ∃ level ∈ levels, level.index = index := by
  induction levels generalizing height with
  | nil => cases h
  | cons level rest ih =>
      rw [levelsDefect?, Option.or_eq_some_iff] at h
      rcases h with h | ⟨-, h⟩
      · refine ⟨level, List.mem_cons_self, ?_⟩
        unfold levelDefect? at h
        repeat' split at h
        all_goals cases h
        rfl
      · obtain ⟨found, hmem, hindex⟩ := ih h
        exact ⟨found, List.mem_cons_of_mem _ hmem, hindex⟩

/-- The message about a path is refused for none but one of its places. -/
theorem mem_places_of_message {p : Path} {d : Defect} (hdefect : p.defect? s = some d)
    {refusal : Text.Overlong} (h : d.message = .error refusal) : refusal.number ∈ p.places := by
  obtain ⟨height, count, rfl, hpos⟩ := Defect.message_eq_error_iff.1 h
  unfold defect? at hdefect
  split at hdefect
  · cases hdefect
  · split at hdefect
    · cases hdefect
    · split at hdefect
      · cases hdefect
      · obtain ⟨level, hmem, hindex⟩ := index_mem_of_levelsDefect? hdefect
        refine List.mem_map.2 ⟨level, hmem, ?_⟩
        rw [hindex, Int.toNat_of_nonneg hpos]

/-- A path is accepted just when its form is right and it leads to the expected root. -/
theorem verify_ok_iff {p : Path} {expectedRoot : Bytes} :
    (p.verify s expectedRoot).ok = true ↔ p.defect? s = none ∧ p.root s = expectedRoot := by
  unfold verify
  cases hdefect : p.defect? s with
  | some defect => simp
  | none =>
      by_cases hroot : p.root s = expectedRoot
      · simp [hroot, Ruling.ok, pure, Except.pure, Verdict.accepted]
      · simp [hroot, Ruling.ok, pure, Except.pure, Verdict.rejected]

/-- There is a verdict on a path unless one of its places is too long to be told. -/
theorem verify_settles (p : Path) (expectedRoot : Bytes) :
    (p.verify s expectedRoot).Settles (Verdict.Staged [checkName]) p.places := by
  unfold verify
  split
  case h_1 defect hdefect =>
    exact Ruling.settles_rejected (fun _ => mem_places_of_message hdefect) fun _ =>
      Verdict.staged_rejected (List.cons_ne_nil _ _) (by simp [Members.names])
  case h_2 =>
    split
    · exact .told (Verdict.staged_rejected (List.cons_ne_nil _ _) (by simp [Members.names]))
    · exact .told (Verdict.staged_passed _ _ _ _)

end Path

/-! ### Listed fillers

The fillers of a group may be listed among the siblings or left to the verifier, which adds those
that are missing. -/

/-- A level is another one, except that it may list fillers after the siblings if incomplete groups
are filled up. -/
structure Level.UpToFillers (s : Settings) (honest given : Level) : Prop where
  index_eq : given.index = honest.index
  siblings_lt : given.siblings.length < s.fanout
  siblings_eq : ∃ count, given.siblings =
      honest.siblings ++ List.replicate count s.emptyChild.bytes ∧
    (count = 0 ∨ s.padPartialGroups = true)

/-- A path is another one, except for fillers that its levels may list. -/
structure Path.UpToFillers (s : Settings) (honest given : Path) : Prop where
  leaf_eq : given.leaf = honest.leaf
  levels : List.Forall₂ (Level.UpToFillers s) honest.levels given.levels

namespace Level.UpToFillers

variable {s : Settings} {honest given : Level}

/-- Listed fillers change nothing in the group when it is filled up. -/
theorem padGroup_children (h : UpToFillers s honest given)
    (hindex : honest.index ≤ honest.siblings.length) (node : Bytes) :
    Tree.padGroup s (given.children node) = Tree.padGroup s (honest.children node) := by
  obtain ⟨count, hsiblings, hcount⟩ := h.siblings_eq
  have hchildren : given.children node =
      honest.children node ++ List.replicate count s.emptyChild.bytes := by
    rw [children, children, h.index_eq, hsiblings, List.take_append_of_le_length hindex,
      List.drop_append_of_le_length hindex, List.append_assoc, List.cons_append]
  have hlength : (honest.children node).length = honest.siblings.length + 1 := by
    simp only [children, List.length_append, List.length_cons, List.length_take, List.length_drop]
    omega
  have hroom : honest.siblings.length + count < s.fanout := by
    have hlt := h.siblings_lt
    rwa [hsiblings, List.length_append, List.length_replicate] at hlt
  rw [hchildren]
  rcases hcount with rfl | hpad
  · rw [List.replicate_zero, List.append_nil]
  · exact Tree.padGroup_append_fillers hpad (by omega)

/-- Up to fillers, levels lead from one node to the same parent. -/
theorem parent_eq (h : UpToFillers s honest given)
    (hindex : honest.index ≤ honest.siblings.length) (height : Nat) (node : Bytes) :
    given.parent s height node = honest.parent s height node := by
  rw [parent, parent, Tree.hashGroup, Tree.hashGroup, Tree.groupPreimage, Tree.groupPreimage,
    h.padGroup_children hindex]

/-- What is a level of the tree up to fillers is well formed, for the fillers are hashes. -/
theorem wellFormed (h : UpToFillers s honest given)
    (hindex : honest.index ≤ honest.siblings.length)
    (hhash : ∀ x ∈ honest.siblings, x.length = hashLength) : given.WellFormed s := by
  obtain ⟨count, hsiblings, -⟩ := h.siblings_eq
  refine ⟨h.siblings_lt, ?_, ?_⟩
  · rw [h.index_eq, hsiblings, List.length_append]
    omega
  · intro x hx
    rw [hsiblings] at hx
    rcases List.mem_append.1 hx with hx | hx
    · exact hhash x hx
    · rw [List.eq_of_mem_replicate hx]
      exact s.emptyChild.length_bytes

theorem refl (hlt : honest.siblings.length < s.fanout) : UpToFillers s honest honest :=
  ⟨rfl, hlt, 0, by simp, .inl rfl⟩

end Level.UpToFillers

end SlotEvidence
