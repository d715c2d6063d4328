/-
Module: SlotEvidence.Proofs.Tree.Exclusion
Purpose: Evidence of absence against the root of a tree.  Its paths are paths of leaves, its checks
  fix the places of these leaves, and so it is the evidence that the tree itself makes.
Trusted boundary: none
Main exports: Absence.groups, Absence.UpToFillers, Absence.objection?_left_eq_none_iff,
  Absence.objection?_right_eq_none_iff, Absence.objection?_inner_eq_none_iff,
  Tree.exists_honest_of_accepted, Tree.verify_inner, Tree.accepted_absence_is_honest
-/
import SlotEvidence.Proofs.Tree.Inclusion
import SlotEvidence.Proofs.Tree.Neighbours

namespace SlotEvidence

namespace Absence

variable (s : Settings)

/-- The byte strings that are hashed for groups when evidence of absence is verified. -/
def groups : Absence → List Bytes
  | .empty => []
  | .left path | .right path => path.groups s
  | .inner lower upper => lower.groups s ++ upper.groups s

/-- Evidence of absence is other evidence of the same form, except for fillers that the levels of
its paths may list. -/
inductive UpToFillers : Absence → Absence → Prop
  | empty : UpToFillers .empty .empty
  | left {honest given : Path} (path : honest.UpToFillers s given) :
      UpToFillers (.left honest) (.left given)
  | right {honest given : Path} (path : honest.UpToFillers s given) :
      UpToFillers (.right honest) (.right given)
  | inner {lower upper givenLower givenUpper : Path} (lowerPath : lower.UpToFillers s givenLower)
      (upperPath : upper.UpToFillers s givenUpper) :
      UpToFillers (.inner lower upper) (.inner givenLower givenUpper)

variable {s}

/-- Evidence of absence is accepted just when there is no objection. -/
theorem verify_ok_iff {a : Absence} {candidate expectedRoot : Bytes} :
    (a.verify s candidate expectedRoot).ok = true ↔
      a.objection? s candidate expectedRoot = none := by
  unfold verify
  cases a.objection? s candidate expectedRoot with
  | some objection => simp [Objection.ruling]
  | none => simp [Ruling.ok, pure, Except.pure, Verdict.accepted]

theorem shapeObjection?_eq_none_iff {side : Side} {path : Path} :
    shapeObjection? s side path = none ↔ path.defect? s = none := by
  rw [shapeObjection?, Option.map_eq_none_iff]

/-- A path meets no objection about the root just when it leads to the expected one. -/
theorem rootObjection?_eq_none_iff {path : Path} {expectedRoot : Bytes} :
    rootObjection? s path expectedRoot = none ↔ path.root s = expectedRoot := by
  rw [rootObjection?]
  split <;> simp_all

/-! ### Messages that cannot be written

The places in a path are not bounded before they are checked, and a message about one shows it. -/

/-- The places that the paths give for their nodes. -/
def places : Absence → List Int
  | .empty => []
  | .left path | .right path => path.places
  | .inner lower upper => lower.places ++ upper.places

/-- An objection whose message can always be written. -/
def Objection.Written (o : Objection) : Prop := ∃ text, o.message = .ok text

theorem written_of_leftmostObjection? {height : Nat} {levels : List Level} {o : Objection}
    (h : leftmostObjection? height levels = some o) : o.Written := by
  fun_induction leftmostObjection? height levels with
  | case1 => cases h
  | case2 height level rest hindex =>
      cases h
      exact ⟨_, rfl⟩
  | case3 height level rest hindex ih => exact ih h

theorem written_of_rightmostObjection? {height : Nat} {levels : List Level} {o : Objection}
    (h : rightmostObjection? s height levels = some o) : o.Written := by
  fun_induction rightmostObjection? s height levels with
  | case1 => cases h
  | case2 height level rest hlast ih => exact ih h
  | case3 height level rest hlast =>
      cases h
      exact ⟨_, rfl⟩

theorem written_of_sharedObjection? {height : Nat} {pairs : List (Level × Level)} {o : Objection}
    (h : sharedObjection? height pairs = some o) : o.Written := by
  fun_induction sharedObjection? height pairs with
  | case1 => cases h
  | case2 height lower rest ih => exact ih h
  | case3 height lower upper rest hne =>
      cases h
      exact ⟨_, rfl⟩

theorem written_of_adjacencyObjection? {height : Nat} {pairs : List (Level × Level)}
    {o : Objection} (h : adjacencyObjection? s height pairs = some o) : o.Written := by
  fun_induction adjacencyObjection? s height pairs with
  | case1 =>
      cases h
      exact ⟨_, rfl⟩
  | case2 height lower upper rest hnext => exact written_of_sharedObjection? h
  | case3 height lower upper rest hnext hends ih => exact ih h
  | case4 height lower upper rest hnext hends =>
      cases h
      exact ⟨_, rfl⟩

theorem written_of_rootObjection? {path : Path} {expectedRoot : Bytes} {o : Objection}
    (h : rootObjection? s path expectedRoot = some o) : o.Written := by
  unfold rootObjection? at h
  split at h
  · cases h
  · cases h
    exact ⟨_, rfl⟩

/-- The message about the form of a path is refused for none but one of its places. -/
theorem mem_places_of_shapeObjection? {side : Side} {path : Path} {o : Objection}
    (h : shapeObjection? s side path = some o) {refusal : Text.Overlong}
    (hrefused : o.message = .error refusal) : refusal.number ∈ path.places := by
  obtain ⟨defect, hdefect, rfl⟩ := Option.map_eq_some_iff.1 h
  rw [Objection.message, bind_eq_error] at hrefused
  rcases hrefused with hrefused | ⟨_, _, hrefused⟩
  · exact Path.mem_places_of_message hdefect hrefused
  · cases hrefused

/-- An objection about positions and roots always has a message, for it shows no place of a path. -/
theorem Objection.Written.not_refused {o : Objection} (h : o.Written) {refusal : Text.Overlong} :
    o.message ≠ .error refusal := by
  obtain ⟨text, htext⟩ := h
  rw [htext]
  exact nofun

/-- The message about evidence of absence is refused for none but one of its places. -/
theorem mem_places_of_objection? {a : Absence} {candidate expectedRoot : Bytes} {o : Objection}
    (h : a.objection? s candidate expectedRoot = some o) {refusal : Text.Overlong}
    (hrefused : o.message = .error refusal) : refusal.number ∈ a.places := by
  -- The form of the paths is looked at before everything else that is said of them.
  have hwritten : ¬ o.Written := fun hwritten => hwritten.not_refused hrefused
  unfold objection? at h
  split at h
  · cases h
    exact absurd ⟨_, rfl⟩ hwritten
  · cases a with
    | empty =>
        simp only at h
        split at h
        · cases h
        · cases h
          exact absurd ⟨_, rfl⟩ hwritten
    | left path =>
        simp only [Option.or_eq_some_iff] at h
        rcases h with h | ⟨-, h | ⟨-, h⟩⟩
        · exact mem_places_of_shapeObjection? h hrefused
        · exact absurd (written_of_leftmostObjection? h) hwritten
        · split at h
          · exact absurd (written_of_rootObjection? h) hwritten
          · cases h
            exact absurd ⟨_, rfl⟩ hwritten
    | right path =>
        simp only [Option.or_eq_some_iff] at h
        rcases h with h | ⟨-, h | ⟨-, h⟩⟩
        · exact mem_places_of_shapeObjection? h hrefused
        · exact absurd (written_of_rightmostObjection? h) hwritten
        · split at h
          · exact absurd (written_of_rootObjection? h) hwritten
          · cases h
            exact absurd ⟨_, rfl⟩ hwritten
    | inner lower upper =>
        simp only [Option.or_eq_some_iff] at h
        rcases h with h | ⟨-, h | ⟨-, h⟩⟩
        · exact List.mem_append_left _ (mem_places_of_shapeObjection? h hrefused)
        · exact List.mem_append_right _ (mem_places_of_shapeObjection? h hrefused)
        · split at h
          · cases h
            exact absurd ⟨_, rfl⟩ hwritten
          · split at h
            · cases h
              exact absurd ⟨_, rfl⟩ hwritten
            · simp only [Option.or_eq_some_iff] at h
              rcases h with h | ⟨-, h | ⟨-, h⟩⟩
              · exact absurd (written_of_adjacencyObjection? h) hwritten
              · exact absurd (written_of_rootObjection? h) hwritten
              · exact absurd (written_of_rootObjection? h) hwritten

theorem Objection.ruling_settles {o : Objection} {numbers : List Int}
    (h : ∀ refusal, o.message = .error refusal → refusal.number ∈ numbers) :
    o.ruling.Settles (Verdict.Staged [checkName]) numbers := by
  apply Ruling.settles_rejected h
  intro text
  apply Verdict.staged_rejected (List.cons_ne_nil _ _)
  cases o <;> simp [details, Members.names]

/-- There is a verdict unless a place in the paths is too long to be told. -/
theorem verify_settles (a : Absence) (candidate expectedRoot : Bytes) :
    (a.verify s candidate expectedRoot).Settles (Verdict.Staged [checkName]) a.places := by
  unfold verify
  split
  case h_1 o ho => exact Objection.ruling_settles fun _ => mem_places_of_objection? ho
  case h_2 => exact .told (Verdict.staged_passed _ _ _ _)

/-! ### The decision for each form

What is accepted in each of the four forms, first as conditions on the paths and then, without a
break, as a statement about the tree. -/

section Forms

variable {candidate expectedRoot : Bytes}

/-- Evidence that the tree is empty is accepted for the root of the empty tree only. -/
theorem objection?_empty_eq_none_iff :
    Absence.empty.objection? s candidate expectedRoot = none ↔
      candidate.length = hashLength ∧ expectedRoot = s.emptyRoot.bytes := by
  unfold objection?
  by_cases hlength : candidate.length = hashLength
  · rw [if_neg (not_not.2 hlength)]
    by_cases hroot : expectedRoot = s.emptyRoot.bytes
    · simp [hlength, hroot]
    · simp [hroot]
  · simp [hlength]

/-- Evidence on the left side is accepted just for a leaf that is leftmost and lies after the
candidate. -/
theorem objection?_left_eq_none_iff {path : Path} :
    (Absence.left path).objection? s candidate expectedRoot = none ↔
      candidate.length = hashLength ∧ path.defect? s = none ∧
        (∀ level ∈ path.levels, level.index = 0) ∧ candidate.before path.leaf = true ∧
          path.root s = expectedRoot := by
  unfold objection?
  by_cases hlength : candidate.length = hashLength
  · rw [if_neg (not_not.2 hlength)]
    simp only [Option.or_eq_none_iff, shapeObjection?_eq_none_iff, leftmostObjection?_eq_none_iff]
    by_cases hbefore : candidate.before path.leaf = true
    · simp [hlength, hbefore, rootObjection?_eq_none_iff]
    · simp [hbefore]
  · simp [hlength]

/-- Evidence on the right side is accepted just for a leaf that is last and lies before the
candidate. -/
theorem objection?_right_eq_none_iff {path : Path} :
    (Absence.right path).objection? s candidate expectedRoot = none ↔
      candidate.length = hashLength ∧ path.defect? s = none ∧
        (∀ level ∈ path.levels, isLast s level = true) ∧ path.leaf.before candidate = true ∧
          path.root s = expectedRoot := by
  unfold objection?
  by_cases hlength : candidate.length = hashLength
  · rw [if_neg (not_not.2 hlength)]
    simp only [Option.or_eq_none_iff, shapeObjection?_eq_none_iff, rightmostObjection?_eq_none_iff]
    by_cases habove : path.leaf.before candidate = true
    · simp [hlength, habove, rootObjection?_eq_none_iff]
    · simp [habove]
  · simp [hlength]

/-- Evidence in between is accepted just for adjacent leaves on both sides of the candidate. -/
theorem objection?_inner_eq_none_iff {lower upper : Path} :
    (Absence.inner lower upper).objection? s candidate expectedRoot = none ↔
      candidate.length = hashLength ∧ lower.defect? s = none ∧ upper.defect? s = none ∧
        lower.depth = upper.depth ∧ lower.leaf.before candidate = true ∧
          candidate.before upper.leaf = true ∧
            adjacencyObjection? s 0 (lower.levels.zip upper.levels) = none ∧
              lower.root s = expectedRoot ∧ upper.root s = expectedRoot := by
  unfold objection?
  by_cases hlength : candidate.length = hashLength
  · rw [if_neg (not_not.2 hlength)]
    simp only [Option.or_eq_none_iff, shapeObjection?_eq_none_iff]
    by_cases hdepth : lower.depth = upper.depth
    · rw [if_neg (not_not.2 hdepth)]
      by_cases hbetween : (lower.leaf.before candidate && candidate.before upper.leaf) = true
      · rw [if_neg (not_not.2 hbetween)]
        rw [Bool.and_eq_true] at hbetween
        simp [hlength, hdepth, hbetween, rootObjection?_eq_none_iff]
      · rw [if_pos hbetween]
        rw [Bool.and_eq_true, not_and] at hbetween
        simp only [reduceCtorEq, and_false, false_iff]
        rintro ⟨-, -, -, -, habove, hbelow, -⟩
        exact hbetween habove hbelow
    · simp [hdepth]
  · simp [hlength]

end Forms

end Absence

/-- Up to fillers, the places along a path are the same. -/
theorem Path.UpToFillers.map_index {s : Settings} {honest given : Path}
    (h : honest.UpToFillers s given) :
    given.levels.map (·.index) = honest.levels.map (·.index) := by
  have hlevels := h.levels
  generalize honest.levels = levels at hlevels
  generalize given.levels = others at hlevels
  induction hlevels with
  | nil => rfl
  | cons hlevel _ ih => rw [List.map_cons, List.map_cons, ih, hlevel.index_eq]

namespace Tree

section Forms

variable (t : Tree) {groups others : List Bytes} {candidate : Bytes}

/-- The places within groups on a path that is the one of a leaf up to fillers. -/
theorem map_index_of_upToFillers {place : Nat} {b : Bytes32} (hb : t.leaves[place]? = some b)
    {p : Path} (h : (t.path b place).UpToFillers t.settings p) :
    p.levels.map (·.index) = digits t.settings.fanout t.depth place := by
  rw [h.map_index, t.levels_path (List.ne_nil_of_mem (List.mem_of_getElem? hb)),
    t.map_index_honestLevel]

/-- Without a break, a level that has only fillers after its node has the last node of a group. -/
theorem succ_eq_length_group_of_isLast (hsafe : ¬ HashBreak t.settings groups others)
    (htree : t.groups ⊆ groups) {place height : Nat} (hplace : place < t.leaves.length)
    (hheight : height < t.depth) {level : Level}
    (hlevel : Level.UpToFillers t.settings (t.honestLevel place height) level)
    (hlast : Absence.isLast t.settings level = true) :
    ancestor t.settings.fanout height place % t.settings.fanout + 1 =
      (t.group height (ancestor t.settings.fanout (height + 1) place)).length := by
  have hindex := index_honestLevel_le height hplace
  have hlength := length_siblings_honestLevel height hplace
  obtain ⟨count, hsiblings, hcount⟩ := hlevel.siblings_eq
  -- After its place the level lists fillers at most, and no node of the tree is a filler.
  have htrailing : (t.honestLevel place height).siblings.drop
      (t.honestLevel place height).index = [] := by
    rw [Absence.isLast, hlevel.index_eq, hsiblings, List.drop_append_of_le_length hindex] at hlast
    cases hpad : t.settings.padPartialGroups with
    | false =>
        simp only [hpad, Bool.false_eq_true, if_false, List.isEmpty_iff] at hlast
        exact (List.append_eq_nil_iff.1 hlast).1
    | true =>
        simp only [hpad, if_true, List.all_append, Bool.and_eq_true, List.all_eq_true,
          decide_eq_true_eq] at hlast
        rw [List.eq_nil_iff_forall_not_mem]
        intro x hx
        have hmem := t.mem_group_of_mem_siblings height (List.mem_of_mem_drop hx)
        rw [hlast.1 x hx] at hmem
        exact t.emptyChild_not_mem_group hsafe htree hpad (Nat.le_of_lt hheight) _ hmem
  have hend := List.drop_eq_nil_iff.1 htrailing
  rw [← hlength, ← index_honestLevel]
  omega

/-- Without a break, only a tree without leaves has the root of one. -/
theorem leaves_eq_nil_of_root_eq (hsafe : ¬ HashBreak t.settings groups others)
    (htree : t.groups ⊆ groups) (hempty : [] ∈ groups ++ others)
    (h : t.root.bytes = t.settings.emptyRoot.bytes) : t.leaves = [] := by
  apply Decidable.byContradiction
  intro hnil
  obtain ⟨height, hheight⟩ := Nat.exists_eq_succ_of_ne_zero (Nat.ne_of_gt (t.depth_pos hnil))
  have hroot : t.root ∈ t.row (height + 1) := by
    rw [← Nat.succ_eq_add_one, ← hheight, t.row_depth hnil]
    exact List.mem_singleton.2 rfl
  obtain ⟨group, hgroup, hdigest⟩ := t.exists_digest_of_mem_row (by omega) hroot
  have hsame : t.settings.digest group = t.settings.digest [] := hdigest.trans (Bytes32.ext h)
  have hgroupNil := eq_of_digest_eq hsafe (List.mem_append_left _ (htree hgroup)) hempty hsame
  exact t.ne_nil_of_mem_groups hgroup hgroupNil

/-- Without a break, an accepted path of the first leaf is the evidence that the tree makes. -/
theorem exists_honest_left (hsafe : ¬ HashBreak t.settings groups others)
    (htree : t.groups ⊆ groups) (hempty : [] ∈ groups ++ others) {path : Path}
    (hpath : path.groups t.settings ⊆ groups)
    (h : (Absence.left path).objection? t.settings candidate t.root.bytes = none) :
    ∃ honest, t.proveExclusion candidate = .ok honest ∧
      Absence.UpToFillers t.settings honest (.left path) := by
  obtain ⟨hlength, hdefect, hleftmost, hbefore, hroot⟩ := Absence.objection?_left_eq_none_iff.1 h
  obtain ⟨place, b, hb, hup⟩ := t.exists_leaf_of_root_eq hsafe htree hempty hpath hdefect hroot
  have hplace : place < t.leaves.length := (List.getElem?_eq_some_iff.1 hb).1
  obtain rfl := Absence.eq_zero_of_leftmost (t.map_index_of_upToFillers hb hup)
    (t.ancestor_depth hplace) hleftmost
  rw [hup.leaf_eq] at hbefore
  exact ⟨_, t.proveExclusion_left hlength hb hbefore, .left hup⟩

/-- Without a break, an accepted path of the last leaf is the evidence that the tree makes. -/
theorem exists_honest_right (hsafe : ¬ HashBreak t.settings groups others)
    (htree : t.groups ⊆ groups) (hempty : [] ∈ groups ++ others) {path : Path}
    (hpath : path.groups t.settings ⊆ groups)
    (h : (Absence.right path).objection? t.settings candidate t.root.bytes = none) :
    ∃ honest, t.proveExclusion candidate = .ok honest ∧
      Absence.UpToFillers t.settings honest (.right path) := by
  obtain ⟨hlength, hdefect, hrightmost, habove, hroot⟩ := Absence.objection?_right_eq_none_iff.1 h
  obtain ⟨place, b, hb, hup⟩ := t.exists_leaf_of_root_eq hsafe htree hempty hpath hdefect hroot
  have hplace : place < t.leaves.length := (List.getElem?_eq_some_iff.1 hb).1
  have hnil : t.leaves ≠ [] := List.ne_nil_of_mem (List.mem_of_getElem? hb)
  have hlevels := hup.levels
  rw [t.levels_path hnil] at hlevels
  have hlast : place + 1 = t.leaves.length := by
    apply t.succ_eq_length_of_last hplace t.depth
    · intro height hheight
      obtain ⟨level, hlevel, hlevelUp⟩ := exists_of_mem_forall₂_left hlevels
        (List.mem_map.2 ⟨height, List.mem_range.2 hheight, rfl⟩)
      exact t.succ_eq_length_group_of_isLast hsafe htree hplace hheight hlevelUp
        (hrightmost level hlevel)
    · rw [t.ancestor_depth hplace, t.row_depth hnil]
      rfl
  rw [hup.leaf_eq] at habove
  exact ⟨_, t.proveExclusion_right hlength hb hlast habove, .right hup⟩

/-- Without a break, accepted paths of neighbours are the evidence that the tree makes. -/
theorem exists_honest_inner (hsafe : ¬ HashBreak t.settings groups others)
    (htree : t.groups ⊆ groups) (hempty : [] ∈ groups ++ others) {lower upper : Path}
    (hlower : lower.groups t.settings ⊆ groups) (hupper : upper.groups t.settings ⊆ groups)
    (h : (Absence.inner lower upper).objection? t.settings candidate t.root.bytes = none) :
    ∃ honest, t.proveExclusion candidate = .ok honest ∧
      Absence.UpToFillers t.settings honest (.inner lower upper) := by
  obtain ⟨hlength, hlowerDefect, hupperDefect, -, habove, hbelow, hadjacent, hlowerRoot,
    hupperRoot⟩ := Absence.objection?_inner_eq_none_iff.1 h
  obtain ⟨i, a, ha, hlowerUp⟩ := t.exists_leaf_of_root_eq hsafe htree hempty hlower
    hlowerDefect hlowerRoot
  obtain ⟨j, b, hb, hupperUp⟩ := t.exists_leaf_of_root_eq hsafe htree hempty hupper
    hupperDefect hupperRoot
  have htop : ancestor t.settings.fanout t.depth i = ancestor t.settings.fanout t.depth j := by
    rw [t.ancestor_depth (List.getElem?_eq_some_iff.1 ha).1,
      t.ancestor_depth (List.getElem?_eq_some_iff.1 hb).1]
  obtain rfl := Absence.eq_succ_of_adjacent (t.map_index_of_upToFillers ha hlowerUp)
    (t.map_index_of_upToFillers hb hupperUp) htop hadjacent
  rw [hlowerUp.leaf_eq] at habove
  rw [hupperUp.leaf_eq] at hbelow
  exact ⟨_, t.proveExclusion_inner hlength ha hb habove hbelow, .inner hlowerUp hupperUp⟩

/-- Without a break, accepted evidence of absence is the evidence that the tree makes. -/
theorem exists_honest_of_accepted (hsafe : ¬ HashBreak t.settings groups others)
    (htree : t.groups ⊆ groups) (hempty : [] ∈ groups ++ others) {a : Absence}
    (hgroups : a.groups t.settings ⊆ groups)
    (hok : (a.verify t.settings candidate t.root.bytes).ok = true) :
    ∃ honest, t.proveExclusion candidate = .ok honest ∧
      Absence.UpToFillers t.settings honest a := by
  have h := Absence.verify_ok_iff.1 hok
  cases a with
  | empty =>
      obtain ⟨hlength, hroot⟩ := Absence.objection?_empty_eq_none_iff.1 h
      have hnil := t.leaves_eq_nil_of_root_eq hsafe htree hempty hroot
      exact ⟨_, t.proveExclusion_empty hlength hnil, .empty⟩
  | left path => exact t.exists_honest_left hsafe htree hempty hgroups h
  | right path => exact t.exists_honest_right hsafe htree hempty hgroups h
  | inner lower upper =>
      obtain ⟨hlower, hupper⟩ := List.append_subset.1 hgroups
      exact t.exists_honest_inner hsafe htree hempty hlower hupper h

/-- The paths of two neighbours are accepted for what lies between them. -/
theorem verify_inner (hlength : candidate.length = hashLength) {place : Nat} {a b : Bytes32}
    (ha : t.leaves[place]? = some a) (hb : t.leaves[place + 1]? = some b)
    (habove : a.bytes.before candidate = true) (hbelow : candidate.before b.bytes = true) :
    ((Absence.inner (t.path a place) (t.path b (place + 1))).verify t.settings candidate
      t.root.bytes).ok = true := by
  have hlower := t.upToFillers_refl ha
  have hupper := t.upToFillers_refl hb
  have hnil : t.leaves ≠ [] := List.ne_nil_of_mem (List.mem_of_getElem? ha)
  have hdepth : (t.path a place).depth = (t.path b (place + 1)).depth := by
    rw [Path.depth, Path.depth, t.levels_path hnil, t.levels_path hnil, List.length_map,
      List.length_map]
  have hadjacent : Absence.adjacencyObjection? t.settings 0
      ((t.path a place).levels.zip (t.path b (place + 1)).levels) = none := by
    apply Absence.adjacencyObjection?_pathLevels
    rw [List.length_map]
    change ancestor t.settings.fanout t.depth place = ancestor t.settings.fanout t.depth (place + 1)
    rw [t.ancestor_depth (List.getElem?_eq_some_iff.1 ha).1,
      t.ancestor_depth (List.getElem?_eq_some_iff.1 hb).1]
  rw [Absence.verify_ok_iff, Absence.objection?_inner_eq_none_iff]
  exact ⟨hlength, t.defect?_of_upToFillers ha hlower, t.defect?_of_upToFillers hb hupper, hdepth,
    habove, hbelow, hadjacent, t.root_of_upToFillers ha hlower, t.root_of_upToFillers hb hupper⟩

/-- What the tree makes evidence of absence for is no leaf. -/
theorem not_mem_of_proveExclusion {honest : Absence}
    (h : t.proveExclusion candidate = .ok honest) : candidate ∉ t.leaves.map (·.bytes) := by
  intro hmem
  rw [t.proveExclusion_of_mem hmem] at h
  cases h

end Forms

/-- Evidence of absence that is accepted against the root of a tree is for a hash that is no leaf,
and it is the evidence that the tree itself makes for this hash, up to fillers that are listed at
the end of its levels, unless the hash function is broken by what was hashed for the tree and for
the evidence. -/
theorem accepted_absence_is_honest {s : Settings} {leaves : List Bytes} {t : Tree}
    (h : build s leaves = .ok t) {a : Absence} {candidate : Bytes}
    (hok : (a.verify s candidate t.root.bytes).ok = true) :
    (candidate ∉ leaves ∧
      ∃ honest, t.proveExclusion candidate = .ok honest ∧ Absence.UpToFillers s honest a) ∨
    HashBreak s (t.groups ++ a.groups s) [[]] := by
  obtain ⟨rfl, rfl⟩ := build_ok h
  by_cases hsafe : HashBreak t.settings (t.groups ++ a.groups t.settings) [[]]
  · exact .inr hsafe
  · left
    obtain ⟨honest, hprove, hup⟩ := t.exists_honest_of_accepted hsafe (List.subset_append_left _ _)
      (by simp) (List.subset_append_right _ _) hok
    exact ⟨t.not_mem_of_proveExclusion hprove, honest, hprove, hup⟩

/-- What the paths of the last two leaves of a small tree tell about a hash between them. -/
theorem sample_absence_between_neighbours :
    build sample.settings (sample.leaves.map (·.bytes)) = .ok sample ∧
      ((Absence.inner (sample.path (uniform 2) 1) (sample.path (uniform 4) 2)).verify
        sample.settings (uniform 3).bytes sample.root.bytes).ok = true ∧
      (((uniform 3).bytes ∉ sample.leaves.map (·.bytes) ∧
        ∃ honest, sample.proveExclusion (uniform 3).bytes = .ok honest ∧
          Absence.UpToFillers sample.settings honest
            (.inner (sample.path (uniform 2) 1) (sample.path (uniform 4) 2))) ∨
      HashBreak sample.settings (sample.groups ++ Absence.groups sample.settings
        (.inner (sample.path (uniform 2) 1) (sample.path (uniform 4) 2))) [[]]) :=
  have hok := sample.verify_inner (uniform 3).length_bytes rfl rfl rfl rfl
  ⟨build_leaves sample, hok, accepted_absence_is_honest (build_leaves sample) hok⟩

end Tree

end SlotEvidence
