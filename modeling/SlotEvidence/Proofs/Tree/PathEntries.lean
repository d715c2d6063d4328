/-
Module: SlotEvidence.Proofs.Tree.PathEntries
Purpose: The entries of the path from a place of a tree.  Written to the base of the fanout, the
  place has as its digits the indices of the entries.  Each entry lists the nodes of the tree that
  lie in one group with the node above the place, and together with it they are the group that was
  hashed.  The paths from neighbouring places differ as the digits do when one is added: they run
  along a border between groups, last against first, until they meet side by side in one group, and
  from there on they are one path.
Trusted boundary: none
Main exports: Carries, exists_carries, Tree.levelsFrom, Tree.EntryAt, Tree.RunBeside,
  Tree.path_entries_of_build
-/
import SlotEvidence.Proofs.Tree.PathLevels
import SlotEvidence.Proofs.Tree.Shape

namespace SlotEvidence

/-! ### Adding one

In the expansion to the base of the fanout, adding one turns the last digits that are full to zero
and raises the one before them. -/

theorem ancestor_eq_div_pow (fanout rows place : Nat) :
    ancestor fanout rows place = place / fanout ^ rows := by
  induction rows with
  | zero => rw [Nat.pow_zero, Nat.div_one]; rfl
  | succ rows ih => rw [ancestor_succ, ih, Nat.div_div_eq_div_mul, Nat.pow_succ]

/-- What adding one does to the digits of a place: the last digits, up to a position, go from the
greatest one to zero, the digit at the position goes up by one, and the rest stays. -/
structure Carries (fanout place position : Nat) : Prop where
  below : ∀ height < position, place / fanout ^ height % fanout = fanout - 1 ∧
    (place + 1) / fanout ^ height % fanout = 0
  stops : (place + 1) / fanout ^ position % fanout = place / fanout ^ position % fanout + 1
  above : ∀ height, position < height → (place + 1) / fanout ^ height = place / fanout ^ height

theorem div_pow_succ (place fanout exponent : Nat) :
    place / fanout ^ (exponent + 1) = place / fanout / fanout ^ exponent := by
  rw [Nat.div_div_eq_div_mul, Nat.pow_succ']

/-- Within a group there is no carry. -/
theorem carries_of_in_group {fanout place : Nat} (h : place % fanout + 1 < fanout) :
    Carries fanout place 0 := by
  obtain ⟨hdiv, hmod⟩ := succ_in_group h
  refine ⟨fun _ => nofun, ?_, fun height hheight => ?_⟩
  · rw [Nat.pow_zero, Nat.div_one, Nat.div_one, hmod]
  · obtain ⟨exponent, rfl⟩ := Nat.exists_eq_add_one.2 hheight
    rw [div_pow_succ, div_pow_succ, hdiv]

/-- Past the end of a group the next digit is carried to. -/
theorem Carries.past_group {fanout place position : Nat} (h : place % fanout + 1 = fanout)
    (hrest : Carries fanout (place / fanout) position) : Carries fanout place (position + 1) := by
  obtain ⟨hdiv, hmod⟩ := succ_past_group h
  refine ⟨fun height hheight => ?_, ?_, fun height hheight => ?_⟩
  · cases height with
    | zero =>
        rw [Nat.pow_zero, Nat.div_one, Nat.div_one, hmod]
        exact ⟨by omega, rfl⟩
    | succ height =>
        rw [div_pow_succ, div_pow_succ, hdiv]
        exact hrest.below height (Nat.lt_of_succ_lt_succ hheight)
  · rw [div_pow_succ, div_pow_succ, hdiv]
    exact hrest.stops
  · obtain ⟨exponent, rfl⟩ := Nat.exists_eq_add_one.2 (Nat.zero_lt_of_lt hheight)
    rw [div_pow_succ, div_pow_succ, hdiv]
    exact hrest.above exponent (Nat.lt_of_succ_lt_succ hheight)

/-- There is a digit that is not the greatest one, at the latest the zero in front. -/
theorem exists_carries {fanout : Nat} (htwo : 2 ≤ fanout) (place : Nat) :
    ∃ position, Carries fanout place position := by
  induction place using Nat.strongRecOn with
  | ind place ih =>
      have hlt := Nat.mod_lt place (Nat.zero_lt_of_lt htwo)
      by_cases hborder : place % fanout + 1 = fanout
      · have hpos : 0 < place := by
          apply Nat.pos_of_ne_zero
          rintro rfl
          rw [Nat.zero_mod] at hborder
          omega
        obtain ⟨position, hrest⟩ := ih (place / fanout) (Nat.div_lt_self hpos htwo)
        exact ⟨position + 1, hrest.past_group hborder⟩
      · exact ⟨0, carries_of_in_group (by omega)⟩

namespace Tree

/-! ### Entries

The entry of a path at a height is the digit of the place at that height, with the rest of the
group. -/

/-- The levels of the path from a place of a tree. -/
def levelsFrom (t : Tree) (place : Nat) : List Level :=
  pathLevels t.settings.fanout (t.rows.map fun nodes => nodes.map (·.bytes)) place

/-- An entry of the path from a place, between the rows of a height and of the next one. -/
structure EntryAt (s : Settings) (below above : List Bytes32) (height place : Nat) (level : Level) :
    Prop where
  index : level.index = place / s.fanout ^ height % s.fanout
  few : level.siblings.length ≤ s.fanout - 1
  /-- It lists nodes of the row, all others of the group, and nothing in place of missing ones. -/
  stored : ∀ sibling ∈ level.siblings, ∃ node ∈ below, node.bytes = sibling
  complete : level.siblings.length + 1 =
    (nodesUnder s.fanout below (place / s.fanout ^ (height + 1))).length
  /-- With the node above the place put in, it is the group that is hashed for the next node. -/
  regroups : ∃ node, below[place / s.fanout ^ height]? = some node ∧
    level.children node.bytes =
      (nodesUnder s.fanout below (place / s.fanout ^ (height + 1))).map (·.bytes) ∧
    above[place / s.fanout ^ (height + 1)]? =
      some (hashGroup s height (level.children node.bytes))

section Entries

variable {t : Tree}

theorem levelsFrom_eq (h : t.leaves ≠ []) (place : Nat) :
    t.levelsFrom place = (List.range t.depth).map (t.honestLevel place) :=
  t.levels_path h t.root place

/-- At each height below the root, a path has the level of the node above its leaf. -/
theorem getElem?_levelsFrom (h : t.leaves ≠ []) (place : Nat) {height : Nat}
    (hheight : height < t.depth) :
    (t.levelsFrom place)[height]? = some (t.honestLevel place height) := by
  rw [levelsFrom_eq h, List.getElem?_map, List.getElem?_range hheight]
  rfl

variable {place : Nat} (hplace : place < t.leaves.length)

include hplace

/-- The level of a node holds its place in its group and the other nodes of the group. -/
theorem entryAt_honestLevel (height : Nat) :
    EntryAt t.settings (t.row height) (t.row (height + 1)) height place
      (t.honestLevel place height) := by
  obtain ⟨node, hnode⟩ : ∃ node,
      (t.row height)[ancestor t.settings.fanout height place]? = some node :=
    ⟨_, List.getElem?_eq_getElem (t.ancestor_lt_length hplace height)⟩
  have hgroup := t.children_honestLevel hnode
  have habove := t.getElem?_row_ancestor hplace height
  have hcount := length_siblings_honestLevel height hplace
  simp only [← map_bytes_nodesUnder, ancestor_eq_div_pow] at hnode hgroup habove hcount
  refine ⟨?_, ?_, ?_, ?_, node, hnode, hgroup, ?_⟩
  · rw [index_honestLevel, ancestor_eq_div_pow]
  · exact Nat.le_sub_one_of_lt (length_siblings_honestLevel_lt height hplace)
  · intro sibling hsibling
    exact List.mem_map.1 (mem_of_mem_sliceAt _ (t.mem_group_of_mem_siblings height hsibling))
  · rw [hcount, List.length_map]
  · rw [hgroup]
    exact habove

/-- An entry that lists the filler of incomplete groups lists a node that has its digest. -/
theorem fillerDigest_of_mem_siblings (hpad : t.settings.padPartialGroups = true) {height : Nat}
    (hheight : height < t.depth)
    (h : t.settings.emptyChild.bytes ∈ (t.honestLevel place height).siblings) :
    FillerDigest t.settings t.groups := by
  obtain ⟨node, hnode, hbytes⟩ := (entryAt_honestLevel hplace height).stored _ h
  obtain rfl : node = t.settings.emptyChild := Bytes32.ext hbytes
  exact t.fillerDigest_of_mem_row hpad (Nat.le_of_lt hheight) hnode

end Entries

/-! ### Neighbours

The paths to two neighbouring leaves are one from the height on where the digits agree. -/

/-- How the paths from a place and from the next one run: below a height each has an entry at a
border between groups, at the height they meet in one group, and above it they are one. -/
structure RunBeside (fanout place meeting : Nat) (left right : List Level) : Prop where
  below : ∀ height < meeting, ∃ l r, left[height]? = some l ∧ right[height]? = some r ∧
    l.index = fanout - 1 ∧ r.index = 0
  meets : ∃ l r, left[meeting]? = some l ∧ right[meeting]? = some r ∧ r.index = l.index + 1
  group : (place + 1) / fanout ^ (meeting + 1) = place / fanout ^ (meeting + 1)
  above : left.drop (meeting + 1) = right.drop (meeting + 1)

section Neighbours

variable {t : Tree} {place : Nat} (hplace : place + 1 < t.leaves.length)

include hplace

/-- Neighbouring places have the root above them, so that the carry ends below it. -/
theorem position_lt_depth {position : Nat} (h : Carries t.settings.fanout place position) :
    position < t.depth := by
  apply Nat.lt_of_not_le
  intro hle
  have hzero {other : Nat} (hother : other < t.leaves.length) :
      other / t.settings.fanout ^ position = 0 := by
    have hroot := t.ancestor_depth hother
    rw [ancestor_eq_div_pow, Nat.div_eq_zero_iff_lt (Nat.pow_pos t.settings.fanout_pos)] at hroot
    exact Nat.div_eq_of_lt
      (Nat.lt_of_lt_of_le hroot (Nat.pow_le_pow_right t.settings.fanout_pos hle))
  have hstops := h.stops
  rw [hzero hplace, hzero (Nat.lt_of_succ_lt hplace), Nat.zero_mod] at hstops
  exact absurd hstops (Nat.zero_ne_one)

/-- The paths to neighbouring leaves meet where the carry ends: below they run along the end of one
group and the start of the next, and above they are one. -/
theorem runBeside_of_carries {position : Nat} (h : Carries t.settings.fanout place position) :
    RunBeside t.settings.fanout place position (t.levelsFrom place) (t.levelsFrom (place + 1)) := by
  have hne : t.leaves ≠ [] := List.ne_nil_of_length_pos (Nat.zero_lt_of_lt hplace)
  have hdepth := position_lt_depth hplace h
  refine ⟨?_, ?_, h.above _ (Nat.lt_succ_self position), ?_⟩
  · intro height hheight
    have hlt := Nat.lt_trans hheight hdepth
    refine ⟨_, _, getElem?_levelsFrom hne _ hlt, getElem?_levelsFrom hne _ hlt, ?_⟩
    simp only [index_honestLevel, ancestor_eq_div_pow]
    exact h.below height hheight
  · refine ⟨_, _, getElem?_levelsFrom hne _ hdepth, getElem?_levelsFrom hne _ hdepth, ?_⟩
    simp only [index_honestLevel, ancestor_eq_div_pow]
    exact h.stops
  · refine List.ext_getElem? fun above => ?_
    have hsame : t.honestLevel place (position + 1 + above) =
        t.honestLevel (place + 1) (position + 1 + above) := by
      simp only [honestLevel, ancestor_eq_div_pow]
      rw [h.above _ (by omega)]
    simp only [levelsFrom_eq hne, List.getElem?_drop, List.getElem?_map]
    by_cases hlt : position + 1 + above < t.depth
    · rw [List.getElem?_range hlt, Option.map_some, Option.map_some, hsame]
    · rw [List.getElem?_eq_none (by simpa using hlt), Option.map_none, Option.map_none]

end Neighbours

/-- The path from the place of a leaf has an entry for each row but the last.  The entries have the
digits of the place as indices and list nodes of the tree alone; the filler is none of them, unless
it is the digest of a group.  The path from the next place runs beside it and then joins it. -/
theorem path_entries_of_build {s : Settings} {hashes : List Bytes} {t : Tree}
    (h : build s hashes = .ok t) {place : Nat} (hplace : place < hashes.length) :
    (t.levelsFrom place).length = t.depth ∧
      (∀ height < t.depth, ∃ level below above, (t.levelsFrom place)[height]? = some level ∧
        t.rows[height]? = some below ∧ t.rows[height + 1]? = some above ∧
        EntryAt s below above height place level) ∧
      (s.padPartialGroups = true →
        (∃ level ∈ t.levelsFrom place, s.emptyChild.bytes ∈ level.siblings) →
        FillerDigest s t.groups) ∧
      (place + 1 < hashes.length → ∃ meeting < t.depth,
        RunBeside s.fanout place meeting (t.levelsFrom place) (t.levelsFrom (place + 1))) := by
  obtain ⟨rfl, rfl⟩ := build_ok h
  rw [List.length_map] at hplace ⊢
  have hne : t.leaves ≠ [] := List.ne_nil_of_length_pos (Nat.zero_lt_of_lt hplace)
  refine ⟨?_, fun height hheight => ?_, ?_, fun hnext => ?_⟩
  · rw [levelsFrom_eq hne, List.length_map, List.length_range]
  · exact ⟨_, _, _, getElem?_levelsFrom hne place hheight,
      (getElem?_rows_eq_some_iff hne).2 ⟨Nat.le_of_lt hheight, rfl⟩,
      (getElem?_rows_eq_some_iff hne).2 ⟨hheight, rfl⟩, entryAt_honestLevel hplace height⟩
  · rintro hpad ⟨level, hlevel, hfiller⟩
    rw [levelsFrom_eq hne] at hlevel
    obtain ⟨height, hheight, rfl⟩ := List.mem_map.1 hlevel
    exact fillerDigest_of_mem_siblings hplace hpad (List.mem_range.1 hheight) hfiller
  · obtain ⟨position, hcarries⟩ := exists_carries t.settings.two_le_fanout place
    exact ⟨position, position_lt_depth hnext hcarries, runBeside_of_carries hnext hcarries⟩

/-- The second of three leaves, two under each parent, is the last of its group, so that its path
meets that of the third leaf one row higher. -/
theorem sample_path_entries :
    build sample.settings (sample.leaves.map (·.bytes)) = .ok sample ∧
      1 < (sample.leaves.map (·.bytes)).length ∧
      (∃ level, (sample.levelsFrom 1)[0]? = some level ∧ level.index = 1) ∧
      ∃ meeting < sample.depth, 1 ≤ meeting ∧
        RunBeside 2 1 meeting (sample.levelsFrom 1) (sample.levelsFrom 2) := by
  have hbuild := build_leaves sample
  obtain ⟨-, hentries, -, hnext⟩ := path_entries_of_build hbuild (show 1 < 3 by decide)
  obtain ⟨meeting, hmeeting, hrun⟩ := hnext (show 2 < 3 by decide)
  obtain ⟨level, below, above, hlevel, -, -, hentry⟩ := hentries 0 (Nat.zero_lt_of_lt hmeeting)
  refine ⟨hbuild, by decide, ⟨level, hlevel, hentry.index⟩, meeting, hmeeting, ?_, hrun⟩
  apply Nat.pos_of_ne_zero
  rintro rfl
  have hgroup : (1 + 1) / 2 ^ (0 + 1) = 1 / 2 ^ (0 + 1) := hrun.group
  revert hgroup
  decide

end Tree

end SlotEvidence
