/-
Module: SlotEvidence.Proofs.Tree.Neighbours
Purpose: What the checks of evidence of absence say about places in the tree: a path along the start
  of its groups belongs to the first leaf, one along their ends to the last leaf, and two paths that
  meet in neighbouring places belong to neighbouring leaves.
Trusted boundary: none
Main exports: Absence.eq_zero_of_leftmost, Absence.eq_succ_of_adjacent,
  Absence.adjacencyObjection?_pathLevels, Tree.succ_eq_length_of_last
-/
import SlotEvidence.Proofs.Tree.PathLevels

namespace SlotEvidence

namespace Absence

/-- A path runs along the left edge just when each of its places is the first. -/
theorem leftmostObjection?_eq_none_iff (height : Nat) {levels : List Level} :
    leftmostObjection? height levels = none ↔ ∀ level ∈ levels, level.index = 0 := by
  induction levels generalizing height with
  | nil => simp [leftmostObjection?]
  | cons level rest ih =>
      rw [leftmostObjection?, List.forall_mem_cons, ← ih (height + 1)]
      by_cases h : level.index = 0
      · simp [h]
      · simp [h]

/-- A path runs along the right edge just when each of its places is the last that is taken. -/
theorem rightmostObjection?_eq_none_iff {s : Settings} (height : Nat) {levels : List Level} :
    rightmostObjection? s height levels = none ↔ ∀ level ∈ levels, isLast s level = true := by
  induction levels generalizing height with
  | nil => simp [rightmostObjection?]
  | cons level rest ih =>
      rw [rightmostObjection?, List.forall_mem_cons, ← ih (height + 1)]
      by_cases h : isLast s level = true
      · simp [h]
      · simp [h]

/-- Levels of two paths that meet no objection after the merge are the same. -/
theorem eq_of_sharedObjection?_eq_none {height : Nat} {lower upper : List Level}
    (hlength : lower.length = upper.length)
    (h : sharedObjection? height (lower.zip upper) = none) : lower = upper := by
  induction lower generalizing height upper with
  | nil => exact (List.length_eq_zero_iff.1 hlength.symm).symm
  | cons l lower ih =>
      cases upper with
      | nil => simp at hlength
      | cons u upper =>
          rw [List.zip_cons_cons, sharedObjection?] at h
          split at h
          · rename_i heq
            rw [heq, ih (by simpa using hlength) h]
          · cases h

/-- A place that is the first one within all groups up to the root is the first one. -/
theorem eq_zero_of_leftmost {fanout rows place : Nat} {levels : List Level}
    (hlevels : levels.map (·.index) = digits fanout rows place)
    (htop : ancestor fanout rows place = 0) (h : ∀ level ∈ levels, level.index = 0) :
    place = 0 := by
  induction rows generalizing place levels with
  | zero => exact htop
  | succ rows ih =>
      cases levels with
      | nil => cases hlevels
      | cons level rest =>
          obtain ⟨hindex, hrest⟩ := List.cons.inj hlevels
          have hmod : level.index = place % fanout := hindex
          rw [h level List.mem_cons_self] at hmod
          rw [← ancestor_div] at htop
          have hdiv := ih hrest htop fun l hl => h l (List.mem_cons_of_mem _ hl)
          rw [← Nat.div_add_mod place fanout, hdiv, ← hmod, Nat.mul_zero]

/-- Two paths without an objection to where they meet begin at neighbouring places. -/
theorem eq_succ_of_adjacent {s : Settings} {height rows i j : Nat} {lower upper : List Level}
    (hlower : lower.map (·.index) = digits s.fanout rows i)
    (hupper : upper.map (·.index) = digits s.fanout rows j)
    (htop : ancestor s.fanout rows i = ancestor s.fanout rows j)
    (h : adjacencyObjection? s height (lower.zip upper) = none) : j = i + 1 := by
  have hpos := s.fanout_pos
  -- The induction is on the number of rows, from the leaves up: the places one row further are the
  -- quotients by the fanout.
  induction rows generalizing height i j lower upper with
  | zero =>
      obtain rfl := List.map_eq_nil_iff.1 hlower
      cases h
  | succ rows ih =>
      cases lower with
      | nil => cases hlower
      | cons l lower =>
          cases upper with
          | nil => cases hupper
          | cons u upper =>
              obtain ⟨hlindex, hlower⟩ := List.cons.inj hlower
              obtain ⟨huindex, hupper⟩ := List.cons.inj hupper
              have hl : l.index = i % s.fanout := hlindex
              have hu : u.index = j % s.fanout := huindex
              rw [← ancestor_div, ← ancestor_div] at htop
              have hi := Nat.div_add_mod i s.fanout
              have hj := Nat.div_add_mod j s.fanout
              rw [List.zip_cons_cons, adjacencyObjection?] at h
              split at h
              · -- the paths meet here, and above they have the same ancestors
                rename_i hmeet
                have hlength : lower.length = upper.length := by
                  rw [← List.length_map (f := (·.index)), hlower, length_digits,
                    ← List.length_map (f := (·.index)), hupper, length_digits]
                have hsame := eq_of_sharedObjection?_eq_none hlength h
                have hdiv : i / s.fanout = j / s.fanout :=
                  eq_of_digits_eq (by rw [← hlower, ← hupper, hsame]) htop
                rw [hdiv] at hi
                omega
              · split at h
                · -- the paths run along both sides of a border between groups
                  rename_i hborder
                  have hdiv := ih hlower hupper htop h
                  rw [hdiv, Nat.mul_succ] at hj
                  omega
                · cases h

theorem sharedObjection?_self (height : Nat) (levels : List Level) :
    sharedObjection? height (levels.zip levels) = none := by
  induction levels generalizing height with
  | nil => rfl
  | cons level rest ih => rw [List.zip_cons_cons, sharedObjection?, if_pos rfl, ih]

/-- Between the paths of neighbouring places there is no objection, as long as they have an ancestor
in common. -/
theorem adjacencyObjection?_pathLevels {s : Settings} (height : Nat) {rows : List (List Bytes)}
    {place : Nat}
    (htop : ancestor s.fanout (rows.length - 1) place =
      ancestor s.fanout (rows.length - 1) (place + 1)) :
    adjacencyObjection? s height ((pathLevels s.fanout rows place).zip
      (pathLevels s.fanout rows (place + 1))) = none := by
  induction rows generalizing height place with
  -- Paths without levels end at their leaves, which are different nodes.
  | nil => exact absurd htop (Nat.ne_of_lt (Nat.lt_succ_self place))
  | cons row rows ih =>
      cases rows with
      | nil => exact absurd htop (Nat.ne_of_lt (Nat.lt_succ_self place))
      | cons next rest =>
          have hlt := Nat.mod_lt place s.fanout_pos
          simp only [pathLevels, List.zip_cons_cons, adjacencyObjection?,
            ← Nat.mod_eq_sub_div_mul]
          by_cases hborder : place % s.fanout + 1 = s.fanout
          · -- the places lie on both sides of a border between groups
            obtain ⟨hdiv, hzero⟩ := succ_past_group hborder
            rw [hzero, hdiv, if_neg (by omega), if_pos ⟨by omega, rfl⟩]
            apply ih
            rw [List.length_cons, List.length_cons, Nat.add_sub_cancel, ← ancestor_div,
              ← ancestor_div, hdiv] at htop
            rw [List.length_cons, Nat.add_sub_cancel]
            exact htop
          · -- the places lie in one group
            have hinside : place % s.fanout + 1 < s.fanout := by omega
            obtain ⟨hdiv, hsucc⟩ := succ_in_group hinside
            rw [hsucc, hdiv, if_pos rfl, sharedObjection?_self]

end Absence

namespace Tree

variable (t : Tree)

/-- A leaf whose ancestors are the last ones of their groups is the last leaf. -/
theorem succ_eq_length_of_last {place : Nat} (hplace : place < t.leaves.length) (rows : Nat)
    (hlast : ∀ height < rows, ancestor t.settings.fanout height place % t.settings.fanout + 1 =
      (t.group height (ancestor t.settings.fanout (height + 1) place)).length)
    (htop : ancestor t.settings.fanout rows place + 1 = (t.row rows).length) :
    place + 1 = t.leaves.length := by
  induction rows with
  | zero => exact htop
  | succ rows ih =>
      apply ih fun height hheight => hlast height (Nat.lt_succ_of_lt hheight)
      have hpos := t.settings.fanout_pos
      have hbegin := t.ancestor_mul_lt_length hplace rows
      have hgroup := hlast rows (Nat.lt_succ_self rows)
      have hdivmod := Nat.div_add_mod (ancestor t.settings.fanout rows place) t.settings.fanout
      rw [group, length_sliceAt, List.length_map] at hgroup
      rw [row_succ, length_parents] at htop
      rw [ancestor_succ] at htop hgroup hbegin
      generalize ancestor t.settings.fanout rows place = node at *
      generalize t.settings.fanout = fanout at *
      generalize (t.row rows).length = length at *
      -- the group is the last one of its row, so that it ends where the row does
      have hend : length ≤ node / fanout * fanout + fanout := by
        have hlt := Nat.lt_div_mul_add (a := length + fanout - 1) hpos
        rw [← htop, Nat.succ_mul] at hlt
        omega
      rw [Nat.mul_comm] at hdivmod
      omega

end Tree

end SlotEvidence
