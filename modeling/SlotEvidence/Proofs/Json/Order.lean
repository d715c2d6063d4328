/-
Module: SlotEvidence.Proofs.Json.Order
Purpose: The order of members in JSON values.  The canonical text of a value is the plain text of
  the value in canonical order, where the names of each object increase strictly.
Trusted boundary: none
Main exports: Json.EveryObject, Json.DistinctNames, Json.Ordered, Json.print,
  Json.render_eq_print_sorted, Json.DistinctNames.ordered_sorted, Json.sortMembers_eq_of_perm
-/
import SlotEvidence.Proofs.Json.RoundTrip
import SlotEvidence.Proofs.Members

namespace SlotEvidence

namespace Json

/-! ### Properties of objects at every depth -/

/-- The members of every object in a value have a property. -/
inductive EveryObject (P : Members Json → Prop) : Json → Prop where
  | null : EveryObject P .null
  | bool (b : Bool) : EveryObject P (.bool b)
  | int (n : Int) : EveryObject P (.int n)
  | float (x : Binary64) : EveryObject P (.float x)
  | text (s : String) : EveryObject P (.text s)
  | array {items : List Json} (h : ∀ item ∈ items, EveryObject P item) :
      EveryObject P (.array items)
  | object {members : Members Json} (hmembers : P members)
      (h : ∀ member ∈ members, EveryObject P member.2) : EveryObject P (.object members)

/-- No object has two members of one name. -/
abbrev DistinctNames : Json → Prop := EveryObject fun members => members.names.Nodup

/-- The names of each object increase strictly in the order of their code points. -/
abbrev Ordered : Json → Prop := EveryObject fun members => members.names.Pairwise (· < ·)

/-- A legible value has no name twice in an object. -/
theorem Legible.distinctNames {value : Json} (h : value.Legible) : value.DistinctNames := by
  induction h with
  | null => exact .null
  | bool b => exact .bool b
  | int n => exact .int n
  | float _ => exact .float _
  | text s => exact .text s
  | array _ ih => exact .array ih
  | object hdistinct _ ih => exact .object hdistinct ih

/-! ### Canonical order

Sorting by name is a permutation, and the only ascending one if no name comes twice. -/

theorem lt_of_le_of_ne {s t : String} (hle : s ≤ t) (hne : s ≠ t) : s < t :=
  Decidable.byContradiction fun hlt => hne (String.le_antisymm hle (String.not_lt.1 hlt))

/-- After sorting, the names do not descend. -/
theorem pairwise_sortMembers {α : Type} (members : Members α) :
    (sortMembers members).Pairwise fun a b => a.1 ≤ b.1 := by
  have hsorted := @List.pairwise_mergeSort _ (fun a b : String × α => !decide (b.1 < a.1))
    ?_ ?_ members
  · refine hsorted.imp fun h => ?_
    rwa [Bool.not_eq_true', decide_eq_false_iff_not, String.not_lt] at h
  · intro a b c hab hbc
    simp only [Bool.not_eq_true', decide_eq_false_iff_not, String.not_lt] at hab hbc ⊢
    exact String.le_trans hab hbc
  · intro a b
    simp only [Bool.or_eq_true, Bool.not_eq_true', decide_eq_false_iff_not, String.not_lt]
    exact String.le_total a.1 b.1

/-- Distinct names increase strictly once they are sorted. -/
theorem pairwise_lt_names_sortMembers {α : Type} {members : Members α}
    (h : members.names.Nodup) : (Members.names (sortMembers members)).Pairwise (· < ·) := by
  have hdistinct : (Members.names (sortMembers members)).Nodup :=
    Members.nodup_names_of_perm (sortMembers_perm members).symm h
  have hle : (Members.names (sortMembers members)).Pairwise (· ≤ ·) :=
    List.pairwise_map.2 (pairwise_sortMembers members)
  exact (List.pairwise_and_iff.2 ⟨hle, hdistinct⟩).imp fun h => lt_of_le_of_ne h.1 h.2

/-- Sorting forgets the order of members with distinct names. -/
theorem sortMembers_eq_of_perm {α : Type} {xs ys : Members α} (hdistinct : xs.names.Nodup)
    (h : xs.Perm ys) : sortMembers xs = sortMembers ys := by
  refine List.Perm.eq_of_pairwise ?_ (pairwise_sortMembers xs) (pairwise_sortMembers ys)
    (((sortMembers_perm xs).trans h).trans (sortMembers_perm ys).symm)
  rintro ⟨name, x⟩ ⟨other, y⟩ hx hy hle hge
  obtain rfl : name = other := String.le_antisymm hle hge
  have hxs := (sortMembers_perm xs).mem_iff.1 hx
  have hys := h.mem_iff.2 ((sortMembers_perm ys).mem_iff.1 hy)
  rw [← Members.get?_eq_some_iff hdistinct] at hxs hys
  rw [hxs] at hys
  cases hys
  rfl

theorem sorted_object (members : Members Json) :
    (Json.object members).sorted =
      .object ((sortMembers members).map (Prod.map id sorted)) := by
  rw [sorted, sortedMembers_eq_map, sortMembers_map]

/-- The canonical order of a value is ordered, where no name comes twice. -/
theorem DistinctNames.ordered_sorted {value : Json} (h : value.DistinctNames) :
    value.sorted.Ordered := by
  induction h with
  | null => exact .null
  | bool b => exact .bool b
  | int n => exact .int n
  | float x => exact .float x
  | text s => exact .text s
  | array _ ih =>
      rw [sorted, sortedItems_eq_map]
      exact .array (List.forall_mem_map.2 ih)
  | @object members hdistinct _ ih =>
      rw [sorted_object]
      refine .object ?_ (List.forall_mem_map.2 ?_)
      · rw [Members.names_map]
        exact pairwise_lt_names_sortMembers hdistinct
      · intro member hmember
        exact ih member ((sortMembers_perm members).mem_iff.1 hmember)

/-! ### Plain texts

The text of a value without sorting.  The canonical text is the plain one of the sorted value. -/

mutual

/-- The text of a value with the members of its objects in the order in which they stand. -/
def print : Json → List Char
  | .array items => '[' :: commaSeparated (printItems items) ++ [']']
  | .object members => '\x7b' :: commaSeparated (printMembers members) ++ ['\x7d']
  | value => value.render

def printItems : List Json → List (List Char)
  | [] => []
  | item :: rest => item.print :: printItems rest

def printMembers : List (String × Json) → List (List Char)
  | [] => []
  | (name, value) :: rest => (renderText name ++ ':' :: value.print) :: printMembers rest

end

theorem printMembers_eq_map (members : Members Json) :
    printMembers members =
      members.map fun member => renderText member.1 ++ ':' :: member.2.print := by
  induction members with
  | nil => rfl
  | cons member rest ih => rw [printMembers, ih, List.map_cons]

mutual

/-- The canonical text of a value is the plain text of its canonical order. -/
theorem render_eq_print_sorted : ∀ value : Json, value.render = value.sorted.print
  | .null | .bool _ | .int _ | .float _ | .text _ => rfl
  | .array items => by
      rw [render, sorted, print, renderItems_eq_printItems items]
  | .object members => by
      have hmembers : renderMembers members = (sortedMembers members).map (Prod.map id print) :=
        renderMembers_eq_print members
      rw [render, sorted, print, hmembers, sortMembers_map, List.map_map, printMembers_eq_map]
      rfl

/-- Items are written as they are printed once their members are in order. -/
theorem renderItems_eq_printItems :
    ∀ items : List Json, renderItems items = printItems (sortedItems items)
  | [] => rfl
  | item :: rest => by
      rw [renderItems, sortedItems, printItems, render_eq_print_sorted item,
        renderItems_eq_printItems rest]

/-- Members are written as they are printed once they are in order, at all depths. -/
theorem renderMembers_eq_print :
    ∀ members : Members Json,
      renderMembers members = (sortedMembers members).map (Prod.map id print)
  | [] => rfl
  | (name, value) :: rest => by
      rw [renderMembers, sortedMembers, List.map_cons, Prod.map, render_eq_print_sorted value,
        renderMembers_eq_print rest]
      rfl

end

end Json

end SlotEvidence
