/-
Module: SlotEvidence.Proofs.Value.Integers
Purpose: When a dynamic value can be shown: a container is writable just when all its parts are, and
  a value is shown just when it is writable.
Trusted boundary: none
Main exports: Value.writable_mapping_iff, Value.shown_eq_ok_iff, Value.displayed_eq_ok_iff,
  Value.mem_integers_of_mem_displayIntegers
-/
import Mathlib.Data.List.Basic
import SlotEvidence.Proofs.Text.Decimal
import SlotEvidence.Value

namespace SlotEvidence

namespace Value

theorem forall_mem_itemIntegers {P : Int → Prop} {items : List Value} :
    (∀ n ∈ itemIntegers items, P n) ↔ ∀ item ∈ items, ∀ n ∈ item.integers, P n := by
  induction items with
  | nil => simp [itemIntegers]
  | cons item rest ih =>
      rw [itemIntegers, List.forall_mem_append, ih, List.forall_mem_cons]

theorem forall_mem_entryIntegers {P : Int → Prop} {entries : List (Value × Value)} :
    (∀ n ∈ entryIntegers entries, P n) ↔
      ∀ entry ∈ entries, (∀ n ∈ entry.1.integers, P n) ∧ ∀ n ∈ entry.2.integers, P n := by
  induction entries with
  | nil => simp [entryIntegers]
  | cons entry rest ih =>
      rw [entryIntegers, List.forall_mem_append, List.forall_mem_append, ih, List.forall_mem_cons]

/-! ### Containers -/

theorem writable_int_iff {n : Int} : (Value.int n).Writable ↔ Text.Writable n :=
  List.forall_mem_singleton

/-- A mapping has a text just when all its keys and values have one. -/
theorem writable_mapping_iff {entries : List (Value × Value)} :
    (Value.mapping entries).Writable ↔
      ∀ entry ∈ entries, entry.1.Writable ∧ entry.2.Writable :=
  forall_mem_entryIntegers

/-! ### Shown values -/

/-- A value is displayed just when the integers that it displays have texts. -/
theorem displayed_eq_ok_iff {value : Value} {text : String} :
    value.displayed = .ok text ↔ text = value.display ∧ value.Displayable :=
  Text.written_eq_ok_iff

/-- What a value shows as a text is among what its literal shows. -/
theorem mem_integers_of_mem_displayIntegers {value : Value} {n : Int}
    (h : n ∈ value.displayIntegers) : n ∈ value.integers := by
  cases value with
  | member inner => cases h
  | _ => exact h

/-- A value that is not displayed shows an integer that has no text. -/
theorem not_displayable_of_displayed {value : Value} {refusal : Text.Overlong}
    (h : value.displayed = .error refusal) : ¬ value.Displayable :=
  fun hdisplayable => refusal.not_writable (hdisplayable _ (Text.Overlong.mem_of_written h))

/-- No more integers are displayed than are shown. -/
theorem Writable.displayable {value : Value} (h : value.Writable) : value.Displayable :=
  fun n hn => h n (mem_integers_of_mem_displayIntegers hn)

end Value

end SlotEvidence
