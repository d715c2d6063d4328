/-
Module: SlotEvidence.Proofs.Json.Integers
Purpose: The integers in JSON values and in the dynamic values that they stand for.  A container is
  writable just when all its parts are, and sorting its members changes nothing about that.
Trusted boundary: none
Main exports: Json.writable_array_iff, Json.writable_object_iff, Json.writable_toValue_iff,
  Json.dump_eq_ok_iff
-/
import Mathlib.Data.List.Basic
import SlotEvidence.Json
import SlotEvidence.Proofs.Text.Decimal

namespace SlotEvidence

namespace Json

/-! ### Parts of containers

The integers of a container are those of its parts; names hold none. -/

theorem itemIntegers_eq_flatMap (items : List Json) :
    itemIntegers items = items.flatMap integers := by
  induction items with
  | nil => rfl
  | cons item rest ih => rw [itemIntegers, ih, List.flatMap_cons]

theorem memberIntegers_eq_flatMap (members : List (String × Json)) :
    memberIntegers members = members.flatMap fun member => member.2.integers := by
  induction members with
  | nil => rfl
  | cons member rest ih => rw [memberIntegers, ih, List.flatMap_cons]

/-- Whatever holds of all integers in the parts holds of all integers in the whole. -/
theorem forall_mem_flatMap_iff {α β : Type} {parts : List α} {f : α → List β} {P : β → Prop} :
    (∀ b ∈ parts.flatMap f, P b) ↔ ∀ a ∈ parts, ∀ b ∈ f a, P b := by
  simp only [List.mem_flatMap]
  constructor
  · intro h a ha b hb
    exact h b ⟨a, ha, hb⟩
  · rintro h b ⟨a, ha, hb⟩
    exact h a ha b hb

/-- An array has a text just when its items have one. -/
theorem writable_array_iff {items : List Json} :
    (Json.array items).Writable ↔ ∀ item ∈ items, item.Writable := by
  rw [Writable, integers, itemIntegers_eq_flatMap]
  exact forall_mem_flatMap_iff

/-- An object has a text just when its members have one: the names are no integers. -/
theorem writable_object_iff {members : List (String × Json)} :
    (Json.object members).Writable ↔ ∀ member ∈ members, member.2.Writable := by
  rw [Writable, integers, memberIntegers_eq_flatMap]
  exact forall_mem_flatMap_iff

theorem writable_int_iff {n : Int} : (Json.int n).Writable ↔ Text.Writable n :=
  List.forall_mem_singleton

theorem writable_null : Json.null.Writable := nofun

theorem writable_bool (b : Bool) : (Json.bool b).Writable := nofun

theorem writable_float (x : Binary64) : (Json.float x).Writable := nofun

theorem writable_text (s : String) : (Json.text s).Writable := nofun

/-! ### Dynamic values

Nothing is gained or lost on the way to a dynamic value. -/

mutual

/-- The integers of a JSON value are those of the dynamic value that it stands for. -/
theorem integers_toValue : ∀ value : Json, value.toValue.integers = value.integers
  | .null | .bool _ | .int _ | .float _ | .text _ => rfl
  | .array items => by rw [toValue, Value.integers, integers, integers_itemValues items]
  | .object members => by rw [toValue, Value.integers, integers, integers_memberValues members]

theorem integers_itemValues :
    ∀ items : List Json, Value.itemIntegers (itemValues items) = itemIntegers items
  | [] => rfl
  | item :: rest => by
      rw [itemValues, Value.itemIntegers, itemIntegers, integers_toValue item,
        integers_itemValues rest]

theorem integers_memberValues :
    ∀ members : List (String × Json),
      Value.entryIntegers (memberValues members) = memberIntegers members
  | [] => rfl
  | (_, value) :: rest => by
      rw [memberValues, Value.entryIntegers, memberIntegers, integers_toValue value,
        integers_memberValues rest]
      rfl

end

/-- The same integers decide for the value that a JSON value is read as. -/
theorem writable_toValue_iff {value : Json} : value.toValue.Writable ↔ value.Writable := by
  rw [Value.Writable, integers_toValue, Writable]

/-! ### Texts

A value is written just when each of its integers can be. -/

/-- The canonical text is written just of writable values. -/
theorem dump_eq_ok_iff {value : Json} {text : String} :
    value.dump = .ok text ↔ text = String.ofList value.render ∧ value.Writable :=
  Text.written_eq_ok_iff

theorem dump_of_writable {value : Json} (h : value.Writable) :
    value.dump = .ok (String.ofList value.render) :=
  dump_eq_ok_iff.2 ⟨rfl, h⟩

/-- A value that is not writable has no text, for one of its integers. -/
theorem exists_of_not_writable {value : Json} (h : ¬ value.Writable) :
    ∃ refusal, value.dump = .error refusal ∧ refusal.number ∈ value.integers := by
  cases hdump : value.dump with
  | ok text => exact absurd (dump_eq_ok_iff.1 hdump).2 h
  | error refusal => exact ⟨refusal, rfl, Text.Overlong.mem_of_written hdump⟩

end Json

end SlotEvidence
