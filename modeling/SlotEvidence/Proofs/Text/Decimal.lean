/-
Module: SlotEvidence.Proofs.Text.Decimal
Purpose: Which integers have a text: those of at most as many digits as the limit says, among them
  all that fit in eight bytes.  A text is refused only for an integer that it would show.
Trusted boundary: none
Main exports: Text.writable_iff_natAbs_lt, Text.writable_of_lt_size, Text.written_eq_ok_iff,
  Text.Overlong.mem_of_written, Text.decimal_of_writable, Text.decimal_of_not_writable
-/
import Mathlib.Algebra.Group.Nat.Defs
import SlotEvidence.Text.Decimal

namespace SlotEvidence

namespace Text

theorem digitLimit_pos : 0 < digitLimit := by decide

/-- The limit on the digits bounds the size of the integer, whatever its sign. -/
theorem writable_iff_natAbs_lt {n : Int} : Writable n ↔ n.natAbs < 10 ^ digitLimit :=
  Nat.length_toDigits_le_iff (by decide) digitLimit_pos

/-- Whatever fits in eight bytes has a text. -/
theorem writable_of_lt_size {n : Nat} (h : n < UInt64.size) : Writable n := by
  have hdigits : (Nat.toDigits 10 n).length ≤ 20 :=
    (Nat.length_toDigits_le_iff (by decide) (by decide)).2 (Nat.lt_trans h (by decide))
  exact Nat.le_trans hdigits (by decide)

/-- Numbers of eight bytes have a text: it has at most twenty digits. -/
theorem writable_uint64 (n : UInt64) : Writable n.toNat := writable_of_lt_size n.toNat_lt

/-! ### Texts that show integers

A text is written or the first integer in it that is too long is named. -/

/-- A text is made just when each of its integers has a text. -/
theorem written_eq_ok_iff {numbers : List Int} {text result : String} :
    written numbers text = .ok result ↔ result = text ∧ ∀ n ∈ numbers, Writable n := by
  induction numbers with
  | nil => simp [written, eq_comm]
  | cons n rest ih =>
      rw [written]
      by_cases h : Writable n
      · rw [dif_pos h, ih, List.forall_mem_cons]
        simp [h]
      · rw [dif_neg h, List.forall_mem_cons]
        simp [h]

theorem written_of_writable {numbers : List Int} (h : ∀ n ∈ numbers, Writable n) (text : String) :
    written numbers text = .ok text :=
  written_eq_ok_iff.2 ⟨rfl, h⟩

/-- A text is refused for one of its integers. -/
theorem Overlong.mem_of_written {numbers : List Int} {text : String} {refusal : Overlong}
    (h : written numbers text = .error refusal) : refusal.number ∈ numbers := by
  induction numbers with
  | nil => cases h
  | cons n rest ih =>
      rw [written] at h
      split at h
      · exact List.mem_cons_of_mem _ (ih h)
      · cases h
        exact List.mem_cons_self

theorem decimal_of_writable {n : Int} (h : Writable n) : decimal n = .ok (toString n) :=
  written_of_writable (List.forall_mem_singleton.2 h) _

theorem decimal_of_not_writable {n : Int} (h : ¬ Writable n) : decimal n = .error ⟨n, h⟩ :=
  dif_neg h

/-- The refusal names the integer that was to be written. -/
theorem Overlong.eq_of_decimal {n : Int} {refusal : Overlong} (h : decimal n = .error refusal) :
    refusal.number = n :=
  List.mem_singleton.1 (mem_of_written h)

end Text

end SlotEvidence
