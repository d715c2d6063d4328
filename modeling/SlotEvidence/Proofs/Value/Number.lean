/-
Module: SlotEvidence.Proofs.Value.Number
Purpose: When a floating-point number and an integer are the same number, and that the integer is
  then what is left of the other one without its fraction.  No integer part of a finite number is
  too long to be written.
Trusted boundary: none
Main exports: Binary64.sameNumber_int_iff, Binary64.truncate?_of_sameNumber,
  Binary64.writable_of_truncate?
-/
import Mathlib.Algebra.Group.Nat.Defs
import SlotEvidence.Proofs.Text.Decimal
import SlotEvidence.Value.Key

namespace SlotEvidence

namespace Binary64

theorem denominator_pos (x : Binary64) : 0 < x.denominator :=
  Nat.pow_pos (by decide)

theorem isNaN_eq_false_of_isFinite {x : Binary64} (h : x.isFinite = true) : x.isNaN = false := by
  simp only [isFinite, isNaN, decide_eq_true_eq, decide_eq_false_iff_not] at h ⊢
  omega

/-- A floating-point number is an integer just when it is finite and its fraction has that value. -/
theorem sameNumber_int_iff {x : Binary64} {n : Int} :
    Value.sameNumber (.float x) (.int n) = true ↔ x.isFinite = true ∧
      (if x.isNegative then -(x.numerator : Int) else x.numerator) = n * x.denominator := by
  simp only [Value.sameNumber, Value.place?, Value.Place.ofInt, Value.Place.ofFloat?]
  cases hfinite : x.isFinite with
  | true =>
      simp only [isNaN_eq_false_of_isFinite hfinite, Bool.not_true, Bool.false_eq_true, if_false,
        Value.Place.before, Bool.and_eq_true, Bool.not_eq_true', decide_eq_false_iff_not,
        Int.natCast_one, Int.mul_one, true_and, Int.not_lt]
      exact ⟨fun h => Int.le_antisymm h.2 h.1, fun h => ⟨Int.le_of_eq h.symm, Int.le_of_eq h⟩⟩
  | false =>
      cases x.isNaN <;> cases x.isNegative <;> simp [Value.Place.before]

/-- The integer that a floating-point number is, is its integer part. -/
theorem truncate?_of_sameNumber {x : Binary64} {n : Int}
    (h : Value.sameNumber (.float x) (.int n) = true) : x.truncate? = some n := by
  obtain ⟨hfinite, hvalue⟩ := sameNumber_int_iff.1 h
  have hne : (x.denominator : Int) ≠ 0 :=
    Int.natCast_ne_zero.2 (Nat.ne_of_gt x.denominator_pos)
  rw [truncate?, if_pos hfinite, Int.natCast_ediv]
  dsimp only
  split at hvalue
  · rename_i hnegative
    have hnum : (x.numerator : Int) = -n * x.denominator := by
      rw [Int.neg_mul, ← hvalue, Int.neg_neg]
    rw [if_pos hnegative, hnum, Int.mul_ediv_cancel _ hne, Int.neg_neg]
  · rename_i hpositive
    rw [if_neg hpositive, hvalue, Int.mul_ediv_cancel _ hne]

theorem significand_lt (x : Binary64) : x.significand < 2 ^ 53 := by
  have hfraction : x.unsignedBits % fractionCount < fractionCount := Nat.mod_lt _ (by decide)
  have hcount : fractionCount + fractionCount = 2 ^ 53 := by decide
  unfold significand
  dsimp only
  split <;> omega

/-- The largest exponent stands for infinities and NaN. -/
theorem exponent_le {x : Binary64} (h : x.isFinite = true) : x.exponent ≤ 971 := by
  have hbits : x.unsignedBits < 0x7ff * fractionCount := of_decide_eq_true h
  have hraised : x.unsignedBits / fractionCount < 0x7ff :=
    Nat.div_lt_of_lt_mul (Nat.mul_comm _ _ ▸ hbits)
  unfold exponent
  dsimp only
  split <;> omega

/-- The numerator of a float has no more bits than its significand and those that its exponent adds.
-/
theorem numerator_lt (x : Binary64) : x.numerator < 2 ^ (53 + x.exponent.toNat) := by
  rw [Nat.pow_add]
  exact Nat.mul_lt_mul_of_pos_right x.significand_lt (Nat.two_pow_pos _)

/-- An integer part has no more than 1024 bits, and each of them would do for a digit. -/
theorem writable_of_truncate? {x : Binary64} {n : Int} (h : x.truncate? = some n) :
    Text.Writable n := by
  unfold truncate? at h
  dsimp only at h
  split at h
  · rename_i hfinite
    cases h
    have hsize : ∀ (negative : Bool) (m : Nat),
        (if negative then -(m : Int) else m).natAbs = m := by
      intro negative m
      cases negative <;> simp
    have hbits : 53 + x.exponent.toNat ≤ Text.digitLimit := by
      have hexponent := exponent_le hfinite
      change _ ≤ 4300
      omega
    rw [Text.writable_iff_natAbs_lt, hsize]
    calc x.numerator / x.denominator
        ≤ x.numerator := Nat.div_le_self _ _
      _ < 2 ^ (53 + x.exponent.toNat) := numerator_lt x
      _ ≤ 2 ^ Text.digitLimit := Nat.pow_le_pow_right (by decide) hbits
      _ ≤ 10 ^ Text.digitLimit := Nat.pow_le_pow_left (by decide) _
  · cases h

end Binary64

end SlotEvidence
