/-
Module: SlotEvidence.Proofs.Json.Number
Purpose: Integers are read back from their decimal digits, where something follows that continues no
  number.
Trusted boundary: none
Main exports: Json.Delimited, Json.readNumber?_toString
-/
import Mathlib.Data.List.Basic
import SlotEvidence.Json.Token

namespace SlotEvidence

namespace Json

/-- What may follow a value: nothing, a comma or a closing bracket. -/
def Delimited (rest : List Char) : Prop :=
  ∀ c ∈ rest.head?, c = ',' ∨ c = ']' ∨ c = '\x7d'

theorem delimited_nil : Delimited [] := by
  intro c hc
  cases hc

/-- A number does not go on where a value is delimited. -/
theorem Delimited.takeWhile_isDigit {rest : List Char} (h : Delimited rest) :
    rest.takeWhile Char.isDigit = [] := by
  cases rest with
  | nil => rfl
  | cons c rest =>
      rcases h c rfl with rfl | rfl | rfl <;> rfl

/-- Where a number ends there is no fraction. -/
theorem Delimited.fractionDigits {rest : List Char} (h : Delimited rest) :
    fractionDigits rest = [] := by
  cases rest with
  | nil => rfl
  | cons c rest =>
      rcases h c rfl with rfl | rfl | rfl <;> rfl

/-- Where a number ends there is no exponent. -/
theorem Delimited.readExponent? {rest : List Char} (h : Delimited rest) :
    readExponent? rest = none := by
  cases rest with
  | nil => rfl
  | cons c rest =>
      rcases h c rfl with rfl | rfl | rfl <;> simp [Json.readExponent?]

/-- The decimal digits of a positive number do not begin with a zero. -/
theorem head?_toDigits_ne_zero {n : Nat} (h : 0 < n) : (Nat.toDigits 10 n).head? ≠ some '0' := by
  induction n using Nat.strongRecOn with
  | ind n ih =>
      rw [Nat.toDigits_eq_if (by decide)]
      split
      · rename_i hn
        have htable : ∀ m < 10, 0 < m → [Nat.digitChar m].head? ≠ some '0' := by
          decide
        exact htable n hn h
      · rename_i hn
        rw [List.head?_append_of_ne_nil _ Nat.toDigits_ne_nil]
        exact ih _ (Nat.div_lt_self h (by decide)) (Nat.div_pos (Nat.le_of_not_lt hn) (by decide))

/-- The digits of a number are taken whole, up to where the number ends. -/
theorem wholeDigits_toDigits (n : Nat) {rest : List Char} (h : Delimited rest) :
    wholeDigits (Nat.toDigits 10 n ++ rest) = Nat.toDigits 10 n := by
  unfold wholeDigits
  split
  · rename_i tail heq
    rcases Nat.eq_zero_or_pos n with rfl | hn
    · rfl
    · have hhead := head?_toDigits_ne_zero hn
      rw [← List.head?_append_of_ne_nil _ Nat.toDigits_ne_nil, heq] at hhead
      exact absurd rfl hhead
  · rw [List.takeWhile_append_of_pos, h.takeWhile_isDigit, List.append_nil]
    intro c hc
    exact Nat.isDigit_of_mem_toDigits (by decide) (by decide) hc

/-- The digits of a number stand for it. -/
theorem natOfDigits_toDigits (n : Nat) : Binary64.natOfDigits (Nat.toDigits 10 n) = n := by
  conv_rhs => rw [← @Nat.ofDigitChars_ten_toDigits n, Nat.ofDigitChars_eq_foldl]
  rfl

theorem minus_not_mem_toDigits (n : Nat) : '-' ∉ Nat.toDigits 10 n := by
  intro hmem
  exact absurd (Nat.isDigit_of_mem_toDigits (by decide) (by decide) hmem) (by decide)

/-- A row of digits is read as an integer, with a minus if there is one in front. -/
theorem readNumber?_toDigits (negative : Bool) (n : Nat) {rest : List Char} (h : Delimited rest) :
    readNumber? ((if negative then ['-'] else []) ++ (Nat.toDigits 10 n ++ rest)) =
      some (.int (if negative then -(n : Int) else n),
        (if negative then 1 else 0) + (Nat.toDigits 10 n).length) := by
  unfold readNumber?
  split
  rename_i minus chars signLength hsign
  -- A minus is taken only if it was put there, since no digit is one.
  have hparts : minus = negative ∧ chars = Nat.toDigits 10 n ++ rest ∧
      signLength = if negative then 1 else 0 := by
    cases negative with
    | true =>
        cases hsign
        exact ⟨rfl, rfl, rfl⟩
    | false =>
        rw [if_neg Bool.false_ne_true, List.nil_append] at hsign
        split at hsign
        · rename_i tail heq
          have hhead : (Nat.toDigits 10 n).head? = some '-' := by
            rw [← List.head?_append_of_ne_nil _ Nat.toDigits_ne_nil, heq]
            rfl
          exact absurd (List.mem_of_head? hhead) (minus_not_mem_toDigits n)
        · cases hsign
          exact ⟨rfl, rfl, rfl⟩
  obtain ⟨rfl, rfl, rfl⟩ := hparts
  dsimp only
  rw [wholeDigits_toDigits n h, if_neg Nat.toDigits_ne_nil, List.drop_left, h.fractionDigits,
    if_pos rfl, List.drop_zero, h.readExponent?, natOfDigits_toDigits]
  rfl

theorem toList_toString_ofNat (n : Nat) :
    (toString (Int.ofNat n)).toList = Nat.toDigits 10 n := by
  change (Nat.repr n).toList = _
  rw [Nat.repr_eq_ofList_toDigits, String.toList_ofList]

theorem toList_toString_negSucc (n : Nat) :
    (toString (Int.negSucc n)).toList = '-' :: Nat.toDigits 10 (n + 1) := by
  change ("-" ++ Nat.repr (n + 1)).toList = _
  rw [String.toList_append, Nat.repr_eq_ofList_toDigits, @String.toList_ofList (Nat.toDigits _ _)]
  rfl

/-- An integer is read back from its text. -/
theorem readNumber?_toString (n : Int) {rest : List Char} (h : Delimited rest) :
    readNumber? ((toString n).toList ++ rest) = some (.int n, (toString n).toList.length) := by
  cases n with
  | ofNat n =>
      have hread := readNumber?_toDigits false n h
      rw [toList_toString_ofNat]
      simpa using hread
  | negSucc n =>
      have hread := readNumber?_toDigits true (n + 1) h
      rw [toList_toString_negSucc, List.length_cons, Nat.add_comm (Nat.toDigits 10 (n + 1)).length]
      exact hread

end Json

end SlotEvidence
