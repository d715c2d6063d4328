/-
Module: SlotEvidence.Proofs.Text.Trim
Purpose: Trimming takes the blanks off both ends of a text and nothing else.  A text without blanks
  is what is left of it between any blanks.
Trusted boundary: none
Main exports: Text.Between, Text.between_trim, Text.trim_eq, Text.mem_trim
-/
import Mathlib.Data.List.TakeWhile
import SlotEvidence.Text.Blank

namespace SlotEvidence

namespace Text

/-- A text with nothing but blanks before and after it. -/
inductive Between (blank : Char → Bool) (middle : List Char) : List Char → Prop where
  | intro {before after : List Char} (hbefore : ∀ c ∈ before, blank c = true)
      (hafter : ∀ c ∈ after, blank c = true) : Between blank middle (before ++ (middle ++ after))

variable {blank : Char → Bool}

/-- What trimming takes away is blank. -/
theorem between_trim (blank : Char → Bool) (chars : List Char) :
    Between blank (trim blank chars) chars := by
  have hend : trim blank chars ++
      ((chars.dropWhile blank).reverse.takeWhile blank).reverse = chars.dropWhile blank := by
    rw [trim, ← List.reverse_append, List.takeWhile_append_dropWhile, List.reverse_reverse]
  have hchars : chars.takeWhile blank ++ (trim blank chars ++
      ((chars.dropWhile blank).reverse.takeWhile blank).reverse) = chars := by
    rw [hend, List.takeWhile_append_dropWhile]
  rw [← congrArg (Between blank (trim blank chars)) hchars]
  refine .intro (fun c hc => List.mem_takeWhile_imp hc) fun c hc => ?_
  exact List.mem_takeWhile_imp (List.mem_reverse.1 hc)

theorem between_self (blank : Char → Bool) (chars : List Char) : Between blank chars chars := by
  have h := @Between.intro blank chars [] [] (List.forall_mem_nil _) (List.forall_mem_nil _)
  rwa [List.nil_append, List.append_nil] at h

/-- What begins without a blank loses nothing in front. -/
theorem dropWhile_append_of_not_blank {middle : List Char} (hne : middle ≠ [])
    (hmiddle : ∀ c ∈ middle, blank c = false) (rest : List Char) :
    (middle ++ rest).dropWhile blank = middle ++ rest := by
  cases middle with
  | nil => exact absurd rfl hne
  | cons c middle =>
      rw [List.cons_append, List.dropWhile_cons_of_neg]
      rw [hmiddle c List.mem_cons_self]
      exact Bool.false_ne_true

/-- A text without blanks is found between any blanks. -/
theorem trim_eq {middle chars : List Char} (hmiddle : ∀ c ∈ middle, blank c = false)
    (h : Between blank middle chars) : trim blank chars = middle := by
  obtain @⟨before, after, hbefore, hafter⟩ := h
  have hstart : trim blank (before ++ (middle ++ after)) = trim blank (middle ++ after) := by
    rw [trim, List.dropWhile_append_of_pos hbefore, trim]
  rw [hstart]
  rcases eq_or_ne middle [] with rfl | hne
  · rw [List.nil_append, trim, List.dropWhile_eq_nil_iff.2 hafter]
    rfl
  · have hreverse : ∀ c ∈ middle.reverse, blank c = false := fun c hc =>
      hmiddle c (List.mem_reverse.1 hc)
    have hrest := dropWhile_append_of_not_blank (mt List.reverse_eq_nil_iff.1 hne) hreverse []
    rw [List.append_nil] at hrest
    rw [trim, dropWhile_append_of_not_blank hne hmiddle, List.reverse_append,
      List.dropWhile_append_of_pos fun c hc => hafter c (List.mem_reverse.1 hc), hrest,
      List.reverse_reverse]

/-- Trimming keeps the characters that are not blank. -/
theorem mem_trim {chars : List Char} {c : Char} (hmem : c ∈ chars) (hc : blank c = false) :
    c ∈ trim blank chars := by
  have hbetween := between_trim blank chars
  generalize trim blank chars = middle at hbetween
  obtain ⟨hbefore, hafter⟩ := hbetween
  simp only [List.mem_append] at hmem
  rcases hmem with hmem | hmem | hmem
  · exact absurd (hbefore c hmem) (Bool.eq_false_iff.1 hc)
  · exact hmem
  · exact absurd (hafter c hmem) (Bool.eq_false_iff.1 hc)

end Text

end SlotEvidence
