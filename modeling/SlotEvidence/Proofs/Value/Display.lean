/-
Module: SlotEvidence.Proofs.Value.Display
Purpose: What values that are no texts are displayed as: integers as digits, a few values as a fixed
  word, and everything else with a mark that no plain word has.  So a word that is displayed was
  given as a text.
Trusted boundary: none
Main exports: Value.marks, Value.HasMark, Value.toString_cases, Value.display_cases,
  Value.isPlainWord, Value.eq_text_of_display
-/
import SlotEvidence.Proofs.Json.Number
import SlotEvidence.Value

namespace SlotEvidence

namespace Value

/-- Brackets, quotation marks, signs and the point. -/
def marks : List Char := ['(', '[', '\x7b', '<', '\'', '"', '-', '+', '.']

/-- A text with one of the marks in it. -/
def HasMark (s : String) : Prop := ∃ c ∈ s.toList, c ∈ marks

theorem hasMark_ofList {chars : List Char} {c : Char} (hmem : c ∈ chars) (hc : c ∈ marks) :
    HasMark (String.ofList chars) :=
  ⟨c, by rwa [String.toList_ofList], hc⟩

theorem HasMark.append_right {s : String} (h : HasMark s) (t : String) : HasMark (s ++ t) := by
  obtain ⟨c, hmem, hc⟩ := h
  refine ⟨c, ?_, hc⟩
  rw [String.toList_append]
  exact List.mem_append_left _ hmem

theorem HasMark.append_left {t : String} (h : HasMark t) (s : String) : HasMark (s ++ t) := by
  obtain ⟨c, hmem, hc⟩ := h
  refine ⟨c, ?_, hc⟩
  rw [String.toList_append]
  exact List.mem_append_right _ hmem

theorem hasMark_bracket {left : String} (h : HasMark left) (right : String) (parts : List String) :
    HasMark (bracket left right parts) :=
  (h.append_right _).append_right _

theorem hasMark_tupleText (parts : List String) : HasMark (tupleText parts) := by
  have hopen : HasMark "(" := ⟨'(', by decide, by decide⟩
  unfold tupleText
  split
  · exact (hopen.append_right _).append_right _
  · exact hasMark_bracket hopen _ _

theorem hasMark_setText (parts : List String) : HasMark (setText parts) := by
  unfold setText
  split
  · exact ⟨'(', by decide, by decide⟩
  · exact hasMark_bracket ⟨'\x7b', by decide, by decide⟩ _ _

theorem hasMark_quoteBytes (bytes : Bytes) : HasMark (Text.quoteBytes bytes) := by
  apply HasMark.append_left
  refine hasMark_ofList List.mem_cons_self ?_
  unfold Text.quoteMark
  split <;> decide

theorem hasMark_quoteBuffer (bytes : Bytes) : HasMark (Text.quoteBuffer bytes) :=
  (HasMark.append_right ⟨'(', by decide, by decide⟩ _).append_right _

/-- The text of a moment has a mark between its numbers. -/
theorem hasMark_moment (m : Moment) : HasMark m.display := by
  have hdash : HasMark "-" := ⟨'-', by decide, by decide⟩
  have hday (year month day : String) : HasMark (year ++ "-" ++ month ++ "-" ++ day) :=
    (((hdash.append_left year).append_right month).append_right "-").append_right day
  unfold Moment.display
  dsimp only
  split
  · exact ((hday _ _ _).append_right _).append_right _
  · exact hday _ _ _

end Value

namespace Binary64

open Value

theorem hasMark_exponentText (e : Int) : HasMark (exponentText e) := by
  unfold exponentText
  apply HasMark.append_right
  split
  · exact ⟨'-', by decide, by decide⟩
  · exact ⟨'+', by decide, by decide⟩

/-- The text of a decimal has a point or the sign of an exponent. -/
theorem hasMark_decimal (d : Decimal) : HasMark d.text := by
  have hpoint : '.' ∈ marks := by decide
  unfold Decimal.text
  dsimp only
  split
  · split
    · exact hasMark_ofList (.tail _ (.head _)) hpoint
    · split
      · exact hasMark_ofList (List.mem_append_right _ (.head _)) hpoint
      · exact hasMark_ofList (List.mem_append_right _ (.head _)) hpoint
  · exact (hasMark_exponentText _).append_left _

/-- The text of a float is one of two words, or has a mark in it. -/
theorem text_cases (x : Binary64) : x.text = "nan" ∨ x.text = "inf" ∨ HasMark x.text := by
  unfold text
  split
  · exact .inl rfl
  · dsimp only
    split
    · exact .inr (.inr (HasMark.append_right ⟨'-', by decide, by decide⟩ _))
    · split
      · exact .inr (.inl rfl)
      · split
        · exact .inr (.inr ⟨'.', by decide, by decide⟩)
        · exact .inr (.inr (hasMark_decimal _))

end Binary64

namespace Value

/-- An integer is displayed as its digits, after a sign if it is below zero. -/
theorem toString_cases (n : Int) :
    HasMark (toString n) ∨
      0 ≤ n ∧ (∀ c ∈ (toString n).toList, c.isDigit = true) ∧
        Binary64.natOfDigits (toString n).toList = n := by
  cases n with
  | ofNat n =>
      refine .inr ⟨Int.natCast_nonneg n, ?_, ?_⟩
      · rw [Json.toList_toString_ofNat]
        exact fun c hc => Nat.isDigit_of_mem_toDigits (by decide) (by decide) hc
      · rw [Json.toList_toString_ofNat, Json.natOfDigits_toDigits]
        rfl
  | negSucc n =>
      refine .inl ⟨'-', ?_, by decide⟩
      rw [Json.toList_toString_negSucc]
      exact .head _

/-- Nothing, infinity and what is no number are displayed by words. -/
theorem display_cases (v : Value) :
    (∃ s, v = .text s) ∨ (∃ n, v = .int n) ∨ (∃ b, v = .bool b) ∨
      v.display ∈ ["None", "nan", "inf"] ∨ HasMark v.display := by
  cases v with
  | text s => exact .inl ⟨s, rfl⟩
  | int n => exact .inr (.inl ⟨n, rfl⟩)
  | bool b => exact .inr (.inr (.inl ⟨b, rfl⟩))
  | null => exact .inr (.inr (.inr (.inl (by decide))))
  | float x =>
      refine .inr (.inr (.inr ?_))
      change x.text ∈ ["None", "nan", "inf"] ∨ HasMark x.text
      rcases x.text_cases with h | h | h
      · exact .inl (by rw [h]; decide)
      · exact .inl (by rw [h]; decide)
      · exact .inr h
  | bytes b => exact .inr (.inr (.inr (.inr (hasMark_quoteBytes b))))
  | buffer b => exact .inr (.inr (.inr (.inr (hasMark_quoteBuffer b))))
  | moment m => exact .inr (.inr (.inr (.inr (hasMark_moment m))))
  | list items =>
      exact .inr (.inr (.inr (.inr (hasMark_bracket ⟨'[', by decide, by decide⟩ _ _))))
  | tuple items => exact .inr (.inr (.inr (.inr (hasMark_tupleText _))))
  | set items => exact .inr (.inr (.inr (.inr (hasMark_setText _))))
  | mapping entries =>
      exact .inr (.inr (.inr (.inr (hasMark_bracket ⟨'\x7b', by decide, by decide⟩ _ _))))
  | member value =>
      have hmark : HasMark "<member>" := ⟨'<', by decide, by decide⟩
      exact .inr (.inr (.inr (.inr hmark)))
  | record fields =>
      exact .inr (.inr (.inr (.inr (hasMark_bracket ⟨'(', by decide, by decide⟩ _ _))))
  | report kind fields =>
      exact .inr (.inr (.inr (.inr (hasMark_bracket ⟨'(', by decide, by decide⟩ _ _))))
  | object => exact .inr (.inr (.inr (.inr ⟨'<', by decide, by decide⟩)))

/-- A word that is displayed of a text only: without marks, no row of digits, and none of the words
for other values. -/
def isPlainWord (word : String) : Bool :=
  word ∉ ["None", "True", "False", "nan", "inf"] && word.toList.all (· ∉ marks) &&
    word.toList.any (!·.isDigit)

/-- A plain word that is displayed was given as a text. -/
theorem eq_text_of_display {v : Value} {word : String} (h : v.display = word)
    (hword : isPlainWord word = true) : v = .text word := by
  simp only [isPlainWord, Bool.and_eq_true, decide_eq_true_eq, List.all_eq_true, List.any_eq_true,
    Bool.not_eq_true'] at hword
  obtain ⟨⟨hother, hmarks⟩, hletter⟩ := hword
  have hplain : ¬ HasMark word := fun ⟨c, hmem, hc⟩ => hmarks c hmem hc
  rcases display_cases v with ⟨s, rfl⟩ | ⟨n, rfl⟩ | ⟨b, rfl⟩ | hdisplay | hdisplay
  · rw [← h]
    rfl
  · change toString n = word at h
    rcases toString_cases n with hmark | ⟨-, hdigits, -⟩
    · rw [h] at hmark
      exact absurd hmark hplain
    · obtain ⟨c, hmem, hc⟩ := hletter
      rw [h] at hdigits
      rw [hdigits c hmem] at hc
      cases hc
  · subst h
    cases b <;> exact absurd (by decide) hother
  · rw [h] at hdisplay
    refine absurd (List.Sublist.subset ?_ hdisplay) hother
    decide
  · rw [h] at hdisplay
    exact absurd hdisplay hplain

end Value

end SlotEvidence
