/-
Module: SlotEvidence.Proofs.Text.Integer
Purpose: The written forms of integers as a grammar: blanks, an optional sign, and a row of digits
  in which single underscores may stand between two of them.  Reading accepts exactly these forms,
  and gives the number that the digits write in base ten, which can be written again.
Trusted boundary: none
Main exports: Text.DigitRow, Text.WritesInteger, Text.Numerals, Text.readInteger?_eq_some_iff,
  Text.writable_signed, Text.Numerals.writable
-/
import Mathlib.Data.Nat.Digits.Defs
import SlotEvidence.Proofs.Text.Decimal
import SlotEvidence.Proofs.Text.Trim
import SlotEvidence.Text.Integer

namespace SlotEvidence

namespace Text

variable {blank : Char → Bool} {value? : Char → Option Nat}

/-- A row of digits and their values.  An underscore may stand between two digits. -/
inductive DigitRow (value? : Char → Option Nat) : List Char → List Nat → Prop where
  | one {c : Char} {digit : Nat} (h : value? c = some digit) : DigitRow value? [c] [digit]
  | next {c : Char} {digit : Nat} {chars : List Char} {digits : List Nat}
      (h : value? c = some digit) (rest : DigitRow value? chars digits) :
      DigitRow value? (c :: chars) (digit :: digits)
  | spaced {c : Char} {digit : Nat} {chars : List Char} {digits : List Nat}
      (h : value? c = some digit) (rest : DigitRow value? chars digits) :
      DigitRow value? (c :: '_' :: chars) (digit :: digits)

/-- What may stand in front of a row of digits, and whether it makes the number a negative one. -/
inductive Sign : List Char → Bool → Prop where
  | absent : Sign [] false
  | plus : Sign ['+'] false
  | minus : Sign ['-'] true

/-- The written forms of an integer.  The first digit counts most. -/
inductive WritesInteger (blank : Char → Bool) (value? : Char → Option Nat) (chars : List Char) :
    Int → Prop where
  | intro {sign row : List Char} {digits : List Nat} {negative : Bool} (hsign : Sign sign negative)
      (hrow : DigitRow value? row digits) (hlimit : digits.length ≤ digitLimit)
      (hchars : Between blank (sign ++ row) chars) :
      WritesInteger blank value? chars (signed negative (Nat.ofDigits 10 digits.reverse))

/-- An alphabet for numbers in base ten: signs and underscores are no digits, and all of them are no
blanks. -/
structure Numerals (blank : Char → Bool) (value? : Char → Option Nat) : Prop where
  digit_lt : ∀ {c digit}, value? c = some digit → digit < 10
  value?_mark : ∀ c ∈ ['+', '-', '_'], value? c = none
  blank_mark : ∀ c ∈ ['+', '-', '_'], blank c = false
  blank_digit : ∀ {c digit}, value? c = some digit → blank c = false

/-! ### Rows of digits

Digits stand in a row with at most one underscore between two of them. -/

theorem DigitRow.cons {chars : List Char} {digits : List Nat} (h : DigitRow value? chars digits) :
    ∃ c digit rest, value? c = some digit ∧ chars = c :: rest := by
  cases h with
  | one h => exact ⟨_, _, _, h, rfl⟩
  | next h _ => exact ⟨_, _, _, h, rfl⟩
  | spaced h _ => exact ⟨_, _, _, h, rfl⟩

/-- Digits that are read stand in a row with single underscores between them. -/
theorem digitRow_of_readDigits? {chars : List Char} {digits : List Nat}
    (h : readDigits? value? chars = some digits) : DigitRow value? chars digits := by
  fun_induction readDigits? value? chars generalizing digits with
  | case1 => cases h
  | case2 c =>
      obtain ⟨digit, hdigit, rfl⟩ := Option.map_eq_some_iff.1 h
      exact .one hdigit
  | case3 c rest ih =>
      obtain ⟨digit, hdigit, h⟩ := Option.bind_eq_some_iff.1 h
      obtain ⟨digits, hrest, h⟩ := Option.bind_eq_some_iff.1 h
      cases h
      exact .spaced hdigit (ih hrest)
  | case4 c rest _ _ ih =>
      obtain ⟨digit, hdigit, h⟩ := Option.bind_eq_some_iff.1 h
      obtain ⟨digits, hrest, h⟩ := Option.bind_eq_some_iff.1 h
      cases h
      exact .next hdigit (ih hrest)

/-- Conversely, such a row is read. -/
theorem DigitRow.readDigits? (hmark : value? '_' = none) {chars : List Char} {digits : List Nat}
    (h : DigitRow value? chars digits) : Text.readDigits? value? chars = some digits := by
  induction h with
  | one h => rw [Text.readDigits?, h, Option.map_some]
  | next h rest ih =>
      -- A row begins with a digit, so the reader does not take its start for an underscore.
      obtain ⟨d, _, tail, hd, rfl⟩ := rest.cons
      have hne : d ≠ '_' := by
        rintro rfl
        rw [hmark] at hd
        cases hd
      rw [Text.readDigits?, h, ih]
      · rfl
      · exact List.cons_ne_nil _ _
      · exact fun _ heq => hne (List.cons.inj heq).1
  | spaced h rest ih =>
      rw [Text.readDigits?, h, ih]
      rfl

theorem readDigits?_eq_some_iff (hmark : value? '_' = none) {chars : List Char}
    {digits : List Nat} :
    readDigits? value? chars = some digits ↔ DigitRow value? chars digits :=
  ⟨digitRow_of_readDigits?, DigitRow.readDigits? hmark⟩

theorem DigitRow.mem {chars : List Char} {digits : List Nat} (h : DigitRow value? chars digits) :
    ∀ c ∈ chars, c = '_' ∨ ∃ digit, value? c = some digit := by
  induction h with
  | one h => exact List.forall_mem_singleton.2 (.inr ⟨_, h⟩)
  | next h _ ih => exact List.forall_mem_cons.2 ⟨.inr ⟨_, h⟩, ih⟩
  | spaced h _ ih =>
      exact List.forall_mem_cons.2 ⟨.inr ⟨_, h⟩, List.forall_mem_cons.2 ⟨.inl rfl, ih⟩⟩

/-- The number that is read is the one that the digits write in base ten. -/
theorem ofDigits_eq (digits : List Nat) : ofDigits digits = Nat.ofDigits 10 digits.reverse := by
  rw [Nat.ofDigits_eq_foldr, List.foldr_reverse, ofDigits]
  congr 1
  funext n digit
  rw [Nat.cast_id, Nat.add_comm]

/-- A number of no more digits than are read has a text, whatever its sign. -/
theorem writable_signed {digits : List Nat} (hlimit : digits.length ≤ digitLimit)
    (hdigits : ∀ digit ∈ digits, digit < 10) (negative : Bool) :
    Writable (signed negative (ofDigits digits)) := by
  have hsize : (signed negative (ofDigits digits)).natAbs = ofDigits digits := by
    cases negative <;> simp [signed]
  have hlength : digits.reverse.length ≤ digitLimit := by rwa [List.length_reverse]
  rw [writable_iff_natAbs_lt, hsize, ofDigits_eq]
  calc Nat.ofDigits 10 digits.reverse
      < 10 ^ digits.reverse.length :=
        Nat.ofDigits_lt_base_pow_length (by decide) fun digit hdigit =>
          hdigits digit (List.mem_reverse.1 hdigit)
    _ ≤ 10 ^ digitLimit := Nat.pow_le_pow_right (by decide) hlength

/-! ### Signs

A sign stands in front of the row, with nothing between them. -/

/-- What is split off in front is a sign or nothing. -/
theorem sign_of_splitSign (chars : List Char) :
    ∃ sign, Sign sign (splitSign chars).1 ∧ chars = sign ++ (splitSign chars).2 := by
  unfold splitSign
  split
  · exact ⟨_, .minus, rfl⟩
  · exact ⟨_, .plus, rfl⟩
  · exact ⟨_, .absent, rfl⟩

namespace Numerals

variable (hnumerals : Numerals blank value?)

include hnumerals

/-- In front of a row of digits, a sign is split off whole. -/
theorem splitSign_append {sign row : List Char} {negative : Bool} {digits : List Nat}
    (hsign : Sign sign negative) (hrow : DigitRow value? row digits) :
    splitSign (sign ++ row) = (negative, row) := by
  cases hsign with
  | plus => rfl
  | minus => rfl
  | absent =>
      obtain ⟨c, digit, rest, hdigit, rfl⟩ := hrow.cons
      have hne : ∀ mark ∈ ['+', '-', '_'], c ≠ mark := by
        rintro mark hmark rfl
        rw [hnumerals.value?_mark c hmark] at hdigit
        cases hdigit
      rw [List.nil_append, splitSign]
      · exact fun _ heq => hne '-' (.tail _ (.head _)) (List.cons.inj heq).1
      · exact fun _ heq => hne '+' (.head _) (List.cons.inj heq).1

/-- No character of a sign or of a row of digits is blank. -/
theorem blank_eq_false {sign row : List Char} {negative : Bool} {digits : List Nat}
    (hsign : Sign sign negative) (hrow : DigitRow value? row digits) :
    ∀ c ∈ sign ++ row, blank c = false := by
  intro c hc
  rcases List.mem_append.1 hc with hc | hc
  · cases hsign with
    | absent => cases hc
    | plus => exact hnumerals.blank_mark c (by rw [List.mem_singleton.1 hc]; decide)
    | minus => exact hnumerals.blank_mark c (by rw [List.mem_singleton.1 hc]; decide)
  · rcases hrow.mem c hc with rfl | ⟨digit, hdigit⟩
    · exact hnumerals.blank_mark _ (by decide)
    · exact hnumerals.blank_digit hdigit

/-- Exactly the written forms of an integer are read as it. -/
theorem readInteger?_eq_some_iff {chars : List Char} {n : Int} :
    readInteger? blank value? chars = some n ↔ WritesInteger blank value? chars n := by
  have hmark : value? '_' = none := hnumerals.value?_mark _ (by decide)
  constructor
  · intro h
    obtain ⟨sign, hsign, htrim⟩ := sign_of_splitSign (trim blank chars)
    have hbetween := between_trim blank chars
    rw [htrim] at hbetween
    unfold readInteger? at h
    dsimp only at h
    split at h
    · rename_i digits hdigits
      split at h
      · rename_i hlimit
        cases h
        rw [ofDigits_eq]
        exact .intro hsign ((readDigits?_eq_some_iff hmark).1 hdigits) hlimit hbetween
      · cases h
    · cases h
  · rintro ⟨hsign, hrow, hlimit, hchars⟩
    have htrim := trim_eq (hnumerals.blank_eq_false hsign hrow) hchars
    unfold readInteger?
    rw [htrim, hnumerals.splitSign_append hsign hrow]
    dsimp only
    rw [(readDigits?_eq_some_iff hmark).2 hrow]
    dsimp only
    rw [if_pos hlimit, ofDigits_eq]

/-- Whatever integer a text writes can be written again. -/
theorem writable {chars : List Char} {n : Int} (h : WritesInteger blank value? chars n) :
    Writable n := by
  obtain ⟨-, hrow, hlimit, -⟩ := h
  rw [← ofDigits_eq]
  refine writable_signed hlimit ?_ _
  induction hrow with
  | one h => exact List.forall_mem_singleton.2 (hnumerals.digit_lt h)
  | next h _ ih | spaced h _ ih =>
      exact List.forall_mem_cons.2
        ⟨hnumerals.digit_lt h, ih (Nat.le_of_succ_le hlimit)⟩

end Numerals

/-! ### The alphabets

The decimal digits of all scripts, or the ten of ASCII; neither has a sign, an underscore or a blank
among its digits. -/

/-- The code points of white space. -/
def whiteSpaceCodes : List Nat :=
  [9, 10, 11, 12, 13, 0x20, 0x85, 0xa0, 0x1680, 0x2000, 0x2001, 0x2002, 0x2003, 0x2004, 0x2005,
   0x2006, 0x2007, 0x2008, 0x2009, 0x200a, 0x2028, 0x2029, 0x202f, 0x205f, 0x3000]

theorem toNat_mem_whiteSpaceCodes {c : Char} (h : isWhiteSpace c = true) :
    c.toNat ∈ whiteSpaceCodes := by
  simp only [isWhiteSpace, Bool.or_eq_true, Bool.and_eq_true, decide_eq_true_eq] at h
  simp only [whiteSpaceCodes, List.mem_cons, List.not_mem_nil, or_false]
  omega

/-- No digit of any script is white space. -/
theorem isWhiteSpace_of_decimalValue? {c : Char} {digit : Nat} (h : decimalValue? c = some digit) :
    isWhiteSpace c = false := by
  obtain ⟨first, hfind, -⟩ := Option.map_eq_some_iff.1 h
  have hmem := List.mem_of_find?_eq_some hfind
  have hrange := List.find?_some hfind
  have htable : ∀ first ∈ decimalZeros, ∀ n ∈ whiteSpaceCodes,
      (first ≤ n && n < first + 10) = false := by
    decide
  refine Bool.eq_false_iff.2 fun hwhite => ?_
  rw [htable first hmem _ (toNat_mem_whiteSpaceCodes hwhite)] at hrange
  cases hrange

theorem forall_mark {P : Char → Prop} (h : P '+' ∧ P '-' ∧ P '_') : ∀ c ∈ ['+', '-', '_'], P c := by
  simpa only [List.forall_mem_cons, List.not_mem_nil, false_imp_iff, implies_true, and_true] using h

/-- Decimal digits of any script between white space. -/
theorem numerals_decimal : Numerals isWhiteSpace decimalValue? where
  digit_lt := decimalValue?_lt
  value?_mark := forall_mark (by decide)
  blank_mark := forall_mark (by decide)
  blank_digit := isWhiteSpace_of_decimalValue?

/-- Digits of ASCII between its blanks. -/
theorem numerals_ascii : Numerals isAsciiBlank asciiValue? where
  digit_lt := by
    intro c digit h
    unfold asciiValue? at h
    split at h
    · rename_i hrange
      simp only [Char.le_def, UInt32.le_iff_toNat_le] at hrange
      cases h
      have hhigh : c.toNat ≤ 57 := hrange.2
      omega
    · cases h
  value?_mark := forall_mark (by decide)
  blank_mark := forall_mark (by decide)
  blank_digit := by
    intro c digit h
    unfold asciiValue? at h
    split at h
    · rename_i hrange
      simp only [Char.le_def, UInt32.le_iff_toNat_le] at hrange
      have hlow : 48 ≤ c.toNat := hrange.1
      simp only [isAsciiBlank, Bool.or_eq_false_iff, Bool.and_eq_false_iff, decide_eq_false_iff_not]
      omega
    · cases h

end Text

end SlotEvidence
