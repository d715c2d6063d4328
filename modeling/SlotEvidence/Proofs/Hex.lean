/-
Module: SlotEvidence.Proofs.Hex
Purpose: The written form of byte strings is read back: each digit as its value, two digits as a
  byte.  The texts that are read as bytes are those after whose marker an even number of characters
  come, pairs of digits with blanks before, between and after the pairs.
Trusted boundary: none
Main exports: Hex.digitValue?_digit, Hex.decode_encode, Hex.digits_of_decodePairs,
  Hex.decodePairs_of_decodeBody, Hex.exists_decodePairs, Hex.Pairs, Hex.decode_eq_ok_iff
-/
import Mathlib.Data.List.Basic
import SlotEvidence.Hex
import SlotEvidence.Proofs.Outcome

namespace SlotEvidence

namespace Hex

theorem digitValue?_digit {n : Nat} (h : n < 16) : digitValue? (digit n) = some n := by
  revert n
  decide

/-- A digit is no blank. -/
theorem isBlank_eq_false {c : Char} (h : (digitValue? c).isSome) : isBlank c = false := by
  simp only [digitValue?, Char.le_def, UInt32.le_iff_toNat_le] at h
  simp only [isBlank, Bool.or_eq_false_iff, decide_eq_false_iff_not, Bool.and_eq_false_iff,
    Char.le_def, UInt32.le_iff_toNat_le]
  constructor
  · rintro rfl
    cases h
  · grind

theorem isSome_digitValue?_digit {n : Nat} (h : n < 16) : (digitValue? (digit n)).isSome := by
  rw [digitValue?_digit h]
  rfl

/-- Reading the digits of a byte string gives the byte string. -/
theorem decodePairs_digits (position : Nat) (bytes : Bytes) :
    decodePairs position (digits bytes) = .ok bytes := by
  induction bytes generalizing position with
  | nil => rfl
  | cons b rest ih =>
      have hhigh : b.toNat / 16 < 16 := Nat.div_lt_of_lt_mul b.toNat_lt
      have hlow : b.toNat % 16 < 16 := Nat.mod_lt _ (by decide)
      have hbyte : UInt8.ofNat (16 * (b.toNat / 16) + b.toNat % 16) = b := by
        rw [Nat.div_add_mod, UInt8.ofNat_toNat]
      change decodePairs position
        (digit (b.toNat / 16) :: digit (b.toNat % 16) :: digits rest) = .ok (b :: rest)
      simp [decodePairs, isBlank_eq_false (isSome_digitValue?_digit hhigh), digitValue?_digit hhigh,
        digitValue?_digit hlow, hbyte, ih, Except.map]

theorem length_digits (bytes : Bytes) : (digits bytes).length = 2 * bytes.length := by
  induction bytes with
  | nil => rfl
  | cons b rest ih =>
      change (digits rest).length + 2 = 2 * (rest.length + 1)
      rw [ih, Nat.mul_succ]

/-- All digits of a byte string are those of numbers below sixteen. -/
theorem exists_of_mem_digits {bytes : Bytes} {c : Char} (h : c ∈ digits bytes) :
    ∃ n < 16, c = digit n := by
  obtain ⟨b, -, hc⟩ := List.mem_flatMap.1 h
  rcases List.mem_pair.1 hc with rfl | rfl
  · exact ⟨_, Nat.div_lt_of_lt_mul b.toNat_lt, rfl⟩
  · exact ⟨_, Nat.mod_lt _ (by decide), rfl⟩

theorem toNat_digit_lt {n : Nat} (h : n < 16) : (digit n).toNat < 128 := by
  revert n
  decide

/-- What was written is read back. -/
theorem decode_encode (bytes : Bytes) : decode (encode bytes) = .ok bytes := by
  have hascii : (digits bytes).all (·.toNat < 128) = true := by
    rw [List.all_eq_true]
    intro c hc
    obtain ⟨n, hn, rfl⟩ := exists_of_mem_digits hc
    exact decide_eq_true (toNat_digit_lt hn)
  rw [decode, encode, String.toList_ofList]
  change decodeBody (digits bytes) = .ok bytes
  rw [decodeBody, if_neg, if_pos hascii, decodePairs_digits]
  rw [length_digits, Nat.mul_mod_right]
  exact not_not_intro rfl

/-- The last of the digits is a small f. -/
theorem toNat_lt_of_digitValue? {c : Char} {n : Nat} (h : digitValue? c = some n) :
    c.toNat < 103 := by
  change c.val.toNat < 103
  simp only [digitValue?, Char.le_def, UInt32.le_iff_toNat_le] at h
  grind

/-- A digit of either case has the value of its lower-case form. -/
theorem digit_of_digitValue? {c : Char} {n : Nat} (h : digitValue? c = some n) :
    n < 16 ∧ digit n = c.toLower := by
  have htable : ∀ code < 103, ∀ n ∈ digitValue? (Char.ofNat code),
      n < 16 ∧ digit n = (Char.ofNat code).toLower := by
    decide
  have hcode := htable c.toNat (toNat_lt_of_digitValue? h) n
  rw [Char.ofNat_toNat] at hcode
  exact hcode h

/-- Digits are read as the byte string whose digits they are, but for the case of letters. -/
theorem digits_of_decodePairs {position : Nat} {chars : List Char} {bytes : Bytes}
    (hdigits : ∀ c ∈ chars, (digitValue? c).isSome) (h : decodePairs position chars = .ok bytes) :
    digits bytes = chars.map Char.toLower := by
  fun_induction decodePairs position chars generalizing bytes with
  | case1 =>
      cases h
      rfl
  | case2 position c rest hblank ih =>
      rw [isBlank_eq_false (hdigits c List.mem_cons_self)] at hblank
      cases hblank
  | case3 => cases h
  | case4 => cases h
  | case5 => cases h
  | case6 position c hblank high d rest hhigh low hlow ih =>
      obtain ⟨bytes, hrest, rfl⟩ := map_eq_ok.1 h
      obtain ⟨hhigh, hc⟩ := digit_of_digitValue? hhigh
      obtain ⟨hlow, hd⟩ := digit_of_digitValue? hlow
      have hbyte : (UInt8.ofNat (16 * high + low)).toNat = 16 * high + low :=
        UInt8.toNat_ofNat_of_lt' (by change _ < 256; omega)
      have hdiv : (16 * high + low) / 16 = high := by omega
      have hmod : (16 * high + low) % 16 = low := by omega
      have htail := ih (fun c hc => hdigits c (by simp [hc])) hrest
      rw [List.map_cons, List.map_cons, ← hc, ← hd, ← htail, digits, List.flatMap_cons, hbyte, hdiv,
        hmod]
      rfl

/-- Behind the marker there is an even number of characters, and they are read in pairs. -/
theorem decodePairs_of_decodeBody {body : List Char} {bytes : Bytes}
    (h : decodeBody body = .ok bytes) :
    body.length % 2 = 0 ∧ decodePairs 0 body = .ok bytes := by
  unfold decodeBody at h
  split at h
  · cases h
  · rename_i heven
    split at h
    · exact ⟨Decidable.not_not.1 heven, h⟩
    · cases h

/-- Digits that come in pairs are read as a byte string. -/
theorem exists_decodePairs {position : Nat} {chars : List Char}
    (hdigits : ∀ c ∈ chars, (digitValue? c).isSome) (heven : chars.length % 2 = 0) :
    ∃ bytes, decodePairs position chars = .ok bytes := by
  fun_induction decodePairs position chars with
  | case1 => exact ⟨[], rfl⟩
  | case2 position c rest hblank =>
      rw [isBlank_eq_false (hdigits c List.mem_cons_self)] at hblank
      cases hblank
  | case3 position c rest hblank hnone =>
      have hsome := hdigits c List.mem_cons_self
      rw [hnone] at hsome
      cases hsome
  | case4 => cases heven
  | case5 position c hblank high d rest hhigh hnone =>
      have hsome := hdigits d (.tail _ (.head _))
      rw [hnone] at hsome
      cases hsome
  | case6 position c hblank high d rest hhigh low hlow ih =>
      have hrest : rest.length % 2 = 0 := by
        rw [List.length_cons, List.length_cons] at heven
        omega
      obtain ⟨bytes, hbytes⟩ := ih (fun c hc => hdigits c (by simp [hc])) hrest
      exact ⟨_, map_eq_ok.2 ⟨bytes, hbytes, rfl⟩⟩

/-! ### The texts that are read

Reading is laxer than writing: digits may be small or capital, and blanks may stand between the
pairs.  What is read depends on the pairs alone. -/

/-- Pairs of digits and the bytes that they write, with blanks before, between and after them. -/
inductive Pairs : List Char → Bytes → Prop where
  | nil : Pairs [] []
  | blank {c : Char} {chars : List Char} {bytes : Bytes} (hblank : isBlank c = true)
      (rest : Pairs chars bytes) : Pairs (c :: chars) bytes
  | pair {c d : Char} {high low : Nat} {chars : List Char} {bytes : Bytes}
      (hhigh : digitValue? c = some high) (hlow : digitValue? d = some low)
      (rest : Pairs chars bytes) :
      Pairs (c :: d :: chars) (UInt8.ofNat (16 * high + low) :: bytes)

/-- Digits are read in pairs, with blanks before, between and after the pairs, but not within one.
-/
theorem decodePairs_eq_ok_iff {position : Nat} {chars : List Char} {bytes : Bytes} :
    decodePairs position chars = .ok bytes ↔ Pairs chars bytes := by
  constructor
  · intro h
    fun_induction decodePairs position chars generalizing bytes with
    | case1 =>
        cases h
        exact .nil
    | case2 position c rest hblank ih => exact .blank hblank (ih h)
    | case3 => cases h
    | case4 => cases h
    | case5 => cases h
    | case6 position c hblank high d rest hhigh low hlow ih =>
        obtain ⟨bytes, hrest, rfl⟩ := map_eq_ok.1 h
        exact .pair hhigh hlow (ih hrest)
  · intro h
    induction h generalizing position with
    | nil => rfl
    | blank hblank rest ih =>
        rw [decodePairs.eq_def]
        exact (if_pos hblank).trans ih
    | pair hhigh hlow rest ih =>
        have hblank := isBlank_eq_false (Option.isSome_of_eq_some hhigh)
        simp [decodePairs, hblank, hhigh, hlow, ih, Except.map]

theorem toNat_lt_of_isBlank {c : Char} (h : isBlank c = true) : c.toNat < 128 := by
  simp only [isBlank, Bool.or_eq_true, decide_eq_true_eq, Bool.and_eq_true, Char.le_def,
    UInt32.le_iff_toNat_le] at h
  rcases h with rfl | ⟨-, h⟩
  · decide
  · exact Nat.lt_of_le_of_lt h (by decide)

/-- Digits and blanks are characters of ASCII. -/
theorem Pairs.all_ascii {chars : List Char} {bytes : Bytes} (h : Pairs chars bytes) :
    chars.all (·.toNat < 128) = true := by
  induction h with
  | nil => rfl
  | blank hblank _ ih => rw [List.all_cons, ih, decide_eq_true (toNat_lt_of_isBlank hblank)]; rfl
  | pair hhigh hlow _ ih =>
      have hdigit {c : Char} {n : Nat} (h : digitValue? c = some n) : c.toNat < 128 :=
        Nat.lt_trans (toNat_lt_of_digitValue? h) (by decide)
      rw [List.all_cons, List.all_cons, ih, decide_eq_true (hdigit hhigh),
        decide_eq_true (hdigit hlow)]
      rfl

/-- What is read as bytes is the marker and an even number of characters that pair up. -/
theorem decode_eq_ok_iff {text : String} {bytes : Bytes} :
    decode text = .ok bytes ↔
      ∃ body, text.toList = '0' :: 'x' :: body ∧ body.length % 2 = 0 ∧ Pairs body bytes := by
  constructor
  · intro h
    unfold decode at h
    split at h
    · rename_i body htext
      obtain ⟨heven, hpairs⟩ := decodePairs_of_decodeBody h
      exact ⟨body, htext, heven, decodePairs_eq_ok_iff.1 hpairs⟩
    · cases h
  · rintro ⟨body, htext, heven, hpairs⟩
    rw [decode, htext]
    change decodeBody body = .ok bytes
    rw [decodeBody, if_neg (not_not_intro heven), if_pos hpairs.all_ascii]
    exact decodePairs_eq_ok_iff.2 hpairs

end Hex

end SlotEvidence
