/-
Module: SlotEvidence.Proofs.Json.Text
Purpose: Texts between double quotes are read back: every character is written so that reading its
  form gives the character, also where it takes two escapes.
Trusted boundary: none
Main exports: Json.readText_escapeChar, Json.readText_flatMap
-/
import SlotEvidence.Json.Token
import SlotEvidence.Proofs.Hex

namespace SlotEvidence

namespace Json

/-- Four digits are read as the number they write, whatever follows. -/
theorem fourDigits?_hexDigits {n : Nat} (h : n < 0x10000) (tail : List Char) :
    fourDigits? (Text.hexDigits 4 n ++ tail) = some n := by
  have hdigit : ∀ m : Nat, Hex.digitValue? (Hex.digit (m % 16)) = some (m % 16) := by
    intro m
    exact Hex.digitValue?_digit (Nat.mod_lt _ (by decide))
  have hvalue : ((n / 16 / 16 / 16 % 16 * 16 + n / 16 / 16 % 16) * 16 + n / 16 % 16) * 16 + n % 16 =
      n := by
    omega
  simp [Text.hexDigits, fourDigits?, hdigit, hvalue]

@[simp] theorem length_hexDigits (width n : Nat) : (Text.hexDigits width n).length = width := by
  induction width generalizing n with
  | zero => rfl
  | succ width ih => rw [Text.hexDigits, List.length_append, ih, List.length_singleton]

/-- The code point of a character is none of a surrogate. -/
theorem toNat_valid (c : Char) : c.toNat < 0xd800 ∨ 0xdfff < c.toNat ∧ c.toNat < 0x110000 :=
  c.valid

theorem charOfCode_toNat (c : Char) : Text.charOfCode c.toNat = c := by
  rw [Text.charOfCode, if_neg, Char.ofNat_toNat]
  rintro ⟨hlow, hhigh⟩
  rcases toNat_valid c with h | h <;> omega

theorem isHighSurrogate_iff {unit : Nat} :
    Text.isHighSurrogate unit = true ↔ 0xd800 ≤ unit ∧ unit < 0xdc00 := by
  rw [Text.isHighSurrogate, Bool.and_eq_true, decide_eq_true_eq, decide_eq_true_eq]

theorem isLowSurrogate_iff {unit : Nat} :
    Text.isLowSurrogate unit = true ↔ 0xdc00 ≤ unit ∧ unit < 0xe000 := by
  rw [Text.isLowSurrogate, Bool.and_eq_true, decide_eq_true_eq, decide_eq_true_eq]

/-- A unit that is a character is read as it. -/
theorem readUnits_unit (mark : Nat) {c : Char} (h : c.toNat < 0x10000) {tail : List Char}
    (htail : tail ≠ []) :
    readUnits mark (Text.hexDigits 4 c.toNat ++ tail) = .ok (c, 4) := by
  obtain ⟨next, following, rfl⟩ := List.exists_cons_of_ne_nil htail
  have hdrop : (Text.hexDigits 4 c.toNat ++ next :: following).drop 4 = next :: following :=
    List.drop_left' (length_hexDigits 4 c.toNat)
  have hhigh : Text.isHighSurrogate c.toNat = false := by
    rw [Bool.eq_false_iff, ne_eq, isHighSurrogate_iff]
    rcases toNat_valid c with h | h <;> omega
  rw [readUnits, fourDigits?_hexDigits h, hdrop]
  dsimp only
  split
  · rw [if_neg, charOfCode_toNat]
    rw [hhigh]
    exact fun h => Bool.false_ne_true h.1
  · rw [charOfCode_toNat]

/-- A high and a low surrogate are read as one character. -/
theorem readUnits_pair (mark : Nat) {high low : Nat} (hhigh : Text.isHighSurrogate high = true)
    (hlow : Text.isLowSurrogate low = true) {tail : List Char} (htail : tail ≠ []) :
    readUnits mark (Text.hexDigits 4 high ++ (escapeUnit low ++ tail)) =
      .ok (Text.charOfCode (Text.joinSurrogates high low), 10) := by
  have hhighUnit : high < 0x10000 :=
    Nat.lt_trans (isHighSurrogate_iff.1 hhigh).2 (by decide)
  have hlowUnit : low < 0x10000 :=
    Nat.lt_trans (isLowSurrogate_iff.1 hlow).2 (by decide)
  have hdrop : (Text.hexDigits 4 high ++ (escapeUnit low ++ tail)).drop 4 =
      '\\' :: 'u' :: (Text.hexDigits 4 low ++ tail) :=
    List.drop_left' (length_hexDigits 4 high)
  have hmore : (Text.hexDigits 4 low ++ tail).drop 4 ≠ [] := by
    rw [List.drop_left' (length_hexDigits 4 low)]
    exact htail
  rw [readUnits, hdrop, fourDigits?_hexDigits hhighUnit]
  change (if _ then _ else _) = _
  rw [if_pos ⟨hhigh, hmore⟩, fourDigits?_hexDigits hlowUnit]
  exact if_pos hlow

/-- The surrogates that a code point outside the first plane is written with. -/
theorem joinSurrogates_split {n : Nat} (h : 0x10000 ≤ n) (hlast : n < 0x110000) :
    Text.isHighSurrogate (0xd800 + (n - 0x10000) / 0x400) = true ∧
      Text.isLowSurrogate (0xdc00 + (n - 0x10000) % 0x400) = true ∧
      Text.joinSurrogates (0xd800 + (n - 0x10000) / 0x400)
        (0xdc00 + (n - 0x10000) % 0x400) = n := by
  refine ⟨isHighSurrogate_iff.2 ⟨Nat.le_add_right _ _, ?_⟩,
    isLowSurrogate_iff.2 ⟨Nat.le_add_right _ _, ?_⟩, ?_⟩
  · omega
  · omega
  · unfold Text.joinSurrogates
    omega

/-- The escapes of a character outside the first plane are read as it. -/
theorem readUnits_surrogates (mark : Nat) {c : Char} (h : 0x10000 ≤ c.toNat) {tail : List Char}
    (htail : tail ≠ []) :
    readUnits mark (Text.hexDigits 4 (0xd800 + (c.toNat - 0x10000) / 0x400) ++
      (escapeUnit (0xdc00 + (c.toNat - 0x10000) % 0x400) ++ tail)) = .ok (c, 10) := by
  have hlast : c.toNat < 0x110000 := by
    rcases toNat_valid c with hc | hc <;> omega
  obtain ⟨hhigh, hlow, hjoin⟩ := joinSurrogates_split h hlast
  rw [readUnits_pair mark hhigh hlow htail, hjoin, charOfCode_toNat]

/-- An escape is read as one character, and the text goes on after it. -/
theorem readText_escape {opening position : Nat} {rest : List Char} {c : Char} {count : Nat}
    (h : readEscape opening position rest = .ok (c, count)) :
    readText opening position ('\\' :: rest) =
      (readText opening (position + 1 + count) (rest.drop count)).map
        fun (read, more) => (c :: read, more + count + 1) := by
  rw [readText.eq_def]
  dsimp only
  rw [if_neg (by decide), if_pos rfl, h]

/-- A character that needs no escape is read as itself. -/
theorem readText_raw (opening position : Nat) {c : Char} (hquote : c ≠ '"')
    (hbackslash : c ≠ '\\') (hcontrol : 32 ≤ c.toNat) (rest : List Char) :
    readText opening position (c :: rest) =
      (readText opening (position + 1) rest).map fun (read, more) => (c :: read, more + 1) := by
  rw [readText.eq_def]
  dsimp only
  rw [if_neg hquote, if_neg hbackslash, if_neg (Nat.not_lt.2 hcontrol)]

/-- What follows a backslash is read as a character, wherever a text goes on after it. -/
def Escapes (c : Char) (form : List Char) : Prop :=
  ∀ {opening position : Nat} {tail : List Char}, tail ≠ [] →
    readEscape opening position (form ++ tail) = .ok (c, form.length)

/-- The escapes of one letter stand for their characters. -/
theorem escapes_letter {letter c : Char} (hletter : letter ≠ 'u')
    (h : letterEscape? letter = some c) : Escapes c [letter] := by
  intro opening position tail _
  rw [List.singleton_append]
  unfold readEscape
  split
  · rename_i heq
    cases heq
  · rename_i heq
    cases heq
    exact absurd rfl hletter
  · rename_i heq
    cases heq
    rw [h]
    rfl

/-- A character of one unit is read back from its four digits. -/
theorem escapes_unit {c : Char} (h : c.toNat < 0x10000) :
    Escapes c ('u' :: Text.hexDigits 4 c.toNat) := by
  intro opening position tail htail
  rw [List.cons_append, readEscape, readUnits_unit _ h htail, List.length_cons, length_hexDigits]
  rfl

/-- A character beyond them is read back from the two surrogates that it is split into. -/
theorem escapes_surrogates {c : Char} (h : 0x10000 ≤ c.toNat) :
    Escapes c ('u' :: (Text.hexDigits 4 (0xd800 + (c.toNat - 0x10000) / 0x400) ++
      escapeUnit (0xdc00 + (c.toNat - 0x10000) % 0x400))) := by
  intro opening position tail htail
  rw [List.cons_append, readEscape, List.append_assoc, readUnits_surrogates _ h htail, escapeUnit,
    List.length_cons, List.length_append, length_hexDigits, List.length_cons, List.length_cons,
    length_hexDigits]
  rfl

/-- A character stands for itself, or its form is a backslash and an escape. -/
theorem escapeChar_cases (c : Char) :
    (escapeChar c = [c] ∧ c ≠ '"' ∧ c ≠ '\\' ∧ 32 ≤ c.toNat) ∨
      ∃ form, escapeChar c = '\\' :: form ∧ Escapes c form := by
  have hcode : ∀ n, c.toNat = n → c = Char.ofNat n := by
    rintro _ rfl
    rw [Char.ofNat_toNat]
  -- The cases of the definition, in its order: letters, the plain range, one unit, two surrogates.
  unfold escapeChar
  by_cases hquote : c = '"'
  · rw [if_pos hquote, hquote]
    exact .inr ⟨_, rfl, escapes_letter (by decide) rfl⟩
  rw [if_neg hquote]
  by_cases hbackslash : c = '\\'
  · rw [if_pos hbackslash, hbackslash]
    exact .inr ⟨_, rfl, escapes_letter (by decide) rfl⟩
  rw [if_neg hbackslash]
  by_cases hfeed : c = '\n'
  · rw [if_pos hfeed, hfeed]
    exact .inr ⟨_, rfl, escapes_letter (by decide) rfl⟩
  rw [if_neg hfeed]
  by_cases hreturn : c = '\r'
  · rw [if_pos hreturn, hreturn]
    exact .inr ⟨_, rfl, escapes_letter (by decide) rfl⟩
  rw [if_neg hreturn]
  by_cases htab : c = '\t'
  · rw [if_pos htab, htab]
    exact .inr ⟨_, rfl, escapes_letter (by decide) rfl⟩
  rw [if_neg htab]
  by_cases hback : c.toNat = 8
  · rw [if_pos hback, hcode _ hback]
    exact .inr ⟨_, rfl, escapes_letter (by decide) rfl⟩
  rw [if_neg hback]
  by_cases hform : c.toNat = 12
  · rw [if_pos hform, hcode _ hform]
    exact .inr ⟨_, rfl, escapes_letter (by decide) rfl⟩
  rw [if_neg hform]
  by_cases hraw : 32 ≤ c.toNat ∧ c.toNat < 127
  · rw [if_pos hraw]
    exact .inl ⟨rfl, hquote, hbackslash, hraw.1⟩
  rw [if_neg hraw]
  by_cases hunit : c.toNat < 0x10000
  · rw [if_pos hunit]
    exact .inr ⟨_, rfl, escapes_unit hunit⟩
  · rw [if_neg hunit]
    exact .inr ⟨_, rfl, escapes_surrogates (Nat.le_of_not_lt hunit)⟩

/-- The form of a character is read as the character. -/
theorem readText_escapeChar (opening position : Nat) (c : Char) {tail : List Char}
    (htail : tail ≠ []) :
    readText opening position (escapeChar c ++ tail) =
      (readText opening (position + (escapeChar c).length) tail).map
        fun (read, more) => (c :: read, more + (escapeChar c).length) := by
  rcases escapeChar_cases c with ⟨hself, hquote, hbackslash, hcontrol⟩ | ⟨form, hform, hescapes⟩
  · rw [hself]
    exact readText_raw opening position hquote hbackslash hcontrol tail
  · rw [hform, List.cons_append, readText_escape (hescapes htail), List.drop_left,
      List.length_cons, Nat.add_assoc, Nat.add_comm 1]
    rfl

/-- The characters of a text are read back from their forms up to the closing quote. -/
theorem readText_flatMap (opening position : Nat) (chars rest : List Char) :
    readText opening position (chars.flatMap escapeChar ++ '"' :: rest) =
      .ok (chars, (chars.flatMap escapeChar).length + 1) := by
  induction chars generalizing position with
  | nil =>
      rw [List.flatMap_nil, List.nil_append, readText]
      rfl
  | cons c chars ih =>
      rw [List.flatMap_cons, List.append_assoc, readText_escapeChar _ _ _ (by simp), ih,
        List.length_append]
      have hcount : (chars.flatMap escapeChar).length + 1 + (escapeChar c).length =
          (escapeChar c).length + (chars.flatMap escapeChar).length + 1 := by
        omega
      rw [← hcount]
      rfl

end Json

end SlotEvidence
