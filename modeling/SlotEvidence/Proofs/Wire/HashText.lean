/-
Module: SlotEvidence.Proofs.Wire.HashText
Purpose: The texts that are taken for hashes on the wire: the marker and 64 digits, and perhaps a
  line feed.  Without the line feed a text is read as a hash of 32 bytes, whose written form is the
  text in lower case; with it the text has an odd number of characters after the marker and is not
  read.
Trusted boundary: none
Main exports: Wire.HashSpelled, Wire.TrailsLineFeed, Wire.isHashText_iff,
  Wire.HashSpelled.exists_decode, Wire.TrailsLineFeed.decode_eq, Wire.checkHashText_encode,
  Wire.encode_of_checkHashText, Wire.length_of_checkHashText
-/
import SlotEvidence.Proofs.Hex.Spelling
import SlotEvidence.Wire.HashText

namespace SlotEvidence

namespace Wire

/-- A digit in lower case is a digit. -/
theorem isSome_digitValue?_toLower {c : Char} (h : (Hex.digitValue? c).isSome) :
    (Hex.digitValue? c.toLower).isSome := by
  obtain ⟨n, hn⟩ := Option.isSome_iff_exists.1 h
  obtain ⟨hlt, hdigit⟩ := Hex.digit_of_digitValue? hn
  rw [← hdigit]
  exact Hex.isSome_digitValue?_digit hlt

theorem toLower_digit {n : Nat} (h : n < 16) : (Hex.digit n).toLower = Hex.digit n := by
  revert n
  decide

theorem toLower_toLower {c : Char} (h : (Hex.digitValue? c).isSome) :
    c.toLower.toLower = c.toLower := by
  obtain ⟨n, hn⟩ := Option.isSome_iff_exists.1 h
  obtain ⟨hlt, hdigit⟩ := Hex.digit_of_digitValue? hn
  rw [← hdigit, toLower_digit hlt]

theorem map_toLower_digits (bytes : Bytes) :
    (Hex.digits bytes).map Char.toLower = Hex.digits bytes := by
  conv_rhs => rw [← List.map_id (Hex.digits bytes)]
  apply List.map_congr_left
  intro c hc
  obtain ⟨n, hn, rfl⟩ := Hex.exists_of_mem_digits hc
  exact toLower_digit hn

/-! ### The texts that are taken for hashes

The documented form, and the form that the pattern lets pass besides. -/

/-- Characters that are the marker and the digits of a hash, and nothing else. -/
def MarkedHash (chars : List Char) : Prop :=
  ∃ digits, chars = '0' :: 'x' :: digits ∧ digits.length = 2 * hashLength ∧
    ∀ c ∈ digits, Hex.IsDigit c

/-- The texts that are the marker and the digits of a hash. -/
def HashSpelled (text : String) : Prop := MarkedHash text.toList

/-- A text of that kind has been given a line feed at the end. -/
def TrailsLineFeed (text : String) : Prop :=
  ∃ chars, MarkedHash chars ∧ text.toList = chars ++ ['\n']

/-- The test of characters holds of the marker with 64 digits after it, and of nothing else. -/
theorem isMarkedHash_iff {chars : List Char} : isMarkedHash chars = true ↔ MarkedHash chars := by
  constructor
  · intro h
    unfold isMarkedHash at h
    split at h
    · rename_i digits
      rw [Bool.and_eq_true, decide_eq_true_eq, List.all_eq_true] at h
      exact ⟨digits, rfl, h.1, fun c hc => Hex.isSome_digitValue?_iff.1 (h.2 c hc)⟩
    · cases h
  · rintro ⟨digits, rfl, hlength, hdigits⟩
    change (decide (digits.length = 2 * hashLength) &&
      digits.all fun c => (Hex.digitValue? c).isSome) = true
    rw [Bool.and_eq_true, decide_eq_true_eq, List.all_eq_true]
    exact ⟨hlength, fun c hc => Hex.isSome_digitValue?_iff.2 (hdigits c hc)⟩

theorem MarkedHash.length_eq {chars : List Char} (h : MarkedHash chars) :
    chars.length = 2 * hashLength + 2 := by
  obtain ⟨digits, rfl, hlength, -⟩ := h
  rw [List.length_cons, List.length_cons, hlength]

theorem MarkedHash.lineFeed_not_mem {chars : List Char} (h : MarkedHash chars) :
    '\n' ∉ chars := by
  obtain ⟨digits, rfl, -, hdigits⟩ := h
  simp only [List.mem_cons, Char.reduceEq, false_or]
  intro hmem
  have hdigit := hdigits _ hmem
  revert hdigit
  decide

/-- A text is taken for a hash when it is one, or one with a line feed at the end. -/
theorem isHashText_iff {text : String} :
    isHashText text = true ↔ HashSpelled text ∨ TrailsLineFeed text := by
  rw [isHashText, isMarkedHash_iff, dropFinalLineFeed]
  split
  · rename_i hlast
    have htext : text.toList = text.toList.dropLast ++ ['\n'] :=
      (List.dropLast_append_getLast? _ hlast).symm
    constructor
    · intro h
      exact .inr ⟨_, h, htext⟩
    · rintro (h | ⟨chars, hchars, h⟩)
      · exact absurd (List.mem_of_getLast? hlast) h.lineFeed_not_mem
      · rwa [h, List.dropLast_concat]
  · rename_i hlast
    refine ⟨.inl, fun h => h.resolve_right ?_⟩
    rintro ⟨chars, -, h⟩
    rw [h, List.getLast?_concat] at hlast
    exact hlast rfl

/-- A text that ends in a line feed is not in the documented form. -/
theorem not_hashSpelled_of_trailsLineFeed {text : String} (h : TrailsLineFeed text) :
    ¬ HashSpelled text := by
  intro hspelled
  obtain ⟨chars, -, htext⟩ := h
  apply hspelled.lineFeed_not_mem
  rw [htext]
  exact List.mem_append_right _ List.mem_cons_self

/-- Hashes are written in the documented form. -/
theorem hashSpelled_encode {hash : Bytes} (h : hash.length = hashLength) :
    HashSpelled (Hex.encode hash) := by
  have hchars : (Hex.encode hash).toList = '0' :: 'x' :: Hex.digits hash := String.toList_ofList
  refine ⟨Hex.digits hash, hchars, by rw [Hex.length_digits, h], fun c hc => ?_⟩
  obtain ⟨n, hn, rfl⟩ := Hex.exists_of_mem_digits hc
  exact Hex.isSome_digitValue?_iff.1 (Hex.isSome_digitValue?_digit hn)

theorem isHashText_encode {hash : Bytes} (h : hash.length = hashLength) :
    isHashText (Hex.encode hash) = true :=
  isHashText_iff.2 (.inl (hashSpelled_encode h))

theorem map_toLower_encode (bytes : Bytes) :
    (Hex.encode bytes).toList.map Char.toLower = (Hex.encode bytes).toList := by
  rw [Hex.encode, String.toList_ofList, List.map_cons, List.map_cons, map_toLower_digits]
  rfl

/-- The written form of a hash is a hash text, and its letters are in lower case. -/
theorem checkHashText_encode (field : String) {hash : Bytes} (h : hash.length = hashLength) :
    checkHashText field (Hex.encode hash) = .ok (Hex.encode hash) := by
  rw [checkHashText, if_pos (isHashText_encode h), map_toLower_encode, String.ofList_toList]

/-! ### Reading them

A text that passes is put in small letters and then decoded. -/

/-- A text with its letters in lower case. -/
def lowered (text : String) : String := String.ofList (text.toList.map Char.toLower)

theorem toList_lowered (text : String) : (lowered text).toList = text.toList.map Char.toLower :=
  String.toList_ofList

/-- A text passes just in the documented form, or in this form with a line feed after it, and is put
in small letters. -/
theorem checkHashText_eq_ok_iff {field text word : String} :
    checkHashText field text = .ok word ↔
      (HashSpelled text ∨ TrailsLineFeed text) ∧ word = lowered text := by
  rw [← isHashText_iff, checkHashText]
  split <;> simp [*, lowered, eq_comm]

/-- Small letters keep a text in the documented form. -/
theorem hashSpelled_lowered {text : String} (h : HashSpelled text) :
    HashSpelled (lowered text) := by
  obtain ⟨digits, htext, hlength, hdigits⟩ := h
  refine ⟨digits.map Char.toLower, ?_, by rw [List.length_map, hlength], ?_⟩
  · rw [toList_lowered, htext]
    rfl
  · refine List.forall_mem_map.2 fun c hc => Hex.isSome_digitValue?_iff.1 ?_
    exact isSome_digitValue?_toLower (Hex.isSome_digitValue?_iff.2 (hdigits c hc))

/-- Putting a text in small letters twice changes no more than once. -/
theorem HashSpelled.lowered_lowered {text : String} (h : HashSpelled text) :
    lowered (lowered text) = lowered text := by
  obtain ⟨digits, htext, -, hdigits⟩ := h
  have hchars : ∀ c ∈ text.toList, c.toLower.toLower = c.toLower := by
    rw [htext, List.forall_mem_cons, List.forall_mem_cons]
    refine ⟨rfl, rfl, fun c hc => ?_⟩
    exact toLower_toLower (Hex.isSome_digitValue?_iff.2 (hdigits c hc))
  rw [lowered, toList_lowered, List.map_map, lowered]
  exact congrArg String.ofList (List.map_congr_left hchars)

/-- The digits of a hash are read as a hash, which is written as the text in lower case. -/
theorem HashSpelled.exists_decode {text : String} (h : HashSpelled text) :
    ∃ hash, Hex.decode (lowered text) = .ok hash ∧ hash.length = hashLength ∧
      Hex.encode hash = lowered text := by
  have hspelled : Hex.WellSpelled (lowered text) := by
    obtain ⟨digits, hchars, hlength, hdigits⟩ := hashSpelled_lowered h
    exact ⟨digits, hchars, by rw [hlength, Nat.mul_mod_right], hdigits⟩
  obtain ⟨hash, hhash⟩ := hspelled.exists_decode
  have hencode : Hex.encode hash = lowered text := by
    rw [Hex.encode_of_decode hhash, Hex.withoutBlanks_eq_self hspelled.isBlank_eq_false]
    exact h.lowered_lowered
  refine ⟨hash, hhash, ?_, hencode⟩
  have hlength := (hashSpelled_lowered h).length_eq
  rw [← hencode, Hex.encode, String.toList_ofList, List.length_cons, List.length_cons,
    Hex.length_digits] at hlength
  omega

/-- With a line feed after the digits the number of characters is odd. -/
theorem TrailsLineFeed.decode_eq {text : String} (h : TrailsLineFeed text) :
    Hex.decode (lowered text) = .error (.oddLength (2 * hashLength + 1)) := by
  obtain ⟨chars, ⟨digits, rfl, hlength, -⟩, htext⟩ := h
  have hcount : ((digits ++ ['\n']).map Char.toLower).length = 2 * hashLength + 1 := by
    rw [List.length_map, List.length_append, hlength]
    rfl
  rw [Hex.decode, toList_lowered, htext]
  change Hex.decodeBody ((digits ++ ['\n']).map Char.toLower) = _
  rw [Hex.decodeBody, hcount]
  rfl

/-- What a hash text is read as is written as the text in lower case. -/
theorem encode_of_checkHashText {field s t : String} {hash : Bytes}
    (hcheck : checkHashText field s = .ok t) (hdecode : Hex.decode t = .ok hash) :
    isHashText s = true ∧ hash.length = hashLength ∧
      s.toList.map Char.toLower = (Hex.encode hash).toList := by
  obtain ⟨htext, rfl⟩ := checkHashText_eq_ok_iff.1 hcheck
  refine ⟨isHashText_iff.2 htext, ?_⟩
  rcases htext with hspelled | htrails
  · obtain ⟨read, hread, hlength, hencode⟩ := hspelled.exists_decode
    rw [hread] at hdecode
    cases hdecode
    exact ⟨hlength, by rw [hencode, toList_lowered]⟩
  · rw [htrails.decode_eq] at hdecode
    cases hdecode

theorem length_of_checkHashText {field s t : String} {hash : Bytes}
    (hcheck : checkHashText field s = .ok t) (hdecode : Hex.decode t = .ok hash) :
    hash.length = hashLength :=
  (encode_of_checkHashText hcheck hdecode).2.1

end Wire

end SlotEvidence
