/-
Module: SlotEvidence.Proofs.Hex.Spelling
Purpose: Which texts are written forms of byte strings, and which are read as such.  A written form
  is the marker and an even number of digits, and what is read from it is written as the text in
  lower case.  The reader also lets blanks stand before, between and after the pairs of digits, as
  long as the number of characters stays even; it skips them, so that such a text is read and is no
  written form.  These are the only texts on which the two differ.
Trusted boundary: none
Main exports: Hex.IsDigit, Hex.WellSpelled, Hex.ReadsExactly, Hex.Pairs.digits_eq,
  Hex.Pairs.isDigit, Hex.encode_of_decode, Hex.wellSpelled_of_decode,
  Hex.reads_exactly_unless_blank_skipped
-/
import SlotEvidence.Proofs.Hex

namespace SlotEvidence

namespace Hex

/-- The decimal digits and the first six letters, of either case. -/
def IsDigit (c : Char) : Prop :=
  '0' ≤ c ∧ c ≤ '9' ∨ 'a' ≤ c ∧ c ≤ 'f' ∨ 'A' ≤ c ∧ c ≤ 'F'

/-- The texts that are the marker and an even number of digits, and nothing else. -/
def WellSpelled (text : String) : Prop :=
  ∃ body, text.toList = '0' :: 'x' :: body ∧ body.length % 2 = 0 ∧ ∀ c ∈ body, IsDigit c

/-- A text is read just when it is well spelled, and what is read from it is written as the text
with its letters in lower case. -/
def ReadsExactly (text : String) : Prop :=
  ((∃ bytes, decode text = .ok bytes) ↔ WellSpelled text) ∧
    ∀ bytes, decode text = .ok bytes → encode bytes = String.ofList (text.toList.map Char.toLower)

/-- A blank somewhere in a text that is read all the same. -/
def SkipsBlank (text : String) : Prop :=
  (∃ bytes, decode text = .ok bytes) ∧ ∃ c ∈ text.toList, isBlank c = true

/-! ### Digits and blanks -/

/-- The characters with a value are the digits and the letters a to f, small or capital. -/
theorem isSome_digitValue?_iff {c : Char} : (digitValue? c).isSome ↔ IsDigit c := by
  unfold digitValue? IsDigit
  grind

instance (c : Char) : Decidable (IsDigit c) := decidable_of_iff _ isSome_digitValue?_iff

theorem IsDigit.isBlank_eq_false {c : Char} (h : IsDigit c) : isBlank c = false :=
  Hex.isBlank_eq_false (isSome_digitValue?_iff.2 h)

/-- The characters of a text that are not blanks. -/
def withoutBlanks (chars : List Char) : List Char := chars.filter fun c => !isBlank c

theorem withoutBlanks_eq_self {chars : List Char} (h : ∀ c ∈ chars, isBlank c = false) :
    withoutBlanks chars = chars := by
  apply List.filter_eq_self.2
  intro c hc
  rw [h c hc, Bool.not_false]

/-- No character of a well spelled text is a blank. -/
theorem WellSpelled.isBlank_eq_false {text : String} (h : WellSpelled text) :
    ∀ c ∈ text.toList, isBlank c = false := by
  obtain ⟨body, htext, -, hdigits⟩ := h
  rw [htext]
  simp only [List.forall_mem_cons]
  exact ⟨rfl, rfl, fun c hc => (hdigits c hc).isBlank_eq_false⟩

/-! ### Pairs of digits

Without blanks, pairs are two digits for each byte, and the digits fix the byte. -/

/-- The bytes of pairs are written with the digits of the pairs, in lower case and without the
blanks. -/
theorem Pairs.digits_eq {chars : List Char} {bytes : Bytes} (h : Pairs chars bytes) :
    digits bytes = (withoutBlanks chars).map Char.toLower := by
  induction h with
  | nil => rfl
  | @blank c chars bytes hblank rest ih =>
      rw [withoutBlanks, List.filter_cons_of_neg (by simp [hblank]), ih]
      rfl
  | @pair c d high low chars bytes hhigh hlow rest ih =>
      have hpair : ∀ e ∈ [c, d], (digitValue? e).isSome := by simp [hhigh, hlow]
      have hone : decodePairs 0 [c, d] = .ok [UInt8.ofNat (16 * high + low)] :=
        decodePairs_eq_ok_iff.2 (.pair hhigh hlow .nil)
      have hdigits := digits_of_decodePairs hpair hone
      have hkeep : withoutBlanks (c :: d :: chars) = [c, d] ++ withoutBlanks chars := by
        rw [← withoutBlanks_eq_self fun e he => Hex.isBlank_eq_false (hpair e he)]
        exact List.filter_append [c, d] chars
      rw [hkeep, List.map_append, ← hdigits, ← ih]
      rfl

/-- Pairs without blanks are digits. -/
theorem Pairs.isDigit {chars : List Char} {bytes : Bytes} (h : Pairs chars bytes)
    (hblank : ∀ c ∈ chars, isBlank c = false) : ∀ c ∈ chars, IsDigit c := by
  induction h with
  | nil => exact fun _ => nofun
  | blank hskip _ _ =>
      rw [hblank _ List.mem_cons_self] at hskip
      cases hskip
  | pair hhigh hlow _ ih =>
      simp only [List.forall_mem_cons] at hblank ⊢
      exact ⟨isSome_digitValue?_iff.1 (Option.isSome_of_eq_some hhigh),
        isSome_digitValue?_iff.1 (Option.isSome_of_eq_some hlow), ih hblank.2.2⟩

/-! ### Texts

Texts are read exactly as documented but for those with blanks between their digits. -/

/-- What is read from a text is written as the text in lower case and without its blanks. -/
theorem encode_of_decode {text : String} {bytes : Bytes} (h : decode text = .ok bytes) :
    encode bytes = String.ofList ((withoutBlanks text.toList).map Char.toLower) := by
  obtain ⟨body, htext, -, hpairs⟩ := decode_eq_ok_iff.1 h
  rw [encode, hpairs.digits_eq, htext]
  rfl

/-- A text in the documented form is read. -/
theorem WellSpelled.exists_decode {text : String} (h : WellSpelled text) :
    ∃ bytes, decode text = .ok bytes := by
  obtain ⟨body, htext, heven, hdigits⟩ := h
  obtain ⟨bytes, hbytes⟩ : ∃ bytes, decodePairs 0 body = .ok bytes :=
    exists_decodePairs (fun c hc => isSome_digitValue?_iff.2 (hdigits c hc)) heven
  exact ⟨bytes, decode_eq_ok_iff.2 ⟨body, htext, heven, decodePairs_eq_ok_iff.1 hbytes⟩⟩

/-- A text that is read and holds no blank is well spelled. -/
theorem wellSpelled_of_decode {text : String} {bytes : Bytes} (h : decode text = .ok bytes)
    (hblank : ∀ c ∈ text.toList, isBlank c = false) : WellSpelled text := by
  obtain ⟨body, htext, heven, hpairs⟩ := decode_eq_ok_iff.1 h
  refine ⟨body, htext, heven, hpairs.isDigit ?_⟩
  intro c hc
  apply hblank
  rw [htext]
  exact .tail _ (.tail _ hc)

/-- A text is read as documented, and only then, unless a blank in it is skipped. -/
theorem readsExactly_iff {text : String} : ReadsExactly text ↔ ¬ SkipsBlank text := by
  constructor
  · rintro ⟨hread, -⟩ ⟨haccepted, c, hc, hblank⟩
    rw [(hread.1 haccepted).isBlank_eq_false c hc] at hblank
    cases hblank
  · intro h
    have hblank : ∀ bytes, decode text = .ok bytes → ∀ c ∈ text.toList, isBlank c = false := by
      intro bytes hbytes c hc
      apply Bool.eq_false_iff.2
      exact fun hskip => h ⟨⟨bytes, hbytes⟩, c, hc, hskip⟩
    refine ⟨⟨?_, WellSpelled.exists_decode⟩, ?_⟩
    · rintro ⟨bytes, hbytes⟩
      exact wellSpelled_of_decode hbytes (hblank bytes hbytes)
    · intro bytes hbytes
      rw [encode_of_decode hbytes, withoutBlanks_eq_self (hblank bytes hbytes)]

/-- A byte string is read back from its written form.  A text is read as it should be unless blanks
were skipped in it: it is then the marker and an even number of characters that are pairs of digits
with blanks before, between or after them, and what is read is written without the blanks. -/
theorem reads_exactly_unless_blank_skipped (text : String) :
    (∀ bytes, decode (encode bytes) = .ok bytes) ∧
      (ReadsExactly text ↔ ¬ SkipsBlank text) ∧
      (∀ bytes, decode text = .ok bytes ↔
        ∃ body, text.toList = '0' :: 'x' :: body ∧ body.length % 2 = 0 ∧ Pairs body bytes) ∧
      ∀ bytes, decode text = .ok bytes →
        encode bytes = String.ofList ((withoutBlanks text.toList).map Char.toLower) :=
  ⟨decode_encode, readsExactly_iff, fun _ => decode_eq_ok_iff, fun _ => encode_of_decode⟩

/-- A text in capitals is read exactly. -/
theorem capitals_read_exactly :
    ¬ SkipsBlank "0xDEAD" ∧ decode "0xDEAD" = .ok [0xde, 0xad] ∧ ReadsExactly "0xDEAD" := by
  have hdigits : ∀ c ∈ ['D', 'E', 'A', 'D'], IsDigit c := by
    intro c hc
    simp only [List.mem_cons, List.not_mem_nil, or_false] at hc
    rcases hc with rfl | rfl | rfl | rfl <;> decide
  have hspelled : WellSpelled "0xDEAD" := ⟨_, rfl, rfl, hdigits⟩
  have hskips : ¬ SkipsBlank "0xDEAD" := by
    rintro ⟨-, c, hc, hskip⟩
    rw [hspelled.isBlank_eq_false c hc] at hskip
    cases hskip
  exact ⟨hskips, rfl, (reads_exactly_unless_blank_skipped "0xDEAD").2.1.2 hskips⟩

/-- Two blanks between two pairs are skipped, though the text is not well spelled. -/
theorem not_every_text_reads_exactly :
    decode "0xab  cd" = .ok [0xab, 0xcd] ∧ ¬ WellSpelled "0xab  cd" ∧
      ¬ ReadsExactly "0xab  cd" := by
  have hlast : Pairs ['c', 'd'] [0xcd] := @Pairs.pair 'c' 'd' 12 13 _ _ rfl rfl .nil
  have hpairs : Pairs ['a', 'b', ' ', ' ', 'c', 'd'] [0xab, 0xcd] :=
    @Pairs.pair 'a' 'b' 10 11 _ _ rfl rfl (.blank rfl (.blank rfl hlast))
  have hread : decode "0xab  cd" = .ok [0xab, 0xcd] :=
    decode_eq_ok_iff.2 ⟨_, by decide, rfl, hpairs⟩
  have hspelled : ¬ WellSpelled "0xab  cd" := by
    intro h
    have hblank := h.isBlank_eq_false ' ' (by decide)
    revert hblank
    decide
  exact ⟨hread, hspelled, fun h => hspelled (h.1.1 ⟨_, hread⟩)⟩

end Hex

end SlotEvidence
