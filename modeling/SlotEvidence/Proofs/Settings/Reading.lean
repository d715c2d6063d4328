/-
Module: SlotEvidence.Proofs.Settings.Reading
Purpose: What the value that is given for a field denotes, said without the readers, and the readers
  compared with it.  They accept what denotes a value of the field and read it as that value, with
  the exception that a floating-point number for an integer loses its fraction.  What is not
  accepted is a bad configuration, unless it is an infinity for an integer or a text has to be made
  of an integer that has none.
Trusted boundary: none
Main exports: Settings.Denotes, Settings.LosesFraction, Settings.GivesInfinity,
  Settings.GivesOverlong, Settings.readField_eq_ok_iff, Settings.readField_held_iff,
  Settings.OfValue, Settings.readField_eq_error, Settings.readField_eq_infinite_iff
-/
import SlotEvidence.Proofs.Hex
import SlotEvidence.Proofs.Settings.Draft
import SlotEvidence.Proofs.Text.Integer
import SlotEvidence.Proofs.Value.Display
import SlotEvidence.Proofs.Value.Integers
import SlotEvidence.Proofs.Value.Number
import SlotEvidence.Settings.Load

namespace SlotEvidence

namespace Settings

/-- The integers that values denote: a number is its own value, texts and bytes write one. -/
inductive DenotesInteger : Value → Int → Prop where
  | int (n : Int) : DenotesInteger (.int n) n
  | float {x : Binary64} {n : Int} (h : Value.sameNumber (.float x) (.int n) = true) :
      DenotesInteger (.float x) n
  | text {s : String} {n : Int}
      (h : Text.WritesInteger Text.isWhiteSpace Text.decimalValue? s.toList n) :
      DenotesInteger (.text s) n
  | bytes {b : Bytes} {n : Int}
      (h : Text.WritesInteger Text.isAsciiBlank Text.asciiValue? (Text.charsOfBytes b) n) :
      DenotesInteger (.bytes b) n
  | buffer {b : Bytes} {n : Int}
      (h : Text.WritesInteger Text.isAsciiBlank Text.asciiValue? (Text.charsOfBytes b) n) :
      DenotesInteger (.buffer b) n

/-- The words for a truth value. -/
def wordsFor : Bool → List String
  | true => ["true", "1", "yes", "on"]
  | false => ["false", "0", "no", "off"]

/-- The truth values that values denote.  The case of letters does not count. -/
inductive DenotesBoolean : Value → Bool → Prop where
  | bool (b : Bool) : DenotesBoolean (.bool b) b
  | one : DenotesBoolean (.int 1) true
  | zero : DenotesBoolean (.int 0) false
  | text {s : String} {word : List Char} {b : Bool}
      (hs : Text.Between Text.isSeparator word s.toList)
      (hword : String.ofList (word.map Char.toLower) ∈ wordsFor b) : DenotesBoolean (.text s) b

/-- The byte strings that values denote. -/
inductive DenotesBytes : Value → Bytes → Prop where
  | bytes (b : Bytes) : DenotesBytes (.bytes b) b
  | buffer (b : Bytes) : DenotesBytes (.buffer b) b
  | text {s : String} {body : List Char} {b : Bytes} (hs : s.toList = '0' :: 'x' :: body)
      (heven : body.length % 2 = 0) (hbody : Hex.Pairs body b) : DenotesBytes (.text s) b

/-- What a given value denotes as the value of a field. -/
inductive Denotes : Field → Value → Value → Prop where
  | name (s : String) : Denotes .algorithm (.text s) (.text s)
  | integer {f : Field} {given : Value} {n : Int} (hf : f ∈ Field.integers)
      (h : DenotesInteger given n) : Denotes f given (.int n)
  | padding {given : Value} {b : Bool} (h : DenotesBoolean given b) :
      Denotes .padPartialGroups given (.bool b)
  | child {given : Value} {b : Bytes} (h : DenotesBytes given b) :
      Denotes .emptyChild given (.bytes b)

/-- The integer part of a floating-point number that is given for an integer and is none. -/
inductive LosesFraction : Field → Value → Value → Prop where
  | intro {f : Field} {x : Binary64} {n : Int} (hf : f ∈ Field.integers)
      (hpart : x.truncate? = some n) (hother : Value.sameNumber (.float x) (.int n) = false) :
      LosesFraction f (.float x) (.int n)

/-- An infinity that is given for an integer. -/
inductive GivesInfinity : Field → Value → Prop where
  | intro {f : Field} {x : Binary64} (hf : f ∈ Field.integers) (hfinite : x.isFinite = false)
      (hnumber : x.isNaN = false) : GivesInfinity f (.float x)

/-- A value that a text has to be made of although it shows an integer that has none: a name is made
a text at once, a truth value is looked up by its text, and what is no integer is quoted by the
fault.  A natural number is never quoted. -/
inductive GivesOverlong : Field → Value → Prop where
  | name {given : Value} (h : ¬ given.Displayable) : GivesOverlong .algorithm given
  | padding {given : Value} (h : ¬ given.Writable) : GivesOverlong .padPartialGroups given
  | integer {f : Field} {given : Value} (hf : f ∈ Field.integers) (h : ¬ given.Writable)
      (hother : ∀ n : Nat, given ≠ .int n) : GivesOverlong f given

variable {f : Field} {given : Value}

/-! ### Integers

Integers are read from themselves, from texts and from floats, whose fractions are dropped. -/

theorem isFinite_of_truncate? {x : Binary64} {n : Int} (h : x.truncate? = some n) :
    x.isFinite = true := by
  unfold Binary64.truncate? at h
  split at h
  · assumption
  · cases h

/-- A floating-point number is read as its integer part. -/
theorem readInteger_float {x : Binary64} {n : Int} (h : x.truncate? = some n) :
    readInteger f (.float x) = .ok n := by
  unfold readInteger
  dsimp only
  rw [isFinite_of_truncate? h, h]
  rfl

/-- What denotes an integer is read as it. -/
theorem DenotesInteger.readInteger {n : Int} (h : DenotesInteger given n) :
    readInteger f given = .ok n := by
  cases h with
  | int => rfl
  | float h => exact readInteger_float (Binary64.truncate?_of_sameNumber h)
  | text h =>
      unfold Settings.readInteger
      dsimp only
      rw [Text.numerals_decimal.readInteger?_eq_some_iff.2 h]
  | bytes h | buffer h =>
      have hread := Text.numerals_ascii.readInteger?_eq_some_iff.2 h
      unfold Text.charsOfBytes at hread
      unfold Settings.readInteger
      dsimp only
      rw [hread]

/-- The integer that is read is the one that is denoted, or a number without its fraction. -/
theorem of_readInteger {n : Int} (h : readInteger f given = .ok n) :
    DenotesInteger given n ∨ ∃ x, given = .float x ∧ x.truncate? = some n ∧
      Value.sameNumber (.float x) (.int n) = false := by
  unfold readInteger at h
  dsimp only at h
  split at h
  · cases h
    exact .inl (.int _)
  · rename_i x
    split at h
    · split at h
      · rename_i hpart
        cases h
        -- The integer part is the number itself, or a fraction has been dropped.
        cases hsame : Value.sameNumber (.float x) (.int n) with
        | true => exact .inl (.float hsame)
        | false => exact .inr ⟨x, rfl, hpart, hsame⟩
      · cases h
    · cases h
  · split at h
    · rename_i hread
      cases h
      exact .inl (.text (Text.numerals_decimal.readInteger?_eq_some_iff.1 hread))
    · cases h
  · split at h
    · rename_i hread
      cases h
      exact .inl (.bytes (Text.numerals_ascii.readInteger?_eq_some_iff.1 hread))
    · cases h
  · split at h
    · rename_i hread
      cases h
      exact .inl (.buffer (Text.numerals_ascii.readInteger?_eq_some_iff.1 hread))
    · cases h
  · cases h

/-- The one fault of an integer that is not about its form is that of an infinity. -/
theorem readInteger_eq_error {fault : Fault} (h : readInteger f given = .error fault) :
    fault = .unreadableInteger f given ∨
      fault = .infinite ∧ ∃ x, given = .float x ∧ x.isFinite = false ∧ x.isNaN = false := by
  unfold readInteger at h
  dsimp only at h
  split at h
  · cases h
  · rename_i x
    split at h
    · split at h <;> cases h
      exact .inl rfl
    · rename_i hneither
      cases h
      rw [Bool.not_eq_true, Bool.or_eq_false_iff] at hneither
      exact .inr ⟨rfl, x, rfl, hneither⟩
  · split at h <;> cases h
    exact .inl rfl
  · split at h <;> cases h
    exact .inl rfl
  · split at h <;> cases h
    exact .inl rfl
  · cases h
    exact .inl rfl

/-- An infinity ends the reading of an integer with a fault that nothing reports. -/
theorem readInteger_infinite {x : Binary64} (hfinite : x.isFinite = false)
    (hnan : x.isNaN = false) : readInteger f (.float x) = .error .infinite := by
  unfold readInteger
  dsimp only
  rw [hfinite, hnan]
  rfl

/-! ### Truth values

A value that is neither a truth value nor a text is turned into its text first, which is none of the
eight words: it is a row of digits, one of a few other words, or has a mark in it. -/

/-- The words with a truth value are the eight of the table. -/
theorem booleanOfWord?_eq_some_iff {word : String} {b : Bool} :
    booleanOfWord? word = some b ↔ word ∈ wordsFor b := by
  have hdisjoint : ∀ word ∈ wordsFor true, word ∉ wordsFor false := by decide
  unfold booleanOfWord?
  split
  · rename_i htrue
    cases b with
    | true => exact iff_of_true rfl htrue
    | false => exact iff_of_false nofun (hdisjoint word htrue)
  · rename_i htrue
    split
    · rename_i hfalse
      cases b with
      | true => exact iff_of_false nofun htrue
      | false => exact iff_of_true rfl hfalse
    · rename_i hfalse
      cases b with
      | true => exact iff_of_false nofun htrue
      | false => exact iff_of_false nofun hfalse

theorem of_mem_wordsFor {word : String} {b : Bool} (h : word ∈ wordsFor b) :
    ∀ c ∈ word.toList, Text.isSeparator c = false ∧ c ∉ Value.marks := by
  have htable : ∀ b, ∀ word ∈ wordsFor b,
      (word.toList.all fun c => !Text.isSeparator c && c ∉ Value.marks) = true := by
    decide
  have hword := htable b word h
  simp only [List.all_eq_true, Bool.and_eq_true, Bool.not_eq_true', decide_eq_true_eq] at hword
  exact hword

theorem toLower_of_isSeparator {c : Char} (h : Text.isSeparator c = true) : c.toLower = c := by
  simp only [Text.isSeparator, Text.isWhiteSpace, Bool.or_eq_true, Bool.and_eq_true,
    decide_eq_true_eq] at h
  unfold Char.toLower
  split
  · rename_i hupper
    have hlow : 65 ≤ c.toNat := UInt32.le_iff_toNat_le.1 hupper.1
    have hhigh : c.toNat ≤ 90 := UInt32.le_iff_toNat_le.1 hupper.2
    omega
  · rfl

/-- A word in small letters has no blanks, and so none in letters of either case. -/
theorem isSeparator_eq_false {word : List Char} {b : Bool}
    (h : String.ofList (word.map Char.toLower) ∈ wordsFor b) :
    ∀ c ∈ word, Text.isSeparator c = false := by
  intro c hc
  refine Bool.eq_false_iff.2 fun hseparator => ?_
  have hmem : c ∈ (String.ofList (word.map Char.toLower)).toList := by
    rw [String.toList_ofList, ← toLower_of_isSeparator hseparator]
    exact List.mem_map_of_mem hc
  rw [(of_mem_wordsFor h c hmem).1] at hseparator
  cases hseparator

/-- The word of a text, as it is looked up. -/
def wordOf (s : String) : String :=
  String.ofList ((Text.trim Text.isSeparator s.toList).map Char.toLower)

theorem of_isDigit {c : Char} (h : c.isDigit = true) :
    Text.isSeparator c = false ∧ c.toLower = c := by
  unfold Char.isDigit at h
  rw [Bool.and_eq_true, decide_eq_true_eq, decide_eq_true_eq] at h
  have hlow : 48 ≤ c.toNat := UInt32.le_iff_toNat_le.1 h.1
  have hhigh : c.toNat ≤ 57 := UInt32.le_iff_toNat_le.1 h.2
  constructor
  · simp only [Text.isSeparator, Text.isWhiteSpace, Bool.or_eq_false_iff, Bool.and_eq_false_iff,
      decide_eq_false_iff_not]
    omega
  · unfold Char.toLower
    split
    · rename_i hupper
      have hletter : 65 ≤ c.toNat := UInt32.le_iff_toNat_le.1 hupper.1
      omega
    · rfl

theorem wordOf_of_digits {s : String} (h : ∀ c ∈ s.toList, c.isDigit = true) : wordOf s = s := by
  have htrim : Text.trim Text.isSeparator s.toList = s.toList :=
    Text.trim_eq (fun c hc => (of_isDigit (h c hc)).1) (Text.between_self _ _)
  have hlower : s.toList.map Char.toLower = s.toList :=
    (List.map_congr_left fun c hc => (of_isDigit (h c hc)).2).trans (List.map_id' _)
  rw [wordOf, htrim, hlower, String.ofList_toList]

/-- The text of a value with marks in it is none of the words for truth values. -/
theorem wordOf_not_mem_of_hasMark {s : String} (h : Value.HasMark s) (b : Bool) :
    wordOf s ∉ wordsFor b := by
  intro hword
  obtain ⟨c, hmem, hc⟩ := h
  have hmarks : ∀ c ∈ Value.marks, Text.isSeparator c = false ∧ c.toLower = c := by
    simp only [Value.marks, List.forall_mem_cons, List.not_mem_nil, false_imp_iff, implies_true,
      and_true]
    decide
  obtain ⟨hseparator, hlower⟩ := hmarks c hc
  have hmem : c ∈ (wordOf s).toList := by
    rw [wordOf, String.toList_ofList, ← hlower]
    exact List.mem_map_of_mem (Text.mem_trim hmem hseparator)
  exact (of_mem_wordsFor hword c hmem).2 hc

/-- A value is read as its text just when its integers can be shown. -/
theorem readText_eq_ok_iff {text : String} :
    readText given = .ok text ↔ text = given.display ∧ given.Displayable :=
  mapError_eq_ok.trans Value.displayed_eq_ok_iff

theorem readText_eq_error {fault : Fault} (h : readText given = .error fault) :
    ∃ refusal, fault = .overlong refusal ∧ given.displayed = .error refusal := by
  obtain ⟨refusal, hrefusal, rfl⟩ := mapError_eq_error.1 h
  exact ⟨refusal, rfl, hrefusal⟩

/-- What denotes a truth value is read as it. -/
theorem DenotesBoolean.readBoolean {b : Bool} (h : DenotesBoolean given b) :
    readBoolean f given = .ok b := by
  cases h with
  | bool => rfl
  | one => exact bind_eq_ok.2 ⟨_, readText_eq_ok_iff.2 ⟨rfl, by decide⟩, rfl⟩
  | zero => exact bind_eq_ok.2 ⟨_, readText_eq_ok_iff.2 ⟨rfl, by decide⟩, rfl⟩
  | text hs hword =>
      rename_i s word
      refine bind_eq_ok.2 ⟨s, rfl, ?_⟩
      dsimp only
      rw [Text.trim_eq (isSeparator_eq_false hword) hs, booleanOfWord?_eq_some_iff.2 hword]

/-- Of the integers one and zero are displayed by a word for a truth value. -/
theorem denotesBoolean_of_digits {n : Int} {b : Bool}
    (h : wordOf (Value.int n).display ∈ wordsFor b) : DenotesBoolean (.int n) b := by
  change wordOf (toString n) ∈ wordsFor b at h
  rcases Value.toString_cases n with hmark | ⟨-, hdigits, hvalue⟩
  · exact absurd h (wordOf_not_mem_of_hasMark hmark b)
  · rw [wordOf_of_digits hdigits] at h
    have htable : ∀ b, ∀ word ∈ wordsFor b, word.toList.all Char.isDigit = true →
        b = true ∧ Binary64.natOfDigits word.toList = 1 ∨
          b = false ∧ Binary64.natOfDigits word.toList = 0 := by
      decide
    rcases htable b _ h (List.all_eq_true.2 hdigits) with ⟨rfl, hone⟩ | ⟨rfl, hzero⟩
    · rw [← hvalue, hone]
      exact .one
    · rw [← hvalue, hzero]
      exact .zero

/-- Conversely, what is read as a truth value denotes it: a value that is no text has marks in its
text. -/
theorem denotesBoolean_of_readBoolean {b : Bool} (h : readBoolean f given = .ok b) :
    DenotesBoolean given b := by
  unfold readBoolean at h
  split at h
  · cases h
    exact .bool b
  · rename_i hbool
    obtain ⟨text, htext, h⟩ := bind_eq_ok.1 h
    obtain ⟨rfl, -⟩ := readText_eq_ok_iff.1 htext
    dsimp only at h
    split at h
    · rename_i hread
      cases h
      have hword : wordOf given.display ∈ wordsFor b := booleanOfWord?_eq_some_iff.1 hread
      rcases given.display_cases with ⟨s, rfl⟩ | ⟨n, rfl⟩ | ⟨c, rfl⟩ | hfixed | hmark
      · exact .text (Text.between_trim _ _) hword
      · exact denotesBoolean_of_digits hword
      · exact absurd rfl (hbool c)
      · have hother : ∀ word ∈ ["None", "nan", "inf"], ∀ b, wordOf word ∉ wordsFor b := by decide
        exact absurd hword (hother _ hfixed b)
      · exact absurd hword (wordOf_not_mem_of_hasMark hmark b)
    · cases h

theorem readBoolean_eq_ok_iff {b : Bool} : readBoolean f given = .ok b ↔ DenotesBoolean given b :=
  ⟨denotesBoolean_of_readBoolean, DenotesBoolean.readBoolean⟩

/-! ### Byte strings -/

/-- Bytes are read just from what denotes them. -/
theorem readBytes_eq_ok_iff {b : Bytes} : readBytes f given = .ok b ↔ DenotesBytes given b := by
  constructor
  · intro h
    unfold readBytes at h
    split at h
    · obtain ⟨body, htext, heven, hbody⟩ := Hex.decode_eq_ok_iff.1 (mapError_eq_ok.1 h)
      exact .text htext heven hbody
    · cases h
      exact .bytes b
    · cases h
      exact .buffer b
    · cases h
  · rintro (_ | _ | ⟨htext, heven, hbody⟩)
    · rfl
    · rfl
    · exact mapError_eq_ok.2 (Hex.decode_eq_ok_iff.2 ⟨_, htext, heven, hbody⟩)

/-! ### Fields

Each field is read in one of three ways, and what is read is what the value denotes but for the
fractions. -/

theorem readField_of_integer (hf : f ∈ Field.integers) :
    readField f given = (readInteger f given).map .int := by
  simp only [Field.integers, List.mem_cons, List.not_mem_nil, or_false] at hf
  rcases hf with rfl | rfl | rfl | rfl <;> rfl

/-- A value of an integer field is read if it denotes an integer or is a float that loses its
fraction. -/
theorem readField_integer_eq_ok_iff {v : Value} (hf : f ∈ Field.integers) :
    readField f given = .ok v ↔ Denotes f given v ∨ LosesFraction f given v := by
  rw [readField_of_integer hf, map_eq_ok]
  constructor
  · rintro ⟨n, hread, rfl⟩
    rcases of_readInteger hread with h | ⟨x, rfl, hpart, hother⟩
    · exact .inl (.integer hf h)
    · exact .inr (.intro hf hpart hother)
  · rintro (h | h)
    · cases h with
      | integer _ h => exact ⟨_, h.readInteger, rfl⟩
      | name | padding | child => exact absurd hf (by decide)
    · cases h with
      | intro _ hpart _ => exact ⟨_, readInteger_float hpart, rfl⟩

/-- Other fields than that of the hash function are read as what the given value denotes, or as a
number without its fraction. -/
theorem readField_eq_ok_iff {v : Value} (hf : f ≠ .algorithm) :
    readField f given = .ok v ↔ Denotes f given v ∨ LosesFraction f given v := by
  have hinteger (g : Field) (h : LosesFraction g given v) : g ∈ Field.integers := by
    cases h
    assumption
  cases f with
  | algorithm => exact absurd rfl hf
  | fanout | chunkSize | historyWindow | maxWorkers => exact readField_integer_eq_ok_iff (by decide)
  | padPartialGroups =>
      refine map_eq_ok.trans ⟨?_, ?_⟩
      · rintro ⟨b, hread, rfl⟩
        exact .inl (.padding (readBoolean_eq_ok_iff.1 hread))
      · rintro (h | h)
        · cases h with
          | padding h => exact ⟨_, readBoolean_eq_ok_iff.2 h, rfl⟩
          | integer hf _ => exact absurd hf (by decide)
        · exact absurd (hinteger _ h) (by decide)
  | emptyChild =>
      refine map_eq_ok.trans ⟨?_, ?_⟩
      · rintro ⟨b, hread, rfl⟩
        exact .inl (.child (readBytes_eq_ok_iff.1 hread))
      · rintro (h | h)
        · cases h with
          | child h => exact ⟨_, readBytes_eq_ok_iff.2 h, rfl⟩
          | integer hf _ => exact absurd hf (by decide)
        · exact absurd (hinteger _ h) (by decide)

/-- The name of a hash function is given as a text. -/
theorem eq_text_of_display_name {algorithm : Digest.Algorithm}
    (h : given.display = algorithm.name) : given = .text algorithm.name := by
  have hplain : Value.isPlainWord algorithm.name = true := by cases algorithm <;> decide
  exact Value.eq_text_of_display h hplain

/-- Settings hold what was read of a given value just when the value denotes it, or is a number that
has lost its fraction. -/
theorem readField_held_iff {s : Settings} :
    readField f given = .ok (s.held f) ↔
      Denotes f given (s.held f) ∨ LosesFraction f given (s.held f) := by
  rcases eq_or_ne f .algorithm with rfl | hf
  · constructor
    · intro h
      obtain ⟨name, hread, hname⟩ := map_eq_ok.1 h
      obtain ⟨rfl, -⟩ := readText_eq_ok_iff.1 hread
      rw [eq_text_of_display_name (Value.text.inj hname)]
      exact .inl (.name _)
    · rintro (h | h)
      · generalize hheld : s.held .algorithm = v at h
        cases h with
        | name => rfl
        | integer hf _ => exact absurd hf (by decide)
      · generalize hheld : s.held .algorithm = v at h
        cases h with
        | intro hf _ _ => exact absurd hf (by decide)
  · exact readField_eq_ok_iff hf

/-!
### Faults

A fault of reading, or of the checks after it, shows no integer that the given value does not show,
but for integers that were read.  Those have a text, since whatever is written, or is the integer
part of a floating-point number, is short enough.
-/

/-- A fault of a given value, as far as it can be told: whatever integer its text shows has a text,
or is shown by the value where a text has to be made of it. -/
structure OfValue (f : Field) (given : Value) (fault : Fault) : Prop where
  inside : fault.isOutside = false
  told : ∀ n ∈ fault.integers, Text.Writable n ∨ n ∈ given.integers ∧ GivesOverlong f given

/-- A fault whose text is refused for an integer that the given value shows. -/
def Fault.RefusedFor (fault : Fault) (given : Value) : Prop :=
  ∃ refusal, fault.message = .error refusal ∧ refusal.number ∈ given.integers

/-- The fault of a value is reported as a bad configuration, unless it shows an integer that is too
long. -/
theorem OfValue.isConfiguration_or_refused {fault : Fault} (h : OfValue f given fault) :
    fault.IsConfiguration ∨ fault.RefusedFor given ∧ GivesOverlong f given := by
  rcases Fault.isConfiguration_or_refused h.inside with hreport | ⟨refusal, hmessage, hmem⟩
  · exact .inl hreport
  · rcases h.told _ hmem with hwritable | ⟨hmem, hoverlong⟩
    · exact absurd hwritable refusal.not_writable
    · exact .inr ⟨⟨refusal, hmessage, hmem⟩, hoverlong⟩

/-- An integer of the value has a text, or the value is one whose report is refused. -/
theorem told_of_mem {n : Int} (hmem : n ∈ given.integers)
    (h : ¬ given.Writable → GivesOverlong f given) :
    Text.Writable n ∨ n ∈ given.integers ∧ GivesOverlong f given := by
  by_cases hn : Text.Writable n
  · exact .inl hn
  · exact .inr ⟨hmem, h fun hall => hn (hall n hmem)⟩

theorem ofValue_of_readText {fault : Fault} (h : readText given = .error fault) :
    OfValue .algorithm given fault := by
  obtain ⟨refusal, rfl, hrefusal⟩ := readText_eq_error h
  have hmem := Value.mem_integers_of_mem_displayIntegers (Text.Overlong.mem_of_written hrefusal)
  have hname := Value.not_displayable_of_displayed hrefusal
  exact ⟨rfl, List.forall_mem_singleton.2 (.inr ⟨hmem, .name hname⟩)⟩

/-- A value that is no truth value has a fault of its own. -/
theorem ofValue_of_readBoolean {fault : Fault}
    (h : readBoolean .padPartialGroups given = .error fault) :
    OfValue .padPartialGroups given fault := by
  unfold readBoolean at h
  split at h
  · cases h
  · rcases bind_eq_error.1 h with h | ⟨text, -, h⟩
    · obtain ⟨refusal, rfl, hrefusal⟩ := readText_eq_error h
      have hmem := Value.mem_integers_of_mem_displayIntegers (Text.Overlong.mem_of_written hrefusal)
      exact ⟨rfl, List.forall_mem_singleton.2 (told_of_mem hmem .padding)⟩
    · dsimp only at h
      split at h <;> cases h
      exact ⟨rfl, fun n hmem => told_of_mem hmem .padding⟩

/-- A value that is no byte string has a fault of its own. -/
theorem ofValue_of_readBytes {fault : Fault} (h : readBytes f given = .error fault) :
    OfValue f given fault := by
  unfold readBytes at h
  split at h
  · obtain ⟨cause, -, rfl⟩ := mapError_eq_error.1 h
    exact ⟨rfl, List.forall_mem_nil _⟩
  · cases h
  · cases h
  · cases h
    exact ⟨rfl, List.forall_mem_nil _⟩

theorem ofValue_unreadableInteger (hf : f ∈ Field.integers) {fault : Fault}
    (h : readInteger f given = .error fault) : OfValue f given (.unreadableInteger f given) := by
  refine ⟨rfl, fun n hmem => told_of_mem hmem fun hgiven => .integer hf hgiven ?_⟩
  rintro m rfl
  cases h

/-- A value that cannot be read has a fault of its own, unless it is an infinity for an integer. -/
theorem readField_eq_error {fault : Fault} (h : readField f given = .error fault) :
    OfValue f given fault ∨ fault = .infinite ∧ GivesInfinity f given := by
  have hinteger (hf : f ∈ Field.integers) :
      OfValue f given fault ∨ fault = .infinite ∧ GivesInfinity f given := by
    rw [readField_of_integer hf, map_eq_error] at h
    rcases readInteger_eq_error h with rfl | ⟨rfl, x, rfl, hfinite, hnumber⟩
    · exact .inl (ofValue_unreadableInteger hf h)
    · exact .inr ⟨rfl, .intro hf hfinite hnumber⟩
  cases f with
  | algorithm => exact .inl (ofValue_of_readText (map_eq_error.1 h))
  | fanout | chunkSize | historyWindow | maxWorkers => exact hinteger (by decide)
  | padPartialGroups => exact .inl (ofValue_of_readBoolean (map_eq_error.1 h))
  | emptyChild => exact .inl (ofValue_of_readBytes (map_eq_error.1 h))

/-- An integer that is read has a text, unless it is given as an integer. -/
theorem writable_or_eq_of_readInteger {n : Int} (h : readInteger f given = .ok n) :
    Text.Writable n ∨ given = .int n := by
  rcases of_readInteger h with h | ⟨x, -, hpart, -⟩
  · cases h with
    | int => exact .inr rfl
    | float h => exact .inl (Binary64.writable_of_truncate? (Binary64.truncate?_of_sameNumber h))
    | text h => exact .inl (Text.numerals_decimal.writable h)
    | bytes h | buffer h => exact .inl (Text.numerals_ascii.writable h)
  · exact .inl (Binary64.writable_of_truncate? hpart)

/-- An integer of which the checks say that it is too small is all that they quote. -/
theorem integers_of_objection (hf : f ∈ Field.integers) {n : Int} {fault : Fault}
    (h : objection? f (.int n) = some fault) : fault.integers = [n] ∧ n.toNat < 2 := by
  simp only [Field.integers, List.mem_cons, List.not_mem_nil, or_false] at hf
  rcases hf with rfl | rfl | rfl | rfl <;>
    · simp only [objection?, Option.ite_none_left_eq_some, Option.some.injEq] at h
      obtain ⟨hsmall, rfl⟩ := h
      exact ⟨rfl, by omega⟩

/-- An integer that is read and then found too small has a fault of its own. -/
theorem ofValue_of_smallInteger (hf : f ∈ Field.integers) {n : Int} {fault : Fault}
    (hread : readInteger f given = .ok n) (h : objection? f (.int n) = some fault) :
    OfValue f given fault := by
  obtain ⟨hintegers, hsmall⟩ := integers_of_objection hf h
  refine ⟨isOutside_of_objection h, ?_⟩
  rw [hintegers, List.forall_mem_singleton]
  rcases writable_or_eq_of_readInteger hread with hwritable | rfl
  · exact .inl hwritable
  · refine told_of_mem List.mem_cons_self fun hgiven => .integer hf hgiven ?_
    -- a natural number that is too small is zero or one, and these have texts
    rintro m heq
    obtain rfl := Value.int.inj heq
    have hm : m < UInt64.size := Nat.lt_trans hsmall (by decide)
    exact hgiven (Value.writable_int_iff.2 (Text.writable_of_lt_size hm))

/-- What the checks have against a value that was read is a fault of the given value. -/
theorem ofValue_of_objection {v : Value} {fault : Fault} (hread : readField f given = .ok v)
    (h : objection? f v = some fault) : OfValue f given fault := by
  have hinteger (hf : f ∈ Field.integers) : OfValue f given fault := by
    rw [readField_of_integer hf, map_eq_ok] at hread
    obtain ⟨n, hread, rfl⟩ := hread
    exact ofValue_of_smallInteger hf hread h
  cases f with
  | algorithm =>
      obtain ⟨name, -, rfl⟩ := map_eq_ok.1 hread
      simp only [objection?, Option.ite_none_left_eq_some, Option.some.injEq] at h
      obtain ⟨-, rfl⟩ := h
      exact ⟨rfl, List.forall_mem_nil _⟩
  | fanout | chunkSize | historyWindow | maxWorkers => exact hinteger (by decide)
  | padPartialGroups =>
      obtain ⟨b, -, rfl⟩ := map_eq_ok.1 hread
      cases h
  | emptyChild =>
      obtain ⟨b, -, rfl⟩ := map_eq_ok.1 hread
      simp only [objection?, Option.ite_none_left_eq_some, Option.some.injEq] at h
      obtain ⟨-, rfl⟩ := h
      exact ⟨rfl, List.forall_mem_nil _⟩

/-- The reading of a value ends in an infinity just when one is given for an integer. -/
theorem readField_eq_infinite_iff :
    readField f given = .error .infinite ↔ GivesInfinity f given := by
  constructor
  · intro h
    rcases readField_eq_error h with hvalue | ⟨-, hinfinity⟩
    · cases hvalue.inside
    · exact hinfinity
  · rintro ⟨hf, hfinite, hnumber⟩
    rw [readField_of_integer hf, readInteger_infinite hfinite hnumber]
    rfl

/-- A value can be read: it is shown as a name, denotes a value of its field or loses a fraction. -/
theorem exists_readField_iff :
    (∃ v, readField f given = .ok v) ↔
      (f = .algorithm ∧ given.Displayable) ∨ ∃ v, Denotes f given v ∨ LosesFraction f given v := by
  rcases eq_or_ne f .algorithm with rfl | hf
  · constructor
    · rintro ⟨v, hread⟩
      obtain ⟨name, hname, -⟩ := map_eq_ok.1 hread
      exact .inl ⟨rfl, (readText_eq_ok_iff.1 hname).2⟩
    · rintro (⟨-, hgiven⟩ | ⟨v, h | h⟩)
      · exact ⟨_, map_eq_ok.2 ⟨_, readText_eq_ok_iff.2 ⟨rfl, hgiven⟩, rfl⟩⟩
      · cases h with
        | name s => exact ⟨_, rfl⟩
        | integer hf _ => exact absurd hf (by decide)
      · cases h with
        | intro hf _ _ => exact absurd hf (by decide)
  · simp only [hf, false_and, false_or, readField_eq_ok_iff hf]

end Settings

end SlotEvidence
