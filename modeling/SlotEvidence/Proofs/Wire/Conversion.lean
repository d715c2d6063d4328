/-
Module: SlotEvidence.Proofs.Wire.Conversion
Purpose: What has been checked can be converted, but for the texts that the check should not have
  let pass.  A hash text is checked by one reader and converted by another.  They agree on the texts
  that are the marker and 64 digits; the check also admits a line feed after the digits, over which
  the conversion fails.  Paths, evidence of absence, commitments and banks that fit their schema are
  converted unless a hash text in them ends in a line feed, and then fail for no other reason.
Trusted boundary: none
Main exports: Wire.ChecksExactly, Wire.checksExactly_iff, Wire.EndsInLineFeed, Wire.FailsJust,
  Wire.Converts, Wire.converts_readPath, Wire.converts_readAbsence, Wire.converts_readBlob,
  Wire.converts_readBank, Wire.checked_converts_unless_line_feed
-/
import SlotEvidence.Proofs.Bank
import SlotEvidence.Proofs.Blob
import SlotEvidence.Proofs.Wire.Absence

namespace SlotEvidence

namespace Wire

open Schema

/-! ### Hash texts

The pattern of a hash text ends at the end of the text or before a line feed at its end. -/

/-- A text of a field passes just when it is the marker and the digits of a hash, and what the check
gives back is read as a hash and is its written form. -/
def ChecksExactly (field text : String) : Prop :=
  ((∃ word, checkHashText field text = .ok word) ↔ HashSpelled text) ∧
    ∀ word, checkHashText field text = .ok word →
      ∃ hash, Hex.decode word = .ok hash ∧ hash.length = hashLength ∧ Hex.encode hash = word

/-- The check admits the documented form, and this form with a line feed after it. -/
theorem exists_checkHashText_iff {field text : String} :
    (∃ word, checkHashText field text = .ok word) ↔ HashSpelled text ∨ TrailsLineFeed text := by
  simp only [checkHashText_eq_ok_iff, exists_and_left, exists_eq, and_true]

/-- The check is the documented one unless a line feed ends the text. -/
theorem checksExactly_iff {field text : String} :
    ChecksExactly field text ↔ ¬ TrailsLineFeed text := by
  constructor
  · rintro ⟨hpasses, -⟩ htrails
    exact not_hashSpelled_of_trailsLineFeed htrails
      (hpasses.1 (exists_checkHashText_iff.2 (.inr htrails)))
  · intro hfree
    refine ⟨exists_checkHashText_iff.trans (or_iff_left hfree), fun word hword => ?_⟩
    obtain ⟨htext, rfl⟩ := checkHashText_eq_ok_iff.1 hword
    exact (htext.resolve_right hfree).exists_decode

/-! ### Failing over a line feed

A making that fails just over line feeds, put together from makings that do. -/

/-- The value stands for a hash text with a line feed at the end. -/
def EndsInLineFeed (value : Value) : Prop := ∃ s, text value = .ok s ∧ TrailsLineFeed s

/-- One of the values stands for a hash text with a line feed at the end. -/
def SomeLineFeed (values : List Value) : Prop := ∃ value ∈ values, EndsInLineFeed value

/-- The misfit of a hash text with a line feed: an odd number of characters. -/
def lineFeedMisfit : Misfit := .hash (.oddLength (2 * hashLength + 1))

/-- There is no reason to fail but a line feed, and this is one. -/
structure FailsJust {α : Type} (lineFeed : Prop) (made : Made α) : Prop where
  fails : lineFeed → made = .error lineFeedMisfit
  makes : ¬ lineFeed → ∃ a, made = .ok a

section FailsJust

variable {α β : Type} {p q : Prop}

theorem someLineFeed_append {xs ys : List Value} :
    SomeLineFeed (xs ++ ys) ↔ SomeLineFeed xs ∨ SomeLineFeed ys := by
  simp only [SomeLineFeed, List.mem_append, or_and_right, exists_or]

theorem someLineFeed_singleton {value : Value} : SomeLineFeed [value] ↔ EndsInLineFeed value := by
  simp only [SomeLineFeed, List.mem_singleton, exists_eq_left]

theorem not_someLineFeed_nil : ¬ SomeLineFeed [] := by
  rintro ⟨_, h, -⟩
  cases h

theorem failsJust_ok (h : ¬ p) (a : α) : FailsJust p (.ok a) :=
  ⟨fun hp => absurd hp h, fun _ => ⟨a, rfl⟩⟩

theorem FailsJust.of_iff {made : Made α} (h : FailsJust p made) (hiff : q ↔ p) :
    FailsJust q made :=
  ⟨fun hq => h.fails (hiff.1 hq), fun hq => h.makes (hiff.not.1 hq)⟩

/-- A making in two steps fails just when the first step fails, or the second one does after it. -/
theorem FailsJust.bind {made : Made α} {f : α → Made β} (h : FailsJust p made)
    (hf : ∀ a, made = .ok a → FailsJust q (f a)) : FailsJust (p ∨ q) (made >>= f) := by
  by_cases hp : p
  · exact ⟨fun _ => bind_eq_error.2 (.inl (h.fails hp)), fun hfree => absurd (.inl hp) hfree⟩
  · obtain ⟨a, rfl⟩ := h.makes hp
    exact (hf a rfl).of_iff (or_iff_right hp)

theorem FailsJust.map {made : Made α} (h : FailsJust p made) (f : α → β) :
    FailsJust p (made.map f) := by
  refine ⟨fun hp => map_eq_error.2 (h.fails hp), fun hp => ?_⟩
  obtain ⟨a, ha⟩ := h.makes hp
  exact ⟨f a, map_eq_ok.2 ⟨a, ha, rfl⟩⟩

/-- A second step that does not fail changes nothing. -/
theorem FailsJust.bind_ok {made : Made α} {f : α → Made β} (h : FailsJust p made)
    (hf : ∀ a, made = .ok a → ∃ b, f a = .ok b) : FailsJust p (made >>= f) := by
  refine (h.bind fun a ha => ?_).of_iff (or_iff_left not_false).symm
  obtain ⟨b, hb⟩ := hf a ha
  rw [hb]
  exact failsJust_ok not_false b

end FailsJust

/-! ### Readers

The hash texts of data are listed beside each reader, and the promise of a reader is about them. -/

/-- What is read from data that fit fails just over a line feed in the hash texts of the data. -/
def Converts {α : Type} (hashTexts : Value → List Value) (read : Value → Checked (Made α)) :
    Prop :=
  ∀ value made, read value = .ok made → FailsJust (SomeLineFeed (hashTexts value)) made

/-- The value of a field, if there is one. -/
def fieldValues (name : String) : Value → List Value
  | .mapping entries => (member? name entries).toList
  | _ => []

/-- The items of a list, a tuple or a set. -/
def listItems : Value → List Value
  | .list items | .tuple items | .set items => items
  | _ => []

/-- The siblings of a level. -/
def levelHashTexts (value : Value) : List Value := (fieldValues "siblings" value).flatMap listItems

/-- The leaf of a path and the siblings of its levels. -/
def pathHashTexts (value : Value) : List Value :=
  fieldValues "leaf" value ++
    ((fieldValues "levels" value).flatMap listItems).flatMap levelHashTexts

/-- The hash texts of the paths in evidence of absence. -/
def absenceHashTexts (value : Value) : List Value :=
  (fieldValues "path" value ++ fieldValues "left" value ++ fieldValues "right" value).flatMap
    pathHashTexts

def blobHashTexts (value : Value) : List Value :=
  fieldValues "address" value ++ fieldValues "digest" value

def bankHashTexts (value : Value) : List Value :=
  fieldValues "parent_bank_hash" value ++ fieldValues "accounts_delta_hash" value ++
    fieldValues "blockhash" value

section Readers

variable {α : Type} {hashTexts : Value → List Value} {read : Value → Checked (Made α)}
  {entries : List (Value × Value)} {name : String}

theorem listItems_eq {value : Value} {items : List Value} (h : list value = .ok items) :
    listItems value = items := by
  unfold list at h
  unfold listItems
  split at h <;> cases h <;> rfl

/-- A member that is there is the only value of its field. -/
theorem fieldValues_eq_singleton {value : Value} (h : member? name entries = some value) :
    fieldValues name (.mapping entries) = [value] := by
  rw [fieldValues, h]
  rfl

/-- A member that is not there gives its field no value. -/
theorem fieldValues_eq_nil (h : member? name entries = none) :
    fieldValues name (.mapping entries) = [] := by
  rw [fieldValues, h]
  rfl

theorem mem_of_member? {value : Value} (h : member? name entries = some value) :
    (.text name, value) ∈ entries := by
  induction entries with
  | nil => cases h
  | cons entry rest ih =>
      unfold member? at h
      split at h
      · cases h
      · rename_i heq
        cases heq
        split at h
        · rename_i hname
          cases hname
          cases h
          exact List.mem_cons_self
        · exact .tail _ (ih h)
      · rename_i heq
        cases heq
        exact .tail _ (ih h)

/-- A record has no fields but the known ones. -/
theorem fieldValues_of_closed {β : Type} {known : List String} {a : Checked β} {b : β}
    (h : closed known entries a = .ok b) (name : String) (hname : name ∉ known) :
    fieldValues name (.mapping entries) = [] := by
  apply fieldValues_eq_nil
  rw [Option.eq_none_iff_forall_ne_some]
  intro value hvalue
  have hkey := (closed_eq_ok.1 h).2 _ (mem_of_member? hvalue)
  rw [keyDefects, if_neg hname] at hkey
  cases hkey

/-- A reader of hash texts keeps its promise as the reader of a field. -/
theorem Converts.field (h : Converts hashTexts read) {made : Made α}
    (hread : required entries name read = .ok made) :
    FailsJust (SomeLineFeed ((fieldValues name (.mapping entries)).flatMap hashTexts)) made := by
  obtain ⟨value, hvalue, hmade⟩ := required_eq_ok.1 hread
  rw [fieldValues_eq_singleton hvalue, List.flatMap_singleton]
  exact h value made hmade

/-- All items of a list are converted, or one of them has a line feed. -/
theorem Converts.all (h : Converts hashTexts read) {items : List Value} {made : List (Made α)}
    (hread : items.map read = made.map .ok) :
    FailsJust (SomeLineFeed (items.flatMap hashTexts)) (Made.all made) := by
  induction items generalizing made with
  | nil =>
      obtain rfl := List.map_eq_nil_iff.1 hread.symm
      exact failsJust_ok not_someLineFeed_nil []
  | cons item items ih =>
      obtain ⟨a, rest, rfl, ha, hrest⟩ := List.map_eq_cons_iff.1 hread.symm
      refine FailsJust.of_iff ?_ someLineFeed_append
      refine (h item a ha.symm).bind fun _ _ => ?_
      exact (ih hrest.symm).bind_ok fun _ _ => ⟨_, rfl⟩

/-- A reader of hash texts keeps its promise as the reader of a list. -/
theorem Converts.list (h : Converts hashTexts read) {value : Value} {made : List (Made α)}
    (hread : listOf read value = .ok made) :
    FailsJust (SomeLineFeed ((listItems value).flatMap hashTexts)) (Made.all made) := by
  obtain ⟨items, hitems, hmade⟩ := listOf_eq_ok.1 hread
  rw [listItems_eq hitems]
  exact h.all hmade

end Readers

/-! ### Hashes and paths -/

/-- The making of a hash fails just where a line feed ends the text, since the check has seen the
rest. -/
theorem failsJust_hashOfText {field s : String} {made : Made Bytes}
    (h : hashOfText field s = .ok made) : FailsJust (TrailsLineFeed s) made := by
  unfold hashOfText at h
  split at h
  · rename_i word hcheck
    cases h
    obtain ⟨htext, rfl⟩ := checkHashText_eq_ok_iff.1 hcheck
    refine ⟨fun htrails => ?_, fun hfree => ?_⟩
    · rw [htrails.decode_eq]
      rfl
    · obtain ⟨hash, hhash, -⟩ := (htext.resolve_right hfree).exists_decode
      exact ⟨hash, by rw [hhash]; rfl⟩
  · cases h

theorem endsInLineFeed_iff {value : Value} {s : String} (h : text value = .ok s) :
    EndsInLineFeed value ↔ TrailsLineFeed s := by
  simp only [EndsInLineFeed, h, Except.ok.injEq, exists_eq_left']

/-- The promise for a single hash. -/
theorem converts_readHash (field : String) : Converts (fun value => [value]) (readHash field) := by
  intro value made h
  obtain ⟨s, htext, hs⟩ := bind_eq_ok.1 h
  exact (failsJust_hashOfText hs).of_iff
    (someLineFeed_singleton.trans (endsInLineFeed_iff htext))

theorem failsJust_requiredHash {entries : List (Value × Value)} {name : String} {made : Made Bytes}
    (h : requiredHash entries name = .ok made) :
    FailsJust (SomeLineFeed (fieldValues name (.mapping entries))) made := by
  have hfield := (converts_readHash name).field h
  rwa [List.flatMap_singleton'] at hfield

/-- A hash that is read has the length of a hash. -/
theorem length_of_requiredHash {entries : List (Value × Value)} {name : String} {hash : Bytes}
    (h : requiredHash entries name = .ok (.ok hash)) : hash.length = hashLength := by
  obtain ⟨value, -, hvalue⟩ := required_eq_ok.1 h
  exact length_of_readHash hvalue

/-- A list of hash texts fails just when one of them ends in a line feed. -/
theorem failsJust_hashesOfTexts {index : Nat} {values : List Value} {texts : List String}
    {made : List (Made Bytes)} (htexts : values.map text = texts.map .ok)
    (h : hashesOfTexts index texts = .ok made) :
    FailsJust (SomeLineFeed values) (Made.all made) := by
  induction texts generalizing index values made with
  | nil =>
      obtain rfl := List.map_eq_nil_iff.1 htexts
      cases h
      exact failsJust_ok not_someLineFeed_nil []
  | cons s rest ih =>
      obtain ⟨value, values, rfl, hvalue, hvalues⟩ := List.map_eq_cons_iff.1 htexts
      simp only [hashesOfTexts, bind_eq_ok] at h
      obtain ⟨hash, hhash, hashes, hhashes, h⟩ := h
      cases h
      have hfirst := (failsJust_hashOfText hhash).of_iff
        (someLineFeed_singleton.trans (endsInLineFeed_iff hvalue))
      refine FailsJust.of_iff ?_ (@someLineFeed_append [value] values)
      exact hfirst.bind fun _ _ => (ih hvalues hhashes).bind_ok fun _ _ => ⟨_, rfl⟩

theorem converts_readSiblings : Converts listItems readSiblings := by
  intro value made h
  simp only [readSiblings, bind_eq_ok, map_eq_ok] at h
  obtain ⟨texts, htexts, hashes, hhashes, rfl⟩ := h
  obtain ⟨items, hitems, hitemTexts⟩ := listOf_eq_ok.1 htexts
  rw [listItems_eq hitems]
  exact failsJust_hashesOfTexts hitemTexts hhashes

/-- The promise for a level of a path. -/
theorem converts_readLevel : Converts levelHashTexts readLevel := by
  intro value made h
  obtain ⟨entries, rfl, hfields⟩ := exists_fields h
  simp only [map_eq_ok, both_eq_ok] at hfields
  obtain ⟨⟨siblings, index⟩, ⟨hsiblings, -⟩, rfl⟩ := hfields
  refine FailsJust.bind_ok ?_ fun _ _ => ⟨_, rfl⟩
  rw [levelHashTexts]
  rcases optional_eq_ok.1 hsiblings with ⟨hnone, rfl⟩ | ⟨value, hvalue, hread⟩
  · rw [fieldValues_eq_nil hnone]
    exact failsJust_ok not_someLineFeed_nil []
  · rw [fieldValues_eq_singleton hvalue, List.flatMap_singleton]
    exact converts_readSiblings _ _ hread

/-- The promise for a path: its leaf, and the siblings on each level. -/
theorem converts_readPath : Converts pathHashTexts readPath := by
  intro value made h
  obtain ⟨entries, rfl, hfields⟩ := exists_fields h
  simp only [map_eq_ok, both_eq_ok, required_eq_ok] at hfields
  obtain ⟨⟨leaf, levels⟩, ⟨hleaf, value, hvalue, hlevels⟩, rfl⟩ := hfields
  refine FailsJust.of_iff ?_ someLineFeed_append
  refine (failsJust_requiredHash hleaf).bind fun _ _ => ?_
  rw [fieldValues_eq_singleton hvalue, List.flatMap_singleton]
  exact (converts_readLevel.list hlevels).bind_ok fun _ _ => ⟨_, rfl⟩

/-! ### Absence -/

theorem failsJust_readOneSided {make : Path → Absence} {entries : List (Value × Value)}
    {made : Made Absence} (h : readOneSided make entries = .ok made) :
    FailsJust (SomeLineFeed (absenceHashTexts (.mapping entries))) made := by
  -- evidence of this form has no fields for two paths
  rw [absenceHashTexts, fieldValues_of_closed h "left" (by decide),
    fieldValues_of_closed h "right" (by decide), List.append_nil, List.append_nil]
  obtain ⟨hfields, -⟩ := closed_eq_ok.1 h
  obtain ⟨path, hpath, rfl⟩ := map_eq_ok.1 hfields
  exact (converts_readPath.field hpath).map make

theorem failsJust_readInner {entries : List (Value × Value)} {made : Made Absence}
    (h : readInner entries = .ok made) :
    FailsJust (SomeLineFeed (absenceHashTexts (.mapping entries))) made := by
  rw [absenceHashTexts, fieldValues_of_closed h "path" (by decide), List.nil_append,
    List.flatMap_append]
  obtain ⟨hfields, -⟩ := closed_eq_ok.1 h
  simp only [map_eq_ok, both_eq_ok] at hfields
  obtain ⟨⟨lower, upper⟩, ⟨hlower, hupper⟩, rfl⟩ := hfields
  refine FailsJust.of_iff ?_ someLineFeed_append
  refine (converts_readPath.field hlower).bind fun _ _ => ?_
  exact (converts_readPath.field hupper).bind_ok fun _ _ => ⟨_, rfl⟩

/-- The promise for evidence of absence, in each of its forms. -/
theorem converts_readAbsence : Converts absenceHashTexts readAbsence := by
  intro value made h
  obtain ⟨entries, kind, read, rfl, hform, hread⟩ := exists_form h
  unfold readForm? at hform
  split at hform
  · cases hform
    rw [absenceHashTexts, fieldValues_of_closed hread "path" (by decide),
      fieldValues_of_closed hread "left" (by decide),
      fieldValues_of_closed hread "right" (by decide)]
    obtain ⟨hmade, -⟩ := closed_eq_ok.1 hread
    cases hmade
    exact failsJust_ok not_someLineFeed_nil _
  · cases hform
    exact failsJust_readOneSided hread
  · cases hform
    exact failsJust_readOneSided hread
  · cases hform
    exact failsJust_readInner hread
  · cases hform

/-! ### Commitments and banks -/

/-- The promise for a commitment to a blob. -/
theorem converts_readBlob : Converts blobHashTexts readBlob := by
  intro value made h
  obtain ⟨entries, rfl, hfields⟩ := exists_fields h
  simp only [map_eq_ok, both_eq_ok] at hfields
  obtain ⟨⟨address, digest, size⟩, ⟨haddress, hdigest, hsize⟩, rfl⟩ := hfields
  refine FailsJust.of_iff ?_ someLineFeed_append
  refine (failsJust_requiredHash haddress).bind fun a ha => ?_
  refine (failsJust_requiredHash hdigest).bind_ok fun d hd => ?_
  dsimp only at ha hd haddress hdigest hsize
  subst ha hd
  obtain ⟨_, -, hsize⟩ := required_eq_ok.1 hsize
  obtain ⟨c, hc⟩ := BlobCommitment.exists_ofParts (length_of_requiredHash haddress)
    (length_of_requiredHash hdigest) (Nat.lt_succ_of_le (le_of_natural hsize))
  exact ⟨c, mapError_eq_ok.2 hc⟩

/-- The promise for the parts of a bank. -/
theorem converts_readBank : Converts bankHashTexts readBank := by
  intro value made h
  obtain ⟨entries, rfl, hfields⟩ := exists_fields h
  simp only [map_eq_ok, both_eq_ok] at hfields
  obtain ⟨⟨parent, accountsDelta, count, blockhash⟩,
    ⟨hparent, haccountsDelta, hcount, hblockhash⟩, rfl⟩ := hfields
  rw [bankHashTexts, List.append_assoc]
  refine FailsJust.of_iff ?_ someLineFeed_append
  refine (failsJust_requiredHash hparent).bind fun p hp => ?_
  refine FailsJust.of_iff ?_ someLineFeed_append
  refine (failsJust_requiredHash haccountsDelta).bind fun d hd => ?_
  refine (failsJust_requiredHash hblockhash).bind_ok fun b hb => ?_
  dsimp only at hp hd hb hparent haccountsDelta hblockhash hcount
  subst hp hd hb
  obtain ⟨_, -, hcount⟩ := required_eq_ok.1 hcount
  obtain ⟨bank, hbank⟩ := Bank.exists_ofParts (length_of_requiredHash hparent)
    (length_of_requiredHash haccountsDelta) (Nat.lt_succ_of_le (le_of_natural hcount))
    (length_of_requiredHash hblockhash)
  exact ⟨bank, mapError_eq_ok.2 hbank⟩

/-! ### The check and the conversion

The two disagree on texts that end in a line feed and on no others. -/

/-- A hash text passes just when it is the marker and 64 digits, and is then converted as it should
be, unless it ends in a line feed: such a text passes as well, and has an odd number of characters
to convert.  Paths, evidence of absence, commitments and banks that fit their schema are converted,
unless one of their hash texts ends in a line feed; over that the conversion fails. -/
theorem checked_converts_unless_line_feed (field text : String) :
    (ChecksExactly field text ↔ ¬ TrailsLineFeed text) ∧
      (∀ word, checkHashText field text = .ok word ↔
        (HashSpelled text ∨ TrailsLineFeed text) ∧ word = lowered text) ∧
      (TrailsLineFeed text →
        Hex.decode (lowered text) = .error (.oddLength (2 * hashLength + 1))) ∧
      Converts pathHashTexts readPath ∧ Converts absenceHashTexts readAbsence ∧
      Converts blobHashTexts readBlob ∧ Converts bankHashTexts readBank :=
  ⟨checksExactly_iff, fun _ => checkHashText_eq_ok_iff, TrailsLineFeed.decode_eq,
    converts_readPath, converts_readAbsence, converts_readBlob, converts_readBank⟩

/-- A path from a leaf that is the root. -/
def leafAlone (s : String) : Value :=
  .mapping [(.text "leaf", .text s), (.text "levels", .list [])]

/-- A path of nothing but a leaf fits the schema if the text of the leaf does. -/
theorem exists_readPath_leafAlone {s word : String} (h : checkHashText "leaf" s = .ok word) :
    ∃ made, readPath (leafAlone s) = .ok made := by
  have hleaf : readHash "leaf" (.text s) = .ok ((Hex.decode word).mapError .hash) := by
    change hashOfText "leaf" s = _
    rw [hashOfText, h]
  refine ⟨((Hex.decode word).mapError .hash).map fun leaf => ⟨leaf, []⟩, ?_⟩
  refine bind_eq_ok.2 ⟨_, rfl, closed_eq_ok.2 ⟨?_, by simp [keyDefects]⟩⟩
  refine map_eq_ok.2 ⟨((Hex.decode word).mapError .hash, []), both_eq_ok.2 ⟨?_, rfl⟩, ?_⟩
  · exact required_eq_ok.2 ⟨_, rfl, hleaf⟩
  · cases Hex.decode word <;> rfl

theorem someLineFeed_leafAlone {s : String} :
    SomeLineFeed (pathHashTexts (leafAlone s)) ↔ TrailsLineFeed s :=
  (@someLineFeed_singleton (.text s)).trans (endsInLineFeed_iff rfl)

/-- A hash text in capitals. -/
def capitals : String := String.ofList ('0' :: 'x' :: List.replicate (2 * hashLength) 'F')

theorem hashSpelled_capitals : HashSpelled capitals := by
  refine ⟨_, String.toList_ofList, List.length_replicate, fun c hc => ?_⟩
  obtain rfl := List.eq_of_mem_replicate hc
  decide

/-- The text in capitals passes, and a path from it is converted. -/
theorem capitals_checked_and_converted :
    ¬ TrailsLineFeed capitals ∧ ChecksExactly "leaf" capitals ∧
      checkHashText "leaf" capitals = .ok (lowered capitals) ∧
      ∃ path, readPath (leafAlone capitals) = .ok (.ok path) := by
  have hfree : ¬ TrailsLineFeed capitals := fun h =>
    not_hashSpelled_of_trailsLineFeed h hashSpelled_capitals
  obtain ⟨hexactly, hpasses, -, hpaths, -⟩ := checked_converts_unless_line_feed "leaf" capitals
  have hcheck := (hpasses _).2 ⟨.inl hashSpelled_capitals, rfl⟩
  obtain ⟨made, hmade⟩ := exists_readPath_leafAlone hcheck
  obtain ⟨path, rfl⟩ := (hpaths _ _ hmade).makes (someLineFeed_leafAlone.not.2 hfree)
  exact ⟨hfree, hexactly.2 hfree, hcheck, path, hmade⟩

/-- The same text with a line feed at the end. -/
def capitalsLine : String :=
  String.ofList ('0' :: 'x' :: List.replicate (2 * hashLength) 'F' ++ ['\n'])

/-- With the line feed the text passes as well, but a path from it is not converted. -/
theorem not_every_checked_text_converted :
    checkHashText "leaf" capitalsLine = .ok (lowered capitalsLine) ∧ ¬ HashSpelled capitalsLine ∧
      ¬ ChecksExactly "leaf" capitalsLine ∧
      ∃ reason, readPath (leafAlone capitalsLine) = .ok (.error reason) := by
  have htrails : TrailsLineFeed capitalsLine := by
    refine ⟨capitals.toList, hashSpelled_capitals, ?_⟩
    rw [capitalsLine, capitals, String.toList_ofList, String.toList_ofList]
  have hcheck := (@checkHashText_eq_ok_iff "leaf" _ _).2 ⟨.inr htrails, rfl⟩
  obtain ⟨made, hmade⟩ := exists_readPath_leafAlone hcheck
  have hfails := (converts_readPath _ _ hmade).fails (someLineFeed_leafAlone.2 htrails)
  refine ⟨hcheck, not_hashSpelled_of_trailsLineFeed htrails, ?_, _, hfails ▸ hmade⟩
  exact fun h => checksExactly_iff.1 h htrails

end Wire

end SlotEvidence
