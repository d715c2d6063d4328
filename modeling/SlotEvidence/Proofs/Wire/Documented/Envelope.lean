/-
Module: SlotEvidence.Proofs.Wire.Documented.Envelope
Purpose: Which wire texts are in the documented form, among all that are read: just those that are
  alike the wire text of what they are read as.
Trusted boundary: none
Main exports: Wire.alike_payload, Wire.Opened, Wire.alike_envelope_iff, Wire.Source,
  Evidence.alike_encode_iff_documented
-/
import SlotEvidence.Proofs.Json.Reading
import SlotEvidence.Proofs.Wire.Documented.Compound
import SlotEvidence.Proofs.Wire.RoundTrip

namespace SlotEvidence

namespace Wire

open Schema Json

/-! ### Payloads

The payloads of all kinds of evidence, from what is known of each. -/

/-- Payloads are written with all their members. -/
theorem complete_writePayload {e : Evidence} {json : Json} (h : writePayload e = .ok json) :
    Complete json := by
  cases e with
  | inclusion p => exact faithful_path.complete (mapError_eq_ok.1 h)
  | exclusion a => exact faithful_absence.complete (mapError_eq_ok.1 h)
  | blob c =>
      cases h
      exact complete_writeBlob c
  | bankHash b =>
      cases h
      exact complete_writeBank b
  | slotHash e => exact faithful_slotExhibit.complete (mapError_eq_ok.1 h)
  | compoundInclusion c => exact faithful_compoundInclusion.complete (mapError_eq_ok.1 h)
  | compoundCompleteness c => exact faithful_compoundCompleteness.complete h

/-- What is read as a payload is evidence of the kind that the envelope names. -/
theorem kind_of_readPayload {kind : EvidenceKind} {value : Value} {e : Evidence}
    (h : readPayload kind value = .ok (.ok e)) : e.kind = kind := by
  cases kind <;>
    · obtain ⟨_, -, rfl⟩ := map_made_eq_ok.1 h
      rfl

/-- Complete payloads are alike what is written of what they are read as. -/
theorem alike_payload {kind : EvidenceKind} {json written : Json} {e : Evidence}
    (hcomplete : Complete json) (hread : readPayload kind json.toValue = .ok (.ok e))
    (hwrite : writePayload e = .ok written) : Alike SameText json written := by
  cases kind with
  | inclusion =>
      obtain ⟨p, hp, rfl⟩ := map_made_eq_ok.1 hread
      exact faithful_path.alike hcomplete hp (mapError_eq_ok.1 hwrite)
  | exclusion =>
      obtain ⟨a, ha, rfl⟩ := map_made_eq_ok.1 hread
      exact faithful_absence.alike hcomplete ha (mapError_eq_ok.1 hwrite)
  | blob =>
      obtain ⟨c, hc, rfl⟩ := map_made_eq_ok.1 hread
      cases hwrite
      exact faithful_blob.alike hcomplete hc rfl
  | bankHash =>
      obtain ⟨b, hb, rfl⟩ := map_made_eq_ok.1 hread
      cases hwrite
      exact faithful_bank.alike hcomplete hb rfl
  | slotHash =>
      obtain ⟨e, he, rfl⟩ := map_made_eq_ok.1 hread
      exact faithful_slotExhibit.alike hcomplete he (mapError_eq_ok.1 hwrite)
  | compoundInclusion =>
      obtain ⟨c, hc, rfl⟩ := map_made_eq_ok.1 hread
      exact faithful_compoundInclusion.alike hcomplete hc (mapError_eq_ok.1 hwrite)
  | compoundCompleteness =>
      obtain ⟨c, hc, rfl⟩ := map_made_eq_ok.1 hread
      exact faithful_compoundCompleteness.alike hcomplete hc hwrite

/-! ### Envelopes

A text is like the one that would be written only if it spells out the version, which may be left
out in reading, and keeps integers as integers, which may also be read from other values. -/

theorem eq_text_of_listed {json : Json} {kind : EvidenceKind}
    (h : listed EvidenceKind.all EvidenceKind.name json.toValue = .ok kind) :
    json = .text kind.name := by
  cases json with
  | text s =>
      unfold listed at h
      dsimp only [toValue] at h
      split at h
      · rename_i found hfound
        cases h
        have hname := List.find?_some hfound
        rw [eq_of_beq hname]
      · cases h
  | null | bool | int | float | array | object => cases h

/-- The members that a payload is read from stand for the same value as the payload. -/
theorem ofMembers_of_mapping {json : Json} {payload : Members Value}
    (hdistinct : json.DistinctNames) (h : mapping json.toValue = .ok payload) :
    Value.ofMembers payload = json.toValue := by
  cases hdistinct with
  | object hdistinct _ =>
      obtain ⟨other, hother, hvalue⟩ := exists_mapping toValue hdistinct
      rw [toValue, memberValues_eq_map] at h ⊢
      rw [hother] at h
      cases h
      exact hvalue
  | null | bool | int | float | text | array => cases h

theorem eq_formatVersion {version : String} (h : checkVersion version = .ok ()) :
    version = formatVersion := by
  unfold checkVersion at h
  split at h
  · rename_i hversion
    exact List.mem_singleton.1 hversion
  · cases h

/-- Members of an envelope from which evidence is read, and the payload among them. -/
structure Opened (members : Members Json) (value : Json) (e : Evidence) : Prop where
  known : ∀ name ∈ members.names, name ∈ ["format_version", "kind", "payload"]
  version : ∀ {version}, members.get? "format_version" = some version →
    version = .text formatVersion
  kind : members.get? "kind" = some (.text e.kind.name)
  payload : members.get? "payload" = some value
  read : readPayload e.kind value.toValue = .ok (.ok e)

/-- A value that is read as evidence is an object with a payload, which has been opened. -/
theorem exists_opened {json : Json} {e : Evidence} (hdistinct : json.DistinctNames)
    (h : ofJson json = .ok e) :
    ∃ (members : Members Json) (value : Json), json = .object members ∧
      Opened members value e := by
  obtain ⟨envelope, hread, h⟩ := bind_eq_ok.1 h
  obtain ⟨_, hversion, h⟩ := bind_eq_ok.1 h
  obtain ⟨made, hpayload, hmade⟩ := bind_eq_ok.1 h
  obtain rfl := mapError_eq_ok.1 hmade
  have hpayload := mapError_eq_ok.1 hpayload
  obtain ⟨members, rfl, hknown, hfields⟩ := exists_members (mapError_eq_ok.1 hread)
  simp only [map_eq_ok, both_eq_ok] at hfields
  obtain ⟨⟨version, kind, payload⟩, ⟨hgiven, hkind, hmapping⟩, rfl⟩ := hfields
  obtain rfl := kind_of_readPayload hpayload
  obtain rfl := eq_formatVersion (mapError_eq_ok.1 hversion)
  obtain ⟨name, hname, hlisted⟩ := required_memberValues.1 hkind
  obtain ⟨value, hvalue, hmapping⟩ := required_memberValues.1 hmapping
  have hdistinct : value.DistinctNames := by
    cases hdistinct with
    | object _ h => exact h _ (Members.mem_of_get?_eq_some hvalue)
  refine ⟨members, value, rfl, hknown, ?_, ?_, hvalue, ?_⟩
  · intro given hget
    rw [Schema.optional, member?_memberValues, hget] at hgiven
    exact eq_text_of_text (within_eq_ok.1 hgiven)
  · rw [hname, eq_text_of_listed hlisted]
  · rw [← ofMembers_of_mapping hdistinct hmapping]
    exact hpayload

/-- Envelopes are written with all their members. -/
theorem complete_envelopeMembers {e : Evidence} {payload : Json}
    (h : writePayload e = .ok payload) :
    Complete (.object (envelopeMembers e.kind payload)) := by
  refine .object (.of_names ["format_version", "kind", "payload"] rfl (by decide)) ?_
  simp only [envelopeMembers, List.forall_mem_cons]
  exact ⟨.text _, .text _, complete_writePayload h, List.forall_mem_nil _⟩

/-- What is read is alike what is written of it just when it is in the documented form. -/
theorem alike_envelope_iff {json payload : Json} {e : Evidence} (hdistinct : json.DistinctNames)
    (h : ofJson json = .ok e) (hwrite : writePayload e = .ok payload) :
    Alike SameText json (.object (envelopeMembers e.kind payload)) ↔ Documented json := by
  obtain ⟨members, value, rfl, hopened⟩ := exists_opened hdistinct h
  constructor
  · intro halike
    have hcomplete := complete_of_alike halike hdistinct (complete_envelopeMembers hwrite)
    cases halike with
    | object hnames _ => exact ⟨⟨members, rfl, (hnames _).2 (.head _)⟩, hcomplete⟩
  · rintro ⟨⟨_, heq, hversion⟩, hcomplete⟩
    cases heq
    obtain ⟨version, hget⟩ := Members.exists_get?_of_mem_names hversion
    have hpayload : Complete value :=
      hcomplete.members.2 _ (Members.mem_of_get?_eq_some hopened.payload)
    refine alike_object hopened.known (List.forall_mem_cons.2 ⟨?_, List.forall_mem_cons.2 ⟨?_, ?_⟩⟩)
    · rw [hopened.version hget] at hget
      exact ⟨_, hget, .text (sameText_refl _)⟩
    · exact ⟨_, hopened.kind, .text (sameText_refl _)⟩
    · exact List.forall_mem_singleton.2
        ⟨value, hopened.payload, alike_payload hpayload hopened.read hwrite⟩

/-- What is read can be written, and the text that is written is read as a value that what was read
is alike just when it is in the documented form. -/
theorem exists_rewritten {json : Json} {e : Evidence} (hdistinct : json.DistinctNames)
    (hjson : json.Writable) (h : ofJson json = .ok e) :
    ∃ (text : String) (written : Json), e.encode = .ok text ∧ Json.parse text = .ok written ∧
      (Alike SameText json written ↔ Documented json) := by
  obtain ⟨payload, hwrite, hwritable⟩ := exists_writePayload (portable_of_ofJson hjson h)
  have hlegible := legible_envelopeMembers e.kind (readBack_writePayload hwrite).1
  have hsorted := hlegible.distinctNames.alike_sorted sameText_refl
  have hparse := parse_render hlegible (writable_envelopeMembers_iff.2 hwritable)
  refine ⟨_, _, Evidence.encode_eq_ok.2 ⟨payload, hwrite, hwritable, rfl⟩, hparse, ?_⟩
  rw [← alike_envelope_iff hdistinct h hwrite]
  constructor
  · intro halike
    exact Alike.trans (R := SameText) sameText_trans halike
      (Alike.symm (R := SameText) sameText_symm hsorted)
  · intro halike
    exact Alike.trans (R := SameText) sameText_trans halike hsorted

/-! ### Sources

Texts and bytes are read alike once they have been decoded. -/

/-- What evidence is read from. -/
inductive Source where
  | text (s : String)
  | bytes (b : Bytes)

namespace Source

/-- The JSON value in a text or in bytes. -/
def parse : Source → Except ReadError Json
  | .text s => (Json.parse s).mapError .grammar
  | .bytes b => Json.parseBytes b

def decode : Source → Except ReadFault Evidence
  | .text s => Evidence.decode s
  | .bytes b => Evidence.decodeBytes b

theorem parse_text_eq_ok {s : String} {json : Json} :
    (text s).parse = .ok json ↔ Json.parse s = .ok json :=
  mapError_eq_ok

/-- Whatever is parsed has no name twice in an object. -/
theorem distinctNames_of_parse {source : Source} {json : Json} (h : source.parse = .ok json) :
    json.DistinctNames := by
  cases source with
  | text s => exact Json.distinctNames_of_parse (parse_text_eq_ok.1 h)
  | bytes b => exact distinctNames_of_parseBytes h

/-- Whatever is parsed holds no integer that is too long to be written. -/
theorem writable_of_parse {source : Source} {json : Json} (h : source.parse = .ok json) :
    json.Writable := by
  cases source with
  | text s => exact Json.writable_of_parse (parse_text_eq_ok.1 h)
  | bytes b => exact writable_of_parseBytes h

/-- Evidence is read from the JSON value. -/
theorem exists_of_decode {source : Source} {e : Evidence} (h : source.decode = .ok e) :
    ∃ json, source.parse = .ok json ∧ ofJson json = .ok e := by
  cases source with
  | text s =>
      obtain ⟨json, hparse, hjson⟩ := bind_eq_ok.1 h
      exact ⟨json, parse_text_eq_ok.2 (mapError_eq_ok.1 hparse), hjson⟩
  | bytes b =>
      obtain ⟨json, hparse, hjson⟩ := bind_eq_ok.1 h
      exact ⟨json, mapError_eq_ok.1 hparse, hjson⟩

end Source

end Wire

namespace Evidence

open Wire Json

/-- What is read from a text or from bytes can be written, and the JSON value of the text that is
written is the one that was read, but for the order of members and the case of the digits of hashes,
just when the one that was read is in the documented form: its integer fields hold integers and no
field is left out. -/
theorem alike_encode_iff_documented {source : Source} {e : Evidence}
    (h : source.decode = .ok e) :
    ∃ (json : Json) (rewritten : String) (written : Json), source.parse = .ok json ∧
      e.encode = .ok rewritten ∧ Json.parse rewritten = .ok written ∧
      (Alike SameText json written ↔ Documented json) := by
  obtain ⟨json, hparse, hjson⟩ := Source.exists_of_decode h
  obtain ⟨rewritten, written, hencode, hwritten, hiff⟩ :=
    exists_rewritten (Source.distinctNames_of_parse hparse) (Source.writable_of_parse hparse) hjson
  exact ⟨json, rewritten, written, hparse, hencode, hwritten, hiff⟩

/-- A text with a name that comes twice, members in another order and digits in upper case. -/
def shuffledText : String :=
  "\x7b\"payload\": \x7b\"levels\": [], \"leaf\":
    \"0xABABABABABABABABABABABABABABABABABABABABABABABABABABABABABABABAB\"\x7d,
    \"kind\": \"blob\", \"format_version\": \"v1\", \"kind\": \"inclusion\"\x7d"

def shuffledLeaf : Json :=
  .text "0xABABABABABABABABABABABABABABABABABABABABABABABABABABABABABABABAB"

def shuffledPath : Json := .object [("levels", .array []), ("leaf", shuffledLeaf)]

def shuffledJson : Json :=
  .object [("payload", shuffledPath), ("kind", .text "inclusion"), ("format_version", .text "v1")]

/-- The path in the shuffled text. -/
def shuffled : Path := ⟨List.replicate 32 0xab, []⟩

/-- A text without a version. -/
def unversionedText : String :=
  "\x7b\"kind\":\"exclusion\",\"payload\":\x7b\"kind\":\"empty\"\x7d\x7d"

def unversionedBytes : Bytes := unversionedText.toList.map fun c => UInt8.ofNat c.toNat

def unversionedJson : Json :=
  .object [("kind", .text "exclusion"), ("payload", .object [("kind", .text "empty")])]

set_option maxRecDepth 20000 in
/-- Of the two members for the kind, the later one counts, at the place of the earlier one. -/
theorem parse_shuffledText : Json.parse shuffledText = .ok shuffledJson := by
  with_unfolding_all rfl

theorem parseBytes_unversionedText : Json.parseBytes unversionedBytes = .ok unversionedJson := by
  with_unfolding_all rfl

theorem readHash_shuffledLeaf :
    readHash "leaf" shuffledLeaf.toValue = .ok (.ok shuffled.leaf) := by
  decide +kernel

/-- The path in it is read. -/
theorem readPath_shuffledPath : readPath shuffledPath.toValue = .ok (.ok shuffled) := by
  refine bind_eq_ok.2 ⟨_, rfl, Schema.closed_eq_ok.2 ⟨?_, by decide⟩⟩
  refine map_eq_ok.2 ⟨(.ok shuffled.leaf, []), Schema.both_eq_ok.2 ⟨?_, rfl⟩, rfl⟩
  exact Schema.required_eq_ok.2 ⟨_, rfl, readHash_shuffledLeaf⟩

/-- The whole of it is read as evidence. -/
theorem ofJson_shuffledJson : ofJson shuffledJson = .ok (.inclusion shuffled) := by
  refine bind_eq_ok.2 ⟨⟨formatVersion, .inclusion, [("levels", .list []), ("leaf", _)]⟩, rfl, ?_⟩
  refine bind_eq_ok.2 ⟨(), rfl, bind_eq_ok.2 ⟨.ok (.inclusion shuffled), ?_, rfl⟩⟩
  apply mapError_eq_ok.2
  exact map_made_eq_ok.2 ⟨_, readPath_shuffledPath, rfl⟩

theorem documented_shuffledJson : Documented shuffledJson where
  version := ⟨_, rfl, .tail _ (.tail _ (.head _))⟩
  complete := by
    have hpath : Complete shuffledPath := by
      refine .object (.of_names ["levels", "leaf"] rfl (by decide)) ?_
      simp only [List.forall_mem_cons]
      exact ⟨.array (List.forall_mem_nil _), .text _, List.forall_mem_nil _⟩
    refine .object (.of_names ["payload", "kind", "format_version"] rfl (by decide)) ?_
    simp only [List.forall_mem_cons]
    exact ⟨hpath, .text _, .text _, List.forall_mem_nil _⟩

theorem not_documented_unversionedJson : ¬ Documented unversionedJson := by
  rintro ⟨⟨members, heq, hversion⟩, -⟩
  cases heq
  exact absurd hversion (by decide)

/-- The shuffled text is alike the wire text of what it is read as, the text without a version, in
bytes, is not. -/
theorem shuffled_alike_unversioned_not_alike :
    ((Source.text shuffledText).decode = .ok (.inclusion shuffled) ∧
      ∃ (rewritten : String) (written : Json), (inclusion shuffled).encode = .ok rewritten ∧
        Json.parse rewritten = .ok written ∧ Alike SameText shuffledJson written) ∧
    (Source.bytes unversionedBytes).decode = .ok (.exclusion .empty) ∧
      ∃ (rewritten : String) (written : Json), (exclusion .empty).encode = .ok rewritten ∧
        Json.parse rewritten = .ok written ∧ ¬ Alike SameText unversionedJson written := by
  constructor
  · have hdecode : (Source.text shuffledText).decode = .ok (.inclusion shuffled) :=
      bind_eq_ok.2 ⟨_, mapError_eq_ok.2 parse_shuffledText, ofJson_shuffledJson⟩
    obtain ⟨json, rewritten, written, hparse, hencode, hwritten, hiff⟩ :=
      alike_encode_iff_documented hdecode
    have hshuffled := Source.parse_text_eq_ok.1 hparse
    obtain rfl := Except.ok.inj (parse_shuffledText.symm.trans hshuffled)
    exact ⟨hdecode, rewritten, written, hencode, hwritten, hiff.2 documented_shuffledJson⟩
  · have hdecode : (Source.bytes unversionedBytes).decode = .ok (.exclusion .empty) :=
      bind_eq_ok.2 ⟨_, mapError_eq_ok.2 parseBytes_unversionedText, rfl⟩
    obtain ⟨json, rewritten, written, hparse, hencode, hwritten, hiff⟩ :=
      alike_encode_iff_documented hdecode
    obtain rfl := Except.ok.inj (parseBytes_unversionedText.symm.trans hparse)
    exact ⟨hdecode, rewritten, written, hencode, hwritten,
      fun halike => not_documented_unversionedJson (hiff.1 halike)⟩

/-- A text with a truth value where the number of a slot is expected. -/
def lenientText : String :=
  "\x7b\"format_version\":\"v1\",\"kind\":\"slot_hash\","
    ++ "\"payload\":\x7b\"history\":[],\"slot\":true\x7d\x7d"

def lenientJson : Json :=
  .object
    [("format_version", .text "v1"), ("kind", .text "slot_hash"),
     ("payload", .object [("history", .array []), ("slot", .bool true)])]

/-- The evidence in the lenient text. -/
def lenient : Evidence := .slotHash ⟨1, ⟨[], trivial⟩⟩

theorem parse_lenientText : Json.parse lenientText = .ok lenientJson := by
  with_unfolding_all rfl

theorem ofJson_lenientJson : ofJson lenientJson = .ok lenient := rfl

theorem not_documented_lenientJson : ¬ Documented lenientJson := by
  rintro ⟨-, hcomplete⟩
  obtain ⟨-, hvalues⟩ := hcomplete.members
  obtain ⟨hwritten, -⟩ := (hvalues _ (.tail _ (.tail _ (.head _)))).members
  obtain ⟨n, hn⟩ := hwritten.integers _ (.tail _ (.head _)) (by decide)
  cases hn

/-- Not every text from which evidence is read is alike the wire text of the evidence. -/
theorem not_every_text_alike_encode :
    ¬ ∀ (text : String) (e : Evidence), decode text = .ok e →
      ∃ (json : Json) (rewritten : String) (written : Json), Json.parse text = .ok json ∧
        e.encode = .ok rewritten ∧ Json.parse rewritten = .ok written ∧
        Alike SameText json written := by
  intro h
  have hdecode : decode lenientText = .ok lenient :=
    bind_eq_ok.2 ⟨_, mapError_eq_ok.2 parse_lenientText, ofJson_lenientJson⟩
  obtain ⟨json, rewritten, written, hparse, hencode, hwritten, halike⟩ := h _ _ hdecode
  obtain rfl := Except.ok.inj (parse_lenientText.symm.trans hparse)
  obtain ⟨text, value, htext, hvalue, hiff⟩ :=
    exists_rewritten (distinctNames_of_parse hparse) (writable_of_parse hparse) ofJson_lenientJson
  obtain rfl := Except.ok.inj (htext.symm.trans hencode)
  obtain rfl := Except.ok.inj (hvalue.symm.trans hwritten)
  exact not_documented_lenientJson (hiff.1 halike)

end Evidence

end SlotEvidence
