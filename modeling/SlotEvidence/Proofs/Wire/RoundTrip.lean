/-
Module: SlotEvidence.Proofs.Wire.RoundTrip
Purpose: Wire texts are read back as the evidence that was written, and whatever can be read can be
  written.
Trusted boundary: none
Main exports: Wire.readEnvelope_envelopeMembers, Evidence.encode_eq_ok, Evidence.wire_round_trip
-/
import SlotEvidence.Proofs.Json.Reading
import SlotEvidence.Proofs.Wire.Portable
import SlotEvidence.Wire

namespace SlotEvidence

namespace Wire

open Schema

/-! ### Envelopes

An envelope holds the version and the kind beside the payload.  Its members are written in the order
of their names. -/

/-- The members of an object have texts for keys. -/
theorem textKeys_map (f : Json → Value) (members : Members Json) :
    textKeys (members.map fun member => (.text member.1, f member.2)) =
      .ok (members.map fun member => (member.1, f member.2)) := by
  induction members with
  | nil => rfl
  | cons member rest ih =>
      rw [List.map_cons, textKeys, ih]
      rfl

/-- An object is read as a mapping from texts, which stands for the same value. -/
theorem exists_mapping (f : Json → Value) {members : Members Json}
    (hdistinct : members.names.Nodup) :
    ∃ payload,
      mapping (.mapping (members.map fun member => (.text member.1, f member.2))) = .ok payload ∧
      Value.ofMembers payload =
        .mapping (members.map fun member => (.text member.1, f member.2)) := by
  have hnodup : ((members.map fun member => (member.1, f member.2)).map (·.1)).Nodup := by
    rwa [List.map_map]
  refine ⟨members.map fun member => (member.1, f member.2), ?_, ?_⟩
  · rw [mapping, textKeys_map]
    exact congrArg Except.ok (Members.ofList_of_nodup hnodup)
  · rw [Value.ofMembers, List.map_map]
    rfl

/-- An object with distinct names is read as a mapping of the same members. -/
theorem exists_mapping_asRead {members : Members Json} (hdistinct : members.names.Nodup) :
    ∃ payload, mapping (Json.object members).asRead = .ok payload ∧
      Value.ofMembers payload = (Json.object members).asRead := by
  rw [asRead_object, entries]
  exact exists_mapping _ (((Json.sortMembers_perm members).map _).nodup_iff.2 hdistinct)

theorem listed_name (kind : EvidenceKind) :
    listed EvidenceKind.all EvidenceKind.name (.text kind.name) = .ok kind := by
  cases kind <;> rfl

/-- The members of the envelope of a payload. -/
def envelopeMembers (kind : EvidenceKind) (payload : Json) : Members Json :=
  [("format_version", .text formatVersion), ("kind", .text kind.name), ("payload", payload)]

theorem envelopeMembers_distinct (kind : EvidenceKind) (payload : Json) :
    (envelopeMembers kind payload).names.Nodup := by
  change ["format_version", "kind", "payload"].Nodup
  decide

/-- An envelope is opened again after it has been written. -/
theorem readEnvelope_envelopeMembers {kind : EvidenceKind} {payload : Json}
    {members : Members Value} (h : mapping payload.asRead = .ok members) :
    readEnvelope (Json.object (envelopeMembers kind payload)).asRead =
      .ok ⟨formatVersion, kind, members⟩ := by
  have hdistinct := envelopeMembers_distinct kind payload
  have hversion : optional (entries (envelopeMembers kind payload)) "format_version" formatVersion
      text = .ok formatVersion :=
    optional_of_member? (member?_entries hdistinct (.head _)) rfl
  apply read_record
  rw [hversion, required_entries hdistinct (.tail _ (.head _)) (listed_name kind),
    required_entries hdistinct (.tail _ (.tail _ (.head _))) h]
  rfl

theorem exists_object_of_asRead {json : Json} {es : List (Value × Value)}
    (h : json.asRead = .mapping es) : ∃ members, json = .object members := by
  cases json with
  | object members => exact ⟨members, rfl⟩
  | array items =>
      rw [asRead_array] at h
      cases h
  | null | bool | int | float | text => cases h

/-- The evidence in the envelope of a payload is what the payload is read as. -/
theorem ofJson_envelopeMembers {kind : EvidenceKind} {payload : Json} {e : Evidence}
    (hlegible : payload.Legible) (hread : readPayload kind payload.asRead = .ok (.ok e)) :
    ofJson (Json.object (envelopeMembers kind payload)).sorted = .ok e := by
  obtain ⟨es, hes⟩ := exists_mapping_of_readPayload hread
  obtain ⟨members, rfl⟩ := exists_object_of_asRead hes
  cases hlegible with
  | object hdistinct _ =>
      obtain ⟨payload, hmapping, hpayload⟩ := exists_mapping_asRead hdistinct
      rw [← hpayload] at hread
      refine bind_eq_ok.2 ⟨_, mapError_eq_ok.2 (readEnvelope_envelopeMembers hmapping), ?_⟩
      refine bind_eq_ok.2 ⟨(), mapError_eq_ok.2 (if_pos (.head _)), ?_⟩
      refine bind_eq_ok.2 ⟨_, mapError_eq_ok.2 hread, rfl⟩

theorem legible_envelopeMembers (kind : EvidenceKind) {payload : Json} (h : payload.Legible) :
    (Json.object (envelopeMembers kind payload)).Legible := by
  apply Json.Legible.object (envelopeMembers_distinct kind payload)
  simp only [envelopeMembers, List.forall_mem_cons]
  exact ⟨.text _, .text _, h, nofun⟩

theorem writable_envelopeMembers_iff {kind : EvidenceKind} {payload : Json} :
    (Json.object (envelopeMembers kind payload)).Writable ↔ payload.Writable := by
  simp only [envelopeMembers, Json.writable_object_iff, List.forall_mem_cons]
  exact ⟨fun h => h.2.2.1, fun h => ⟨Json.writable_text _, Json.writable_text _, h, nofun⟩⟩

/-- The payload of an envelope holds no integer that the envelope does not hold. -/
theorem writable_of_readEnvelope {value : Value} {envelope : Envelope} (hvalue : value.Writable)
    (h : readEnvelope value = .ok envelope) : (Value.ofMembers envelope.payload).Writable := by
  obtain ⟨entries, rfl, hfields⟩ := exists_fields h
  simp only [map_eq_ok, both_eq_ok, required_eq_ok] at hfields
  obtain ⟨⟨version, kind, payload⟩, ⟨-, -, _, hmember, hpayload⟩, rfl⟩ := hfields
  exact writable_of_mapping (writable_of_member? hvalue hmember) hpayload

/-- Whatever is read is portable, for integers too long to be written are not read either. -/
theorem portable_of_ofJson {json : Json} {e : Evidence} (hjson : json.Writable)
    (h : ofJson json = .ok e) : e.Portable := by
  obtain ⟨envelope, henvelope, h⟩ := bind_eq_ok.1 h
  obtain ⟨_, -, h⟩ := bind_eq_ok.1 h
  obtain ⟨made, hpayload, hmade⟩ := bind_eq_ok.1 h
  obtain rfl := mapError_eq_ok.1 hmade
  have hwritable := writable_of_readEnvelope (Json.writable_toValue_iff.2 hjson)
    (mapError_eq_ok.1 henvelope)
  exact portable_of_readPayload hwritable (mapError_eq_ok.1 hpayload)

end Wire

namespace Evidence

open Wire

/-- The wire text is the canonical text of the envelope, where the payload can be written. -/
theorem encode_eq_ok {e : Evidence} {text : String} :
    e.encode = .ok text ↔ ∃ payload, writePayload e = .ok payload ∧ payload.Writable ∧
      text = String.ofList (Json.object (envelopeMembers e.kind payload)).render := by
  simp only [encode, toJson, bind_eq_ok, map_eq_ok, mapError_eq_ok, Json.dump_eq_ok_iff]
  constructor
  · rintro ⟨_, ⟨payload, hpayload, rfl⟩, rfl, hwritable⟩
    exact ⟨payload, hpayload, writable_envelopeMembers_iff.1 hwritable, rfl⟩
  · rintro ⟨payload, hpayload, hwritable, rfl⟩
    exact ⟨_, ⟨payload, hpayload, rfl⟩, rfl, writable_envelopeMembers_iff.2 hwritable⟩

/-- Portable evidence has a wire text. -/
theorem exists_encode {e : Evidence} (h : e.Portable) : ∃ text, e.encode = .ok text := by
  obtain ⟨payload, hpayload, hwritable⟩ := exists_writePayload h
  exact ⟨_, encode_eq_ok.2 ⟨payload, hpayload, hwritable, rfl⟩⟩

/-- The wire text of evidence is read as the evidence. -/
theorem decode_encode {e : Evidence} {text : String} (h : e.encode = .ok text) :
    decode text = .ok e := by
  obtain ⟨payload, hpayload, hwritable, rfl⟩ := encode_eq_ok.1 h
  obtain ⟨hlegible, hread⟩ := readBack_writePayload hpayload
  have hparse := Json.parse_render (legible_envelopeMembers e.kind hlegible)
    (writable_envelopeMembers_iff.2 hwritable)
  refine bind_eq_ok.2 ⟨_, mapError_eq_ok.2 hparse, ?_⟩
  exact ofJson_envelopeMembers hlegible hread

theorem portable_of_decode {text : String} {e : Evidence} (h : decode text = .ok e) :
    e.Portable := by
  obtain ⟨json, hparse, hjson⟩ := bind_eq_ok.1 h
  exact portable_of_ofJson (Json.writable_of_parse (mapError_eq_ok.1 hparse)) hjson

theorem portable_of_decodeBytes {bytes : Bytes} {e : Evidence} (h : decodeBytes bytes = .ok e) :
    e.Portable := by
  obtain ⟨json, hparse, hjson⟩ := bind_eq_ok.1 h
  exact portable_of_ofJson (Json.writable_of_parseBytes (mapError_eq_ok.1 hparse)) hjson

/-- Evidence has a wire text just when its leaves and siblings are hashes, its slots are numbers of
eight bytes and no other number is too long, and the wire text is read as the evidence.  Whatever is
read from a text or from bytes is such evidence, so that it can be written again. -/
theorem wire_round_trip :
    (∀ e : Evidence, ((∃ text, e.encode = .ok text) ↔ e.Portable) ∧
      ∀ text, e.encode = .ok text → decode text = .ok e) ∧
    ∀ e : Evidence, ((∃ text, decode text = .ok e) ∨ ∃ bytes, decodeBytes bytes = .ok e) →
      e.Portable ∧ ∃ text, e.encode = .ok text := by
  constructor
  · intro e
    refine ⟨⟨?_, exists_encode⟩, fun text h => decode_encode h⟩
    rintro ⟨text, htext⟩
    exact portable_of_decode (decode_encode htext)
  · intro e h
    have hportable : e.Portable := by
      rcases h with ⟨text, htext⟩ | ⟨bytes, hbytes⟩
      · exact portable_of_decode htext
      · exact portable_of_decodeBytes hbytes
    exact ⟨hportable, exists_encode hportable⟩

/-- Evidence that an account was not touched in the slot 7, whose absence is shown by two
neighbours. -/
def sample : Evidence :=
  .compoundCompleteness
    { targetSlot := 7
      bank := ⟨.zero, .zero, 0, .zero⟩
      slotExhibit := ⟨7, ⟨[⟨7, .zero⟩, ⟨5, .zero⟩], by decide, trivial⟩⟩
      exhibit := .absence (.inner ⟨Bytes32.zero.bytes, [⟨[Bytes32.zero.bytes], 0⟩]⟩
        ⟨Bytes32.zero.bytes, [⟨[Bytes32.zero.bytes], 1⟩]⟩) }

theorem sample_portable : sample.Portable where
  hasAbsence := ⟨_, rfl⟩
  hashes_fit := by decide
  slots_fit := by decide
  indices_fit := by decide

/-- The sample has a wire text, from which it is read. -/
theorem sample_wire_round_trip :
    ∃ text, sample.encode = .ok text ∧ decode text = .ok sample ∧ sample.Portable := by
  obtain ⟨text, htext⟩ := (wire_round_trip.1 sample).1.2 sample_portable
  have hread := (wire_round_trip.1 sample).2 text htext
  exact ⟨text, htext, hread, (wire_round_trip.2 sample (.inl ⟨text, hread⟩)).1⟩

end Evidence

end SlotEvidence
