/-
Module: SlotEvidence.Proofs.Wire.Refusal
Purpose: When a text or bytes are refused as a wire text, and with which fault: the source is no
  JSON, its JSON value is no envelope, the version cannot be read, the payload does not fit its
  schema, or it fits and makes no evidence.  All of them are reported alike, but the version has a
  code of its own.
Trusted boundary: none
Main exports: Wire.IsEnvelope, Wire.Refused, Wire.Source.Refused, Wire.Source.Unsupported,
  Wire.Source.refusals_of_decode
-/
import SlotEvidence.Proofs.Wire.Documented.Envelope
import SlotEvidence.Proofs.Wire.Misfit

namespace SlotEvidence

namespace Wire

open Schema Json

/-! ### Envelopes

An envelope is opened before its version is looked at, and its version before the payload. -/

/-- The members of an envelope.  Without a version it has the current one. -/
structure IsEnvelope (members : Members Json) (version : String) (kind : EvidenceKind)
    (payload : Members Json) : Prop where
  known : ∀ name ∈ members.names, name ∈ ["format_version", "kind", "payload"]
  version : members.get? "format_version" = some (.text version) ∨
    members.get? "format_version" = none ∧ version = formatVersion
  kind : members.get? "kind" = some (.text kind.name)
  payload : members.get? "payload" = some (.object payload)

/-- An optional member is read from the member of its name, or as its standard value if there is
none. -/
theorem optional_memberValues {α : Type} {members : Members Json} {name : String} {absent : α}
    {read : Value → Checked α} {a : α} :
    optional (memberValues members) name absent read = .ok a ↔
      (∃ value, members.get? name = some value ∧ read value.toValue = .ok a) ∨
        members.get? name = none ∧ a = absent := by
  rw [Schema.optional, member?_memberValues]
  cases members.get? name with
  | none => simp [eq_comm]
  | some value => simp [within_eq_ok]

theorem exists_object_of_mapping {json : Json} {values : Members Value}
    (h : mapping json.toValue = .ok values) : ∃ members, json = .object members := by
  cases json with
  | object members => exact ⟨members, rfl⟩
  | null | bool | int | float | text | array => cases h

/-- What is read as an envelope is one. -/
theorem exists_isEnvelope {json : Json} {envelope : Envelope} (hdistinct : json.DistinctNames)
    (h : readEnvelope json.toValue = .ok envelope) :
    ∃ members payload, json = .object members ∧
      IsEnvelope members envelope.version envelope.kind payload ∧
      Value.ofMembers envelope.payload = (Json.object payload).toValue := by
  obtain ⟨members, rfl, hknown, hfields⟩ := exists_members h
  simp only [map_eq_ok, both_eq_ok] at hfields
  obtain ⟨⟨version, kind, values⟩, ⟨hversion, hkind, hvalues⟩, rfl⟩ := hfields
  obtain ⟨name, hname, hlisted⟩ := required_memberValues.1 hkind
  obtain ⟨value, hvalue, hmapping⟩ := required_memberValues.1 hvalues
  obtain ⟨payload, rfl⟩ := exists_object_of_mapping hmapping
  have hpayload : (Json.object payload).DistinctNames := by
    cases hdistinct with
    | object _ h => exact h _ (Members.mem_of_get?_eq_some hvalue)
  refine ⟨members, payload, rfl, ⟨hknown, ?_, ?_, hvalue⟩, ofMembers_of_mapping hpayload hmapping⟩
  · rcases optional_memberValues.1 hversion with ⟨given, hgiven, htext⟩ | habsent
    · rw [hgiven, eq_text_of_text htext]
      exact .inl rfl
    · exact .inr habsent
  · rw [hname, eq_text_of_listed hlisted]

/-- Whatever is in the form of an envelope is opened, and its payload is kept. -/
theorem readEnvelope_of_isEnvelope {members payload : Members Json} {version : String}
    {kind : EvidenceKind} (hdistinct : (Json.object members).DistinctNames)
    (h : IsEnvelope members version kind payload) :
    ∃ values, readEnvelope (Json.object members).toValue = .ok ⟨version, kind, values⟩ ∧
      Value.ofMembers values = (Json.object payload).toValue := by
  have hpayload : (Json.object payload).DistinctNames := by
    cases hdistinct with
    | object _ hmembers => exact hmembers _ (Members.mem_of_get?_eq_some h.payload)
  obtain ⟨values, hmapping⟩ : ∃ values, mapping (Json.object payload).toValue = .ok values := by
    rw [toValue, memberValues_eq_map, mapping, textKeys_map]
    exact ⟨_, rfl⟩
  refine ⟨values, ?_, ofMembers_of_mapping hpayload hmapping⟩
  have hversion : optional (memberValues members) "format_version" formatVersion text =
      .ok version := by
    rcases h.version with hgiven | habsent
    · exact optional_memberValues.2 (.inl ⟨_, hgiven, rfl⟩)
    · exact optional_memberValues.2 (.inr habsent)
  refine bind_eq_ok.2 ⟨_, rfl, closed_memberValues.2 ⟨?_, h.known⟩⟩
  rw [hversion, required_memberValues.2 ⟨_, h.kind, listed_name kind⟩,
    required_memberValues.2 ⟨_, h.payload, hmapping⟩]
  rfl

theorem checkVersion_eq_ok {version : String} :
    checkVersion version = .ok () ↔ version ∈ supportedVersions := by
  rw [checkVersion]
  split <;> simp [*]

/-- A version is refused just when it is not supported. -/
theorem checkVersion_eq_error {version : String} {refusal : UnsupportedVersion} :
    checkVersion version = .error refusal ↔
      version ∉ supportedVersions ∧ refusal = .amongst version [] := by
  rw [checkVersion]
  split <;> simp [*, eq_comm]

/-! ### JSON values

The faults in the order of these layers. -/

/-- The faults with which a JSON value is refused. -/
inductive Refused (json : Json) : ReadFault → Prop
  | envelope {defects : List Defect} (hread : readEnvelope json.toValue = .error defects) :
      Refused json (.envelope defects)
  | version {members payload : Members Json} {version : String} {kind : EvidenceKind}
      (hjson : json = .object members) (henvelope : IsEnvelope members version kind payload)
      (hversion : version ∉ supportedVersions) :
      Refused json (.version (.amongst version []))
  | payload {members payload : Members Json} {version : String} {kind : EvidenceKind}
      {defects : List Defect}
      (hjson : json = .object members) (henvelope : IsEnvelope members version kind payload)
      (hversion : version ∈ supportedVersions)
      (hread : readPayload kind (Json.object payload).toValue = .error defects) :
      Refused json (.payload kind defects)
  | misfit {members payload : Members Json} {version : String} {kind : EvidenceKind}
      {reason : Misfit}
      (hjson : json = .object members) (henvelope : IsEnvelope members version kind payload)
      (hversion : version ∈ supportedVersions)
      (hread : readPayload kind (Json.object payload).toValue = .ok (.error reason))
      (hoccurs : reason.Occurs) :
      Refused json (.misfit kind reason)

/-- A fault in reading a value is that of the first layer which refuses it. -/
theorem refused_of_ofJson {json : Json} {fault : ReadFault} (hdistinct : json.DistinctNames)
    (h : ofJson json = .error fault) : Refused json fault := by
  simp only [ofJson, bind_eq_error, mapError_eq_error, mapError_eq_ok] at h
  rcases h with ⟨defects, hread, rfl⟩ | ⟨envelope, hread, h⟩
  · exact .envelope hread
  obtain ⟨members, payload, hjson, henvelope, hpayload⟩ := exists_isEnvelope hdistinct hread
  rw [hpayload] at h
  rcases h with ⟨refusal, hrefusal, rfl⟩ | ⟨_, hversion, h⟩
  · obtain ⟨hversion, rfl⟩ := checkVersion_eq_error.1 hrefusal
    exact .version hjson henvelope hversion
  have hversion := checkVersion_eq_ok.1 hversion
  rcases h with ⟨defects, hdefects, rfl⟩ | ⟨made, hmade, reason, rfl, rfl⟩
  · exact .payload hjson henvelope hversion hdefects
  · exact .misfit hjson henvelope hversion hmade (tame_readPayload _ _ _ hmade reason rfl)

/-- Conversely, the first layer that refuses a value decides the fault. -/
theorem ofJson_of_refused {json : Json} {fault : ReadFault} (hdistinct : json.DistinctNames)
    (h : Refused json fault) : ofJson json = .error fault := by
  simp only [ofJson, bind_eq_error, mapError_eq_error, mapError_eq_ok]
  cases h with
  | envelope hread => exact .inl ⟨_, hread, rfl⟩
  | version hjson henvelope hversion =>
      subst hjson
      obtain ⟨values, hread, -⟩ := readEnvelope_of_isEnvelope hdistinct henvelope
      exact .inr ⟨_, hread, .inl ⟨_, checkVersion_eq_error.2 ⟨hversion, rfl⟩, rfl⟩⟩
  | payload hjson henvelope hversion hdefects =>
      subst hjson
      obtain ⟨values, hread, hvalues⟩ := readEnvelope_of_isEnvelope hdistinct henvelope
      rw [← hvalues] at hdefects
      exact .inr ⟨_, hread, .inr ⟨(), checkVersion_eq_ok.2 hversion, .inl ⟨_, hdefects, rfl⟩⟩⟩
  | misfit hjson henvelope hversion hmade _ =>
      subst hjson
      obtain ⟨values, hread, hvalues⟩ := readEnvelope_of_isEnvelope hdistinct henvelope
      rw [← hvalues] at hmade
      exact .inr ⟨_, hread,
        .inr ⟨(), checkVersion_eq_ok.2 hversion, .inr ⟨_, hmade, _, rfl, rfl⟩⟩⟩

/-! ### Sources

Only the version has a code of its own.  All that goes wrong before or after has the other one. -/

/-- Only the refusal of a version has a code of its own. -/
theorem ReadFault.code_eq_unsupportedFormatVersion_iff {fault : ReadFault} :
    fault.report.code = Code.unsupportedFormatVersion ↔ ∃ refusal, fault = .version refusal := by
  cases fault with
  | version refusal => exact ⟨fun _ => ⟨refusal, rfl⟩, fun _ => rfl⟩
  | notJson | envelope | payload | misfit =>
      refine ⟨fun h => ?_, fun ⟨_, h⟩ => by cases h⟩
      exact absurd (show Code.wireDecodeError = Code.unsupportedFormatVersion from h) (by decide)

/-- There are only the two codes. -/
theorem ReadFault.code_eq_wireDecodeError_iff {fault : ReadFault} :
    fault.report.code = Code.wireDecodeError ↔
      fault.report.code ≠ Code.unsupportedFormatVersion := by
  cases fault with
  | version refusal =>
      refine ⟨fun h => ?_, fun h => absurd rfl h⟩
      exact absurd (show Code.unsupportedFormatVersion = Code.wireDecodeError from h) (by decide)
  | notJson | envelope | payload | misfit =>
      exact ⟨fun _ => show Code.wireDecodeError ≠ Code.unsupportedFormatVersion by decide,
        fun _ => rfl⟩

namespace Source

/-- The faults with which a source is refused. -/
inductive Refused (source : Source) : ReadFault → Prop
  | notJson {error : ReadError} (hparse : source.parse = .error error) :
      Refused source (.notJson error)
  | json {json : Json} {fault : ReadFault} (hparse : source.parse = .ok json)
      (hrefused : Wire.Refused json fault) : Refused source fault

/-- The source is the JSON text of an envelope with a version that cannot be read, whatever its
payload holds. -/
def Unsupported (source : Source) : Prop :=
  ∃ members version kind payload, source.parse = .ok (.object members) ∧
    IsEnvelope members version kind payload ∧ version ∉ supportedVersions

/-- Reading ends with a fault in the text or in the value that it stands for. -/
theorem decode_eq_error {source : Source} {fault : ReadFault} :
    source.decode = .error fault ↔
      (∃ error, source.parse = .error error ∧ .notJson error = fault) ∨
        ∃ json, source.parse = .ok json ∧ ofJson json = .error fault := by
  cases source with
  | text s =>
      simp only [decode, Evidence.decode, parse, bind_eq_error, mapError_eq_error, mapError_eq_ok]
      simp
  | bytes b =>
      simp only [decode, Evidence.decodeBytes, parse, bind_eq_error, mapError_eq_error,
        mapError_eq_ok]

/-- A source is refused with just the faults that are listed. -/
theorem decode_eq_error_iff {source : Source} {fault : ReadFault} :
    source.decode = .error fault ↔ source.Refused fault := by
  rw [decode_eq_error]
  constructor
  · rintro (⟨error, hparse, rfl⟩ | ⟨json, hparse, hjson⟩)
    · exact .notJson hparse
    · exact .json hparse (refused_of_ofJson (distinctNames_of_parse hparse) hjson)
  · rintro (hparse | ⟨hparse, hrefused⟩)
    · exact .inl ⟨_, hparse, rfl⟩
    · exact .inr ⟨_, hparse, ofJson_of_refused (distinctNames_of_parse hparse) hrefused⟩

/-- A text is unsupported just when it is refused for its version. -/
theorem unsupported_iff {source : Source} :
    source.Unsupported ↔ ∃ refusal, source.decode = .error (.version refusal) := by
  simp only [decode_eq_error_iff]
  constructor
  · rintro ⟨members, version, kind, payload, hparse, henvelope, hversion⟩
    exact ⟨_, .json hparse (.version rfl henvelope hversion)⟩
  · rintro ⟨refusal, hrefused⟩
    cases hrefused with
    | json hparse hrefused =>
        cases hrefused with
        | version hjson henvelope hversion =>
            subst hjson
            exact ⟨_, _, _, _, hparse, henvelope, hversion⟩

/-- The code of an unsupported version is given to nothing else. -/
theorem exists_unsupportedFormatVersion_iff {source : Source} :
    (∃ fault, source.decode = .error fault ∧
      fault.report.code = Code.unsupportedFormatVersion) ↔ source.Unsupported := by
  rw [unsupported_iff]
  constructor
  · rintro ⟨fault, hdecode, hcode⟩
    obtain ⟨refusal, rfl⟩ := ReadFault.code_eq_unsupportedFormatVersion_iff.1 hcode
    exact ⟨refusal, hdecode⟩
  · rintro ⟨refusal, hdecode⟩
    exact ⟨_, hdecode, rfl⟩

/-- The general code is given to whatever else is refused. -/
theorem exists_wireDecodeError_iff {source : Source} :
    (∃ fault, source.decode = .error fault ∧ fault.report.code = Code.wireDecodeError) ↔
      (¬ ∃ e, source.decode = .ok e) ∧ ¬ source.Unsupported := by
  rw [← exists_unsupportedFormatVersion_iff]
  cases hdecode : source.decode with
  | ok e =>
      constructor
      · rintro ⟨fault, hfault, -⟩
        cases hfault
      · rintro ⟨hnone, -⟩
        exact absurd ⟨e, rfl⟩ hnone
  | error fault =>
      constructor
      · rintro ⟨_, ⟨⟩, hcode⟩
        refine ⟨?_, ?_⟩
        · rintro ⟨e, he⟩
          cases he
        · rintro ⟨_, ⟨⟩, hother⟩
          exact ReadFault.code_eq_wireDecodeError_iff.1 hcode hother
      · rintro ⟨-, hother⟩
        exact ⟨fault, rfl, ReadFault.code_eq_wireDecodeError_iff.2 fun hcode =>
          hother ⟨fault, rfl, hcode⟩⟩

/-- Evidence is read from a source, or the source is refused with a fault of the wire format.  The
fault has the code of an unsupported version just for envelopes of such a version, and the general
code for whatever else is refused. -/
theorem refusals_of_decode (source : Source) :
    (∀ fault, source.decode = .error fault ↔ source.Refused fault) ∧
      ((∃ e, source.decode = .ok e) ∨
        ∃ fault, source.decode = .error fault ∧ fault.report.kind = .wire ∧
          (fault.report.code = Code.unsupportedFormatVersion ∨
            fault.report.code = Code.wireDecodeError)) ∧
      ((∃ fault, source.decode = .error fault ∧
          fault.report.code = Code.unsupportedFormatVersion) ↔ source.Unsupported) ∧
      ((∃ fault, source.decode = .error fault ∧ fault.report.code = Code.wireDecodeError) ↔
        (¬ ∃ e, source.decode = .ok e) ∧ ¬ source.Unsupported) := by
  refine ⟨fun fault => decode_eq_error_iff, ?_, exists_unsupportedFormatVersion_iff,
    exists_wireDecodeError_iff⟩
  cases hdecode : source.decode with
  | ok e => exact .inl ⟨e, rfl⟩
  | error fault =>
      refine .inr ⟨fault, rfl, rfl, ?_⟩
      rw [ReadFault.code_eq_wireDecodeError_iff]
      exact Decidable.em _

end Source

end Wire

end SlotEvidence
