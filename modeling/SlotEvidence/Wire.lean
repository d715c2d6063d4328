/-
Module: SlotEvidence.Wire
Purpose: Wire texts: an envelope with the format version, the kind of evidence and its payload, in
  canonical JSON.
Specification: SPEC_FULL 8, `encode_proof`, `decode_proof` and `proof_cache_key`
Trusted boundary: none
Main exports: Evidence.encode, Evidence.decode, Evidence.decodeBytes, Evidence.cacheKey,
  Wire.Submission, Wire.ReadFault
-/
import SlotEvidence.Digest.Sha256
import SlotEvidence.Fault
import SlotEvidence.Json.Reader
import SlotEvidence.Wire.Version
import SlotEvidence.Wire.Writing

namespace SlotEvidence

namespace Wire

open Schema

/-- The envelope of evidence. -/
structure Envelope where
  version : String
  kind : EvidenceKind
  payload : Members Value

/-- Reads an envelope.  Without a version it has the current one. -/
def readEnvelope (value : Value) : Checked Envelope := do
  let entries ← recordEntries "ProofEnvelope" value
  closed ["format_version", "kind", "payload"] entries <|
    ((optional entries "format_version" formatVersion text).both
      ((required entries "kind" (listed EvidenceKind.all EvidenceKind.name)).both
        (required entries "payload" mapping))).map
      fun (version, kind, payload) => { version, kind, payload }

/-- Why a text is no wire text. -/
inductive ReadFault where
  | notJson (error : Json.ReadError)
  | envelope (defects : List Defect)
  | version (refusal : UnsupportedVersion)
  | payload (kind : EvidenceKind) (defects : List Defect)
  | misfit (kind : EvidenceKind) (reason : Misfit)
deriving DecidableEq

def stepValue : Step → Value
  | .name name => .text name
  | .index index => .int index

def defectValue (d : Defect) : Value :=
  .ofMembers
    [("type", .text d.cause.kind), ("loc", .list (d.location.map stepValue)),
     ("msg", .text d.cause.message)]

namespace ReadFault

def message : ReadFault → String
  | .notJson error => "Proof is not valid JSON: " ++ error.message
  | .envelope defects => s!"Invalid proof envelope: {defects.length} error(s)"
  | .version refusal => refusal.message
  | .payload kind defects =>
      "Invalid " ++ kind.name ++ " payload: " ++ toString defects.length ++ " error(s)"
  | .misfit kind reason => "Invalid " ++ kind.name ++ " payload: " ++ reason.message

def code : ReadFault → String
  | .version _ => Code.unsupportedFormatVersion
  | _ => Code.wireDecodeError

def details : ReadFault → Members Value
  | .notJson _ => []
  | .envelope defects => [("errors", .list (defects.map defectValue))]
  | .version refusal => [("format_version", .text refusal.version)]
  | .payload kind defects =>
      [("kind", .text kind.name), ("errors", .list (defects.map defectValue))]
  | .misfit kind _ => [("kind", .text kind.name)]

def report (f : ReadFault) : Fault := .wire f.message f.code f.details

end ReadFault

/-- What went wrong in writing: defects, or a fault in the form in which all faults are reported.
The refusal to write an integer is neither of them. -/
def WriteFault.report : WriteFault → Except Text.Overlong (List Defect ⊕ Fault)
  | .unfit defects => .ok (.inl defects)
  | .notAbsence => .ok (.inr (.wire "Not an exclusion proof: InclusionProof"))
  | .notEvidence typeName =>
      .ok (.inr (.wire ("Cannot encode object of type " ++ typeName) Code.wireDecodeError
        [("type", .text typeName)]))
  | .overlong refusal => .error refusal

/-- The evidence in a JSON value. -/
def ofJson (json : Json) : Except ReadFault Evidence := do
  let envelope ← (readEnvelope json.toValue).mapError .envelope
  (checkVersion envelope.version).mapError .version
  let made ← (readPayload envelope.kind (.ofMembers envelope.payload)).mapError
    (.payload envelope.kind)
  made.mapError (.misfit envelope.kind)

def toJson (e : Evidence) : Written Json :=
  (writePayload e).map fun payload =>
    .object
      [("format_version", .text formatVersion), ("kind", .text e.kind.name), ("payload", payload)]

end Wire

namespace Evidence

/-- The wire text of evidence, `encode_proof` [SPEC_FULL 8]. -/
def encode (e : Evidence) : Wire.Written String := do
  let json ← Wire.toJson e
  json.dump.mapError .overlong

/-- The evidence in a wire text, `decode_proof` [SPEC_FULL 8]. -/
def decode (text : String) : Except Wire.ReadFault Evidence := do
  let json ← (Json.parse text).mapError fun error => .notJson (.grammar error)
  Wire.ofJson json

/-- The evidence in the bytes of a wire text. -/
def decodeBytes (bytes : Bytes) : Except Wire.ReadFault Evidence := do
  let json ← (Json.parseBytes bytes).mapError .notJson
  Wire.ofJson json

/-- The SHA-256 hash of the wire text, `proof_cache_key` [SPEC_FULL 8]. -/
def cacheKey (e : Evidence) : Wire.Written Bytes32 :=
  e.encode.map fun text => Digest.sha256 text.toUTF8.toList

end Evidence

namespace Wire

/-- What may be handed in to be written. -/
inductive Submission where
  | evidence (e : Evidence)
  | other (value : Value)

/-- The wire text of what is handed in. -/
def Submission.encode : Submission → Written String
  | .evidence e => e.encode
  | .other value => .error (.notEvidence value.typeName)

end Wire

end SlotEvidence
