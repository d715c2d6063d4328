/-
Module: SlotEvidence.Wire.Version
Purpose: The versions of the wire format.
Specification: SPEC_FULL 8, the format version of an envelope
Trusted boundary: none
Main exports: Wire.formatVersion, Wire.supportedVersions, Wire.UnsupportedVersion
-/
import SlotEvidence.Text.Quoted

namespace SlotEvidence

namespace Wire

def formatVersion : String := "v1"

/-- The versions that can be read. -/
def supportedVersions : List String := [formatVersion]

/-- A version that is not among the supported ones. -/
structure UnsupportedVersion where
  version : String
  supported : List String
deriving DecidableEq

/-- The refusal of a version in favour of a set of others; an empty set stands for the versions
that can be read. -/
def UnsupportedVersion.amongst (version : String) (supported : List String) : UnsupportedVersion :=
  ⟨version, if supported = [] then supportedVersions else supported⟩

/-- The texts in order, each one once. -/
def sortedSet (texts : List String) : List String :=
  texts.eraseDups.mergeSort fun a b => !decide (b < a)

def UnsupportedVersion.message (u : UnsupportedVersion) : String :=
  "Unsupported proof format version: '" ++ u.version ++ "'. Supported versions: ["
    ++ ", ".intercalate ((sortedSet u.supported).map Text.quote) ++ "]"

/-- Refuses a version that cannot be read. -/
def checkVersion (version : String) : Except UnsupportedVersion Unit :=
  if version ∈ supportedVersions then .ok () else .error (.amongst version [])

end Wire

end SlotEvidence
