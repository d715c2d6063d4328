/-
Module: SlotEvidence.Digest.Algorithm
Purpose: The choice of a hash function by name.
Specification: SPEC_FULL 4, `hash_algorithm`
Trusted boundary: the names under which the interpreter offers the three functions
Main exports: Digest.Algorithm, Digest.Algorithm.digest, Digest.Algorithm.ofName
-/
import SlotEvidence.Digest.Blake2s
import SlotEvidence.Digest.Sha256
import SlotEvidence.Digest.Sha3
import SlotEvidence.Text.Quoted

namespace SlotEvidence

namespace Digest

inductive Algorithm where
  | sha256
  | sha3_256
  | blake2s
deriving DecidableEq

namespace Algorithm

def name : Algorithm → String
  | .sha256 => "sha256"
  | .sha3_256 => "sha3_256"
  | .blake2s => "blake2s"

def all : List Algorithm := [.blake2s, .sha256, .sha3_256]

def ofName? (name : String) : Option Algorithm := all.find? (·.name == name)

@[simp] theorem ofName?_name (a : Algorithm) : ofName? a.name = some a := by
  cases a <;> rfl

/-- The hash of a byte string. -/
def digest : Algorithm → Bytes → Bytes32
  | .sha256 => Digest.sha256
  | .sha3_256 => Digest.sha3_256
  | .blake2s => Digest.blake2s

/-- The name of no hash function. -/
structure Unknown where
  name : String
deriving DecidableEq

def Unknown.message (u : Unknown) : String :=
  "Unsupported hash algorithm: " ++ Text.quote u.name ++ ". Supported: ["
    ++ ", ".intercalate (all.map fun a => Text.quote a.name) ++ "]"

/-- The hash function of a name, or the fault that there is none. -/
def ofName (name : String) : Except Unknown Algorithm :=
  match ofName? name with
  | some a => .ok a
  | none => .error ⟨name⟩

end Algorithm

end Digest

end SlotEvidence
