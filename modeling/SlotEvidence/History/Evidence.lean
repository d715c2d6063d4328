/-
Module: SlotEvidence.History.Evidence
Purpose: A slot history as evidence for the bank hash of a slot, and its verification against a
  history that is trusted.
Specification: SPEC_FULL 7.4, SlotHashProof (`verify_slot_hash`, `trusted_bank_hash`)
Trusted boundary: none
Main exports: SlotExhibit, SlotExhibit.verify, History.notFound, History.trustedHash
-/
import SlotEvidence.History

namespace SlotEvidence

namespace History

/-- Which history a slot was looked up in. -/
inductive Source where
  /-- The history that came as evidence. -/
  | proof
  /-- The history of the verifier. -/
  | trusted
deriving DecidableEq

def Source.name : Source → String
  | .proof => "proof"
  | .trusted => "trusted"

/-- Where a slot lies that a history does not hold. -/
inductive Gap where
  | emptyHistory
  | olderThanWindow
  | newerThanHead
  | skippedSlot
deriving DecidableEq

def Gap.name : Gap → String
  | .emptyHistory => "empty_history"
  | .olderThanWindow => "older_than_window"
  | .newerThanHead => "newer_than_head"
  | .skippedSlot => "skipped_slot"

/-- Where a slot lies relative to the entries of a history. -/
def gap (h : History) (slot : Int) : Gap :=
  match h.oldest?, h.newest? with
  | some oldest, some newest =>
      if slot < oldest then .olderThanWindow
      else if (newest : Int) < slot then .newerThanHead
      else .skippedSlot
  | _, _ => .emptyHistory

def checkName : String := "slot_history"

/-- A slot, or null, as a value. -/
def slotValue (slot : Option Nat) : Value := (slot.map fun n => Value.int n).getD .null

/-- What is said of a slot that a history, named in the given way, does not hold. -/
def notFoundMessage (h : History) (slot : Int) (source : String) : Except Text.Overlong String :=
  return "Slot " ++ (← Text.decimal slot) ++ " is not in the " ++ source ++ " slot history ("
    ++ (h.gap slot).name ++ ")"

def notFoundDetails (h : History) (slot : Int) (source : String) : Members Value :=
  [("slot", .int slot), ("position", .text (h.gap slot).name), ("source", .text source),
   ("oldest_slot", slotValue h.oldest?), ("newest_slot", slotValue h.newest?)]

/-- The rejection because a history, named in the given way, does not hold a slot. -/
def notFoundIn (h : History) (slot : Int) (source : String) : Ruling :=
  .rejected .slotHistory Code.slotNotFound (h.notFoundMessage slot source)
    (h.notFoundDetails slot source) checkName

def notFound (h : History) (slot : Int) (source : Source) : Ruling :=
  h.notFoundIn slot source.name

/-- The bank hash that a trusted history records for a slot, or the rejection, `trusted_bank_hash`
[SPEC_FULL 7.4]. -/
def trustedHash (trusted : History) (slot : Int) :
    Except Text.Overlong (Except Verdict Bytes32) :=
  match trusted.get? slot with
  | some hash => return .ok hash
  | none => return .error (← trusted.notFound slot .trusted)

end History

/-- A history offered as evidence for one slot. -/
structure SlotExhibit where
  slot : Int
  history : History
deriving DecidableEq

namespace SlotExhibit

/-- Why a history is no evidence. -/
inductive Objection where
  | otherSlot (given wanted : Int)
  | tooLong (size window : Nat)
  | missing (slot : Int) (history : History)
  | otherHash (slot : Int) (expected recorded : Bytes)
  | untrusted (slot : Int) (trusted : History)
  | otherTrustedHash (slot : Int) (expected recorded : Bytes)
  | disagreement (slot : Nat) (expected recorded : Bytes)
deriving DecidableEq

namespace Objection

def code : Objection → String
  | .otherSlot _ _ | .tooLong _ _ => Code.invalidProofShape
  | .missing _ _ | .untrusted _ _ => Code.slotNotFound
  | .otherHash _ _ _ | .otherTrustedHash _ _ _ | .disagreement _ _ _ => Code.hashMismatch

/-- What is said of an objection.  A slot that is given from outside may have no text; the slots of
a history have one, and so has a window that the number of entries exceeds. -/
def message : Objection → Except Text.Overlong String
  | .otherSlot given wanted =>
      return "Slot proof is for slot " ++ (← Text.decimal given) ++ ", expected "
        ++ (← Text.decimal wanted)
  | .tooLong size window => return s!"Slot history has {size} entries, window is {window}"
  | .missing slot history => history.notFoundMessage slot History.Source.proof.name
  | .otherHash slot _ _ =>
      return "Slot history records a different bank hash for slot " ++ (← Text.decimal slot)
  | .untrusted slot trusted => trusted.notFoundMessage slot History.Source.trusted.name
  | .otherTrustedHash slot _ _ =>
      return "Trusted slot history records a different bank hash for slot "
        ++ (← Text.decimal slot)
  | .disagreement slot _ _ =>
      return s!"Slot history disagrees with the trusted history at slot {slot}"

def details : Objection → Members Value
  | .otherSlot given wanted => [("proof_slot", .int given), ("slot", .int wanted)]
  | .tooLong size window => [("entries", .int size), ("history_window", .int window)]
  | .missing slot history => history.notFoundDetails slot History.Source.proof.name
  | .untrusted slot trusted => trusted.notFoundDetails slot History.Source.trusted.name
  | .otherHash slot expected recorded | .otherTrustedHash slot expected recorded =>
      [("slot", .int slot), ("expected", .text (Hex.encode expected)),
       ("recorded", .text (Hex.encode recorded))]
  | .disagreement slot expected recorded =>
      [("slot", .int slot), ("expected", .text (Hex.encode expected)),
       ("recorded", .text (Hex.encode recorded))]

/-- The rejection for an objection. -/
def ruling (o : Objection) : Ruling :=
  .rejected .slotHistory o.code o.message o.details History.checkName

end Objection

/-- The objection to the first entry that the trusted history has with another hash. -/
def disagreement? (trusted : History) : List SlotEntry → Option Objection
  | [] => none
  | e :: rest =>
      match History.held e.slot trusted.entries with
      | some known =>
          if known = e.hash then disagreement? trusted rest
          else some (.disagreement e.slot.toNat known.bytes e.hash.bytes)
      | none => disagreement? trusted rest

/-- The objection to evidence for the bank hash of a slot, which is the first one in a fixed
order. -/
def objection? (s : Settings) (e : SlotExhibit) (slot : Int) (bankHash : Bytes)
    (trusted : History) : Option Objection :=
  if e.slot ≠ slot then some (.otherSlot e.slot slot)
  else if s.historyWindow < e.history.size then some (.tooLong e.history.size s.historyWindow)
  else
    match e.history.get? slot with
    | none => some (.missing slot e.history)
    | some recorded =>
        if recorded.bytes ≠ bankHash then some (.otherHash slot bankHash recorded.bytes)
        else
          match trusted.get? slot with
          | none => some (.untrusted slot trusted)
          | some known =>
              if known.bytes ≠ bankHash then some (.otherTrustedHash slot known.bytes bankHash)
              else disagreement? trusted e.history.entries

/-- Checks that the history records the bank hash for the slot and agrees with a trusted one,
`verify_slot_hash` [SPEC_FULL 7.4]. -/
def verify (s : Settings) (e : SlotExhibit) (slot : Int) (bankHash : Bytes) (trusted : History) :
    Ruling :=
  match e.objection? s slot bankHash trusted with
  | some o => o.ruling
  | none =>
      return .accepted [.passed History.checkName (some .slotHistory)
        ("Slot " ++ (← Text.decimal slot) ++ " and its bank hash are in the trusted slot history")
        [("slot", .int slot), ("bank_hash", .text (Hex.encode bankHash))]]

end SlotExhibit

end SlotEvidence
