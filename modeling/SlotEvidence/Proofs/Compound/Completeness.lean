/-
Module: SlotEvidence.Proofs.Compound.Completeness
Purpose: Accepted evidence that an account was not touched in a slot: its bank hash is the one of
  the trusted history, so that its parts are those of the bank, and the account is no leaf of the
  tree that the bank commits to.
Trusted boundary: none
Main exports: CompoundCompleteness.verify_eq, CompoundCompleteness.verify_settles,
  CompoundCompleteness.verify_ok_iff, CompoundCompleteness.verify_passes,
  CompoundCompleteness.accepted_binds_bank_and_absence
-/
import SlotEvidence.Compound.Completeness
import SlotEvidence.Proofs.Compound.Pipeline
import SlotEvidence.Proofs.History.Decision
import SlotEvidence.Proofs.Tree.Exclusion

namespace SlotEvidence

namespace Exhibit

/-- The byte strings that are hashed for groups when what is submitted is verified. -/
def groups (s : Settings) : Exhibit → List Bytes
  | .absence a => a.groups s
  | .path _ => []

/-- Only evidence of absence is accepted. -/
theorem exists_absence_of_accepted {s : Settings} {e : Exhibit} {candidate expectedRoot : Bytes}
    (h : (e.verify s candidate expectedRoot).ok = true) :
    ∃ a, e = .absence a ∧ (a.verify s candidate expectedRoot).ok = true := by
  cases e with
  | absence a => exact ⟨a, rfl, h⟩
  | path p =>
      simp only [verify] at h
      split at h <;> cases h

/-- The places that are given on the paths of what is submitted.  The path of a leaf is not looked
at. -/
def places : Exhibit → List Int
  | .absence a => a.places
  | .path _ => []

theorem verify_settles (s : Settings) (e : Exhibit) (candidate expectedRoot : Bytes) :
    (e.verify s candidate expectedRoot).Settles (Verdict.Staged [Absence.checkName]) e.places := by
  cases e with
  | absence a => exact a.verify_settles candidate expectedRoot
  | path p =>
      rw [verify]
      split
      · exact Absence.Objection.ruling_settles nofun
      · exact Absence.Objection.ruling_settles nofun

end Exhibit

namespace CompoundCompleteness

section Stages

variable {s : Settings} {c : CompoundCompleteness} {candidate blockhash : Bytes} {trusted : History}

/-- The integers of the evidence that a message may show: its slots and the places on its paths. -/
def integers (c : CompoundCompleteness) : List Int :=
  c.targetSlot :: c.slotExhibit.slot :: c.exhibit.places

/-- The stages after the bank hash is known. -/
def laterRulings (s : Settings) (c : CompoundCompleteness) (candidate : Bytes) (trusted : History)
    (known : Bytes32) : List Ruling :=
  [c.exhibit.verify s candidate c.bank.accountsDelta.bytes,
   c.slotExhibit.verify s c.targetSlot known.bytes trusted]

/-- For a slot that has a text, the evidence is decided by its stages in a row. -/
theorem verify_eq (h : Text.Writable c.targetSlot) :
    c.verify s candidate blockhash trusted =
      Ruling.stages [] (Pipeline.anchorRulings s c.bank blockhash trusted c.targetSlot
        (c.laterRulings s candidate trusted)) := by
  have hanchored := Pipeline.anchor_eq_stages (p := { kind := kind, slot := c.targetSlot }) h s
    c.bank blockhash trusted (c.laterRulings s candidate trusted)
  refine Eq.trans ?_ hanchored
  unfold verify run
  dsimp only
  rcases hanchor : Pipeline.anchor { kind := kind, slot := c.targetSlot } s c.bank blockhash trusted
    with refusal | ⟨q, rejection | bankHash⟩
  · rfl
  · rfl
  · have hslot : q.slot = c.targetSlot := Pipeline.slot_of_anchor h hanchor
    exact Pipeline.finish_eq_stages (hslot.symm ▸ h) _

/-- For a slot without a text no verdict is reached. -/
theorem verify_of_not_writable (h : ¬ Text.Writable c.targetSlot) :
    c.verify s candidate blockhash trusted = Except.error ⟨c.targetSlot, h⟩ := by
  have hanchor : Pipeline.anchor { kind := kind, slot := c.targetSlot } s c.bank blockhash trusted =
      .error ⟨c.targetSlot, h⟩ := Pipeline.anchor_of_not_writable h
  unfold verify run
  simp only [hanchor]
  rfl

/-- The names of the checks of all stages. -/
def checkNames : List String :=
  [Bank.blockhashCheckName, Bank.checkName, Absence.checkName, History.checkName]

/-- The evidence passes its stages, or one of them rejects after the checks of those before it; only
for want of a text there may be no verdict. -/
theorem verify_settles (s : Settings) (c : CompoundCompleteness) (candidate blockhash : Bytes)
    (trusted : History) :
    (c.verify s candidate blockhash trusted).Settles (Verdict.Staged checkNames) c.integers := by
  by_cases hslot : Text.Writable c.targetSlot
  swap
  · rw [verify_of_not_writable hslot]
    exact .refused List.mem_cons_self
  rw [verify_eq hslot]
  refine Pipeline.anchorRulings_settles (List.forall_mem_nil _) List.mem_cons_self fun known =>
    .cons ((c.exhibit.verify_settles s _ _).mono ?_)
      (.cons ((c.slotExhibit.verify_settles s _ _ _).mono ?_) .nil)
  · exact fun _ hn => List.mem_cons_of_mem _ (List.mem_cons_of_mem _ hn)
  · simp [integers]

/-- The evidence is accepted just when the parts of the bank hash make the trusted hash and are
those of the given block, the candidate is absent from the tree with the root among these parts,
and the history offered agrees with the trusted one. -/
theorem verify_ok_iff :
    (c.verify s candidate blockhash trusted).ok = true ↔
      trusted.Records c.targetSlot (c.bank.hash s) ∧ c.bank.blockhash.bytes = blockhash ∧
        (c.exhibit.verify s candidate c.bank.accountsDelta.bytes).ok = true ∧
        (c.slotExhibit.verify s c.targetSlot (c.bank.hash s).bytes trusted).ok = true := by
  by_cases hslot : Text.Writable c.targetSlot
  · rw [verify_eq hslot, Pipeline.anchorRulings_ok_iff]
    simp only [laterRulings, List.forall_mem_cons, List.not_mem_nil, false_implies, implies_true,
      and_true]
  · rw [verify_of_not_writable hslot]
    constructor
    · intro h
      cases h
    · rintro ⟨hrecorded, -⟩
      exact absurd hrecorded.writable hslot

/-- Accepted evidence lists the checks of all its stages. -/
theorem verify_passes (h : (c.verify s candidate blockhash trusted).ok = true) :
    (c.verify s candidate blockhash trusted).Passes checkNames :=
  (verify_settles s c candidate blockhash trusted).passes h

end Stages

/-- Where the trusted history records the hash of a bank for the slot, and the bank commits to the
root of a tree, accepted evidence has the parts of this bank, is for its block, and is for a hash
that is no leaf, unless the hash function is broken by what was hashed for the tree, the bank and
the evidence. -/
theorem accepted_binds_bank_and_absence {s : Settings} {leaves : List Bytes} {t : Tree}
    (hbuild : Tree.build s leaves = .ok t) {bank : Bank} (hroot : bank.accountsDelta = t.root)
    {trusted : History} {c : CompoundCompleteness}
    (htrusted : trusted.Records c.targetSlot (bank.hash s)) {candidate blockhash : Bytes}
    (hok : (c.verify s candidate blockhash trusted).ok = true) :
    (c.bank = bank ∧ blockhash = bank.blockhash.bytes ∧ candidate ∉ leaves) ∨
    HashBreak s (t.groups ++ c.exhibit.groups s) [[], bank.preimage, c.bank.preimage] := by
  obtain ⟨rfl, rfl⟩ := Tree.build_ok hbuild
  by_cases hsafe : HashBreak t.settings (t.groups ++ c.exhibit.groups t.settings)
      [[], bank.preimage, c.bank.preimage]
  · exact .inr hsafe
  · left
    rcases verify_ok_iff.1 hok with ⟨hrecorded, hblockhash, hexhibit, -⟩
    have hbank : c.bank = bank :=
      Bank.eq_of_hash_eq hsafe (by simp) (by simp) (hrecorded.unique htrusted)
    rw [hbank] at hblockhash hexhibit
    obtain ⟨a, ha, habsence⟩ := Exhibit.exists_absence_of_accepted hexhibit
    rw [hroot] at habsence
    have hgroups : a.groups t.settings ⊆ t.groups ++ c.exhibit.groups t.settings := by
      rw [ha]
      exact List.subset_append_right _ _
    obtain ⟨honest, hprove, -⟩ := t.exists_honest_of_accepted hsafe (List.subset_append_left _ _)
      (by simp) hgroups habsence
    exact ⟨hbank, hblockhash.symm, t.not_mem_of_proveExclusion hprove⟩

/-- The bank of a block without signatures that commits to the root of a small tree. -/
def sampleBank : Bank := ⟨.zero, Tree.sample.root, 0, .zero⟩

/-- A history of one slot. -/
def sampleHistory : History := ⟨[⟨7, sampleBank.hash Tree.sample.settings⟩], trivial⟩

/-- Evidence that the hash between two leaves of the small tree was not touched in this slot. -/
def sample : CompoundCompleteness where
  targetSlot := 7
  bank := sampleBank
  slotExhibit := ⟨7, sampleHistory⟩
  exhibit := .absence (.inner (Tree.sample.path (Tree.uniform 2) 1)
    (Tree.sample.path (Tree.uniform 4) 2))

theorem sampleHistory_records :
    sampleHistory.Records 7 (sampleBank.hash Tree.sample.settings) :=
  ⟨_, List.mem_singleton.2 rfl, rfl, rfl⟩

/-- The sample is accepted: the candidate lies between two leaves that are neighbours. -/
theorem sample_ok : (sample.verify Tree.sample.settings (Tree.uniform 3).bytes Bytes32.zero.bytes
    sampleHistory).ok = true := by
  apply verify_ok_iff.2
  refine ⟨sampleHistory_records, rfl, ?_, ?_⟩
  · exact Tree.sample.verify_inner (Tree.uniform 3).length_bytes rfl rfl rfl rfl
  · apply SlotExhibit.verify_ok_iff.2
    refine ⟨rfl, by decide, sampleHistory_records, sampleHistory_records, ?_⟩
    intro _ _ _ hgiven hknown
    exact hknown.unique hgiven

/-- What the evidence about the small tree tells. -/
theorem sample_binds_bank_and_absence :
    Tree.build Tree.sample.settings (Tree.sample.leaves.map (·.bytes)) = .ok Tree.sample ∧
      sampleBank.accountsDelta = Tree.sample.root ∧
      sampleHistory.Records sample.targetSlot (sampleBank.hash Tree.sample.settings) ∧
      (sample.verify Tree.sample.settings (Tree.uniform 3).bytes Bytes32.zero.bytes
        sampleHistory).ok = true ∧
      ((sample.bank = sampleBank ∧ Bytes32.zero.bytes = sampleBank.blockhash.bytes ∧
        (Tree.uniform 3).bytes ∉ Tree.sample.leaves.map (·.bytes)) ∨
      HashBreak Tree.sample.settings (Tree.sample.groups ++ sample.exhibit.groups
        Tree.sample.settings) [[], sampleBank.preimage, sample.bank.preimage]) :=
  ⟨Tree.build_leaves Tree.sample, rfl, sampleHistory_records, sample_ok,
    accepted_binds_bank_and_absence (Tree.build_leaves Tree.sample) rfl sampleHistory_records
      sample_ok⟩

end CompoundCompleteness

end SlotEvidence
