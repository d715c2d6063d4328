/-
Module: SlotEvidence.Proofs.Compound.Honest
Purpose: Compound evidence that is put together from honest parts is accepted: commitments to the
  blobs, paths and evidence of absence made by the tree, the bank that commits to its root, and a
  history that agrees with the trusted one.
Trusted boundary: none
Main exports: CompoundInclusion.Entry.MadeFrom, CompoundInclusion.exists_entries,
  CompoundInclusion.valid_of_madeFrom, honest_compound_evidence_accepted
-/
import SlotEvidence.Proofs.Compound.Completeness
import SlotEvidence.Proofs.Compound.Inclusion
import SlotEvidence.Proofs.Tree.Completeness

namespace SlotEvidence

namespace CompoundInclusion

/-- An entry is made from a blob at an address: it holds the commitment to the blob, and the path
that the tree makes for the leaf of its account. -/
structure Entry.MadeFrom (t : Tree) (address : Bytes32) (blob : Bytes) (entry : Entry) : Prop where
  blob_eq : BlobCommitment.ofBlob t.settings address.bytes blob = .ok entry.blob
  path_eq : t.proveInclusion (entry.blob.leaf t.settings).bytes = .ok entry.path

section Entries

variable {t : Tree} {address : Bytes32} {blob : Bytes} {entry : Entry}

/-- An entry that is made from a blob fits its address, and the blob if it is given. -/
theorem Entry.MadeFrom.fits (h : entry.MadeFrom t address blob) {blob? : Option Bytes}
    (hblob : ∀ given, blob? = some given → given = blob) :
    entry.Fits t.settings address.bytes blob? := by
  obtain ⟨haddress, hdigest, hsize⟩ := BlobCommitment.ofBlob_eq_ok_iff.1 h.blob_eq
  obtain ⟨hleaf, hok⟩ := t.accepted_of_proveInclusion h.path_eq
  refine ⟨haddress, ?_, hleaf, (Path.verify_ok_iff.1 hok).1⟩
  intro given hgiven
  rw [hblob given hgiven]
  exact BlobCommitment.verify_ok_iff.2 ⟨hdigest, hsize.symm⟩

theorem Entry.MadeFrom.root_eq (h : entry.MadeFrom t address blob) :
    entry.path.root t.settings = t.root.bytes :=
  (Path.verify_ok_iff.1 (t.accepted_of_proveInclusion h.path_eq).2).2

/-- An entry can be made from a blob whose account is a leaf of the tree. -/
theorem exists_entry (hne : blob ≠ []) (hsize : blob.length < UInt32.size)
    (hleaf : ∀ c, BlobCommitment.ofBlob t.settings address.bytes blob = .ok c →
      (c.leaf t.settings).bytes ∈ t.leaves.map (·.bytes)) :
    ∃ entry : Entry, entry.MadeFrom t address blob := by
  obtain ⟨c, hc⟩ := BlobCommitment.exists_ofBlob address hne hsize
  obtain ⟨p, hp, -⟩ := t.exists_accepted_path (hleaf c hc)
  exact ⟨⟨c, p⟩, hc, hp⟩

/-- Entries can be made from blobs whose accounts are leaves of the tree. -/
theorem exists_entries {blobs : List (Bytes32 × Bytes)}
    (h : ∀ x ∈ blobs, x.2 ≠ [] ∧ x.2.length < UInt32.size ∧
      ∀ c, BlobCommitment.ofBlob t.settings x.1.bytes x.2 = .ok c →
        (c.leaf t.settings).bytes ∈ t.leaves.map (·.bytes)) :
    ∃ entries : List Entry,
      List.Forall₂ (fun x entry => entry.MadeFrom t x.1 x.2) blobs entries := by
  induction blobs with
  | nil => exact ⟨[], .nil⟩
  | cons x rest ih =>
      obtain ⟨hne, hsize, hleaf⟩ := h x List.mem_cons_self
      obtain ⟨entry, hentry⟩ := exists_entry hne hsize hleaf
      obtain ⟨entries, hentries⟩ := ih fun y hy => h y (List.mem_cons_of_mem _ hy)
      exact ⟨entry :: entries, .cons hentry hentries⟩

end Entries

/-- Evidence with entries that are made from blobs is valid for their addresses, whether the blobs
are given or not, if its bank and its history are. -/
theorem valid_of_madeFrom {t : Tree} {c : CompoundInclusion} {trusted : History}
    {blobs : List (Bytes32 × Bytes)} (hne : blobs ≠ [])
    (hentries : List.Forall₂ (fun x entry => Entry.MadeFrom t x.1 x.2 entry) blobs c.entries)
    (hroot : c.bank.accountsDelta = t.root)
    (hrecorded : trusted.Records c.targetSlot (c.bank.hash t.settings))
    (hhistory : (c.slotExhibit.verify t.settings c.targetSlot (c.bank.hash t.settings).bytes
      trusted).ok = true)
    {blobs? : Option (List Bytes)} (hblobs : blobs? = none ∨ blobs? = some (blobs.map (·.2))) :
    c.Valid t.settings c.bank.blockhash.bytes trusted (blobs.map (·.1.bytes)) blobs? where
  entries_ne_nil := by
    intro hnil
    rw [hnil] at hentries
    exact hne (List.forall₂_nil_right_iff.1 hentries)
  length_addresses := by
    rw [List.length_map, hentries.length_eq]
  length_blobs := by
    rintro given rfl
    rcases hblobs with hnone | hsome
    · cases hnone
    · cases hsome
      rw [List.length_map, hentries.length_eq]
  fits := by
    -- The three lists are read at one place, where the entry was made from the blob.
    intro i entry address blob? hentry haddress hblob
    obtain ⟨x, hx, hmade⟩ := exists_getElem?_of_forall₂ hentries hentry
    rw [List.getElem?_map, hx] at haddress
    cases haddress
    apply hmade.fits
    rintro given rfl
    rcases hblobs with rfl | rfl
    · rw [blobsOf, Option.map_none, Option.getD_none, List.getElem?_map, hentry] at hblob
      cases hblob
    · rw [blobsOf, Option.map_some, Option.getD_some, List.map_map, List.getElem?_map, hx] at hblob
      cases hblob
      rfl
  recorded := hrecorded
  blockhash_eq := rfl
  root_eq := by
    intro entry hentry
    obtain ⟨x, -, hmade⟩ := exists_of_mem_forall₂_right hentries hentry
    rw [hroot]
    exact hmade.root_eq
  history_ok := hhistory

end CompoundInclusion

/-- Where a bank commits to the root of a tree and two histories that agree record its hash for a
slot, compound evidence made from honest parts is accepted for the block of the bank.  Entries can
be made from any blobs whose accounts are leaves, and they are accepted with and without the blobs;
for every hash that is no leaf there is evidence of absence, and it is accepted.  The verdicts list
the checks of all stages, all of which passed. -/
theorem honest_compound_evidence_accepted {s : Settings} {leaves : List Bytes} {t : Tree}
    (hbuild : Tree.build s leaves = .ok t) {bank : Bank} (hroot : bank.accountsDelta = t.root)
    {slot : UInt64} {given trusted : History} (hsize : given.size ≤ s.historyWindow)
    (hgiven : given.Records slot.toNat (bank.hash s))
    (htrusted : trusted.Records slot.toNat (bank.hash s))
    (hagree : ∀ shared a b, given.Records shared a → trusted.Records shared b → a = b) :
    (∀ blobs : List (Bytes32 × Bytes), blobs ≠ [] →
      (∀ x ∈ blobs, x.2 ≠ [] ∧ x.2.length < UInt32.size ∧
        ∀ c, BlobCommitment.ofBlob s x.1.bytes x.2 = .ok c → (c.leaf s).bytes ∈ leaves) →
      ∃ entries, List.Forall₂ (fun x => CompoundInclusion.Entry.MadeFrom t x.1 x.2) blobs entries ∧
        ∀ blobs? ∈ [none, some (blobs.map (·.2))],
          (CompoundInclusion.verify s ⟨slot.toNat, bank, ⟨slot.toNat, given⟩, entries⟩
            bank.blockhash.bytes trusted (blobs.map (·.1.bytes)) blobs?).Passes
              ["blob_digest", "blockhash", "bank_hash", "account_inclusion", "slot_history"]) ∧
    ∀ candidate : Bytes, candidate.length = hashLength → candidate ∉ leaves →
      ∃ a, t.proveExclusion candidate = .ok a ∧
        (CompoundCompleteness.verify s ⟨slot.toNat, bank, ⟨slot.toNat, given⟩, .absence a⟩
          candidate bank.blockhash.bytes trusted).Passes
            ["blockhash", "bank_hash", "account_exclusion", "slot_history"] := by
  obtain ⟨rfl, rfl⟩ := Tree.build_ok hbuild
  have hhistory : (SlotExhibit.verify t.settings ⟨slot.toNat, given⟩ slot.toNat
      (bank.hash t.settings).bytes trusted).ok = true := by
    apply SlotExhibit.verify_ok_iff.2
    refine ⟨rfl, hsize, hgiven, htrusted, ?_⟩
    intro shared a b ha hb
    exact (hagree shared a b ha hb).symm
  constructor
  · intro blobs hne hblobs
    obtain ⟨entries, hentries⟩ := CompoundInclusion.exists_entries hblobs
    refine ⟨entries, hentries, ?_⟩
    intro blobs? hgivenBlobs
    rw [List.mem_pair] at hgivenBlobs
    exact (CompoundInclusion.valid_of_madeFrom
      (c := ⟨slot.toNat, bank, ⟨slot.toNat, given⟩, entries⟩) hne hentries hroot htrusted hhistory
      hgivenBlobs).passes
  · intro candidate hlength hmem
    obtain ⟨a, hprove, hok⟩ := t.exists_accepted_absence hlength hmem
    refine ⟨a, hprove, CompoundCompleteness.verify_passes ?_⟩
    rw [← hroot] at hok
    exact CompoundCompleteness.verify_ok_iff.2 ⟨htrusted, rfl, hok, hhistory⟩

open CompoundInclusion in
/-- Evidence made from two blobs, and evidence of absence for a hash between their leaves. -/
theorem sample_compound_evidence_accepted :
    Tree.build sampleSettings (sampleTree.leaves.map (·.bytes)) = .ok sampleTree ∧
      sampleHistory.Records 7 (sampleBank.hash sampleSettings) ∧
      (∃ entries, List.Forall₂ (fun x => Entry.MadeFrom sampleTree x.1 x.2)
          [(.zero, [1, 2, 3]), (otherAddress, [4, 5])] entries ∧
        ∀ blobs? ∈ [none, some sampleBlobs],
          (CompoundInclusion.verify sampleSettings
            ⟨7, sampleBank, ⟨7, sampleHistory⟩, entries⟩ sampleBank.blockhash.bytes sampleHistory
            sampleAddresses blobs?).Passes
              ["blob_digest", "blockhash", "bank_hash", "account_inclusion", "slot_history"]) ∧
      ∃ a, sampleTree.proveExclusion (Tree.uniform 80).bytes = .ok a ∧
        (CompoundCompleteness.verify sampleSettings
          ⟨7, sampleBank, ⟨7, sampleHistory⟩, .absence a⟩ (Tree.uniform 80).bytes
          sampleBank.blockhash.bytes sampleHistory).Passes
            ["blockhash", "bank_hash", "account_exclusion", "slot_history"] := by
  have hbuild := Tree.build_leaves sampleTree
  have hrecords : sampleHistory.Records (7 : UInt64).toNat (sampleBank.hash sampleTree.settings) :=
    sampleHistory_records
  have hother : ∀ leaf ∈ sampleTree.leaves.map (·.bytes), (Tree.uniform 80).bytes ≠ leaf := by
    decide +kernel
  obtain ⟨hinclusion, habsence⟩ := honest_compound_evidence_accepted hbuild rfl (by decide)
    hrecords hrecords fun _ _ _ ha hb => ha.unique hb
  have hleaf {address : Bytes32} {blob : Bytes} (hne : blob ≠ []) (hlength : blob.length ≤ 915)
      (hmem : ((commitTo address blob).leaf sampleSettings).bytes ∈
        sampleTree.leaves.map (·.bytes)) :
      blob ≠ [] ∧ blob.length < UInt32.size ∧
        ∀ c, BlobCommitment.ofBlob sampleSettings address.bytes blob = .ok c →
          (c.leaf sampleSettings).bytes ∈ sampleTree.leaves.map (·.bytes) := by
    refine ⟨hne, Nat.lt_of_le_of_lt hlength (by decide), fun c hc => ?_⟩
    rw [ofBlob_commitTo address hne hlength] at hc
    cases hc
    exact hmem
  refine ⟨hbuild, sampleHistory_records,
    hinclusion [(.zero, [1, 2, 3]), (otherAddress, [4, 5])] (List.cons_ne_nil _ _) ?_,
    habsence (Tree.uniform 80).bytes rfl fun hmem => hother _ hmem rfl⟩
  intro x hx
  rcases List.mem_pair.1 hx with rfl | rfl
  · exact hleaf (List.cons_ne_nil _ _) (by decide) (.tail _ (.head _))
  · exact hleaf (List.cons_ne_nil _ _) (by decide) (.head _)

end SlotEvidence
