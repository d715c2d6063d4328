/-
Module: SlotEvidence.Proofs.Compound.Inclusion
Purpose: Accepted evidence that blobs were anchored in a slot: its bank hash is the one of the
  trusted history, so that its parts are those of the bank, every account is a leaf of the tree
  that the bank commits to, and the leaf fixes the address and the bytes of the blob.
Trusted boundary: none
Main exports: CompoundInclusion.Valid.binds_bank, CompoundInclusion.Valid.binds_blob,
  CompoundInclusion.accepted_binds_bank_and_blobs
-/
import SlotEvidence.Proofs.Blob
import SlotEvidence.Proofs.Compound.Entries
import SlotEvidence.Proofs.History.Decision
import SlotEvidence.Proofs.Tree.Inclusion

namespace SlotEvidence

namespace CompoundInclusion

/-! ### What is hashed

The byte strings whose collisions would break the binding, as the verification itself makes them.
No other collision is of any use against it. -/

/-- The byte strings that are hashed for groups when the evidence is verified. -/
def groups (s : Settings) (c : CompoundInclusion) : List Bytes :=
  c.entries.flatMap fun entry => entry.path.groups s

/-- The byte strings that are hashed for other things when the evidence is verified: for the bank,
for the accounts, and for the blobs if they are given. -/
def preimages (s : Settings) (c : CompoundInclusion) (blobs? : Option (List Bytes)) : List Bytes :=
  c.bank.preimage :: c.entries.map (·.blob.leafPreimage) ++
    (blobs?.getD []).flatMap (blobPreimages s)

/-! ### Soundness

The trusted history fixes the bank hash, the bank hash its parts, the root among them the leaves of
the tree, and a leaf the address and the bytes of a blob. -/

section Soundness

variable {s : Settings} {c : CompoundInclusion} {blockhash : Bytes} {trusted : History}
  {addresses : List Bytes} {blobs? : Option (List Bytes)}

/-- Without a break, valid evidence has the parts of the bank whose hash is recorded, and its
accounts are leaves of the tree that the bank commits to. -/
theorem Valid.binds_bank {t : Tree} {bank : Bank} {groups others : List Bytes}
    (h : c.Valid t.settings blockhash trusted addresses blobs?)
    (hsafe : ¬ HashBreak t.settings groups others) (htree : t.groups ⊆ groups)
    (hpaths : c.groups t.settings ⊆ groups) (hempty : [] ∈ groups ++ others)
    (hgiven : c.bank.preimage ∈ groups ++ others) (hbank : bank.preimage ∈ groups ++ others)
    (hroot : bank.accountsDelta = t.root)
    (htrusted : trusted.Records c.targetSlot (bank.hash t.settings)) :
    c.bank = bank ∧
      ∀ entry ∈ c.entries, (entry.blob.leaf t.settings).bytes ∈ t.leaves.map (·.bytes) := by
  have hsame : c.bank = bank :=
    Bank.eq_of_hash_eq hsafe hgiven hbank (h.recorded.unique htrusted)
  refine ⟨hsame, ?_⟩
  intro entry hentry
  obtain ⟨i, hi⟩ := List.getElem?_of_mem hentry
  rcases h.entry_fits hi with ⟨-, -, hleaf, hdefect⟩
  have hentryRoot := h.root_eq entry hentry
  rw [hsame, hroot] at hentryRoot
  have hpath : entry.path.groups t.settings ⊆ groups := by
    intro group hgroup
    exact hpaths (List.mem_flatMap.2 ⟨entry, hentry, hgroup⟩)
  obtain ⟨place, b, hb, hup⟩ := t.exists_leaf_of_root_eq hsafe htree hempty hpath hdefect hentryRoot
  rw [← hleaf, hup.leaf_eq]
  exact List.mem_map.2 ⟨b, List.mem_of_getElem? hb, rfl⟩

/-- Without a collision, an account that has the leaf of a commitment to a blob at an address is for
this address, and the bytes checked for it are this blob. -/
theorem Valid.binds_blob {hashed : List Bytes}
    (h : c.Valid s blockhash trusted addresses blobs?) (hsafe : ¬ Collision s hashed)
    (hpreimages : c.preimages s blobs? ⊆ hashed) {i : Nat} {entry : Entry}
    (hentry : c.entries[i]? = some entry) {address blob : Bytes} {honest : BlobCommitment}
    (hhonest : BlobCommitment.ofBlob s address blob = .ok honest)
    (hleafPreimage : honest.leafPreimage ∈ hashed) (hblobPreimages : blobPreimages s blob ⊆ hashed)
    (hleaf : honest.leaf s = entry.blob.leaf s) :
    addresses[i]? = some address ∧ ∀ blobs, blobs? = some blobs → blobs[i]? = some blob := by
  have hentryPreimage : entry.blob.leafPreimage ∈ hashed := by
    apply hpreimages
    rw [preimages, List.mem_append, List.mem_cons]
    exact .inl (.inr (List.mem_map.2 ⟨entry, List.mem_of_getElem? hentry, rfl⟩))
  -- Equal leaves have equal preimages, which fix the address, the digest and the size.
  have hpreimage := eq_of_not_collision hsafe hleafPreimage hentryPreimage hleaf
  obtain rfl := BlobCommitment.leafPreimage_inj hpreimage
  rcases BlobCommitment.ofBlob_eq_ok_iff.1 hhonest with ⟨rfl, hdigest, hsize⟩
  rcases h.entry_fits hentry with ⟨haddress, hblobs, -, -⟩
  refine ⟨haddress, ?_⟩
  rintro blobs rfl
  obtain ⟨given, hgiven, hok⟩ := hblobs blobs rfl
  rcases BlobCommitment.verify_ok_iff.1 hok with ⟨hgivenDigest, hgivenSize⟩
  have hgivenPreimages : blobPreimages s given ⊆ hashed := by
    intro preimage hmem
    apply hpreimages
    rw [preimages, List.mem_append, Option.getD_some]
    exact .inr (List.mem_flatMap.2 ⟨given, List.mem_of_getElem? hgiven, hmem⟩)
  -- The sizes agree, hence the numbers of chunks, and the folds can be compared.
  rw [hgiven, BlobCommitment.eq_of_digestOf_eq hsafe (hgivenSize.trans hsize) hgivenPreimages
    hblobPreimages hgivenDigest hdigest]

/-- Where the trusted history records the hash of a bank for the slot, and the bank commits to the
root of a tree, accepted evidence has the parts of this bank, is for its block and has entries,
each for its address and with the leaf of its account in the tree, unless the hash function is
broken by what was hashed for the tree, the bank and the evidence.  Where such a leaf is the one
of the commitment to a blob at an address, the entry is for this address and its checked bytes
are this blob, unless two byte strings that were hashed for the evidence and for the commitment
have one digest. -/
theorem accepted_binds_bank_and_blobs {leaves : List Bytes} {t : Tree}
    (hbuild : Tree.build s leaves = .ok t) {bank : Bank} (hroot : bank.accountsDelta = t.root)
    (htrusted : trusted.Records c.targetSlot (bank.hash s))
    (hok : (c.verify s blockhash trusted addresses blobs?).ok = true) :
    ((c.bank = bank ∧ blockhash = bank.blockhash.bytes ∧ c.entries ≠ [] ∧
        addresses = c.entries.map (·.blob.address.bytes) ∧
        ∀ entry ∈ c.entries, (entry.blob.leaf s).bytes ∈ leaves) ∨
      HashBreak s (t.groups ++ c.groups s) ([] :: bank.preimage :: c.preimages s blobs?)) ∧
    ∀ (i : Nat) (entry : Entry) (address blob : Bytes) (honest : BlobCommitment),
      c.entries[i]? = some entry → BlobCommitment.ofBlob s address blob = .ok honest →
        honest.leaf s = entry.blob.leaf s →
          (addresses[i]? = some address ∧
            ∀ blobs, blobs? = some blobs → blobs[i]? = some blob) ∨
          Collision s (c.preimages s blobs? ++ honest.leafPreimage :: blobPreimages s blob) := by
  obtain ⟨rfl, rfl⟩ := Tree.build_ok hbuild
  have hvalid := verify_ok_iff.1 hok
  constructor
  · by_cases hsafe : HashBreak t.settings (t.groups ++ c.groups t.settings)
        ([] :: bank.preimage :: c.preimages t.settings blobs?)
    · exact .inr hsafe
    · left
      obtain ⟨hbank, hleaves⟩ := hvalid.binds_bank hsafe (List.subset_append_left _ _)
        (List.subset_append_right _ _) (by simp) (by simp [preimages]) (by simp) hroot htrusted
      have hblockhash := hvalid.blockhash_eq
      rw [hbank] at hblockhash
      exact ⟨hbank, hblockhash.symm, hvalid.entries_ne_nil, hvalid.addresses_eq, hleaves⟩
  · intro i entry address blob honest hentry hhonest hleaf
    by_cases hsafe : Collision t.settings (c.preimages t.settings blobs? ++
        honest.leafPreimage :: blobPreimages t.settings blob)
    · exact .inr hsafe
    · left
      exact hvalid.binds_blob hsafe (List.subset_append_left _ _) hentry hhonest (by simp)
        (fun _ hx => by simp [hx]) hleaf

end Soundness

/-!
### Two blobs

Two blobs are posted at two addresses.  Their accounts are the leaves of a tree, in the order of
their hashes and not of the entries.
-/

/-- The settings under which groups are not filled up. -/
def sampleSettings : Settings := { Settings.standard with padPartialGroups := false }

/-- The commitment to a blob that fits in one chunk. -/
def commitTo (address : Bytes32) (blob : Bytes) : BlobCommitment :=
  ⟨address, sampleSettings.digest blob, UInt32.ofNat blob.length⟩

/-- The address of the second blob. -/
def otherAddress : Bytes32 := ⟨List.replicate hashLength (UInt8.ofNat 1), List.length_replicate⟩

def firstBlob : BlobCommitment := commitTo .zero [1, 2, 3]

def secondBlob : BlobCommitment := commitTo otherAddress [4, 5]

/-- The tree whose leaves are the accounts of the two blobs. -/
def sampleTree : Tree where
  settings := sampleSettings
  leaves := [secondBlob.leaf sampleSettings, firstBlob.leaf sampleSettings]
  ascending := ⟨by decide +kernel, trivial⟩
  noFiller := fun _ _ hpad => nomatch hpad
  rows := _
  rows_eq := rfl

/-- The bank of a block without signatures that commits to the root of this tree. -/
def sampleBank : Bank := ⟨.zero, sampleTree.root, 0, .zero⟩

/-- A history of one slot. -/
def sampleHistory : History := ⟨[⟨7, sampleBank.hash sampleTree.settings⟩], trivial⟩

/-- Evidence that the blobs were anchored in this slot. -/
def sample : CompoundInclusion where
  targetSlot := 7
  bank := sampleBank
  slotExhibit := ⟨7, sampleHistory⟩
  entries :=
    [⟨firstBlob, sampleTree.path (firstBlob.leaf sampleSettings) 1⟩,
     ⟨secondBlob, sampleTree.path (secondBlob.leaf sampleSettings) 0⟩]

/-- The addresses that the verifier expects. -/
def sampleAddresses : List Bytes := [Bytes32.zero.bytes, otherAddress.bytes]

/-- The bytes of the blobs. -/
def sampleBlobs : List Bytes := [[1, 2, 3], [4, 5]]

theorem sampleHistory_records :
    sampleHistory.Records 7 (sampleBank.hash sampleTree.settings) :=
  ⟨_, List.mem_singleton.2 rfl, rfl, rfl⟩

/-- A blob of one chunk is hashed once. -/
theorem ofBlob_commitTo (address : Bytes32) {blob : Bytes} (hne : blob ≠ [])
    (hlength : blob.length ≤ 915) :
    BlobCommitment.ofBlob sampleSettings address.bytes blob = .ok (commitTo address blob) := by
  have hsize : blob.length < UInt32.size := Nat.lt_of_le_of_lt hlength (by decide)
  refine BlobCommitment.ofBlob_eq_ok_iff.2 ⟨rfl, ?_, UInt32.toNat_ofNat_of_lt hsize⟩
  apply BlobCommitment.digestOf_eq_ok_iff.2
  rw [slices_of_ne_nil _ _ hne]
  simp [sampleSettings, Settings.standard, List.take_of_length_le hlength,
    List.drop_of_length_le hlength, foldPayloads, commitTo, Settings.digest]

/-- An entry with the path of its own account fits. -/
theorem fits_path {address : Bytes32} {blob : Bytes} (hne : blob ≠ []) (hlength : blob.length ≤ 915)
    {place : Nat}
    (hplace : sampleTree.leaves[place]? = some ((commitTo address blob).leaf sampleSettings)) :
    Entry.Fits sampleSettings
      ⟨commitTo address blob, sampleTree.path ((commitTo address blob).leaf sampleSettings) place⟩
      address.bytes (some blob) := by
  obtain ⟨-, hdigest, hsize⟩ :=
    BlobCommitment.ofBlob_eq_ok_iff.1 (ofBlob_commitTo address hne hlength)
  have hpath := sampleTree.defect?_of_upToFillers hplace (sampleTree.upToFillers_refl hplace)
  refine ⟨rfl, ?_, rfl, hpath⟩
  rintro _ ⟨⟩
  exact BlobCommitment.verify_ok_iff.2 ⟨hdigest, hsize.symm⟩

theorem sample_valid :
    sample.Valid sampleSettings Bytes32.zero.bytes sampleHistory sampleAddresses
      (some sampleBlobs) where
  entries_ne_nil := List.cons_ne_nil _ _
  length_addresses := rfl
  length_blobs := by
    rintro _ ⟨⟩
    rfl
  fits := by
    intro i entry address blob? hentry haddress hblob
    match i with
    | 0 =>
        cases hentry
        cases haddress
        cases hblob
        exact fits_path (List.cons_ne_nil _ _) (by decide) rfl
    | 1 =>
        cases hentry
        cases haddress
        cases hblob
        exact fits_path (List.cons_ne_nil _ _) (by decide) rfl
    | i + 2 => cases hentry
  recorded := sampleHistory_records
  blockhash_eq := rfl
  root_eq := by
    intro entry hentry
    rcases List.mem_pair.1 hentry with rfl | rfl
    · exact sampleTree.root_of_upToFillers rfl (sampleTree.upToFillers_refl rfl)
    · exact sampleTree.root_of_upToFillers rfl (sampleTree.upToFillers_refl rfl)
  history_ok := by
    apply SlotExhibit.verify_ok_iff.2
    refine ⟨rfl, by decide, sampleHistory_records, sampleHistory_records, ?_⟩
    intro _ _ _ hgiven hknown
    exact hknown.unique hgiven

/-- What the evidence about the two blobs tells of the bank and of either blob. -/
theorem sample_binds_bank_and_blobs :
    Tree.build sampleSettings (sampleTree.leaves.map (·.bytes)) = .ok sampleTree ∧
      sampleBank.accountsDelta = sampleTree.root ∧
      sampleHistory.Records sample.targetSlot (sampleBank.hash sampleSettings) ∧
      (sample.verify sampleSettings Bytes32.zero.bytes sampleHistory sampleAddresses
        (some sampleBlobs)).ok = true ∧
      ((sample.bank = sampleBank ∧ Bytes32.zero.bytes = sampleBank.blockhash.bytes ∧
          sample.entries ≠ [] ∧
          sampleAddresses = sample.entries.map (·.blob.address.bytes) ∧
          ∀ entry ∈ sample.entries, (entry.blob.leaf sampleSettings).bytes ∈
            sampleTree.leaves.map (·.bytes)) ∨
        HashBreak sampleSettings (sampleTree.groups ++ sample.groups sampleSettings)
          ([] :: sampleBank.preimage :: sample.preimages sampleSettings (some sampleBlobs))) ∧
      BlobCommitment.ofBlob sampleSettings Bytes32.zero.bytes [1, 2, 3] = .ok firstBlob ∧
      (sampleAddresses[0]? = some Bytes32.zero.bytes ∧
          (∀ blobs, some sampleBlobs = some blobs → blobs[0]? = some [1, 2, 3]) ∨
        Collision sampleSettings (sample.preimages sampleSettings (some sampleBlobs) ++
          firstBlob.leafPreimage :: blobPreimages sampleSettings [1, 2, 3])) ∧
      BlobCommitment.ofBlob sampleSettings otherAddress.bytes [4, 5] = .ok secondBlob ∧
      (sampleAddresses[1]? = some otherAddress.bytes ∧
          (∀ blobs, some sampleBlobs = some blobs → blobs[1]? = some [4, 5]) ∨
        Collision sampleSettings (sample.preimages sampleSettings (some sampleBlobs) ++
          secondBlob.leafPreimage :: blobPreimages sampleSettings [4, 5])) := by
  have hok := verify_ok_iff.2 sample_valid
  have hfirst : BlobCommitment.ofBlob sampleSettings Bytes32.zero.bytes [1, 2, 3] = .ok firstBlob :=
    ofBlob_commitTo _ (List.cons_ne_nil _ _) (by decide)
  have hsecond : BlobCommitment.ofBlob sampleSettings otherAddress.bytes [4, 5] = .ok secondBlob :=
    ofBlob_commitTo _ (List.cons_ne_nil _ _) (by decide)
  obtain ⟨hbank, hblob⟩ := accepted_binds_bank_and_blobs (Tree.build_leaves sampleTree) rfl
    sampleHistory_records hok
  exact ⟨Tree.build_leaves sampleTree, rfl, sampleHistory_records, hok, hbank,
    hfirst, hblob 0 _ _ _ _ rfl hfirst rfl, hsecond, hblob 1 _ _ _ _ rfl hsecond rfl⟩

end CompoundInclusion

end SlotEvidence
