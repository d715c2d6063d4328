/-
Module: SlotEvidence.Proofs.Compound.Entries
Purpose: The verification of evidence that blobs were anchored in a slot, stage by stage: the
  entries pass one by one, the bank hash is anchored, the accounts lead to its root, and the history
  agrees.
Trusted boundary: none
Main exports: CompoundInclusion.Entry.Fits, CompoundInclusion.entryOutcome_eq_ok_iff,
  CompoundInclusion.outcomes_eq_ok, CompoundInclusion.formRejection_eq_ok_none_iff,
  CompoundInclusion.rootsRejection?_eq_some_iff, CompoundInclusion.verify_eq,
  CompoundInclusion.verify_settles, CompoundInclusion.Valid, CompoundInclusion.verify_ok_iff,
  CompoundInclusion.Valid.passes
-/
import Mathlib.Data.List.FinRange
import Mathlib.Logic.Basic
import SlotEvidence.Compound.Inclusion
import SlotEvidence.Proofs.Blob
import SlotEvidence.Proofs.Compound.Pipeline
import SlotEvidence.Proofs.History.Decision
import SlotEvidence.Proofs.Tree.Path

namespace SlotEvidence

theorem Verdict.tagged_ok {v : Verdict} (h : v.ok = false) (extra : Members Value) :
    (v.tagged extra).ok = false := by
  unfold tagged
  split
  · rfl
  · exact h

namespace CompoundInclusion

/-! ### The checks of the entries

An entry is looked at by itself: its account, the bytes if they are given, its path, and whether the
leaf of the path is the one of its commitment. -/

/-- An entry is for the address, for the bytes if they are given, and its path is a well-formed one
that begins at the account's leaf. -/
structure Entry.Fits (s : Settings) (entry : Entry) (address : Bytes) (blob? : Option Bytes) :
    Prop where
  address_eq : entry.blob.address.bytes = address
  blob_ok : ∀ blob, blob? = some blob → (entry.blob.verify s blob).ok = true
  leaf_eq : entry.path.leaf = (entry.blob.leaf s).bytes
  path_ok : entry.path.defect? s = none

section Entries

variable {s : Settings} {index : Nat} {g : Submission}

/-- An entry that passes gives the root that its path leads to. -/
theorem entryOutcome_eq_ok_iff {root : Bytes} :
    entryOutcome s index g = .ok (.ok root) ↔
      g.entry.Fits s g.address g.blob? ∧ g.entry.path.root s = root := by
  -- The cases follow the checks in their order; each check that fails contradicts one field of
  -- `Fits`.
  unfold entryOutcome
  by_cases haddress : g.entry.blob.address.bytes = g.address
  · rw [if_neg (not_not.2 haddress)]
    cases hblob : (g.blob?.map (g.entry.blob.verify s)).filter fun v => !v.ok with
    | some rejection =>
        constructor
        · intro h
          cases h
        · rintro ⟨h, -⟩
          rw [Option.filter_eq_some_iff, Option.map_eq_some_iff] at hblob
          rcases hblob with ⟨⟨blob, hblob, rfl⟩, hreject⟩
          simp [h.blob_ok blob hblob] at hreject
    | none =>
        have hbytes : ∀ blob, g.blob? = some blob → (g.entry.blob.verify s blob).ok = true := by
          intro blob hgiven
          simpa [hgiven, Option.filter] using hblob
        simp only
        by_cases hleaf : g.entry.path.leaf = (g.entry.blob.leaf s).bytes
        · rw [if_neg (not_not.2 hleaf)]
          cases hdefect : g.entry.path.defect? s with
          | some defect =>
              constructor
              · intro h
                obtain ⟨message, -, h⟩ := bind_eq_ok.1 h
                cases h
              · rintro ⟨h, -⟩
                rw [h.path_ok] at hdefect
                cases hdefect
          | none =>
              constructor
              · rintro ⟨⟩
                exact ⟨⟨haddress, hbytes, hleaf, hdefect⟩, rfl⟩
              · rintro ⟨-, rfl⟩
                rfl
        · rw [if_pos hleaf]
          constructor
          · intro h
            cases h
          · rintro ⟨h, -⟩
            exact absurd h.leaf_eq hleaf
  · rw [if_pos haddress]
    constructor
    · intro h
      cases h
    · rintro ⟨h, -⟩
      exact absurd h.address_eq haddress

/-- A rejection of an entry is one, and all its checks but the failed one have passed. -/
theorem entryOutcome_rejects {rejection : Verdict}
    (h : entryOutcome s index g = .ok (.error rejection)) :
    rejection.ok = false ∧ Verdict.Staged [BlobCommitment.checkName] rejection := by
  have hnames : [BlobCommitment.checkName] ≠ [] := List.cons_ne_nil _ _
  unfold entryOutcome at h
  simp only at h
  split at h
  · cases h
    exact ⟨rfl, Verdict.staged_rejected hnames (by simp [Members.names])⟩
  · split at h
    case h_1 blobRejection hblob =>
      cases h
      rw [Option.filter_eq_some_iff, Option.map_eq_some_iff] at hblob
      obtain ⟨⟨blob, -, rfl⟩, hreject⟩ := hblob
      rw [Bool.not_eq_true'] at hreject
      exact ⟨Verdict.tagged_ok hreject _,
        (BlobCommitment.verify_staged g.entry.blob blob).tagged hreject (by simp [Members.names])⟩
    case h_2 =>
      split at h
      · cases h
        exact ⟨rfl, Verdict.staged_rejected hnames (by simp [Members.names])⟩
      · split at h
        · obtain ⟨message, -, h⟩ := bind_eq_ok.1 h
          cases h
          exact ⟨rfl, Verdict.staged_rejected hnames (by simp [Members.names])⟩
        · cases h

/-- The message about an entry is refused for none but a place on its path. -/
theorem mem_places_of_entryOutcome {refusal : Text.Overlong}
    (h : entryOutcome s index g = .error refusal) : refusal.number ∈ g.entry.path.places := by
  unfold entryOutcome at h
  simp only at h
  split at h
  · cases h
  · split at h
    · cases h
    · split at h
      · cases h
      · split at h
        case h_1 defect hdefect =>
          rw [bind_eq_error] at h
          rcases h with h | ⟨_, -, h⟩
          · exact Path.mem_places_of_message hdefect h
          · cases h
        case h_2 => cases h

/-! ### Roots

The roots are compared with the bank only after the bank has been compared with the history. -/

/-- No root is rejected just when all of them are the one that the bank commits to. -/
theorem rootsRejection?_eq_none_iff {delta : Bytes32} {index : Nat} {roots : List Bytes} :
    rootsRejection? delta index roots = none ↔ ∀ root ∈ roots, root = delta.bytes := by
  induction roots generalizing index with
  | nil => simp [rootsRejection?]
  | cons root roots ih =>
      rw [rootsRejection?]
      by_cases hroot : root = delta.bytes
      · rw [if_neg (not_not.2 hroot), ih]
        simp [hroot]
      · rw [if_pos hroot]
        simp [hroot]

/-- The rejection of the root that the path of an entry leads to. -/
def rootRejection (delta : Bytes32) (index : Nat) (root : Bytes) : Verdict :=
  entryVerdict Code.hashMismatch index "account root does not match the accounts-delta hash"
    [("expected", .text delta.hex), ("actual", .text (Hex.encode root))]

/-- The root that is rejected is the first one that is another than the expected one. -/
theorem rootsRejection?_eq_some_iff {delta : Bytes32} {index : Nat} {roots : List Bytes}
    {rejection : Verdict} :
    rootsRejection? delta index roots = some rejection ↔
      ∃ (i : Nat) (root : Bytes), roots[i]? = some root ∧ root ≠ delta.bytes ∧
        rootRejection delta (index + i) root = rejection ∧
        ∀ j < i, ∀ earlier : Bytes, roots[j]? = some earlier → earlier = delta.bytes := by
  induction roots generalizing index with
  | nil => simp [rootsRejection?]
  | cons root roots ih =>
      rw [rootsRejection?]
      -- A root that agrees moves the first difference by one place.
      by_cases hroot : root = delta.bytes
      · rw [if_neg (not_not.2 hroot), ih]
        constructor
        · rintro ⟨i, r, hr, hne, hreject, hbefore⟩
          rw [Nat.add_right_comm] at hreject
          refine ⟨i + 1, r, hr, hne, hreject, ?_⟩
          intro j hj earlier hearlier
          cases j with
          | zero =>
              cases hearlier
              exact hroot
          | succ j => exact hbefore j (Nat.lt_of_succ_lt_succ hj) _ hearlier
        · rintro ⟨i, r, hr, hne, hreject, hbefore⟩
          cases i with
          | zero =>
              cases hr
              exact absurd hroot hne
          | succ i =>
              refine ⟨i, r, hr, hne, ?_, fun j hj => hbefore (j + 1) (Nat.succ_lt_succ hj)⟩
              rw [Nat.add_right_comm]
              exact hreject
      · rw [if_pos hroot]
        constructor
        · intro h
          exact ⟨0, root, rfl, hroot, Option.some.inj h, nofun⟩
        · rintro ⟨i, r, hr, hne, hreject, hbefore⟩
          cases i with
          | zero =>
              cases hr
              exact congrArg some hreject
          | succ i => exact absurd (hbefore 0 (Nat.succ_pos i) _ rfl) hroot

/-! ### The form of the evidence -/

/-- The shape passes just when there are entries, and as many addresses and, if any are given, as
many blobs. -/
theorem shapeRejection?_eq_none_iff {entries addresses : Nat} {blobs? : Option Nat} :
    shapeRejection? entries addresses blobs? = none ↔
      entries ≠ 0 ∧ addresses = entries ∧ ∀ blobs, blobs? = some blobs → blobs = entries := by
  unfold shapeRejection?
  by_cases hentries : entries = 0
  · simp [hentries]
  · by_cases haddresses : addresses = entries
    · cases blobs? with
      | none => simp [hentries, haddresses]
      | some blobs =>
          by_cases hblobs : blobs = entries
          · simp [hentries, haddresses, hblobs]
          · simp [hentries, haddresses, hblobs]
    · simp [hentries, haddresses]

/-- A rejection of the shape is one, and no check has passed before it. -/
theorem shapeRejection?_rejects {entries addresses : Nat} {blobs? : Option Nat}
    {rejection : Verdict} (h : shapeRejection? entries addresses blobs? = some rejection) :
    rejection.ok = false ∧ Verdict.Staged [BlobCommitment.checkName] rejection := by
  unfold shapeRejection? at h
  repeat' split at h
  all_goals cases h
  all_goals exact ⟨rfl, Verdict.staged_rejected (List.cons_ne_nil _ _) (by simp [Members.names])⟩

end Entries

/-! ### All entries

What is submitted for an entry is taken from three lists of the same length.  The pool may compute
the outcomes in any order, but they are looked at in the order of the entries. -/

section Outcomes

variable {s : Settings} {c : CompoundInclusion} {addresses : List Bytes}
  {blobs? : Option (List Bytes)} {results : List Outcome}

/-- What is submitted at a place is the entry, the address and the bytes at this place. -/
theorem submissions_getElem? {i : Nat} {g : Submission} :
    (c.submissions addresses blobs?)[i]? = some g ↔
      c.entries[i]? = some g.entry ∧ addresses[i]? = some g.address ∧
        (c.blobsOf blobs?)[i]? = some g.blob? := by
  rw [submissions, List.getElem?_map, Option.map_eq_some_iff]
  constructor
  · rintro ⟨⟨entry, address, blob?⟩, h, rfl⟩
    obtain ⟨hentry, hrest⟩ := List.getElem?_zip_eq_some.1 h
    exact ⟨hentry, List.getElem?_zip_eq_some.1 hrest⟩
  · rintro ⟨hentry, hrest⟩
    exact ⟨⟨g.entry, g.address, g.blob?⟩,
      List.getElem?_zip_eq_some.2 ⟨hentry, List.getElem?_zip_eq_some.2 hrest⟩, rfl⟩

/-- Where all entries have an outcome, each has its own. -/
theorem outcomes_eq_ok (h : c.outcomes s addresses blobs? = .ok results) :
    results.length = (c.submissions addresses blobs?).length ∧
      ∀ (i : Nat) (g : Submission), (c.submissions addresses blobs?)[i]? = some g →
        ∃ result, results[i]? = some result ∧ entryOutcome s i g = .ok result := by
  rw [outcomes, mapOrdered_eq_mapInTurn, mapInTurn_eq_ok_iff] at h
  refine ⟨by rw [← h.length_eq, List.length_finRange], ?_⟩
  intro i g hg
  obtain ⟨hlt, hget⟩ := List.getElem?_eq_some_iff.1 hg
  have hplace : (List.finRange (c.submissions addresses blobs?).length)[i]? = some ⟨i, hlt⟩ := by
    simp [hlt]
  obtain ⟨result, hresult, hsame⟩ := exists_getElem?_of_forall₂ h.flip hplace
  refine ⟨result, hresult, ?_⟩
  rw [← hget]
  exact hsame

/-- Where an entry has no outcome, a place on a path has no text. -/
theorem exists_of_outcomes_eq_error {refusal : Text.Overlong}
    (h : c.outcomes s addresses blobs? = .error refusal) :
    ∃ (i : Nat) (g : Submission), (c.submissions addresses blobs?)[i]? = some g ∧
      entryOutcome s i g = .error refusal := by
  rw [outcomes, mapOrdered_eq_mapInTurn] at h
  obtain ⟨place, hplace⟩ := exists_of_mapInTurn_eq_error h
  exact ⟨place, _, List.getElem?_eq_getElem place.isLt, hplace⟩

theorem Outcome.rejection?_eq_none_iff {result : Outcome} :
    result.rejection? = none ↔ ∃ root, result = .ok root := by
  cases result with
  | error rejection => simp [rejection?]
  | ok root => simp [rejection?]

end Outcomes

/-! ### Stage by stage

The verification as a list of rulings: the checks before the first stage, the blobs, the anchoring,
the roots and the history. -/

/-- What is said of the form of the evidence and of its entries: the rejection of the form, or else
of the first entry that does not fit. -/
def formRejection (s : Settings) (c : CompoundInclusion) (addresses : List Bytes)
    (blobs? : Option (List Bytes)) : Except Text.Overlong (Option Verdict) :=
  match shapeRejection? c.entries.length addresses.length (blobs?.map List.length) with
  | some rejection => .ok (some rejection)
  | none =>
      (c.outcomes s addresses blobs?).map fun results =>
        Verdict.first? (results.map Outcome.rejection?)

/-- What the stage of the accounts' roots comes to. -/
def rootsVerdict (s : Settings) (c : CompoundInclusion) : Verdict :=
  (rootsRejection? c.bank.accountsDelta 0 (c.entries.map (·.path.root s))).getD
    (.accepted [rootsCheck c.bank.accountsDelta])

/-- The integers of the evidence that a message may show: its slots and the places on its paths. -/
def integers (c : CompoundInclusion) : List Int :=
  c.targetSlot :: c.slotExhibit.slot :: c.entries.flatMap (·.path.places)

/-- Both slots of the evidence are among the integers that its messages can show. -/
theorem slots_subset_integers (c : CompoundInclusion) :
    [c.slotExhibit.slot, c.targetSlot] ⊆ c.integers := by
  simp [integers]

section Stages

variable {s : Settings} {c : CompoundInclusion} {blockhash : Bytes} {trusted : History}
  {addresses : List Bytes} {blobs? : Option (List Bytes)}

/-- The first outcome that rejects is the rejection; the outcomes before it are roots. -/
theorem first?_rejection?_eq_some_iff {results : List Outcome} {rejection : Verdict} :
    Verdict.first? (results.map Outcome.rejection?) = some rejection ↔
      ∃ i : Nat, results[i]? = some (.error rejection) ∧
        ∀ j < i, ∀ earlier : Outcome, results[j]? = some earlier → ∃ root, earlier = .ok root := by
  induction results with
  | nil => simp [Verdict.first?]
  | cons result rest ih =>
      cases result with
      | error first =>
          constructor
          · rintro ⟨⟩
            exact ⟨0, rfl, nofun⟩
          · rintro ⟨i, hi, hbefore⟩
            cases i with
            | zero =>
                cases hi
                rfl
            | succ i =>
                obtain ⟨root, hroot⟩ := hbefore 0 (Nat.succ_pos i) _ rfl
                cases hroot
      | ok root =>
          have hskip : Verdict.first? ((Except.ok root :: rest : List Outcome).map
              Outcome.rejection?) = Verdict.first? (rest.map Outcome.rejection?) := rfl
          rw [hskip, ih]
          constructor
          · rintro ⟨i, hi, hbefore⟩
            refine ⟨i + 1, hi, ?_⟩
            intro j hj earlier hearlier
            cases j with
            | zero => exact ⟨root, (Option.some.inj hearlier).symm⟩
            | succ j => exact hbefore j (Nat.lt_of_succ_lt_succ hj) earlier hearlier
          · rintro ⟨i, hi, hbefore⟩
            cases i with
            | zero => cases hi
            | succ i =>
                exact ⟨i, hi, fun j hj => hbefore (j + 1) (Nat.succ_lt_succ hj)⟩

/-- No outcome is a rejection just when every one is a root. -/
theorem first?_rejection?_eq_none_iff {results : List Outcome} :
    Verdict.first? (results.map Outcome.rejection?) = none ↔
      ∀ result ∈ results, ∃ root, result = .ok root := by
  simp [Verdict.first?, Outcome.rejection?_eq_none_iff]

/-- If what is submitted fits at every place, every outcome is a root. -/
theorem exists_outcomes_of_fits
    (hfits : ∀ (i : Nat) (g : Submission), (c.submissions addresses blobs?)[i]? = some g →
      g.entry.Fits s g.address g.blob?) :
    ∃ results, c.outcomes s addresses blobs? = .ok results ∧
      Verdict.first? (results.map Outcome.rejection?) = none := by
  have hpass : ∀ (i : Nat) (g : Submission), (c.submissions addresses blobs?)[i]? = some g →
      entryOutcome s i g = .ok (.ok (g.entry.path.root s)) :=
    fun i g hg => entryOutcome_eq_ok_iff.2 ⟨hfits i g hg, rfl⟩
  cases hresults : c.outcomes s addresses blobs? with
  | error refusal =>
      obtain ⟨i, g, hg, herror⟩ := exists_of_outcomes_eq_error hresults
      rw [hpass i g hg] at herror
      cases herror
  | ok results =>
      obtain ⟨hlength, hall⟩ := outcomes_eq_ok hresults
      refine ⟨results, rfl, first?_rejection?_eq_none_iff.2 ?_⟩
      intro result hresult
      obtain ⟨i, hi, hget⟩ := List.mem_iff_getElem.1 hresult
      have hplace := List.getElem?_eq_getElem (hlength ▸ hi)
      obtain ⟨other, hother, houtcome⟩ := hall i _ hplace
      rw [hpass i _ hplace] at houtcome
      rw [List.getElem?_eq_getElem hi, hget] at hother
      rw [Option.some.inj hother, ← Except.ok.inj houtcome]
      exact ⟨_, rfl⟩

/-- If every outcome is a root, what is submitted fits at every place. -/
theorem fits_of_outcomes {results : List Outcome} (h : c.outcomes s addresses blobs? = .ok results)
    (hnone : Verdict.first? (results.map Outcome.rejection?) = none) {i : Nat} {g : Submission}
    (hg : (c.submissions addresses blobs?)[i]? = some g) : g.entry.Fits s g.address g.blob? := by
  obtain ⟨result, hresult, houtcome⟩ := (outcomes_eq_ok h).2 i g hg
  obtain ⟨root, rfl⟩ := first?_rejection?_eq_none_iff.1 hnone result (List.mem_of_getElem? hresult)
  exact (entryOutcome_eq_ok_iff.1 houtcome).1

/-- The entries pass just when each of them fits its address and its blob. -/
theorem formRejection_eq_ok_none_iff :
    c.formRejection s addresses blobs? = .ok none ↔
      c.entries ≠ [] ∧ addresses.length = c.entries.length ∧
        (∀ blobs, blobs? = some blobs → blobs.length = c.entries.length) ∧
        ∀ (i : Nat) (entry : Entry) (address : Bytes) (blob? : Option Bytes),
          c.entries[i]? = some entry → addresses[i]? = some address →
            (c.blobsOf blobs?)[i]? = some blob? → entry.Fits s address blob? := by
  have hshape : shapeRejection? c.entries.length addresses.length (blobs?.map List.length) = none ↔
      c.entries ≠ [] ∧ addresses.length = c.entries.length ∧
        ∀ blobs, blobs? = some blobs → blobs.length = c.entries.length := by
    rw [shapeRejection?_eq_none_iff]
    simp
  rw [formRejection]
  cases hfound : shapeRejection? c.entries.length addresses.length (blobs?.map List.length) with
  | some rejection =>
      constructor
      · intro h
        cases h
      · rintro ⟨hentries, haddresses, hblobs, -⟩
        rw [hshape.2 ⟨hentries, haddresses, hblobs⟩] at hfound
        cases hfound
  | none =>
      -- The counts agree, so every place of the three lists has a submission, and it is enough to
      -- compare the outcomes place by place.
      obtain ⟨hentries, haddresses, hblobs⟩ := hshape.1 hfound
      simp only [map_eq_ok]
      constructor
      · rintro ⟨results, hresults, hnone⟩
        refine ⟨hentries, haddresses, hblobs, ?_⟩
        intro i entry address blob? hentry haddress hblob
        have hplace : (c.submissions addresses blobs?)[i]? = some ⟨entry, address, blob?⟩ :=
          submissions_getElem?.2 ⟨hentry, haddress, hblob⟩
        exact fits_of_outcomes hresults hnone hplace
      · rintro ⟨-, -, -, hfits⟩
        apply exists_outcomes_of_fits
        intro i g hg
        obtain ⟨hentry, haddress, hblob⟩ := submissions_getElem?.1 hg
        exact hfits i _ _ _ hentry haddress hblob

/-- A rejection before the first stage is one, and all its checks but the failed one have passed. -/
theorem formRejection_rejects {rejection : Verdict}
    (h : c.formRejection s addresses blobs? = .ok (some rejection)) :
    rejection.ok = false ∧ Verdict.Staged [BlobCommitment.checkName] rejection := by
  unfold formRejection at h
  split at h
  case h_1 found hshape =>
    cases h
    exact shapeRejection?_rejects hshape
  case h_2 =>
    obtain ⟨results, hresults, hfirst⟩ := map_eq_ok.1 h
    obtain ⟨i, hi, -⟩ := first?_rejection?_eq_some_iff.1 hfirst
    obtain ⟨hlength, hall⟩ := outcomes_eq_ok hresults
    have hlt : i < (c.submissions addresses blobs?).length :=
      hlength ▸ (List.getElem?_eq_some_iff.1 hi).1
    obtain ⟨result, hresult, houtcome⟩ := hall i _ (List.getElem?_eq_getElem hlt)
    rw [hi] at hresult
    cases hresult
    exact entryOutcome_rejects houtcome

/-- If even the rejection before the first stage has no text, one of the integers in the evidence is
too long. -/
theorem mem_integers_of_formRejection {refusal : Text.Overlong}
    (h : c.formRejection s addresses blobs? = .error refusal) : refusal.number ∈ c.integers := by
  unfold formRejection at h
  split at h
  · cases h
  · obtain ⟨i, g, hg, herror⟩ := exists_of_outcomes_eq_error (map_eq_error.1 h)
    have hentry := List.mem_of_getElem? (submissions_getElem?.1 hg).1
    exact List.mem_cons_of_mem _ (List.mem_cons_of_mem _
      (List.mem_flatMap.2 ⟨_, hentry, mem_places_of_entryOutcome herror⟩))

/-- Where the counts agree, there is a submission for every entry. -/
theorem length_submissions
    (hshape : shapeRejection? c.entries.length addresses.length (blobs?.map List.length) = none) :
    (c.submissions addresses blobs?).length = c.entries.length := by
  obtain ⟨-, haddresses, hblobs⟩ := shapeRejection?_eq_none_iff.1 hshape
  have hgiven : (c.blobsOf blobs?).length = c.entries.length := by
    cases blobs? with
    | none => simp [blobsOf]
    | some blobs => simp [blobsOf, hblobs]
  simp [submissions, haddresses, hgiven]

/-- Where no entry is rejected, the outcomes are the roots of the entries. -/
theorem roots_of_outcomes {results : List Outcome}
    (hshape : shapeRejection? c.entries.length addresses.length (blobs?.map List.length) = none)
    (hresults : c.outcomes s addresses blobs? = .ok results)
    (hnone : Verdict.first? (results.map Outcome.rejection?) = none) :
    results.filterMap Outcome.root? = c.entries.map (·.path.root s) := by
  obtain ⟨hlength, hall⟩ := outcomes_eq_ok hresults
  have hsame : results = c.entries.map fun entry => .ok (entry.path.root s) := by
    apply List.ext_getElem
    · rw [hlength, length_submissions hshape, List.length_map]
    intro i hi _
    have hlt : i < (c.submissions addresses blobs?).length := hlength ▸ hi
    have hplace := List.getElem?_eq_getElem hlt
    obtain ⟨result, hresult, houtcome⟩ := hall i _ hplace
    obtain ⟨root, rfl⟩ := first?_rejection?_eq_none_iff.1 hnone result
      (List.mem_of_getElem? hresult)
    have hentry := (submissions_getElem?.1 hplace).1
    rw [List.getElem?_eq_getElem (length_submissions hshape ▸ hlt)] at hentry
    rw [List.getElem?_eq_getElem hi] at hresult
    rw [Option.some.inj hresult, List.getElem_map, Option.some.inj hentry,
      (entryOutcome_eq_ok_iff.1 houtcome).2]
  rw [hsame, List.filterMap_map]
  exact congrFun List.filterMap_eq_map c.entries

/-- The stage of the roots passes just when each is the one that the bank commits to. -/
theorem rootsVerdict_ok_iff :
    (c.rootsVerdict s).ok = true ↔
      ∀ entry ∈ c.entries, entry.path.root s = c.bank.accountsDelta.bytes := by
  have hroots : rootsRejection? c.bank.accountsDelta 0 (c.entries.map (·.path.root s)) = none ↔
      ∀ entry ∈ c.entries, entry.path.root s = c.bank.accountsDelta.bytes := by
    rw [rootsRejection?_eq_none_iff, List.forall_mem_map]
  rw [rootsVerdict, ← hroots]
  cases hfound : rootsRejection? c.bank.accountsDelta 0 (c.entries.map (·.path.root s)) with
  | none => simp
  | some rejection =>
      obtain ⟨i, root, -, -, rfl, -⟩ := rootsRejection?_eq_some_iff.1 hfound
      simp [rootRejection, entryVerdict, Verdict.rejected]

theorem rootsVerdict_staged (s : Settings) (c : CompoundInclusion) :
    Verdict.Staged [Path.checkName] (c.rootsVerdict s) := by
  rw [rootsVerdict]
  cases hfound : rootsRejection? c.bank.accountsDelta 0 (c.entries.map (·.path.root s)) with
  | none => exact Verdict.staged_passed _ _ _ _
  | some rejection =>
      obtain ⟨i, root, -, -, rfl, -⟩ := rootsRejection?_eq_some_iff.1 hfound
      exact Verdict.staged_rejected (List.cons_ne_nil _ _) (by simp [Members.names])

/-- The stages after the entries, in their order. -/
def laterRulings (s : Settings) (c : CompoundInclusion) (blockhash : Bytes) (trusted : History) :
    List Ruling :=
  Pipeline.anchorRulings s c.bank blockhash trusted c.targetSlot fun known =>
    [Except.ok (c.rootsVerdict s), c.slotExhibit.verify s c.targetSlot known.bytes trusted]

/-- The stages after the entries decide as in a row. -/
theorem runAnchored_eq {p : Pipeline} (h : Text.Writable p.slot) (hslot : p.slot = c.targetSlot) :
    (c.runAnchored s blockhash trusted (c.entries.map (·.path.root s)) p).map (·.2) =
      Ruling.stages p.checks (c.laterRulings s blockhash trusted) := by
  rw [laterRulings, ← hslot, ← Pipeline.anchor_eq_stages h, runAnchored]
  rcases hanchor : p.anchor s c.bank blockhash trusted with refusal | ⟨q, rejection | bankHash⟩
  · rfl
  · rfl
  · have hq : Text.Writable q.slot := (Pipeline.slot_of_anchor h hanchor).symm ▸ h
    simp only [bind, Except.bind, Pipeline.anchored, rootsVerdict, hslot]
    cases hroots : rootsRejection? c.bank.accountsDelta 0 (c.entries.map (·.path.root s)) with
    | some rejection =>
        obtain ⟨i, root, -, -, rfl, -⟩ := rootsRejection?_eq_some_iff.1 hroots
        obtain ⟨last, hlast⟩ := Pipeline.reject_of_writable hq
          (rootRejection c.bank.accountsDelta (0 + i) root)
        rw [Option.getD_some, Ruling.stages_cons_of_rejected rfl]
        simp only [hlast, Except.map]
    | none =>
        rw [Option.getD_none, Ruling.stages_cons_of_ok rfl]
        simp only [Pipeline.passed_of_writable hq]
        exact Pipeline.finish_eq_stages (p := q.afterPassed _) hq _

/-- For a slot that has a text, the evidence is decided by its form and its entries, and then by the
later stages in a row. -/
theorem verify_eq (h : Text.Writable c.targetSlot) :
    c.verify s blockhash trusted addresses blobs? =
      (c.formRejection s addresses blobs?).bind fun
        | some rejection => Except.ok rejection
        | none =>
            Ruling.stages [entriesCheck c.entries.length blobs?.isSome]
              (c.laterRulings s blockhash trusted) := by
  -- The pipeline is made general, so that all that is known of it is its slot and that it has no
  -- checks yet.
  unfold verify run formRejection
  generalize hstart : ({ kind := kind, slot := c.targetSlot } : Pipeline) = start
  have hslot : start.slot = c.targetSlot := by rw [← hstart]
  have hchecks : start.checks = [] := by rw [← hstart]
  rw [← hslot] at h
  cases hshape : shapeRejection? c.entries.length addresses.length (blobs?.map List.length) with
  | some rejection =>
      obtain ⟨q, hq⟩ := Pipeline.reject_of_writable h rejection
      simp [hq, hchecks, Except.map, Except.bind, Verdict.withPrior]
  | none =>
      cases hresults : c.outcomes s addresses blobs? with
      | error refusal => rfl
      | ok results =>
          cases hfirst : Verdict.first? (results.map Outcome.rejection?) with
          | some rejection =>
              obtain ⟨q, hq⟩ := Pipeline.reject_of_writable h rejection
              simp [hq, hfirst, hchecks, bind, Except.map, Except.bind, Verdict.withPrior]
          | none =>
              simp only [bind, Except.bind, Except.map, hfirst, Pipeline.passed_of_writable h,
                roots_of_outcomes hshape hresults hfirst]
              -- The one check that has passed is in front of those of the later stages.
              have hlater : (c.runAnchored s blockhash trusted (c.entries.map (·.path.root s))
                  (start.afterPassed (entriesCheck c.entries.length blobs?.isSome))).map (·.2) =
                  Ruling.stages _ (c.laterRulings s blockhash trusted) := runAnchored_eq h hslot
              rw [Pipeline.afterPassed_checks, hchecks] at hlater
              exact hlater

/-- For a slot without a text no verdict is reached. -/
theorem verify_of_not_writable (h : ¬ Text.Writable c.targetSlot) :
    ∃ refusal, c.verify s blockhash trusted addresses blobs? = Except.error refusal ∧
      refusal.number ∈ c.integers := by
  have hslot : c.targetSlot ∈ c.integers := List.mem_cons_self
  unfold verify run
  generalize hstart : ({ kind := kind, slot := c.targetSlot } : Pipeline) = start
  have hsame : start.slot = c.targetSlot := by rw [← hstart]
  rw [← hsame] at h hslot
  -- Whichever branch is taken, its line in the log shows the slot, unless an entry was refused
  -- before.
  cases hshape : shapeRejection? c.entries.length addresses.length (blobs?.map List.length) with
  | some rejection =>
      simp only [Pipeline.reject_of_not_writable h]
      exact ⟨_, rfl, hslot⟩
  | none =>
      cases hresults : c.outcomes s addresses blobs? with
      | error refusal =>
          have hform : c.formRejection s addresses blobs? = .error refusal := by
            simp only [formRejection, hshape, hresults]
            rfl
          exact ⟨refusal, rfl, mem_integers_of_formRejection hform⟩
      | ok results =>
          cases hfirst : Verdict.first? (results.map Outcome.rejection?) with
          | some rejection =>
              simp only [bind, Except.bind, hfirst, Pipeline.reject_of_not_writable h]
              exact ⟨_, rfl, hslot⟩
          | none =>
              simp only [bind, Except.bind, hfirst, Pipeline.passed_of_not_writable h]
              exact ⟨_, rfl, hslot⟩

end Stages

/-! ### Acceptance

Evidence is accepted just when it is valid, and then with all of its checks. -/

/-- What accepted evidence meets: its form, its entries, its bank hash, the roots of its accounts
and its history are right. -/
structure Valid (s : Settings) (c : CompoundInclusion) (blockhash : Bytes) (trusted : History)
    (addresses : List Bytes) (blobs? : Option (List Bytes)) : Prop where
  entries_ne_nil : c.entries ≠ []
  length_addresses : addresses.length = c.entries.length
  length_blobs : ∀ blobs, blobs? = some blobs → blobs.length = c.entries.length
  fits : ∀ (i : Nat) (entry : Entry) (address : Bytes) (blob? : Option Bytes),
    c.entries[i]? = some entry → addresses[i]? = some address →
      (c.blobsOf blobs?)[i]? = some blob? → entry.Fits s address blob?
  recorded : trusted.Records c.targetSlot (c.bank.hash s)
  blockhash_eq : c.bank.blockhash.bytes = blockhash
  root_eq : ∀ entry ∈ c.entries, entry.path.root s = c.bank.accountsDelta.bytes
  history_ok : (c.slotExhibit.verify s c.targetSlot (c.bank.hash s).bytes trusted).ok = true

section Acceptance

variable {s : Settings} {c : CompoundInclusion} {blockhash : Bytes} {trusted : History}
  {addresses : List Bytes} {blobs? : Option (List Bytes)}

/-- The names of the checks of all stages. -/
def checkNames : List String :=
  [BlobCommitment.checkName, Bank.blockhashCheckName, Bank.checkName, Path.checkName,
    History.checkName]

/-- The evidence passes its stages, or one of them rejects after the checks of those before it; only
for want of a text there may be no verdict. -/
theorem verify_settles (s : Settings) (c : CompoundInclusion) (blockhash : Bytes)
    (trusted : History) (addresses : List Bytes) (blobs? : Option (List Bytes)) :
    (c.verify s blockhash trusted addresses blobs?).Settles (Verdict.Staged checkNames)
      c.integers := by
  by_cases hslot : Text.Writable c.targetSlot
  swap
  · obtain ⟨refusal, hverify, hmem⟩ := c.verify_of_not_writable (s := s)
      hslot
    rw [hverify]
    exact .refused hmem
  rw [verify_eq hslot]
  cases hform : c.formRejection s addresses blobs? with
  | error refusal => exact .refused (mem_integers_of_formRejection hform)
  | ok rejection? =>
      cases rejection? with
      | some rejection =>
          obtain ⟨hreject, hstaged⟩ := formRejection_rejects hform
          exact .told (hstaged.append hreject _)
      | none =>
          refine Pipeline.anchorRulings_settles (List.forall_mem_singleton.2 rfl)
            List.mem_cons_self fun known => .cons (.told (rootsVerdict_staged s c)) (.cons ?_ .nil)
          exact (c.slotExhibit.verify_settles s c.targetSlot known.bytes trusted).mono
            c.slots_subset_integers

/-- The evidence is accepted just when it is valid. -/
theorem verify_ok_iff :
    (c.verify s blockhash trusted addresses blobs?).ok = true ↔
      c.Valid s blockhash trusted addresses blobs? := by
  by_cases hslot : Text.Writable c.targetSlot
  swap
  -- A slot that the history records has eight bytes, so that the evidence would not be valid.
  · obtain ⟨refusal, hverify, -⟩ := c.verify_of_not_writable (s := s)
      hslot
    rw [hverify]
    constructor
    · intro h
      cases h
    · intro h
      exact absurd h.recorded.writable hslot
  rw [verify_eq hslot]
  cases hform : c.formRejection s addresses blobs? with
  | error refusal =>
      constructor
      · intro h
        cases h
      · intro h
        rw [formRejection_eq_ok_none_iff.2
          ⟨h.entries_ne_nil, h.length_addresses, h.length_blobs, h.fits⟩] at hform
        cases hform
  | ok rejection? =>
      cases rejection? with
      | some rejection =>
          constructor
          · intro h
            have hok : rejection.ok = true := h
            rw [(formRejection_rejects hform).1] at hok
            cases hok
          · intro h
            rw [formRejection_eq_ok_none_iff.2
              ⟨h.entries_ne_nil, h.length_addresses, h.length_blobs, h.fits⟩] at hform
            cases hform
      | none =>
          obtain ⟨hentries, haddresses, hblobs, hfits⟩ := formRejection_eq_ok_none_iff.1 hform
          -- The entries fit; what is left are the stages after them, each with its own condition.
          simp only [Except.bind, laterRulings, Pipeline.anchorRulings_ok_iff, List.forall_mem_cons,
            Ruling.ok_ok, rootsVerdict_ok_iff, List.not_mem_nil, false_implies, implies_true,
            and_true]
          constructor
          · rintro ⟨hrecorded, hblockhash, hroots, hhistory⟩
            exact ⟨hentries, haddresses, hblobs, hfits, hrecorded, hblockhash, hroots, hhistory⟩
          · intro h
            exact ⟨h.recorded, h.blockhash_eq, h.root_eq, h.history_ok⟩

/-- Valid evidence passes every stage, and the checks of all stages are listed. -/
theorem Valid.passes (h : c.Valid s blockhash trusted addresses blobs?) :
    (c.verify s blockhash trusted addresses blobs?).Passes checkNames :=
  (verify_settles s c blockhash trusted addresses blobs?).passes (verify_ok_iff.2 h)

/-- In valid evidence every entry has its address, its blob if blobs are given, and a path from the
account's leaf. -/
theorem Valid.entry_fits (h : c.Valid s blockhash trusted addresses blobs?) {i : Nat}
    {entry : Entry} (hentry : c.entries[i]? = some entry) :
    addresses[i]? = some entry.blob.address.bytes ∧
      (∀ blobs, blobs? = some blobs →
        ∃ blob, blobs[i]? = some blob ∧ (entry.blob.verify s blob).ok = true) ∧
      entry.path.leaf = (entry.blob.leaf s).bytes ∧ entry.path.defect? s = none := by
  have hlt : i < c.entries.length := (List.getElem?_eq_some_iff.1 hentry).1
  obtain ⟨address, haddress⟩ : ∃ address, addresses[i]? = some address := by
    rw [← h.length_addresses] at hlt
    exact ⟨_, List.getElem?_eq_getElem hlt⟩
  -- With no bytes given there is nothing submitted for them, but still one place for each entry.
  cases blobs? with
  | none =>
      have hblob : (c.blobsOf none)[i]? = some none := by
        simp [blobsOf, hlt]
      have hfits := h.fits i entry _ none hentry haddress hblob
      rw [haddress, hfits.address_eq]
      refine ⟨rfl, ?_, hfits.leaf_eq, hfits.path_ok⟩
      intro _ hblobs
      cases hblobs
  | some blobs =>
      obtain ⟨blob, hget⟩ : ∃ blob, blobs[i]? = some blob := by
        rw [← h.length_blobs blobs rfl] at hlt
        exact ⟨_, List.getElem?_eq_getElem hlt⟩
      have hblob : (c.blobsOf (some blobs))[i]? = some blobs[i]? := by
        simp [blobsOf, hget]
      have hfits := h.fits i entry _ _ hentry haddress hblob
      rw [haddress, hfits.address_eq]
      refine ⟨rfl, ?_, hfits.leaf_eq, hfits.path_ok⟩
      rintro _ ⟨⟩
      exact ⟨_, hget, hfits.blob_ok _ hget⟩

/-- Valid evidence leaves no choice of addresses: they are those of its accounts. -/
theorem Valid.addresses_eq (h : c.Valid s blockhash trusted addresses blobs?) :
    addresses = c.entries.map (·.blob.address.bytes) := by
  apply List.ext_getElem?
  intro i
  rw [List.getElem?_map]
  cases hentry : c.entries[i]? with
  | none =>
      rw [List.getElem?_eq_none_iff, ← h.length_addresses] at hentry
      exact List.getElem?_eq_none_iff.2 hentry
  | some entry => exact (h.entry_fits hentry).1

end Acceptance

end CompoundInclusion

end SlotEvidence
