/-
Module: SlotEvidence.Proofs.Compound.Pipeline
Purpose: A verification that collects checks and writes a log on its way comes to what its stages
  come to in a row, if its slot has a text.  Where the trusted history records a bank hash for the
  slot, the anchoring of the hash is two of these stages.  A pool of workers gives what one worker
  gives.
Trusted boundary: none
Main exports: Pipeline.stages_append, Pipeline.finish_eq_stages, Pipeline.anchor_eq_stages,
  Pipeline.anchorRulings, mapOrdered_eq_mapInTurn, mapInTurn_eq_ok_iff, exists_of_mapInTurn_eq_error
-/
import SlotEvidence.Compound.Pipeline
import SlotEvidence.Proofs.Bank
import SlotEvidence.Proofs.History.Evidence

namespace SlotEvidence

namespace Pipeline

section Stages

variable {p : Pipeline}

/-! ### One step

Every step writes a line to the log that shows the slot, and so none of them comes to anything where
the slot has too many digits. -/

/-- The pipeline after a check that passed. -/
def afterPassed (p : Pipeline) (check : Check) : Pipeline :=
  { p.note .debug (p.kind ++ " slot=" ++ toString p.slot ++ ": " ++ check.id ++ " passed") with
    checks := p.checks ++ [check] }

@[simp] theorem afterPassed_checks (check : Check) :
    (p.afterPassed check).checks = p.checks ++ [check] := rfl

theorem passed_of_writable (h : Text.Writable p.slot) (check : Check) :
    p.passed check = .ok (p.afterPassed check) := by
  rw [passed, Text.decimal_of_writable h]
  rfl

/-- A check cannot be logged as passed if the slot has no text, for the line of the log shows it. -/
theorem passed_of_not_writable (h : ¬ Text.Writable p.slot) (check : Check) :
    p.passed check = .error ⟨p.slot, h⟩ := by
  rw [passed, Text.decimal_of_not_writable h]
  rfl

/-- Checks that pass one after another are collected in their order. -/
theorem foldlM_passed (h : Text.Writable p.slot) (checks : List Check) :
    ∃ q, checks.foldlM passed p = .ok q ∧ q.slot = p.slot ∧ q.checks = p.checks ++ checks := by
  induction checks generalizing p with
  | nil => exact ⟨p, rfl, rfl, (List.append_nil _).symm⟩
  | cons check rest ih =>
      have hslot : Text.Writable (p.afterPassed check).slot := h
      obtain ⟨q, hq, hsame, hchecks⟩ := ih hslot
      refine ⟨q, ?_, hsame, ?_⟩
      · rw [List.foldlM_cons, passed_of_writable h]
        exact hq
      · rw [hchecks, afterPassed_checks, List.append_assoc, List.singleton_append]

/-- A rejection is given back with the checks kept before it. -/
theorem reject_of_writable (h : Text.Writable p.slot) (v : Verdict) :
    ∃ q, p.reject v = .ok (q, v.withPrior p.checks) := by
  rw [reject, rejectionText, Text.decimal_of_writable h]
  exact ⟨_, rfl⟩

theorem reject_of_not_writable (h : ¬ Text.Writable p.slot) (v : Verdict) :
    p.reject v = .error ⟨p.slot, h⟩ := by
  rw [reject, rejectionText, Text.decimal_of_not_writable h]
  rfl

theorem accept_of_writable (h : Text.Writable p.slot) :
    ∃ q, p.accept = .ok (q, .accepted p.checks) := by
  rw [accept, Text.decimal_of_writable h]
  exact ⟨_, rfl⟩

/-- A verdict that accepts adds its checks to those that have passed. -/
theorem record_of_ok (h : Text.Writable p.slot) {v : Verdict} (hok : v.ok = true) :
    ∃ q, p.record v = .ok (q, none) ∧ q.slot = p.slot ∧ q.checks = p.checks ++ v.checks := by
  obtain ⟨q, hq, hslot, hchecks⟩ := foldlM_passed h v.checks
  refine ⟨q, ?_, hslot, hchecks⟩
  rw [record, if_pos hok, hq]
  rfl

/-- A verdict that rejects ends the stages, with the checks that had passed before it in front. -/
theorem record_of_rejected (h : Text.Writable p.slot) {v : Verdict} (hreject : v.ok = false) :
    ∃ q, p.record v = .ok (q, some (v.withPrior p.checks)) := by
  obtain ⟨q, hq⟩ := reject_of_writable h v
  refine ⟨q, ?_⟩
  rw [record, if_neg (Bool.not_eq_true _ ▸ hreject), hq]
  rfl

/-! ### Stages in a row

With a slot that has a text, recording one verdict after another is the same as deciding by the
first that does not accept. -/

/-- What is left of stages that have been run: a rejection decides, and else the stages that follow
do. -/
def decided (outcome : Pipeline × Option Verdict) (more : List Ruling) : Ruling :=
  match outcome with
  | (_, some rejection) => Except.ok rejection
  | (q, none) => Ruling.stages q.checks more

/-- Recording verdicts does not change the slot that the log is about. -/
theorem slot_of_recordAll (h : Text.Writable p.slot) {rulings : List Ruling} {q : Pipeline}
    (hall : p.recordAll rulings = .ok (q, none)) : q.slot = p.slot := by
  induction rulings generalizing p with
  | nil =>
      cases hall
      rfl
  | cons r rest ih =>
      cases r with
      | error refusal => cases hall
      | ok v =>
          cases hok : v.ok with
          | true =>
              obtain ⟨next, hrecord, hslot, -⟩ := record_of_ok h hok
              have hrest : next.recordAll rest = .ok (q, none) := by
                simpa [recordAll, bind, Except.bind, hrecord] using hall
              rw [ih (hslot.symm ▸ h) hrest, hslot]
          | false =>
              obtain ⟨next, hrecord⟩ := record_of_rejected h hok
              simp [recordAll, bind, Except.bind, hrecord, pure, Except.pure] at hall

/-- Stages that have been run, and those that follow, decide together as in a row. -/
theorem stages_append (h : Text.Writable p.slot) (rulings more : List Ruling) :
    Ruling.stages p.checks (rulings ++ more) =
      (p.recordAll rulings).bind fun outcome => decided outcome more := by
  induction rulings generalizing p with
  | nil => rfl
  | cons r rest ih =>
      cases r with
      | error refusal => rfl
      | ok v =>
          cases hok : v.ok with
          | true =>
              obtain ⟨next, hrecord, hslot, hchecks⟩ := record_of_ok h hok
              rw [List.cons_append, Ruling.stages_cons_of_ok hok, ← hchecks,
                ih (hslot.symm ▸ h)]
              simp [recordAll, bind, Except.bind, hrecord]
          | false =>
              obtain ⟨next, hrecord⟩ := record_of_rejected h hok
              rw [List.cons_append, Ruling.stages_cons_of_rejected hok]
              simp [recordAll, bind, Except.bind, hrecord, pure, Except.pure, decided]

/-- The last stages decide as in a row. -/
theorem finish_eq_stages (h : Text.Writable p.slot) (rulings : List Ruling) :
    (p.finish rulings).map (·.2) = Ruling.stages p.checks rulings := by
  have happend := stages_append h rulings []
  rw [List.append_nil] at happend
  rw [happend, finish]
  rcases hall : p.recordAll rulings with refusal | ⟨q, _ | rejection⟩
  · rfl
  · obtain ⟨last, hlast⟩ := accept_of_writable ((slot_of_recordAll h hall).symm ▸ h)
    simp [bind, Except.bind, hlast, Except.map, decided, Ruling.stages]
  · rfl

end Stages

/-! ### The anchoring of a bank hash

The three checks that both kinds of compound evidence share: the slot is in the trusted history, the
blockhash is the expected one, and the bank hash is that of its parts. -/

section Anchor

variable {s : Settings} {bank : Bank} {blockhash : Bytes} {trusted : History}

/-- The stages of the anchoring and those that follow it with the bank hash.  If the trusted history
holds no hash for the slot, there is one stage, which rejects. -/
def anchorRulings (s : Settings) (bank : Bank) (blockhash : Bytes) (trusted : History) (slot : Int)
    (rest : Bytes32 → List Ruling) : List Ruling :=
  match trusted.get? slot with
  | none => [trusted.notFound slot .trusted]
  | some known =>
      Except.ok (bank.verifyBlockhash blockhash) :: Except.ok (bank.verify s known.bytes) ::
        rest known

/-- What is left of an anchoring: a rejection decides, and else the stages that follow do. -/
def anchored (rest : Bytes32 → List Ruling) (outcome : Pipeline × Except Verdict Bytes32) :
    Ruling :=
  match outcome with
  | (_, .error rejection) => Except.ok rejection
  | (q, .ok bankHash) => Ruling.stages q.checks (rest bankHash)

theorem notFound_ok (h : History) (slot : Int) (source : History.Source) :
    (h.notFound slot source).ok = false :=
  Ruling.ok_rejected _ _ _ _ _

/-- The anchoring and the stages that follow it decide as in a row. -/
theorem anchor_eq_stages {p : Pipeline} (h : Text.Writable p.slot) (s : Settings) (bank : Bank)
    (blockhash : Bytes) (trusted : History) (rest : Bytes32 → List Ruling) :
    (p.anchor s bank blockhash trusted).bind (anchored rest) =
      Ruling.stages p.checks (anchorRulings s bank blockhash trusted p.slot rest) := by
  -- The lookup is decided before any stage, and a slot that is not found has a ruling of its own.
  cases hget : trusted.get? p.slot with
  | none =>
      simp only [anchor, anchorRulings, History.trustedHash, hget]
      have hreject := notFound_ok trusted p.slot .trusted
      cases hruling : trusted.notFound p.slot .trusted with
      | error refusal => rfl
      | ok v =>
          rw [hruling] at hreject
          obtain ⟨q, hq⟩ := reject_of_writable h v
          rw [Ruling.stages_cons_of_rejected hreject]
          simp [bind, Except.bind, pure, Except.pure, hq, anchored]
  | some known =>
      have happend := stages_append h
        [Except.ok (bank.verifyBlockhash blockhash), Except.ok (bank.verify s known.bytes)]
        (rest known)
      simp only [List.cons_append, List.nil_append] at happend
      simp only [anchor, anchorRulings, History.trustedHash, hget, happend]
      simp only [pure, Except.pure, bind, Except.bind]
      rcases p.recordAll [Except.ok (bank.verifyBlockhash blockhash),
        Except.ok (bank.verify s known.bytes)] with refusal | ⟨q, _ | rejection⟩
      · rfl
      · rfl
      · rfl

/-- A slot without a text is in no history, and the message about this cannot be written. -/
theorem anchor_of_not_writable {p : Pipeline} (h : ¬ Text.Writable p.slot) :
    p.anchor s bank blockhash trusted = .error ⟨p.slot, h⟩ := by
  have hget : trusted.get? p.slot = none := by
    apply Option.eq_none_iff_forall_ne_some.2
    intro known hknown
    exact h (History.get?_eq_some_iff.1 hknown).writable
  simp only [anchor, History.trustedHash, hget, History.notFound, History.notFoundIn,
    History.notFoundMessage, Text.decimal_of_not_writable h]
  rfl

/-- Nor does anchoring. -/
theorem slot_of_anchor {p q : Pipeline} (h : Text.Writable p.slot) {bankHash : Bytes32}
    (hanchor : p.anchor s bank blockhash trusted = .ok (q, .ok bankHash)) : q.slot = p.slot := by
  cases hget : trusted.get? p.slot with
  | none =>
      simp only [anchor, History.trustedHash, hget, pure, Except.pure, bind, Except.bind] at hanchor
      cases hruling : trusted.notFound p.slot .trusted with
      | error refusal =>
          simp only [hruling] at hanchor
          cases hanchor
      | ok v =>
          obtain ⟨next, hnext⟩ := reject_of_writable h v
          simp only [hruling, hnext] at hanchor
          cases hanchor
  | some known =>
      simp only [anchor, History.trustedHash, hget, pure, Except.pure, bind, Except.bind] at hanchor
      rcases hall : p.recordAll [Except.ok (bank.verifyBlockhash blockhash),
        Except.ok (bank.verify s known.bytes)] with refusal | ⟨next, _ | rejection⟩
      · simp only [hall] at hanchor
        cases hanchor
      · simp only [hall] at hanchor
        cases hanchor
        exact slot_of_recordAll h hall
      · simp only [hall] at hanchor
        cases hanchor

/-- The stages accept just when the trusted history records for the slot the hash that the parts
make, the parts are those of the block, and all stages that follow accept. -/
theorem anchorRulings_ok_iff {prior : List Check} {slot : Int} {rest : Bytes32 → List Ruling} :
    (Ruling.stages prior (anchorRulings s bank blockhash trusted slot rest)).ok = true ↔
      trusted.Records slot (bank.hash s) ∧ bank.blockhash.bytes = blockhash ∧
        ∀ r ∈ rest (bank.hash s), r.ok = true := by
  rw [Ruling.stages_ok_iff, anchorRulings]
  cases hget : trusted.get? slot with
  | none =>
      constructor
      · intro h
        rw [List.forall_mem_singleton, notFound_ok] at h
        cases h
      · rintro ⟨hrecords, -⟩
        rw [← History.get?_eq_some_iff, hget] at hrecords
        cases hrecords
  | some known =>
      simp only [List.forall_mem_cons, Ruling.ok_ok, Bank.verifyBlockhash_ok_iff,
        Bank.verify_ok_iff]
      rw [History.get?_eq_some_iff] at hget
      constructor
      · rintro ⟨hblockhash, hbank, hrest⟩
        obtain rfl := Bytes32.ext hbank
        exact ⟨hget, hblockhash, hrest⟩
      · rintro ⟨hrecords, hblockhash, hrest⟩
        obtain rfl := hget.unique hrecords
        exact ⟨hblockhash, rfl, hrest⟩

/-- The stages keep the shape of verdicts, whether or not the history holds a hash for the slot. -/
theorem anchorRulings_settles {prior : List Check} (hprior : ∀ check ∈ prior, check.ok = true)
    {slot : Int} {rest : Bytes32 → List Ruling} {names : List String} {numbers : List Int}
    (hslot : slot ∈ numbers) (hrest : ∀ known, List.Forall₂
      (fun name r => r.Settles (Verdict.Staged [name]) numbers) names (rest known)) :
    (Ruling.stages prior (anchorRulings s bank blockhash trusted slot rest)).Settles
      (Verdict.Staged (prior.map (·.id) ++
        Bank.blockhashCheckName :: Bank.checkName :: names)) numbers := by
  rw [anchorRulings]
  cases hget : trusted.get? slot with
  | some known =>
      exact Ruling.settles_stages hprior
        (.cons (.told (Bank.verifyBlockhash_staged _ _))
          (.cons (.told (Bank.verify_staged _ _ _)) (hrest known)))
  | none =>
      -- A missing slot takes the place of all names, for no stage is reached.
      have hreject := notFound_ok trusted slot .trusted
      have hsettles := trusted.notFound_settles slot .trusted
        (List.cons_ne_nil Bank.blockhashCheckName (Bank.checkName :: names))
      simp only
      cases hruling : trusted.notFound slot .trusted with
      | error refusal =>
          rw [hruling] at hsettles
          exact .refused (List.mem_singleton.1 hsettles.of_error ▸ hslot)
      | ok v =>
          rw [hruling] at hsettles hreject
          rw [Ruling.stages_cons_of_rejected hreject]
          exact .told (hsettles.of_ok.withPrior hreject hprior)

end Anchor

end Pipeline

/-! ### Workers

A pool computes every value before any of them is looked at, one worker computes them in turn.
Looked at in order, the first failure is the same. -/

section Workers

variable {ε α : Type} {count : Nat} {f : Fin count → Except ε α}

/-- However many workers there are, the values are those that one worker computes, and the first
refusal is the same. -/
theorem mapOrdered_eq_mapInTurn (s : Settings) (f : Fin count → Except ε α) :
    mapOrdered s f = mapInTurn f := by
  rw [mapOrdered]
  split
  · rfl
  · rw [mapPooled, mapInTurn, List.mapM_map]
    rfl

/-- A list of computations succeeds just when each of them does. -/
theorem mapM_eq_ok_iff {β : Type} {g : β → Except ε α} {items : List β} {values : List α} :
    items.mapM g = .ok values ↔
      List.Forall₂ (fun item value => g item = .ok value) items values := by
  induction items generalizing values with
  | nil =>
      rw [List.mapM_nil, List.forall₂_nil_left_iff]
      constructor
      · rintro ⟨⟩
        rfl
      · rintro rfl
        rfl
  | cons item rest ih =>
      rw [List.mapM_cons, bind_eq_ok, List.forall₂_cons_left_iff]
      constructor
      · rintro ⟨value, hvalue, hrest⟩
        obtain ⟨others, hothers, hvalues⟩ := bind_eq_ok.1 hrest
        cases hvalues
        exact ⟨value, others, hvalue, ih.1 hothers, rfl⟩
      · rintro ⟨value, others, hvalue, hothers, rfl⟩
        refine ⟨value, hvalue, bind_eq_ok.2 ⟨others, ih.2 hothers, rfl⟩⟩

/-- A refusal is that of one of the values. -/
theorem exists_of_mapM_eq_error {β : Type} {g : β → Except ε α} {items : List β} {e : ε}
    (h : items.mapM g = .error e) : ∃ item ∈ items, g item = .error e := by
  induction items with
  | nil => cases h
  | cons item rest ih =>
      rw [List.mapM_cons, bind_eq_error] at h
      rcases h with h | ⟨value, -, h⟩
      · exact ⟨item, List.mem_cons_self, h⟩
      · rw [bind_eq_error] at h
        rcases h with h | ⟨_, _, h⟩
        · obtain ⟨other, hother, herror⟩ := ih h
          exact ⟨other, List.mem_cons_of_mem _ hother, herror⟩
        · cases h

/-- All values are there just when the list has each of them in its place. -/
theorem mapInTurn_eq_ok_iff {values : List α} :
    mapInTurn f = .ok values ↔
      List.Forall₂ (fun place value => f place = .ok value) (List.finRange count) values :=
  mapM_eq_ok_iff

/-- What ends the turn is the failure of one of its members. -/
theorem exists_of_mapInTurn_eq_error {e : ε} (h : mapInTurn f = .error e) :
    ∃ place, f place = .error e := by
  obtain ⟨place, -, hplace⟩ := exists_of_mapM_eq_error h
  exact ⟨place, hplace⟩

end Workers

end SlotEvidence
