/-
Module: SlotEvidence.Proofs.Settings.Draft
Purpose: The checks that make settings of a draft, field by field.  A draft gives the settings that
  hold its values, and what is refused is refused for the value of one field, whatever the other
  fields are.
Trusted boundary: none
Main exports: Settings.held, Settings.objection?, Settings.ofDraft_eq_ok_iff,
  Settings.exists_objection, Settings.Fault.IsConfiguration,
  Settings.Fault.isConfiguration_or_refused
-/
import SlotEvidence.Proofs.Outcome
import SlotEvidence.Proofs.Text.Decimal
import SlotEvidence.Settings

namespace SlotEvidence

namespace Settings

/-- The fields that hold integers. -/
def Field.integers : List Field := [.fanout, .chunkSize, .historyWindow, .maxWorkers]

/-- The value that settings hold in a field. -/
def held (s : Settings) : Field → Value
  | .algorithm => .text s.algorithm.name
  | .fanout => .int s.fanout
  | .chunkSize => .int s.chunkSize
  | .historyWindow => .int s.historyWindow
  | .padPartialGroups => .bool s.padPartialGroups
  | .emptyChild => .bytes s.emptyChild.bytes
  | .maxWorkers => .int s.maxWorkers

namespace Draft

/-- The value of a field in a draft. -/
def get (d : Draft) : Field → Value
  | .algorithm => d.algorithm
  | .fanout => d.fanout
  | .chunkSize => d.chunkSize
  | .historyWindow => d.historyWindow
  | .padPartialGroups => d.padPartialGroups
  | .emptyChild => d.emptyChild
  | .maxWorkers => d.maxWorkers

@[simp] theorem get_set_self (d : Draft) (f : Field) (v : Value) : (d.set f v).get f = v := by
  cases f <;> rfl

theorem get_set_of_ne (d : Draft) {f g : Field} (v : Value) (h : g ≠ f) :
    (d.set f v).get g = d.get g := by
  cases f <;> cases g <;> first | rfl | exact absurd rfl h

/-- A draft is given by the values of its fields. -/
theorem ext_get {d e : Draft} (h : ∀ f, d.get f = e.get f) : d = e := by
  have hall : d = ⟨d.get .algorithm, d.get .fanout, d.get .chunkSize, d.get .historyWindow,
      d.get .padPartialGroups, d.get .emptyChild, d.get .maxWorkers⟩ := rfl
  rw [hall]
  simp only [h]
  rfl

/-- Setting a field to the value that it has changes nothing. -/
theorem set_get (d : Draft) (f : Field) : d.set f (d.get f) = d := by
  cases f <;> rfl

/-- The draft of which the standard settings are made. -/
@[simp] theorem get_standard (f : Field) : ({} : Draft).get f = standard.held f := by
  cases f <;> rfl

end Draft

/-- What the checks have against a value as that of a field. -/
def objection? (f : Field) (v : Value) : Option Fault :=
  match f with
  | .algorithm =>
      match v with
      | .text name =>
          if (Digest.Algorithm.ofName? name).isSome then none else some (.unknownAlgorithm v)
      | v => some (.unknownAlgorithm v)
  | .fanout =>
      match v with
      | .int n => if 2 ≤ n.toNat then none else some (.fanoutTooSmall n)
      | v => some (.notAnInteger f v)
  | .chunkSize | .historyWindow | .maxWorkers =>
      match v with
      | .int n => if 0 < n.toNat then none else some (.notPositive f n)
      | v => some (.notAnInteger f v)
  | .padPartialGroups =>
      match v with
      | .bool _ => none
      | _ => some .paddingNotBoolean
  | .emptyChild =>
      match v with
      | .bytes b => if b.length = hashLength then none else some .emptyChildNotHash
      | _ => some .emptyChildNotHash

/-- There is nothing against a value that settings hold. -/
@[simp] theorem objection?_held (s : Settings) (f : Field) : objection? f (s.held f) = none := by
  cases f with
  | algorithm => simp [objection?, held]
  | fanout => simp [objection?, held, s.two_le_fanout]
  | chunkSize => simp [objection?, held, s.chunkSize_pos]
  | historyWindow => simp [objection?, held, s.historyWindow_pos]
  | maxWorkers => simp [objection?, held, s.maxWorkers_pos]
  | padPartialGroups => rfl
  | emptyChild => simp [objection?, held, s.emptyChild.length_bytes]

/-! ### The single checks

The checks of a constructor are made one field at a time.  A check passes with what the field holds,
or fails with the objection of the field. -/

section Checks

variable {f : Field} {v : Value} {n : Int} {fault : Fault}

/-- The algorithm is taken from its own name only. -/
theorem eq_of_draftAlgorithm {algorithm : Digest.Algorithm}
    (h : draftAlgorithm v = .ok algorithm) : v = .text algorithm.name := by
  unfold draftAlgorithm at h
  split at h
  · split at h
    · rename_i found hfind
      cases h
      have hname := List.find?_some hfind
      rw [eq_of_beq hname]
    · cases h
  · cases h

/-- Where no algorithm is taken, the value meets the objection of the field. -/
theorem draftAlgorithm_eq_error (h : draftAlgorithm v = .error fault) :
    objection? .algorithm v = some fault := by
  cases v with
  | text name =>
      unfold draftAlgorithm at h
      dsimp only at h
      split at h
      · cases h
      · rename_i hnone
        cases h
        simp [objection?, hnone]
  | _ => cases h; rfl

theorem eq_of_draftInteger (h : draftInteger f v = .ok n) : v = .int n := by
  cases v <;> cases h
  rfl

/-- Where no integer is taken, the value meets the objection of the field. -/
theorem draftInteger_eq_error (hf : f ∈ Field.integers)
    (h : draftInteger f v = .error fault) : objection? f v = some fault := by
  simp only [Field.integers, List.mem_cons, List.not_mem_nil, or_false] at hf
  rcases hf with rfl | rfl | rfl | rfl <;> cases v <;> cases h <;> rfl

theorem eq_of_branching {m : { m : Nat // 2 ≤ m }} (h : branching n = .ok m) : n = m := by
  unfold branching at h
  split at h
  · cases h
    exact (Int.toNat_of_nonneg (by omega)).symm
  · cases h

/-- A fanout below two meets the objection of the field. -/
theorem branching_eq_error (h : branching n = .error fault) :
    objection? .fanout (.int n) = some fault := by
  unfold branching at h
  split at h
  · cases h
  · rename_i hsmall
    cases h
    exact if_neg hsmall

theorem eq_of_positive {m : { m : Nat // 0 < m }} (h : positive f n = .ok m) : n = m := by
  unfold positive at h
  split at h
  · cases h
    exact (Int.toNat_of_nonneg (by omega)).symm
  · cases h

/-- A count that is not positive meets the objection of its field. -/
theorem positive_eq_error (hf : f ∈ [.chunkSize, .historyWindow, .maxWorkers])
    (h : positive f n = .error fault) : objection? f (.int n) = some fault := by
  unfold positive at h
  split at h
  · cases h
  · rename_i hsmall
    cases h
    simp only [List.mem_cons, List.not_mem_nil, or_false] at hf
    rcases hf with rfl | rfl | rfl <;> exact if_neg hsmall

theorem eq_of_draftPadding {b : Bool} (h : draftPadding v = .ok b) : v = .bool b := by
  cases v <;> cases h
  rfl

/-- Where no truth value is taken, the value meets the objection of the field. -/
theorem draftPadding_eq_error (h : draftPadding v = .error fault) :
    objection? .padPartialGroups v = some fault := by
  cases v <;> cases h <;> rfl

theorem eq_of_draftChild {child : Bytes32} (h : draftChild v = .ok child) :
    v = .bytes child.bytes := by
  unfold draftChild at h
  split at h
  · split at h
    · rename_i hsome
      cases h
      rw [Bytes32.ofBytes?_eq_some_iff.1 hsome]
    · cases h
  · cases h

/-- Where no 32 bytes are taken, the value meets the objection of the field. -/
theorem draftChild_eq_error (h : draftChild v = .error fault) :
    objection? .emptyChild v = some fault := by
  cases v with
  | bytes b =>
      unfold draftChild at h
      dsimp only at h
      split at h
      · cases h
      · rename_i hnone
        cases h
        refine if_neg fun hlength => ?_
        rw [Bytes32.ofBytes?, dif_pos hlength] at hnone
        cases hnone
  | _ => cases h; rfl

end Checks

/-! ### All checks

Settings are made just from their own draft, and a draft that makes none meets an objection in one
of its fields. -/

/-- The draft that shows the values of settings. -/
def draft (s : Settings) : Draft :=
  ⟨s.held .algorithm, s.held .fanout, s.held .chunkSize, s.held .historyWindow,
    s.held .padPartialGroups, s.held .emptyChild, s.held .maxWorkers⟩

theorem get_draft (s : Settings) (f : Field) : s.draft.get f = s.held f := by
  cases f <;> rfl

/-- Settings are made from their own draft. -/
theorem ofDraft_draft (s : Settings) : ofDraft s.draft = .ok s := by
  have hpositive (f : Field) {n : Nat} (h : 0 < n) : positive f n = .ok ⟨n, h⟩ := by
    simp [positive, h]
  simp [ofDraft, draft, held, draftAlgorithm, draftInteger, branching, draftPadding, draftChild,
    s.two_le_fanout, hpositive _ s.chunkSize_pos, hpositive _ s.historyWindow_pos,
    hpositive _ s.maxWorkers_pos, bind, Except.bind]

/-- A draft gives the settings that hold its values. -/
theorem ofDraft_eq_ok_iff {d : Draft} {s : Settings} :
    ofDraft d = .ok s ↔ ∀ f, d.get f = s.held f := by
  constructor
  · intro h
    unfold ofDraft at h
    simp only [bind_eq_ok] at h
    obtain ⟨algorithm, halgorithm, fanout, hfanout, chunkSize, hchunkSize, historyWindow,
      hhistoryWindow, maxWorkers, hmaxWorkers, fanoutSize, hfanoutSize, chunkSizeSize,
      hchunkSizeSize, historyWindowSize, hhistoryWindowSize, maxWorkersSize, hmaxWorkersSize,
      padding, hpadding, child, hchild, h⟩ := h
    cases h
    have hsized {g : Field} {given : Value} {n : Int} {m : Nat}
        (hread : draftInteger g given = .ok n) (hsize : n = m) : given = .int m := by
      rw [eq_of_draftInteger hread, hsize]
    intro f
    cases f with
    | algorithm => exact eq_of_draftAlgorithm halgorithm
    | fanout => exact hsized hfanout (eq_of_branching hfanoutSize)
    | chunkSize => exact hsized hchunkSize (eq_of_positive hchunkSizeSize)
    | historyWindow => exact hsized hhistoryWindow (eq_of_positive hhistoryWindowSize)
    | maxWorkers => exact hsized hmaxWorkers (eq_of_positive hmaxWorkersSize)
    | padPartialGroups => exact eq_of_draftPadding hpadding
    | emptyChild => exact eq_of_draftChild hchild
  · intro h
    have hd : d = s.draft := Draft.ext_get fun f => by rw [h f, get_draft]
    rw [hd, ofDraft_draft]

/-- What is refused is refused for the value of some field. -/
theorem exists_objection {d : Draft} {fault : Fault} (h : ofDraft d = .error fault) :
    ∃ f, objection? f (d.get f) = some fault := by
  have hsized {f : Field} {given : Value} {n : Int} (hread : draftInteger f given = .ok n)
      (hobjection : objection? f (.int n) = some fault) : objection? f given = some fault := by
    rw [eq_of_draftInteger hread]
    exact hobjection
  -- The checks of types come first, for all fields, and the checks of sizes after them.
  unfold ofDraft at h
  simp only [bind_eq_error] at h
  rcases h with h | ⟨_, -, h⟩
  · exact ⟨.algorithm, draftAlgorithm_eq_error h⟩
  rcases h with h | ⟨_, hfanout, h⟩
  · exact ⟨.fanout, draftInteger_eq_error (by decide) h⟩
  rcases h with h | ⟨_, hchunkSize, h⟩
  · exact ⟨.chunkSize, draftInteger_eq_error (by decide) h⟩
  rcases h with h | ⟨_, hhistoryWindow, h⟩
  · exact ⟨.historyWindow, draftInteger_eq_error (by decide) h⟩
  rcases h with h | ⟨_, hmaxWorkers, h⟩
  · exact ⟨.maxWorkers, draftInteger_eq_error (by decide) h⟩
  rcases h with h | ⟨_, -, h⟩
  · exact ⟨.fanout, hsized hfanout (branching_eq_error h)⟩
  rcases h with h | ⟨_, -, h⟩
  · exact ⟨.chunkSize, hsized hchunkSize (positive_eq_error (by decide) h)⟩
  rcases h with h | ⟨_, -, h⟩
  · exact ⟨.historyWindow, hsized hhistoryWindow (positive_eq_error (by decide) h)⟩
  rcases h with h | ⟨_, -, h⟩
  · exact ⟨.maxWorkers, hsized hmaxWorkers (positive_eq_error (by decide) h)⟩
  rcases h with h | ⟨_, -, h⟩
  · exact ⟨.padPartialGroups, draftPadding_eq_error h⟩
  rcases h with h | ⟨_, -, h⟩
  · exact ⟨.emptyChild, draftChild_eq_error h⟩
  · cases h

/-!
### Reports

A fault that comes from the settings is reported as a bad configuration.  Only the text of the
report can be missing, where it would show an integer that has none; then the refusal to write that
integer is all that is told.
-/

/-- A fault that is reported as a bad configuration. -/
def Fault.IsConfiguration (fault : Fault) : Prop :=
  ∃ report, fault.report? = some report ∧ report.kind = .configuration

/-- A fault that has a message, and is no infinity, is reported as a bad configuration. -/
theorem Fault.isConfiguration_of_message {fault : Fault} {text : String}
    (hinside : fault.isOutside = false) (h : fault.message = .ok text) : fault.IsConfiguration := by
  have hreport : fault.report? =
      some (.configuration text ((fault.field?.map Field.name).getD "") fault.details) := by
    rw [Fault.report?, hinside, h]
    rfl
  exact ⟨_, hreport, rfl⟩

/-- A fault that comes from the settings is reported, or its text is refused for an integer. -/
theorem Fault.isConfiguration_or_refused {fault : Fault} (hinside : fault.isOutside = false) :
    fault.IsConfiguration ∨
      ∃ refusal, fault.message = .error refusal ∧ refusal.number ∈ fault.integers := by
  cases hmessage : fault.message with
  | ok text => exact .inl (isConfiguration_of_message hinside hmessage)
  | error refusal => exact .inr ⟨refusal, rfl, Text.Overlong.mem_of_written hmessage⟩

/-- Every objection comes from the settings. -/
theorem isOutside_of_objection {f : Field} {v : Value} {fault : Fault}
    (h : objection? f v = some fault) : fault.isOutside = false := by
  cases f <;> cases v <;> simp only [objection?, Option.ite_none_left_eq_some] at h
  all_goals first | cases h.2 | cases h
  all_goals rfl

end Settings

end SlotEvidence
