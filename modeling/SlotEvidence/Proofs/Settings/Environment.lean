/-
Module: SlotEvidence.Proofs.Settings.Environment
Purpose: Settings are read back from their own mapping, and the environment changes the fields whose
  variables are set and no others.  A fault is that of one variable alone.  Changing settings twice
  is changing them once, and the settings of the environment alone are the standard ones with its
  changes, also in the fault that comes first.
Trusted boundary: none
Main exports: Settings.setText?, Settings.withEnvironment_eq, Settings.ofMembers_toMembers,
  Settings.environment_replaces_set_fields
-/
import Mathlib.Logic.Function.Basic
import SlotEvidence.Proofs.Settings.Exact

namespace SlotEvidence

namespace Settings

/-- The environment variable of a field.  No variable sets the filling of groups. -/
def Field.variableName? : Field → Option String
  | .algorithm => some "ANCHOR_HASH_ALGORITHM"
  | .fanout => some "ANCHOR_MERKLE_FANOUT"
  | .chunkSize => some "ANCHOR_CHUNK_SIZE"
  | .historyWindow => some "ANCHOR_HISTORY_WINDOW"
  | .padPartialGroups => some "ANCHOR_PAD_PARTIAL_GROUPS"
  | .emptyChild => none
  | .maxWorkers => some "ANCHOR_MAX_WORKERS"

/-- The text that the environment sets a field to.  An empty one counts as none. -/
def setText? (environment : Environment) (f : Field) : Option String :=
  (f.variableName?.bind (Members.get? environment)).filter (· ≠ "")

/-- The value of a field in the mapping of settings: byte strings are in their written form. -/
def shown (s : Settings) : Field → Value
  | .emptyChild => .text s.emptyChild.hex
  | f => s.held f

/-- The mapping with a value for each field. -/
def table (values : Field → Value) : Members Value := named (Field.all.map fun f => (f, values f))

/-- The fields for which there is a value, in their order. -/
def chosen (new? : Field → Option Value) (fields : List Field) : List (Field × Value) :=
  fields.filterMap fun f => (new? f).map (f, ·)

section Chosen

variable {new? : Field → Option Value} {f : Field} (fields : List Field)

theorem chosen_cons_of_none (h : new? f = none) :
    chosen new? (f :: fields) = chosen new? fields := by
  simp [chosen, h]

theorem chosen_cons_of_some {v : Value} (h : new? f = some v) :
    chosen new? (f :: fields) = (f, v) :: chosen new? fields := by
  simp [chosen, h]

end Chosen

theorem toMembers_eq (s : Settings) : s.toMembers = table s.shown := rfl

/-- What settings show is read as what they hold. -/
theorem readField_shown (s : Settings) (f : Field) : readField f (s.shown f) = .ok (s.held f) := by
  cases f with
  | emptyChild =>
      have hread : readBytes .emptyChild (.text s.emptyChild.hex) = .ok s.emptyChild.bytes :=
        mapError_eq_ok.2 (Hex.decode_encode _)
      exact map_eq_ok.2 ⟨_, hread, rfl⟩
  | algorithm | fanout | chunkSize | historyWindow | padPartialGroups | maxWorkers => rfl

/-! ### Changes

An overlay is a change of the table that settings are shown as, at the fields whose variables are
set. -/

/-- Changing one entry of the table changes the value of one field. -/
theorem put_table (values : Field → Value) (f : Field) (v : Value) :
    (table values).put f.name v = table (Function.update values f v) := by
  cases f <;> rfl

/-- Changes of fields are made in the mapping of all fields, where each one has its place. -/
theorem putAll_table (new? : Field → Option Value) (fields : List Field) (values : Field → Value) :
    (table values).putAll (named (chosen new? fields)) =
      table fun f => if f ∈ fields then (new? f).getD (values f) else values f := by
  induction fields generalizing values with
  | nil => simp [chosen, named, Members.putAll]
  | cons f rest ih =>
      cases hf : new? f with
      | none =>
          rw [chosen_cons_of_none _ hf, ih]
          congr 1
          funext g
          by_cases hg : g = f
          · simp [hg, hf]
          · simp [hg]
      | some v =>
          rw [chosen_cons_of_some _ hf]
          change ((table values).put f.name v).putAll (named (chosen new? rest)) = _
          rw [put_table, ih]
          congr 1
          funext g
          by_cases hg : g = f
          · simp [hg, hf]
          · simp [hg]

/-- The fields that the environment changes and their new values. -/
def changed? (environment : Environment) (f : Field) : Option Value :=
  (setText? environment f).map .text

/-- The overrides are the changed fields in the order in which they are listed. -/
theorem overrides_eq (environment : Environment) :
    overrides environment = named (chosen (changed? environment) Field.all) := by
  have hvariables : variableFields = Field.all.filterMap fun f => f.variableName?.map (·, f) := rfl
  rw [overrides, hvariables, List.filterMap_filterMap, named, chosen, List.map_filterMap]
  congr 1
  funext f
  cases hvariable : f.variableName? with
  | none => simp [changed?, setText?, hvariable]
  | some name =>
      cases htext : Members.get? environment name with
      | none => simp [changed?, setText?, hvariable, htext]
      | some text =>
          by_cases hempty : text = ""
          · simp [changed?, setText?, hvariable, htext, hempty]
          · simp [changed?, setText?, hvariable, htext, hempty]

/-- The value of each field after the changes of the environment. -/
def overlay (s : Settings) (environment : Environment) (f : Field) : Value :=
  (changed? environment f).getD (s.shown f)

section Table

variable {values : Field → Value} {s t : Settings}

theorem mem_table {f : Field} {v : Value} : (f.name, v) ∈ table values ↔ v = values f := by
  rw [table, mem_named, List.mem_map]
  constructor
  · rintro ⟨g, -, heq⟩
    obtain ⟨rfl, rfl⟩ := Prod.mk.inj heq
    rfl
  · rintro rfl
    exact ⟨f, by cases f <;> decide, rfl⟩

theorem name_mem_table (f : Field) : f.name ∈ (table values).names :=
  List.mem_map_of_mem (mem_table.2 rfl)

theorem nodup_table : (table values).names.Nodup := by
  have hnames : (table values).names = Field.all.map Field.name := rfl
  rw [hnames]
  decide

/-- With a value for each field, settings come out just when all are read as what they hold. -/
theorem ofMembers_table_eq_ok_iff :
    ofMembers (table values) = .ok s ↔ ∀ f, readField f (values f) = .ok (s.held f) := by
  rw [ofMembers_eq_ok_iff nodup_table]
  constructor
  · rintro ⟨-, hread, -⟩ f
    exact hread f (values f) (mem_table.2 rfl)
  · refine fun hread => ⟨allKnown_named _, fun f given hmem => ?_, fun f hf => ?_⟩
    · rw [mem_table.1 hmem]
      exact hread f
    · exact absurd (name_mem_table f) hf

end Table

/-- What settings are shown as loads as these settings. -/
theorem ofMembers_toMembers (s : Settings) : ofMembers s.toMembers = .ok s := by
  rw [toMembers_eq]
  exact ofMembers_table_eq_ok_iff.2 (readField_shown s)

/-- Changing settings loads the mapping with the changed values. -/
theorem withEnvironment_eq (s : Settings) (environment : Environment) :
    s.withEnvironment environment = ofMembers (table (s.overlay environment)) := by
  have hputs : s.toMembers.putAll (overrides environment) = table (s.overlay environment) := by
    rw [toMembers_eq, overrides_eq, putAll_table]
    congr 1
    funext f
    exact if_pos (by cases f <;> decide)
  unfold withEnvironment
  split
  · rename_i hnone
    rw [hnone] at hputs
    rw [← hputs]
    exact (ofMembers_toMembers s).symm
  · rw [hputs]

/-! ### One variable

A variable that is set is read as the text of its field. -/

section Variables

variable {s t : Settings} {environment : Environment} {f : Field} {text : String} {fault : Fault}

/-- What is read of a text is what loading the text alone holds. -/
theorem readField_text_iff_alone :
    readField f (.text text) = .ok (t.held f) ↔
      ∃ r, ofMembers [(f.name, .text text)] = .ok r ∧ t.held f = r.held f := by
  have hdistinct : Members.names [(f.name, Value.text text)] |>.Nodup :=
    List.nodup_cons.2 ⟨List.not_mem_nil, List.nodup_nil⟩
  have hread {r : Settings} (h : ofMembers [(f.name, .text text)] = .ok r) :
      readField f (.text text) = .ok (r.held f) :=
    ((ofMembers_eq_ok_iff hdistinct).1 h).2.1 f _ List.mem_cons_self
  constructor
  · intro h
    cases hmade : ofMembers [(f.name, Value.text text)] with
    | ok r =>
        have hheld := hread hmade
        rw [h] at hheld
        exact ⟨r, rfl, Except.ok.inj hheld⟩
    | error fault =>
        -- A member that is read as what settings hold is at fault in neither way.
        cases faulty_iff_alone.2 hmade with
        | unreadable hunreadable =>
            rw [h] at hunreadable
            cases hunreadable
        | refused hvalue hobjection =>
            rw [h] at hvalue
            cases hvalue
            rw [objection?_held] at hobjection
            cases hobjection
  · rintro ⟨r, hmade, hheld⟩
    rw [hheld]
    exact hread hmade

/-- What settings show has no fault. -/
theorem not_faulty_shown : ¬ Faulty f (s.shown f) fault := by
  intro h
  cases h with
  | unreadable h =>
      rw [readField_shown] at h
      cases h
  | refused h hobjection =>
      rw [readField_shown] at h
      cases h
      rw [objection?_held] at hobjection
      cases hobjection

/-- A text is no infinity and shows no integer, so that whatever is wrong with it is reported. -/
theorem isConfiguration_of_text (h : ofMembers [(f.name, .text text)] = .error fault) :
    fault.IsConfiguration := by
  rcases ofMembers_eq_error_cases h with hreport | ⟨g, given, hmem, hother⟩
  · exact hreport
  · obtain ⟨-, rfl⟩ := Prod.mk.inj (List.mem_singleton.1 hmem)
    rcases hother with ⟨-, hinfinity⟩ | ⟨⟨_, -, hmem⟩, -⟩
    · cases hinfinity
    · cases hmem

theorem overlay_of_some (h : setText? environment f = some text) :
    s.overlay environment f = .text text := by
  simp [overlay, changed?, h]

theorem overlay_of_none (h : setText? environment f = none) :
    s.overlay environment f = s.shown f := by
  simp [overlay, changed?, h]

/-! ### All variables

The overlay reads every variable that is set and leaves the other fields alone, or it reports the
first one at fault in the order of the fields. -/

/-- Changed settings hold what the set variables read as, and the old values elsewhere. -/
theorem withEnvironment_eq_ok_iff :
    s.withEnvironment environment = .ok t ↔ ∀ f,
      (∀ text, setText? environment f = some text →
        ∃ r, ofMembers [(f.name, .text text)] = .ok r ∧ t.held f = r.held f) ∧
      (setText? environment f = none → t.held f = s.held f) := by
  rw [withEnvironment_eq, ofMembers_table_eq_ok_iff]
  refine forall_congr' fun f => ?_
  cases htext : setText? environment f with
  | none => simp [overlay_of_none htext, readField_shown, eq_comm]
  | some text => simp [overlay_of_some htext, readField_text_iff_alone]

/-- The fault of a change is that of one variable by itself. -/
theorem withEnvironment_eq_error (h : s.withEnvironment environment = .error fault) :
    ∃ f text, setText? environment f = some text ∧
      ofMembers [(f.name, .text text)] = .error fault := by
  rw [withEnvironment_eq] at h
  rcases ofMembers_eq_error h with ⟨hunknown, -⟩ | ⟨f, given, hmem, hfaulty⟩
  · exact absurd (allKnown_named _) hunknown
  · rw [mem_table.1 hmem] at hfaulty
    cases htext : setText? environment f with
    | none =>
        rw [overlay_of_none htext] at hfaulty
        exact absurd hfaulty not_faulty_shown
    | some text =>
        rw [overlay_of_some htext] at hfaulty
        exact ⟨f, text, htext, faulty_iff_alone.1 hfaulty⟩

end Variables

/-- Reading nothing for a field leaves it at its standard value, as reading that value does. -/
theorem load_chosen (new? : Field → Option Value) {fields : List Field} (hdistinct : fields.Nodup)
    {d : Draft} (hd : ∀ f ∈ fields, d.get f = standard.held f) :
    load d (chosen new? fields) =
      load d (fields.map fun f => (f, (new? f).getD (standard.shown f))) := by
  induction fields generalizing d with
  | nil => rfl
  | cons f rest ih =>
      obtain ⟨hnew, hrest⟩ := List.nodup_cons.1 hdistinct
      have hothers : ∀ g ∈ rest, d.get g = standard.held g := fun g hg =>
        hd g (List.mem_cons_of_mem _ hg)
      cases hf : new? f with
      | none =>
          rw [chosen_cons_of_none _ hf, List.map_cons, load_cons, hf, Option.getD_none,
            readField_shown, ← hd f List.mem_cons_self]
          change _ = load (d.set f (d.get f)) _
          rw [Draft.set_get, ih hrest hothers]
      | some v =>
          rw [chosen_cons_of_some _ hf, List.map_cons, load_cons, load_cons, hf, Option.getD_some]
          congr 1
          funext read
          refine ih hrest fun g hg => ?_
          have hne : g ≠ f := fun heq => hnew (heq ▸ hg)
          rw [Draft.get_set_of_ne _ _ hne, hothers g hg]

/-- The settings of the environment alone are the standard ones with its changes. -/
theorem ofEnvironment_eq (environment : Environment) :
    ofEnvironment environment = standard.withEnvironment environment := by
  have hstandard : ∀ f ∈ Field.all, ({} : Draft).get f = standard.held f := fun f _ =>
    Draft.get_standard f
  rw [withEnvironment_eq, ofEnvironment, overrides_eq, table, ofMembers_named, ofMembers_named,
    load_chosen _ (by decide) hstandard]
  rfl

/-- Settings are read back from their own mapping.  The environment gives them, in the fields whose
variables are set, the values that are read of the variables, and leaves the others as they are, the
filling of groups always.  It does so just when each variable that is set can be loaded by itself;
otherwise the fault is reported, and is that of one of the variables by itself.  Its changes made
twice are its changes, and made to the standard settings they are what the environment gives
alone. -/
theorem environment_replaces_set_fields (s : Settings) (environment : Environment) :
    ofMembers s.toMembers = .ok s ∧
      (∀ t, s.withEnvironment environment = .ok t ↔ ∀ f,
        (∀ text, setText? environment f = some text →
          ∃ r, ofMembers [(f.name, .text text)] = .ok r ∧ t.held f = r.held f) ∧
        (setText? environment f = none → t.held f = s.held f)) ∧
      (∀ t, s.withEnvironment environment = .ok t → t.emptyChild = s.emptyChild) ∧
      ((∃ t, s.withEnvironment environment = .ok t) ↔ ∀ f text,
        setText? environment f = some text → ∃ r, ofMembers [(f.name, .text text)] = .ok r) ∧
      (∀ fault, s.withEnvironment environment = .error fault → fault.IsConfiguration ∧
        ∃ f text, setText? environment f = some text ∧
          ofMembers [(f.name, .text text)] = .error fault) ∧
      (s.withEnvironment environment >>= fun t => t.withEnvironment environment) =
        s.withEnvironment environment ∧
      ofEnvironment environment = standard.withEnvironment environment := by
  refine ⟨ofMembers_toMembers s, fun t => withEnvironment_eq_ok_iff, fun t h => ?_,
    ⟨?_, fun h => ?_⟩, fun fault h => ?_, ?_, ofEnvironment_eq environment⟩
  · have hheld := (withEnvironment_eq_ok_iff.1 h .emptyChild).2 rfl
    exact Bytes32.ext (Value.bytes.inj hheld)
  · rintro ⟨t, h⟩ f text htext
    obtain ⟨r, hmade, -⟩ := (withEnvironment_eq_ok_iff.1 h f).1 text htext
    exact ⟨r, hmade⟩
  · cases hmade : s.withEnvironment environment with
    | ok t => exact ⟨t, rfl⟩
    | error fault =>
        obtain ⟨f, text, htext, herror⟩ := withEnvironment_eq_error hmade
        obtain ⟨r, halone⟩ := h f text htext
        rw [herror] at halone
        cases halone
  · obtain ⟨f, text, htext, herror⟩ := withEnvironment_eq_error h
    exact ⟨isConfiguration_of_text herror, f, text, htext, herror⟩
  · cases hmade : s.withEnvironment environment with
    | error fault => rfl
    | ok t =>
        -- The second overlay reads the same variables and finds in the other fields what the first
        -- has left there.
        change t.withEnvironment environment = .ok t
        rw [withEnvironment_eq_ok_iff] at hmade ⊢
        exact fun f => ⟨(hmade f).1, fun _ => rfl⟩

/-- Settings that differ from the standard ones in three fields. -/
def narrow : Settings :=
  { standard with fanout := 8, two_le_fanout := by decide, padPartialGroups := false,
                  emptyChild := ⟨List.replicate hashLength 7, List.length_replicate⟩ }

/-- An environment that sets one field; an empty variable sets none. -/
def sixteenBytes : Environment :=
  [("ANCHOR_CHUNK_SIZE", " 1_6 "), ("ANCHOR_MERKLE_FANOUT", "")]

theorem narrow_in_sixteenBytes :
    setText? sixteenBytes .chunkSize = some " 1_6 " ∧ setText? sixteenBytes .fanout = none ∧
      narrow.withEnvironment sixteenBytes =
        .ok { narrow with chunkSize := 16, chunkSize_pos := by decide } := by
  have hset : setText? sixteenBytes .chunkSize = some " 1_6 " := by decide
  refine ⟨hset, by decide, ((environment_replaces_set_fields narrow sixteenBytes).2.1 _).2 ?_⟩
  have hread : readField .chunkSize (.text " 1_6 ") =
      .ok (held { narrow with chunkSize := 16, chunkSize_pos := by decide } .chunkSize) :=
    readField_held_iff.2 (.inl (.integer (by decide) denotesInteger_sixteen))
  intro f
  cases f with
  | chunkSize =>
      refine ⟨fun text htext => ?_, fun hnone => ?_⟩
      · rw [hset] at htext
        cases htext
        exact readField_text_iff_alone.1 hread
      · rw [hset] at hnone
        cases hnone
  | algorithm | fanout | historyWindow | padPartialGroups | emptyChild | maxWorkers =>
      exact ⟨nofun, fun _ => rfl⟩

end Settings

end SlotEvidence
