/-
Module: SlotEvidence.Proofs.Settings.Loading
Purpose: What the loading of settings does with its fields one after another.  Settings come out
  just when each given value is read as what they hold and the other fields have their standard
  values.  A fault comes from one field alone: the given value cannot be read, or it is refused.
Trusted boundary: none
Main exports: Settings.load, Settings.load_cons, Settings.Faulty, Settings.ofMembers_eq_ok_iff,
  Settings.ofMembers_eq_error, Settings.faulty_iff_alone, Settings.readFields_eq_error_iff
-/
import Mathlib.Data.List.Nodup
import SlotEvidence.Proofs.Settings.Draft
import SlotEvidence.Settings.Load

namespace SlotEvidence

namespace Settings

/-- Reads fields in order into a draft and makes settings of it. -/
def load (d : Draft) (fields : List (Field × Value)) : Except Fault Settings := do
  let read ← readFields fields
  ofDraft (read.foldl (fun d (field, value) => d.set field value) d)

/-- The first field is read, and what it is read as goes into the draft of the others. -/
theorem load_cons (d : Draft) (f : Field) (given : Value) (rest : List (Field × Value)) :
    load d ((f, given) :: rest) = readField f given >>= fun v => load (d.set f v) rest := by
  unfold load
  rw [readFields]
  cases readField f given with
  | error fault => rfl
  | ok v =>
      cases readFields rest with
      | error fault => rfl
      | ok read => rfl

/-- A fault that the value given for a field has by itself. -/
inductive Faulty (f : Field) (given : Value) (fault : Fault) : Prop where
  | unreadable (h : readField f given = .error fault)
  | refused {v : Value} (h : readField f given = .ok v) (hv : objection? f v = some fault)

section Fields

variable {fields : List (Field × Value)} {s : Settings} {fault : Fault}

/-- Loading succeeds just when every given value is read as what the settings hold and they hold the
draft's values elsewhere. -/
theorem load_eq_ok_iff (hdistinct : (fields.map (·.1)).Nodup) {d : Draft} :
    load d fields = .ok s ↔
      (∀ f given, (f, given) ∈ fields → readField f given = .ok (s.held f)) ∧
        ∀ f, f ∉ fields.map (·.1) → d.get f = s.held f := by
  induction fields generalizing d with
  | nil =>
      have hmade : load d [] = .ok s ↔ ∀ f, d.get f = s.held f := ofDraft_eq_ok_iff
      simpa using hmade
  | cons field rest ih =>
      obtain ⟨f, given⟩ := field
      obtain ⟨hnew, hrest⟩ := List.nodup_cons.1 hdistinct
      simp only [load_cons, bind_eq_ok, ih hrest]
      constructor
      · rintro ⟨v, hread, hfields, hothers⟩
        -- The rest does not name the first field again, so what it was set to is kept.
        have hv := hothers f hnew
        rw [Draft.get_set_self] at hv
        refine ⟨fun g given hmem => ?_, fun g hg => ?_⟩
        · rcases List.mem_cons.1 hmem with heq | hmem
          · cases heq
            rw [hread, hv]
          · exact hfields g given hmem
        · rw [List.map_cons, List.mem_cons, not_or] at hg
          rw [← hothers g hg.2, Draft.get_set_of_ne _ _ hg.1]
      · rintro ⟨hfields, hothers⟩
        refine ⟨s.held f, hfields f given List.mem_cons_self, fun g given hmem => ?_,
          fun g hg => ?_⟩
        · exact hfields g given (List.mem_cons_of_mem _ hmem)
        · rcases eq_or_ne g f with rfl | hne
          · exact Draft.get_set_self _ _ _
          · rw [Draft.get_set_of_ne _ _ hne]
            refine hothers g ?_
            rw [List.map_cons, List.mem_cons, not_or]
            exact ⟨hne, hg⟩

/-- A fault is that of a given value, or of the draft for a field that is not given. -/
theorem load_eq_error {d : Draft} (h : load d fields = .error fault) :
    (∃ f given, (f, given) ∈ fields ∧ Faulty f given fault) ∨
      ∃ f, objection? f (d.get f) = some fault := by
  induction fields generalizing d with
  | nil => exact .inr (exists_objection h)
  | cons field rest ih =>
      obtain ⟨f, given⟩ := field
      rw [load_cons, bind_eq_error] at h
      rcases h with hread | ⟨v, hread, h⟩
      · exact .inl ⟨f, given, List.mem_cons_self, .unreadable hread⟩
      · rcases ih h with ⟨g, other, hmem, hfaulty⟩ | ⟨g, hobjection⟩
        · exact .inl ⟨g, other, List.mem_cons_of_mem _ hmem, hfaulty⟩
        · rcases eq_or_ne g f with rfl | hne
          · rw [Draft.get_set_self] at hobjection
            exact .inl ⟨g, given, List.mem_cons_self, .refused hread hobjection⟩
          · rw [Draft.get_set_of_ne _ _ hne] at hobjection
            exact .inr ⟨g, hobjection⟩

/-- Reading fails at the first field that cannot be read. -/
theorem readFields_eq_error_iff :
    readFields fields = .error fault ↔
      ∃ before f given after, fields = before ++ (f, given) :: after ∧
        (∀ g other, (g, other) ∈ before → ∃ v, readField g other = .ok v) ∧
          readField f given = .error fault := by
  induction fields with
  | nil =>
      refine iff_of_false nofun ?_
      rintro ⟨before, f, given, after, hfields, -⟩
      cases before <;> cases hfields
  | cons field rest ih =>
      obtain ⟨f, given⟩ := field
      rw [readFields, bind_eq_error]
      constructor
      -- The first field is at fault, or it is read and the fault comes later.
      · rintro (hread | ⟨v, hread, h⟩)
        · exact ⟨[], f, given, rest, rfl, nofun, hread⟩
        · rcases bind_eq_error.1 h with h | ⟨_, _, h⟩
          · obtain ⟨before, g, other, after, rfl, hbefore, hother⟩ := ih.1 h
            refine ⟨(f, given) :: before, g, other, after, rfl, ?_, hother⟩
            intro g other hmem
            rcases List.mem_cons.1 hmem with heq | hmem
            · cases heq
              exact ⟨v, hread⟩
            · exact hbefore g other hmem
          · cases h
      · rintro ⟨before, g, other, after, hfields, hbefore, hother⟩
        cases before with
        | nil =>
            cases hfields
            exact .inl hother
        | cons field before =>
            cases hfields
            obtain ⟨v, hread⟩ := hbefore f given List.mem_cons_self
            refine .inr ⟨v, hread, bind_eq_error.2 (.inl (ih.2 ⟨before, g, other, after, rfl, ?_⟩))⟩
            exact ⟨fun g other hmem => hbefore g other (List.mem_cons_of_mem _ hmem), hother⟩

end Fields

/-! ### Mappings

Members under known names are fields with values; other names are refused before anything is read.
-/

/-- Fields under their names. -/
def named (fields : List (Field × Value)) : Members Value := fields.map fun (f, v) => (f.name, v)

theorem name_injective : Function.Injective Field.name := by
  intro f g h
  have hname := Field.ofName?_name f
  rw [h, Field.ofName?_name] at hname
  exact (Option.some.inj hname).symm

theorem names_named (fields : List (Field × Value)) :
    (named fields).names = (fields.map (·.1)).map Field.name := by
  simp [named, Members.names, Function.comp_def]

theorem mem_named {fields : List (Field × Value)} {f : Field} {v : Value} :
    (f.name, v) ∈ named fields ↔ (f, v) ∈ fields := by
  unfold named
  constructor
  · intro h
    obtain ⟨⟨g, w⟩, hmem, heq⟩ := List.mem_map.1 h
    obtain ⟨hname, rfl⟩ := Prod.mk.inj heq
    rwa [name_injective hname] at hmem
  · exact fun h => List.mem_map_of_mem h

/-- Every name in a mapping is that of a field. -/
def AllKnown (members : Members Value) : Prop := ∀ name ∈ members.names, ∃ f : Field, f.name = name

theorem allKnown_named (fields : List (Field × Value)) : AllKnown (named fields) := by
  intro name hname
  rw [names_named] at hname
  obtain ⟨f, -, rfl⟩ := List.mem_map.1 hname
  exact ⟨f, rfl⟩

/-- Members whose names are all known are the named values of fields. -/
theorem AllKnown.exists_named {members : Members Value} (h : AllKnown members) :
    ∃ fields, members = named fields := by
  induction members with
  | nil => exact ⟨[], rfl⟩
  | cons member rest ih =>
      obtain ⟨name, v⟩ := member
      obtain ⟨f, rfl⟩ := h name List.mem_cons_self
      obtain ⟨fields, rfl⟩ := ih fun name hmem => h name (List.mem_cons_of_mem _ hmem)
      exact ⟨(f, v) :: fields, rfl⟩

/-- Members under the names of fields are loaded field by field. -/
theorem ofMembers_named (fields : List (Field × Value)) :
    ofMembers (named fields) = load {} fields := by
  have hknown : knownFields ((named fields).map fun entry => (.text entry.1, entry.2)) =
      .ok fields := by
    simp [knownFields, named]
  rw [ofMembers, ofEntries, hknown]
  rfl

/-- Unknown names are told, and they are texts, as all names in a mapping are. -/
theorem exists_unknownFields {members : Members Value} (h : ¬ AllKnown members) :
    ∃ names, (∀ name ∈ names, name.integers = []) ∧
      ofMembers members = .error (.unknownFields names) := by
  simp only [AllKnown, not_forall, not_exists] at h
  obtain ⟨_, hname, hunknown⟩ := h
  obtain ⟨⟨name, v⟩, hmem, rfl⟩ := List.mem_map.1 hname
  have hnone : Field.ofName? name = none :=
    List.find?_eq_none.2 fun f _ heq => hunknown f (eq_of_beq heq)
  unfold ofMembers ofEntries knownFields
  dsimp only
  rw [if_neg]
  · refine ⟨_, fun key hkey => ?_, rfl⟩
    obtain ⟨entry, hentry, hsome⟩ := List.mem_filterMap.1 (List.mem_mergeSort.1 hkey)
    obtain ⟨⟨_, _⟩, -, rfl⟩ := List.mem_map.1 hentry
    dsimp only at hsome
    split at hsome
    · cases hsome
      rfl
    · cases hsome
  · intro hempty
    have hkey := List.filterMap_eq_nil_iff.1 (List.isEmpty_iff.1 hempty) (.text name, v)
      (List.mem_map_of_mem hmem)
    simp [hnone] at hkey

/-! ### The loading of a mapping

Reading, setting and checking each deal with a field of its own, so that the fault of a mapping is
the fault of one of its members alone. -/

section Mappings

variable {members : Members Value} {s : Settings} {fault : Fault}

/-- Members that are loaded have known names only. -/
theorem allKnown_of_ofMembers (h : ofMembers members = .ok s) : AllKnown members := by
  by_contra hunknown
  obtain ⟨names, -, herror⟩ := exists_unknownFields hunknown
  rw [herror] at h
  cases h

/-- Settings come out just when all names are known, each given value is read as what the settings
hold, and the other fields have their standard values. -/
theorem ofMembers_eq_ok_iff (hdistinct : members.names.Nodup) :
    ofMembers members = .ok s ↔ AllKnown members ∧
      (∀ (f : Field) given, (f.name, given) ∈ members → readField f given = .ok (s.held f)) ∧
        ∀ f : Field, f.name ∉ members.names → s.held f = standard.held f := by
  by_cases hknown : AllKnown members
  · obtain ⟨fields, rfl⟩ := hknown.exists_named
    rw [names_named] at hdistinct
    have hothers (f : Field) :
        f.name ∉ (named fields).names ↔ f ∉ fields.map (·.1) := by
      rw [names_named, List.mem_map_of_injective name_injective]
    simp only [ofMembers_named, load_eq_ok_iff (List.Nodup.of_map _ hdistinct), hknown, true_and,
      mem_named, hothers, Draft.get_standard, eq_comm]
  · exact iff_of_false (fun h => hknown (allKnown_of_ofMembers h)) fun h => hknown h.1

/-- A fault is about unknown names, or a given value has it by itself. -/
theorem ofMembers_eq_error (h : ofMembers members = .error fault) :
    (¬ AllKnown members ∧
        ∃ names, fault = .unknownFields names ∧ ∀ name ∈ names, name.integers = []) ∨
      ∃ (f : Field) (given : Value), (f.name, given) ∈ members ∧ Faulty f given fault := by
  by_cases hknown : AllKnown members
  · obtain ⟨fields, rfl⟩ := hknown.exists_named
    rw [ofMembers_named] at h
    rcases load_eq_error h with ⟨f, given, hmem, hfaulty⟩ | ⟨f, hobjection⟩
    · exact .inr ⟨f, given, mem_named.2 hmem, hfaulty⟩
    · rw [Draft.get_standard, objection?_held] at hobjection
      cases hobjection
  · obtain ⟨names, htexts, herror⟩ := exists_unknownFields hknown
    rw [herror] at h
    cases h
    exact .inl ⟨hknown, names, rfl, htexts⟩

end Mappings

/-- A standard draft with one objectionable value is refused for that value. -/
theorem ofDraft_set_eq_error {f : Field} {v : Value} {fault : Fault}
    (h : objection? f v = some fault) : ofDraft (({} : Draft).set f v) = .error fault := by
  cases hmade : ofDraft (({} : Draft).set f v) with
  | ok s =>
      have hheld := ofDraft_eq_ok_iff.1 hmade f
      rw [Draft.get_set_self] at hheld
      rw [hheld, objection?_held] at h
      cases h
  | error other =>
      obtain ⟨g, hobjection⟩ := exists_objection hmade
      rcases eq_or_ne g f with rfl | hne
      · rw [Draft.get_set_self, h] at hobjection
        rw [Option.some.inj hobjection]
      · rw [Draft.get_set_of_ne _ _ hne, Draft.get_standard, objection?_held] at hobjection
        cases hobjection

/-- A fault of a given value is what loading it alone ends with. -/
theorem faulty_iff_alone {f : Field} {given : Value} {fault : Fault} :
    Faulty f given fault ↔ ofMembers [(f.name, given)] = .error fault := by
  have halone : ofMembers [(f.name, given)] = load {} [(f, given)] := ofMembers_named [(f, given)]
  rw [halone]
  constructor
  · intro h
    rw [load_cons]
    cases h with
    | unreadable hread => rw [hread]; rfl
    | refused hread hobjection => rw [hread]; exact ofDraft_set_eq_error hobjection
  · intro h
    rcases load_eq_error h with ⟨g, other, hmem, hfaulty⟩ | ⟨g, hobjection⟩
    · cases List.mem_singleton.1 hmem
      exact hfaulty
    · rw [Draft.get_standard, objection?_held] at hobjection
      cases hobjection

end Settings

end SlotEvidence
