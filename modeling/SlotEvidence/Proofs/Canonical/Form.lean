/-
Module: SlotEvidence.Proofs.Canonical.Form
Purpose: The canonical forms of dynamic values.  Just the encodable values have one, at whatever
  path; it holds no floating-point numbers, and no name comes twice in it.
Trusted boundary: none
Main exports: Value.Encodable, Value.mem_canonicalEntries, Value.fieldEntries,
  Value.canonical_record, Value.exists_canonical_iff, Value.exact_of_canonical
-/
import SlotEvidence.Canonical
import SlotEvidence.Proofs.Json.Exact
import SlotEvidence.Proofs.Members
import SlotEvidence.Proofs.Outcome

namespace SlotEvidence

namespace Value

open Canonical

/-- A value that is put together from null, truth values, integers, texts and byte strings by
enumeration members, sequences, records, reports and mappings from texts. -/
inductive Encodable : Value → Prop where
  | null : Encodable .null
  | bool (b : Bool) : Encodable (.bool b)
  | int (n : Int) : Encodable (.int n)
  | text (s : String) : Encodable (.text s)
  | bytes (b : Bytes) : Encodable (.bytes b)
  | buffer (b : Bytes) : Encodable (.buffer b)
  | member {value : Value} (h : Encodable value) : Encodable (.member value)
  | list {items : List Value} (h : ∀ item ∈ items, Encodable item) : Encodable (.list items)
  | tuple {items : List Value} (h : ∀ item ∈ items, Encodable item) : Encodable (.tuple items)
  | mapping {entries : List (Value × Value)}
      (hkeys : ∀ entry ∈ entries, ∃ name, entry.1 = .text name)
      (h : ∀ entry ∈ entries, Encodable entry.2) : Encodable (.mapping entries)
  | record {fields : List (String × Value)} (h : ∀ field ∈ fields, Encodable field.2) :
      Encodable (.record fields)
  | report (kind : ReportKind) {fields : List (String × Value)}
      (h : ∀ field ∈ fields, Encodable field.2) : Encodable (.report kind fields)

/-! ### Sequences -/

/-- A list of items has forms just when its head has one and its tail has forms. -/
theorem canonicalItems_cons_eq_ok {path : String} {index : Nat} {item : Value} {rest : List Value}
    {forms : List Json} :
    canonicalItems path index (item :: rest) = .ok forms ↔
      ∃ form later, item.canonical (itemPath path index) = .ok form ∧
        canonicalItems path (index + 1) rest = .ok later ∧ forms = form :: later := by
  rw [canonicalItems]
  simp only [bind_eq_ok]
  constructor
  · rintro ⟨form, hform, later, hlater, h⟩
    cases h
    exact ⟨form, later, hform, hlater, rfl⟩
  · rintro ⟨form, later, hform, hlater, rfl⟩
    exact ⟨form, hform, later, hlater, rfl⟩

/-- If every item has a form wherever it stands, so has the list of them. -/
theorem exists_canonicalItems {items : List Value}
    (h : ∀ item ∈ items, ∀ path, ∃ form, item.canonical path = .ok form) (path : String)
    (index : Nat) : ∃ forms, canonicalItems path index items = .ok forms := by
  induction items generalizing index with
  | nil => exact ⟨[], rfl⟩
  | cons item rest ih =>
      obtain ⟨hitem, hrest⟩ := List.forall_mem_cons.1 h
      obtain ⟨form, hform⟩ := hitem (itemPath path index)
      obtain ⟨later, hlater⟩ := ih hrest (index + 1)
      exact ⟨_, canonicalItems_cons_eq_ok.2 ⟨form, later, hform, hlater, rfl⟩⟩

/-- Each form of a sequence is that of one of its items. -/
theorem exists_of_mem_canonicalItems {path : String} {index : Nat} {items : List Value}
    {forms : List Json} (h : canonicalItems path index items = .ok forms) {form : Json}
    (hform : form ∈ forms) : ∃ item ∈ items, ∃ place, item.canonical place = .ok form := by
  induction items generalizing index forms with
  | nil =>
      cases h
      cases hform
  | cons item rest ih =>
      obtain ⟨first, later, hfirst, hlater, rfl⟩ := canonicalItems_cons_eq_ok.1 h
      rcases List.mem_cons.1 hform with rfl | hform
      · exact ⟨item, List.mem_cons_self, _, hfirst⟩
      · obtain ⟨other, hother, place, hplace⟩ := ih hlater hform
        exact ⟨other, List.mem_cons_of_mem _ hother, place, hplace⟩

/-! ### Mappings

Entries with null values are left out before anything is asked of their values, but only after their
keys have been looked at. -/

/-- The members of a mapping come from its entries one by one.  An entry whose value is null gives
none. -/
theorem canonicalEntries_cons_eq_ok {path : String} {entry : Value × Value}
    {rest : List (Value × Value)} {members : List (String × Json)} :
    canonicalEntries path (entry :: rest) = .ok members ↔
      ∃ name, entry.1 = .text name ∧
        (entry.2 = .null ∧ canonicalEntries path rest = .ok members ∨
          entry.2 ≠ .null ∧ ∃ form later, entry.2.canonical (memberPath path name) = .ok form ∧
            canonicalEntries path rest = .ok later ∧ members = (name, form) :: later) := by
  obtain ⟨key, value⟩ := entry
  cases key with
  | text name =>
      by_cases hnull : value = .null
      · subst hnull
        rw [canonicalEntries]
        simp
      · rw [canonicalEntries.eq_3 _ _ _ _ hnull]
        simp only [bind_eq_ok, text.injEq, exists_eq_left', hnull, false_and, false_or, ne_eq,
          not_false_eq_true, true_and]
        constructor
        · rintro ⟨form, hform, later, hlater, h⟩
          cases h
          exact ⟨form, later, hform, hlater, rfl⟩
        · rintro ⟨form, later, hform, hlater, rfl⟩
          exact ⟨form, hform, later, hlater, rfl⟩
  | _ => simp [canonicalEntries]

/-- A mapping has a form when its keys are texts and its values have forms. -/
theorem exists_canonicalEntries_iff {path : String} {entries : List (Value × Value)} :
    (∃ members, canonicalEntries path entries = .ok members) ↔
      ∀ entry ∈ entries, ∃ name form, entry.1 = .text name ∧
        entry.2.canonical (memberPath path name) = .ok form := by
  induction entries with
  | nil => exact ⟨fun _ => nofun, fun _ => ⟨[], rfl⟩⟩
  | cons entry rest ih =>
      simp only [List.forall_mem_cons, ← ih, canonicalEntries_cons_eq_ok]
      constructor
      · rintro ⟨members, name, hname, ⟨hnull, hrest⟩ | ⟨-, form, later, hform, hlater, -⟩⟩
        · rw [hnull]
          exact ⟨⟨name, .null, hname, rfl⟩, members, hrest⟩
        · exact ⟨⟨name, form, hname, hform⟩, later, hlater⟩
      · rintro ⟨⟨name, form, hname, hform⟩, later, hlater⟩
        by_cases hnull : entry.2 = .null
        · exact ⟨later, name, hname, .inl ⟨hnull, hlater⟩⟩
        · exact ⟨_, name, hname, .inr ⟨hnull, form, later, hform, hlater, rfl⟩⟩

/-- The members of a mapping are its entries that are not null. -/
theorem mem_canonicalEntries {path : String} {entries : List (Value × Value)}
    {members : List (String × Json)} (h : canonicalEntries path entries = .ok members)
    {name : String} {form : Json} :
    (name, form) ∈ members ↔ ∃ value, (.text name, value) ∈ entries ∧ value ≠ .null ∧
      value.canonical (memberPath path name) = .ok form := by
  induction entries generalizing members with
  | nil =>
      cases h
      simp
  | cons entry rest ih =>
      obtain ⟨key, value⟩ := entry
      obtain ⟨other, hother, ⟨hnull, hrest⟩ | ⟨hnull, first, later, hfirst, hlater, rfl⟩⟩ :=
        canonicalEntries_cons_eq_ok.1 h
      -- The first value is null and left out.
      · rw [ih hrest]
        constructor
        · rintro ⟨value, hmem, hvalue⟩
          exact ⟨value, List.mem_cons_of_mem _ hmem, hvalue⟩
        · rintro ⟨_, hmem, hne, hform⟩
          rcases List.mem_cons.1 hmem with heq | hmem
          · cases heq
            exact absurd hnull hne
          · exact ⟨_, hmem, hne, hform⟩
      -- The first value has a form, which is the first member.
      · dsimp only at hother
        subst hother
        rw [List.mem_cons, ih hlater]
        constructor
        · rintro (heq | ⟨value, hmem, hvalue⟩)
          · cases heq
            exact ⟨value, List.mem_cons_self, hnull, hfirst⟩
          · exact ⟨value, List.mem_cons_of_mem _ hmem, hvalue⟩
        · rintro ⟨_, hmem, hne, hform⟩
          rcases List.mem_cons.1 hmem with heq | hmem
          · cases heq
            dsimp only at hfirst
            rw [hfirst] at hform
            cases hform
            exact .inl rfl
          · exact .inr ⟨_, hmem, hne, hform⟩

/-- The names in a form are the keys whose values are not null. -/
theorem mem_names_canonicalEntries {path : String} {entries : List (Value × Value)}
    {members : List (String × Json)} (h : canonicalEntries path entries = .ok members)
    {name : String} :
    name ∈ Members.names members ↔ ∃ value, (.text name, value) ∈ entries ∧ value ≠ .null := by
  constructor
  · intro hname
    obtain ⟨⟨_, form⟩, hmem, rfl⟩ := List.mem_map.1 hname
    obtain ⟨value, hvalue, hnull, -⟩ := (mem_canonicalEntries h).1 hmem
    exact ⟨value, hvalue, hnull⟩
  · rintro ⟨value, hvalue, hnull⟩
    obtain ⟨_, form, hname, hform⟩ := exists_canonicalEntries_iff.1 ⟨_, h⟩ _ hvalue
    cases hname
    have hmember := (mem_canonicalEntries h).2 ⟨value, hvalue, hnull, hform⟩
    exact List.mem_map_of_mem (f := (·.1)) hmember

/-- The names of the members are distinct where the keys are. -/
theorem nodup_names_canonicalEntries {path : String} {entries : List (Value × Value)}
    {members : List (String × Json)} (h : canonicalEntries path entries = .ok members)
    (hdistinct : (entries.map (·.1)).Nodup) : (Members.names members).Nodup := by
  induction entries generalizing members with
  | nil =>
      cases h
      exact List.nodup_nil
  | cons entry rest ih =>
      obtain ⟨hnew, hdistinct⟩ := List.nodup_cons.1 hdistinct
      obtain ⟨name, hname, ⟨-, hrest⟩ | ⟨-, form, later, -, hlater, rfl⟩⟩ :=
        canonicalEntries_cons_eq_ok.1 h
      · exact ih hrest hdistinct
      · refine List.nodup_cons.2 ⟨?_, ih hlater hdistinct⟩
        intro hmem
        obtain ⟨value, hvalue, -⟩ := (mem_names_canonicalEntries hlater).1 hmem
        refine hnew ?_
        dsimp only
        rw [hname]
        exact List.mem_map_of_mem (f := (·.1)) hvalue

/-! ### Records

A record is a mapping whose keys are the names of its fields. -/

/-- The entries of a mapping that has the fields of a record. -/
def fieldEntries (fields : List (String × Value)) : List (Value × Value) :=
  fields.map fun field => (.text field.1, field.2)

theorem mem_fieldEntries {fields : List (String × Value)} {key value : Value} :
    (key, value) ∈ fieldEntries fields ↔ ∃ name, key = .text name ∧ (name, value) ∈ fields := by
  rw [fieldEntries, List.mem_map]
  constructor
  · rintro ⟨⟨name, other⟩, hmem, heq⟩
    cases heq
    exact ⟨name, rfl, hmem⟩
  · rintro ⟨name, rfl, hmem⟩
    exact ⟨_, hmem, rfl⟩

theorem keys_fieldEntries (fields : List (String × Value)) :
    (fieldEntries fields).map (·.1) = (fields.map (·.1)).map Value.text := by
  rw [fieldEntries, List.map_map, List.map_map]
  rfl

theorem nodup_keys_fieldEntries {fields : List (String × Value)}
    (h : (fields.map (·.1)).Nodup) : ((fieldEntries fields).map (·.1)).Nodup := by
  rw [keys_fieldEntries]
  exact List.pairwise_map.2 (h.imp fun hne heq => hne (text.inj heq))

theorem ofMembers_eq (fields : List (String × Value)) :
    ofMembers fields = .mapping (fieldEntries fields) := rfl

/-- Records are made canonical as the mappings of their fields, so that what holds for mappings need
not be shown again for them. -/
theorem canonicalFields_eq (path : String) (fields : List (String × Value)) :
    canonicalFields path fields = canonicalEntries path (fieldEntries fields) := by
  induction fields with
  | nil => rfl
  | cons field rest ih =>
      obtain ⟨name, value⟩ := field
      rw [fieldEntries, List.map_cons, ← fieldEntries]
      by_cases hnull : value = .null
      · subst hnull
        rw [canonicalFields, canonicalEntries, ih]
      · rw [canonicalFields.eq_3 _ _ _ _ hnull, canonicalEntries.eq_3 _ _ _ _ hnull, ih]

/-- A record has the form of the mapping of its fields. -/
theorem canonical_record (path : String) (fields : List (String × Value)) :
    (Value.record fields).canonical path = (ofMembers fields).canonical path := by
  rw [canonical, canonicalFields_eq]
  rfl

theorem canonical_report (path : String) (kind : ReportKind) (fields : List (String × Value)) :
    (Value.report kind fields).canonical path = (ofMembers fields).canonical path := by
  rw [canonical, canonicalFields_eq]
  rfl

/-! ### Values

The forms exist for encodable values and for no others.  The recursion goes over items, entries and
fields along with the values, as the definition does. -/

mutual

/-- Only encodable values have a form.  Lists, entries and fields inside a value are walked with it.
-/
theorem encodable_of_canonical :
    ∀ (value : Value) {path : String} {form : Json}, value.canonical path = .ok form →
      value.Encodable
  | .null, _, _, _ => .null
  | .bool b, _, _, _ => .bool b
  | .int n, _, _, _ => .int n
  | .text s, _, _, _ => .text s
  | .bytes b, _, _, _ => .bytes b
  | .buffer b, _, _, _ => .buffer b
  | .member value, _, _, h => .member (encodable_of_canonical value h)
  | .list items, _, _, h => by
      obtain ⟨_, hitems, -⟩ := map_eq_ok.1 h
      exact .list (encodable_of_canonicalItems items hitems)
  | .tuple items, _, _, h => by
      obtain ⟨_, hitems, -⟩ := map_eq_ok.1 h
      exact .tuple (encodable_of_canonicalItems items hitems)
  | .mapping entries, _, _, h => by
      obtain ⟨_, hentries, -⟩ := map_eq_ok.1 h
      have hmembers := exists_canonicalEntries_iff.1 ⟨_, hentries⟩
      refine .mapping ?_ (encodable_of_canonicalEntries entries hentries)
      intro entry hentry
      obtain ⟨name, _, hname, -⟩ := hmembers entry hentry
      exact ⟨name, hname⟩
  | .record fields, _, _, h => by
      obtain ⟨_, hfields, -⟩ := map_eq_ok.1 h
      exact .record (encodable_of_canonicalFields fields hfields)
  | .report kind fields, _, _, h => by
      obtain ⟨_, hfields, -⟩ := map_eq_ok.1 h
      exact .report kind (encodable_of_canonicalFields fields hfields)

theorem encodable_of_canonicalItems :
    ∀ (items : List Value) {path : String} {index : Nat} {forms : List Json},
      canonicalItems path index items = .ok forms → ∀ item ∈ items, item.Encodable
  | [], _, _, _, _ => nofun
  | item :: rest, _, _, _, h => by
      obtain ⟨_, _, hitem, hrest, -⟩ := canonicalItems_cons_eq_ok.1 h
      exact List.forall_mem_cons.2
        ⟨encodable_of_canonical item hitem, encodable_of_canonicalItems rest hrest⟩

theorem encodable_of_canonicalEntries :
    ∀ (entries : List (Value × Value)) {path : String} {members : List (String × Json)},
      canonicalEntries path entries = .ok members → ∀ entry ∈ entries, entry.2.Encodable
  | [], _, _, _ => nofun
  | (key, value) :: rest, _, _, h => by
      obtain ⟨_, -, ⟨hnull, hrest⟩ | ⟨-, _, _, hvalue, hrest, -⟩⟩ :=
        canonicalEntries_cons_eq_ok.1 h
      · refine List.forall_mem_cons.2 ⟨?_, encodable_of_canonicalEntries rest hrest⟩
        rw [hnull]
        exact .null
      · exact List.forall_mem_cons.2
          ⟨encodable_of_canonical value hvalue, encodable_of_canonicalEntries rest hrest⟩

theorem encodable_of_canonicalFields :
    ∀ (fields : List (String × Value)) {path : String} {members : List (String × Json)},
      canonicalFields path fields = .ok members → ∀ field ∈ fields, field.2.Encodable
  | [], _, _, _ => nofun
  | (name, value) :: rest, path, _, h => by
      rw [canonicalFields_eq, fieldEntries, List.map_cons, ← fieldEntries] at h
      obtain ⟨_, -, ⟨hnull, hrest⟩ | ⟨-, _, _, hvalue, hrest, -⟩⟩ :=
        canonicalEntries_cons_eq_ok.1 h
      · rw [← canonicalFields_eq] at hrest
        refine List.forall_mem_cons.2 ⟨?_, encodable_of_canonicalFields rest hrest⟩
        dsimp only at hnull ⊢
        rw [hnull]
        exact .null
      · rw [← canonicalFields_eq] at hrest
        exact List.forall_mem_cons.2
          ⟨encodable_of_canonical value hvalue, encodable_of_canonicalFields rest hrest⟩

end

theorem exists_canonical_ofMembers {fields : List (String × Value)}
    (h : ∀ field ∈ fields, ∀ path, ∃ form, field.2.canonical path = .ok form) (path : String) :
    ∃ form, (ofMembers fields).canonical path = .ok form := by
  have hentries : ∃ members, canonicalEntries path (fieldEntries fields) = .ok members := by
    refine exists_canonicalEntries_iff.2 (List.forall_mem_map.2 ?_)
    intro field hfield
    obtain ⟨form, hform⟩ := h field hfield (memberPath path field.1)
    exact ⟨field.1, form, rfl, hform⟩
  obtain ⟨members, hmembers⟩ := hentries
  exact ⟨_, map_eq_ok.2 ⟨members, hmembers, rfl⟩⟩

/-- Conversely, encodable values have a form, wherever they stand. -/
theorem Encodable.exists_canonical {value : Value} (h : value.Encodable) (path : String) :
    ∃ form, value.canonical path = .ok form := by
  induction h generalizing path with
  | null => exact ⟨_, rfl⟩
  | bool _ => exact ⟨_, rfl⟩
  | int _ => exact ⟨_, rfl⟩
  | text _ => exact ⟨_, rfl⟩
  | bytes _ => exact ⟨_, rfl⟩
  | buffer _ => exact ⟨_, rfl⟩
  | member _ ih => exact ih path
  | list _ ih | tuple _ ih =>
      obtain ⟨forms, hforms⟩ := exists_canonicalItems ih path 0
      exact ⟨_, map_eq_ok.2 ⟨forms, hforms, rfl⟩⟩
  | @mapping entries hkeys _ ih =>
      have hentries : ∃ members, canonicalEntries path entries = .ok members := by
        refine exists_canonicalEntries_iff.2 fun entry hentry => ?_
        obtain ⟨name, hname⟩ := hkeys entry hentry
        obtain ⟨form, hform⟩ := ih entry hentry (memberPath path name)
        exact ⟨name, form, hname, hform⟩
      obtain ⟨members, hmembers⟩ := hentries
      exact ⟨_, map_eq_ok.2 ⟨members, hmembers, rfl⟩⟩
  | record _ ih =>
      rw [canonical_record]
      exact exists_canonical_ofMembers ih path
  | report _ _ ih =>
      rw [canonical_report]
      exact exists_canonical_ofMembers ih path

/-- Just the encodable values have a canonical form. -/
theorem exists_canonical_iff {value : Value} {path : String} :
    (∃ form, value.canonical path = .ok form) ↔ value.Encodable := by
  constructor
  · rintro ⟨form, hform⟩
    exact encodable_of_canonical value hform
  · intro h
    exact h.exists_canonical path

/-! ### Exact forms

A form has no floating-point number, and no name twice in an object because no key comes twice in a
mapping. -/

/-- The form of a sequence has a property that arrays have whenever their items do, if the forms of
its items have it. -/
theorem holds_of_canonicalItems {P : Json → Prop}
    (harray : ∀ {forms : List Json}, (∀ form ∈ forms, P form) → P (.array forms)) {path : String}
    {items : List Value} {form : Json} (h : (canonicalItems path 0 items).map .array = .ok form)
    (hitems : ∀ item ∈ items, ∀ {place form}, item.canonical place = .ok form → P form) :
    P form := by
  obtain ⟨forms, hforms, rfl⟩ := map_eq_ok.1 h
  refine harray fun form hform => ?_
  obtain ⟨item, hitem, place, hplace⟩ := exists_of_mem_canonicalItems hforms hform
  exact hitems item hitem hplace

/-- If the forms of the values are exact, so is the form of the mapping: its names are distinct
because its keys are. -/
theorem exact_of_canonicalMapping {path : String} {entries : List (Value × Value)} {form : Json}
    (h : (Value.mapping entries).canonical path = .ok form)
    (hentries : ∀ entry ∈ entries, ∀ {place form}, entry.2.canonical place = .ok form →
      form.Exact) : form.Exact := by
  obtain ⟨members, hmembers, rfl⟩ := map_eq_ok.1 h
  refine .object (Members.nodup_names_ofList members) ?_
  rintro ⟨name, form⟩ hform
  obtain ⟨value, hvalue, -, hplace⟩ :=
    (mem_canonicalEntries hmembers).1 (Members.mem_of_mem_ofList hform)
  exact hentries _ hvalue hplace

theorem exact_of_canonicalRecord {path : String} {fields : List (String × Value)} {form : Json}
    (h : (ofMembers fields).canonical path = .ok form)
    (hfields : ∀ field ∈ fields, ∀ {place form}, field.2.canonical place = .ok form →
      form.Exact) : form.Exact :=
  exact_of_canonicalMapping h (List.forall_mem_map.2 hfields)

/-- A canonical form holds no floating-point numbers, and no name comes twice in it. -/
theorem exact_of_canonical {value : Value} {path : String} {form : Json}
    (h : value.canonical path = .ok form) : form.Exact := by
  induction encodable_of_canonical value h generalizing path form with
  | null => cases h; exact .null
  | bool b => cases h; exact .bool b
  | int n => cases h; exact .int n
  | text s => cases h; exact .text s
  | bytes b => cases h; exact .text _
  | buffer b => cases h; exact .text _
  | member _ ih => exact ih h
  | list _ ih => exact holds_of_canonicalItems .array h fun item hitem => ih item hitem
  | tuple _ ih => exact holds_of_canonicalItems .array h fun item hitem => ih item hitem
  | mapping _ _ ih => exact exact_of_canonicalMapping h fun entry hentry => ih entry hentry
  | record _ ih =>
      rw [canonical_record] at h
      exact exact_of_canonicalRecord h fun field hfield => ih field hfield
  | report kind _ ih =>
      rw [canonical_report] at h
      exact exact_of_canonicalRecord h fun field hfield => ih field hfield

end Value

end SlotEvidence
