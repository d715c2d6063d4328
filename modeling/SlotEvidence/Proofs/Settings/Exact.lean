/-
Module: SlotEvidence.Proofs.Settings.Exact
Purpose: Loading settings from a mapping.  They hold what the given values denote and standard
  values elsewhere, and what cannot be loaded is reported as a bad configuration.  The exceptions
  are floating-point numbers for integers, since a fraction is dropped without a word and an
  infinity ends the loading with a fault that is no report, and integers too long for the text of
  the report.
Trusted boundary: none
Main exports: Settings.LoadsExactly, Settings.Unfit, Settings.loads_exactly_unless_unfit,
  Settings.not_every_mapping_loads_exactly
-/
import SlotEvidence.Proofs.Settings.Loading
import SlotEvidence.Proofs.Settings.Reading

namespace SlotEvidence

namespace Settings

/-- What is required of settings. -/
structure Sound (s : Settings) : Prop where
  algorithm : s.algorithm ∈ Digest.Algorithm.all
  fanout : 2 ≤ s.fanout
  chunkSize : 0 < s.chunkSize
  historyWindow : 0 < s.historyWindow
  maxWorkers : 0 < s.maxWorkers
  emptyChild : s.emptyChild.bytes.length = hashLength

/-- A mapping loads without a misreading.  What comes out holds what the given values denote and
standard values elsewhere, or the loading ends with the report of a bad configuration. -/
def LoadsExactly (members : Members Value) : Prop :=
  (∃ s, ofMembers members = .ok s ∧ s.Sound ∧
      (∀ (f : Field) given, (f.name, given) ∈ members → Denotes f given (s.held f)) ∧
      ∀ f : Field, f.name ∉ members.names → s.held f = standard.held f) ∨
    ∃ fault, ofMembers members = .error fault ∧ fault.IsConfiguration

/-- A floating-point number that is given for an integer and is none, or a value that a text has to
be made of though it shows an integer that has none. -/
inductive Unfit (f : Field) (given : Value) : Prop where
  | fraction {v : Value} (h : LosesFraction f given v)
  | infinity (h : GivesInfinity f given)
  | overlong (h : GivesOverlong f given)

/-- A value that can be read as that of a field. -/
def Readable (f : Field) (given : Value) : Prop :=
  (f = .algorithm ∧ given.Displayable) ∨ ∃ v, Denotes f given v ∨ LosesFraction f given v

theorem sound (s : Settings) : s.Sound where
  algorithm := by cases s.algorithm <;> decide
  fanout := s.two_le_fanout
  chunkSize := s.chunkSize_pos
  historyWindow := s.historyWindow_pos
  maxWorkers := s.maxWorkers_pos
  emptyChild := s.emptyChild.length_bytes

variable {members : Members Value} {fault : Fault}

/-- What a given value has against it is told, unless it is an infinity or a text is refused. -/
theorem Faulty.cases {f : Field} {given : Value} (h : Faulty f given fault) :
    fault.IsConfiguration ∨ (fault = .infinite ∧ GivesInfinity f given) ∨
      fault.RefusedFor given ∧ GivesOverlong f given := by
  have hvalue : OfValue f given fault ∨ fault = .infinite ∧ GivesInfinity f given := by
    cases h with
    | unreadable hread => exact readField_eq_error hread
    | refused hread hobjection => exact .inl (ofValue_of_objection hread hobjection)
  rcases hvalue with hvalue | hinfinity
  · exact hvalue.isConfiguration_or_refused.imp_right .inr
  · exact .inr (.inl hinfinity)

/-- Names are told, since they show no integer. -/
theorem isConfiguration_unknownFields {names : List Value}
    (h : ∀ name ∈ names, name.integers = []) : (Fault.unknownFields names).IsConfiguration := by
  refine Fault.isConfiguration_of_message rfl (Text.written_eq_ok_iff.2 ⟨rfl, ?_⟩)
  refine Value.forall_mem_itemIntegers.2 fun name hname => ?_
  rw [h name hname]
  exact List.forall_mem_nil _

/-- What stops the loading is reported, unless it is an infinity that is given for an integer, or a
text has to be made of a given value that shows an integer without one. -/
theorem ofMembers_eq_error_cases (h : ofMembers members = .error fault) :
    fault.IsConfiguration ∨ ∃ (f : Field) (given : Value), (f.name, given) ∈ members ∧
      ((fault = .infinite ∧ GivesInfinity f given) ∨
        fault.RefusedFor given ∧ GivesOverlong f given) := by
  rcases ofMembers_eq_error h with ⟨-, names, rfl, htexts⟩ | ⟨f, given, hmem, hfaulty⟩
  · exact .inl (isConfiguration_unknownFields htexts)
  · exact hfaulty.cases.imp_right fun hother => ⟨f, given, hmem, hother⟩

theorem not_isConfiguration_infinite : ¬ Fault.infinite.IsConfiguration := by
  rintro ⟨report, hreport, -⟩
  cases hreport

/-- Loading ends with an infinity just when reading does: the later checks know none. -/
theorem load_eq_infinite_iff {fields : List (Field × Value)} :
    load {} fields = .error .infinite ↔ readFields fields = .error .infinite := by
  unfold load
  rw [bind_eq_error]
  refine ⟨?_, .inl⟩
  rintro (h | ⟨read, -, h⟩)
  · exact h
  · obtain ⟨f, hobjection⟩ := exists_objection h
    cases isOutside_of_objection hobjection

/-- The infinity that stops the loading is the first given value that cannot be read. -/
theorem ofMembers_eq_infinite_iff :
    ofMembers members = .error .infinite ↔ AllKnown members ∧
      ∃ before, ∃ f : Field, ∃ given after, members = before ++ (f.name, given) :: after ∧
        (∀ (g : Field) other, (g.name, other) ∈ before → Readable g other) ∧
          GivesInfinity f given := by
  by_cases hknown : AllKnown members
  · obtain ⟨fields, rfl⟩ := hknown.exists_named
    rw [ofMembers_named, load_eq_infinite_iff, readFields_eq_error_iff]
    simp only [hknown, true_and, readField_eq_infinite_iff, exists_readField_iff]
    constructor
    · rintro ⟨before, f, given, after, rfl, hbefore, hinfinity⟩
      refine ⟨named before, f, given, named after, ?_, ?_, hinfinity⟩
      · simp [named]
      · exact fun g other hmem => hbefore g other (mem_named.1 hmem)
    · rintro ⟨before, f, given, after, hmembers, hbefore, hinfinity⟩
      obtain ⟨first, rest, rfl, rfl, hrest⟩ := List.map_eq_append_iff.1 hmembers
      obtain ⟨⟨g, other⟩, last, rfl, heq, rfl⟩ := List.map_eq_cons_iff.1 hrest
      obtain ⟨hname, rfl⟩ := Prod.mk.inj heq
      obtain rfl := name_injective hname
      exact ⟨first, g, other, last, rfl, fun g other hmem => hbefore g other (mem_named.2 hmem),
        hinfinity⟩
  · obtain ⟨names, -, herror⟩ := exists_unknownFields hknown
    rw [herror]
    exact iff_of_false (by simp) fun h => hknown h.1

/-- A mapping in which no name comes twice loads exactly, unless a given value is unfit: a
floating-point number for an integer that it is not, or a value that a text has to be made of though
it shows an integer of more digits than are written.  In any case the mapping gives the settings
that hold what the given values denote, or denote without their fractions, and standard values
elsewhere. A fault is reported as a bad configuration, with two exceptions: an infinity, which stops
the loading where nothing before it does, and a fault whose text is refused for an integer in a
given value. -/
theorem loads_exactly_unless_unfit (members : Members Value) (hdistinct : members.names.Nodup) :
    ((∀ (f : Field) given, (f.name, given) ∈ members → ¬ Unfit f given) → LoadsExactly members) ∧
      (∀ s, ofMembers members = .ok s ↔ AllKnown members ∧
        (∀ (f : Field) given, (f.name, given) ∈ members →
          Denotes f given (s.held f) ∨ LosesFraction f given (s.held f)) ∧
        ∀ f : Field, f.name ∉ members.names → s.held f = standard.held f) ∧
      (∀ fault, ofMembers members = .error fault → fault.IsConfiguration ∨ fault = .infinite ∨
        ∃ (f : Field) (given : Value), (f.name, given) ∈ members ∧ GivesOverlong f given ∧
          fault.RefusedFor given) ∧
      (ofMembers members = .error .infinite ↔ AllKnown members ∧
        ∃ before, ∃ f : Field, ∃ given after, members = before ++ (f.name, given) :: after ∧
          (∀ (g : Field) other, (g.name, other) ∈ before → Readable g other) ∧
            GivesInfinity f given) := by
  have hloaded (s : Settings) := ofMembers_eq_ok_iff (s := s) hdistinct
  simp only [readField_held_iff] at hloaded
  refine ⟨fun hfit => ?_, hloaded, fun fault h => ?_, ofMembers_eq_infinite_iff⟩
  -- Without unfit values, neither a fraction is lost nor a report missing.
  · cases hmade : ofMembers members with
    | ok s =>
        obtain ⟨-, hnamed, hothers⟩ := (hloaded s).1 hmade
        refine .inl ⟨s, hmade, s.sound, fun f given hmem => ?_, hothers⟩
        exact (hnamed f given hmem).resolve_right fun h => hfit f given hmem (.fraction h)
    | error fault =>
        rcases ofMembers_eq_error_cases hmade with h | ⟨f, given, hmem, h⟩
        · exact .inr ⟨fault, hmade, h⟩
        · rcases h with ⟨-, hinfinity⟩ | ⟨-, hoverlong⟩
          · exact absurd (.infinity hinfinity) (hfit f given hmem)
          · exact absurd (.overlong hoverlong) (hfit f given hmem)
  · rcases ofMembers_eq_error_cases h with h | ⟨f, given, hmem, ⟨rfl, -⟩ | ⟨hrefused, hoverlong⟩⟩
    · exact .inl h
    · exact .inr (.inl rfl)
    · exact .inr (.inr ⟨f, given, hmem, hoverlong, hrefused⟩)

/-- Given values of each kind: a text between blanks with an underscore, a number for a truth value,
a floating-point number that is an integer, and a name. -/
def plainMembers : Members Value :=
  [("fanout", .text " 1_6 "), ("pad_partial_groups", .int 0),
    ("chunk_size", .float ⟨0x4020000000000000⟩), ("hash_algorithm", .text "blake2s")]

/-- The settings that hold these values.  The fanout is the standard one. -/
def plainSettings : Settings :=
  { standard with padPartialGroups := false, chunkSize := 8, chunkSize_pos := Nat.succ_pos 7,
                  algorithm := .blake2s }

theorem denotesInteger_sixteen : DenotesInteger (.text " 1_6 ") 16 := by
  have hrow : Text.DigitRow Text.decimalValue? ['1', '_', '6'] [1, 6] :=
    .spaced (by decide) (.one (by decide))
  have hchars : Text.Between Text.isWhiteSpace ['1', '_', '6'] [' ', '1', '_', '6', ' '] :=
    @Text.Between.intro _ _ [' '] [' '] (List.forall_mem_singleton.2 rfl)
      (List.forall_mem_singleton.2 rfl)
  exact .text (.intro .absent hrow (by decide) hchars)

/-- Each of the given values denotes what the settings hold. -/
theorem denotes_plainSettings {f : Field} {given : Value} (h : (f.name, given) ∈ plainMembers) :
    Denotes f given (plainSettings.held f) := by
  have hname {g : Field} (h : f.name = g.name) : f = g := name_injective h
  simp only [plainMembers, List.mem_cons, Prod.mk.injEq, List.not_mem_nil, or_false] at h
  rcases h with ⟨h, rfl⟩ | ⟨h, rfl⟩ | ⟨h, rfl⟩ | ⟨h, rfl⟩
  · obtain rfl := @hname .fanout h
    exact .integer (by decide) denotesInteger_sixteen
  · obtain rfl := @hname .padPartialGroups h
    exact .padding .zero
  · obtain rfl := @hname .chunkSize h
    exact .integer (by decide) (.float (by decide))
  · obtain rfl := @hname .algorithm h
    exact .name _

/-- A mapping in which a number is written with blanks and an underscore, and a truth value as a
word, is loaded exactly. -/
theorem plainMembers_load_exactly :
    plainMembers.names.Nodup ∧
      (∀ (f : Field) given, (f.name, given) ∈ plainMembers → ¬ Unfit f given) ∧
      LoadsExactly plainMembers ∧ ofMembers plainMembers = .ok plainSettings := by
  have hdistinct : plainMembers.names.Nodup := by decide
  have hfloat {f : Field} {x : Binary64} (h : (f.name, .float x) ∈ plainMembers) :
      x = ⟨0x4020000000000000⟩ := by
    simp only [plainMembers, List.mem_cons, Prod.mk.injEq, reduceCtorEq, and_false, false_or,
      List.not_mem_nil, or_false, Value.float.injEq] at h
    exact h.2
  have hshort : ∀ member ∈ plainMembers, member.2.Writable := by decide
  have hfit : ∀ (f : Field) given, (f.name, given) ∈ plainMembers → ¬ Unfit f given := by
    rintro f given hmem (⟨⟨hf, hpart, hother⟩⟩ | ⟨⟨hf, hfinite, hnumber⟩⟩ | hoverlong)
    · obtain rfl := hfloat hmem
      cases hpart
      revert hother
      decide
    · obtain rfl := hfloat hmem
      revert hfinite
      decide
    · have hwritable := hshort _ hmem
      cases hoverlong with
      | name h => exact h hwritable.displayable
      | padding h => exact h hwritable
      | integer _ h _ => exact h hwritable
  have hknown : AllKnown plainMembers :=
    allKnown_named [(.fanout, .text " 1_6 "), (.padPartialGroups, .int 0),
      (.chunkSize, .float ⟨0x4020000000000000⟩), (.algorithm, .text "blake2s")]
  have hothers : ∀ f : Field, f.name ∉ plainMembers.names →
      plainSettings.held f = standard.held f := by
    intro f hf
    cases f <;> first | rfl | exact absurd (by decide) hf
  obtain ⟨hexact, hloaded, -⟩ := loads_exactly_unless_unfit plainMembers hdistinct
  refine ⟨hdistinct, hfit, hexact hfit, (hloaded plainSettings).2 ⟨hknown, ?_, hothers⟩⟩
  exact fun f given hmem => .inl (denotes_plainSettings hmem)

/-- The floating-point number nearest to 4.9. -/
def fourPointNine : Binary64 := ⟨0x401399999999999a⟩

/-- The number 4.9 is loaded as a fanout of 4, and an infinite fanout is refused without a report,
so that neither mapping loads exactly. -/
theorem not_every_mapping_loads_exactly :
    (ofMembers [("fanout", .float fourPointNine)] = .ok { fanout := 4 } ∧
        ¬ LoadsExactly [("fanout", .float fourPointNine)]) ∧
      ofMembers [("fanout", .float (.infinity false))] = .error .infinite ∧
        ¬ LoadsExactly [("fanout", .float (.infinity false))] := by
  have hcut : ofMembers [("fanout", .float fourPointNine)] = .ok { fanout := 4 } := rfl
  have hinfinite : ofMembers [("fanout", .float (.infinity false))] = .error .infinite := rfl
  refine ⟨⟨hcut, ?_⟩, hinfinite, ?_⟩
  · rintro (⟨s, hmade, -, hnamed, -⟩ | ⟨fault, herror, -⟩)
    · rw [hcut] at hmade
      cases hmade
      have hfanout : Denotes .fanout (.float fourPointNine) (.int 4) :=
        hnamed .fanout _ List.mem_cons_self
      have hother : Value.sameNumber (.float fourPointNine) (.int 4) = false := by decide
      cases hfanout with
      | integer _ h =>
          cases h with
          | float hsame =>
              rw [hother] at hsame
              cases hsame
    · rw [hcut] at herror
      cases herror
  · rintro (⟨s, hmade, -⟩ | ⟨fault, herror, hreport⟩)
    · rw [hinfinite] at hmade
      cases hmade
    · rw [hinfinite] at herror
      cases herror
      exact not_isConfiguration_infinite hreport

end Settings

end SlotEvidence
