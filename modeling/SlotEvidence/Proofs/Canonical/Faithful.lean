/-
Module: SlotEvidence.Proofs.Canonical.Faithful
Purpose: The canonical text stands for the canonical form and for nothing else: it is ASCII, names
  increase in it, it is read back as the form, and two values have one text just when their forms
  are the same up to the order of members.  The order in which a mapping was filled leaves no trace.
  A form has a text unless an integer in it is too long to be written.
Trusted boundary: none
Main exports: Value.Reordered, Value.Reordered.formsAgree, Value.canonicalText_eq_ok,
  Value.canonicallyEqual_iff, Value.canonical_text_faithful
-/
import SlotEvidence.Json.Reader
import SlotEvidence.Proofs.Canonical.Form
import SlotEvidence.Proofs.Json.Alike

namespace SlotEvidence

namespace Value

open Canonical Json

/-! ### Reordered values

Values that differ in the order of entries have forms that differ in the order of members.
Induction on the relation needs this for all paths at once, since the path is only shown in faults.
-/

/-- Two values that differ in nothing but the order of the entries of mappings and of the fields of
records, at any depth. -/
inductive Reordered : Value → Value → Prop where
  | refl (value : Value) : Reordered value value
  | member {a b : Value} (h : Reordered a b) : Reordered (.member a) (.member b)
  | list {xs ys : List Value} (hlength : xs.length = ys.length)
      (h : ∀ {x y}, (x, y) ∈ xs.zip ys → Reordered x y) : Reordered (.list xs) (.list ys)
  | tuple {xs ys : List Value} (hlength : xs.length = ys.length)
      (h : ∀ {x y}, (x, y) ∈ xs.zip ys → Reordered x y) : Reordered (.tuple xs) (.tuple ys)
  | mapping {xs ys : List (Value × Value)} (hxs : (xs.map (·.1)).Nodup)
      (hys : (ys.map (·.1)).Nodup) (hkeys : ∀ key, key ∈ xs.map (·.1) ↔ key ∈ ys.map (·.1))
      (h : ∀ {key x y}, (key, x) ∈ xs → (key, y) ∈ ys → Reordered x y) :
      Reordered (.mapping xs) (.mapping ys)
  | record {xs ys : List (String × Value)} (hxs : (xs.map (·.1)).Nodup)
      (hys : (ys.map (·.1)).Nodup) (hnames : ∀ name, name ∈ xs.map (·.1) ↔ name ∈ ys.map (·.1))
      (h : ∀ {name x y}, (name, x) ∈ xs → (name, y) ∈ ys → Reordered x y) :
      Reordered (.record xs) (.record ys)
  | report (kind : ReportKind) {xs ys : List (String × Value)} (hxs : (xs.map (·.1)).Nodup)
      (hys : (ys.map (·.1)).Nodup) (hnames : ∀ name, name ∈ xs.map (·.1) ↔ name ∈ ys.map (·.1))
      (h : ∀ {name x y}, (name, x) ∈ xs → (name, y) ∈ ys → Reordered x y) :
      Reordered (.report kind xs) (.report kind ys)

/-- Values that differ in the order of entries do so the other way round. -/
theorem Reordered.symm {a b : Value} (h : Reordered a b) : Reordered b a := by
  have hflip : ∀ {xs ys : List Value}, xs.length = ys.length →
      (∀ {x y}, (x, y) ∈ xs.zip ys → Reordered y x) →
        ys.length = xs.length ∧ ∀ {y x}, (y, x) ∈ ys.zip xs → Reordered y x := by
    intro xs ys hlength h
    have hforall : List.Forall₂ (fun x y => Reordered y x) xs ys :=
      List.forall₂_iff_zip.2 ⟨hlength, h⟩
    exact List.forall₂_iff_zip.1 hforall.flip
  induction h with
  | refl value => exact .refl value
  | member _ ih => exact .member ih
  | list hlength _ ih => exact .list (hflip hlength ih).1 (hflip hlength ih).2
  | tuple hlength _ ih => exact .tuple (hflip hlength ih).1 (hflip hlength ih).2
  | mapping hxs hys hkeys _ ih =>
      exact .mapping hys hxs (fun key => (hkeys key).symm) fun hy hx => ih hx hy
  | record hxs hys hnames _ ih =>
      exact .record hys hxs (fun name => (hnames name).symm) fun hy hx => ih hx hy
  | report kind hxs hys hnames _ ih =>
      exact .report kind hys hxs (fun name => (hnames name).symm) fun hy hx => ih hx hy

theorem Reordered.eq_null_iff {a b : Value} (h : Reordered a b) : a = .null ↔ b = .null := by
  cases h with
  | refl => rfl
  | _ => exact ⟨nofun, nofun⟩

/-- The second value has a form wherever the first one does, the same up to the order of members. -/
def FormsAgree (a b : Value) : Prop :=
  ∀ {path : String} {form : Json}, a.canonical path = .ok form →
    ∃ other, b.canonical path = .ok other ∧ SameUpToOrder form other

/-- Item by item, forms that agree make lists of forms that agree. -/
theorem canonicalItems_agree {xs ys : List Value} (h : List.Forall₂ FormsAgree xs ys)
    {path : String} {index : Nat} {forms : List Json}
    (hforms : canonicalItems path index xs = .ok forms) :
    ∃ others, canonicalItems path index ys = .ok others ∧
      List.Forall₂ SameUpToOrder forms others := by
  induction h generalizing index forms with
  | nil =>
      cases hforms
      exact ⟨[], rfl, .nil⟩
  | cons hx _ ih =>
      obtain ⟨form, later, hform, hlater, rfl⟩ := canonicalItems_cons_eq_ok.1 hforms
      obtain ⟨other, hother, hsame⟩ := hx hform
      obtain ⟨others, hothers, hrest⟩ := ih hlater
      exact ⟨_, canonicalItems_cons_eq_ok.2 ⟨other, others, hother, hothers, rfl⟩,
        .cons hsame hrest⟩

/-- Sequences of the same length agree in form if their items do. -/
theorem canonicalSequence_agree {xs ys : List Value} (hlength : xs.length = ys.length)
    (h : ∀ {x y}, (x, y) ∈ xs.zip ys → FormsAgree x y) {path : String} {form : Json}
    (hform : (canonicalItems path 0 xs).map .array = .ok form) :
    ∃ other, (canonicalItems path 0 ys).map .array = .ok other ∧ SameUpToOrder form other := by
  obtain ⟨forms, hforms, rfl⟩ := map_eq_ok.1 hform
  obtain ⟨others, hothers, hsame⟩ :=
    canonicalItems_agree (List.forall₂_iff_zip.2 ⟨hlength, h⟩) hforms
  exact ⟨_, map_eq_ok.2 ⟨others, hothers, rfl⟩, alike_array_iff.2 hsame⟩

/-- Mappings with the same keys have an entry each for a key of either of them. -/
theorem exists_entry {xs ys : List (Value × Value)}
    (hkeys : ∀ key, key ∈ xs.map (·.1) → key ∈ ys.map (·.1)) {key x : Value}
    (hx : (key, x) ∈ xs) : ∃ y, (key, y) ∈ ys := by
  obtain ⟨⟨_, y⟩, hy, rfl⟩ := List.mem_map.1 (hkeys key (List.mem_map_of_mem hx))
  exact ⟨y, hy⟩

/-- Mappings agree that have the same keys, under which the values agree and are null in both or in
neither. -/
theorem canonicalMapping_agree {xs ys : List (Value × Value)} (hxs : (xs.map (·.1)).Nodup)
    (hys : (ys.map (·.1)).Nodup) (hkeys : ∀ key, key ∈ xs.map (·.1) ↔ key ∈ ys.map (·.1))
    (hnull : ∀ {key x y}, (key, x) ∈ xs → (key, y) ∈ ys → (x = .null ↔ y = .null))
    (h : ∀ {key x y}, (key, x) ∈ xs → (key, y) ∈ ys → FormsAgree x y) :
    FormsAgree (.mapping xs) (.mapping ys) := by
  intro path form hform
  obtain ⟨members, hmembers, rfl⟩ := map_eq_ok.1 hform
  have hothers : ∃ others, canonicalEntries path ys = .ok others := by
    refine exists_canonicalEntries_iff.2 ?_
    rintro ⟨key, y⟩ hy
    obtain ⟨x, hx⟩ := exists_entry (fun key => (hkeys key).2) hy
    obtain ⟨name, formx, hname, hformx⟩ := exists_canonicalEntries_iff.1 ⟨_, hmembers⟩ _ hx
    obtain ⟨formy, hformy, -⟩ := h hx hy hformx
    exact ⟨name, formy, hname, hformy⟩
  obtain ⟨others, hothers⟩ := hothers
  refine ⟨_, map_eq_ok.2 ⟨others, hothers, rfl⟩, ?_⟩
  -- No key comes twice, so that no member replaces another and the order is all that can differ.
  rw [Members.ofList_of_nodup (nodup_names_canonicalEntries hmembers hxs),
    Members.ofList_of_nodup (nodup_names_canonicalEntries hothers hys)]
  refine .object ?_ ?_
  · intro name
    rw [mem_names_canonicalEntries hmembers, mem_names_canonicalEntries hothers]
    constructor
    · rintro ⟨x, hx, hne⟩
      obtain ⟨y, hy⟩ := exists_entry (fun key => (hkeys key).1) hx
      exact ⟨y, hy, fun hy0 => hne ((hnull hx hy).2 hy0)⟩
    · rintro ⟨y, hy, hne⟩
      obtain ⟨x, hx⟩ := exists_entry (fun key => (hkeys key).2) hy
      exact ⟨x, hx, fun hx0 => hne ((hnull hx hy).1 hx0)⟩
  · intro name formx formy hformx hformy
    obtain ⟨x, hx, -, hformx⟩ :=
      (mem_canonicalEntries hmembers).1 (Members.mem_of_get?_eq_some hformx)
    obtain ⟨y, hy, -, hformy⟩ :=
      (mem_canonicalEntries hothers).1 (Members.mem_of_get?_eq_some hformy)
    obtain ⟨other, hother, hsame⟩ := h hx hy hformx
    rw [hother] at hformy
    cases hformy
    exact hsame

/-- Records with the same fields, whose values agree. -/
theorem canonicalRecord_agree {xs ys : List (String × Value)} (hxs : (xs.map (·.1)).Nodup)
    (hys : (ys.map (·.1)).Nodup) (hnames : ∀ name, name ∈ xs.map (·.1) ↔ name ∈ ys.map (·.1))
    (hnull : ∀ {name x y}, (name, x) ∈ xs → (name, y) ∈ ys → (x = .null ↔ y = .null))
    (h : ∀ {name x y}, (name, x) ∈ xs → (name, y) ∈ ys → FormsAgree x y) :
    FormsAgree (ofMembers xs) (ofMembers ys) := by
  rw [ofMembers_eq, ofMembers_eq]
  refine @canonicalMapping_agree _ _ (nodup_keys_fieldEntries hxs) (nodup_keys_fieldEntries hys)
    ?_ ?_ ?_
  · intro key
    rw [keys_fieldEntries, keys_fieldEntries, List.mem_map, List.mem_map]
    constructor
    · rintro ⟨name, hname, rfl⟩
      exact ⟨name, (hnames name).1 hname, rfl⟩
    · rintro ⟨name, hname, rfl⟩
      exact ⟨name, (hnames name).2 hname, rfl⟩
  · intro key x y hx hy
    obtain ⟨name, rfl, hfield⟩ := mem_fieldEntries.1 hx
    obtain ⟨_, heq, hother⟩ := mem_fieldEntries.1 hy
    cases heq
    exact hnull hfield hother
  · intro key x y hx hy
    obtain ⟨name, rfl, hfield⟩ := mem_fieldEntries.1 hx
    obtain ⟨_, heq, hother⟩ := mem_fieldEntries.1 hy
    cases heq
    exact h hfield hother

/-- The order of entries decides nothing about whether there is a form, nor about the form but for
the order of its members. -/
theorem Reordered.formsAgree {a b : Value} (h : Reordered a b) : FormsAgree a b := by
  induction h with
  | refl value =>
      intro path form hform
      have hdistinct := (exact_of_canonical hform).legible.distinctNames
      exact ⟨form, hform, (sameUpToOrder_iff_sorted_eq hdistinct hdistinct).2 rfl⟩
  | member _ ih =>
      intro path form hform
      exact ih hform
  | list hlength _ ih | tuple hlength _ ih =>
      intro path form hform
      exact canonicalSequence_agree hlength ih hform
  | mapping hxs hys hkeys h ih =>
      exact canonicalMapping_agree hxs hys hkeys (fun hx hy => (h hx hy).eq_null_iff) ih
  | record hxs hys hnames h ih =>
      intro path form hform
      rw [canonical_record] at hform ⊢
      exact canonicalRecord_agree hxs hys hnames (fun hx hy => (h hx hy).eq_null_iff) ih hform
  | report kind hxs hys hnames h ih =>
      intro path form hform
      rw [canonical_report] at hform ⊢
      exact canonicalRecord_agree hxs hys hnames (fun hx hy => (h hx hy).eq_null_iff) ih hform

/-! ### Texts

The canonical text is written from the sorted form, and the sorted form can be read back from it.
So equal texts mean equal forms up to the order of members, and the other way round. -/

/-- A value has a canonical text when it has a canonical form that can be written. -/
theorem canonicalText_eq_ok {value : Value} {text : String} :
    value.canonicalText = .ok text ↔
      ∃ form, value.canonical "" = .ok form ∧ form.dump = .ok text := by
  simp only [canonicalText, bind_eq_ok, mapError_eq_ok]

/-- A form that cannot be written leaves its value without a text. -/
theorem exists_overlong_of_not_writable {value : Value} {form : Json}
    (h : value.canonical "" = .ok form) (hwritable : ¬ form.Writable) :
    ∃ refusal, value.canonicalText = .error (.overlong refusal) ∧
      refusal.number ∈ form.integers := by
  obtain ⟨refusal, hdump, hmem⟩ := exists_of_not_writable hwritable
  refine ⟨refusal, ?_, hmem⟩
  rw [canonicalText, h]
  exact mapError_eq_error.2 ⟨refusal, hdump, rfl⟩

/-- Of two canonical forms the second has the text of the first just when they are the same up to
the order of members. -/
theorem dump_eq_iff {a b : Json} (ha : a.Exact) (hb : b.Exact) {text : String}
    (htext : a.dump = .ok text) : b.dump = .ok text ↔ SameUpToOrder a b := by
  obtain ⟨rfl, hwritable⟩ := dump_eq_ok_iff.1 htext
  have hnames := ha.legible.distinctNames
  have hnames' := hb.legible.distinctNames
  rw [dump_eq_ok_iff]
  constructor
  · rintro ⟨heq, hwritable'⟩
    -- reading takes both forms from one text, so they have one canonical order
    have hparse := parse_render ha.legible hwritable
    rw [heq, parse_render hb.legible hwritable'] at hparse
    exact (sameUpToOrder_iff_sorted_eq hnames hnames').2 (Except.ok.inj hparse).symm
  · intro h
    refine ⟨?_, h.writable hnames' hwritable⟩
    rw [render_eq_print_sorted, render_eq_print_sorted b, h.sorted_eq hnames hnames']

/-- Values are compared by their canonical texts, if there are any. -/
theorem comparedText_eq_some {value : Value} {text : String} :
    value.comparedText = .ok (some text) ↔ value.canonicalText = .ok text := by
  unfold comparedText
  cases value.canonicalText with
  | ok s => simp
  | error trouble => cases htrouble : trouble.report <;> simp [Except.map, htrouble]

/-- Two values are canonically equal just when both have forms, which are the same up to the order
of members and have a text. -/
theorem canonicallyEqual_iff {a b : Value} :
    canonicallyEqual a b = .ok true ↔
      ∃ form other, a.canonical "" = .ok form ∧ b.canonical "" = .ok other ∧
        SameUpToOrder form other ∧ form.Writable := by
  -- The comparison is one of texts, and it is false if either of them is missing.
  have htexts : canonicallyEqual a b = .ok true ↔
      ∃ text, a.canonicalText = .ok text ∧ b.canonicalText = .ok text := by
    simp only [← comparedText_eq_some, canonicallyEqual, bind_eq_ok]
    constructor
    · rintro ⟨_ | s, hs, h⟩
      · cases h
      · obtain ⟨t?, ht, h⟩ := bind_eq_ok.1 h
        obtain rfl := eq_of_beq (Except.ok.inj h)
        exact ⟨s, hs, ht⟩
    · rintro ⟨text, ha, hb⟩
      exact ⟨some text, ha, bind_eq_ok.2 ⟨some text, hb, congrArg Except.ok (beq_self_eq_true _)⟩⟩
  rw [htexts]
  constructor
  · rintro ⟨text, ha, hb⟩
    obtain ⟨form, hform, hdump⟩ := canonicalText_eq_ok.1 ha
    obtain ⟨other, hother, hdump'⟩ := canonicalText_eq_ok.1 hb
    exact ⟨form, other, hform, hother,
      (dump_eq_iff (exact_of_canonical hform) (exact_of_canonical hother) hdump).1 hdump',
      (dump_eq_ok_iff.1 hdump).2⟩
  · rintro ⟨form, other, hform, hother, hsame, hwritable⟩
    have hdump := dump_of_writable hwritable
    exact ⟨_, canonicalText_eq_ok.2 ⟨form, hform, hdump⟩, canonicalText_eq_ok.2 ⟨other, hother,
      (dump_eq_iff (exact_of_canonical hform) (exact_of_canonical hother) hdump).2 hsame⟩⟩

/-- Sorting makes up for the order of entries: the canonical texts are equal. -/
theorem Reordered.canonicalText_eq_ok {a b : Value} (h : Reordered a b) {text : String}
    (htext : a.canonicalText = .ok text) : b.canonicalText = .ok text := by
  obtain ⟨form, hform, hdump⟩ := Value.canonicalText_eq_ok.1 htext
  obtain ⟨other, hother, hsame⟩ := h.formsAgree hform
  exact Value.canonicalText_eq_ok.2 ⟨other, hother,
    (dump_eq_iff (exact_of_canonical hform) (exact_of_canonical hother) hdump).2 hsame⟩

/-- The canonical hash is that of the canonical text. -/
theorem canonicalHash_eq (value : Value) :
    value.canonicalHash =
      value.canonicalText.map fun text => Digest.sha256 text.toUTF8.toList := by
  rw [canonicalHash, canonicalBytes]
  cases value.canonicalText <;> rfl

/-- Just the encodable values have a canonical form, and a form has a text just when no integer in
it is too long to be written.  The text is ASCII; names increase strictly in its objects; and it is
read back as the canonical form, up to the order of members.  Two values are canonically equal just
when both have forms with a text, which are the same up to the order of members, so that neither the
text nor the hash shows in which order a mapping was filled. -/
theorem canonical_text_faithful :
    (∀ value : Value, (∃ form, value.canonical "" = .ok form) ↔ value.Encodable) ∧
    (∀ (value : Value) (form : Json), value.canonical "" = .ok form →
      (form.Writable →
        ∃ (text : String) (read : Json), value.canonicalText = .ok text ∧ Ascii text.toList ∧
          text = String.ofList read.print ∧ read.Ordered ∧ Json.parse text = .ok read ∧
          SameUpToOrder read form) ∧
      (¬ form.Writable → ∃ refusal, value.canonicalText = .error (.overlong refusal) ∧
        refusal.number ∈ form.integers)) ∧
    (∀ a b : Value, canonicallyEqual a b = .ok true ↔
      ∃ form other, a.canonical "" = .ok form ∧ b.canonical "" = .ok other ∧
        SameUpToOrder form other ∧ form.Writable) ∧
    ∀ a b : Value, Reordered a b →
      (∀ text, a.canonicalText = .ok text ↔ b.canonicalText = .ok text) ∧
      ∀ hash, a.canonicalHash = .ok hash ↔ b.canonicalHash = .ok hash := by
  refine ⟨fun _ => exists_canonical_iff, ?_, fun _ _ => canonicallyEqual_iff, ?_⟩
  · intro value form hform
    refine ⟨fun hwritable => ?_, exists_overlong_of_not_writable hform⟩
    have hexact := exact_of_canonical hform
    have hdistinct := hexact.legible.distinctNames
    have hsorted : SameUpToOrder form form.sorted := hdistinct.alike_sorted fun _ => rfl
    refine ⟨_, form.sorted, canonicalText_eq_ok.2 ⟨form, hform, dump_of_writable hwritable⟩, ?_, ?_,
      hdistinct.ordered_sorted, parse_render hexact.legible hwritable, hsorted.symm Eq.symm⟩
    · rw [String.toList_ofList]
      exact hexact.ascii_render
    · rw [render_eq_print_sorted]
  · intro a b h
    have htext : ∀ text, a.canonicalText = .ok text ↔ b.canonicalText = .ok text := fun _ =>
      ⟨h.canonicalText_eq_ok, h.symm.canonicalText_eq_ok⟩
    refine ⟨htext, fun hash => ?_⟩
    simp only [canonicalHash_eq, map_eq_ok, htext]

/-- A mapping that was filled in two orders. -/
def filledForward : Value :=
  .mapping [(.text "slot", .int 7), (.text "leaf", .list [.bytes [255], .bool true, .text "é"])]

def filledBackward : Value :=
  .mapping [(.text "leaf", .list [.bytes [255], .bool true, .text "é"]), (.text "slot", .int 7)]

/-- The two fillings have one text and one hash. -/
theorem filled_canonical_text :
    (∃ form, filledForward.canonical "" = .ok form ∧
      ∃ (text : String) (read : Json), filledForward.canonicalText = .ok text ∧
        Ascii text.toList ∧ text = String.ofList read.print ∧ read.Ordered ∧
        Json.parse text = .ok read ∧ SameUpToOrder read form) ∧
    Reordered filledForward filledBackward ∧
    (∀ text, filledForward.canonicalText = .ok text ↔ filledBackward.canonicalText = .ok text) ∧
    ∀ hash, filledForward.canonicalHash = .ok hash ↔ filledBackward.canonicalHash = .ok hash := by
  have hreordered : Reordered filledForward filledBackward := by
    refine .mapping (by simp) (by simp) (fun key => by simp [or_comm]) ?_
    intro key x y hx hy
    simp only [List.mem_cons, Prod.mk.injEq, List.not_mem_nil, or_false] at hx hy
    obtain ⟨rfl, rfl⟩ | ⟨rfl, rfl⟩ := hx <;> obtain ⟨hkey, rfl⟩ | ⟨hkey, rfl⟩ := hy
    · simp at hkey
    · exact .refl _
    · exact .refl _
    · simp at hkey
  have htext := (canonical_text_faithful.2.1 filledForward _ rfl).1 (by decide)
  refine ⟨⟨_, rfl, htext⟩, hreordered, ?_⟩
  exact canonical_text_faithful.2.2.2 filledForward filledBackward hreordered

end Value

end SlotEvidence
