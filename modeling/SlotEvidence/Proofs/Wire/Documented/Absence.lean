/-
Module: SlotEvidence.Proofs.Wire.Documented.Absence
Purpose: Evidence of absence in the documented form is alike what is written of what it is read as.
  Its tag is looked up by its text, and no other value has the text of a tag.
Trusted boundary: none
Main exports: Wire.eq_text_of_tagText, Wire.faithful_absence
-/
import SlotEvidence.Proofs.Value.Display
import SlotEvidence.Proofs.Value.Integers
import SlotEvidence.Proofs.Wire.Absence
import SlotEvidence.Proofs.Wire.Documented.Path

namespace SlotEvidence

namespace Wire

open Schema Json

/-! ### Tags

The kind of the evidence stands beside its parts.  A tag is read only as one of the four texts. -/

/-- What is told of a value without a text is no tag: it begins with a bracket. -/
theorem named_error_not_mem (value : Value) (refusal : Text.Overlong) :
    value.named (.error refusal) ∉ absenceKinds := by
  have hletter : ∀ kind ∈ absenceKinds, kind.toList.head? ≠ some '<' := by decide
  refine fun hmem => hletter _ hmem ?_
  simp [Value.named]

/-- Only a text is looked up as a tag. -/
theorem eq_text_of_tagText {json : Json} {kind : String} (hkind : kind ∈ absenceKinds)
    (h : tagText json.toValue = kind) : json = .text kind := by
  have hplain : ∀ kind ∈ absenceKinds, Value.isPlainWord kind = true := by decide
  have hdisplay : json.toValue.display = kind := by
    rw [tagText] at h
    cases hshown : json.toValue.displayed with
    | ok shown =>
        rw [hshown] at h
        rw [← h]
        exact (Value.displayed_eq_ok_iff.1 hshown).1.symm
    | error refusal =>
        rw [hshown] at h
        rw [← h] at hkind
        exact absurd hkind (named_error_not_mem _ _)
  have htext := Value.eq_text_of_display hdisplay (hplain kind hkind)
  cases json with
  | text s =>
      cases htext
      rfl
  | null | bool | int | float | array | object => cases htext

/-- A form that is read has one of the four names. -/
theorem mem_absenceKinds_of_readForm? {entries : List (Value × Value)} {kind : String}
    {read : Checked (Made Absence)} (h : readForm? entries kind = some read) :
    kind ∈ absenceKinds := by
  unfold readForm? at h
  split at h
  · decide
  · decide
  · decide
  · decide
  · cases h

/-- What is read as evidence of absence is an object with a text as its tag. -/
theorem exists_tagged {json : Json} {made : Made Absence}
    (h : readAbsence json.toValue = .ok made) :
    ∃ (members : Members Json) (kind : String) (read : Checked (Made Absence)),
      json = .object members ∧ members.get? "kind" = some (.text kind) ∧
        readForm? (memberValues members) kind = some read ∧ read = .ok made := by
  cases json with
  | object members =>
      rw [toValue, readAbsence, member?_memberValues] at h
      split at h
      · exact absurd h refuse_ne_ok
      · rename_i tag htag
        obtain ⟨tag, hget, rfl⟩ := Option.map_eq_some_iff.1 htag
        split at h
        · rename_i read hform
          have htext := eq_text_of_tagText (mem_absenceKinds_of_readForm? hform) rfl
          rw [htext] at hget
          exact ⟨members, _, read, rfl, hget, hform, within_eq_ok.1 h⟩
        · exact absurd h refuse_ne_ok
  | null | bool | int | float | text | array => exact absurd h refuse_ne_ok

/-! ### Forms

What is read under each of the tags. -/

theorem complete_oneSided (kind : String) {p : Path} {path : Json}
    (h : writePath p = .ok path) : Complete (.object (oneSidedMembers kind path)) := by
  refine .object (.of_names ["kind", "path"] rfl (by decide)) ?_
  simp only [oneSidedMembers, List.forall_mem_cons]
  exact ⟨.text _, faithful_path.complete h, List.forall_mem_nil _⟩

section Forms

variable {members : Members Json} {kind : String}

/-- Complete members that are read as evidence on one side are like those that are written for it.
-/
theorem alike_oneSided {make : Path → Absence} {a : Absence}
    (hcomplete : ∀ member ∈ members, Complete member.2)
    (htag : members.get? "kind" = some (.text kind))
    (hread : readOneSided make (memberValues members) = .ok (.ok a)) :
    ∃ p, a = make p ∧ ∀ path, writePath p = .ok path →
      Alike SameText (.object members) (.object (oneSidedMembers kind path)) := by
  obtain ⟨hfields, hknown⟩ := closed_memberValues.1 hread
  simp only [map_eq_ok] at hfields
  obtain ⟨_, hpath, p, rfl, rfl⟩ := hfields
  refine ⟨p, rfl, fun path hwrite => alike_object hknown ?_⟩
  refine List.forall_mem_cons.2 ⟨⟨_, htag, .text (sameText_refl _)⟩, ?_⟩
  exact List.forall_mem_singleton.2 (faithful_path.field hcomplete hpath hwrite)

/-- Complete members that are read as evidence in between are like those that are written for it. -/
theorem alike_inner {a : Absence} (hcomplete : ∀ member ∈ members, Complete member.2)
    (htag : members.get? "kind" = some (.text "inner"))
    (hread : readInner (memberValues members) = .ok (.ok a)) :
    ∃ p q, a = .inner p q ∧
      ∀ lower upper, writePath p = .ok lower → writePath q = .ok upper →
        Alike SameText (.object members) (.object (innerMembers lower upper)) := by
  obtain ⟨hfields, hknown⟩ := closed_memberValues.1 hread
  simp only [map_eq_ok, both_eq_ok, bind_eq_ok] at hfields
  obtain ⟨⟨_, _⟩, ⟨hleft, hright⟩, p, rfl, q, rfl, ha⟩ := hfields
  cases ha
  refine ⟨p, q, rfl, fun lower upper hlower hupper => alike_object hknown ?_⟩
  refine List.forall_mem_cons.2 ⟨⟨_, htag, .text (sameText_refl _)⟩, ?_⟩
  refine List.forall_mem_cons.2 ⟨?_, ?_⟩
  · exact faithful_path.field hcomplete hleft hlower
  · exact List.forall_mem_singleton.2 (faithful_path.field hcomplete hright hupper)

end Forms

/-- Evidence of absence is written with all its members. -/
theorem complete_writeAbsence {a : Absence} {json : Json} (h : writeAbsence a = .ok json) :
    Complete json := by
  cases a with
  | empty =>
      cases h
      refine .object (.of_names ["kind"] rfl (by decide)) ?_
      exact List.forall_mem_singleton.2 (.text _)
  | left p | right p =>
      obtain ⟨path, hpath, hjson⟩ := bind_eq_ok.1 h
      cases hjson
      exact complete_oneSided _ hpath
  | inner p q =>
      obtain ⟨lower, hlower, hrest⟩ := bind_eq_ok.1 h
      obtain ⟨upper, hupper, hjson⟩ := bind_eq_ok.1 hrest
      cases hjson
      refine .object (.of_names ["kind", "left", "right"] rfl (by decide)) ?_
      simp only [List.forall_mem_cons]
      exact ⟨.text _, faithful_path.complete hlower, faithful_path.complete hupper,
        List.forall_mem_nil _⟩

/-- A complete value that is read as evidence of absence is like the one that is written for it. -/
theorem alike_writeAbsence {a : Absence} {written json : Json} (hcomplete : Complete json)
    (hread : readAbsence json.toValue = .ok (.ok a)) (hwrite : writeAbsence a = .ok written) :
    Alike SameText json written := by
  obtain ⟨members, kind, read, rfl, htag, hform, hread⟩ := exists_tagged hread
  obtain ⟨-, hvalues⟩ := hcomplete.members
  unfold readForm? at hform
  split at hform
  · cases hform
    obtain ⟨hempty, hknown⟩ := closed_memberValues.1 hread
    cases hempty
    cases hwrite
    exact alike_object hknown
      (List.forall_mem_singleton.2 ⟨_, htag, .text (sameText_refl _)⟩)
  · cases hform
    obtain ⟨p, rfl, halike⟩ := alike_oneSided hvalues htag hread
    obtain ⟨path, hpath, hwritten⟩ := bind_eq_ok.1 hwrite
    cases hwritten
    exact halike path hpath
  · cases hform
    obtain ⟨p, rfl, halike⟩ := alike_oneSided hvalues htag hread
    obtain ⟨path, hpath, hwritten⟩ := bind_eq_ok.1 hwrite
    cases hwritten
    exact halike path hpath
  · cases hform
    obtain ⟨p, q, rfl, halike⟩ := alike_inner hvalues htag hread
    obtain ⟨lower, hlower, hrest⟩ := bind_eq_ok.1 hwrite
    obtain ⟨upper, hupper, hwritten⟩ := bind_eq_ok.1 hrest
    cases hwritten
    exact halike lower upper hlower hupper
  · cases hform

theorem faithful_absence : Faithful writeAbsence readAbsence where
  complete := complete_writeAbsence
  alike := alike_writeAbsence

end Wire

end SlotEvidence
