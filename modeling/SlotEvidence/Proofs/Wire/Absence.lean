/-
Module: SlotEvidence.Proofs.Wire.Absence
Purpose: Evidence of absence is read back from what is written: its tag names its form, and its
  paths are read back.
Trusted boundary: none
Main exports: Absence.paths, Wire.roundTrip_absence
-/
import SlotEvidence.Proofs.Wire.Path

namespace SlotEvidence

/-- The paths in evidence of absence. -/
def Absence.paths : Absence → List Path
  | .empty => []
  | .left path | .right path => [path]
  | .inner lower upper => [lower, upper]

namespace Wire

open Schema

/-- The written form of evidence with one path. -/
def oneSidedMembers (kind : String) (path : Json) : Members Json :=
  [("kind", .text kind), ("path", path)]

/-- The written form of evidence with two paths. -/
def innerMembers (lower upper : Json) : Members Json :=
  [("kind", .text "inner"), ("left", lower), ("right", upper)]

theorem oneSidedMembers_distinct (kind : String) (path : Json) :
    (oneSidedMembers kind path).names.Nodup := by
  change ["kind", "path"].Nodup
  decide

theorem innerMembers_distinct (lower upper : Json) : (innerMembers lower upper).names.Nodup := by
  change ["kind", "left", "right"].Nodup
  decide

/-- A record is read in the form that its tag names. -/
theorem readAbsence_of_tag {members : Members Json} (hdistinct : members.names.Nodup)
    {kind : String} (htag : ("kind", .text kind) ∈ members) {read : Checked (Made Absence)}
    {made : Made Absence} (hform : readForm? (entries members) kind = some read)
    (hread : read = .ok made) : readAbsence (Json.object members).asRead = .ok made := by
  have hkind : tagText (Json.text kind).asRead = kind := rfl
  rw [asRead_object, readAbsence, member?_entries hdistinct htag]
  dsimp only
  rw [hkind, hform]
  exact within_eq_ok.2 hread

/-- What is read as evidence of absence is a mapping in one of the forms. -/
theorem exists_form {value : Value} {made : Made Absence} (h : readAbsence value = .ok made) :
    ∃ entries kind read, value = .mapping entries ∧ readForm? entries kind = some read ∧
      read = .ok made := by
  unfold readAbsence at h
  split at h
  · split at h
    · exact absurd h refuse_ne_ok
    · split at h
      · rename_i read hform
        exact ⟨_, _, read, rfl, hform, within_eq_ok.1 h⟩
      · exact absurd h refuse_ne_ok
  · exact absurd h refuse_ne_ok

/-- Evidence on one side is read back from its members. -/
theorem readOneSided_members {make : Path → Absence} (kind : String) {p : Path} {path : Json}
    (h : writePath p = .ok path) :
    readOneSided make (entries (oneSidedMembers kind path)) = .ok (.ok (make p)) := by
  have hpath : required (entries (oneSidedMembers kind path)) "path" readPath = .ok (.ok p) :=
    required_entries (oneSidedMembers_distinct kind path) (.tail _ (.head _))
      (roundTrip_path.read_written h)
  apply closed_entries (oneSidedMembers kind path)
  rw [hpath]
  rfl

/-- Evidence in between is read back from its members. -/
theorem readInner_members {p q : Path} {lower upper : Json} (hlower : writePath p = .ok lower)
    (hupper : writePath q = .ok upper) :
    readInner (entries (innerMembers lower upper)) = .ok (.ok (.inner p q)) := by
  have hdistinct := innerMembers_distinct lower upper
  have hleft : required (entries (innerMembers lower upper)) "left" readPath = .ok (.ok p) :=
    required_entries hdistinct (.tail _ (.head _)) (roundTrip_path.read_written hlower)
  have hright : required (entries (innerMembers lower upper)) "right" readPath = .ok (.ok q) :=
    required_entries hdistinct (.tail _ (.tail _ (.head _))) (roundTrip_path.read_written hupper)
  apply closed_entries (innerMembers lower upper)
  rw [hleft, hright]
  rfl

/-- Evidence on one side that is read has a path that can be written. -/
theorem fits_of_readOneSided {make : Path → Absence} {entries : List (Value × Value)}
    {a : Absence} (hentries : (Value.mapping entries).Writable)
    (h : readOneSided make entries = .ok (.ok a)) : ∃ p, a = make p ∧ PathFits p := by
  obtain ⟨hfields, -⟩ := closed_eq_ok.1 h
  simp only [map_eq_ok] at hfields
  obtain ⟨_, hread, p, rfl, rfl⟩ := hfields
  exact ⟨p, rfl, roundTrip_path.fits_of_read_field hentries hread⟩

/-- Evidence in between that is read has paths that can be written. -/
theorem fits_of_readInner {entries : List (Value × Value)} {a : Absence}
    (hentries : (Value.mapping entries).Writable) (h : readInner entries = .ok (.ok a)) :
    ∃ p q, a = .inner p q ∧ PathFits p ∧ PathFits q := by
  obtain ⟨hfields, -⟩ := closed_eq_ok.1 h
  simp only [map_eq_ok, both_eq_ok, bind_eq_ok] at hfields
  obtain ⟨⟨_, _⟩, ⟨hlower, hupper⟩, p, rfl, q, rfl, ha⟩ := hfields
  cases ha
  exact ⟨p, q, rfl, roundTrip_path.fits_of_read_field hentries hlower,
    roundTrip_path.fits_of_read_field hentries hupper⟩

theorem legible_oneSided (kind : String) {p : Path} {path : Json} (h : writePath p = .ok path) :
    (Json.object (oneSidedMembers kind path)).Legible := by
  apply Json.Legible.object (oneSidedMembers_distinct kind path)
  simp only [oneSidedMembers, List.forall_mem_cons]
  exact ⟨.text _, roundTrip_path.legible h, nofun⟩

/-- What is written of evidence of absence is legible, and is read back. -/
theorem readBack_writeAbsence {a : Absence} {json : Json} (h : writeAbsence a = .ok json) :
    json.Legible ∧ readAbsence json.asRead = .ok (.ok a) := by
  cases a with
  | empty =>
      cases h
      have hdistinct : (Members.names [("kind", Json.text "empty")]).Nodup := by
        change ["kind"].Nodup
        decide
      constructor
      · apply Json.Legible.object hdistinct
        exact List.forall_mem_singleton.2 (.text _)
      · apply readAbsence_of_tag hdistinct (.head _) rfl
        exact closed_entries [("kind", Json.text "empty")] rfl
  | left p =>
      obtain ⟨path, hpath, hjson⟩ := bind_eq_ok.1 h
      cases hjson
      exact ⟨legible_oneSided "left" hpath,
        readAbsence_of_tag (oneSidedMembers_distinct "left" path) (.head _) rfl
          (readOneSided_members "left" hpath)⟩
  | right p =>
      obtain ⟨path, hpath, hjson⟩ := bind_eq_ok.1 h
      cases hjson
      exact ⟨legible_oneSided "right" hpath,
        readAbsence_of_tag (oneSidedMembers_distinct "right" path) (.head _) rfl
          (readOneSided_members "right" hpath)⟩
  | inner p q =>
      obtain ⟨lower, hlower, hrest⟩ := bind_eq_ok.1 h
      obtain ⟨upper, hupper, hjson⟩ := bind_eq_ok.1 hrest
      cases hjson
      have hdistinct := innerMembers_distinct lower upper
      constructor
      · apply Json.Legible.object hdistinct
        simp only [innerMembers, List.forall_mem_cons]
        exact ⟨.text _, roundTrip_path.legible hlower, roundTrip_path.legible hupper, nofun⟩
      · exact readAbsence_of_tag hdistinct (.head _) rfl (readInner_members hlower hupper)

/-- A tag is a text, so it adds no integer to the members. -/
theorem writable_tagged {kind : String} {members : Members Json}
    (h : (Json.object members).Writable) :
    (Json.object (("kind", .text kind) :: members)).Writable :=
  Json.writable_object_iff.2
    (List.forall_mem_cons.2 ⟨Json.writable_text _, Json.writable_object_iff.1 h⟩)

/-- Evidence of absence goes to the wire and back, if its paths do. -/
theorem roundTrip_absence :
    RoundTrip writeAbsence readAbsence fun a => ∀ p ∈ a.paths, PathFits p where
  legible h := (readBack_writeAbsence h).1
  read_written h := (readBack_writeAbsence h).2
  exists_written := by
    intro a h
    cases a with
    | empty => exact ⟨_, rfl, writable_tagged nofun⟩
    | left p | right p =>
        obtain ⟨path, hpath, hwritable⟩ := roundTrip_path.exists_written (h p (.head _))
        refine ⟨_, bind_eq_ok.2 ⟨path, hpath, rfl⟩, writable_tagged ?_⟩
        exact Json.writable_object_iff.2 (List.forall_mem_singleton.2 hwritable)
    | inner p q =>
        obtain ⟨lower, hlower, hlowerWritable⟩ := roundTrip_path.exists_written (h p (.head _))
        obtain ⟨upper, hupper, hupperWritable⟩ :=
          roundTrip_path.exists_written (h q (.tail _ (.head _)))
        refine ⟨_, bind_eq_ok.2 ⟨lower, hlower, bind_eq_ok.2 ⟨upper, hupper, rfl⟩⟩,
          writable_tagged ?_⟩
        exact Json.writable_object_iff.2
          (List.forall_mem_cons.2 ⟨hlowerWritable, List.forall_mem_singleton.2 hupperWritable⟩)
  fits_of_read := by
    intro a value hvalue h
    obtain ⟨entries, kind, read, rfl, hform, hread⟩ := exists_form h
    unfold readForm? at hform
    split at hform
    · cases hform
      obtain ⟨hempty, -⟩ := closed_eq_ok.1 hread
      cases hempty
      exact fun _ => nofun
    · cases hform
      obtain ⟨p, rfl, hp⟩ := fits_of_readOneSided hvalue hread
      exact List.forall_mem_singleton.2 hp
    · cases hform
      obtain ⟨p, rfl, hp⟩ := fits_of_readOneSided hvalue hread
      exact List.forall_mem_singleton.2 hp
    · cases hform
      obtain ⟨p, q, rfl, hp, hq⟩ := fits_of_readInner hvalue hread
      exact List.forall_mem_cons.2 ⟨hp, List.forall_mem_singleton.2 hq⟩
    · cases hform

end Wire

end SlotEvidence
