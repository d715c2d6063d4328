/-
Module: SlotEvidence.Proofs.Json.Reading
Purpose: What holds of every value that is read from a JSON text.  The machine keeps a property of
  all values on its stack, token by token, if literals, numbers and texts have it and containers
  have it when their parts do.  Two properties are of this kind: no object has two members of one
  name, since of members with one name the last one counts; and every integer can be written again.
Trusted boundary: none
Main exports: Json.Kept, Json.Reader.holds_next, Json.Reader.holds_run, Json.distinctNames_of_parse,
  Json.distinctNames_of_parseBytes, Json.writable_of_parse, Json.writable_of_parseBytes
-/
import SlotEvidence.Proofs.Json.Order
import SlotEvidence.Proofs.Outcome

namespace SlotEvidence

namespace Json

/-- A property that reading keeps.  The members of an object come from a list in which a name may
come twice. -/
structure Kept (P : Json → Prop) : Prop where
  scalar : ∀ {value : Json}, value.Scalar → P value
  text : ∀ s : String, P (.text s)
  array : ∀ {items : List Json}, (∀ item ∈ items, P item) → P (.array items)
  object : ∀ {members : List (String × Json)}, (∀ member ∈ members, P member.2) →
    P (.object (Members.ofList members))

/-! ### The machine

The frames on the stack hold the parts that have been read, and each step of the reader adds a part
to the top frame or closes it.  A property that passes from the parts of a container to the
container holds of everything in the frames, and in the end of the whole. -/

/-- The values that an open container holds so far have a property. -/
def Frame.Holds (P : Json → Prop) : Frame → Prop
  | .items done => ∀ item ∈ done, P item
  | .members done _ => ∀ member ∈ done, P member.2

/-- All values that the machine holds have a property. -/
def Reader.Holds (P : Json → Prop) : Reader → Prop
  | .beforeValue stack | .beforeItem stack | .beforeMember stack =>
      ∀ frame ∈ stack, frame.Holds P
  | .beforeName done stack | .beforeColon done _ stack =>
      (∀ member ∈ done, P member.2) ∧ ∀ frame ∈ stack, frame.Holds P
  | .afterValue value stack => P value ∧ ∀ frame ∈ stack, frame.Holds P

/-- A token of a value is a literal or a number that can be written. -/
def Located.Fine (t : Located) : Prop := ∀ {value : Json}, t.token = .scalar value → value.Scalar

namespace Reader

variable {P : Json → Prop}

/-- After a value has been taken, what is kept holds of all that has been read. -/
theorem holds_takeValue (hP : Kept P) {stack : List Frame} {t : Located} {r : Reader}
    (ht : t.Fine) (hstack : ∀ frame ∈ stack, frame.Holds P) (h : takeValue stack t = .ok r) :
    r.Holds P := by
  unfold takeValue at h
  split at h
  · rename_i htoken
    cases h
    exact ⟨hP.scalar (ht htoken), hstack⟩
  · cases h
    exact ⟨hP.text _, hstack⟩
  · cases h
    exact hstack
  · cases h
    exact hstack
  all_goals cases h

/-- After a name has been taken, what is kept holds of all that has been read. -/
theorem holds_takeName {done : List (String × Json)} {stack : List Frame} {t : Located}
    {r : Reader} (hdone : ∀ member ∈ done, P member.2)
    (hstack : ∀ frame ∈ stack, frame.Holds P) (h : takeName done stack t = .ok r) :
    r.Holds P := by
  unfold takeName at h
  split at h
  · cases h
    exact ⟨hdone, hstack⟩
  · cases h
  · cases h

/-- A value joins the container on top of the stack, or completes it. -/
theorem holds_takeAfter (hP : Kept P) {value : Json} {stack : List Frame} {t : Located}
    {r : Reader} (hvalue : P value) (hstack : ∀ frame ∈ stack, frame.Holds P)
    (h : takeAfter value stack t = .ok r) : r.Holds P := by
  unfold takeAfter at h
  split at h
  · cases h
  · -- a comma in an array
    cases h
    obtain ⟨hdone, hstack⟩ := List.forall_mem_cons.1 hstack
    exact List.forall_mem_cons.2 ⟨List.forall_mem_cons.2 ⟨hvalue, hdone⟩, hstack⟩
  · -- the end of an array
    cases h
    obtain ⟨hdone, hstack⟩ := List.forall_mem_cons.1 hstack
    refine ⟨hP.array ?_, hstack⟩
    intro item hitem
    exact List.forall_mem_cons.2 ⟨hvalue, hdone⟩ item (List.mem_reverse.1 hitem)
  · -- a comma in an object
    cases h
    obtain ⟨hdone, hstack⟩ := List.forall_mem_cons.1 hstack
    exact ⟨List.forall_mem_cons.2 ⟨hvalue, hdone⟩, hstack⟩
  · -- the end of an object
    rename_i done name _ _
    cases h
    obtain ⟨hdone, hstack⟩ := List.forall_mem_cons.1 hstack
    have hall : ∀ member ∈ (name, value) :: done, P member.2 :=
      List.forall_mem_cons.2 ⟨hvalue, hdone⟩
    refine ⟨hP.object ?_, hstack⟩
    intro member hmember
    exact hall member (List.mem_reverse.1 hmember)
  · cases h

/-- One token keeps the property. -/
theorem holds_next (hP : Kept P) {r r' : Reader} {t : Located} (ht : t.Fine) (hr : r.Holds P)
    (h : r.next t = .ok r') : r'.Holds P := by
  cases r with
  | beforeValue stack => exact holds_takeValue hP ht hr h
  | beforeItem stack =>
      simp only [next] at h
      split at h
      · cases h
        exact ⟨hP.array nofun, hr⟩
      · have hempty : (Frame.items []).Holds P := fun _ hitem => nomatch hitem
        exact holds_takeValue hP ht (List.forall_mem_cons.2 ⟨hempty, hr⟩) h
  | beforeMember stack =>
      simp only [next] at h
      split at h
      · cases h
        exact ⟨@Kept.object P hP [] nofun, hr⟩
      · have hempty : ∀ member ∈ ([] : List (String × Json)), P member.2 := nofun
        exact holds_takeName hempty hr h
  | beforeName done stack => exact holds_takeName hr.1 hr.2 h
  | beforeColon done name stack =>
      simp only [next] at h
      split at h
      · cases h
        exact List.forall_mem_cons.2 hr
      · cases h
  | afterValue value stack => exact holds_takeAfter hP hr.1 hr.2 h

/-- A run over tokens keeps the property. -/
theorem holds_run (hP : Kept P) {ts : List Located} {r r' : Reader} (hts : ∀ t ∈ ts, t.Fine)
    (hr : r.Holds P) (h : ts.foldlM next r = .ok r') : r'.Holds P := by
  induction ts generalizing r with
  | nil =>
      cases h
      exact hr
  | cons t ts ih =>
      obtain ⟨ht, hts⟩ := List.forall_mem_cons.1 hts
      rw [List.foldlM_cons] at h
      obtain ⟨between, hnext, hrun⟩ := bind_eq_ok.1 h
      exact ih hts (holds_next hP ht hr hnext) hrun

/-- What the reader ends with is kept. -/
theorem holds_finish {r : Reader} {position : Nat} {value : Json} (hr : r.Holds P)
    (h : r.finish position = .ok value) : P value := by
  unfold finish at h
  split at h
  case h_1 =>
    cases h
    exact hr.1
  all_goals cases h

end Reader

/-! ### Texts

Two properties that are kept in this way: no name comes twice in an object, and no integer is too
long to be written. -/

namespace Kept

variable {P : Json → Prop}

/-- A property that is kept holds of whatever is read from characters. -/
theorem of_read (hP : Kept P) {chars : List Char} {value : Json} (h : read chars = .ok value) :
    P value := by
  obtain ⟨r, hrun, hfinish⟩ := bind_eq_ok.1 h
  have hr : r.Holds P := by
    refine Reader.holds_run hP ?_ ?_ hrun
    · intro t ht value hvalue
      exact scalar_of_mem_tokens ht hvalue
    · exact nofun
  exact Reader.holds_finish hr hfinish

theorem of_parse (hP : Kept P) {text : String} {value : Json} (h : parse text = .ok value) :
    P value := by
  unfold parse at h
  dsimp only at h
  split at h
  · cases h
  · exact hP.of_read (mapError_eq_ok.1 h)

theorem of_parseBytes (hP : Kept P) {bytes : Bytes} {value : Json}
    (h : parseBytes bytes = .ok value) : P value := by
  unfold parseBytes at h
  split at h
  · cases h
  · exact hP.of_read (mapError_eq_ok.1 h)

end Kept

/-- Distinct names are kept: a name that comes again replaces the member that it named. -/
theorem kept_distinctNames : Kept DistinctNames where
  scalar h := by
    cases h with
    | null => exact .null
    | bool b => exact .bool b
    | int _ => exact .int _
    | float x => exact .float x
  text s := .text s
  array h := .array h
  object h :=
    .object (Members.nodup_names_ofList _) fun member hmember =>
      h member (Members.mem_of_mem_ofList hmember)

/-- Integers short enough to be written are kept: a longer one is not read at all. -/
theorem kept_writable : Kept Writable where
  scalar h := by
    cases h with
    | null => exact writable_null
    | bool b => exact writable_bool b
    | int h => exact writable_int_iff.2 h
    | float x => exact writable_float x
  text s := writable_text s
  array h := writable_array_iff.2 h
  object h := writable_object_iff.2 fun member hmember =>
    h member (Members.mem_of_mem_ofList hmember)

theorem distinctNames_of_parse {text : String} {value : Json} (h : parse text = .ok value) :
    value.DistinctNames :=
  kept_distinctNames.of_parse h

theorem distinctNames_of_parseBytes {bytes : Bytes} {value : Json}
    (h : parseBytes bytes = .ok value) : value.DistinctNames :=
  kept_distinctNames.of_parseBytes h

theorem writable_of_parse {text : String} {value : Json} (h : parse text = .ok value) :
    value.Writable :=
  kept_writable.of_parse h

theorem writable_of_parseBytes {bytes : Bytes} {value : Json} (h : parseBytes bytes = .ok value) :
    value.Writable :=
  kept_writable.of_parseBytes h

end Json

end SlotEvidence
