/-
Module: SlotEvidence.Proofs.Json.Alike
Purpose: JSON values that are alike: they are the same up to the order of members and up to texts
  that count as the same.  Where no name comes twice and only equal texts count as the same, they
  are the values with the same canonical order.
Trusted boundary: none
Main exports: Json.Alike, Json.SameUpToOrder, Json.Alike.trans, Json.Alike.writable,
  Json.DistinctNames.alike_sorted, Json.sameUpToOrder_iff_sorted_eq
-/
import SlotEvidence.Proofs.Forall2
import SlotEvidence.Proofs.Json.Order

namespace SlotEvidence

namespace Json

/-- Two values have the same items in the same places, members of the same names in whatever order,
equal numbers and literals, and texts that count as the same. -/
inductive Alike (SameText : String → String → Prop) : Json → Json → Prop where
  | null : Alike SameText .null .null
  | bool (b : Bool) : Alike SameText (.bool b) (.bool b)
  | int (n : Int) : Alike SameText (.int n) (.int n)
  | float (x : Binary64) : Alike SameText (.float x) (.float x)
  | text {s t : String} (h : SameText s t) : Alike SameText (.text s) (.text t)
  | array {xs ys : List Json} (hlength : xs.length = ys.length)
      (h : ∀ {x y}, (x, y) ∈ xs.zip ys → Alike SameText x y) :
      Alike SameText (.array xs) (.array ys)
  | object {xs ys : Members Json} (hnames : ∀ name, name ∈ xs.names ↔ name ∈ ys.names)
      (h : ∀ {name x y}, xs.get? name = some x → ys.get? name = some y → Alike SameText x y) :
      Alike SameText (.object xs) (.object ys)

/-- Two values are the same but for the order of members. -/
abbrev SameUpToOrder : Json → Json → Prop := Alike Eq

variable {R : String → String → Prop}

/-- Arrays are alike when their items are, place by place. -/
theorem alike_array_iff {xs ys : List Json} :
    Alike R (.array xs) (.array ys) ↔ List.Forall₂ (Alike R) xs ys := by
  rw [List.forall₂_iff_zip]
  constructor
  · intro h
    cases h with
    | array hlength h => exact ⟨hlength, h⟩
  · rintro ⟨hlength, h⟩
    exact .array hlength h

/-- Likeness is symmetric if the relation of texts is. -/
theorem Alike.symm (hsymm : ∀ {s t}, R s t → R t s) {a b : Json} (h : Alike R a b) :
    Alike R b a := by
  induction h with
  | null => exact .null
  | bool b => exact .bool b
  | int n => exact .int n
  | float x => exact .float x
  | text h => exact .text (hsymm h)
  | array hlength _ ih =>
      refine alike_array_iff.2 (List.Forall₂.flip ?_)
      exact List.forall₂_iff_zip.2 ⟨hlength, ih⟩
  | object hnames _ ih =>
      exact .object (fun name => (hnames name).symm) fun hy hx => ih hx hy

/-- Likeness is transitive if the relation of texts is. -/
theorem Alike.trans (htrans : ∀ {s t u}, R s t → R t u → R s u) {a b c : Json}
    (hab : Alike R a b) (hbc : Alike R b c) : Alike R a c := by
  induction hab generalizing c with
  | null => exact hbc
  | bool _ => exact hbc
  | int _ => exact hbc
  | float _ => exact hbc
  | text hst =>
      cases hbc with
      | text htu => exact .text (htrans hst htu)
  | @array xs ys hlength _ ih =>
      cases hbc with
      | @array _ zs hlength' hyz =>
          have hxy : List.Forall₂ (fun x y => ∀ {z}, Alike R y z → Alike R x z) xs ys :=
            List.forall₂_iff_zip.2 ⟨hlength, ih⟩
          have hyz : List.Forall₂ (Alike R) ys zs := List.forall₂_iff_zip.2 ⟨hlength', hyz⟩
          exact alike_array_iff.2 (forall₂_trans (fun hx hy => hx hy) hxy hyz)
  | object hnames _ ih =>
      cases hbc with
      | object hnames' hyz =>
          refine .object (fun name => (hnames name).trans (hnames' name)) ?_
          intro name x z hx hz
          have hname := (hnames name).1 (Members.mem_names_of_get?_eq_some hx)
          obtain ⟨y, hy⟩ := Members.exists_get?_of_mem_names hname
          exact ih hx hy (hyz hy hz)

/-- Members that stand in another order are alike. -/
theorem DistinctNames.alike_sorted (hrefl : ∀ s, R s s) {value : Json}
    (h : value.DistinctNames) : Alike R value value.sorted := by
  induction h with
  | null => exact .null
  | bool b => exact .bool b
  | int n => exact .int n
  | float x => exact .float x
  | text s => exact .text (hrefl s)
  | array _ ih =>
      rw [sorted, sortedItems_eq_map, alike_array_iff, List.forall₂_map_right_iff,
        List.forall₂_same]
      exact ih
  | @object members hdistinct _ ih =>
      have hperm := sortMembers_perm members
      have hget : ∀ name, Members.get? ((sortMembers members).map (Prod.map id sorted)) name =
          (members.get? name).map sorted := by
        intro name
        rw [Members.get?_map, Members.get?_perm hperm.symm hdistinct]
      rw [sorted_object]
      refine .object ?_ ?_
      · intro name
        rw [Members.names_map]
        exact (hperm.map _).mem_iff.symm
      · intro name x y hx hy
        rw [hget, hx] at hy
        cases hy
        exact ih _ (Members.mem_of_get?_eq_some hx)

/-- Values that are alike hold the same integers, so that both are writable or neither. -/
theorem Alike.writable {a b : Json} (h : Alike R a b) (hb : b.DistinctNames)
    (hwritable : a.Writable) : b.Writable := by
  induction h with
  | null | bool | int | float => exact hwritable
  | text _ => exact writable_text _
  | @array xs ys hlength _ ih =>
      cases hb with
      | array hb =>
          have hitems : List.Forall₂ (fun x y => y.DistinctNames → x.Writable → y.Writable) xs ys :=
            List.forall₂_iff_zip.2 ⟨hlength, ih⟩
          refine writable_array_iff.2 fun y hy => ?_
          obtain ⟨x, hx, hxy⟩ := exists_of_mem_forall₂_right hitems hy
          exact hxy (hb y hy) (writable_array_iff.1 hwritable x hx)
  | @object xs ys hnames _ ih =>
      cases hb with
      | object hys hb =>
          refine writable_object_iff.2 fun member hmember => ?_
          have hy := (Members.get?_eq_some_iff hys).2 hmember
          have hname := (hnames member.1).2 (Members.mem_names_of_get?_eq_some hy)
          obtain ⟨x, hx⟩ := Members.exists_get?_of_mem_names hname
          exact ih hx hy (hb member hmember)
            (writable_object_iff.1 hwritable _ (Members.mem_of_get?_eq_some hx))

/-- Values that are the same up to the order of members have the same canonical order. -/
theorem Alike.sorted_eq {a b : Json} (h : SameUpToOrder a b) (ha : a.DistinctNames)
    (hb : b.DistinctNames) : a.sorted = b.sorted := by
  induction h with
  | null => rfl
  | bool _ => rfl
  | int _ => rfl
  | float _ => rfl
  | text h => rw [h]
  | @array xs ys hlength _ ih =>
      cases ha with
      | array ha =>
      cases hb with
      | array hb =>
          have hitems : List.Forall₂ (fun x y => sorted x = sorted y) xs ys := by
            refine List.forall₂_iff_zip.2 ⟨hlength, fun {x y} hmem => ?_⟩
            obtain ⟨hx, hy⟩ := List.of_mem_zip hmem
            exact ih hmem (ha x hx) (hb y hy)
          rw [sorted, sorted, sortedItems_eq_map, sortedItems_eq_map]
          exact congrArg Json.array (List.forall₂_eq_eq_eq ▸ List.forall₂_map_left_iff.2
            (List.forall₂_map_right_iff.2 hitems))
  | @object xs ys hnames _ ih =>
      cases ha with
      | object hxs ha =>
      cases hb with
      | object hys hb =>
          rw [sorted, sorted, sortedMembers_eq_map, sortedMembers_eq_map]
          -- Under each name both hold members that are sorted alike, and names come once.
          refine congrArg Json.object (sortMembers_eq_of_perm ?_ (Members.perm_of_get?_eq ?_ ?_ ?_))
          · rwa [Members.names_map]
          · rwa [Members.names_map]
          · rwa [Members.names_map]
          · intro name
            rw [Members.get?_map, Members.get?_map]
            refine Members.map_get?_eq hnames fun hx hy => ih hx hy ?_ ?_
            · exact ha _ (Members.mem_of_get?_eq_some hx)
            · exact hb _ (Members.mem_of_get?_eq_some hy)

/-- Where no name comes twice, just the values with the same canonical order are the same up to the
order of members. -/
theorem sameUpToOrder_iff_sorted_eq {a b : Json} (ha : a.DistinctNames) (hb : b.DistinctNames) :
    SameUpToOrder a b ↔ a.sorted = b.sorted := by
  constructor
  · intro h
    exact h.sorted_eq ha hb
  · intro h
    have hsorted : SameUpToOrder a a.sorted := ha.alike_sorted fun _ => rfl
    have hback : SameUpToOrder b.sorted b := (hb.alike_sorted fun _ => rfl).symm Eq.symm
    rw [h] at hsorted
    exact Alike.trans (R := Eq) Eq.trans hsorted hback

end Json

end SlotEvidence
