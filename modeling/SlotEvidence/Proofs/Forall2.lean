/-
Module: SlotEvidence.Proofs.Forall2
Purpose: Lists that are related item by item: every item of one has its counterpart in the other.
Trusted boundary: none
Main exports: forall₂_concat_iff, exists_of_mem_forall₂_left, exists_of_mem_forall₂_right,
  exists_getElem?_of_forall₂, forall₂_trans
-/
import Mathlib.Data.List.Forall2

namespace SlotEvidence

/-- Lists that agree up to the last member of the first one agree there too. -/
theorem forall₂_concat_iff {α β : Type} {R : α → β → Prop} {xs : List α} {x : α} {ys : List β} :
    List.Forall₂ R (xs ++ [x]) ys ↔
      ∃ lower top, ys = lower ++ [top] ∧ List.Forall₂ R xs lower ∧ R x top := by
  constructor
  · intro h
    obtain rfl | ⟨lower, top, rfl⟩ := List.eq_nil_or_concat' ys
    · simp at h
    · have hlength : xs.length = lower.length := by
        have := h.length_eq
        simpa using this
      have htake := List.forall₂_take_append _ _ _ h
      have hdrop := List.forall₂_drop_append _ _ _ h
      rw [List.take_left' hlength] at htake
      rw [List.drop_left' hlength] at hdrop
      exact ⟨lower, top, rfl, htake, (List.forall₂_cons.1 hdrop).1⟩
  · rintro ⟨lower, top, rfl, hlower, htop⟩
    exact List.rel_append hlower (.cons htop .nil)

/-- Every element of the left list has a partner. -/
theorem exists_of_mem_forall₂_left {α β : Type} {R : α → β → Prop} {xs : List α} {ys : List β}
    (h : List.Forall₂ R xs ys) {x : α} (hx : x ∈ xs) : ∃ y ∈ ys, R x y := by
  induction h with
  | nil => cases hx
  | cons hhead _ ih =>
      rcases List.mem_cons.1 hx with rfl | hx
      · exact ⟨_, List.mem_cons_self, hhead⟩
      · obtain ⟨y, hy, hrest⟩ := ih hx
        exact ⟨y, List.mem_cons_of_mem _ hy, hrest⟩

/-- The partner of an element stands at the same place. -/
theorem exists_getElem?_of_forall₂ {α β : Type} {R : α → β → Prop} {xs : List α} {ys : List β}
    (h : List.Forall₂ R xs ys) {i : Nat} {y : β} (hy : ys[i]? = some y) :
    ∃ x, xs[i]? = some x ∧ R x y := by
  induction h generalizing i with
  | nil => cases hy
  | cons hhead _ ih =>
      cases i with
      | zero =>
          cases hy
          exact ⟨_, rfl, hhead⟩
      | succ i => exact ih hy

theorem exists_of_mem_forall₂_right {α β : Type} {R : α → β → Prop} {xs : List α} {ys : List β}
    (h : List.Forall₂ R xs ys) {y : β} (hy : y ∈ ys) : ∃ x ∈ xs, R x y :=
  exists_of_mem_forall₂_left (R := flip R) h.flip hy

/-- Lists that are related to the same list in between are related, if their items are. -/
theorem forall₂_trans {α β γ : Type} {R : α → β → Prop} {S : β → γ → Prop} {T : α → γ → Prop}
    (h : ∀ {x y z}, R x y → S y z → T x z) {xs : List α} {ys : List β} {zs : List γ}
    (hxy : List.Forall₂ R xs ys) (hyz : List.Forall₂ S ys zs) : List.Forall₂ T xs zs := by
  induction hxy generalizing zs with
  | nil =>
      cases hyz
      exact .nil
  | cons hx _ ih =>
      cases hyz with
      | cons hy hrest => exact .cons (h hx hy) (ih hrest)

end SlotEvidence
