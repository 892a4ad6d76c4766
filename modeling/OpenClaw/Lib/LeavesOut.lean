import Mathlib.Data.List.Forall2
import Mathlib.Data.List.Perm.Basic

/-!
# Leaving elements out

A list that has the elements of another one, each up to a relation and in any order, but for
some that are left out.
-/

/-- `ys` has the elements of `xs` up to `r`, but for `n` of them. -/
def LeavesOut {α β : Type*} (r : α → β → Prop) (xs : List α) (ys : List β) (n : ℕ) : Prop :=
  ∃ kept gone, xs.Perm (kept ++ gone) ∧ List.Forall₂ r kept ys ∧ gone.length = n

namespace LeavesOut

open List

variable {α β γ : Type*} {r : α → β → Prop} {xs xs' : List α} {ys ys' : List β} {m n : ℕ}

theorem of_forall₂ (h : List.Forall₂ r xs ys) : LeavesOut r xs ys 0 :=
  ⟨xs, [], by rw [append_nil], h, rfl⟩

theorem refl {s : α → α → Prop} (hs : ∀ a, s a a) (xs : List α) : LeavesOut s xs xs 0 :=
  of_forall₂ (forall₂_same.mpr fun a _ => hs a)

/-- Nothing is kept. -/
theorem nil (r : α → β → Prop) (xs : List α) : LeavesOut r xs ([] : List β) xs.length :=
  ⟨[], xs, List.Perm.refl _, .nil, rfl⟩

theorem append (h : LeavesOut r xs ys m) (h' : LeavesOut r xs' ys' n) :
    LeavesOut r (xs ++ xs') (ys ++ ys') (m + n) := by
  obtain ⟨kept, gone, hperm, hkept, hgone⟩ := h
  obtain ⟨kept', gone', hperm', hkept', hgone'⟩ := h'
  refine ⟨kept ++ kept', gone ++ gone', ?_, rel_append hkept hkept', ?_⟩
  · calc (xs ++ xs').Perm ((kept ++ gone) ++ (kept' ++ gone')) := hperm.append hperm'
      _ = kept ++ (gone ++ (kept' ++ gone')) := append_assoc _ _ _
      List.Perm _ (kept ++ (kept' ++ (gone ++ gone'))) := by
        apply List.Perm.append_left
        rw [← append_assoc, ← append_assoc]
        exact List.perm_append_comm.append_right _
      _ = (kept ++ kept') ++ (gone ++ gone') := (append_assoc _ _ _).symm
  · rw [length_append, hgone, hgone']

theorem perm_right (h : LeavesOut r xs ys n) (hperm : ys.Perm ys') : LeavesOut r xs ys' n := by
  obtain ⟨kept, gone, hxs, hkept, hgone⟩ := h
  obtain ⟨kept', hkept', hperm'⟩ := perm_comp_forall₂ hperm.symm hkept.flip
  refine ⟨kept', gone, ?_, hkept'.flip, hgone⟩
  exact hxs.trans (hperm'.symm.append_right gone)

theorem trans {s : β → γ → Prop} {t : α → γ → Prop} {zs : List γ}
    (hst : ∀ a b c, r a b → s b c → t a c) (h : LeavesOut r xs ys m) (h' : LeavesOut s ys zs n) :
    LeavesOut t xs zs (m + n) := by
  obtain ⟨kept', gone', hys, hkept', hgone'⟩ := h'
  -- the kept elements in the order in which the second list keeps and drops them
  obtain ⟨kept, gone, hxs, hkept, hgone⟩ := h.perm_right hys
  obtain ⟨kept₁, gone₁, rfl, hkept₁, hgone₁⟩ : ∃ kept₁ gone₁, kept = kept₁ ++ gone₁ ∧
      List.Forall₂ r kept₁ kept' ∧ List.Forall₂ r gone₁ gone' := by
    refine ⟨kept.take kept'.length, kept.drop kept'.length, (take_append_drop _ _).symm, ?_, ?_⟩
    · exact forall₂_take_append kept kept' gone' hkept
    · exact forall₂_drop_append kept kept' gone' hkept
  refine ⟨kept₁, gone₁ ++ gone, ?_, ?_, ?_⟩
  · rw [← append_assoc]
    exact hxs
  · clear hxs hkept hys hgone hgone₁
    induction hkept₁ generalizing zs with
    | nil =>
      cases hkept'
      exact .nil
    | cons hab _ ih =>
      cases hkept' with
      | cons hbc hrest => exact .cons (hst _ _ _ hab hbc) (ih hrest)
  · rw [length_append, hgone₁.length_eq, hgone', hgone, Nat.add_comm]

theorem length_eq (h : LeavesOut r xs ys n) : xs.length = ys.length + n := by
  obtain ⟨kept, gone, hperm, hkept, hgone⟩ := h
  rw [hperm.length_eq, length_append, hkept.length_eq, hgone]

end LeavesOut
