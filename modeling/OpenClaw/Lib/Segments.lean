import Mathlib.Data.List.Basic
import Mathlib.Tactic.Common

/-!
# Texts of segments

A text is made of segments, each followed by a separator, and of a rest that may hold
anything. Segments without the separator can be read back from the front of the text, so
two texts are equal if and only if one continues the segments of the other.
-/

namespace Segments

open List

variable {α : Type*}

/-- The segments, each followed by the separator, and the rest. -/
def text (sep : α) : List (List α) → List α → List α
  | [], rest => rest
  | segment :: segments, rest => segment ++ sep :: text sep segments rest

variable {sep : α} {xs ys : List (List α)} {s t : List α}

/-- The first separator ends the first segment. -/
theorem append_sep_eq_iff {x y : List α} (hx : sep ∉ x) (hy : sep ∉ y) :
    x ++ sep :: s = y ++ sep :: t ↔ x = y ∧ s = t := by
  induction x generalizing y with
  | nil =>
    cases y with
    | nil => simp
    | cons b y =>
      have hne : sep ≠ b := fun heq => hy (heq ▸ mem_cons_self)
      simp [hne]
  | cons a x ih =>
    have hne : a ≠ sep := fun heq => hx (heq ▸ mem_cons_self)
    cases y with
    | nil => simp [hne]
    | cons b y =>
      have htail := ih (fun hmem => hx (mem_cons_of_mem _ hmem))
        (fun hmem => hy (mem_cons_of_mem _ hmem))
      simp [htail, and_assoc]

theorem text_cons_eq_iff {x y : List α} (hx : sep ∉ x) (hy : sep ∉ y) :
    text sep (x :: xs) s = text sep (y :: ys) t ↔ x = y ∧ text sep xs s = text sep ys t :=
  append_sep_eq_iff hx hy

/-- The longer list of segments begins with the shorter one. -/
theorem text_eq_iff (hxs : ∀ x ∈ xs, sep ∉ x) (hys : ∀ y ∈ ys, sep ∉ y)
    (hle : xs.length ≤ ys.length) :
    text sep xs s = text sep ys t ↔ ∃ zs, ys = xs ++ zs ∧ s = text sep zs t := by
  induction xs generalizing ys with
  | nil => exact ⟨fun h => ⟨ys, rfl, h⟩, fun ⟨zs, hzs, h⟩ => by rw [h, hzs]; rfl⟩
  | cons x xs ih =>
    cases ys with
    | nil => exact absurd hle (Nat.not_succ_le_zero _)
    | cons y ys =>
      have htail := ih (fun x' hmem => hxs x' (mem_cons_of_mem _ hmem))
        (fun y' hmem => hys y' (mem_cons_of_mem _ hmem)) (Nat.le_of_succ_le_succ hle)
      rw [text_cons_eq_iff (hxs x mem_cons_self) (hys y mem_cons_self), htail]
      constructor
      · rintro ⟨rfl, zs, rfl, hrest⟩
        exact ⟨zs, rfl, hrest⟩
      · rintro ⟨zs, hsplit, hrest⟩
        obtain ⟨rfl, rfl⟩ := cons_eq_cons.mp hsplit
        exact ⟨rfl, zs, rfl, hrest⟩

/-- Equally many segments are the same segments. -/
theorem text_inj (hxs : ∀ x ∈ xs, sep ∉ x) (hys : ∀ y ∈ ys, sep ∉ y)
    (hlength : xs.length = ys.length) : text sep xs s = text sep ys t ↔ xs = ys ∧ s = t := by
  rw [text_eq_iff hxs hys (Nat.le_of_eq hlength)]
  constructor
  · rintro ⟨zs, rfl, rfl⟩
    have hzs : zs = [] := by
      rw [length_append] at hlength
      exact eq_nil_of_length_eq_zero (by omega)
    rw [hzs, append_nil]
    exact ⟨rfl, rfl⟩
  · rintro ⟨rfl, rfl⟩
    exact ⟨[], (append_nil _).symm, rfl⟩

end Segments
