import Mathlib.Data.List.Basic
import Mathlib.Data.List.Nodup
import Mathlib.Logic.Function.Basic
import Mathlib.Tactic.Common

/-!
# Buckets

A list is sorted into buckets by the keys of its values. A bucket holds the values with its
key in the order of the list, so a search of the right bucket finds what a search of the
whole list finds. Two buckets are merged by the order of their values.
-/

namespace Buckets

open List

variable {α κ : Type*} [DecidableEq κ]

/-- `map.get(k).push(a)`, where a missing bucket is an empty one. -/
def push (buckets : κ → List α) (k : κ) (a : α) : κ → List α :=
  Function.update buckets k (buckets k ++ [a])

/-- Every value, under each of its keys. -/
def collect (keysOf : α → List κ) (xs : List α) : κ → List α :=
  xs.foldl (fun buckets a => (keysOf a).foldl (fun buckets k => push buckets k a) buckets)
    fun _ => []

theorem foldl_push {keys : List κ} (hkeys : keys.Nodup) (buckets : κ → List α) (a : α) (k : κ) :
    keys.foldl (fun buckets k => push buckets k a) buckets k =
      buckets k ++ if k ∈ keys then [a] else [] := by
  induction keys generalizing buckets with
  | nil => simp
  | cons first rest ih =>
    have hparts := nodup_cons.mp hkeys
    rw [foldl_cons, ih hparts.2]
    by_cases hk : k = first
    · subst hk
      simp [push, hparts.1]
    · simp [push, hk]

/-- A bucket holds the values with its key, in order. -/
theorem collect_apply {keysOf : α → List κ} (hkeys : ∀ a, (keysOf a).Nodup) (xs : List α) (k : κ) :
    collect keysOf xs k = xs.filter fun a => k ∈ keysOf a := by
  have hfold : ∀ buckets : κ → List α,
      xs.foldl (fun buckets a => (keysOf a).foldl (fun buckets k => push buckets k a) buckets)
        buckets k = buckets k ++ xs.filter fun a => k ∈ keysOf a := by
    induction xs with
    | nil => simp
    | cons x xs ih =>
      intro buckets
      rw [foldl_cons, ih, foldl_push (hkeys x), filter_cons, append_assoc]
      congr 1
      by_cases hk : k ∈ keysOf x <;> simp [hk]
  exact (hfold _).trans (nil_append _)

omit [DecidableEq κ] in
/-- Two disjoint buckets of a sorted list, merged by its order. -/
theorem merge_filter {le : α → α → Bool} {p q : α → Bool} {xs : List α}
    (hsorted : xs.Pairwise fun a b => le a b = true ∧ le b a = false)
    (hdisjoint : ∀ a ∈ xs, p a = true → q a = false) :
    (xs.filter p).merge (xs.filter q) le = xs.filter fun a => p a || q a := by
  induction xs with
  | nil => simp
  | cons x xs ih =>
    obtain ⟨hx, hxs⟩ := pairwise_cons.mp hsorted
    have htail := ih hxs fun a ha => hdisjoint a (mem_cons_of_mem _ ha)
    by_cases hp : p x = true
    · have hq := hdisjoint x mem_cons_self hp
      have hhead : (x :: xs.filter p).merge (xs.filter q) le =
          x :: (xs.filter p).merge (xs.filter q) le := by
        cases hrest : xs.filter q with
        | nil => simp
        | cons y ys =>
          have hy : y ∈ xs := (mem_filter.mp (hrest ▸ mem_cons_self)).1
          rw [cons_merge_cons, if_pos (hx y hy).1]
      rw [filter_cons_of_pos hp, filter_cons_of_neg (by simp [hq]), hhead, htail,
        filter_cons_of_pos (by simp [hp])]
    · by_cases hq : q x = true
      · have hhead : (xs.filter p).merge (x :: xs.filter q) le =
            x :: (xs.filter p).merge (xs.filter q) le := by
          cases hrest : xs.filter p with
          | nil => simp
          | cons y ys =>
            have hy : y ∈ xs := (mem_filter.mp (hrest ▸ mem_cons_self)).1
            rw [cons_merge_cons, (hx y hy).2]
            rfl
        rw [filter_cons_of_neg hp, filter_cons_of_pos hq, hhead, htail,
          filter_cons_of_pos (by simp [hq])]
      · rw [filter_cons_of_neg hp, filter_cons_of_neg hq, htail,
          filter_cons_of_neg (by simp [hp, hq])]

/-! ## Values seen once -/

variable [DecidableEq α]

/-- The values in order, each where it is first seen. -/
def takeNew (xs : List α) : List α :=
  xs.foldl (fun out a => if a ∈ out then out else out ++ [a]) []

omit [DecidableEq κ] in
theorem foldl_new_of_disjoint {xs out : List α} (hxs : xs.Nodup) (hout : ∀ a ∈ xs, a ∉ out) :
    xs.foldl (fun out a => if a ∈ out then out else out ++ [a]) out = out ++ xs := by
  induction xs generalizing out with
  | nil => simp
  | cons x xs ih =>
    have hparts := nodup_cons.mp hxs
    have hnew : ∀ a ∈ xs, a ∉ out ++ [x] := by
      intro a ha hmem
      rcases mem_append.mp hmem with hold | hx
      · exact hout a (mem_cons_of_mem _ ha) hold
      · rw [mem_singleton.mp hx] at ha
        exact hparts.1 ha
    rw [foldl_cons, if_neg (hout x mem_cons_self), ih hparts.2 hnew]
    simp

omit [DecidableEq κ] in
theorem foldl_new_of_subset {xs out : List α} (hout : ∀ a ∈ xs, a ∈ out) :
    xs.foldl (fun out a => if a ∈ out then out else out ++ [a]) out = out := by
  induction xs with
  | nil => rfl
  | cons x xs ih =>
    rw [foldl_cons, if_pos (hout x mem_cons_self)]
    exact ih fun a ha => hout a (mem_cons_of_mem _ ha)

omit [DecidableEq κ] in
theorem takeNew_of_nodup {xs : List α} (hxs : xs.Nodup) : takeNew xs = xs := by
  unfold takeNew
  rw [foldl_new_of_disjoint hxs fun a _ => not_mem_nil]
  rfl

omit [DecidableEq κ] in
/-- The same values again are not taken. -/
theorem takeNew_append_self {xs : List α} (hxs : xs.Nodup) : takeNew (xs ++ xs) = xs := by
  have hfirst := takeNew_of_nodup hxs
  unfold takeNew at hfirst ⊢
  rw [foldl_append, hfirst]
  exact foldl_new_of_subset fun a ha => ha

end Buckets
