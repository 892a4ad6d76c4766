import Mathlib.Data.List.Sort
import Mathlib.Tactic.Common

/-!
# Places in a stable sort

Which elements a stable sort puts behind its first `k`: an element goes behind the ones in front
of it that may stay there and behind the later ones that have to go first.
-/

namespace StableSort

open List

variable {α : Type*} {r : α → α → Prop} [DecidableRel r] {before after front back : List α}
  {a x : α}

/-- How many elements a stable sort puts in front of `a`. -/
def rank (r : α → α → Prop) [DecidableRel r] (before : List α) (a : α) (after : List α) : ℕ :=
  before.countP (fun b => decide (r b a)) + after.countP fun b => decide ¬ r a b

theorem rank_le : rank r before a after ≤ before.length + after.length :=
  Nat.add_le_add countP_le_length countP_le_length

/-! ## Inserting in front of an element and behind it -/

theorem orderedInsert_front (h : r x a) :
    (front ++ a :: back).orderedInsert r x = front.orderedInsert r x ++ a :: back := by
  induction front with
  | nil => exact orderedInsert_cons_of_le r back h
  | cons b front ih =>
    by_cases hb : r x b
    · rw [cons_append, orderedInsert_cons_of_le r _ hb, orderedInsert_cons_of_le r _ hb]
      rfl
    · rw [cons_append, orderedInsert_of_not_le r _ hb, ih, orderedInsert_of_not_le r _ hb]
      rfl

theorem orderedInsert_back (hfront : ∀ b ∈ front, ¬ r x b) (h : ¬ r x a) :
    (front ++ a :: back).orderedInsert r x = front ++ a :: back.orderedInsert r x := by
  induction front with
  | nil => exact orderedInsert_of_not_le r back h
  | cons b front ih =>
    rw [cons_append, orderedInsert_of_not_le r _ (hfront b mem_cons_self),
      ih fun c hc => hfront c (mem_cons_of_mem _ hc)]
    rfl

variable [IsTrans α r]

theorem length_takeWhile_not (hsorted : back.Pairwise r) :
    (back.takeWhile fun b => decide ¬ r a b).length = back.countP fun b => decide ¬ r a b := by
  induction back with
  | nil => rfl
  | cons b back ih =>
    obtain ⟨hb, hback⟩ := pairwise_cons.mp hsorted
    by_cases hab : r a b
    · have hnone : (b :: back).countP (fun b => decide ¬ r a b) = 0 := by
        apply countP_eq_zero.mpr
        intro c hc
        rcases mem_cons.mp hc with rfl | hmem
        · simpa using hab
        · simpa using trans_of r hab (hb c hmem)
      rw [hnone, takeWhile_cons_of_neg (by simpa using hab)]
      rfl
    · rw [takeWhile_cons_of_pos (by simpa using hab),
        countP_cons_of_pos (by simpa using hab), length_cons, ih hback]

variable [Std.Total r]

/-- An element's place is its rank. -/
theorem insertionSort_split (before : List α) (a : α) (after : List α) :
    ∃ front back, (before ++ a :: after).insertionSort r = front ++ a :: back ∧
      front.length = rank r before a after := by
  induction before with
  | nil =>
    have hsorted := pairwise_insertionSort r after
    refine ⟨_, _, insertionSort_cons_eq_take_drop r a after, ?_⟩
    rw [length_takeWhile_not hsorted, (perm_insertionSort r after).countP_eq]
    exact (Nat.zero_add _).symm
  | cons x before ih =>
    obtain ⟨front, back, hsplit, hlength⟩ := ih
    have hstep : (x :: before ++ a :: after).insertionSort r =
        (front ++ a :: back).orderedInsert r x := by
      rw [← hsplit]
      rfl
    rw [hstep]
    unfold rank at hlength ⊢
    by_cases hxa : r x a
    · refine ⟨_, _, orderedInsert_front hxa, ?_⟩
      rw [orderedInsert_length, countP_cons_of_pos (by simpa using hxa), hlength]
      omega
    · have hsorted := pairwise_insertionSort r (before ++ a :: after)
      rw [hsplit] at hsorted
      -- what stands in front of `a` is related to it
      have hfront : ∀ b ∈ front, ¬ r x b := fun b hb hxb =>
        hxa (trans_of r hxb ((pairwise_append.mp hsorted).2.2 b hb a mem_cons_self))
      refine ⟨_, _, orderedInsert_back hfront hxa, ?_⟩
      rw [countP_cons_of_neg (by simpa using hxa), hlength]

/-- The elements behind the first `k` are those of rank `k` or more. -/
theorem mem_drop_iff {k : ℕ} (hnodup : (before ++ a :: after).Nodup) :
    a ∈ ((before ++ a :: after).insertionSort r).drop k ↔ k ≤ rank r before a after := by
  obtain ⟨front, back, hsplit, hlength⟩ := insertionSort_split (r := r) before a after
  have hnodup' := (perm_insertionSort r _).nodup_iff.mpr hnodup
  rw [hsplit] at hnodup' ⊢
  rw [← hlength, drop_append, mem_append]
  constructor
  · intro hmem
    by_contra hlt
    have hcount : k - front.length = k - front.length - 1 + 1 := by omega
    rw [drop_eq_nil_of_le (by omega), hcount, drop_succ_cons] at hmem
    have hback : a ∈ back := mem_of_mem_drop (hmem.resolve_left not_mem_nil)
    exact (nodup_cons.mp (nodup_append.mp hnodup').2.1).1 hback
  · intro hle
    rw [Nat.sub_eq_zero_of_le hle]
    exact .inr mem_cons_self

/-- What is sorted behind the first `k` elements is related to all of these. -/
theorem rel_of_mem_drop {l : List α} {k : ℕ} {b : α} (hb : b ∈ (l.insertionSort r).take k)
    (ha : a ∈ (l.insertionSort r).drop k) : r b a := by
  have hsorted := pairwise_insertionSort r l
  rw [← take_append_drop k (l.insertionSort r)] at hsorted
  exact (pairwise_append.mp hsorted).2.2 b hb a ha

end StableSort
