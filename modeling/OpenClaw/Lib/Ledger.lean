import Mathlib.Data.List.Basic
import Mathlib.Tactic.Common

/-!
# Open entries under keys

Entries are posted at the end of a list and settled one at a time. To settle the oldest entry of
a key is to take the head of the queue of that key, and no other queue changes.
-/

namespace Ledger

open List

variable {α κ : Type*} [DecidableEq κ] {key : α → κ} {k : κ}

/-- The queue of a key. -/
def ofKey (key : α → κ) (k : κ) (entries : List α) : List α := entries.filter (key · = k)

/-- The oldest entry of a key. -/
def oldest (key : α → κ) (k : κ) (entries : List α) : Option α := entries.find? (key · = k)

@[simp]
theorem ofKey_append (entries more : List α) :
    ofKey key k (entries ++ more) = ofKey key k entries ++ ofKey key k more :=
  filter_append _ _

variable {entries : List α} {a : α}

theorem key_of_oldest (h : oldest key k entries = some a) : key a = k := by
  have hkey := @find?_some _ (fun a => decide (key a = k)) _ _ h
  exact of_decide_eq_true hkey

theorem oldest_eq_none_iff : oldest key k entries = none ↔ ofKey key k entries = [] := by
  rw [oldest, find?_eq_none, ofKey, filter_eq_nil_iff]

section

variable [DecidableEq α]

/-- The oldest entry is the head of its queue. -/
theorem ofKey_of_oldest (h : oldest key k entries = some a) :
    ofKey key k entries = a :: ofKey key k (entries.erase a) := by
  induction entries with
  | nil => cases h
  | cons b entries ih =>
    by_cases hb : key b = k
    · have hfirst : oldest key k (b :: entries) = some b := by
        rw [oldest, find?_cons, decide_eq_true hb]
      rw [hfirst] at h
      rw [← Option.some.inj h, erase_cons_head]
      exact filter_cons_of_pos (decide_eq_true hb)
    · have hrest : oldest key k (b :: entries) = oldest key k entries := by
        rw [oldest, find?_cons, decide_eq_false hb]
        rfl
      rw [hrest] at h
      have hne : b ≠ a := by
        rintro rfl
        exact hb (key_of_oldest h)
      have hskip : ∀ others, ofKey key k (b :: others) = ofKey key k others := fun others =>
        filter_cons_of_neg (by simpa using hb)
      rw [erase_cons_tail (by simpa using hne), hskip, hskip]
      exact ih h

/-- The other queues stay as they are. -/
theorem ofKey_erase_of_ne (h : key a ≠ k) :
    ofKey key k (entries.erase a) = ofKey key k entries := by
  induction entries with
  | nil => rfl
  | cons b entries ih =>
    by_cases hb : b = a
    · rw [hb, erase_cons_head]
      exact (filter_cons_of_neg (by simpa using h)).symm
    · rw [erase_cons_tail (by simpa using hb)]
      by_cases hkey : key b = k
      · have hkeep : ∀ others, ofKey key k (b :: others) = b :: ofKey key k others := fun others =>
          filter_cons_of_pos (decide_eq_true hkey)
        rw [hkeep, hkeep, ih]
      · have hskip : ∀ others, ofKey key k (b :: others) = ofKey key k others := fun others =>
          filter_cons_of_neg (by simpa using hkey)
        rw [hskip, hskip, ih]

end

end Ledger
