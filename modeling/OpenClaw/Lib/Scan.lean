import Mathlib.Data.List.Basic
import Mathlib.Tactic.Common

/-!
# Scanning a list for matches

A matcher looks at a position and what follows it, and says how much it takes. Matches are looked
for from left to right and do not overlap.
-/

namespace Scan

open List

variable {α β : Type*}

/-- A match: where it starts, how long it is, and what the matcher made of it. -/
structure Match (β : Type*) where
  start : ℕ
  length : ℕ
  value : β
deriving DecidableEq

/-- The matches from a position on, the next `skip` elements left out. -/
def matchesFrom (matcher : ℕ → List α → Option (ℕ × β)) : ℕ → ℕ → List α → List (Match β)
  | _, _, [] => []
  | pos, skip + 1, _ :: rest => matchesFrom matcher (pos + 1) skip rest
  | pos, 0, a :: rest =>
    match matcher pos (a :: rest) with
    | some (length, value) =>
      ⟨pos, length, value⟩ :: matchesFrom matcher (pos + 1) (length - 1) rest
    | none => matchesFrom matcher (pos + 1) 0 rest

def matchAll (matcher : ℕ → List α → Option (ℕ × β)) (text : List α) : List (Match β) :=
  matchesFrom matcher 0 0 text

variable {matcher : ℕ → List α → Option (ℕ × β)} {pos : ℕ}

/-- Elements that are skipped. -/
theorem matchesFrom_skip (skipped rest : List α) :
    matchesFrom matcher pos skipped.length (skipped ++ rest) =
      matchesFrom matcher (pos + skipped.length) 0 rest := by
  induction skipped generalizing pos with
  | nil => rfl
  | cons a skipped ih =>
    show matchesFrom matcher (pos + 1) skipped.length (skipped ++ rest) = _
    rw [ih, length_cons, Nat.add_assoc, Nat.add_comm 1]

/-- A match at the position. -/
theorem matchesFrom_of_match {taken : List α} (hne : taken ≠ []) {rest : List α} {value : β}
    (h : matcher pos (taken ++ rest) = some (taken.length, value)) :
    matchesFrom matcher pos 0 (taken ++ rest) =
      ⟨pos, taken.length, value⟩ :: matchesFrom matcher (pos + taken.length) 0 rest := by
  cases taken with
  | nil => exact absurd rfl hne
  | cons a taken =>
    rw [cons_append] at h ⊢
    rw [matchesFrom, h]
    dsimp only
    rw [length_cons, Nat.add_sub_cancel, matchesFrom_skip, Nat.add_assoc, Nat.add_comm 1]

/-- No match at any position of the first part. -/
theorem matchesFrom_append_of_none {before rest : List α}
    (h : ∀ pos front back, before = front ++ back → back ≠ [] → matcher pos (back ++ rest) = none) :
    matchesFrom matcher pos 0 (before ++ rest) =
      matchesFrom matcher (pos + before.length) 0 rest := by
  induction before generalizing pos with
  | nil => rfl
  | cons a before ih =>
    rw [cons_append, matchesFrom]
    have hnone := h pos [] (a :: before) rfl (cons_ne_nil a before)
    rw [cons_append] at hnone
    rw [hnone]
    dsimp only
    rw [ih, length_cons, Nat.add_assoc, Nat.add_comm 1]
    intro pos front back heq hne
    exact h pos (a :: front) back (congrArg _ heq) hne

/-- Where nothing is found, there is no match at any position. -/
theorem eq_none_of_matchesFrom_eq_nil {text : List α} (h : matchesFrom matcher pos 0 text = [])
    {front back : List α} (heq : text = front ++ back) (hne : back ≠ []) :
    matcher (pos + front.length) back = none := by
  induction text generalizing pos front with
  | nil => exact absurd (append_eq_nil_iff.mp heq.symm).2 hne
  | cons a text ih =>
    rw [matchesFrom] at h
    cases hmatch : matcher pos (a :: text) with
    | some found =>
      rw [hmatch] at h
      cases h
    | none =>
      rw [hmatch] at h
      cases front with
      | nil =>
        rw [nil_append] at heq
        rw [← heq]
        exact hmatch
      | cons b front =>
        have hrest := ih h (cons_eq_cons.mp heq).2
        rw [length_cons, Nat.add_comm front.length, ← Nat.add_assoc]
        exact hrest

end Scan
