import Mathlib.Data.List.Sort
import OpenClaw.Text.Basic

/-!
# The order of strings

JavaScript compares strings by their code units.
-/

namespace OpenClaw

open Bool

/-- The UTF-16 code units of a character. -/
def codeUnits (c : Char) : List ℕ :=
  if c.toNat < 65536 then [c.toNat]
  else [55296 + (c.toNat - 65536) / 1024, 56320 + (c.toNat - 65536) % 1024]

def lexicographicLe : List ℕ → List ℕ → Bool
  | [], _ => true
  | _ :: _, [] => false
  | a :: as, b :: bs => a < b || (a = b && lexicographicLe as bs)

/-- `first <= second` on strings, which is also the order of `toSorted`. -/
def stringLe (first second : Str) : Prop :=
  lexicographicLe (first.flatMap codeUnits) (second.flatMap codeUnits) = true

instance : DecidableRel stringLe := fun _ _ => inferInstanceAs (Decidable (_ = true))

/-! ## A linear order -/

theorem lexicographicLe_total (first second : List ℕ) :
    lexicographicLe first second = true ∨ lexicographicLe second first = true := by
  induction first generalizing second with
  | nil => exact Or.inl rfl
  | cons a as ih =>
    cases second with
    | nil => exact Or.inr rfl
    | cons b bs =>
      simp only [lexicographicLe, or_eq_true, and_eq_true, decide_eq_true_eq]
      rcases Nat.lt_trichotomy a b with hlt | rfl | hlt
      · exact Or.inl (Or.inl hlt)
      · exact (ih bs).imp (fun hrest => Or.inr ⟨rfl, hrest⟩) fun hrest => Or.inr ⟨rfl, hrest⟩
      · exact Or.inr (Or.inl hlt)

theorem lexicographicLe_trans {first second third : List ℕ}
    (h : lexicographicLe first second = true) (h' : lexicographicLe second third = true) :
    lexicographicLe first third = true := by
  induction first generalizing second third with
  | nil => rfl
  | cons a as ih =>
    cases second with
    | nil => cases h
    | cons b bs =>
      cases third with
      | nil => cases h'
      | cons c cs =>
        simp only [lexicographicLe, or_eq_true, and_eq_true, decide_eq_true_eq] at h h' ⊢
        rcases h with h | ⟨rfl, hrest⟩
        · left
          rcases h' with h' | ⟨rfl, _⟩
          · omega
          · exact h
        · rcases h' with h' | ⟨rfl, hrest'⟩
          · exact Or.inl h'
          · exact Or.inr ⟨rfl, ih hrest hrest'⟩

instance : Std.Total stringLe :=
  ⟨fun first second => lexicographicLe_total (first.flatMap codeUnits) (second.flatMap codeUnits)⟩

instance : IsTrans Str stringLe := ⟨fun _ _ _ => lexicographicLe_trans⟩

end OpenClaw
