import Mathlib.Order.Basic
import Mathlib.Order.Bounds.Basic

/-!
# The next member of a set, and the one before

A function of time that returns the least member of a set strictly after its argument, as
the evaluator of a calendar expression does. `none` says that nothing follows. The greatest member
strictly before the argument is its mirror image.
-/

namespace Calendar

variable {ι : Type*} [LinearOrder ι] {instants : Set ι} {s t n n' : ι} {r r' : Option ι}

/-- `r` is the least member of `instants` after `t`. -/
def IsNext (instants : Set ι) (t : ι) : Option ι → Prop
  | some n => IsLeast {m | m ∈ instants ∧ t < m} n
  | none => ∀ m ∈ instants, m ≤ t

theorem IsNext.lt (h : IsNext instants t (some n)) : t < n := h.1.2

theorem IsNext.mem (h : IsNext instants t (some n)) : n ∈ instants := h.1.1

theorem IsNext.le (h : IsNext instants t (some n)) {m : ι} (hm : m ∈ instants) (ht : t < m) :
    n ≤ m :=
  h.2 ⟨hm, ht⟩

theorem IsNext.unique (h : IsNext instants t r) (h' : IsNext instants t r') : r = r' := by
  cases r with
  | none =>
    cases r' with
    | none => rfl
    | some n' => exact absurd h'.lt (not_lt.mpr (h n' h'.mem))
  | some n =>
    cases r' with
    | none => exact absurd h.lt (not_lt.mpr (h' n h.mem))
    | some n' => rw [le_antisymm (h.le h'.mem h'.lt) (h'.le h.mem h.lt)]

/-- Nothing follows later where nothing followed before. -/
theorem IsNext.none_later (h : IsNext instants s none) (hst : s ≤ t) : IsNext instants t none :=
  fun m hm => (h m hm).trans hst

/-- A later question has a later answer. -/
theorem IsNext.le_of_le (h : IsNext instants s (some n)) (h' : IsNext instants t (some n'))
    (hst : s ≤ t) : n ≤ n' :=
  h.le h'.mem (lt_of_le_of_lt hst h'.lt)

/-- `r` is the greatest member of `instants` before `t`. -/
def IsPrevious (instants : Set ι) (t : ι) : Option ι → Prop
  | some n => IsGreatest {m | m ∈ instants ∧ m < t} n
  | none => ∀ m ∈ instants, t ≤ m

/-- A member is the last one before anything that only it comes before. -/
theorem IsPrevious.eq_some_iff (h : IsPrevious instants t r) (hn : ∀ m, m < t ↔ m ≤ n) :
    r = some n ↔ n ∈ instants := by
  cases r with
  | none =>
    constructor
    · exact fun hr => nomatch hr
    · intro hmem
      exact absurd ((hn n).mpr le_rfl) (not_lt.mpr (h n hmem))
  | some n' =>
    constructor
    · intro hr
      rw [← Option.some.inj hr]
      exact h.1.1
    · intro hmem
      have hle : n' ≤ n := (hn n').mp h.1.2
      have hge : n ≤ n' := h.2 ⟨hmem, (hn n).mpr le_rfl⟩
      rw [le_antisymm hle hge]

/-- The members before `t` move with an order embedding that reaches `t'` just above them. -/
theorem IsPrevious.map {κ : Type*} [LinearOrder κ] {f : ι → κ} {t' : κ} (hf : StrictMono f)
    (ht : ∀ m ∈ instants, f m < t' ↔ m < t) (h : IsPrevious instants t r) :
    IsPrevious (Set.image f instants) t' (r.map f) := by
  cases r with
  | none =>
    rintro _ ⟨m, hm, rfl⟩
    exact not_lt.mp fun hlt => not_lt.mpr (h m hm) ((ht m hm).mp hlt)
  | some n =>
    refine ⟨⟨⟨n, h.1.1, rfl⟩, (ht n h.1.1).mpr h.1.2⟩, ?_⟩
    rintro _ ⟨⟨m, hm, rfl⟩, hlt⟩
    exact hf.le_iff_le.mpr (h.2 ⟨hm, (ht m hm).mp hlt⟩)

/-- The members after `t` move with an order embedding that reaches `t'` just below them. -/
theorem IsNext.map {κ : Type*} [LinearOrder κ] {f : ι → κ} {t' : κ} (hf : StrictMono f)
    (ht : ∀ m ∈ instants, t' < f m ↔ t < m) (h : IsNext instants t r) :
    IsNext (Set.image f instants) t' (r.map f) := by
  cases r with
  | none =>
    rintro _ ⟨m, hm, rfl⟩
    exact not_lt.mp fun hlt => not_lt.mpr (h m hm) ((ht m hm).mp hlt)
  | some n =>
    refine ⟨⟨⟨n, h.mem, rfl⟩, (ht n h.mem).mpr h.lt⟩, ?_⟩
    rintro _ ⟨⟨m, hm, rfl⟩, hlt⟩
    exact hf.le_iff_le.mpr (h.le hm ((ht m hm).mp hlt))

/-- The members that the restriction loses are none of those that follow. -/
theorem IsNext.inter {kept : Set ι} (hkept : ∀ m ∈ instants, t < m → m ∈ kept)
    (h : IsNext instants t r) : IsNext (instants ∩ kept) t r := by
  cases r with
  | none => exact fun m hm => h m hm.1
  | some n => exact ⟨⟨⟨h.mem, hkept n h.mem h.lt⟩, h.lt⟩, fun m hm => h.le hm.1.1 hm.2⟩

end Calendar
