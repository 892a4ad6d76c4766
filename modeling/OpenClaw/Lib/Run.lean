import Mathlib.Data.List.Infix
import Mathlib.Tactic.Common

/-!
# Runs of labelled steps

A step relation takes a state and a label to a state. A run is a finite sequence of steps
with its labels. The rules below compose runs, prove invariants of them, and compare two
runs of a step relation that is a partial function.
-/

namespace Lts

open List

variable {σ α : Type*} {step step' : σ → α → σ → Prop} {s t u : σ} {a : α} {as bs : List α}

/-- A run from the first state to the last, with the labels of its steps. -/
inductive Run (step : σ → α → σ → Prop) : σ → List α → σ → Prop
  | nil (s : σ) : Run step s [] s
  | cons {s t u : σ} {a : α} {as : List α} :
      step s a t → Run step t as u → Run step s (a :: as) u

/-! ## Composition -/

theorem Run.single (h : step s a t) : Run step s [a] t := .cons h (.nil t)

theorem Run.append (h : Run step s as t) (h' : Run step t bs u) : Run step s (as ++ bs) u := by
  induction h with
  | nil s => exact h'
  | cons hstep _ ih => exact .cons hstep (ih h')

theorem Run.snoc (h : Run step s as t) (hstep : step t a u) : Run step s (as ++ [a]) u :=
  h.append (.single hstep)

theorem Run.mono (hle : ∀ {s a t}, step s a t → step' s a t) (h : Run step s as t) :
    Run step' s as t := by
  induction h with
  | nil s => exact .nil s
  | cons hstep _ ih => exact .cons (hle hstep) ih

theorem Run.restrict {p : α → Prop} (h : Run step s as t) (hp : ∀ a ∈ as, p a) :
    Run (fun s a t => step s a t ∧ p a) s as t := by
  induction h with
  | nil s => exact .nil s
  | cons hfirst _ ih =>
    exact .cons ⟨hfirst, hp _ mem_cons_self⟩ (ih fun a ha => hp a (mem_cons_of_mem _ ha))

theorem run_nil_iff : Run step s [] t ↔ s = t :=
  ⟨fun h => by cases h; rfl, fun h => h ▸ .nil s⟩

theorem run_cons_iff : Run step s (a :: as) u ↔ ∃ t, step s a t ∧ Run step t as u :=
  ⟨fun h => by cases h with | cons hstep hrun => exact ⟨_, hstep, hrun⟩,
   fun ⟨_, hstep, hrun⟩ => .cons hstep hrun⟩

theorem run_append_iff : Run step s (as ++ bs) u ↔ ∃ t, Run step s as t ∧ Run step t bs u := by
  constructor
  · intro h
    induction as generalizing s with
    | nil => exact ⟨s, .nil s, h⟩
    | cons a as ih =>
      obtain ⟨t, hstep, hrest⟩ := run_cons_iff.mp h
      obtain ⟨v, hfirst, hsecond⟩ := ih hrest
      exact ⟨v, .cons hstep hfirst, hsecond⟩
  · rintro ⟨t, hfirst, hsecond⟩
    exact hfirst.append hsecond

/-- A label leads to one state at most. -/
def Deterministic (step : σ → α → σ → Prop) : Prop :=
  ∀ s a t u, step s a t → step s a u → t = u

theorem Run.unique (hdet : Deterministic step) (h : Run step s as t)
    (h' : Run step s as u) : t = u := by
  induction h with
  | nil s => exact run_nil_iff.mp h'
  | cons hstep _ ih =>
    obtain ⟨v, hstep', hrest⟩ := run_cons_iff.mp h'
    have hv := hdet _ _ _ _ hstep hstep'
    exact ih (hv ▸ hrest)

/-! ## Invariants -/

variable (inv : σ → Prop)

/-- What every step preserves, every run preserves. -/
theorem Run.invariant (hstep : ∀ {s a t}, inv s → step s a t → inv t)
    (h : Run step s as t) (hs : inv s) : inv t := by
  induction h with
  | nil s => exact hs
  | cons hfirst _ ih => exact ih (hstep hs hfirst)

/-- An invariant of the state together with the labels so far. -/
theorem Run.historyInvariant (inv : σ → List α → Prop)
    (hstep : ∀ {s as a t}, inv s as → step s a t → inv t (as ++ [a]))
    (h : Run step s as t) (hs : inv s []) : inv t as := by
  have hgen : ∀ bs, inv s bs → inv t (bs ++ as) := by
    clear hs
    induction h with
    | nil s =>
      intro bs hbs
      simpa using hbs
    | cons hfirst _ ih =>
      intro bs hbs
      simpa using ih _ (hstep hbs hfirst)
  simpa using hgen [] hs

/-- Where some steps use up a unit of what the state allows and no step adds to it, a run
has no more of these steps than its first state allows. -/
theorem Run.consumes (allows : ℕ → σ → Prop) (uses : α → Bool)
    (huse : ∀ {n s a t}, allows n s → step s a t → uses a = true → ∃ m, n = m + 1 ∧ allows m t)
    (hkeep : ∀ {n s a t}, allows n s → step s a t → uses a = false → allows n t)
    (h : Run step s as t) {n : ℕ} (hs : allows n s) :
    ∃ left, n = as.countP uses + left ∧ allows left t := by
  induction h generalizing n with
  | nil s => exact ⟨n, by simp, hs⟩
  | @cons s t _ a as hfirst _ ih =>
    cases ha : uses a with
    | true =>
      obtain ⟨m, rfl, hm⟩ := huse hs hfirst ha
      obtain ⟨left, rfl, hleft⟩ := ih hm
      refine ⟨left, ?_, hleft⟩
      rw [countP_cons_of_pos ha]
      omega
    | false =>
      obtain ⟨left, rfl, hleft⟩ := ih (hkeep hs hfirst ha)
      refine ⟨left, ?_, hleft⟩
      rw [countP_cons_of_neg (by simp [ha])]

/-- Where every step makes a quantity smaller, a run has at most that many steps. -/
theorem Run.length_le (measure : σ → ℕ)
    (hstep : ∀ {s a t}, inv s → step s a t → inv t ∧ measure t < measure s)
    (h : Run step s as t) (hs : inv s) : as.length ≤ measure s := by
  induction h with
  | nil s => exact Nat.zero_le _
  | cons hfirst _ ih =>
    obtain ⟨hinv, hlt⟩ := hstep hs hfirst
    have hrest := ih hinv
    rw [length_cons]
    omega

/-- Where an invariant says that there is a step that keeps it, there are runs of every
length. -/
theorem Run.exists_of_length (hstep : ∀ {s}, inv s → ∃ a t, step s a t ∧ inv t)
    (n : ℕ) (hs : inv s) : ∃ as t, Run step s as t ∧ as.length = n := by
  induction n generalizing s with
  | zero => exact ⟨[], s, .nil s, rfl⟩
  | succ n ih =>
    obtain ⟨a, t, hfirst, ht⟩ := hstep hs
    obtain ⟨as, u, hrest, hlength⟩ := ih ht
    exact ⟨a :: as, u, .cons hfirst hrest, by rw [length_cons, hlength]⟩

/-- A run that is not one of the smaller relation has a first step that leaves it. -/
theorem Run.exists_first_exit (h : Run step s as t)
    (hexit : ¬ Run (fun s a t => step s a t ∧ step' s a t) s as t) :
    ∃ bs b cs u v, as = bs ++ b :: cs ∧
      Run (fun s a t => step s a t ∧ step' s a t) s bs u ∧ step u b v ∧ ¬ step' u b v := by
  induction h with
  | nil s => exact absurd (.nil s) hexit
  | @cons s t _ a as hfirst _ ih =>
    by_cases hin : step' s a t
    · obtain ⟨bs, b, cs, u, v, rfl, hrun, hstep, hout⟩ :=
        ih fun hrest => hexit (.cons ⟨hfirst, hin⟩ hrest)
      exact ⟨a :: bs, b, cs, u, v, rfl, .cons ⟨hfirst, hin⟩ hrun, hstep, hout⟩
    · exact ⟨[], a, as, s, t, rfl, .nil s, hfirst, hin⟩

/-- A relation between the two ends that is a preorder and holds of every step. -/
theorem Run.relates (r : σ → σ → Prop) (hrefl : ∀ s, r s s)
    (htrans : ∀ {s t u}, r s t → r t u → r s u) (hstep : ∀ {s a t}, step s a t → r s t)
    (h : Run step s as t) : r s t := by
  induction h with
  | nil s => exact hrefl s
  | cons hfirst _ ih => exact htrans (hstep hfirst) ih

/-! ## Steps that are a partial function -/

/-- A state has at most one step, label included. -/
def Functional (step : σ → α → σ → Prop) : Prop :=
  ∀ s a t b u, step s a t → step s b u → a = b ∧ t = u

/-- Two runs from one state, the first to a state without steps: the second is an initial
part of it. The first may be a run of a smaller relation. -/
theorem Run.continues (hfun : Functional step) (hle : ∀ {s a t}, step' s a t → step s a t)
    (h : Run step' s bs u) (hstuck : ∀ {a v}, ¬ step u a v) (h' : Run step s as t) :
    ∃ cs, bs = as ++ cs ∧ Run step' t cs u := by
  induction h' generalizing bs with
  | nil s => exact ⟨bs, rfl, h⟩
  | cons hstep _ ih =>
    cases h with
    | nil s => exact absurd hstep hstuck
    | cons hfirst hrest =>
      obtain ⟨rfl, rfl⟩ := hfun _ _ _ _ _ (hle hfirst) hstep
      obtain ⟨cs, rfl, hcs⟩ := ih hrest
      exact ⟨cs, rfl, hcs⟩

end Lts
