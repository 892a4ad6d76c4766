import Mathlib.Data.List.Nodup
import Mathlib.Data.List.Perm.Basic

/-!
# Exclusion by markers

Activities are started for items that bear no marker, and every item with an activity has to
bear one. As long as nobody takes the markers away, no item has two activities.
-/

namespace Lts

variable {ι : Type*} {marked marked' : ι → Prop} {active active' started : List ι}

/-- The active items are distinct and marked. -/
structure Exclusive (marked : ι → Prop) (active : List ι) : Prop where
  nodup : active.Nodup
  marked : ∀ x ∈ active, marked x

namespace Exclusive

theorem nil : Exclusive marked [] := ⟨.nil, fun _ h => absurd h List.not_mem_nil⟩

/-- Unmarked items become active. -/
theorem start (h : Exclusive marked active) (hstarted : started.Nodup)
    (hfree : ∀ x ∈ started, ¬ marked x) (hkept : ∀ x ∈ active, marked' x)
    (hmarks : ∀ x ∈ started, marked' x) : Exclusive marked' (started ++ active) where
  nodup := hstarted.append h.nodup fun x hx hactive => hfree x hx (h.marked x hactive)
  marked x hx := (List.mem_append.mp hx).elim (hmarks x) (hkept x)

/-- Some items stay active, in any order, and keep their markers. -/
theorem keep (h : Exclusive marked active) (hsub : active'.Subperm active)
    (hkept : ∀ x ∈ active', marked' x) : Exclusive marked' active' where
  nodup := by
    obtain ⟨between, hperm, hsublist⟩ := hsub
    exact hperm.nodup_iff.mp (h.nodup.sublist hsublist)
  marked := hkept

theorem perm (h : Exclusive marked active) (hperm : active'.Perm active) :
    Exclusive marked active' :=
  h.keep hperm.subperm fun x hx => h.marked x (hperm.mem_iff.mp hx)

end Exclusive

end Lts
