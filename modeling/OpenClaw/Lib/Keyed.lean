import Mathlib.Data.List.Nodup
import Mathlib.Data.List.Perm.Basic

/-!
# Maps whose values carry their key

An insertion-ordered map as the list of its values: no two values have one key. Setting a
value replaces the one with its key in place, or appends it.
-/

/-- The values of a map in insertion order. -/
structure Keyed (α : Type*) {κ : Type*} (key : α → κ) where
  entries : List α
  nodup : (entries.map key).Nodup

namespace Keyed

open List

variable {α κ : Type*} [DecidableEq κ] {key : α → κ}

/-- The map without values. -/
def empty : Keyed α key := ⟨[], List.nodup_nil⟩

/-- The value with a key. -/
def find (m : Keyed α key) (k : κ) : Option α := m.entries.find? fun a => key a = k

variable {m : Keyed α key} {k : κ} {a : α}

theorem key_of_find (h : m.find k = some a) : key a = k := by
  simpa using find?_some h

theorem mem_of_find (h : m.find k = some a) : a ∈ m.entries := mem_of_find?_eq_some h

/-- A value of the map is the one found under its key. -/
theorem find_of_mem (h : a ∈ m.entries) : m.find (key a) = some a := by
  cases hfind : m.find (key a) with
  | none =>
    have hne := find?_eq_none.mp hfind a h
    simp at hne
  | some b =>
    have hkey := key_of_find hfind
    have heq : b = a := inj_on_of_nodup_map m.nodup (mem_of_find hfind) h hkey
    rw [heq]

theorem find_eq_some_iff : m.find k = some a ↔ a ∈ m.entries ∧ key a = k := by
  constructor
  · intro h
    exact ⟨mem_of_find h, key_of_find h⟩
  · rintro ⟨hmem, rfl⟩
    exact find_of_mem hmem

@[simp]
theorem find_empty (k : κ) : (empty : Keyed α key).find k = none := rfl

/-! ## Setting a value -/

variable (m a)

/-- The value with the key of `a` becomes `a`. -/
def replace : List α :=
  m.entries.map fun b => if key b = key a then a else b

theorem map_key_replace : (m.replace a).map key = m.entries.map key := by
  unfold replace
  rw [map_map]
  apply map_congr_left
  intro b _
  show key (if key b = key a then a else b) = key b
  split_ifs with h
  · exact h.symm
  · rfl

/-- `map.set(key(a), a)`. -/
def set : Keyed α key :=
  if h : key a ∈ m.entries.map key then
    ⟨m.replace a, by rw [map_key_replace]; exact m.nodup⟩
  else
    ⟨m.entries ++ [a], by
      rw [List.map_append, List.map_singleton, List.nodup_append]
      refine ⟨m.nodup, List.nodup_singleton _, ?_⟩
      intro k hk k' hk'
      rw [List.mem_singleton.mp hk']
      exact fun heq => h (heq ▸ hk)⟩

variable {m a}

theorem mem_set {b : α} : b ∈ (m.set a).entries ↔ b = a ∨ (b ∈ m.entries ∧ key b ≠ key a) := by
  unfold set
  split_ifs with h
  · simp only [replace, mem_map]
    constructor
    · rintro ⟨c, hc, rfl⟩
      split_ifs with hkey
      · exact .inl rfl
      · exact .inr ⟨hc, hkey⟩
    · rintro (rfl | ⟨hb, hkey⟩)
      · obtain ⟨c, hc, hkey⟩ := mem_map.mp h
        exact ⟨c, hc, by rw [if_pos hkey]⟩
      · exact ⟨b, hb, by rw [if_neg hkey]⟩
  · rw [mem_append, mem_singleton]
    constructor
    · rintro (hb | rfl)
      · refine .inr ⟨hb, ?_⟩
        intro hkey
        exact h (hkey ▸ mem_map_of_mem hb)
      · exact .inl rfl
    · rintro (rfl | ⟨hb, -⟩)
      · exact .inr rfl
      · exact .inl hb

variable (m a)

theorem find_set (k : κ) : (m.set a).find k = if k = key a then some a else m.find k := by
  ext b
  rw [find_eq_some_iff, mem_set]
  split_ifs with hk
  · subst hk
    simp only [Option.some.injEq]
    constructor
    · rintro ⟨rfl | ⟨-, hne⟩, hkey⟩
      · rfl
      · exact absurd hkey hne
    · rintro rfl
      exact ⟨.inl rfl, rfl⟩
  · rw [find_eq_some_iff]
    constructor
    · rintro ⟨rfl | ⟨hb, -⟩, hkey⟩
      · exact absurd hkey.symm hk
      · exact ⟨hb, hkey⟩
    · rintro ⟨hb, hkey⟩
      refine ⟨.inr ⟨hb, ?_⟩, hkey⟩
      rw [hkey]
      exact hk

@[simp]
theorem find_set_self : (m.set a).find (key a) = some a := by
  rw [find_set, if_pos rfl]

variable {m a}

theorem find_set_of_ne (m : Keyed α key) (h : k ≠ key a) : (m.set a).find k = m.find k := by
  rw [find_set, if_neg h]

/-- The values with another key stay as they are. -/
theorem filter_ne_set (m : Keyed α key) (a : α) :
    (m.set a).entries.filter (key · ≠ key a) = m.entries.filter (key · ≠ key a) := by
  unfold set
  split_ifs with h
  · show (m.replace a).filter _ = _
    unfold replace
    induction m.entries with
    | nil => rfl
    | cons b rest ih =>
      rw [map_cons, filter_cons, filter_cons, ih]
      by_cases hb : key b = key a
      · simp [hb]
      · simp [hb]
  · simp

/-! ## Removing a value -/

/-- `map.delete(k)`. -/
def erase (m : Keyed α key) (k : κ) : Keyed α key :=
  ⟨m.entries.filter fun a => key a ≠ k, m.nodup.sublist (List.filter_sublist.map key)⟩

theorem find_erase (m : Keyed α key) (k k' : κ) :
    (m.erase k).find k' = if k' = k then none else m.find k' := by
  ext b
  rw [find_eq_some_iff]
  show b ∈ m.entries.filter (fun a => key a ≠ k) ∧ key b = k' ↔ _
  rw [mem_filter, decide_eq_true_iff]
  split_ifs with hk
  · subst hk
    simp
  · rw [find_eq_some_iff]
    constructor
    · rintro ⟨⟨hb, -⟩, hkey⟩
      exact ⟨hb, hkey⟩
    · rintro ⟨hb, rfl⟩
      exact ⟨⟨hb, hk⟩, rfl⟩

/-- The values for which the test holds. -/
def filter (m : Keyed α key) (p : α → Bool) : Keyed α key :=
  ⟨m.entries.filter p, m.nodup.sublist (List.filter_sublist.map key)⟩

theorem find_filter (m : Keyed α key) (p : α → Bool) (k : κ) :
    (m.filter p).find k = (m.find k).filter p := by
  ext b
  rw [find_eq_some_iff, Option.filter_eq_some_iff, find_eq_some_iff]
  show b ∈ m.entries.filter p ∧ key b = k ↔ _
  rw [mem_filter]
  tauto

/-! ## Reading a map back -/

/-- The values in another order, each changed by a function that keeps its key. -/
def reread (m : Keyed α key) (order : List α) (f : α → α) (horder : order.Perm m.entries)
    (hf : ∀ a, key (f a) = key a) : Keyed α key :=
  ⟨order.map f, by
    have hkeys : (order.map f).map key = order.map key := by
      rw [List.map_map]
      exact List.map_congr_left fun a _ => hf a
    rw [hkeys]
    exact (horder.map key).nodup_iff.mpr m.nodup⟩

theorem find_reread (m : Keyed α key) {order : List α} {f : α → α}
    (horder : order.Perm m.entries) (hf : ∀ a, key (f a) = key a) (k : κ) :
    (m.reread order f horder hf).find k = (m.find k).map f := by
  ext b
  rw [find_eq_some_iff, Option.map_eq_some_iff]
  show b ∈ order.map f ∧ key b = k ↔ _
  rw [mem_map]
  constructor
  · rintro ⟨⟨a, ha, rfl⟩, hkey⟩
    refine ⟨a, ?_, rfl⟩
    rw [find_eq_some_iff]
    exact ⟨horder.mem_iff.mp ha, (hf a) ▸ hkey⟩
  · rintro ⟨a, ha, rfl⟩
    obtain ⟨hmem, hkey⟩ := find_eq_some_iff.mp ha
    exact ⟨⟨a, horder.mem_iff.mpr hmem, rfl⟩, (hf a).trans hkey⟩

end Keyed
