import Mathlib.Data.List.Dedup
import Mathlib.Data.List.Perm.Basic
import OpenClaw.Lib.Keyed

/-!
# Secondary indexes

A secondary index of a map lists, under each of its keys, the ids of the values that have
the key. It is changed one key at a time along with the map, or built again from the map.
It is exact where it lists what the map holds and nothing else.
-/

/-- The ids listed under each key, in the order they were added. -/
@[ext]
structure SecondaryIndex (κ ι : Type*) where
  ids : κ → List ι
  nodup : ∀ k, (ids k).Nodup

namespace SecondaryIndex

open Keyed

variable {κ ι : Type*}

/-- The index that lists nothing. -/
def empty : SecondaryIndex κ ι := ⟨fun _ => [], fun _ => List.nodup_nil⟩

@[simp]
theorem not_mem_empty (k : κ) (i : ι) : i ∉ (empty : SecondaryIndex κ ι).ids k := List.not_mem_nil

variable [DecidableEq κ] [DecidableEq ι]

variable (index : SecondaryIndex κ ι)

/-- The index with an id under one more key. -/
def add (k : κ) (i : ι) : SecondaryIndex κ ι where
  ids := Function.update index.ids k ((index.ids k).concat i).dedup
  nodup k' := by
    rw [Function.update_apply]
    split_ifs
    · exact List.nodup_dedup _
    · exact index.nodup k'

/-- The index without an id under a key. -/
def remove (k : κ) (i : ι) : SecondaryIndex κ ι where
  ids := Function.update index.ids k ((index.ids k).filter (· ≠ i))
  nodup k' := by
    rw [Function.update_apply]
    split_ifs
    · exact (index.nodup k).filter _
    · exact index.nodup k'

variable (keys : List κ)

def addAll (i : ι) : SecondaryIndex κ ι :=
  keys.foldl (fun index k => index.add k i) index

def removeAll (i : ι) : SecondaryIndex κ ι :=
  keys.foldl (fun index k => index.remove k i) index

theorem mem_add (k k' : κ) (i i' : ι) :
    i' ∈ (index.add k i).ids k' ↔ i' ∈ index.ids k' ∨ (k' = k ∧ i' = i) := by
  show i' ∈ Function.update index.ids k _ k' ↔ _
  rw [Function.update_apply]
  split_ifs with hkey
  · subst hkey
    simp
  · simp [hkey]

theorem mem_remove (k k' : κ) (i i' : ι) :
    i' ∈ (index.remove k i).ids k' ↔ i' ∈ index.ids k' ∧ ¬ (k' = k ∧ i' = i) := by
  show i' ∈ Function.update index.ids k _ k' ↔ _
  rw [Function.update_apply]
  split_ifs with hkey
  · subst hkey
    simp
  · simp [hkey]

theorem mem_addAll (k : κ) (i i' : ι) :
    i' ∈ (index.addAll keys i).ids k ↔ i' ∈ index.ids k ∨ (k ∈ keys ∧ i' = i) := by
  induction keys generalizing index with
  | nil => simp [addAll]
  | cons first rest ih =>
    have hrest := ih (index.add first i)
    rw [mem_add] at hrest
    show i' ∈ ((index.add first i).addAll rest i).ids k ↔ _
    rw [hrest, List.mem_cons]
    tauto

theorem mem_removeAll (k : κ) (i i' : ι) :
    i' ∈ (index.removeAll keys i).ids k ↔ i' ∈ index.ids k ∧ ¬ (k ∈ keys ∧ i' = i) := by
  induction keys generalizing index with
  | nil => simp [removeAll]
  | cons first rest ih =>
    have hrest := ih (index.remove first i)
    rw [mem_remove] at hrest
    show i' ∈ ((index.remove first i).removeAll rest i).ids k ↔ _
    rw [hrest, List.mem_cons]
    tauto

/-! ## Exact indexes -/

variable {α : Type*} {key : α → ι} {m : Keyed α key} {keysOf : α → List κ}
  {index : SecondaryIndex κ ι}

variable (m keysOf index)

/-- An id stands under exactly the keys of the value it has in the map. -/
def Exact : Prop :=
  ∀ k i, i ∈ index.ids k ↔ ∃ a, m.find i = some a ∧ k ∈ keysOf a

variable {m keysOf index}

omit [DecidableEq κ] in
theorem exact_empty (keysOf : α → List κ) :
    Exact (.empty : Keyed α key) keysOf (empty : SecondaryIndex κ ι) := by
  intro k i
  simp

theorem Exact.insert (h : Exact m keysOf index) {a : α} (hnew : m.find (key a) = none) :
    Exact (m.set a) keysOf (index.addAll (keysOf a) (key a)) := by
  intro k i
  rw [mem_addAll, h k i, find_set]
  split_ifs with hi
  · subst hi
    simp [hnew]
  · simp [hi]

omit [DecidableEq κ] in
/-- A value that takes the place of one with the same keys. -/
theorem Exact.replace_same (h : Exact m keysOf index) {a b : α} (hold : m.find (key a) = some b)
    (hsame : ∀ k, k ∈ keysOf b ↔ k ∈ keysOf a) : Exact (m.set a) keysOf index := by
  intro k i
  rw [h k i, find_set]
  split_ifs with hi
  · subst hi
    simp [hold, hsame k]
  · rfl

/-- The keys of the old value are removed before those of the new one are added. -/
theorem Exact.replace (h : Exact m keysOf index) {a b : α} (hold : m.find (key a) = some b) :
    Exact (m.set a) keysOf ((index.removeAll (keysOf b) (key a)).addAll (keysOf a) (key a)) := by
  intro k i
  rw [mem_addAll, mem_removeAll, h k i, find_set]
  split_ifs with hi
  · subst hi
    simp [hold]
  · simp [hi]

theorem Exact.erase (h : Exact m keysOf index) {i : ι} {b : α} (hold : m.find i = some b) :
    Exact (m.erase i) keysOf (index.removeAll (keysOf b) i) := by
  intro k i'
  rw [mem_removeAll, h k i', find_erase]
  split_ifs with hi
  · subst hi
    simp [hold]
  · simp [hi]

/-! ## Building an index again -/

/-- The index of the values, from the first to the last. -/
def rebuild (m : Keyed α key) (keysOf : α → List κ) : SecondaryIndex κ ι :=
  m.entries.foldl (fun index a => index.addAll (keysOf a) (key a)) empty

theorem mem_foldl_addAll (entries : List α) (keysOf : α → List κ) (index : SecondaryIndex κ ι)
    (k : κ) (i : ι) :
    i ∈ (entries.foldl (fun index a => index.addAll (keysOf a) (key a)) index).ids k ↔
      i ∈ index.ids k ∨ ∃ a ∈ entries, key a = i ∧ k ∈ keysOf a := by
  induction entries generalizing index with
  | nil => simp
  | cons first rest ih =>
    rw [List.foldl_cons, ih, mem_addAll, List.exists_mem_cons_iff, or_assoc, and_comm (a := k ∈ _),
      eq_comm (a := i)]

theorem exact_rebuild (m : Keyed α key) (keysOf : α → List κ) :
    Exact m keysOf (rebuild m keysOf) := by
  intro k i
  have hmem : i ∈ (rebuild m keysOf).ids k ↔ i ∈ (empty : SecondaryIndex κ ι).ids k ∨
      ∃ a ∈ m.entries, key a = i ∧ k ∈ keysOf a := mem_foldl_addAll m.entries keysOf empty k i
  refine hmem.trans ?_
  constructor
  · rintro (hnone | ⟨a, ha, rfl, hk⟩)
    · exact absurd hnone (not_mem_empty k i)
    · exact ⟨a, find_of_mem ha, hk⟩
  · rintro ⟨a, ha, hk⟩
    exact .inr ⟨a, mem_of_find ha, key_of_find ha, hk⟩

/-! ## Looking up -/

/-- The values that the index lists under a key. -/
def lookup (index : SecondaryIndex κ ι) (m : Keyed α key) (k : κ) : List α :=
  (index.ids k).filterMap m.find

end SecondaryIndex
