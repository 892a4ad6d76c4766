import OpenClaw.Text.Json
import Mathlib.Data.Option.Basic
import Mathlib.Data.List.Nodup
import Mathlib.Data.List.Perm.Subperm

/-!
# Configuration values

A configuration is a parsed JSON document: every object has each of its keys once. Two of
them are the same document when Node's `isDeepStrictEqual` says so, that is up to the order
of keys; on documents with distinct keys this is an equivalence, and it is decided key by key.
-/

namespace OpenClaw

open List

namespace Json

/-! ## Induction and lookup -/

section

variable {motive : Json → Prop}
  (leaf : ∀ value : Json, (∀ items, value ≠ .array items) → (∀ entries, value ≠ .object entries) →
    motive value)
  (array : ∀ items : List Json, (∀ item ∈ items, motive item) → motive (.array items))
  (object : ∀ entries : List (Str × Json), (∀ entry ∈ entries, motive entry.2) →
    motive (.object entries))

include leaf array object in
/-- What holds of scalars, and of arrays and objects if it holds of what they contain, holds of
all values. -/
theorem inductionOn (value : Json) : motive value :=
  @Json.rec motive (fun items => ∀ item ∈ items, motive item)
    (fun entries => ∀ entry ∈ entries, motive entry.2) (fun entry => motive entry.2)
    (leaf .null (fun _ h => by cases h) (fun _ h => by cases h))
    (fun b => leaf (.bool b) (fun _ h => by cases h) (fun _ h => by cases h))
    (fun text => leaf (.number text) (fun _ h => by cases h) (fun _ h => by cases h))
    (fun s => leaf (.string s) (fun _ h => by cases h) (fun _ h => by cases h))
    array object
    (fun _ h => absurd h not_mem_nil)
    (fun _ _ hfirst hrest => forall_mem_cons.mpr ⟨hfirst, hrest⟩)
    (fun _ h => absurd h not_mem_nil)
    (fun _ _ hfirst hrest => forall_mem_cons.mpr ⟨hfirst, hrest⟩)
    (fun _ _ hvalue => hvalue) value

end

variable {entries xs ys : List (Str × Json)} {key : Str} {value : Json} {items : List Json}
  {path : List Str}

theorem mem_of_lookup (h : lookup entries key = some value) : (key, value) ∈ entries := by
  obtain ⟨entry, hfind, rfl⟩ := Option.map_eq_some_iff.mp h
  have hkey : entry.1 = key := by simpa using find?_some hfind
  rw [← hkey]
  exact mem_of_find?_eq_some hfind

theorem lookup_isSome_iff : (lookup entries key).isSome = true ↔ key ∈ entries.map Prod.fst := by
  unfold lookup
  rw [Option.isSome_map, find?_isSome, mem_map]
  simp

theorem lookup_eq_none_iff : lookup entries key = none ↔ key ∉ entries.map Prod.fst := by
  rw [← lookup_isSome_iff]
  cases lookup entries key <;> simp

theorem lookup_of_mem (hnodup : (entries.map Prod.fst).Nodup)
    (h : (key, value) ∈ entries) : lookup entries key = some value := by
  have hsome : (lookup entries key).isSome = true :=
    lookup_isSome_iff.mpr (mem_map_of_mem (f := Prod.fst) h)
  obtain ⟨value', hvalue⟩ := Option.isSome_iff_exists.mp hsome
  have hmem := mem_of_lookup hvalue
  have heq := inj_on_of_nodup_map hnodup hmem h rfl
  rw [hvalue, (Prod.mk.inj heq).2]

@[simp]
theorem lookup_nil (key : Str) : lookup [] key = none := rfl

theorem lookup_cons (entry : Str × Json) (entries : List (Str × Json)) (key : Str) :
    lookup (entry :: entries) key = if entry.1 = key then some entry.2 else lookup entries key := by
  unfold lookup
  by_cases hkey : entry.1 = key
  · simp [hkey]
  · simp [hkey]

theorem lookup_filter (entries : List (Str × Json)) (p : Str → Bool) (key : Str) :
    lookup (entries.filter fun entry => p entry.1) key =
      if p key then lookup entries key else none := by
  induction entries with
  | nil => simp
  | cons entry rest ih =>
    rw [filter_cons, lookup_cons]
    by_cases hp : p entry.1 = true
    · rw [if_pos hp, lookup_cons]
      by_cases hkey : entry.1 = key
      · rw [if_pos hkey, if_pos hkey, ← hkey, if_pos hp]
      · rw [if_neg hkey, if_neg hkey, ih]
    · rw [if_neg hp, ih]
      by_cases hkey : entry.1 = key
      · rw [← hkey, if_neg hp, if_neg hp]
      · rw [if_neg hkey]

/-! ## Documents -/

/-- `isRecord` and `isPlainObject`, on parsed values. -/
def isObject : Json → Bool
  | .object _ => true
  | _ => false

theorem isObject_iff : value.isObject = true ↔ ∃ entries, value = .object entries := by
  cases value <;> simp [isObject]

mutual

/-- A parsed document without `null` and without blocked keys. -/
def isConfig : Json → Bool
  | .null => false
  | .array items => areConfigs items
  | .object entries => decide (entries.map Prod.fst).Nodup && haveConfigs entries
  | _ => true

def areConfigs : List Json → Bool
  | [] => true
  | item :: items => item.isConfig && areConfigs items

def haveConfigs : List (Str × Json) → Bool
  | [] => true
  | (key, value) :: entries => !isBlockedObjectKey key && value.isConfig && haveConfigs entries

end

theorem areConfigs_iff : areConfigs items = true ↔ ∀ item ∈ items, item.isConfig = true := by
  induction items with
  | nil => simp [areConfigs]
  | cons item items ih => simp [areConfigs, ih]

theorem haveConfigs_iff : haveConfigs entries = true ↔
    ∀ entry ∈ entries, isBlockedObjectKey entry.1 = false ∧ entry.2.isConfig = true := by
  induction entries with
  | nil => simp [haveConfigs]
  | cons entry entries ih => simp [haveConfigs, ih, and_assoc]

theorem isConfig_array_iff :
    (Json.array items).isConfig = true ↔ ∀ item ∈ items, item.isConfig = true := by
  rw [isConfig, areConfigs_iff]

theorem isConfig_object_iff : (Json.object entries).isConfig = true ↔ (entries.map Prod.fst).Nodup ∧
      ∀ entry ∈ entries, isBlockedObjectKey entry.1 = false ∧ entry.2.isConfig = true := by
  rw [isConfig, Bool.and_eq_true, decide_eq_true_eq, haveConfigs_iff]

theorem isConfig_of_lookup
    (h : (Json.object entries).isConfig = true) (hlookup : lookup entries key = some value) :
    isBlockedObjectKey key = false ∧ value.isConfig = true :=
  (isConfig_object_iff.mp h).2 _ (mem_of_lookup hlookup)

theorem isConfig_empty : (Json.object []).isConfig = true := rfl

mutual

/-- A parsed document, without own `__proto__` keys. -/
def isDocument : Json → Bool
  | .array items => areDocuments items
  | .object entries => decide (entries.map Prod.fst).Nodup && haveDocuments entries
  | _ => true

def areDocuments : List Json → Bool
  | [] => true
  | item :: items => item.isDocument && areDocuments items

def haveDocuments : List (Str × Json) → Bool
  | [] => true
  | (key, value) :: entries =>
    decide (key ≠ "__proto__".toList) && value.isDocument && haveDocuments entries

end

theorem isDocument_array_iff :
    (Json.array items).isDocument = true ↔ ∀ item ∈ items, item.isDocument = true := by
  rw [isDocument]
  induction items with
  | nil => simp [areDocuments]
  | cons item items ih => simp [areDocuments, ih]

theorem haveDocuments_iff : haveDocuments entries = true ↔
    ∀ entry ∈ entries, entry.1 ≠ "__proto__".toList ∧ entry.2.isDocument = true := by
  induction entries with
  | nil => simp [haveDocuments]
  | cons entry entries ih =>
    rw [haveDocuments, Bool.and_eq_true, Bool.and_eq_true, decide_eq_true_eq, ih, forall_mem_cons]

theorem isDocument_object_iff :
    (Json.object entries).isDocument = true ↔ (entries.map Prod.fst).Nodup ∧
      ∀ entry ∈ entries, entry.1 ≠ "__proto__".toList ∧ entry.2.isDocument = true := by
  rw [isDocument, Bool.and_eq_true, decide_eq_true_eq, haveDocuments_iff]

theorem isDocument_of_lookup
    (h : (Json.object entries).isDocument = true) (hlookup : lookup entries key = some value) :
    value.isDocument = true :=
  ((isDocument_object_iff.mp h).2 _ (mem_of_lookup hlookup)).2

theorem isDocument_of_isConfig (h : value.isConfig = true) : value.isDocument = true := by
  induction value using inductionOn with
  | leaf value harray hobject =>
    cases value with
    | array items => exact absurd rfl (harray items)
    | object entries => exact absurd rfl (hobject entries)
    | _ => rfl
  | array items ih =>
    rw [isDocument_array_iff]
    exact fun item hitem => ih item hitem (isConfig_array_iff.mp h item hitem)
  | object entries ih =>
    obtain ⟨hnodup, hall⟩ := isConfig_object_iff.mp h
    refine isDocument_object_iff.mpr ⟨hnodup, fun entry hentry => ⟨?_, ?_⟩⟩
    · intro hkey
      have hblocked := (hall entry hentry).1
      rw [hkey] at hblocked
      cases hblocked
    · exact ih entry hentry (hall entry hentry).2

/-! ## Equal documents -/

mutual

/-- Node's `isDeepStrictEqual` on parsed values. -/
def isDeepStrictEqual : Json → Json → Bool
  | .null, .null => true
  | .bool x, .bool y => x == y
  | .number x, .number y => x == y
  | .string x, .string y => x == y
  | .array xs, .array ys => itemsEqual xs ys
  | .object xs, .object ys => xs.length == ys.length && entriesEqual xs ys
  | _, _ => false

def itemsEqual : List Json → List Json → Bool
  | [], [] => true
  | x :: xs, y :: ys => isDeepStrictEqual x y && itemsEqual xs ys
  | _, _ => false

/-- Each entry of the first object has an equal one in the second. -/
def entriesEqual : List (Str × Json) → List (Str × Json) → Bool
  | [], _ => true
  | (key, x) :: xs, ys =>
    (match lookup ys key with
    | some y => isDeepStrictEqual x y
    | none => false) && entriesEqual xs ys

end

/-- The two are the same document. -/
def Alike (x y : Json) : Prop := isDeepStrictEqual x y = true

instance (x y : Json) : Decidable (Alike x y) := inferInstanceAs (Decidable (_ = true))

theorem alike_array_iff {xs ys : List Json} :
    Alike (.array xs) (.array ys) ↔ List.Forall₂ Alike xs ys := by
  show itemsEqual xs ys = true ↔ _
  induction xs generalizing ys with
  | nil => cases ys <;> simp [itemsEqual]
  | cons x xs ih =>
    cases ys with
    | nil => simp [itemsEqual]
    | cons y ys =>
      rw [itemsEqual, Bool.and_eq_true, forall₂_cons, ih]
      exact Iff.rfl

theorem entriesEqual_iff : entriesEqual xs ys = true ↔
    ∀ entry ∈ xs, ∃ y, lookup ys entry.1 = some y ∧ Alike entry.2 y := by
  induction xs with
  | nil => simp [entriesEqual]
  | cons entry xs ih =>
    rw [entriesEqual, Bool.and_eq_true, ih, forall_mem_cons]
    refine and_congr_left fun _ => ?_
    cases lookup ys entry.1 with
    | none => simp
    | some y => simp [Alike]

theorem isSome_eq_of_rel {x y : Option Json} (h : Option.Rel Alike x y) : x.isSome = y.isSome := by
  cases h <;> rfl

theorem eq_none_of_isSome {y : Option Json} (h : (none : Option Json).isSome = y.isSome) :
    y = none := by
  cases y with
  | none => rfl
  | some y => cases h

theorem exists_of_rel_some {x : Json} {y : Option Json} (h : Option.Rel Alike (some x) y) :
    ∃ y', y = some y' ∧ Alike x y' := by
  cases h with
  | some halike => exact ⟨_, rfl, halike⟩

/-- Objects with distinct keys are the same when each key has the same value, or none, in both. -/
theorem alike_object_iff (hx : (xs.map Prod.fst).Nodup)
    (hy : (ys.map Prod.fst).Nodup) : Alike (.object xs) (.object ys) ↔
      ∀ key, Option.Rel Alike (lookup xs key) (lookup ys key) := by
  show (xs.length == ys.length && entriesEqual xs ys) = true ↔ _
  rw [Bool.and_eq_true, beq_iff_eq, entriesEqual_iff]
  constructor
  · rintro ⟨hlength, hentries⟩ key
    have hsub : xs.map Prod.fst ⊆ ys.map Prod.fst := by
      intro key' hkey'
      obtain ⟨entry, hentry, rfl⟩ := mem_map.mp hkey'
      obtain ⟨y, hlookup, _⟩ := hentries entry hentry
      exact lookup_isSome_iff.mp (by rw [hlookup]; rfl)
    have hperm : (xs.map Prod.fst).Perm (ys.map Prod.fst) := by
      refine (subperm_of_subset hx hsub).perm_of_length_le ?_
      rw [length_map, length_map, hlength]
    cases hlookup : lookup xs key with
    | none =>
      have hnone : lookup ys key = none := by
        rw [lookup_eq_none_iff, ← hperm.mem_iff, ← lookup_eq_none_iff]
        exact hlookup
      rw [hnone]
      exact .none
    | some x =>
      obtain ⟨y, hy', halike⟩ := hentries _ (mem_of_lookup hlookup)
      rw [hy']
      exact .some halike
  · intro h
    have hsame : ∀ key, key ∈ xs.map Prod.fst ↔ key ∈ ys.map Prod.fst := by
      intro key
      rw [← lookup_isSome_iff, ← lookup_isSome_iff, isSome_eq_of_rel (h key)]
    have hperm := (perm_ext_iff_of_nodup hx hy).mpr hsame
    refine ⟨?_, fun entry hentry => ?_⟩
    · have hlength := hperm.length_eq
      rw [length_map, length_map] at hlength
      exact hlength
    · have hkey := h entry.1
      rw [lookup_of_mem hx hentry] at hkey
      exact exists_of_rel_some hkey

theorem isSome_of_alike
    (h : Alike (.object xs) (.object ys)) (hkey : (lookup xs key).isSome = true) :
    (lookup ys key).isSome = true := by
  have hentries : (xs.length == ys.length && entriesEqual xs ys) = true := h
  rw [Bool.and_eq_true, entriesEqual_iff] at hentries
  obtain ⟨value, hlookup⟩ := Option.isSome_iff_exists.mp hkey
  obtain ⟨value', hlookup', _⟩ := hentries.2 _ (mem_of_lookup hlookup)
  rw [hlookup']
  rfl

theorem alike_leaf {x y : Json} (hx : x.isObject = false) (hx' : ∀ items, x ≠ .array items) :
    Alike x y ↔ x = y := by
  unfold Alike
  cases x with
  | array items => exact absurd rfl (hx' items)
  | object entries => cases hx
  | null => cases y <;> simp [isDeepStrictEqual]
  | bool b => cases y <;> simp [isDeepStrictEqual]
  | number text => cases y <;> simp [isDeepStrictEqual]
  | string s => cases y <;> simp [isDeepStrictEqual]

theorem isObject_eq_of_alike {x y : Json} (h : Alike x y) : x.isObject = y.isObject := by
  cases x <;> cases y <;> first | rfl | cases h

variable {x y z : Json}

theorem isObject_false_of_ne (hx : ∀ entries, x ≠ .object entries) : x.isObject = false := by
  cases x with
  | object entries => exact absurd rfl (hx entries)
  | _ => rfl

theorem Alike.refl (hx : x.isConfig = true) : Alike x x := by
  induction x using inductionOn with
  | leaf x harray hobject =>
    exact (alike_leaf (isObject_false_of_ne hobject) harray).mpr rfl
  | array items ih =>
    rw [alike_array_iff, forall₂_same]
    exact fun item hitem => ih item hitem (isConfig_array_iff.mp hx item hitem)
  | object entries ih =>
    have hnodup := (isConfig_object_iff.mp hx).1
    rw [alike_object_iff hnodup hnodup]
    intro key
    cases hlookup : lookup entries key with
    | none => exact .none
    | some value =>
      exact .some (ih _ (mem_of_lookup hlookup) (isConfig_of_lookup hx hlookup).2)

theorem exists_array_of_alike {xs : List Json} (h : Alike (.array xs) y) :
    ∃ ys, y = .array ys ∧ List.Forall₂ Alike xs ys := by
  cases y with
  | array ys => exact ⟨ys, rfl, alike_array_iff.mp h⟩
  | _ => cases h

theorem exists_object_of_alike (h : Alike (.object xs) y) : ∃ ys, y = .object ys := by
  cases y with
  | object ys => exact ⟨ys, rfl⟩
  | _ => cases h

theorem Alike.symm (h : Alike x y) (hx : x.isConfig = true) (hy : y.isConfig = true) :
    Alike y x := by
  induction x using inductionOn generalizing y with
  | leaf x harray hobject =>
    have heq := (alike_leaf (isObject_false_of_ne hobject) harray).mp h
    rw [heq]
    exact .refl hy
  | array items ih =>
    obtain ⟨ys, rfl, hitems⟩ := exists_array_of_alike h
    rw [alike_array_iff]
    rw [isConfig_array_iff] at hx hy
    clear h
    induction hitems with
    | nil => exact .nil
    | cons hfirst _ ihrest =>
      rw [forall_mem_cons] at ih hx hy
      exact .cons (ih.1 hfirst hx.1 hy.1) (ihrest ih.2 hx.2 hy.2)
  | object entries ih =>
    obtain ⟨ys, rfl⟩ := exists_object_of_alike h
    have hnodup := (isConfig_object_iff.mp hx).1
    have hnodup' := (isConfig_object_iff.mp hy).1
    rw [alike_object_iff hnodup hnodup'] at h
    rw [alike_object_iff hnodup' hnodup]
    intro key
    have hkey := h key
    cases hlookup : lookup entries key with
    | none =>
      have hsome := isSome_eq_of_rel hkey
      rw [hlookup] at hsome
      rw [eq_none_of_isSome hsome]
      exact .none
    | some value =>
      rw [hlookup] at hkey
      obtain ⟨value', hlookup', halike⟩ := exists_of_rel_some hkey
      rw [hlookup']
      exact .some (ih _ (mem_of_lookup hlookup) halike (isConfig_of_lookup hx hlookup).2
        (isConfig_of_lookup hy hlookup').2)

theorem Alike.trans (h : Alike x y) (h' : Alike y z) (hx : x.isConfig = true)
    (hy : y.isConfig = true) (hz : z.isConfig = true) : Alike x z := by
  induction x using inductionOn generalizing y z with
  | leaf x harray hobject =>
    have heq := (alike_leaf (isObject_false_of_ne hobject) harray).mp h
    rw [heq]
    exact h'
  | array items ih =>
    obtain ⟨ys, rfl, hitems⟩ := exists_array_of_alike h
    obtain ⟨zs, rfl, hitems'⟩ := exists_array_of_alike h'
    rw [alike_array_iff]
    rw [isConfig_array_iff] at hx hy hz
    clear h h'
    induction hitems generalizing zs with
    | nil =>
      cases hitems'
      exact .nil
    | cons hfirst _ ihrest =>
      cases hitems' with
      | cons hfirst' hrest' =>
        rw [forall_mem_cons] at ih hx hy hz
        exact .cons (ih.1 hfirst hfirst' hx.1 hy.1 hz.1) (ihrest ih.2 hx.2 hy.2 _ hrest' hz.2)
  | object entries ih =>
    obtain ⟨ys, rfl⟩ := exists_object_of_alike h
    obtain ⟨zs, rfl⟩ := exists_object_of_alike h'
    have hnodup := (isConfig_object_iff.mp hx).1
    have hnodup' := (isConfig_object_iff.mp hy).1
    have hnodup'' := (isConfig_object_iff.mp hz).1
    rw [alike_object_iff hnodup hnodup'] at h
    rw [alike_object_iff hnodup' hnodup''] at h'
    rw [alike_object_iff hnodup hnodup'']
    intro key
    have hkey := h key
    have hkey' := h' key
    cases hlookup : lookup entries key with
    | none =>
      have hsome := (isSome_eq_of_rel hkey).trans (isSome_eq_of_rel hkey')
      rw [hlookup] at hsome
      rw [eq_none_of_isSome hsome]
      exact .none
    | some value =>
      rw [hlookup] at hkey
      obtain ⟨value', hlookup', halike⟩ := exists_of_rel_some hkey
      rw [hlookup'] at hkey'
      obtain ⟨value'', hlookup'', halike'⟩ := exists_of_rel_some hkey'
      rw [hlookup'']
      exact .some (ih _ (mem_of_lookup hlookup) halike halike' (isConfig_of_lookup hx hlookup).2
        (isConfig_of_lookup hy hlookup').2 (isConfig_of_lookup hz hlookup'').2)

/-! ## Paths -/

/-- The value at a path of keys, where there is one. -/
def getAt (value : Json) : List Str → Option Json
  | [] => some value
  | key :: path => (value.get? key).bind (getAt · path)

theorem getAt_object (entries : List (Str × Json)) (key : Str) (path : List Str) :
    (Json.object entries).getAt (key :: path) = (lookup entries key).bind (getAt · path) := rfl

theorem exists_of_getAt_cons {v : Json}
    (h : value.getAt (key :: path) = some v) : ∃ entries child, value = .object entries ∧
      lookup entries key = some child ∧ child.getAt path = some v := by
  cases value with
  | object entries =>
    obtain ⟨child, hlookup, hrest⟩ := Option.bind_eq_some_iff.mp h
    exact ⟨entries, child, rfl, hlookup, hrest⟩
  | _ => cases h

/-- What has an object inside is an object. -/
theorem isObject_of_getAt
    (h : value.getAt path = some (.object entries)) : value.isObject = true := by
  cases path with
  | nil =>
    cases h
    rfl
  | cons key path =>
    obtain ⟨_, _, rfl, _⟩ := exists_of_getAt_cons h
    rfl

theorem getAt_of_not_isObject (h : value.isObject = false) (key : Str)
    (path : List Str) : value.getAt (key :: path) = none := by
  cases value with
  | object entries => cases h
  | _ => rfl

theorem isConfig_of_getAt (hx : x.isConfig = true)
    (h : x.getAt path = some value) : value.isConfig = true := by
  induction path generalizing x with
  | nil =>
    cases h
    exact hx
  | cons key path ih =>
    obtain ⟨entries, child, rfl, hlookup, hrest⟩ := exists_of_getAt_cons h
    exact ih (isConfig_of_lookup hx hlookup).2 hrest

/-- Equal documents have equal values at every path. -/
theorem Alike.getAt (h : Alike x y) (hx : x.isConfig = true) (hy : y.isConfig = true)
    (path : List Str) : Option.Rel Alike (x.getAt path) (y.getAt path) := by
  induction path generalizing x y with
  | nil => exact .some h
  | cons key path ih =>
    cases hobject : x.isObject with
    | false =>
      rw [getAt_of_not_isObject hobject,
        getAt_of_not_isObject ((isObject_eq_of_alike h).symm.trans hobject)]
      exact .none
    | true =>
      obtain ⟨xs, rfl⟩ := isObject_iff.mp hobject
      obtain ⟨ys, rfl⟩ := exists_object_of_alike h
      have hkey := (alike_object_iff (isConfig_object_iff.mp hx).1
        (isConfig_object_iff.mp hy).1).mp h key
      rw [getAt_object, getAt_object]
      cases hlookup : lookup xs key with
      | none =>
        have hsome := isSome_eq_of_rel hkey
        rw [hlookup] at hsome
        rw [eq_none_of_isSome hsome]
        exact .none
      | some value =>
        rw [hlookup] at hkey
        obtain ⟨value', hlookup', halike⟩ := exists_of_rel_some hkey
        rw [hlookup']
        exact ih halike (isConfig_of_lookup hx hlookup).2 (isConfig_of_lookup hy hlookup').2

end Json

end OpenClaw
