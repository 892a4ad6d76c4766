import OpenClaw.Config.Value

/-!
# Merge patches

`createMergePatch` and `projectSourceOntoRuntimeShape` of `io.write-prepare.ts` and
`applyMergePatch` of `merge-patch.ts` with its default options. The first two ask for a
property with `in`, which also finds the names of `Object.prototype`; documents have no
blocked keys of their own, so all these names stand for functions.
-/

namespace OpenClaw

open Json List

/-! ## Properties of an object -/

/-- The methods that every object inherits. -/
def objectPrototypeNames : List Str :=
  ["constructor".toList, "__defineGetter__".toList, "__defineSetter__".toList,
    "hasOwnProperty".toList, "__lookupGetter__".toList, "__lookupSetter__".toList,
    "isPrototypeOf".toList, "propertyIsEnumerable".toList, "toString".toList,
    "valueOf".toList, "toLocaleString".toList]

/-- What reading a property gives. -/
inductive PropertyValue where
  | own (value : Json)
  | method

/-- `value[key]` where `key in value`. -/
def getProperty (entries : List (Str × Json)) (key : Str) : Option PropertyValue :=
  match lookup entries key with
  | some value => some (.own value)
  | none => if key ∈ objectPrototypeNames then some .method else none

/-! ## Creating a patch -/

/-- `Object.keys(value).length === 0` on an object. -/
def Json.isEmptyObject : Json → Bool
  | .object [] => true
  | _ => false

/-- The patch for the keys that the base does not have. A method it inherits is no record and
equal to no parsed value. -/
def addedKeys (base target : List (Str × Json)) : List (Str × Json) :=
  target.filter fun entry => (lookup base entry.1).isNone

mutual

/-- `createMergePatch`; there is no result where `structuredClone` is given a method. -/
def createMergePatch : Json → Json → Option Json
  | .object base, .object target =>
    (patchBaseKeys base target).map fun patch => .object (patch ++ addedKeys base target)
  | _, target => some target

/-- The patch for the keys of the base. -/
def patchBaseKeys : List (Str × Json) → List (Str × Json) → Option (List (Str × Json))
  | [], _ => some []
  | (key, baseValue) :: rest, target =>
    match getProperty target key with
    | none => (patchBaseKeys rest target).map ((key, .null) :: ·)
    -- neither a record nor equal: the method itself is cloned
    | some .method => none
    | some (.own targetValue) =>
      if baseValue.isObject && targetValue.isObject then
        (createMergePatch baseValue targetValue).bind fun childPatch =>
          (patchBaseKeys rest target).map fun patch =>
            if childPatch.isEmptyObject then patch else (key, childPatch) :: patch
      else if isDeepStrictEqual baseValue targetValue then patchBaseKeys rest target
      else (patchBaseKeys rest target).map ((key, targetValue) :: ·)

end

/-! ## Projecting the source -/

mutual

def projectSourceOntoRuntimeShape : Json → Json → Json
  | .object source, .object runtime => .object (projectEntries source runtime)
  | source, _ => source

def projectEntries : List (Str × Json) → List (Str × Json) → List (Str × Json)
  | [], _ => []
  | (key, sourceValue) :: rest, runtime =>
    let projected :=
      match getProperty runtime key with
      | some (.own runtimeValue) => projectSourceOntoRuntimeShape sourceValue runtimeValue
      -- a method is no record
      | some .method => sourceValue
      | none => sourceValue
    (key, projected) :: projectEntries rest runtime

end

/-! ## Applying a patch -/

/-- The value where it is an object, otherwise an empty object. -/
def asObject : Option Json → List (Str × Json)
  | some (.object entries) => entries
  | _ => []

mutual

def applyMergePatch (base : Json) : Json → Json
  | .object patch => .object (applyPatchEntries (asObject (some base)) patch)
  | patch => patch

def applyPatchEntries (result : List (Str × Json)) : List (Str × Json) → List (Str × Json)
  | [] => result
  | (key, value) :: rest =>
    let next :=
      if isBlockedObjectKey key then result
      else
        match value with
        | .null => erase result key
        | .object _ =>
          insert result key (applyMergePatch (.object (asObject (lookup result key))) value)
        | _ => insert result key value
    applyPatchEntries next rest

end

/-- The candidate that `resolvePersistCandidateForWrite` starts from. -/
def persistCandidate (source runtime next : Json) : Option Json :=
  (createMergePatch runtime next).map
    (applyMergePatch (projectSourceOntoRuntimeShape source runtime))

/-! ## The projection is the source -/

mutual

theorem projectSourceOntoRuntimeShape_eq : ∀ source runtime : Json,
    projectSourceOntoRuntimeShape source runtime = source
  | .object source, .object runtime => by
    rw [projectSourceOntoRuntimeShape, projectEntries_eq]
  | .object _, .null | .object _, .bool _ | .object _, .number _ | .object _, .string _
  | .object _, .array _ | .null, _ | .bool _, _ | .number _, _ | .string _, _ | .array _, _ => by
    simp [projectSourceOntoRuntimeShape]

theorem projectEntries_eq : ∀ source runtime : List (Str × Json),
    projectEntries source runtime = source
  | [], _ => by rw [projectEntries]
  | (key, sourceValue) :: rest, runtime => by
    rw [projectEntries, projectEntries_eq rest runtime]
    cases getProperty runtime key with
    | none => rfl
    | some value =>
      cases value with
      | own runtimeValue =>
        dsimp only
        rw [projectSourceOntoRuntimeShape_eq sourceValue runtimeValue]
      | method => rfl

end

/-! ## What a patch says of a key -/

variable {base target patch result : List (Str × Json)} {key : Str}

/-- From the values of a key in base and target to its value in the patch. -/
inductive Patched (key : Str) : Option Json → Option Json → Option Json → Prop
  | absent : Patched key none none none
  | added (targetValue : Json) : Patched key none (some targetValue) (some targetValue)
  | removed (baseValue : Json) (hname : key ∉ objectPrototypeNames) :
      Patched key (some baseValue) none (some .null)
  | child {baseValue targetValue childPatch : Json} (hbase : baseValue.isObject = true)
      (htarget : targetValue.isObject = true)
      (hpatch : createMergePatch baseValue targetValue = some childPatch) :
      Patched key (some baseValue) (some targetValue)
        (if childPatch.isEmptyObject then none else some childPatch)
  | kept {baseValue targetValue : Json}
      (hleaf : (baseValue.isObject && targetValue.isObject) = false)
      (halike : Alike baseValue targetValue) : Patched key (some baseValue) (some targetValue) none
  | replaced {baseValue targetValue : Json}
      (hleaf : (baseValue.isObject && targetValue.isObject) = false)
      (hdiffer : ¬ Alike baseValue targetValue) :
      Patched key (some baseValue) (some targetValue) (some targetValue)

theorem getProperty_eq_none (h : getProperty target key = none) :
    lookup target key = none ∧ key ∉ objectPrototypeNames := by
  unfold getProperty at h
  cases hlookup : lookup target key with
  | none =>
    rw [hlookup] at h
    dsimp only at h
    split_ifs at h with hname
    exact ⟨rfl, hname⟩
  | some value =>
    rw [hlookup] at h
    cases h

theorem getProperty_eq_own {value : Json} (h : getProperty target key = some (.own value)) :
    lookup target key = some value := by
  unfold getProperty at h
  cases hlookup : lookup target key with
  | none =>
    rw [hlookup] at h
    dsimp only at h
    split_ifs at h
    cases h
  | some value' =>
    rw [hlookup] at h
    cases h
    rfl

/-- The first key of the base, and the rest of the patch. -/
theorem patchBaseKeys_cons {baseValue : Json}
    (h : patchBaseKeys ((key, baseValue) :: base) target = some patch) :
    ∃ rest, patchBaseKeys base target = some rest ∧
      ((patch = rest ∧ Patched key (some baseValue) (lookup target key) none) ∨
        ∃ value, patch = (key, value) :: rest ∧
          Patched key (some baseValue) (lookup target key) (some value)) := by
  rw [patchBaseKeys] at h
  cases hproperty : getProperty target key with
  | none =>
    rw [hproperty] at h
    obtain ⟨rest, hrest, rfl⟩ := Option.map_eq_some_iff.mp h
    obtain ⟨hnone, hname⟩ := getProperty_eq_none hproperty
    rw [hnone]
    exact ⟨rest, hrest, .inr ⟨.null, rfl, .removed baseValue hname⟩⟩
  | some value =>
    rw [hproperty] at h
    cases value with
    | method => cases h
    | own targetValue =>
      rw [getProperty_eq_own hproperty]
      dsimp only at h
      by_cases hobjects : (baseValue.isObject && targetValue.isObject) = true
      · rw [if_pos hobjects] at h
        obtain ⟨childPatch, hchild, hmap⟩ := Option.bind_eq_some_iff.mp h
        obtain ⟨rest, hrest, hpatch⟩ := Option.map_eq_some_iff.mp hmap
        rw [Bool.and_eq_true] at hobjects
        have hpatched : Patched key _ _ _ := .child hobjects.1 hobjects.2 hchild
        refine ⟨rest, hrest, ?_⟩
        by_cases hempty : childPatch.isEmptyObject = true
        · rw [if_pos hempty] at hpatch hpatched
          exact .inl ⟨hpatch.symm, hpatched⟩
        · rw [if_neg hempty] at hpatch hpatched
          exact .inr ⟨childPatch, hpatch.symm, hpatched⟩
      · rw [if_neg hobjects] at h
        have hleaf := Bool.eq_false_iff.mpr hobjects
        by_cases hequal : isDeepStrictEqual baseValue targetValue = true
        · rw [if_pos hequal] at h
          exact ⟨patch, h, .inl ⟨rfl, .kept hleaf hequal⟩⟩
        · rw [if_neg hequal] at h
          obtain ⟨rest, hrest, rfl⟩ := Option.map_eq_some_iff.mp h
          exact ⟨rest, hrest, .inr ⟨targetValue, rfl, .replaced hleaf hequal⟩⟩

/-- The keys of the base part of a patch are keys of the base, in their order. -/
theorem sublist_of_patchBaseKeys (h : patchBaseKeys base target = some patch) :
    (patch.map Prod.fst).Sublist (base.map Prod.fst) := by
  induction base generalizing patch with
  | nil =>
    cases h
    exact .slnil
  | cons entry base ih =>
    obtain ⟨rest, hrest, ⟨rfl, _⟩ | ⟨value, rfl, _⟩⟩ := patchBaseKeys_cons h
    · exact (ih hrest).cons entry.1
    · exact (ih hrest).cons_cons entry.1

theorem patched_of_patchBaseKeys (h : patchBaseKeys base target = some patch)
    (hnodup : (base.map Prod.fst).Nodup) {baseValue : Json}
    (hlookup : lookup base key = some baseValue) :
    Patched key (some baseValue) (lookup target key) (lookup patch key) := by
  induction base generalizing patch with
  | nil => cases hlookup
  | cons entry base ih =>
    rw [map_cons, nodup_cons] at hnodup
    obtain ⟨rest, hrest, hcases⟩ := patchBaseKeys_cons h
    rw [lookup_cons] at hlookup
    have hother : lookup rest entry.1 = none :=
      lookup_eq_none_iff.mpr fun hmem => hnodup.1 ((sublist_of_patchBaseKeys hrest).subset hmem)
    by_cases hkey : entry.1 = key
    · rw [if_pos hkey] at hlookup
      cases hlookup
      subst hkey
      rcases hcases with ⟨rfl, hpatched⟩ | ⟨value, rfl, hpatched⟩
      · rw [hother]
        exact hpatched
      · rw [lookup_cons, if_pos rfl]
        exact hpatched
    · rw [if_neg hkey] at hlookup
      have hpatched := ih hrest hnodup.2 hlookup
      rcases hcases with ⟨rfl, _⟩ | ⟨value, rfl, _⟩
      · exact hpatched
      · rw [lookup_cons, if_neg hkey]
        exact hpatched

/-- The patch of two objects. -/
theorem createMergePatch_object {value : Json}
    (h : createMergePatch (.object base) (.object target) = some value) :
    ∃ patch, patchBaseKeys base target = some patch ∧
      value = .object (patch ++ addedKeys base target) := by
  rw [createMergePatch] at h
  obtain ⟨patch, hpatch, rfl⟩ := Option.map_eq_some_iff.mp h
  exact ⟨patch, hpatch, rfl⟩

theorem createMergePatch_leaf {base target : Json} (h : (base.isObject && target.isObject) = false) :
    createMergePatch base target = some target := by
  cases base <;> cases target <;> first | rfl | cases h

theorem lookup_addedKeys (base target : List (Str × Json)) (key : Str) :
    lookup (addedKeys base target) key =
      if (lookup base key).isNone then lookup target key else none :=
  lookup_filter target (fun key => (lookup base key).isNone) key

section

variable (h : createMergePatch (.object base) (.object target) = some (.object patch))
include h

/-- Every key of a patch, by the values in base and target. -/
theorem patched_lookup (hnodup : (base.map Prod.fst).Nodup) (key : Str) :
    Patched key (lookup base key) (lookup target key) (lookup patch key) := by
  obtain ⟨own, hown, heq⟩ := createMergePatch_object h
  rw [Json.object.inj heq, lookup_append, lookup_addedKeys]
  cases hlookup : lookup base key with
  | none =>
    have hnone : lookup own key = none := lookup_eq_none_iff.mpr fun hmem =>
      lookup_eq_none_iff.mp hlookup ((sublist_of_patchBaseKeys hown).subset hmem)
    rw [hnone]
    cases htarget : lookup target key with
    | none => exact .absent
    | some targetValue => exact .added targetValue
  | some baseValue =>
    have hpatched := patched_of_patchBaseKeys hown hnodup hlookup
    simpa using hpatched

theorem nodup_of_createMergePatch
    (hbase : (base.map Prod.fst).Nodup) (htarget : (target.map Prod.fst).Nodup) :
    (patch.map Prod.fst).Nodup := by
  obtain ⟨own, hown, heq⟩ := createMergePatch_object h
  rw [Json.object.inj heq, map_append]
  refine List.Nodup.append ((sublist_of_patchBaseKeys hown).nodup hbase)
    (htarget.sublist (filter_sublist.map _)) ?_
  intro key hmem hmem'
  have hsome := lookup_isSome_iff.mpr ((sublist_of_patchBaseKeys hown).subset hmem)
  have hadded := lookup_isSome_iff.mpr hmem'
  rw [lookup_addedKeys] at hadded
  split_ifs at hadded with hnone
  · rw [Option.isNone_iff_eq_none.mp hnone] at hsome
    cases hsome
  · cases hadded

theorem mem_keys_of_createMergePatch
    (hkey : key ∈ patch.map Prod.fst) : key ∈ base.map Prod.fst ∨ key ∈ target.map Prod.fst := by
  obtain ⟨own, hown, heq⟩ := createMergePatch_object h
  rw [Json.object.inj heq, map_append, mem_append] at hkey
  rcases hkey with hmem | hmem
  · exact .inl ((sublist_of_patchBaseKeys hown).subset hmem)
  · exact .inr ((filter_sublist.map Prod.fst).subset hmem)

end

/-! ## What applying a patch does to a key -/

/-- The value of a key behind its part of a patch. -/
def patchedValue (current : Option Json) : Option Json → Option Json
  | none => current
  | some .null => none
  | some value => some (applyMergePatch (.object (asObject current)) value)

theorem applyPatchEntries_blocked {value : Json} (hkey : isBlockedObjectKey key = true) :
    applyPatchEntries result ((key, value) :: patch) = applyPatchEntries result patch := by
  cases value <;> simp [applyPatchEntries, hkey]

theorem applyPatchEntries_cons {value : Json} (hkey : isBlockedObjectKey key = false) :
    applyPatchEntries result ((key, value) :: patch) =
      applyPatchEntries (match patchedValue (lookup result key) (some value) with
        | some patched => insert result key patched
        | none => erase result key) patch := by
  cases value <;> simp [applyPatchEntries, applyMergePatch, patchedValue, hkey]

theorem lookup_applyPatchEntries (hnodup : (patch.map Prod.fst).Nodup)
    (hblocked : ∀ key ∈ patch.map Prod.fst, isBlockedObjectKey key = false) (key : Str) :
    lookup (applyPatchEntries result patch) key =
      patchedValue (lookup result key) (lookup patch key) := by
  induction patch generalizing result with
  | nil => rw [applyPatchEntries, lookup_nil, patchedValue]
  | cons entry patch ih =>
    obtain ⟨first, value⟩ := entry
    rw [map_cons, nodup_cons] at hnodup
    rw [map_cons, forall_mem_cons] at hblocked
    rw [applyPatchEntries_cons hblocked.1, ih hnodup.2 hblocked.2, lookup_cons]
    by_cases hkey : first = key
    · subst hkey
      rw [if_pos rfl, lookup_eq_none_iff.mpr hnodup.1]
      cases patchedValue (lookup result first) (some value) with
      | none => exact lookup_erase result first
      | some patched => exact lookup_insert result first patched
    · rw [if_neg hkey]
      congr 1
      cases patchedValue (lookup result first) (some value) with
      | none => exact lookup_erase_of_ne result (Ne.symm hkey)
      | some patched => exact lookup_insert_of_ne result patched (Ne.symm hkey)

end OpenClaw
