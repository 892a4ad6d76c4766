import OpenClaw.Config.MergePatch

/-!
# What a configuration write changes

The caller changed `runtime` to `next`, and the candidate is `source` with the patch between
the two laid over it. This module says what the candidate has for each key, when two documents
have an empty patch, and when they have one at all.
-/

namespace OpenClaw

open Json List

variable {source runtime next : Json} {s r n patch : List (Str × Json)} {key : Str}
  {path : List Str}

/-! ## Laying an object over another -/

theorem isConfig_asObject {value : Option Json} (h : ∀ v, value = some v → v.isConfig = true) :
    (Json.object (asObject value)).isConfig = true := by
  cases value with
  | none => rfl
  | some v =>
    cases v with
    | object entries => exact h _ rfl
    | _ => rfl

theorem isConfig_asObject_lookup (h : (Json.object s).isConfig = true) (key : Str) :
    (Json.object (asObject (lookup s key))).isConfig = true :=
  isConfig_asObject fun _ hlookup => (isConfig_of_lookup h hlookup).2

theorem map_fst_insert (entries : List (Str × Json)) (key : Str) (value : Json) :
    (Json.insert entries key value).map Prod.fst =
      if key ∈ entries.map Prod.fst then entries.map Prod.fst
      else entries.map Prod.fst ++ [key] := by
  unfold Json.insert
  have hany : entries.any (·.1 = key) = true ↔ key ∈ entries.map Prod.fst := by
    simp
  by_cases hmem : key ∈ entries.map Prod.fst
  · rw [if_pos (hany.mpr hmem), if_pos hmem, map_map]
    apply map_congr_left
    intro entry _
    show (if entry.1 = key then (key, value) else entry).1 = entry.1
    split_ifs with hkey
    · exact hkey.symm
    · rfl
  · rw [if_neg (fun h => hmem (hany.mp h)), if_neg hmem, map_append]
    rfl

theorem nodup_insert (h : (s.map Prod.fst).Nodup) (key : Str) (value : Json) :
    ((Json.insert s key value).map Prod.fst).Nodup := by
  rw [map_fst_insert]
  split_ifs with hmem
  · exact h
  · rw [nodup_append]
    refine ⟨h, nodup_singleton key, fun key' hkey' key'' hkey'' => ?_⟩
    rw [mem_singleton.mp hkey'']
    exact fun heq => hmem (heq ▸ hkey')

variable {value : Json}

theorem isConfig_insert (h : (Json.object s).isConfig = true)
    (hkey : isBlockedObjectKey key = false) (hvalue : value.isConfig = true) :
    (Json.object (Json.insert s key value)).isConfig = true := by
  obtain ⟨hnodup, hall⟩ := isConfig_object_iff.mp h
  refine isConfig_object_iff.mpr ⟨nodup_insert hnodup key value, fun entry hentry => ?_⟩
  unfold Json.insert at hentry
  split_ifs at hentry
  · obtain ⟨old, hold, heq⟩ := mem_map.mp hentry
    split_ifs at heq
    · rw [← heq]
      exact ⟨hkey, hvalue⟩
    · rw [← heq]
      exact hall old hold
  · rcases mem_append.mp hentry with hold | hnew
    · exact hall entry hold
    · rw [mem_singleton.mp hnew]
      exact ⟨hkey, hvalue⟩

theorem nodup_applyPatchEntries (h : (s.map Prod.fst).Nodup) :
    ((applyPatchEntries s patch).map Prod.fst).Nodup := by
  induction patch generalizing s with
  | nil =>
    rw [applyPatchEntries]
    exact h
  | cons entry patch ih =>
    obtain ⟨key, value⟩ := entry
    by_cases hkey : isBlockedObjectKey key = true
    · rw [applyPatchEntries_blocked hkey]
      exact ih h
    · rw [applyPatchEntries_cons (Bool.eq_false_iff.mpr hkey)]
      cases patchedValue (lookup s key) (some value) with
      | none => exact ih (h.sublist (filter_sublist.map _))
      | some patched => exact ih (nodup_insert h key patched)

theorem patchedValue_of_isConfig (h : value.isConfig = true) (current : Option Json) :
    patchedValue current (some value) = some (applyMergePatch (.object (asObject current)) value) := by
  cases value with
  | null => cases h
  | _ => rfl

theorem applyMergePatch_leaf (h : value.isObject = false) (base : Json) :
    applyMergePatch base value = value := by
  cases value with
  | object entries => cases h
  | _ => rfl

/-- A configuration laid over another is a configuration. -/
theorem isConfig_applyMergePatch (hs : (Json.object s).isConfig = true)
    (hvalue : value.isConfig = true) : (applyMergePatch (.object s) value).isConfig = true := by
  induction value using inductionOn generalizing s with
  | leaf value _ hobject =>
    rw [applyMergePatch_leaf (isObject_false_of_ne hobject)]
    exact hvalue
  | array items _ => exact hvalue
  | object entries ih =>
    have hall := (isConfig_object_iff.mp hvalue).2
    show (Json.object (applyPatchEntries s entries)).isConfig = true
    clear hvalue
    induction entries generalizing s with
    | nil =>
      rw [applyPatchEntries]
      exact hs
    | cons entry entries ihrest =>
      rw [forall_mem_cons] at ih hall
      rw [applyPatchEntries_cons hall.1.1, patchedValue_of_isConfig hall.1.2]
      exact ihrest ih.2 (isConfig_insert hs hall.1.1
        (ih.1 (isConfig_asObject_lookup hs entry.1) hall.1.2)) hall.2

theorem lookup_overlay (hn : (Json.object n).isConfig = true) (key : Str) :
    lookup (applyPatchEntries s n) key = patchedValue (lookup s key) (lookup n key) := by
  obtain ⟨hnodup, hall⟩ := isConfig_object_iff.mp hn
  apply lookup_applyPatchEntries hnodup
  intro key' hkey'
  obtain ⟨entry, hentry, rfl⟩ := mem_map.mp hkey'
  exact (hall entry hentry).1

/-- Every key of an object of the first document is a key of the object that the second has in its
place. -/
def Covered (source next : Json) : Prop :=
  ∀ path s n, source.getAt path = some (.object s) → next.getAt path = some (.object n) →
    ∀ key, (lookup s key).isSome = true → (lookup n key).isSome = true

/-- What is laid over a covered document hides it. -/
theorem overlay_alike (hs : (Json.object s).isConfig = true)
    (hvalue : value.isConfig = true) (hcovered : Covered (.object s) value) :
    Alike (applyMergePatch (.object s) value) value := by
  induction value using inductionOn generalizing s with
  | leaf value _ hobject =>
    rw [applyMergePatch_leaf (isObject_false_of_ne hobject)]
    exact .refl hvalue
  | array items _ => exact .refl hvalue
  | object entries ih =>
    have hresult : (Json.object (applyPatchEntries s entries)).isConfig = true :=
      isConfig_applyMergePatch hs hvalue
    show Alike (.object (applyPatchEntries s entries)) (.object entries)
    rw [alike_object_iff (isConfig_object_iff.mp hresult).1 (isConfig_object_iff.mp hvalue).1]
    intro key
    rw [lookup_overlay hvalue]
    cases hlookup : lookup entries key with
    | none =>
      have hnone : lookup s key = none := by
        by_contra hsome
        have hkey := hcovered [] s entries rfl rfl key (Option.isSome_iff_ne_none.mpr hsome)
        rw [hlookup] at hkey
        cases hkey
      rw [hnone]
      exact .none
    | some child =>
      have hchild := (isConfig_of_lookup hvalue hlookup).2
      rw [patchedValue_of_isConfig hchild]
      refine .some (ih _ (mem_of_lookup hlookup) (isConfig_asObject_lookup hs key) hchild ?_)
      intro path s' n' hs' hn' key' hkey'
      cases hold : lookup s key with
      | none =>
        rw [hold] at hs'
        cases path with
        | nil =>
          cases hs'
          cases hkey'
        | cons first path => cases hs'
      | some value =>
        rw [hold] at hs'
        cases value with
        | object entries' =>
          refine hcovered (key :: path) s' n' ?_ ?_ key' hkey'
          · rw [getAt_object, hold]
            exact hs'
          · rw [getAt_object, hlookup]
            exact hn'
        | _ =>
          cases path with
          | nil =>
            cases hs'
            cases hkey'
          | cons first path => cases hs'

/-- Where both documents have an object, the overlay has the overlay of the two. -/
theorem getAt_overlay {source next : Json} (hnext : next.isConfig = true)
    (hs : source.getAt path = some (.object s)) (hn : next.getAt path = some (.object n)) :
    (applyMergePatch source next).getAt path = some (.object (applyPatchEntries s n)) := by
  induction path generalizing source next with
  | nil =>
    cases hs
    cases hn
    rfl
  | cons key path ih =>
    obtain ⟨entries, child, rfl, hlookup, hrest⟩ := exists_of_getAt_cons hs
    obtain ⟨entries', child', rfl, hlookup', hrest'⟩ := exists_of_getAt_cons hn
    have hchild := (isConfig_of_lookup hnext hlookup').2
    obtain ⟨inner, rfl⟩ := isObject_iff.mp (isObject_of_getAt hrest)
    have hvalue : lookup (applyPatchEntries entries entries') key =
        some (applyMergePatch (.object inner) child') := by
      rw [lookup_overlay hnext, hlookup, hlookup', patchedValue_of_isConfig hchild]
      rfl
    show (lookup (applyPatchEntries entries entries') key).bind (getAt · path) = _
    rw [hvalue]
    exact ih hchild hrest hrest'

/-! ## What the candidate has for a key -/

/-- From the values of a key in runtime, next and source to its value in the candidate. -/
inductive Written (key : Str) (current : Option Json) :
    Option Json → Option Json → Option Json → Prop
  | absent : Written key current none none current
  | added {nextValue : Json} : Written key current none (some nextValue)
      (some (applyMergePatch (.object (asObject current)) nextValue))
  | removed {value : Json} (hname : key ∉ objectPrototypeNames) :
      Written key current (some value) none none
  | same {value nextValue : Json} (hvalue : value.isObject = true)
      (hnext : nextValue.isObject = true)
      (hpatch : createMergePatch value nextValue = some (.object [])) :
      Written key current (some value) (some nextValue) current
  | merged {value nextValue : Json} {patch : List (Str × Json)} (hvalue : value.isObject = true)
      (hnext : nextValue.isObject = true)
      (hpatch : createMergePatch value nextValue = some (.object patch)) (hne : patch ≠ []) :
      Written key current (some value) (some nextValue)
        (some (applyMergePatch (.object (asObject current)) (.object patch)))
  | kept {value nextValue : Json} (hleaf : (value.isObject && nextValue.isObject) = false)
      (halike : Alike value nextValue) : Written key current (some value) (some nextValue) current
  | replaced {value nextValue : Json} (hleaf : (value.isObject && nextValue.isObject) = false)
      (hdiffer : ¬ Alike value nextValue) : Written key current (some value) (some nextValue)
        (some (applyMergePatch (.object (asObject current)) nextValue))

theorem written_of_patched {current value nextValue patched : Option Json}
    (h : Patched key value nextValue patched)
    (hnext : ∀ v, nextValue = some v → v.isConfig = true) :
    Written key current value nextValue (patchedValue current patched) := by
  cases h with
  | absent => exact .absent
  | added targetValue =>
    rw [patchedValue_of_isConfig (hnext _ rfl)]
    exact .added
  | removed baseValue hname => exact .removed hname
  | child hbase htarget hpatch =>
    obtain ⟨entries, rfl⟩ := isObject_iff.mp hbase
    obtain ⟨entries', rfl⟩ := isObject_iff.mp htarget
    obtain ⟨own, _, rfl⟩ := createMergePatch_object hpatch
    cases hchild : own ++ addedKeys entries entries' with
    | nil =>
      rw [hchild] at hpatch
      exact .same rfl rfl hpatch
    | cons first rest =>
      rw [hchild] at hpatch
      exact .merged rfl rfl hpatch (cons_ne_nil _ _)
  | kept hleaf halike => exact .kept hleaf halike
  | replaced hleaf hdiffer =>
    rw [patchedValue_of_isConfig (hnext _ rfl)]
    exact .replaced hleaf hdiffer

/-- Every key of the candidate. -/
theorem written_lookup (hr : (Json.object r).isConfig = true) (hn : (Json.object n).isConfig = true)
    (hpatch : createMergePatch (.object r) (.object n) = some (.object patch)) (key : Str) :
    Written key (lookup s key) (lookup r key) (lookup n key)
      (lookup (applyPatchEntries s patch) key) := by
  obtain ⟨hnodup, hall⟩ := isConfig_object_iff.mp hr
  obtain ⟨hnodup', hall'⟩ := isConfig_object_iff.mp hn
  have hblocked : ∀ key' ∈ patch.map Prod.fst, isBlockedObjectKey key' = false := by
    intro key' hkey'
    rcases mem_keys_of_createMergePatch hpatch hkey' with hmem | hmem
    · obtain ⟨entry, hentry, rfl⟩ := mem_map.mp hmem
      exact (hall entry hentry).1
    · obtain ⟨entry, hentry, rfl⟩ := mem_map.mp hmem
      exact (hall' entry hentry).1
  rw [lookup_applyPatchEntries (nodup_of_createMergePatch hpatch hnodup hnodup') hblocked]
  exact written_of_patched (patched_lookup hpatch hnodup key)
    fun v hlookup => (isConfig_of_lookup hn hlookup).2

/-! ## Equal documents have an empty patch -/

theorem patchBaseKeys_nil (h : ∀ entry ∈ r, ∃ value, lookup n entry.1 = some value ∧
    Alike entry.2 value ∧
      (entry.2.isObject = true → createMergePatch entry.2 value = some (.object []))) :
    patchBaseKeys r n = some [] := by
  induction r with
  | nil => rfl
  | cons entry r ih =>
    obtain ⟨key, baseValue⟩ := entry
    rw [forall_mem_cons] at h
    obtain ⟨⟨value, hlookup, halike, hchild⟩, hrest⟩ := h
    have hproperty : getProperty n key = some (.own value) := by
      unfold getProperty
      rw [hlookup]
    rw [patchBaseKeys, hproperty]
    dsimp only
    by_cases hobjects : (baseValue.isObject && value.isObject) = true
    · rw [if_pos hobjects, hchild (Bool.and_eq_true _ _ ▸ hobjects).1, ih hrest]
      rfl
    · have hequal : isDeepStrictEqual baseValue value = true := halike
      rw [if_neg hobjects, if_pos hequal, ih hrest]

theorem patch_nil_of_alike {value' : Json} (hvalue : value.isDocument = true)
    (hvalue' : value'.isDocument = true) (hobject : value.isObject = true)
    (h : Alike value value') : createMergePatch value value' = some (.object []) := by
  induction value using inductionOn generalizing value' with
  | leaf value _ hne =>
    rw [isObject_false_of_ne hne] at hobject
    cases hobject
  | array items _ => cases hobject
  | object entries ih =>
    obtain ⟨entries', rfl⟩ := exists_object_of_alike h
    have hkeys := (alike_object_iff (isDocument_object_iff.mp hvalue).1
      (isDocument_object_iff.mp hvalue').1).mp h
    have hown : patchBaseKeys entries entries' = some [] := by
      apply patchBaseKeys_nil
      intro entry hentry
      have hlookup := lookup_of_mem (isDocument_object_iff.mp hvalue).1 hentry
      have hkey := hkeys entry.1
      rw [hlookup] at hkey
      obtain ⟨child, hchild, halike⟩ := exists_of_rel_some hkey
      exact ⟨child, hchild, halike, fun hobject' => ih entry hentry
        (isDocument_of_lookup hvalue hlookup) (isDocument_of_lookup hvalue' hchild) hobject' halike⟩
    have hadded : addedKeys entries entries' = [] := by
      apply filter_eq_nil_iff.mpr
      intro entry hentry hnone
      have hsome := isSome_eq_of_rel (hkeys entry.1)
      rw [lookup_of_mem (isDocument_object_iff.mp hvalue').1 hentry] at hsome
      rw [Option.isNone_iff_eq_none.mp hnone] at hsome
      cases hsome
    rw [createMergePatch, hown, hadded]
    rfl

theorem alike_of_patch_nil {value' : Json} (hvalue : value.isDocument = true)
    (hvalue' : value'.isDocument = true) (hobject : value.isObject = true)
    (hobject' : value'.isObject = true)
    (h : createMergePatch value value' = some (.object [])) : Alike value value' := by
  induction value using inductionOn generalizing value' with
  | leaf value _ hne =>
    rw [isObject_false_of_ne hne] at hobject
    cases hobject
  | array items _ => cases hobject
  | object entries ih =>
    obtain ⟨entries', rfl⟩ := isObject_iff.mp hobject'
    have hnodup := (isDocument_object_iff.mp hvalue).1
    rw [alike_object_iff hnodup (isDocument_object_iff.mp hvalue').1]
    intro key
    have hpatched := patched_lookup h hnodup key
    rw [lookup_nil] at hpatched
    generalize hpatch : (none : Option Json) = patched at hpatched
    generalize hbase : lookup entries key = value at hpatched
    generalize htarget : lookup entries' key = value' at hpatched
    cases hpatched with
    | absent => exact .none
    | added targetValue => cases hpatch
    | removed baseValue _ => cases hpatch
    | @child baseValue targetValue childPatch hbase' htarget' hchild =>
      have hempty : childPatch = .object [] := by
        cases childPatch with
        | object entries =>
          cases entries with
          | nil => rfl
          | cons _ _ => cases hpatch
        | _ => cases hpatch
      rw [hempty] at hchild
      exact .some (ih _ (mem_of_lookup hbase) (isDocument_of_lookup hvalue hbase)
        (isDocument_of_lookup hvalue' htarget) hbase' htarget' hchild)
    | kept _ halike => exact .some halike
    | replaced _ _ => cases hpatch

/-! ## When there is a patch -/

/-- The caller removed no key whose name every object inherits. -/
def KeepsMethodNames (runtime next : Json) : Prop :=
  ∀ path r n, runtime.getAt path = some (.object r) → next.getAt path = some (.object n) →
    ∀ key ∈ objectPrototypeNames, (lookup r key).isSome = true → (lookup n key).isSome = true

theorem isSome_patchBaseKeys (h : ∀ entry ∈ r,
    (entry.1 ∈ objectPrototypeNames → (lookup n entry.1).isSome = true) ∧
      ∀ value, lookup n entry.1 = some value → (createMergePatch entry.2 value).isSome = true) :
    (patchBaseKeys r n).isSome = true := by
  induction r with
  | nil => rfl
  | cons entry r ih =>
    obtain ⟨key, baseValue⟩ := entry
    rw [forall_mem_cons] at h
    obtain ⟨⟨hname, hchild⟩, hrest⟩ := h
    obtain ⟨patch, hpatch⟩ := Option.isSome_iff_exists.mp (ih hrest)
    rw [patchBaseKeys, hpatch]
    unfold getProperty
    cases hlookup : lookup n key with
    | none =>
      have hnot : key ∉ objectPrototypeNames := by
        intro hmem
        have hsome := hname hmem
        rw [hlookup] at hsome
        cases hsome
      dsimp only
      rw [if_neg hnot]
      rfl
    | some value =>
      obtain ⟨childPatch, hchildPatch⟩ := Option.isSome_iff_exists.mp (hchild value hlookup)
      dsimp only at hchildPatch ⊢
      rw [hchildPatch]
      split_ifs <;> rfl

theorem isSome_createMergePatch (hruntime : runtime.isConfig = true)
    (h : KeepsMethodNames runtime next) : (createMergePatch runtime next).isSome = true := by
  induction runtime using inductionOn generalizing next with
  | leaf runtime _ hne =>
    rw [createMergePatch_leaf (by rw [isObject_false_of_ne hne]; rfl)]
    rfl
  | array items _ => rfl
  | object entries ih =>
    cases next with
    | object entries' =>
      have hown : (patchBaseKeys entries entries').isSome = true := by
        apply isSome_patchBaseKeys
        intro entry hentry
        have hlookup := lookup_of_mem (isConfig_object_iff.mp hruntime).1 hentry
        refine ⟨fun hname => h [] entries entries' rfl rfl entry.1 hname (by rw [hlookup]; rfl),
          fun value hvalue => ih entry hentry (isConfig_of_lookup hruntime hlookup).2 ?_⟩
        intro path r n hr hn
        apply h (entry.1 :: path) r n
        · rw [getAt_object, hlookup]
          exact hr
        · rw [getAt_object, hvalue]
          exact hn
      obtain ⟨patch, hpatch⟩ := Option.isSome_iff_exists.mp hown
      rw [createMergePatch, hpatch]
      rfl
    | _ => rfl

theorem keepsMethodNames_of_patch {patch : Json} (hruntime : runtime.isConfig = true)
    (h : createMergePatch runtime next = some patch) : KeepsMethodNames runtime next := by
  intro path
  induction path generalizing runtime next patch with
  | nil =>
    intro r n hr hn key hname hsome
    cases hr
    cases hn
    obtain ⟨own, _, rfl⟩ := createMergePatch_object h
    have hpatched := patched_lookup h (isConfig_object_iff.mp hruntime).1 key
    generalize lookup r key = value at hpatched hsome
    generalize lookup n key = value' at hpatched ⊢
    generalize lookup (own ++ addedKeys r n) key = patched at hpatched
    cases hpatched with
    | absent => cases hsome
    | removed _ hnot => exact absurd hname hnot
    | _ => rfl
  | cons first path ih =>
    intro r n hr hn
    obtain ⟨entries, child, rfl, hlookup, hrest⟩ := exists_of_getAt_cons hr
    obtain ⟨entries', child', rfl, hlookup', hrest'⟩ := exists_of_getAt_cons hn
    obtain ⟨own, _, rfl⟩ := createMergePatch_object h
    have hpatched := patched_lookup h (isConfig_object_iff.mp hruntime).1 first
    rw [hlookup, hlookup'] at hpatched
    have hobject := isObject_of_getAt hrest
    have hobject' := isObject_of_getAt hrest'
    generalize lookup (own ++ addedKeys entries entries') first = patched at hpatched
    cases hpatched with
    | child _ _ hchild =>
      exact ih (isConfig_of_lookup hruntime hlookup).2 hchild r n hrest hrest'
    | kept hleaf _ =>
      rw [hobject, hobject'] at hleaf
      cases hleaf
    | replaced hleaf _ =>
      rw [hobject, hobject'] at hleaf
      cases hleaf

end OpenClaw
