import OpenClaw.Config.Write

/-!
# When a configuration write changes only what the caller changed

Path by path, the candidate is the source where the caller changed nothing and the caller's
value where he did. There are three exceptions: a name of `Object.prototype` that the caller
removed stops the write; an object that the caller put where there was none is merged into the
object that the source has there; and when nothing changed, a source that is no object is lost.
-/

namespace OpenClaw

open Json Option

variable {source runtime next patch : Json} {s r n : List (Str × Json)} {key first : Str}
  {path : List Str}

/-! ## The property -/

/-- The two are not both objects. -/
def Leaf (value value' : Option Json) : Prop :=
  ∀ v v', value = some v → value' = some v' → (v.isObject && v'.isObject) = false

/-- The candidate changes what the caller changed, and nothing else. -/
structure WritesOnlyChanges (source runtime next candidate : Json) : Prop where
  unprojected : Alike source runtime → Alike candidate next
  unchanged : Alike runtime next → Alike candidate source
  kept : ∀ path v v', runtime.getAt path = some v → next.getAt path = some v' →
    v.isObject = false → Alike v v' →
      Option.Rel Alike (candidate.getAt path) (source.getAt path)
  changed : ∀ path, Leaf (runtime.getAt path) (next.getAt path) →
    ¬ Option.Rel Alike (runtime.getAt path) (next.getAt path) →
      Option.Rel Alike (candidate.getAt path) (next.getAt path)

/-- An object that the caller put where there was none has every key that the source has there. -/
def CoversSource (source runtime next : Json) : Prop :=
  ∀ path s n, source.getAt path = some (.object s) → next.getAt path = some (.object n) →
    (∀ r, runtime.getAt path ≠ some (.object r)) →
      ∀ key, (lookup s key).isSome = true → (lookup n key).isSome = true

/-- When the candidate changes only what the caller changed. -/
structure WritesCleanly (source runtime next : Json) : Prop where
  names : KeepsMethodNames runtime next
  covers : CoversSource source runtime next
  root : Alike runtime next →
    (source.isObject && runtime.isObject) = true ∨ Alike source runtime

/-! ## The source as an object -/

theorem applyMergePatch_asObject (base patch : Json) :
    applyMergePatch (.object (asObject (some base))) patch = applyMergePatch base patch := by
  cases patch with
  | object entries =>
    rw [applyMergePatch, applyMergePatch]
    rfl
  | _ => rfl

theorem getAt_asObject_cons (value : Option Json) (key : Str) (path : List Str) :
    (Json.object (asObject value)).getAt (key :: path) = value.bind (getAt · (key :: path)) := by
  cases value with
  | none => rfl
  | some v => cases v <;> rfl

variable {value : Option Json}

theorem getAt_of_asObject (h : (Json.object (asObject value)).getAt path = some (.object s))
    (hkey : (lookup s key).isSome = true) : value.bind (getAt · path) = some (.object s) := by
  cases path with
  | cons first path =>
    rw [getAt_asObject_cons] at h
    exact h
  | nil =>
    cases value with
    | none =>
      cases h
      cases hkey
    | some v =>
      cases v with
      | object entries => exact h
      | _ =>
        cases h
        cases hkey

theorem getAt_cons (value : Json) (key : Str) (path : List Str) :
    value.getAt (key :: path) = (lookup (asObject (some value)) key).bind (getAt · path) := by
  cases value <;> rfl

/-- Inside a value that the caller replaced, runtime and next do not both have an object. -/
theorem not_object_of_leaf {child : Json}
    (hleaf : Leaf value (some child)) (hchild : child.getAt path = some (.object n))
    (r : List (Str × Json)) : value.bind (getAt · path) ≠ some (.object r) := by
  intro hvalue
  obtain ⟨v, rfl, hv⟩ := Option.bind_eq_some_iff.mp hvalue
  have hnot := hleaf v child rfl rfl
  rw [isObject_of_getAt hv, isObject_of_getAt hchild] at hnot
  cases hnot

/-- What the caller replaced hides what the source has there. -/
theorem replaced_alike {child : Json} (hs : (Json.object s).isConfig = true)
    (hchild : child.isConfig = true) (hcovers : CoversSource (.object s) (.object r) (.object n))
    (hlookup : lookup n first = some child) (hleaf : Leaf (lookup r first) (some child)) :
    Alike (applyMergePatch (.object (asObject (lookup s first))) child) child := by
  refine overlay_alike (isConfig_asObject_lookup hs first) hchild ?_
  intro path s' n' hs' hn' key hkey
  have hsource : (Json.object s).getAt (first :: path) = some (.object s') :=
    getAt_of_asObject hs' hkey
  have hnext : (Json.object n).getAt (first :: path) = some (.object n') := by
    rw [getAt_object, hlookup]
    exact hn'
  exact hcovers (first :: path) s' n' hsource hnext (not_object_of_leaf hleaf hn') key hkey

/-- The same at the root. -/
theorem replaced_alike_root (hs : (Json.object s).isConfig = true) (hnext : next.isConfig = true)
    (hcovers : CoversSource (.object s) runtime next)
    (hleaf : (runtime.isObject && next.isObject) = false) :
    Alike (applyMergePatch (.object s) next) next := by
  refine overlay_alike hs hnext ?_
  intro path s' n' hs' hn'
  apply hcovers path s' n' hs' hn'
  have hroot : Leaf (some runtime) (some next) := by
    intro v v' hv hv'
    cases hv
    cases hv'
    exact hleaf
  exact not_object_of_leaf hroot hn'

theorem CoversSource.asObject (h : CoversSource source runtime next) :
    CoversSource (.object (asObject (some source))) runtime next := by
  intro path s n hs hn hr key hkey
  exact h path s n (getAt_of_asObject hs hkey) hn hr key hkey

theorem CoversSource.child {value child : Json}
    (h : CoversSource (.object s) (.object r) (.object n)) (hvalue : lookup r first = some value)
    (hchild : lookup n first = some child) :
    CoversSource (.object (OpenClaw.asObject (lookup s first))) value child := by
  intro path s' n' hs' hn' hr' key hkey
  refine h (first :: path) s' n' (getAt_of_asObject hs' hkey) ?_ ?_ key hkey
  · rw [getAt_object, hchild]
    exact hn'
  · intro r' hr
    rw [getAt_object, hvalue] at hr
    exact hr' r' hr

/-! ## Nothing projected -/

theorem asObject_of_not_isObject {value : Json} (h : value.isObject = false) :
    asObject (some value) = [] := by
  cases value with
  | object entries => cases h
  | _ => rfl

theorem overlay_nil_alike {value : Json} (h : value.isConfig = true) :
    Alike (applyMergePatch (.object []) value) value := by
  refine overlay_alike isConfig_empty h ?_
  intro path s n hs _ key hkey
  cases path with
  | nil =>
    cases hs
    cases hkey
  | cons first path => cases hs

/-- Where the source has what runtime has, the caller's value has nothing to merge with. -/
theorem replaced_alike_of_same {current : Option Json} {child : Json}
    (hchild : child.isConfig = true) (hsame : Option.Rel Alike current value)
    (hleaf : Leaf value (some child)) :
    Alike (applyMergePatch (.object (asObject current)) child) child := by
  cases hobject : child.isObject with
  | false =>
    rw [applyMergePatch_leaf hobject]
    exact .refl hchild
  | true =>
    have hnil : asObject current = [] := by
      cases hsame with
      | none => rfl
      | @some v v' halike =>
        apply asObject_of_not_isObject
        have hnot := hleaf v' child rfl rfl
        rw [hobject, Bool.and_true] at hnot
        rw [isObject_eq_of_alike halike, hnot]
    rw [hnil]
    exact overlay_nil_alike hchild

theorem leaf_some {value value' : Json} (h : (value.isObject && value'.isObject) = false) :
    Leaf (some value) (some value') := by
  intro v v' hv hv'
  cases hv
  cases hv'
  exact h

theorem leaf_none (value : Option Json) : Leaf none value := by
  intro v v' hv
  cases hv

theorem alike_next_of_leaf (hnext : next.isConfig = true)
    (hleaf : (runtime.isObject && next.isObject) = false) (h : Alike source runtime)
    (hpatch : createMergePatch runtime next = some patch) :
    Alike (applyMergePatch source patch) next := by
  rw [createMergePatch_leaf hleaf] at hpatch
  rw [← some.inj hpatch, ← applyMergePatch_asObject]
  exact replaced_alike_of_same hnext (.some h) (leaf_some hleaf)

/-- Where the source is the runtime document, the candidate is the next one. -/
theorem alike_next_of_unprojected (hsource : source.isConfig = true)
    (hruntime : runtime.isConfig = true) (hnext : next.isConfig = true)
    (hpatch : createMergePatch runtime next = some patch) (h : Alike source runtime) :
    Alike (applyMergePatch source patch) next := by
  induction runtime using inductionOn generalizing source next patch with
  | leaf runtime _ hne =>
    apply alike_next_of_leaf hnext _ h hpatch
    rw [isObject_false_of_ne hne, Bool.false_and]
  | array items _ => exact alike_next_of_leaf hnext rfl h hpatch
  | object r ih =>
    cases hobject : next.isObject with
    | false =>
      apply alike_next_of_leaf hnext _ h hpatch
      rw [hobject, Bool.and_false]
    | true =>
      obtain ⟨n, rfl⟩ := isObject_iff.mp hobject
      have hsourceObject : source.isObject = true := isObject_eq_of_alike h
      obtain ⟨s, rfl⟩ := isObject_iff.mp hsourceObject
      obtain ⟨own, _, rfl⟩ := createMergePatch_object hpatch
      have hkeys := (alike_object_iff (isConfig_object_iff.mp hsource).1
        (isConfig_object_iff.mp hruntime).1).mp h
      show Alike (.object (applyPatchEntries s (own ++ addedKeys r n))) (.object n)
      rw [alike_object_iff (nodup_applyPatchEntries (isConfig_object_iff.mp hsource).1)
        (isConfig_object_iff.mp hnext).1]
      intro key
      have hsame := hkeys key
      have hwritten := written_lookup (s := s) hruntime hnext hpatch key
      have hcurrent := fun v (hv : lookup s key = some v) => (isConfig_of_lookup hsource hv).2
      have hvalue := fun v (hv : lookup r key = some v) => (isConfig_of_lookup hruntime hv).2
      have hchild := fun v (hv : lookup n key = some v) => (isConfig_of_lookup hnext hv).2
      have hentry := fun v (hv : lookup r key = some v) => @ih (key, v) (mem_of_lookup hv)
      generalize lookup (applyPatchEntries s (own ++ addedKeys r n)) key = written at hwritten ⊢
      generalize lookup s key = current at hwritten hsame hcurrent
      generalize lookup r key = value at hwritten hsame hvalue hentry
      generalize lookup n key = nextValue at hwritten hchild ⊢
      cases hwritten with
      | absent => exact hsame
      | @added nextValue =>
        exact .some (replaced_alike_of_same (hchild _ rfl) hsame (leaf_none _))
      | removed _ => exact .none
      | @same value nextValue hobject hobject' hnil =>
        have halike := alike_of_patch_nil (isDocument_of_isConfig (hvalue _ rfl))
          (isDocument_of_isConfig (hchild _ rfl)) hobject hobject' hnil
        cases hsame with
        | some hsame =>
          exact .some (hsame.trans halike (hcurrent _ rfl) (hvalue _ rfl) (hchild _ rfl))
      | @merged value nextValue patch hobject hobject' hmerged _ =>
        cases hsame with
        | some hsame =>
          rw [applyMergePatch_asObject]
          exact .some (hentry _ rfl (hcurrent _ rfl) (hvalue _ rfl) (hchild _ rfl) hmerged hsame)
      | kept _ halike =>
        cases hsame with
        | some hsame =>
          exact .some (hsame.trans halike (hcurrent _ rfl) (hvalue _ rfl) (hchild _ rfl))
      | replaced hleaf _ =>
        exact .some (replaced_alike_of_same (hchild _ rfl) hsame (leaf_some hleaf))

/-- A patch is the difference of two configurations. -/
theorem createMergePatch_difference (hruntime : runtime.isConfig = true)
    (hnext : next.isConfig = true) (hpatch : createMergePatch runtime next = some patch) :
    Alike (applyMergePatch runtime patch) next ∧ (runtime.isObject = true →
      next.isObject = true → (patch = .object [] ↔ Alike runtime next)) := by
  have hbase := isDocument_of_isConfig hruntime
  have htarget := isDocument_of_isConfig hnext
  refine ⟨alike_next_of_unprojected hruntime hruntime hnext hpatch (.refl hruntime), ?_⟩
  intro hobject hobject'
  constructor
  · intro hnil
    exact alike_of_patch_nil hbase htarget hobject hobject' (hnil ▸ hpatch)
  · intro h
    exact some.inj (hpatch.symm.trans (patch_nil_of_alike hbase htarget hobject h))

theorem createMergePatch_difference_port :
    Alike (applyMergePatch (.object [("port".toList, .number "1".toList)])
      (.object [("port".toList, .number "2".toList)])) (.object [("port".toList, .number "2".toList)]) :=
  (createMergePatch_difference (by decide) (by decide) rfl).1

/-! ## What the caller kept and what he changed -/

theorem rel_refl_getAt (h : ∀ v, value = some v → v.isConfig = true) (path : List Str) :
    Option.Rel Alike (value.bind (getAt · path)) (value.bind (getAt · path)) := by
  cases hvalue : value.bind (getAt · path) with
  | none => exact .none
  | some v =>
    obtain ⟨v', hv', hpath⟩ := Option.bind_eq_some_iff.mp hvalue
    exact .some (.refl (isConfig_of_getAt (h v' hv') hpath))

/-- The first step of a path into the candidate. -/
theorem exists_written (hruntime : (Json.object r).isConfig = true)
    (hnext : (Json.object n).isConfig = true)
    (hpatch : createMergePatch (.object r) (.object n) = some patch) (first : Str) :
    ∃ written, Written first (lookup (asObject (some source)) first) (lookup r first)
        (lookup n first) written ∧
      ∀ path, (applyMergePatch source patch).getAt (first :: path) =
        written.bind (getAt · path) := by
  obtain ⟨own, _, rfl⟩ := createMergePatch_object hpatch
  exact ⟨_, written_lookup hruntime hnext hpatch first, fun _ => rfl⟩

theorem isConfig_current (hsource : source.isConfig = true) (first : Str) :
    ∀ v, lookup (asObject (some source)) first = some v → v.isConfig = true := by
  have hs := @isConfig_asObject (some source) fun _ h => some.inj h ▸ hsource
  exact fun _ hlookup => (isConfig_of_lookup hs hlookup).2

/-- Below the root, the candidate keeps what the caller kept. -/
theorem getAt_kept {v v' : Json} (hsource : source.isConfig = true)
    (hruntime : runtime.isConfig = true) (hnext : next.isConfig = true)
    (hpatch : createMergePatch runtime next = some patch) (hne : path ≠ [])
    (hv : runtime.getAt path = some v) (hv' : next.getAt path = some v')
    (hobject : v.isObject = false) (halike : Alike v v') :
    Option.Rel Alike ((applyMergePatch source patch).getAt path) (source.getAt path) := by
  induction path generalizing source runtime next patch with
  | nil => exact absurd rfl hne
  | cons first path ih =>
    obtain ⟨r, value, rfl, hlookup, hvalue⟩ := exists_of_getAt_cons hv
    obtain ⟨n, nextValue, rfl, hlookup', hnextValue⟩ := exists_of_getAt_cons hv'
    obtain ⟨written, hwritten, hcandidate⟩ :=
      @exists_written source _ _ _ hruntime hnext hpatch first
    have hcurrent := rel_refl_getAt (isConfig_current hsource first) path
    rw [hcandidate path, getAt_cons source]
    rw [hlookup, hlookup'] at hwritten
    cases hwritten with
    | same _ _ _ => exact hcurrent
    | kept _ _ => exact hcurrent
    | merged hvalueObject _ hmerged _ =>
      cases path with
      | nil =>
        cases hvalue
        rw [hobject] at hvalueObject
        cases hvalueObject
      | cons second path =>
        have hbelow := ih (isConfig_asObject (isConfig_current hsource first))
          (isConfig_of_lookup hruntime hlookup).2 (isConfig_of_lookup hnext hlookup').2 hmerged
          (List.cons_ne_nil second path) hvalue hnextValue
        rw [getAt_asObject_cons] at hbelow
        exact hbelow
    | replaced hleaf hdiffer =>
      cases path with
      | nil =>
        cases hvalue
        cases hnextValue
        exact absurd halike hdiffer
      | cons second path =>
        obtain ⟨_, _, rfl, _⟩ := exists_of_getAt_cons hvalue
        obtain ⟨_, _, rfl, _⟩ := exists_of_getAt_cons hnextValue
        cases hleaf

/-- The candidate has what the caller changed. -/
theorem getAt_changed (hsource : source.isConfig = true) (hruntime : runtime.isConfig = true)
    (hnext : next.isConfig = true) (hpatch : createMergePatch runtime next = some patch)
    (hcovers : CoversSource source runtime next)
    (hleaf : Leaf (runtime.getAt path) (next.getAt path))
    (hdiffer : ¬ Option.Rel Alike (runtime.getAt path) (next.getAt path)) :
    Option.Rel Alike ((applyMergePatch source patch).getAt path) (next.getAt path) := by
  have hconfig := @isConfig_asObject (some source) fun _ h => some.inj h ▸ hsource
  induction path generalizing source runtime next patch with
  | nil =>
    have hroot := hleaf runtime next rfl rfl
    rw [createMergePatch_leaf hroot] at hpatch
    rw [← some.inj hpatch, ← applyMergePatch_asObject]
    exact .some (replaced_alike_root hconfig hnext hcovers.asObject hroot)
  | cons first path ih =>
    cases hobjects : runtime.isObject && next.isObject with
    | false =>
      rw [createMergePatch_leaf hobjects] at hpatch
      rw [← some.inj hpatch, ← applyMergePatch_asObject]
      exact (replaced_alike_root hconfig hnext hcovers.asObject hobjects).getAt
        (isConfig_applyMergePatch hconfig hnext) hnext (first :: path)
    | true =>
      rw [Bool.and_eq_true] at hobjects
      obtain ⟨r, rfl⟩ := isObject_iff.mp hobjects.1
      obtain ⟨n, rfl⟩ := isObject_iff.mp hobjects.2
      obtain ⟨written, hwritten, hcandidate⟩ :=
        @exists_written source _ _ _ hruntime hnext hpatch first
      have hchildConfig := fun v (h : lookup n first = some v) => (isConfig_of_lookup hnext h).2
      have hvalueConfig := fun v (h : lookup r first = some v) => (isConfig_of_lookup hruntime h).2
      have hcurrent := isConfig_asObject (isConfig_current hsource first)
      rw [hcandidate path, getAt_object]
      rw [getAt_object, getAt_object] at hleaf hdiffer
      have hreplaced : ∀ child, lookup n first = some child → Leaf (lookup r first) (some child) →
          Option.Rel Alike ((applyMergePatch (.object
            (asObject (lookup (asObject (some source)) first))) child).getAt path)
            (child.getAt path) := by
        intro child hchild hleafChild
        exact (replaced_alike hconfig (hchildConfig child hchild) hcovers.asObject hchild
          hleafChild).getAt (isConfig_applyMergePatch hcurrent (hchildConfig child hchild))
          (hchildConfig child hchild) path
      have hbelow : ∀ value child, lookup r first = some value → lookup n first = some child →
          CoversSource (.object (asObject (lookup (asObject (some source)) first))) value child :=
        fun value child hvalue hchild => hcovers.asObject.child hvalue hchild
      generalize lookup r first = value at *
      generalize lookup n first = nextValue at *
      cases hwritten with
      | absent => exact absurd .none hdiffer
      | added => exact hreplaced _ rfl (leaf_none _)
      | removed _ => exact .none
      | same hobject hobject' hnil =>
        have halike := alike_of_patch_nil (isDocument_of_isConfig (hvalueConfig _ rfl))
          (isDocument_of_isConfig (hchildConfig _ rfl)) hobject hobject' hnil
        exact absurd (halike.getAt (hvalueConfig _ rfl) (hchildConfig _ rfl) path) hdiffer
      | merged _ _ hmerged _ =>
        exact ih hcurrent (hvalueConfig _ rfl) (hchildConfig _ rfl) hmerged (hbelow _ _ rfl rfl)
          hleaf hdiffer hcurrent
      | kept _ halike =>
        exact absurd (halike.getAt (hvalueConfig _ rfl) (hchildConfig _ rfl) path) hdiffer
      | replaced hleafChild _ => exact hreplaced _ rfl (leaf_some hleafChild)

/-! ## What stays behind under a new object -/

section

variable (hruntime : runtime.isConfig = true)
  (hnext : next.isConfig = true)
  (hpatch : createMergePatch runtime next = some patch)
include hruntime hnext hpatch

/-- A key of the source that the caller's new object lacks stays in the candidate. -/
theorem exists_left_behind
    (hs : source.getAt path = some (.object s)) (hn : next.getAt path = some (.object n))
    (hr : ∀ r, runtime.getAt path ≠ some (.object r)) (hkey : (lookup s key).isSome = true)
    (hlacks : lookup n key = none) :
    ∃ p, (applyMergePatch source patch).getAt path = some (.object p) ∧
      (lookup p key).isSome = true := by
  have hoverlay : ∀ {s n : List (Str × Json)}, (Json.object n).isConfig = true →
      (lookup s key).isSome = true → lookup n key = none →
        (lookup (applyPatchEntries s n) key).isSome = true := by
    intro s n hconfig hkey hlacks
    rw [lookup_overlay hconfig, hlacks]
    exact hkey
  have hconfig := isConfig_of_getAt hnext hn
  induction path generalizing source runtime next patch with
  | nil =>
    have hleaf : (runtime.isObject && next.isObject) = false := by
      cases hobject : runtime.isObject with
      | false => rfl
      | true =>
        obtain ⟨r, rfl⟩ := isObject_iff.mp hobject
        exact absurd rfl (hr r)
    rw [createMergePatch_leaf hleaf] at hpatch
    rw [← some.inj hpatch]
    exact ⟨_, getAt_overlay hnext hs hn, hoverlay hconfig hkey hlacks⟩
  | cons first path ih =>
    cases hobjects : runtime.isObject && next.isObject with
    | false =>
      rw [createMergePatch_leaf hobjects] at hpatch
      rw [← some.inj hpatch]
      exact ⟨_, getAt_overlay hnext hs hn, hoverlay hconfig hkey hlacks⟩
    | true =>
      rw [Bool.and_eq_true] at hobjects
      obtain ⟨r, rfl⟩ := isObject_iff.mp hobjects.1
      obtain ⟨entries, value, rfl, hlookup, hvalue⟩ := exists_of_getAt_cons hs
      obtain ⟨entries', child, rfl, hlookup', hchild⟩ := exists_of_getAt_cons hn
      obtain ⟨inner, rfl⟩ := isObject_iff.mp (isObject_of_getAt hvalue)
      have hchildObject := isObject_of_getAt hchild
      have hchildConfig := (isConfig_of_lookup hnext hlookup').2
      obtain ⟨written, hwritten, hcandidate⟩ :=
        @exists_written (.object entries) _ _ _ hruntime hnext hpatch first
      have hvalueConfig := fun v (h : lookup r first = some v) => (isConfig_of_lookup hruntime h).2
      rw [hcandidate path]
      simp only [getAt_object] at hr
      have hcurrent : lookup (asObject (some (Json.object entries))) first =
        some (.object inner) := hlookup
      rw [hcurrent, hlookup'] at hwritten
      generalize lookup r first = runtimeValue at *
      cases hwritten with
      | added => exact ⟨_, getAt_overlay hchildConfig hvalue hchild, hoverlay hconfig hkey hlacks⟩
      | same _ _ _ => exact ⟨s, hvalue, hkey⟩
      | merged _ _ hmerged _ =>
        exact ih (hvalueConfig _ rfl) hchildConfig hmerged hvalue hchild hr
      | kept _ _ => exact ⟨s, hvalue, hkey⟩
      | replaced _ _ =>
        exact ⟨_, getAt_overlay hchildConfig hvalue hchild, hoverlay hconfig hkey hlacks⟩

theorem coversSource_of_changed (h : ∀ path, Leaf (runtime.getAt path) (next.getAt path) →
      ¬ Option.Rel Alike (runtime.getAt path) (next.getAt path) →
        Option.Rel Alike ((applyMergePatch source patch).getAt path) (next.getAt path)) :
    CoversSource source runtime next := by
  intro path s n hs hn hr key hkey
  by_contra hlacks
  have hnone : lookup n key = none := Option.not_isSome_iff_eq_none.mp hlacks
  obtain ⟨p, hp, hstays⟩ := exists_left_behind hruntime hnext hpatch hs hn hr hkey hnone
  have hleaf : Leaf (runtime.getAt path) (next.getAt path) := by
    intro v v' hv _
    cases hobject : v.isObject with
    | false => rfl
    | true =>
      obtain ⟨r, rfl⟩ := isObject_iff.mp hobject
      exact absurd hv (hr r)
  have hdiffer : ¬ Option.Rel Alike (runtime.getAt path) (next.getAt path) := by
    rw [hn]
    intro hrel
    generalize hv : runtime.getAt path = value at hrel
    cases hrel with
    | some halike =>
      obtain ⟨r, rfl⟩ := isObject_iff.mp ((isObject_eq_of_alike halike).trans rfl)
      exact hr r hv
  have hsame := h path hleaf hdiffer
  rw [hp, hn] at hsame
  obtain ⟨_, hinj, halike⟩ := exists_of_rel_some hsame
  cases hinj
  exact hlacks (isSome_of_alike halike hstays)

end

/-! ## Nothing changed -/

section

variable (hsource : source.isConfig = true)
  (hruntime : runtime.isConfig = true)
  (hnext : next.isConfig = true)
include hsource hruntime hnext

theorem alike_source_of_unchanged
    (hpatch : createMergePatch runtime next = some patch) (h : Alike runtime next) :
    Alike (applyMergePatch source patch) source ↔
      (source.isObject && runtime.isObject) = true ∨ Alike source runtime := by
  cases hobject : runtime.isObject with
  | false =>
    have hnot : next.isObject = false := (isObject_eq_of_alike h).symm.trans hobject
    rw [createMergePatch_leaf (by rw [hobject]; rfl)] at hpatch
    rw [← some.inj hpatch, applyMergePatch_leaf hnot, Bool.and_false]
    constructor
    · intro hsame
      exact .inr ((h.trans hsame hruntime hnext hsource).symm hruntime hsource)
    · rintro (hfalse | hsame)
      · cases hfalse
      · exact (hsame.trans h hsource hruntime hnext).symm hsource hnext
  | true =>
    have hnil := patch_nil_of_alike (isDocument_of_isConfig hruntime)
      (isDocument_of_isConfig hnext) hobject h
    rw [hpatch] at hnil
    rw [some.inj hnil, Bool.and_true]
    show Alike (.object (applyPatchEntries (asObject (some source)) [])) source ↔ _
    rw [applyPatchEntries]
    constructor
    · intro hsame
      exact .inl (isObject_eq_of_alike hsame).symm
    · intro hroot
      have hsourceObject : source.isObject = true := by
        rcases hroot with hsourceObject | hsame
        · exact hsourceObject
        · exact (isObject_eq_of_alike hsame).trans hobject
      obtain ⟨s, rfl⟩ := isObject_iff.mp hsourceObject
      exact .refl hsource

/-! ## The result -/

/-- A write goes through and changes only what the caller changed exactly when it is clean. -/
theorem exists_writesOnlyChanges_iff :
    (∃ candidate, persistCandidate source runtime next = some candidate ∧
      WritesOnlyChanges source runtime next candidate) ↔ WritesCleanly source runtime next := by
  have hcandidate : persistCandidate source runtime next =
      (createMergePatch runtime next).map (applyMergePatch source) := by
    rw [persistCandidate, projectSourceOntoRuntimeShape_eq]
  rw [hcandidate]
  constructor
  · rintro ⟨candidate, hsome, hwrites⟩
    obtain ⟨patch, hpatch, rfl⟩ := Option.map_eq_some_iff.mp hsome
    exact
      { names := keepsMethodNames_of_patch hruntime hpatch
        covers := coversSource_of_changed hruntime hnext hpatch hwrites.changed
        root := fun h => (alike_source_of_unchanged hsource hruntime hnext hpatch h).mp
          (hwrites.unchanged h) }
  · intro hclean
    obtain ⟨patch, hpatch⟩ :=
      Option.isSome_iff_exists.mp (isSome_createMergePatch hruntime hclean.names)
    refine ⟨applyMergePatch source patch, by rw [hpatch]; rfl, ?_⟩
    have hunchanged := fun h =>
      (alike_source_of_unchanged hsource hruntime hnext hpatch h).mpr (hclean.root h)
    exact
      { unprojected := alike_next_of_unprojected hsource hruntime hnext hpatch
        unchanged := hunchanged
        kept := by
          intro path v v' hv hv' hobject halike
          by_cases hne : path = []
          · subst hne
            cases hv
            cases hv'
            exact .some (hunchanged halike)
          · exact getAt_kept hsource hruntime hnext hpatch hne hv hv' hobject halike
        changed := fun path hleaf hdiffer =>
          getAt_changed hsource hruntime hnext hpatch hclean.covers hleaf hdiffer }

end

/-- The caller changes a URL beside a default that is not in the file. -/
theorem exists_writesOnlyChanges_iff_provider :
    let source := Json.object [("models".toList, .object [("url".toList, .string "a".toList)])]
    let runtime := Json.object [("models".toList, .object [("url".toList, .string "a".toList),
      ("mode".toList, .string "merge".toList)])]
    let next := Json.object [("models".toList, .object [("url".toList, .string "b".toList),
      ("mode".toList, .string "merge".toList)])]
    (∃ candidate, persistCandidate source runtime next = some candidate ∧
      WritesOnlyChanges source runtime next candidate) ↔ WritesCleanly source runtime next :=
  exists_writesOnlyChanges_iff (by decide) (by decide) (by decide)

/-- Removing a key called `toString` stops the write, and an object that replaces a number of the
runtime document is merged into the object that the source has there. -/
theorem exists_writes_more : (persistCandidate (.object [("toString".toList, .bool true)])
      (.object [("toString".toList, .bool true)]) (.object [])).isNone = true ∧
    ∃ candidate, persistCandidate
        (.object [("a".toList, .object [("y".toList, .number "2".toList)])])
        (.object [("a".toList, .number "1".toList)])
        (.object [("a".toList, .object [("x".toList, .number "1".toList)])]) = some candidate ∧
      ¬ WritesOnlyChanges
        (.object [("a".toList, .object [("y".toList, .number "2".toList)])])
        (.object [("a".toList, .number "1".toList)])
        (.object [("a".toList, .object [("x".toList, .number "1".toList)])]) candidate := by
  refine ⟨by decide, .object [("a".toList, .object [("y".toList, .number "2".toList),
    ("x".toList, .number "1".toList)])], rfl, fun hwrites => ?_⟩
  have hchanged := hwrites.changed ["a".toList]
    (fun v v' hv _ => by
      cases hv
      rfl)
    (fun hrel => by
      cases hrel with
      | some halike => exact absurd halike (by decide))
  cases hchanged with
  | some halike => exact nomatch halike

end OpenClaw
