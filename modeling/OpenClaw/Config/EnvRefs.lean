import OpenClaw.Config.Place

/-!
# References to environment variables in a configuration write

`collectChangedPaths` and `restoreEnvRefsFromMap` of `io.write-prepare.ts`. Both name a place by
a text, and `parentPath` cuts the last part off such a text, which is the place above only if no
key has a dot or a bracket in it. A key that only the prototype has is as absent for
`collectChangedPaths`: the method is equal to no parsed value.
-/

namespace OpenClaw

open Json List

/-! ## Paths as texts -/

variable (path : Str)

/-- The path of a value inside the value with the path. -/
def childPath : PlaceStep → Str
  | .key key => if path = [] then key else path ++ '.' :: key
  | .index index => path ++ '[' :: ((Nat.repr index).toList ++ [']'])

/-- The path of a place below the value with the path. -/
def pathText (place : Place) : Str := place.foldl childPath path

/-- `value.slice(0, value.lastIndexOf(c))`, or nothing where there is no `c`. -/
def sliceBeforeLast (c : Char) (value : Str) : Str :=
  match value.reverse.dropWhile (· ≠ c) with
  | [] => []
  | _ :: rest => rest.reverse

def parentPath (value : Str) : Str :=
  if value.getLast? = some ']' then sliceBeforeLast '[' value else sliceBeforeLast '.' value

/-- The texts that `isPathChanged` asks for: the path, what `parentPath` leaves of it, and the
empty path. -/
def askedPaths : Nat → Str → List Str
  | 0, _ => [[]]
  | fuel + 1, current =>
    if current = [] then [[]] else current :: askedPaths fuel (parentPath current)

def isPathChanged (changedPaths : List Str) : Bool :=
  (askedPaths path.length path).any (· ∈ changedPaths)

/-! ## Collecting the changes -/

mutual

def collectChangedPaths : Json → Json → Str → List Str
  | .array base, .array target, path => collectChangedItems base target path 0
  | .object base, .object target, path =>
    collectChangedKeys base target path ++
      (target.filter fun entry => (lookup base entry.1).isNone).map
        fun entry => childPath path (.key entry.1)
  | base, target, path => if isDeepStrictEqual base target then [] else [path]

def collectChangedItems : List Json → List Json → Str → Nat → List Str
  | [], target, path, index =>
    (List.range target.length).map fun offset => childPath path (.index (index + offset))
  | _ :: base, [], path, index =>
    childPath path (.index index) :: collectChangedItems base [] path (index + 1)
  | value :: base, value' :: target, path, index =>
    collectChangedPaths value value' (childPath path (.index index)) ++
      collectChangedItems base target path (index + 1)

/-- The part for the keys of the base. -/
def collectChangedKeys : List (Str × Json) → List (Str × Json) → Str → List Str
  | [], _, _ => []
  | (key, value) :: base, target, path =>
    (match lookup target key with
    | some value' => collectChangedPaths value value' (childPath path (.key key))
    | none => [childPath path (.key key)]) ++ collectChangedKeys base target path

end

/-! ## Restoring the references -/

mutual

def restoreEnvRefsFromMap (envRefMap : Str → Option Str) (changedPaths : List Str) :
    Json → Str → Json
  | .string value, path =>
    if isPathChanged path changedPaths then .string value
    else
      match envRefMap path with
      | some original => .string original
      | none => .string value
  | .array items, path => .array (restoreItems envRefMap changedPaths items path 0)
  | .object entries, path => .object (restoreEntries envRefMap changedPaths entries path)
  | value, _ => value

def restoreItems (envRefMap : Str → Option Str) (changedPaths : List Str) :
    List Json → Str → Nat → List Json
  | [], _, _ => []
  | item :: items, path, index =>
    restoreEnvRefsFromMap envRefMap changedPaths item (childPath path (.index index)) ::
      restoreItems envRefMap changedPaths items path (index + 1)

def restoreEntries (envRefMap : Str → Option Str) (changedPaths : List Str) :
    List (Str × Json) → Str → List (Str × Json)
  | [], _ => []
  | (key, child) :: entries, path =>
    (key, restoreEnvRefsFromMap envRefMap changedPaths child (childPath path (.key key))) ::
      restoreEntries envRefMap changedPaths entries path

end

variable {envRefMap : Str → Option Str} {changedPaths : List Str}

/-! ## The changed places -/

/-- Both are arrays, or both are objects. -/
def sameContainer : Json → Json → Bool
  | .array _, .array _ => true
  | .object _, .object _ => true
  | _, _ => false

/-- The place was added, removed or changed, and no place above it was. -/
def ChangedPlace (base target : Json) : Place → Prop
  | [] => sameContainer base target = false ∧ ¬ Alike base target
  | step :: place =>
    match base.child step, target.child step with
    | some value, some value' => ChangedPlace value value' place
    | none, none => False
    | _, _ => sameContainer base target = true ∧ place = []

/-- The rest of a place leads to a change from these values, of which one may be missing. -/
def ChangedBelow : Option Json → Option Json → Place → Prop
  | some value, some value', place => ChangedPlace value value' place
  | none, none, _ => False
  | _, _, place => place = []

variable {index : Nat} {place : Place} {base target value : Json} {step : PlaceStep}
  {path text : Str} {c : Char}

theorem changedPlace_array {base target : List Json} :
    ChangedPlace (.array base) (.array target) (.index index :: place) ↔
      ChangedBelow base[index]? target[index]? place := by
  show (match base[index]?, target[index]? with
    | some value, some value' => ChangedPlace value value' place
    | none, none => False
    | _, _ => sameContainer (.array base) (.array target) = true ∧ place = []) ↔ _
  cases base[index]? <;> cases target[index]? <;> simp [ChangedBelow, sameContainer]

theorem changedPlace_object {base target : List (Str × Json)} {key : Str} :
    ChangedPlace (.object base) (.object target) (.key key :: place) ↔
      ChangedBelow (lookup base key) (lookup target key) place := by
  show (match lookup base key, lookup target key with
    | some value, some value' => ChangedPlace value value' place
    | none, none => False
    | _, _ => sameContainer (.object base) (.object target) = true ∧ place = []) ↔ _
  cases lookup base key <;> cases lookup target key <;> simp [ChangedBelow, sameContainer]

theorem sameContainer_of_child {value' : Json}
    (h : base.child step = some value) (h' : target.child step = some value') :
    sameContainer base target = true := by
  cases base <;> cases target <;> cases step <;> first | rfl | cases h | cases h'

theorem changedPlace_leaf (h : sameContainer base target = false) :
    ChangedPlace base target place ↔ place = [] ∧ ¬ Alike base target := by
  cases place with
  | nil => simp [ChangedPlace, h]
  | cons step place =>
    simp only [ChangedPlace, h]
    cases hvalue : base.child step with
    | none => cases target.child step <;> simp
    | some value =>
      cases hvalue' : target.child step with
      | none => simp
      | some value' =>
        rw [sameContainer_of_child hvalue hvalue'] at h
        cases h

/-- What `collectChangedPaths` finds in two arrays from an index on. -/
theorem mem_collectChangedItems {base target : List Json}
    (ih : ∀ value ∈ base, ∀ value' path, text ∈ collectChangedPaths value value' path ↔
      ∃ place, ChangedPlace value value' place ∧ text = pathText path place) :
    text ∈ collectChangedItems base target path index ↔
      ∃ offset place, ChangedBelow base[offset]? target[offset]? place ∧
        text = pathText (childPath path (.index (index + offset))) place := by
  induction base generalizing target index with
  | nil =>
    rw [collectChangedItems, mem_map]
    constructor
    · rintro ⟨offset, hoffset, rfl⟩
      refine ⟨offset, [], ?_, rfl⟩
      rw [getElem?_eq_getElem (mem_range.mp hoffset)]
      rfl
    · rintro ⟨offset, place, hchanged, rfl⟩
      cases hitem : target[offset]? with
      | none =>
        rw [hitem] at hchanged
        exact hchanged.elim
      | some value =>
        rw [hitem] at hchanged
        have hplace : place = [] := hchanged
        rw [hplace]
        exact ⟨offset, mem_range.mpr (List.getElem?_eq_some_iff.mp hitem).1, rfl⟩
  | cons value base ihbase =>
    rw [forall_mem_cons] at ih
    have hshift : ∀ offset, index + 1 + offset = index + (offset + 1) := by
      intro offset
      omega
    cases target with
    | nil =>
      rw [collectChangedItems, mem_cons, ihbase ih.2]
      constructor
      · rintro (rfl | ⟨offset, place, hchanged, rfl⟩)
        · exact ⟨0, [], rfl, rfl⟩
        · exact ⟨offset + 1, place, hchanged, by rw [hshift]⟩
      · rintro ⟨offset, place, hchanged, rfl⟩
        cases offset with
        | zero =>
          have hplace : place = [] := hchanged
          rw [hplace]
          exact .inl rfl
        | succ offset => exact .inr ⟨offset, place, hchanged, by rw [hshift]⟩
    | cons value' target =>
      rw [collectChangedItems, mem_append, ih.1, ihbase ih.2]
      constructor
      · rintro (⟨place, hchanged, rfl⟩ | ⟨offset, place, hchanged, rfl⟩)
        · exact ⟨0, place, hchanged, rfl⟩
        · exact ⟨offset + 1, place, hchanged, by rw [hshift]⟩
      · rintro ⟨offset, place, hchanged, rfl⟩
        cases offset with
        | zero => exact .inl ⟨place, hchanged, rfl⟩
        | succ offset => exact .inr ⟨offset, place, hchanged, by rw [hshift]⟩

/-- What it finds for the keys of the base. -/
theorem mem_collectChangedKeys {base target : List (Str × Json)}
    (hnodup : (base.map Prod.fst).Nodup)
    (ih : ∀ entry ∈ base, ∀ value' path, text ∈ collectChangedPaths entry.2 value' path ↔
      ∃ place, ChangedPlace entry.2 value' place ∧ text = pathText path place) :
    text ∈ collectChangedKeys base target path ↔
      ∃ key value place, lookup base key = some value ∧
        ChangedBelow (some value) (lookup target key) place ∧
          text = pathText (childPath path (.key key)) place := by
  have hentry : ∀ entry ∈ base, (text ∈ (match lookup target entry.1 with
      | some value' => collectChangedPaths entry.2 value' (childPath path (.key entry.1))
      | none => [childPath path (.key entry.1)])) ↔
      ∃ place, ChangedBelow (some entry.2) (lookup target entry.1) place ∧
        text = pathText (childPath path (.key entry.1)) place := by
    intro entry hmem
    cases lookup target entry.1 with
    | none =>
      rw [mem_singleton]
      constructor
      · rintro rfl
        exact ⟨[], rfl, rfl⟩
      · rintro ⟨place, hplace, rfl⟩
        have hnil : place = [] := hplace
        rw [hnil]
        rfl
    | some value' => exact ih entry hmem value' _
  have hall : text ∈ collectChangedKeys base target path ↔ ∃ entry ∈ base, ∃ place,
      ChangedBelow (some entry.2) (lookup target entry.1) place ∧
        text = pathText (childPath path (.key entry.1)) place := by
    clear ih hnodup
    induction base with
    | nil => simp [collectChangedKeys]
    | cons entry base ihbase =>
      rw [forall_mem_cons] at hentry
      rw [collectChangedKeys, mem_append, hentry.1, ihbase hentry.2, exists_mem_cons_iff]
  rw [hall]
  constructor
  · rintro ⟨entry, hmem, place, hchanged⟩
    exact ⟨entry.1, entry.2, place, lookup_of_mem hnodup hmem, hchanged⟩
  · rintro ⟨key, value, place, hlookup, hchanged⟩
    exact ⟨(key, value), mem_of_lookup hlookup, place, hchanged⟩

theorem mem_collectChangedPaths_leaf (hsame : sameContainer base target = false) :
    text ∈ collectChangedPaths base target path ↔
      ∃ place, ChangedPlace base target place ∧ text = pathText path place := by
  have heq : collectChangedPaths base target path =
      if isDeepStrictEqual base target then [] else [path] := by
    cases base <;> cases target <;> first | rfl | cases hsame
  rw [heq]
  by_cases hequal : isDeepStrictEqual base target = true
  · rw [if_pos hequal]
    simp [changedPlace_leaf hsame, Alike, hequal]
  · rw [if_neg hequal, mem_singleton]
    simp [changedPlace_leaf hsame, Alike, hequal, pathText]

/-- The collected paths are those of the changed places. -/
theorem mem_collectChangedPaths
    (hbase : base.isDocument = true) : text ∈ collectChangedPaths base target path ↔
      ∃ place, ChangedPlace base target place ∧ text = pathText path place := by
  induction base using inductionOn generalizing target path with
  | leaf base harray hobject =>
    apply mem_collectChangedPaths_leaf
    cases base with
    | array items => exact absurd rfl (harray items)
    | object entries => exact absurd rfl (hobject entries)
    | _ => cases target <;> rfl
  | array base ih =>
    cases target with
    | array target =>
      rw [collectChangedPaths, mem_collectChangedItems fun value hmem value' path =>
        ih value hmem (isDocument_array_iff.mp hbase value hmem)]
      constructor
      · rintro ⟨offset, place, hchanged, rfl⟩
        refine ⟨.index offset :: place, changedPlace_array.mpr hchanged, ?_⟩
        rw [Nat.zero_add]
        rfl
      · rintro ⟨place, hchanged, rfl⟩
        cases place with
        | nil => cases hchanged.1
        | cons step place =>
          cases step with
          | key key => exact hchanged.elim
          | index offset =>
            refine ⟨offset, place, changedPlace_array.mp hchanged, ?_⟩
            rw [Nat.zero_add]
            rfl
    | _ => exact mem_collectChangedPaths_leaf rfl
  | object base ih =>
    cases target with
    | object target =>
      obtain ⟨hnodup, hall⟩ := isDocument_object_iff.mp hbase
      rw [collectChangedPaths, mem_append, mem_collectChangedKeys hnodup
        fun entry hmem value' path => ih entry hmem (hall entry hmem).2, mem_map]
      constructor
      · rintro (⟨key, value, place, hlookup, hchanged, rfl⟩ | ⟨entry, hentry, rfl⟩)
        · refine ⟨.key key :: place, changedPlace_object.mpr ?_, rfl⟩
          rw [hlookup]
          exact hchanged
        · obtain ⟨hmem, hnone⟩ := mem_filter.mp hentry
          refine ⟨[.key entry.1], changedPlace_object.mpr ?_, rfl⟩
          have hsome : (lookup target entry.1).isSome = true :=
            lookup_isSome_iff.mpr (mem_map_of_mem (f := Prod.fst) hmem)
          obtain ⟨value', hvalue'⟩ := Option.isSome_iff_exists.mp hsome
          rw [Option.isNone_iff_eq_none.mp hnone, hvalue']
          rfl
      · rintro ⟨place, hchanged, rfl⟩
        cases place with
        | nil => cases hchanged.1
        | cons step place =>
          cases step with
          | index index => exact hchanged.elim
          | key key =>
            have hbelow := changedPlace_object.mp hchanged
            cases hlookup : lookup base key with
            | some value =>
              rw [hlookup] at hbelow
              exact .inl ⟨key, value, place, hlookup, hbelow, rfl⟩
            | none =>
              rw [hlookup] at hbelow
              cases hlookup' : lookup target key with
              | none =>
                rw [hlookup'] at hbelow
                exact hbelow.elim
              | some value' =>
                rw [hlookup'] at hbelow
                have hplace : place = [] := hbelow
                refine .inr ⟨(key, value'), mem_filter.mpr ⟨mem_of_lookup hlookup', ?_⟩, ?_⟩
                · rw [hlookup]
                  rfl
                · rw [hplace]
                  rfl
    | _ => exact mem_collectChangedPaths_leaf rfl

/-! ## What stays the same -/

theorem changedPlace_nil :
    ChangedPlace base target [] ↔ sameContainer base target = false ∧ ¬ Alike base target :=
  Iff.rfl

theorem changedPlace_cons {value' : Json}
    (h : target.child step = some value') : ChangedPlace base target (step :: place) ↔
      (∃ value, base.child step = some value ∧ ChangedPlace value value' place) ∨
        base.child step = none ∧ sameContainer base target = true ∧ place = [] := by
  rw [ChangedPlace, h]
  cases base.child step <;> simp

/-- A string is in the base as well exactly if neither it nor a place above it changed. -/
theorem exists_changedPlace_iff {s : Str} (h : target.atPlace place = some (.string s)) :
    (∃ above, above <+: place ∧ ChangedPlace base target above) ↔
      base.atPlace place ≠ some (.string s) := by
  induction place generalizing base target with
  | nil =>
    cases h
    simp only [prefix_nil, exists_eq_left, changedPlace_nil, atPlace_nil]
    cases base <;> simp [sameContainer, Alike, isDeepStrictEqual]
  | cons step place ih =>
    obtain ⟨value', hvalue', hrest⟩ := Option.bind_eq_some_iff.mp h
    have hcons : (∃ above, above <+: step :: place ∧ ChangedPlace base target above) ↔
        ChangedPlace base target [] ∨
          ∃ above, above <+: place ∧ ChangedPlace base target (step :: above) := by
      constructor
      · rintro ⟨above, hprefix, hchanged⟩
        cases above with
        | nil => exact .inl hchanged
        | cons first above =>
          obtain ⟨rfl, habove⟩ := cons_prefix_cons.mp hprefix
          exact .inr ⟨above, habove, hchanged⟩
      · rintro (hchanged | ⟨above, habove, hchanged⟩)
        · exact ⟨[], nil_prefix, hchanged⟩
        · exact ⟨step :: above, cons_prefix_cons.mpr ⟨rfl, habove⟩, hchanged⟩
    rw [hcons, atPlace_cons, changedPlace_nil]
    simp only [changedPlace_cons hvalue']
    cases hvalue : base.child step with
    | some value =>
      have hsame := sameContainer_of_child hvalue hvalue'
      simp only [hsame, Option.bind_some, Option.some.injEq, exists_eq_left', reduceCtorEq,
        false_and, or_false, false_or, Bool.true_eq_false]
      exact ih hrest
    | none =>
      simp only [Option.bind_none, reduceCtorEq, false_and, exists_false, false_or, true_and,
        ne_eq, not_false_eq_true, iff_true]
      cases hsame : sameContainer base target with
      | true => exact .inr ⟨[], nil_prefix, rfl, rfl⟩
      | false =>
        refine .inl ⟨rfl, fun halike => ?_⟩
        rcases child_eq_some hvalue' with ⟨entries, _, rfl, rfl, _⟩ | ⟨items, _, rfl, rfl, _⟩
        · cases base with
          | object entries' => cases hsame
          | _ => cases halike
        · cases base with
          | array items' => cases hsame
          | _ => cases halike

/-! ## What is restored -/

theorem restoreItems_getElem? (items : List Json) (path : Str) (index offset : Nat) :
    (restoreItems envRefMap changedPaths items path index)[offset]? =
      items[offset]?.map fun item => restoreEnvRefsFromMap envRefMap changedPaths item
        (childPath path (.index (index + offset))) := by
  induction items generalizing index offset with
  | nil => rfl
  | cons item items ih =>
    cases offset with
    | zero => rfl
    | succ offset =>
      have hshift : index + (offset + 1) = index + 1 + offset := by omega
      rw [hshift]
      exact ih (index + 1) offset

theorem lookup_restoreEntries (entries : List (Str × Json)) (path : Str) (key : Str) :
    lookup (restoreEntries envRefMap changedPaths entries path) key =
      (lookup entries key).map fun value =>
        restoreEnvRefsFromMap envRefMap changedPaths value (childPath path (.key key)) := by
  induction entries with
  | nil => rfl
  | cons entry entries ih =>
    rw [restoreEntries, lookup_cons, lookup_cons, ih]
    by_cases hkey : entry.1 = key
    · rw [if_pos hkey, if_pos hkey, ← hkey]
      rfl
    · rw [if_neg hkey, if_neg hkey]

theorem child_restoreEnvRefsFromMap {v : Json} (path : Str) (h : value.child step = some v) :
    (restoreEnvRefsFromMap envRefMap changedPaths value path).child step =
      some (restoreEnvRefsFromMap envRefMap changedPaths v (childPath path step)) := by
  rcases child_eq_some h with ⟨entries, key, rfl, rfl, hlookup⟩ | ⟨items, index, rfl, rfl, hitem⟩
  · rw [restoreEnvRefsFromMap]
    show lookup (restoreEntries envRefMap changedPaths entries path) key = _
    rw [lookup_restoreEntries, hlookup]
    rfl
  · rw [restoreEnvRefsFromMap]
    show (restoreItems envRefMap changedPaths items path 0)[index]? = _
    rw [restoreItems_getElem?, hitem, Nat.zero_add]
    rfl

/-- The value at a place is restored under the path of the place. -/
theorem atPlace_restoreEnvRefsFromMap {v : Json} (path : Str) (h : value.atPlace place = some v) :
    (restoreEnvRefsFromMap envRefMap changedPaths value path).atPlace place =
      some (restoreEnvRefsFromMap envRefMap changedPaths v (pathText path place)) := by
  induction place generalizing value path with
  | nil =>
    cases h
    rfl
  | cons step place ih =>
    obtain ⟨child, hchild, hrest⟩ := Option.bind_eq_some_iff.mp h
    rw [atPlace_cons, child_restoreEnvRefsFromMap path hchild]
    exact ih (childPath path step) hrest

/-! ## The result -/

/-- Strings that stayed the same become their references, and changed ones stay. -/
structure EnvRefsSurvive (envRefMap : Str → Option Str) (runtime next written : Json) : Prop where
  restored : ∀ place s original, next.atPlace place = some (.string s) →
    envRefMap (pathText [] place) = some original →
      (∀ above, above <+: place → ¬ ChangedPlace runtime next above) →
        written.atPlace place = some (.string original)
  kept : ∀ place s, next.atPlace place = some (.string s) →
    runtime.atPlace place ≠ some (.string s) → written.atPlace place = some (.string s)

/-- For every string with another text as its reference: one of the paths that are asked for is
the path of a changed place exactly if the place of the string or one above it changed. -/
def PathsTellPlaces (envRefMap : Str → Option Str) (runtime next : Json) : Prop :=
  ∀ place s original, next.atPlace place = some (.string s) →
    envRefMap (pathText [] place) = some original → original ≠ s →
      ((∃ changed, ChangedPlace runtime next changed ∧
          pathText [] changed ∈ askedPaths (pathText [] place).length (pathText [] place)) ↔
        ∃ above, above <+: place ∧ ChangedPlace runtime next above)

theorem isPathChanged_iff {runtime next : Json} (hruntime : runtime.isDocument = true)
    (path : Str) : isPathChanged path (collectChangedPaths runtime next []) = true ↔
      ∃ changed, ChangedPlace runtime next changed ∧
        pathText [] changed ∈ askedPaths path.length path := by
  rw [isPathChanged, any_eq_true]
  constructor
  · rintro ⟨text, hasked, hmem⟩
    obtain ⟨changed, hchanged, rfl⟩ := (mem_collectChangedPaths hruntime).mp (of_decide_eq_true hmem)
    exact ⟨changed, hchanged, hasked⟩
  · rintro ⟨changed, hchanged, hasked⟩
    exact ⟨_, hasked, decide_eq_true ((mem_collectChangedPaths hruntime).mpr ⟨changed, hchanged, rfl⟩)⟩

/-- The references survive a write exactly if the paths tell the places apart. -/
theorem envRefsSurvive_iff {runtime next : Json} (hruntime : runtime.isDocument = true) :
    EnvRefsSurvive envRefMap runtime next
        (restoreEnvRefsFromMap envRefMap (collectChangedPaths runtime next []) next []) ↔
      PathsTellPlaces envRefMap runtime next := by
  have hwritten : ∀ {place s}, next.atPlace place = some (.string s) →
      (restoreEnvRefsFromMap envRefMap (collectChangedPaths runtime next []) next []).atPlace place =
        some (if isPathChanged (pathText [] place) (collectChangedPaths runtime next []) = true
          then .string s else .string ((envRefMap (pathText [] place)).getD s)) := by
    intro place s h
    rw [atPlace_restoreEnvRefsFromMap [] h, restoreEnvRefsFromMap]
    cases envRefMap (pathText [] place) <;> rfl
  constructor
  · intro hsurvive place s original hs horiginal hne
    rw [← isPathChanged_iff hruntime]
    have hat := hwritten hs
    rw [horiginal] at hat
    constructor
    · intro hasked
      by_contra hnone
      have hrestored := hsurvive.restored place s original hs horiginal
        fun above habove hchanged => hnone ⟨above, habove, hchanged⟩
      rw [if_pos hasked, hrestored] at hat
      exact hne (Json.string.inj (Option.some.inj hat))
    · intro hchanged
      by_contra hasked
      have hkept := hsurvive.kept place s hs ((exists_changedPlace_iff hs).mp hchanged)
      rw [if_neg hasked, hkept] at hat
      exact hne (Json.string.inj (Option.some.inj hat)).symm
  · intro hpaths
    constructor
    · intro place s original hs horiginal hunchanged
      have hat := hwritten hs
      rw [horiginal] at hat
      by_cases hne : original = s
      · rw [hat, hne]
        split_ifs <;> rfl
      · have hnot : ¬ isPathChanged (pathText [] place) (collectChangedPaths runtime next []) = true := by
          rw [isPathChanged_iff hruntime, hpaths place s original hs horiginal hne]
          rintro ⟨above, habove, hchanged⟩
          exact hunchanged above habove hchanged
        rw [hat, if_neg hnot]
        rfl
    · intro place s hs hdiffer
      have hat := hwritten hs
      cases horiginal : envRefMap (pathText [] place) with
      | none =>
        rw [hat, horiginal]
        split_ifs <;> rfl
      | some original =>
        by_cases hne : original = s
        · rw [hat, horiginal, hne]
          split_ifs <;> rfl
        · have hasked := (hpaths place s original hs horiginal hne).mpr
            ((exists_changedPlace_iff hs).mpr hdiffer)
          rw [hat, if_pos ((isPathChanged_iff hruntime _).mpr hasked)]

/-- A port changes beside an API key. -/
theorem envRefsSurvive_iff_port : let runtime := Json.object [("port".toList, .number "1".toList),
      ("apiKey".toList, .string "secret".toList)]
    let next := Json.object [("port".toList, .number "2".toList),
      ("apiKey".toList, .string "secret".toList)]
    let envRefMap := fun path => if path = "apiKey".toList then some "${KEY}".toList else none
    EnvRefsSurvive envRefMap runtime next
        (restoreEnvRefsFromMap envRefMap (collectChangedPaths runtime next []) next []) ↔
      PathsTellPlaces envRefMap runtime next :=
  envRefsSurvive_iff (by decide)

/-- A change under `gpt-4` keeps the reference under `gpt-4.1` from being restored, and a new value
under a key that ends in a bracket is replaced by a reference. -/
theorem exists_envRefs_lost : (let runtime := Json.object [("gpt-4".toList, .string "a".toList),
        ("gpt-4.1".toList, .string "secret".toList)]
      let next := Json.object [("gpt-4".toList, .string "b".toList),
        ("gpt-4.1".toList, .string "secret".toList)]
      let envRefMap := fun path => if path = "gpt-4.1".toList then some "${KEY}".toList else none
      ¬ EnvRefsSurvive envRefMap runtime next
        (restoreEnvRefsFromMap envRefMap (collectChangedPaths runtime next []) next [])) ∧
    (let runtime := Json.object []
      let next := Json.object [("a".toList, .object [("x]".toList, .string "new".toList)])]
      let envRefMap := fun path => if path = "a.x]".toList then some "${KEY}".toList else none
      ¬ EnvRefsSurvive envRefMap runtime next
        (restoreEnvRefsFromMap envRefMap (collectChangedPaths runtime next []) next [])) := by
  constructor
  · intro runtime next envRefMap hsurvive
    have hs : next.atPlace [.key "gpt-4.1".toList] = some (.string "secret".toList) := rfl
    have hrestored := hsurvive.restored _ _ "${KEY}".toList hs rfl
      fun above habove hchanged => (exists_changedPlace_iff hs).mp ⟨above, habove, hchanged⟩ rfl
    have hsecret : (restoreEnvRefsFromMap envRefMap (collectChangedPaths runtime next []) next
      []).atPlace [.key "gpt-4.1".toList] = some (.string "secret".toList) := rfl
    rw [hsecret] at hrestored
    exact absurd (Json.string.inj (Option.some.inj hrestored)) (by decide)
  · intro runtime next envRefMap hsurvive
    have hs : next.atPlace [.key "a".toList, .key "x]".toList] = some (.string "new".toList) := rfl
    have hkept := hsurvive.kept _ _ hs (by simp [runtime, atPlace, Json.child])
    have hreplaced : (restoreEnvRefsFromMap envRefMap (collectChangedPaths runtime next []) next
      []).atPlace [.key "a".toList, .key "x]".toList] = some (.string "${KEY}".toList) := rfl
    rw [hreplaced] at hkept
    exact absurd (Json.string.inj (Option.some.inj hkept)) (by decide)

/-! ## Plain keys -/

/-- A step whose text ends where its own last separator stands. -/
def PlaceStep.Plain : PlaceStep → Prop
  | .key text => text ≠ [] ∧ '.' ∉ text ∧ '[' ∉ text ∧ ']' ∉ text
  | .index _ => True

theorem sliceBeforeLast_append {rest : Str} (h : c ∉ rest) (path : Str) :
    sliceBeforeLast c (path ++ c :: rest) = path := by
  have hdrop : (path ++ c :: rest).reverse.dropWhile (· ≠ c) = c :: path.reverse := by
    rw [reverse_append, reverse_cons, append_assoc, dropWhile_append_of_pos]
    · simp
    · intro c' hc'
      have hne : c' ≠ c := fun heq => h (heq ▸ mem_reverse.mp hc')
      simpa using hne
  rw [sliceBeforeLast, hdrop]
  exact reverse_reverse path

theorem sliceBeforeLast_of_notMem {value : Str} (h : c ∉ value) : sliceBeforeLast c value = [] := by
  have hdrop : value.reverse.dropWhile (· ≠ c) = [] := by
    rw [dropWhile_eq_nil_iff]
    intro c' hc'
    have hne : c' ≠ c := fun heq => h (heq ▸ mem_reverse.mp hc')
    simpa using hne
  rw [sliceBeforeLast, hdrop]

theorem notMem_repr (h : c.isDigit = false) (index : Nat) : c ∉ (Nat.repr index).toList := by
  intro hmem
  rw [Nat.toList_repr] at hmem
  have hdigit := Nat.isDigit_of_mem_toDigits (by omega) (by omega) hmem
  rw [h] at hdigit
  cases hdigit

theorem repr_injective {index' : Nat}
    (h : (Nat.repr index).toList = (Nat.repr index').toList) : index = index' := by
  rw [Nat.toList_repr, Nat.toList_repr] at h
  rw [← Nat.ofDigitChars_toDigits (b := 10) (n := index) (by decide) (by decide), h,
    Nat.ofDigitChars_toDigits (by decide) (by decide)]

theorem getLast?_childPath_key {key : Str} (h : key ≠ []) (path : Str) :
    (childPath path (.key key)).getLast? = key.getLast? := by
  rw [childPath]
  split_ifs with hpath
  · rfl
  · rw [getLast?_append, getLast?_cons]
    cases hlast : key.getLast? with
    | none => exact absurd (getLast?_eq_none_iff.mp hlast) h
    | some c => rfl

theorem getLast?_childPath_index (path : Str) (index : Nat) :
    (childPath path (.index index)).getLast? = some ']' := by
  rw [childPath, ← cons_append, ← append_assoc, getLast?_append]
  rfl

theorem parentPath_childPath (h : step.Plain) (path : Str) :
    parentPath (childPath path step) = path := by
  cases step with
  | key key =>
    obtain ⟨hne, hdot, hopen, hclose⟩ := h
    have hlast : (childPath path (.key key)).getLast? ≠ some ']' := by
      rw [getLast?_childPath_key hne]
      exact fun hsome => hclose (mem_of_getLast? hsome)
    rw [parentPath, if_neg hlast, childPath]
    split_ifs with hpath
    · rw [hpath, sliceBeforeLast_of_notMem hdot]
    · exact sliceBeforeLast_append hdot path
  | index index =>
    rw [parentPath, if_pos (getLast?_childPath_index path index), childPath]
    apply sliceBeforeLast_append
    rw [mem_append, mem_singleton]
    rintro (hmem | heq)
    · exact notMem_repr (by decide) index hmem
    · exact nomatch heq

theorem length_lt_childPath (h : step.Plain) (path : Str) :
    path.length < (childPath path step).length := by
  cases step with
  | key key =>
    rw [childPath]
    split_ifs with hpath
    · rw [hpath]
      exact length_pos_iff.mpr h.1
    · rw [length_append, length_cons]
      omega
  | index index =>
    rw [childPath, length_append, length_cons]
    omega

theorem childPath_injective {step' : PlaceStep} (h : step.Plain) (h' : step'.Plain)
    {path' : Str} (heq : childPath path step = childPath path' step') :
    path = path' ∧ step = step' := by
  have hpath : path = path' := by
    rw [← parentPath_childPath h path, heq, parentPath_childPath h' path']
  refine ⟨hpath, ?_⟩
  subst hpath
  cases step with
  | key key =>
    cases step' with
    | key key' =>
      rw [childPath, childPath] at heq
      split_ifs at heq
      · rw [heq]
      · rw [(List.cons.inj (append_cancel_left heq)).2]
    | index index =>
      have hlast := getLast?_childPath_key h.1 path
      rw [heq, getLast?_childPath_index] at hlast
      exact absurd (mem_of_getLast? hlast.symm) h.2.2.2
  | index index =>
    cases step' with
    | key key' =>
      have hlast := getLast?_childPath_key h'.1 path
      rw [← heq, getLast?_childPath_index] at hlast
      exact absurd (mem_of_getLast? hlast.symm) h'.2.2.2
    | index index' =>
      rw [childPath, childPath] at heq
      have htext := append_cancel_right (List.cons.inj (append_cancel_left heq)).2
      rw [repr_injective htext]

theorem pathText_concat (place : Place) (step : PlaceStep) :
    pathText [] (place ++ [step]) = childPath (pathText [] place) step := by
  rw [pathText, foldl_append]
  rfl

theorem pathText_concat_ne_nil (h : step.Plain) : pathText [] (place ++ [step]) ≠ [] := by
  rw [pathText_concat]
  exact ne_nil_of_length_pos (Nat.zero_lt_of_lt (length_lt_childPath h _))

theorem pathText_injective {place' : Place} (h : ∀ step ∈ place, step.Plain)
    (h' : ∀ step ∈ place', step.Plain) (heq : pathText [] place = pathText [] place') :
    place = place' := by
  induction place using List.reverseRecOn generalizing place' with
  | nil =>
    induction place' using List.reverseRecOn with
    | nil => rfl
    | append_singleton place' step' _ =>
      exact absurd heq.symm (pathText_concat_ne_nil (h' step' (by simp)))
  | append_singleton place step ih =>
    induction place' using List.reverseRecOn with
    | nil => exact absurd heq (pathText_concat_ne_nil (h step (by simp)))
    | append_singleton place' step' _ =>
      rw [pathText_concat, pathText_concat] at heq
      obtain ⟨htext, hstep⟩ := childPath_injective (h step (by simp)) (h' step' (by simp)) heq
      rw [hstep, ih (fun step hmem => h step (mem_append_left _ hmem))
        (fun step hmem => h' step (mem_append_left _ hmem)) htext]

/-- With plain keys, `isPathChanged` asks for the paths of a place and of those above it. -/
theorem mem_askedPaths (h : ∀ step ∈ place, step.Plain) {fuel : Nat}
    (hfuel : (pathText [] place).length ≤ fuel) : text ∈ askedPaths fuel (pathText [] place) ↔
      ∃ above, above <+: place ∧ text = pathText [] above := by
  induction place using List.reverseRecOn generalizing fuel with
  | nil =>
    have hasked : askedPaths fuel (pathText [] []) = [[]] := by
      cases fuel <;> rfl
    rw [hasked, mem_singleton]
    simp [pathText]
  | append_singleton place step ih =>
    have hlength := length_lt_childPath (h step (by simp)) (pathText [] place)
    have hne : pathText [] (place ++ [step]) ≠ [] := pathText_concat_ne_nil (h step (by simp))
    rw [pathText_concat] at hfuel hne ⊢
    cases fuel with
    | zero => omega
    | succ fuel =>
      rw [askedPaths, if_neg hne, parentPath_childPath (h step (by simp)), mem_cons,
        ih (fun step hmem => h step (mem_append_left _ hmem)) (by omega)]
      constructor
      · rintro (rfl | ⟨above, habove, rfl⟩)
        · exact ⟨place ++ [step], prefix_rfl, (pathText_concat place step).symm⟩
        · exact ⟨above, habove.trans (prefix_append place [step]), rfl⟩
      · rintro ⟨above, habove, rfl⟩
        rcases prefix_concat_iff.mp habove with rfl | habove
        · exact .inl (pathText_concat place step)
        · exact .inr ⟨above, habove, rfl⟩

/-- A changed place is in one of the documents. -/
theorem exists_of_changedPlace (h : ChangedPlace base target place) :
    (base.atPlace place).isSome = true ∨ (target.atPlace place).isSome = true := by
  induction place generalizing base target with
  | nil => exact .inl rfl
  | cons step place ih =>
    rw [ChangedPlace] at h
    rw [atPlace_cons, atPlace_cons]
    cases hvalue : base.child step with
    | some value =>
      cases hvalue' : target.child step with
      | some value' =>
        rw [hvalue, hvalue'] at h
        exact ih h
      | none =>
        rw [hvalue, hvalue'] at h
        rw [h.2]
        exact .inl rfl
    | none =>
      cases hvalue' : target.child step with
      | some value' =>
        rw [hvalue, hvalue'] at h
        rw [h.2]
        exact .inr rfl
      | none =>
        rw [hvalue, hvalue'] at h
        exact h.elim

/-- Documents without empty keys and without dots and brackets in keys tell their places apart. -/
theorem pathsTellPlaces_of_plain {runtime next : Json}
    (h : ∀ place, (runtime.atPlace place).isSome = true ∨ (next.atPlace place).isSome = true →
      ∀ step ∈ place, step.Plain) : PathsTellPlaces envRefMap runtime next := by
  intro place s original hs _ _
  have hplain := h place (.inr (by rw [hs]; rfl))
  simp only [mem_askedPaths hplain le_rfl]
  constructor
  · rintro ⟨changed, hchanged, above, habove, htext⟩
    have heq := pathText_injective (h changed (exists_of_changedPlace hchanged))
      (fun step hmem => hplain step (habove.subset hmem)) htext
    exact ⟨above, habove, heq ▸ hchanged⟩
  · rintro ⟨above, habove, hchanged⟩
    exact ⟨above, hchanged, above, habove, rfl⟩

theorem pathsTellPlaces_of_plain_key : PathsTellPlaces (fun _ => some "${A}".toList)
    (.object [("a".toList, .string "x".toList)]) (.object [("a".toList, .string "y".toList)]) := by
  apply pathsTellPlaces_of_plain
  intro place hplace
  rcases place with - | ⟨(key | index), - | ⟨step, place⟩⟩ <;>
    simp_all [Json.atPlace, Json.child, Json.lookup, PlaceStep.Plain]
  · rw [← hplace]
    decide
  · cases step <;> split_ifs at hplace <;> simp_all

end OpenClaw
