import OpenClaw.Lib.TreeAddress
import OpenClaw.OcPath.Jsonc

/-!
# JSONC documents as trees

The loop of the resolver and the recursion of the editor are walks of an address in a tree: the
entries of an object and the items of an array are the numbered children, and what a segment
chooses depends on the keys or on the size.
-/

namespace OpenClaw.Oc

open TreeAddress Option List

/-! ## The tree -/

/-- What a value is, without its children: the keys with their lines, or the size. -/
inductive JsoncLabel where
  | object (keys : List (Str × ℕ))
  | array (size : ℕ)
  | leaf

def entryKey (entry : JsoncEntry JsoncValue) : Str × ℕ := (entry.key, entry.line)

def jsoncLabel : JsoncValue → JsoncLabel
  | .object entries _ => .object (entries.map entryKey)
  | .array items _ => .array items.length
  | _ => .leaf

def jsoncChild : JsoncValue → ℕ → Option JsoncValue
  | .object entries _, i => entries[i]?.map (·.value)
  | .array items _, i => items[i]?
  | _, _ => none

def jsoncSetChild : JsoncValue → ℕ → JsoncValue → JsoncValue
  | .object entries line, i, new =>
    .object (entries.modify i fun entry => { entry with value := new }) line
  | .array items line, i, new => .array (items.set i new) line
  | value, _, _ => value

variable (entries : List (JsoncEntry JsoncValue))

theorem map_entryKey_modify (i : ℕ) (new : JsoncValue) :
    (entries.modify i fun entry => { entry with value := new }).map entryKey =
      entries.map entryKey := by
  apply List.ext_getElem?
  intro j
  rw [getElem?_map, getElem?_map, getElem?_modify]
  cases entries[j]? with
  | none => rfl
  | some entry =>
    show some (entryKey (if i = j then { entry with value := new } else entry)) = _
    split_ifs
    · rfl
    · rfl

variable (value : JsoncValue)

theorem jsoncLabel_setChild (i : ℕ) (new : JsoncValue) :
    jsoncLabel (jsoncSetChild value i new) = jsoncLabel value := by
  cases value with
  | object entries line => exact congrArg JsoncLabel.object (map_entryKey_modify entries i new)
  | array items line => exact congrArg JsoncLabel.array List.length_set
  | string value line => rfl
  | number value line => rfl
  | boolean value line => rfl
  | null line => rfl

theorem jsoncChild_setChild_self (i : ℕ) (old new : JsoncValue)
    (h : jsoncChild value i = some old) : jsoncChild (jsoncSetChild value i new) i = some new := by
  cases value with
  | object entries line =>
    obtain ⟨entry, hentry, _⟩ := Option.map_eq_some_iff.mp h
    show (entries.modify i fun entry => { entry with value := new })[i]?.map (·.value) = some new
    rw [getElem?_modify, hentry]
    show some (if i = i then { entry with value := new } else entry).value = some new
    rw [if_pos rfl]
  | array items line =>
    have hlt : i < items.length := (List.getElem?_eq_some_iff.mp h).1
    exact getElem?_set_self hlt
  | string value line => cases h
  | number value line => cases h
  | boolean value line => cases h
  | null line => cases h

theorem jsoncChild_setChild_ne (i j : ℕ) (new : JsoncValue) (hne : j ≠ i) :
    jsoncChild (jsoncSetChild value i new) j = jsoncChild value j := by
  cases value with
  | object entries line =>
    show (entries.modify i fun entry => { entry with value := new })[j]?.map (·.value) =
      entries[j]?.map (·.value)
    rw [getElem?_modify]
    cases entries[j]? with
    | none => rfl
    | some entry =>
      show some (if i = j then { entry with value := new } else entry).value = some entry.value
      rw [if_neg (Ne.symm hne)]
  | array items line => exact getElem?_set_ne (Ne.symm hne)
  | string value line => rfl
  | number value line => rfl
  | boolean value line => rfl
  | null line => rfl

def jsoncTrees : Trees JsoncValue JsoncLabel where
  label := jsoncLabel
  child := jsoncChild
  setChild := jsoncSetChild
  label_setChild := jsoncLabel_setChild
  child_setChild_self := jsoncChild_setChild_self
  child_setChild_ne := jsoncChild_setChild_ne

/-! ## The walk of the resolver -/

variable (host : JsoncHost)

/-- What the resolver notes of a step: the entry, and the segment walked. -/
structure ResolveNote where
  entry : Option (Str × ℕ)
  seg : Str

def resolveChoose (label : JsoncLabel) (sub : Str) : Option (ℕ × ResolveNote) :=
  let seg := unquoteSeg sub
  if seg = [] then none
  else
    match label with
    | .object keys =>
      let seg := (lastKey seg (keys.map (·.1))).getD seg
      (keys.findIdx? (·.1 = seg)).map fun i => (i, ⟨keys[i]?, seg⟩)
    | .array size =>
      let seg := (lastIndex seg size).getD seg
      (host.toIndex seg).map fun i => (i, ⟨none, seg⟩)
    | .leaf => none

variable (root : JsoncValue)

def resolveWalk (subs : List Str) : Option (List (ℕ × ResolveNote)) :=
  walk jsoncTrees (resolveChoose host) root subs

variable (walked : Walked)

/-- Where the resolver is behind some steps. -/
def walkedBehind (steps : List (ℕ × ResolveNote)) (node : JsoncValue) : Walked where
  lastEntry := (steps.getLast?.map (·.2.entry)).getD walked.lastEntry
  node := node
  path := walked.path ++ steps.map (·.2.seg)

theorem walkedBehind_cons (step : ℕ × ResolveNote)
    (steps : List (ℕ × ResolveNote)) (child node : JsoncValue) :
    walkedBehind ⟨step.2.entry, child, walked.path ++ [step.2.seg]⟩ steps node =
      walkedBehind walked (step :: steps) node := by
  unfold walkedBehind
  rw [getLast?_cons]
  cases steps.getLast? with
  | none => simp
  | some last => simp

variable {host}

theorem map_fst_entryKey : (entries.map entryKey).map (·.1) = entries.map (·.key) := by
  rw [List.map_map]
  rfl

theorem findIdx?_entryKey (seg : Str) :
    (entries.map entryKey).findIdx? (·.1 = seg) = entries.findIdx? (·.key = seg) := by
  rw [findIdx?_map]
  rfl

theorem set_eq_modify {entries : List (JsoncEntry JsoncValue)} {i : ℕ}
    {entry : JsoncEntry JsoncValue} (h : entries[i]? = some entry) (new : JsoncValue) :
    entries.set i { entry with value := new } =
      entries.modify i fun entry => { entry with value := new } := by
  apply List.ext_getElem?
  intro j
  rw [getElem?_set, getElem?_modify]
  by_cases hij : i = j
  · have hlt : i < entries.length := (List.getElem?_eq_some_iff.mp h).1
    rw [← hij, h, if_pos rfl, if_pos hlt]
    show _ = some (if i = i then { entry with value := new } else entry)
    rw [if_pos rfl]
  · rw [if_neg hij]
    cases entries[j]? with
    | none => rfl
    | some other =>
      show _ = some (if i = j then { other with value := new } else other)
      rw [if_neg hij]

/-- The loop of the resolver is a walk. -/
theorem resolveFrom_eq (subs : List Str) : resolveFrom host walked (subs.map unquoteSeg) =
      (resolveWalk host walked.node subs).bind fun steps =>
        (nodeAt jsoncTrees walked.node (position steps)).map (walkedBehind walked steps) := by
  induction subs generalizing walked with
  | nil =>
    show some walked = some (walkedBehind walked [] walked.node)
    unfold walkedBehind
    simp
  | cons sub subs ih =>
    have hstep : ∀ (step : ℕ × ResolveNote) (child : JsoncValue),
        jsoncChild walked.node step.1 = some child →
        resolveFrom host ⟨step.2.entry, child, walked.path ++ [step.2.seg]⟩ (subs.map unquoteSeg) =
          ((walk jsoncTrees (resolveChoose host) child subs).map (step :: ·)).bind fun steps =>
            (nodeAt jsoncTrees walked.node (position steps)).map (walkedBehind walked steps) := by
      intro step child hchild
      rw [ih]
      show (walk jsoncTrees (resolveChoose host) child subs).bind _ = _
      cases walk jsoncTrees (resolveChoose host) child subs with
      | none => rfl
      | some rest =>
        show (nodeAt jsoncTrees child (position rest)).map _ =
          ((jsoncChild walked.node step.1).bind fun child =>
            nodeAt jsoncTrees child (position rest)).map _
        rw [hchild, bind_some]
        congr 1
        funext node
        exact walkedBehind_cons walked step rest child node
    rw [List.map_cons, resolveFrom, resolveWalk, walk]
    show _ = ((resolveChoose host (jsoncLabel walked.node) sub).bind fun step =>
      (jsoncChild walked.node step.1).bind fun child =>
        (walk jsoncTrees (resolveChoose host) child subs).map (step :: ·)).bind _
    unfold resolveChoose
    by_cases hnil : unquoteSeg sub = []
    · rw [if_pos hnil, if_pos hnil]
      rfl
    rw [if_neg hnil, if_neg hnil]
    cases hnode : walked.node with
    | object entries line =>
      rw [hnode] at hstep
      rw [jsoncLabel]
      dsimp only
      rw [map_fst_entryKey, findIdx?_entryKey, find?_eq_bind_findIdx?_getElem?]
      generalize (lastKey (unquoteSeg sub) (entries.map (·.key))).getD (unquoteSeg sub) = seg
      cases hidx : entries.findIdx? (·.key = seg) with
      | none => rfl
      | some i =>
        obtain ⟨hlt, -⟩ := findIdx?_eq_some_iff_getElem.mp hidx
        have hentry : entries[i]? = some entries[i] := getElem?_eq_getElem hlt
        have hchild : jsoncChild (.object entries line) i = some entries[i].value := by
          rw [jsoncChild, hentry]
          rfl
        have hdown := hstep (i, ⟨some (entryKey entries[i]), seg⟩) entries[i].value hchild
        rw [bind_some, hentry, map_some, getElem?_map, hentry, bind_some, hchild]
        exact hdown
    | array items line =>
      rw [hnode] at hstep
      rw [jsoncLabel]
      dsimp only
      generalize (lastIndex (unquoteSeg sub) items.length).getD (unquoteSeg sub) = seg
      cases hidx : host.toIndex seg with
      | none => rfl
      | some i =>
        rw [bind_some, map_some, bind_some]
        cases hitem : items[i]? with
        | none =>
          rw [show jsoncChild (.array items line) i = none from hitem]
          rfl
        | some item =>
          have hchild : jsoncChild (.array items line) i = some item := hitem
          rw [hchild]
          exact hstep (i, ⟨none, seg⟩) item hchild
    | string value line => rfl
    | number value line => rfl
    | boolean value line => rfl
    | null line => rfl

/-! ## The walk of the editor -/

def mutateChoose (host : JsoncHost) (label : JsoncLabel) (seg : Str) : Option (ℕ × Unit) :=
  if seg = [] then none
  else
    match label with
    | .object keys => (keys.findIdx? (·.1 = unquoteSeg seg)).map fun i => (i, ())
    | .array _ => (host.toIndex seg).map fun i => (i, ())
    | .leaf => none

def mutateWalk (host : JsoncHost) (root : JsoncValue) (subs : List Str) :
    Option (List (ℕ × Unit)) :=
  walk jsoncTrees (mutateChoose host) root subs

/-- The recursion of the editor is a walk, at whose end the node is exchanged. -/
theorem mutateAt_eq (subs : List Str)
    (mutate : JsoncValue → Option JsoncValue) : mutateAt host root subs mutate =
      (mutateWalk host root subs).bind fun steps =>
        (nodeAt jsoncTrees root (position steps)).bind fun node =>
          (mutate node).map (setAt jsoncTrees root (position steps)) := by
  induction subs generalizing root with
  | nil =>
    rw [mutateAt, mutateWalk, walk, bind_some]
    show mutate root = (mutate root).map fun new => new
    exact Option.map_id'.symm
  | cons seg subs ih =>
    have hstep : ∀ (step : ℕ × Unit) (child : JsoncValue), jsoncChild root step.1 = some child →
        (mutateAt host child subs mutate).map (jsoncSetChild root step.1) =
          ((walk jsoncTrees (mutateChoose host) child subs).map (step :: ·)).bind fun steps =>
            (nodeAt jsoncTrees root (position steps)).bind fun node =>
              (mutate node).map (setAt jsoncTrees root (position steps)) := by
      intro step child hchild
      rw [ih, mutateWalk]
      cases walk jsoncTrees (mutateChoose host) child subs with
      | none => rfl
      | some rest =>
        show ((nodeAt jsoncTrees child (position rest)).bind _).map _ =
          ((jsoncChild root step.1).bind fun child =>
            nodeAt jsoncTrees child (position rest)).bind _
        rw [hchild, bind_some]
        cases nodeAt jsoncTrees child (position rest) with
        | none => rfl
        | some node =>
          rw [bind_some, bind_some, Option.map_map]
          congr 1
          funext new
          have hchild' : jsoncTrees.child root step.1 = some child := hchild
          exact (setAt_cons hchild').symm
    rw [mutateAt.eq_def, mutateWalk, walk]
    show _ = ((mutateChoose host (jsoncLabel root) seg).bind fun step =>
      (jsoncChild root step.1).bind fun child =>
        (walk jsoncTrees (mutateChoose host) child subs).map (step :: ·)).bind _
    unfold mutateChoose
    dsimp only
    by_cases hnil : seg = []
    · rw [if_pos hnil, if_pos hnil]
      rfl
    rw [if_neg hnil, if_neg hnil]
    cases root with
    | object entries line =>
      rw [jsoncLabel]
      dsimp only
      rw [findIdx?_entryKey]
      cases entries.findIdx? (·.key = unquoteSeg seg) with
      | none => rfl
      | some i =>
        rw [bind_some, map_some, bind_some]
        cases hentry : entries[i]? with
        | none =>
          rw [jsoncChild, hentry]
          rfl
        | some entry =>
          have hchild : jsoncChild (.object entries line) i = some entry.value := by
            rw [jsoncChild, hentry]
            rfl
          rw [bind_some, hchild]
          have hdown := hstep (i, ()) entry.value hchild
          refine Eq.trans ?_ hdown
          congr 1
          funext new
          rw [jsoncSetChild, set_eq_modify hentry]
    | array items line =>
      rw [jsoncLabel]
      dsimp only
      cases host.toIndex seg with
      | none => rfl
      | some i =>
        rw [bind_some, map_some, bind_some]
        cases hitem : items[i]? with
        | none =>
          rw [show jsoncChild (.array items line) i = none from hitem]
          rfl
        | some item =>
          have hchild : jsoncChild (.array items line) i = some item := hitem
          rw [bind_some, hchild]
          exact hstep (i, ()) item hchild
    | string value line => rfl
    | number value line => rfl
    | boolean value line => rfl
    | null line => rfl

end OpenClaw.Oc
