import OpenClaw.OcPath.JsoncInsertion

/-!
# Inserted keys are read back

A successful insertion of a plain key: the document it answers with has the key, and every path
that does not take `$last` at the object shows what it showed.
-/

namespace OpenClaw.Oc

open TreeAddress List

variable {host : JsoncHost} {ast new : JsoncAst} {path other atKey atInsertion : OcPath}
  {root node : JsoncValue} {subs others : List Str} {key value : Str}
  {entries : List (JsoncEntry JsoncValue)} {line : Option ℕ} {steps : List (ℕ × ResolveNote)}

/-! ## One more entry -/

theorem findIdx?_append_of_some {keys : List (Str × ℕ)} {p : Str × ℕ → Bool} {i : ℕ}
    (added : Str × ℕ) (h : keys.findIdx? p = some i) :
    (keys ++ [added]).findIdx? p = some i ∧ (keys ++ [added])[i]? = keys[i]? := by
  obtain ⟨hlt, -⟩ := findIdx?_eq_some_iff_getElem.mp h
  refine ⟨?_, getElem?_append_left hlt⟩
  rw [findIdx?_append, h]
  rfl

variable (added : JsoncEntry JsoncValue)

theorem child_added (i : ℕ) (child : JsoncValue)
    (h : jsoncTrees.child (.object entries line) i = some child) :
    jsoncTrees.child (.object (entries ++ [added]) line) i = some child := by
  change entries[i]?.map (·.value) = some child at h
  show (entries ++ [added])[i]?.map (·.value) = some child
  obtain ⟨entry, hentry, hvalue⟩ := Option.map_eq_some_iff.mp h
  have hlt : i < entries.length := (List.getElem?_eq_some_iff.mp hentry).1
  rw [getElem?_append_left hlt, hentry]
  exact congrArg some hvalue

/-- An object with one more entry has its children, and all segments but `$last` choose them. -/
theorem extends_object :
    Extends jsoncTrees (resolveChoose host) (fun sub => unquoteSeg sub ≠ posLast)
      (.object entries line) (.object (entries ++ [added]) line) where
  choose := by
    intro sub step hsub h
    change resolveChoose host (.object (entries.map entryKey)) sub = some step at h
    show resolveChoose host (.object ((entries ++ [added]).map entryKey)) sub = some step
    rw [map_append]
    unfold resolveChoose at h ⊢
    dsimp only at h ⊢
    by_cases hnil : unquoteSeg sub = []
    · rw [if_pos hnil] at h
      exact nomatch h
    rw [if_neg hnil, lastKey_of_ne hsub, Option.getD_none] at h ⊢
    obtain ⟨i, hi, hstep⟩ := Option.map_eq_some_iff.mp h
    obtain ⟨hidx, hget⟩ := findIdx?_append_of_some (entryKey added) hi
    rw [map_singleton, hidx, Option.map_some, hget]
    exact congrArg some hstep
  child := fun i child h => child_added added i child h

/-- The new key chooses the new entry. -/
theorem choose_added {added : JsoncEntry JsoncValue} (hplain : isQuotedSeg added.key = false)
    (hne : added.key ≠ []) (habsent : entries.any (·.key = added.key) = false) :
    resolveChoose host (.object ((entries ++ [added]).map entryKey)) added.key =
      some (entries.length, ⟨some (entryKey added), added.key⟩) := by
  have hself : unquoteSeg added.key = added.key := by
    rw [unquoteSeg, hplain]
    rfl
  have hlast : (lastKey added.key (((entries ++ [added]).map entryKey).map (·.1))).getD added.key =
      added.key := by
    unfold lastKey
    split_ifs
    · rw [map_fst_entryKey, map_append, map_singleton, getLast?_concat]
      rfl
    · rfl
  have hnone : entries.findIdx? (·.key = added.key) = none := by
    rw [findIdx?_eq_none_iff]
    intro entry hentry
    rw [any_eq_false] at habsent
    exact Bool.eq_false_iff.mpr (habsent entry hentry)
  have hidx : (entries ++ [added]).findIdx? (·.key = added.key) = some entries.length := by
    rw [findIdx?_append, hnone]
    simp
  have hget : ((entries ++ [added]).map entryKey)[entries.length]? = some (entryKey added) := by
    rw [getElem?_map, getElem?_concat_length]
    rfl
  unfold resolveChoose
  dsimp only
  rw [hself, if_neg hne, hlast, findIdx?_entryKey, hidx, Option.map_some, hget]

/-! ## The document with the entry -/

/-- The root in which the object at some steps has one more entry. -/
def rootWith (root : JsoncValue) (steps : List (ℕ × ResolveNote))
    (entries : List (JsoncEntry JsoncValue)) (line : Option ℕ) (added : JsoncEntry JsoncValue) :
    JsoncValue :=
  setAt jsoncTrees root (position steps) (.object (entries ++ [added]) line)

/-- The beginning of a walk that passes a place leads to that place. -/
theorem positionOf_take {pos : List ℕ} (h : ResolvesTo host root others steps node)
    (hpos : pos <+: position steps) : positionOf host root (others.take pos.length) = some pos := by
  have hwalk : resolveWalk host root (others.take pos.length ++ others.drop pos.length) =
      some steps := by
    rw [take_append_drop]
    exact h.steps_eq
  obtain ⟨front, middle, rest, hfront, -, -, hsteps⟩ := walk_append_eq_some.mp hwalk
  have hlength : front.length = pos.length := by
    rw [length_of_walk hfront, length_take]
    have hle := hpos.length_le
    rw [position, length_map, length_of_walk h.steps_eq] at hle
    omega
  have hprefix : position front <+: position steps := by
    rw [hsteps, position, position, map_append]
    exact prefix_append _ _
  have heq : position front = pos := by
    apply List.IsPrefix.eq_of_length (prefix_of_prefix_length_le hprefix hpos ?_)
    · rw [position, length_map, hlength]
    · rw [position, length_map, hlength]
  rw [positionOf, resolveWalk, hfront, ← heq]
  rfl

/-- What could be resolved still is: the place is the same, and only the object and its containers
have other children. -/
theorem resolvesTo_rootWith {steps' : List (ℕ × ResolveNote)} (added : JsoncEntry JsoncValue)
    (hpath : ResolvesTo host root subs steps (.object entries line))
    (hother : ResolvesTo host root others steps' node)
    (hlast : ¬ TakesLastAt host root subs others) :
    ∃ node', ResolvesTo host (rootWith root steps entries line added) others steps' node' ∧
      shallow node' = shallow node ∧ (¬ LeadsAbove host root subs others → node' = node) := by
  have hadmissible : position steps <+: position steps' →
      ∀ sub, others[(position steps).length]? = some sub → unquoteSeg sub ≠ posLast := by
    intro hprefix sub hsub hpos
    obtain ⟨hlt, hget⟩ := List.getElem?_eq_some_iff.mp hsub
    refine hlast ⟨others.take (position steps).length, sub, others.drop ((position steps).length + 1),
      ?_, hpos, position steps, positionOf_take hother hprefix, hpath.positionOf⟩
    rw [← hget, getElem_cons_drop, take_append_drop]
  have hwalk : resolveWalk host (rootWith root steps entries line added) others = some steps' :=
    walk_setAt hpath.node_eq (extends_object added) hother.steps_eq hadmissible
  obtain ⟨node', hnode'⟩ := exists_nodeAt_of_walk hwalk
  refine ⟨node', ⟨hwalk, hnode'⟩, ?_, ?_⟩
  · have hobject : shallow (.object (entries ++ [added]) line) =
        shallow (.object entries line) := rfl
    have hview := map_nodeAt_setAt shallow_setChild hobject hpath.node_eq (child_added added)
      hother.node_eq
    change (nodeAt jsoncTrees (rootWith root steps entries line added) (position steps')).map
      shallow = _ at hview
    rw [hnode'] at hview
    exact Option.some.inj hview
  · intro habove
    have hnot : ¬ position steps' <+: position steps := fun hprefix =>
      habove ⟨position steps', position steps, hother.positionOf, hpath.positionOf, hprefix⟩
    have hsame := nodeAt_setAt_of_not_prefix hpath.node_eq (child_added added) hother.node_eq hnot
    exact Option.some.inj (hnode'.symm.trans hsame)

/-- The new key leads to the new value. -/
theorem resolvesTo_added (hpath : ResolvesTo host root subs steps (.object entries line))
    (hplain : isQuotedSeg added.key = false) (hne : added.key ≠ [])
    (habsent : entries.any (·.key = added.key) = false) :
    ResolvesTo host (rootWith root steps entries line added) (subs ++ [added.key])
      (steps ++ [(entries.length, ⟨some (entryKey added), added.key⟩)]) added.value := by
  have hnode : nodeAt jsoncTrees (rootWith root steps entries line added) (position steps) =
      some (.object (entries ++ [added]) line) := nodeAt_setAt_self hpath.node_eq
  have hlength : (position steps).length = subs.length := by
    rw [position, length_map, length_of_walk hpath.steps_eq]
  have hwalk : resolveWalk host (rootWith root steps entries line added) subs = some steps := by
    refine walk_setAt hpath.node_eq (extends_object added) hpath.steps_eq ?_
    intro _ sub hsub
    rw [hlength, getElem?_length] at hsub
    cases hsub
  have hchild : jsoncChild (.object (entries ++ [added]) line) entries.length =
      some added.value := by
    rw [jsoncChild, getElem?_concat_length]
    rfl
  have hlast : walk jsoncTrees (resolveChoose host) (.object (entries ++ [added]) line)
      [added.key] = some [(entries.length, ⟨some (entryKey added), added.key⟩)] :=
    walk_cons_eq_some.mpr ⟨_, added.value, [], choose_added hplain hne habsent, hchild, rfl, rfl⟩
  refine ⟨walk_append_eq_some.mpr ⟨steps, _, _, hwalk, hnode, hlast, rfl⟩, ?_⟩
  have hsplit : position (steps ++ [(entries.length,
      (⟨some (entryKey added), added.key⟩ : ResolveNote))]) = position steps ++ [entries.length] := by
    rw [position, map_append]
    rfl
  rw [hsplit, nodeAt_append, hnode, Option.bind_some]
  exact nodeAt_cons_eq_some.mpr ⟨added.value, hchild, rfl⟩

/-- Behind a step to an entry the match is the entry. -/
theorem matchBehind_entry (root node : JsoncValue) (steps : List (ℕ × ResolveNote)) (i : ℕ)
    (seg key : Str) (line : ℕ) :
    ∃ walked, matchBehind root (steps ++ [(i, ⟨some (key, line), seg⟩)]) node =
      .objectEntry ⟨key, node, line⟩ walked := by
  unfold matchBehind walkedBehind Walked.match
  rw [getLast?_concat]
  exact ⟨_, rfl⟩

/-! ## Paths below a path -/

/-- The path with one more slot, where it has one left. -/
def OcPath.slash : OcPath → Str → Option OcPath
  | ⟨file, none, none, none, session⟩, slot => some ⟨file, some slot, none, none, session⟩
  | ⟨file, some first, none, none, session⟩, slot =>
    some ⟨file, some first, some slot, none, session⟩
  | ⟨file, some first, some second, none, session⟩, slot =>
    some ⟨file, some first, some second, some slot, session⟩
  | _, _ => none

theorem slash_spec {child : OcPath} {slot : Str} (h : path.slash slot = some child) :
    pathSlots child = pathSlots path ++ [slot] ∧ splitLastSlot child = some (slot, path) := by
  unfold OcPath.slash at h
  split at h
  · rw [← Option.some.inj h]
    exact ⟨rfl, rfl⟩
  · rw [← Option.some.inj h]
    exact ⟨rfl, rfl⟩
  · rw [← Option.some.inj h]
    exact ⟨rfl, rfl⟩
  · exact nomatch h

theorem concatSegments_eq {slots : List Str} (h : pathSlots path = slots) :
    concatSegments path = (slots.mapM (splitRespectingBrackets · '.')).map List.flatten := by
  unfold concatSegments
  rw [h]
  cases slots.mapM (splitRespectingBrackets · '.') <;> rfl

theorem mapM_split_append {slots : List Str} {slot : Str} {parts : List (List Str)}
    {part : List Str} (hslots : slots.mapM (splitRespectingBrackets · '.') = .ok parts)
    (hslot : splitRespectingBrackets slot '.' = .ok part) :
    (slots ++ [slot]).mapM (splitRespectingBrackets · '.') = .ok (parts ++ [part]) := by
  rw [mapM_append, hslots]
  show (([slot].mapM (splitRespectingBrackets · '.')).bind fun parts' => .ok (parts ++ parts')) = _
  rw [mapM_cons, mapM_nil, hslot]
  rfl

theorem concatSegments_slash {child : OcPath} {slot : Str} (h : path.slash slot = some child)
    (hsubs : concatSegments path = .ok subs) (hslot : splitRespectingBrackets slot '.' = .ok [slot]) :
    concatSegments child = .ok (subs ++ [slot]) := by
  rw [concatSegments_eq rfl] at hsubs
  cases hparts : (pathSlots path).mapM (splitRespectingBrackets · '.') with
  | error e =>
    rw [hparts] at hsubs
    exact absurd hsubs (by simp [Except.map])
  | ok parts =>
    rw [hparts] at hsubs
    rw [concatSegments_eq (slash_spec h).1, mapM_split_append hparts hslot]
    show Except.ok (parts ++ [[slot]]).flatten = _
    rw [flatten_append, ← Except.ok.inj hsubs]
    rfl

/-! ## Setting -/

section

variable (hroot : ast.root = some root) (hsubs : concatSegments path = .ok subs)
include hroot hsubs

/-- The place for a new value is the node that the parent path leads to. -/
theorem resolveJsoncInsertion_of {marker : InsertionMarker} (hpath : ResolvesTo host root subs steps node) :
    resolveJsoncInsertion host ast ⟨path, marker⟩ = .ok (insertionPoint node) := by
  unfold resolveJsoncInsertion
  dsimp only
  rw [resolveJsoncOcPath_of hroot hsubs hpath]
  show Except.ok (((some _).bind (containerNode ast)).bind insertionPoint) = _
  rw [Option.bind_some, containerNode_of hroot hpath]
  rfl

/-- What an insertion of a key into an object comes to. -/
theorem mutateJsoncContainer_insertEntry {newValue : JsoncValue} {result : SetResult}
    (hpath : ResolvesTo host root subs steps (.object entries line))
    (hlast : NoKeyLast host root subs)
    (h : mutateJsoncContainer host ast path (insertEntry key newValue) = .ok result) :
    result = .error ⟨.unresolved, none⟩ ∨
      ∃ raw, entries.any (·.key = key) = false ∧
        result = .ok ⟨raw, some (rootWith root steps entries line ⟨key, newValue, 0⟩)⟩ := by
  unfold mutateJsoncContainer at h
  rw [hroot] at h
  dsimp only at h
  rw [hsubs] at h
  dsimp only [bind, Except.bind] at h
  cases hmutate : mutateAt host root subs (insertEntry key newValue) with
  | none =>
    rw [hmutate] at h
    exact .inl (Except.ok.inj h).symm
  | some newRoot =>
    rw [hmutate] at h
    dsimp only at h
    obtain ⟨raw, -, hraw⟩ := bind_eq_ok_iff.mp h
    have hresult := (Except.ok.inj hraw).symm
    rw [mutateAt_eq] at hmutate
    obtain ⟨steps', hsteps', hmutate⟩ := Option.bind_eq_some_iff.mp hmutate
    rw [walks_agree hlast hpath.steps_eq hsteps', hpath.node_eq, Option.bind_some] at hmutate
    obtain ⟨object, hobject, hset⟩ := Option.map_eq_some_iff.mp hmutate
    rw [insertEntry] at hobject
    by_cases hany : entries.any (·.key = key) = true
    · rw [if_pos hany] at hobject
      cases hobject
    · rw [if_neg hany] at hobject
      refine .inr ⟨raw, Bool.eq_false_iff.mpr hany, ?_⟩
      rw [hresult, ← hset, ← Option.some.inj hobject]
      rfl

/-- What a successful insertion at an object does. -/
theorem setJsoncInsertion_ok {marker : InsertionMarker}
    (hpath : ResolvesTo host root subs steps (.object entries line))
    (hlast : NoKeyLast host root subs)
    (h : setJsoncInsertion host ast ⟨path, marker⟩ value = .ok (.ok new)) :
    ∃ key json, marker = .keyed key ∧ host.jsonParse value = some json ∧
      entries.any (·.key = key) = false ∧
      new.root = some (rootWith root steps entries line ⟨key, jsonToJsoncValue json, 0⟩) := by
  unfold setJsoncInsertion at h
  rw [resolveJsoncInsertion_of hroot hsubs hpath] at h
  dsimp only [bind, Except.bind] at h
  cases hparse : host.jsonParse value with
  | none =>
    rw [hparse] at h
    exact absurd (Except.ok.inj h) (by simp)
  | some json =>
    rw [hparse] at h
    cases marker with
    | bare => exact absurd (Except.ok.inj h) (by simp)
    | indexed index => exact absurd (Except.ok.inj h) (by simp)
    | keyed key =>
      have hresult := mutateJsoncContainer_insertEntry hroot hsubs hpath hlast h
      rcases hresult with herror | ⟨raw, habsent, hnew⟩
      · cases herror
      · rw [Except.ok.inj hnew]
        exact ⟨key, json, rfl, rfl, habsent, rfl⟩

end

end OpenClaw.Oc
