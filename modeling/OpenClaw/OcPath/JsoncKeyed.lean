import OpenClaw.OcPath.JsoncReadBack

/-!
# Keyed insertion

`setOcPath` at a path that ends with `+key`: when the insertion succeeds the key is read back and
what could be resolved shows what it showed; an existing key and a value that is no object are
refused.
-/

namespace OpenClaw.Oc

open TopLevel TreeAddress List Option

variable {host : JsoncHost} {ast new : JsoncAst} {path other atKey atInsertion : OcPath}
  {root node : JsoncValue} {subs others : List Str} {key value : Str}
  {entries : List (JsoncEntry JsoncValue)} {line : Option ℕ} {steps : List (ℕ × ResolveNote)}

/-! ## Statements about paths -/

/-- A segment that names one key as it stands. -/
structure IsPlainKey (key : Str) : Prop where
  ne_nil : key ≠ []
  single : splitRespectingBrackets key '.' = .ok [key]
  unquoted : isQuotedSeg key = false

variable (host ast)

/-- Where the path takes `$last`, the object has no key of that name. -/
def PassesNoKeyLast (path : OcPath) : Prop :=
  ∀ root subs, ast.root = some root → concatSegments path = .ok subs → NoKeyLast host root subs

/-- The other path takes `$last` at the node of the path. -/
def TakesLast (path other : OcPath) : Prop :=
  ∃ root subs others, ast.root = some root ∧ concatSegments path = .ok subs ∧
    concatSegments other = .ok others ∧ TakesLastAt host root subs others

/-- The other path leads to the node of the path, or to a container of it. -/
def IsAbove (path other : OcPath) : Prop :=
  ∃ root subs others, ast.root = some root ∧ concatSegments path = .ok subs ∧
    concatSegments other = .ok others ∧ LeadsAbove host root subs others

variable {host ast}

/-- The value under the new key is read back, and what could be resolved shows what it showed: the
object and its containers their kind and line, everything else the node it was. -/
structure ReadBack (host : JsoncHost) (ast new : JsoncAst) (path atKey : OcPath) (key : Str)
    (node : JsoncValue) : Prop where
  entry : ∃ walked, resolveJsoncOcPath host new atKey =
    .ok (some (.objectEntry ⟨key, node, 0⟩ walked))
  shown : resolveOcPath host new atKey = .ok (some (jsoncValueToMatch node 0))
  kept : ∀ other found, ¬ TakesLast host ast path other →
    resolveOcPath host ast other = .ok (some found) →
      resolveOcPath host new other = .ok (some (found.onto new))
  same : ∀ other found, ¬ TakesLast host ast path other → ¬ IsAbove host ast path other →
    resolveJsoncOcPath host ast other = .ok (some found) →
      resolveJsoncOcPath host new other = .ok (some found)

/-! ## Wildcards and markers -/

theorem isPatternIn_eq_false {slots : List Str} (h : isPatternIn slots = .ok false) :
    ∃ parts, slots.mapM (splitRespectingBrackets · '.') = .ok parts := by
  induction slots with
  | nil => exact ⟨[], rfl⟩
  | cons slot slots ih =>
    rw [isPatternIn] at h
    obtain ⟨part, hpart, h⟩ := bind_eq_ok_iff.mp h
    split at h
    · exact absurd (Except.ok.inj h) (by simp)
    · obtain ⟨parts, hparts⟩ := ih h
      refine ⟨part :: parts, ?_⟩
      rw [mapM_cons, hpart, hparts]
      rfl

theorem isPatternIn_ok {slots : List Str} {parts : List (List Str)}
    (h : slots.mapM (splitRespectingBrackets · '.') = .ok parts) :
    ∃ found, isPatternIn slots = .ok found := by
  induction slots generalizing parts with
  | nil => exact ⟨false, rfl⟩
  | cons slot slots ih =>
    rw [mapM_cons] at h
    obtain ⟨part, hpart, h⟩ := bind_eq_ok_iff.mp h
    obtain ⟨rest, hrest, -⟩ := bind_eq_ok_iff.mp h
    obtain ⟨found, hfound⟩ := ih hrest
    rw [isPatternIn, hpart]
    by_cases hany : part.any isPatternSub = true
    · refine ⟨true, ?_⟩
      show (if part.any isPatternSub = true then _ else _) = _
      rw [if_pos hany]
      rfl
    · refine ⟨found, ?_⟩
      show (if part.any isPatternSub = true then _ else _) = _
      rw [if_neg hany]
      exact hfound

theorem mapM_of_concatSegments (h : concatSegments path = .ok subs) :
    ∃ parts, (pathSlots path).mapM (splitRespectingBrackets · '.') = .ok parts ∧
      parts.flatten = subs := by
  rw [concatSegments_eq rfl] at h
  cases hparts : (pathSlots path).mapM (splitRespectingBrackets · '.') with
  | error e =>
    rw [hparts] at h
    exact absurd h (by simp [Except.map])
  | ok parts =>
    rw [hparts] at h
    exact ⟨parts, rfl, Except.ok.inj h⟩

/-- The marker does not change what a key is split into. -/
theorem split_marked (h : splitRespectingBrackets key '.' = .ok [key]) :
    splitRespectingBrackets ('+' :: key) '.' = .ok ['+' :: key] := by
  have hdot : IsPathDelimiter '.' := .inr (.inl rfl)
  have hkey := ((splitRespectingBrackets_eq_ok_iff hdot).mp h).2.1 key mem_cons_self
  have hplus : Free scanBracketAware '.' ['+'] :=
    free_singleton (isDelimiter_of_not_bracket (by decide) (by decide)) (by decide)
  refine (splitRespectingBrackets_eq_ok_iff hdot).mpr ⟨by simp, ?_, ?_⟩
  · intro part hpart
    rw [mem_singleton.mp hpart]
    exact hplus.append hkey
  · rw [joinWith, intercalate_singleton]

theorem detectInsertion_marked (h : path.slash ('+' :: key) = some atInsertion) :
    detectInsertion atInsertion = some ⟨path, markerOf key⟩ := by
  unfold detectInsertion
  rw [(slash_spec h).2]
  rfl

theorem detectInsertion_parent {slot : Str} {info : InsertionInfo}
    (h : path.slash slot = some atKey) (hinfo : detectInsertion atKey = some info) :
    info.parentPath = path := by
  unfold detectInsertion at hinfo
  rw [(slash_spec h).2] at hinfo
  dsimp only at hinfo
  split at hinfo
  · rw [← some.inj hinfo]
  · exact nomatch hinfo

theorem pathSlots_of_splitLastSlot {slot : Str} {parentPath : OcPath}
    (h : splitLastSlot path = some (slot, parentPath)) :
    pathSlots path = pathSlots parentPath ++ [slot] := by
  obtain ⟨file, first, second, third, session⟩ := path
  unfold splitLastSlot at h
  cases third with
  | some last =>
    obtain ⟨hslot, hparent⟩ := Prod.mk.inj (some.inj h)
    rw [← hslot, ← hparent]
    simp [pathSlots]
  | none =>
    cases second with
    | some last =>
      obtain ⟨hslot, hparent⟩ := Prod.mk.inj (some.inj h)
      rw [← hslot, ← hparent]
      simp [pathSlots]
    | none =>
      cases first with
      | some last =>
        obtain ⟨hslot, hparent⟩ := Prod.mk.inj (some.inj h)
        rw [← hslot, ← hparent]
        simp [pathSlots]
      | none => cases h

/-- The parent of an insertion is a beginning of its path. -/
theorem concatSegments_parent {info : InsertionInfo} (h : detectInsertion path = some info)
    (hwild : hasWildcard path = .ok false) :
    ∃ subs rest, concatSegments info.parentPath = .ok subs ∧
      concatSegments path = .ok (subs ++ rest) := by
  obtain ⟨parts, hparts⟩ := isPatternIn_eq_false hwild
  unfold detectInsertion at h
  cases hsplit : splitLastSlot path with
  | none =>
    rw [hsplit] at h
    exact nomatch h
  | some pair =>
    obtain ⟨slot, parentPath⟩ := pair
    rw [hsplit] at h
    have hparent : info.parentPath = parentPath := by
      dsimp only at h
      split at h
      · rw [← some.inj h]
      · exact nomatch h
    have hslots := pathSlots_of_splitLastSlot hsplit
    rw [hslots, mapM_append] at hparts
    obtain ⟨front, hfront, hparts⟩ := bind_eq_ok_iff.mp hparts
    obtain ⟨last, hlast, hall⟩ := bind_eq_ok_iff.mp hparts
    refine ⟨front.flatten, last.flatten, ?_, ?_⟩
    · rw [hparent, concatSegments_eq rfl, hfront]
      rfl
    · rw [concatSegments_eq hslots, mapM_append, hfront]
      show Except.map _ (([slot].mapM (splitRespectingBrackets · '.')).bind _) = _
      rw [hlast]
      show Except.ok (front ++ last).flatten = _
      rw [flatten_append]

/-! ## The universal functions -/

/-- What resolving a path comes to, where it throws nothing. -/
theorem resolveOcPath_eq_ok {found : Option OcMatch} (h : resolveOcPath host ast path = .ok found) :
    hasWildcard path = .ok false ∧ ((∃ info point, detectInsertion path = some info ∧
        resolveJsoncInsertion host ast info = .ok point ∧
        found = point.map fun (container, line) => .insertionPoint container line) ∨
      (detectInsertion path = none ∧ ∃ resolved, resolveJsoncOcPath host ast path = .ok resolved ∧
        found = resolved.map (·.toUniversal))) := by
  unfold resolveOcPath at h
  cases hwild : hasWildcard path with
  | error e =>
    rw [hwild] at h
    exact absurd h (by simp [Except.mapError, bind, Except.bind])
  | ok wild =>
    rw [hwild] at h
    change (if wild = true then Except.error UniversalError.wildcardInResolve else _) = _ at h
    cases wild with
    | true =>
      rw [if_pos rfl] at h
      exact nomatch h
    | false =>
      rw [if_neg Bool.false_ne_true] at h
      refine ⟨rfl, ?_⟩
      cases hinfo : detectInsertion path with
      | some info =>
        rw [hinfo] at h
        dsimp only at h
        cases hpoint : resolveJsoncInsertion host ast info with
        | error e =>
          rw [hpoint] at h
          exact absurd h (by simp [Except.mapError, bind, Except.bind])
        | ok point =>
          rw [hpoint] at h
          exact .inl ⟨info, point, rfl, hpoint, (Except.ok.inj h).symm⟩
      | none =>
        rw [hinfo] at h
        dsimp only at h
        cases hresolved : resolveJsoncOcPath host ast path with
        | error e =>
          rw [hresolved] at h
          exact absurd h (by simp [Except.mapError, bind, Except.bind])
        | ok resolved =>
          rw [hresolved] at h
          exact .inr ⟨rfl, resolved, rfl, (Except.ok.inj h).symm⟩

theorem resolveOcPath_insertion {info : InsertionInfo} {point : Option (ContainerKind × ℕ)}
    (hwild : hasWildcard path = .ok false) (hinfo : detectInsertion path = some info)
    (hpoint : resolveJsoncInsertion host ast info = .ok point) : resolveOcPath host ast path =
      .ok (point.map fun (container, line) => .insertionPoint container line) := by
  unfold resolveOcPath
  rw [hwild, hinfo]
  dsimp only
  rw [hpoint]
  rfl

theorem resolveOcPath_plain {resolved : Option JsoncOcPathMatch}
    (hwild : hasWildcard path = .ok false) (hinfo : detectInsertion path = none)
    (hresolved : resolveJsoncOcPath host ast path = .ok resolved) :
    resolveOcPath host ast path = .ok (resolved.map (·.toUniversal)) := by
  unfold resolveOcPath
  rw [hwild, hinfo]
  dsimp only
  rw [hresolved]
  rfl

/-- Where a path can be resolved below an object, but is not, it has no wildcard and no marker. -/
theorem plain_of_unresolved (hroot : ast.root = some root) (hsubs : concatSegments path = .ok subs)
    (hpath : ResolvesTo host root subs steps (.object entries line))
    (hat : path.slash key = some atKey) (h : resolveOcPath host ast atKey = .ok none) :
    hasWildcard atKey = .ok false ∧ detectInsertion atKey = none := by
  obtain ⟨hwild, ⟨info, point, hinfo, hpoint, hfound⟩ | ⟨hinfo, -⟩⟩ := resolveOcPath_eq_ok h
  · obtain ⟨parentPath, marker⟩ := info
    have hparent : parentPath = path := detectInsertion_parent hat hinfo
    rw [hparent, resolveJsoncInsertion_of hroot hsubs hpath] at hpoint
    rw [← Except.ok.inj hpoint] at hfound
    exact absurd hfound (by simp [insertionPoint])
  · exact ⟨hwild, hinfo⟩

/-! ## What is kept -/

/-- After the insertion paths show what they showed. -/
theorem kept_of_rootWith {found : OcMatch} (added : JsoncEntry JsoncValue)
    (hroot : ast.root = some root) (hsubs : concatSegments path = .ok subs)
    (hpath : ResolvesTo host root subs steps (.object entries line))
    (hnew : new.root = some (rootWith root steps entries line added))
    (hlast : ¬ TakesLast host ast path other)
    (h : resolveOcPath host ast other = .ok (some found)) :
    resolveOcPath host new other = .ok (some (found.onto new)) := by
  have hresolve : ∀ {parent : OcPath} {parentSubs rest : List Str} {resolved : JsoncOcPathMatch},
      concatSegments parent = .ok parentSubs → concatSegments other = .ok (parentSubs ++ rest) →
      resolveJsoncOcPath host ast parent = .ok (some resolved) →
      ∃ steps' node node', ResolvesTo host root parentSubs steps' node ∧
        ResolvesTo host (rootWith root steps entries line added) parentSubs steps' node' ∧
        shallow node' = shallow node ∧
        resolved = if parentSubs = [] then .root ast else matchBehind root steps' node := by
    intro parent parentSubs rest resolved hparent hother hresolved
    obtain ⟨root', subs', steps', node, hroot', hsubs', hto, heq⟩ :=
      resolveJsoncOcPath_eq_some hresolved
    rw [hroot] at hroot'
    rw [hparent] at hsubs'
    rw [← some.inj hroot', ← Except.ok.inj hsubs'] at hto
    rw [← Except.ok.inj hsubs', ← some.inj hroot'] at heq
    have hnot : ¬ TakesLastAt host root subs parentSubs := by
      intro ⟨before, sub, after, hsplit, hsub, hplace⟩
      refine hlast ⟨root, subs, parentSubs ++ rest, hroot, hsubs, hother, before, sub,
        after ++ rest, ?_, hsub, hplace⟩
      rw [hsplit, append_assoc, cons_append]
    obtain ⟨node', hto', hshallow, -⟩ := resolvesTo_rootWith added hpath hto hnot
    exact ⟨steps', node, node', hto, hto', hshallow, heq⟩
  obtain ⟨hwild, ⟨info, point, hinfo, hpoint, hfound⟩ | ⟨hinfo, resolved, hresolved, hfound⟩⟩ :=
    resolveOcPath_eq_ok h
  · -- an insertion path: its parent is resolved
    obtain ⟨parentSubs, rest, hparent, hother⟩ := concatSegments_parent hinfo hwild
    obtain ⟨resolved, hresolved, hpoint'⟩ := bind_eq_ok_iff.mp hpoint
    have hpointEq := (Except.ok.inj hpoint').symm
    cases resolved with
    | none =>
      rw [hpointEq] at hfound
      exact nomatch hfound
    | some resolved =>
      obtain ⟨steps', node, node', hto, hto', hshallow, heq⟩ := hresolve hparent hother hresolved
      rw [heq, bind_some, containerNode_of hroot hto, bind_some] at hpointEq
      have hpointNew : resolveJsoncInsertion host new info = .ok (insertionPoint node) := by
        have hmoved : resolveJsoncInsertion host new ⟨info.parentPath, info.marker⟩ =
            .ok (insertionPoint node') := resolveJsoncInsertion_of hnew hparent hto'
        rw [hmoved, ← insertionPoint_shallow node', hshallow, insertionPoint_shallow]
      rw [resolveOcPath_insertion hwild hinfo hpointNew, ← hpointEq, ← hfound]
      cases point with
      | none => exact nomatch hfound
      | some pair =>
        rw [some.inj hfound]
        rfl
  · cases resolved with
    | none => exact nomatch hfound
    | some resolved =>
      obtain ⟨parts, hparts⟩ := isPatternIn_eq_false hwild
      have hother : concatSegments other = .ok parts.flatten := by
        rw [concatSegments_eq rfl, hparts]
        rfl
      obtain ⟨steps', node, node', hto, hto', hshallow, heq⟩ :=
        hresolve hother (by rw [append_nil]; exact hother) hresolved
      rw [resolveOcPath_plain hwild hinfo (resolveJsoncOcPath_of hnew hother hto'),
        some.inj hfound, heq]
      by_cases hnil : parts.flatten = []
      · rw [if_pos hnil, if_pos hnil]
        rfl
      · have hshown : (matchBehind (rootWith root steps entries line added) steps' node').toUniversal =
            ((matchBehind root steps' node).toUniversal).onto new :=
          toUniversal_matchBehind steps' hshallow
        rw [if_neg hnil, if_neg hnil, map_some, hshown]

/-- After the insertion a path that is not above the object leads to the node it led to. -/
theorem same_of_rootWith {found : JsoncOcPathMatch} (added : JsoncEntry JsoncValue)
    (hroot : ast.root = some root) (hsubs : concatSegments path = .ok subs)
    (hpath : ResolvesTo host root subs steps (.object entries line))
    (hnew : new.root = some (rootWith root steps entries line added))
    (hlast : ¬ TakesLast host ast path other) (habove : ¬ IsAbove host ast path other)
    (h : resolveJsoncOcPath host ast other = .ok (some found)) :
    resolveJsoncOcPath host new other = .ok (some found) := by
  obtain ⟨root', others, steps', node, hroot', hothers, hto, heq⟩ := resolveJsoncOcPath_eq_some h
  rw [hroot] at hroot'
  rw [← some.inj hroot'] at hto heq
  have hnot : ¬ TakesLastAt host root subs others := fun htakes =>
    hlast ⟨root, subs, others, hroot, hsubs, hothers, htakes⟩
  have hnotAbove : ¬ LeadsAbove host root subs others := fun hleads =>
    habove ⟨root, subs, others, hroot, hsubs, hothers, hleads⟩
  obtain ⟨node', hto', -, hsame⟩ := resolvesTo_rootWith added hpath hto hnot
  rw [hsame hnotAbove] at hto'
  have hne : others ≠ [] := by
    intro hnil
    refine hnotAbove ⟨[], position steps, ?_, hpath.positionOf, nil_prefix⟩
    rw [hnil]
    rfl
  rw [resolveJsoncOcPath_of hnew hothers hto', heq, if_neg hne, if_neg hne]
  rfl

/-! ## Insertion -/

theorem setOcPath_marked (hinsert : path.slash ('+' :: key) = some atInsertion)
    (hwild : hasWildcard atInsertion = .ok false) : setOcPath host ast atInsertion value =
      setJsoncInsertion host ast ⟨path, markerOf key⟩ value := by
  unfold setOcPath
  rw [hwild, detectInsertion_marked hinsert]
  rfl

/-- A successful insertion is one of the marked key. -/
theorem setJsoncInsertion_of_setOcPath (hinsert : path.slash ('+' :: key) = some atInsertion)
    (h : setOcPath host ast atInsertion value = .ok (.ok new)) :
    setJsoncInsertion host ast ⟨path, markerOf key⟩ value = .ok (.ok new) := by
  cases hwild : hasWildcard atInsertion with
  | error e =>
    unfold setOcPath at h
    rw [hwild] at h
    exact absurd h (by simp [bind, Except.bind])
  | ok wild =>
    cases wild with
    | true =>
      unfold setOcPath at h
      rw [hwild] at h
      exact absurd (Except.ok.inj h) (by simp)
    | false =>
      rw [← h]
      exact (setOcPath_marked hinsert hwild).symm

/-- Where the insertion of the marked key fails, so does `setOcPath`. -/
theorem setOcPath_failure (hsubs : concatSegments path = .ok subs) (hkey : IsPlainKey key)
    (hinsert : path.slash ('+' :: key) = some atInsertion)
    (h : ∃ failure, setJsoncInsertion host ast ⟨path, markerOf key⟩ value = .ok (.error failure)) :
    ∃ failure, setOcPath host ast atInsertion value = .ok (.error failure) := by
  obtain ⟨parts, hparts, -⟩ := mapM_of_concatSegments hsubs
  have hslots : (pathSlots atInsertion).mapM (splitRespectingBrackets · '.') =
      .ok (parts ++ [['+' :: key]]) := by
    rw [(slash_spec hinsert).1]
    exact mapM_split_append hparts (split_marked hkey.single)
  obtain ⟨wild, hwild⟩ := isPatternIn_ok hslots
  change hasWildcard atInsertion = .ok wild at hwild
  cases wild with
  | true =>
    unfold setOcPath
    rw [hwild]
    exact ⟨_, rfl⟩
  | false =>
    rw [setOcPath_marked hinsert hwild]
    exact h

theorem markerOf_eq_keyed {key' : Str} (h : markerOf key = .keyed key') : key' = key := by
  unfold markerOf at h
  split at h
  · exact nomatch h
  split_ifs at h
  exact (InsertionMarker.keyed.inj h).symm

/-- Insertion at a key that is there fails. -/
theorem setJsoncInsertion_existing (hroot : ast.root = some root)
    (hsubs : concatSegments path = .ok subs)
    (hpath : ResolvesTo host root subs steps (.object entries line))
    (hlast : NoKeyLast host root subs) (hexists : entries.any (·.key = key) = true) :
    ∃ failure, setJsoncInsertion host ast ⟨path, markerOf key⟩ value = .ok (.error failure) := by
  unfold setJsoncInsertion
  rw [resolveJsoncInsertion_of hroot hsubs hpath]
  dsimp only [bind, Except.bind]
  cases host.jsonParse value with
  | none => exact ⟨_, rfl⟩
  | some json =>
    cases hmarker : markerOf key with
    | bare => exact ⟨_, rfl⟩
    | indexed index => exact ⟨_, rfl⟩
    | keyed key' =>
      rw [markerOf_eq_keyed hmarker]
      show ∃ failure, mutateJsoncContainer host ast path (insertEntry key (jsonToJsoncValue json)) =
        .ok (.error failure)
      have hmutate : mutateAt host root subs (insertEntry key (jsonToJsoncValue json)) = none := by
        rw [mutateAt_eq, bind_eq_none_iff]
        intro steps' hsteps'
        rw [walks_agree hlast hpath.steps_eq hsteps', hpath.node_eq, bind_some, insertEntry,
          if_pos hexists]
        rfl
      unfold mutateJsoncContainer
      rw [hroot]
      dsimp only
      rw [hsubs]
      dsimp only [bind, Except.bind]
      rw [hmutate]
      exact ⟨_, rfl⟩

/-- Insertion of a key under what is no object fails. -/
theorem setJsoncInsertion_no_object {found : Option JsoncOcPathMatch}
    (hpath : resolveJsoncOcPath host ast path = .ok found)
    (hobject : ∀ entries line, found.bind (containerNode ast) ≠ some (.object entries line))
    (hindex : (∃ items line, found.bind (containerNode ast) = some (.array items line)) →
      key.all (·.isDigit) = false)
    (hne : key ≠ []) :
    ∃ failure, setJsoncInsertion host ast ⟨path, markerOf key⟩ value = .ok (.error failure) := by
  have hpoint : resolveJsoncInsertion host ast ⟨path, markerOf key⟩ =
      .ok ((found.bind (containerNode ast)).bind insertionPoint) := by
    unfold resolveJsoncInsertion
    dsimp only
    rw [hpath]
    rfl
  unfold setJsoncInsertion
  rw [hpoint]
  cases hcontainer : found.bind (containerNode ast) with
  | none => exact ⟨_, rfl⟩
  | some container =>
    rw [hcontainer] at hobject
    cases container with
    | object entries line => exact absurd rfl (hobject entries line)
    | array items line =>
      have hkeyed : markerOf key = .keyed key := by
        have hdigits := hindex ⟨items, line, hcontainer⟩
        rw [markerOf, if_neg hne, if_neg (Bool.eq_false_iff.mp hdigits)]
      rw [hkeyed]
      dsimp only [bind, Except.bind]
      cases host.jsonParse value with
      | none => exact ⟨_, rfl⟩
      | some json => exact ⟨_, rfl⟩
    | string text line => exact ⟨_, rfl⟩
    | number text line => exact ⟨_, rfl⟩
    | boolean flag line => exact ⟨_, rfl⟩
    | null line => exact ⟨_, rfl⟩

/-- A successful insertion of a plain key is read back. -/
theorem readBack_of_set (hroot : ast.root = some root) (hsubs : concatSegments path = .ok subs)
    (hpath : ResolvesTo host root subs steps (.object entries line))
    (hlast : NoKeyLast host root subs) (hkey : IsPlainKey key) (hat : path.slash key = some atKey)
    (hunresolved : resolveOcPath host ast atKey = .ok none)
    (h : setJsoncInsertion host ast ⟨path, markerOf key⟩ value = .ok (.ok new)) :
    ∃ json, host.jsonParse value = some json ∧
      ReadBack host ast new path atKey key (jsonToJsoncValue json) := by
  obtain ⟨key', json, hmarker, hjson, habsent, hnew⟩ := setJsoncInsertion_ok hroot hsubs hpath hlast h
  rw [markerOf_eq_keyed hmarker] at habsent hnew
  obtain ⟨hwild, hinfo⟩ := plain_of_unresolved hroot hsubs hpath hat hunresolved
  have hatSubs := concatSegments_slash hat hsubs hkey.single
  have hadded := resolvesTo_added ⟨key, jsonToJsoncValue json, 0⟩ hpath hkey.unquoted hkey.ne_nil
    habsent
  have hread := resolveJsoncOcPath_of hnew hatSubs hadded
  rw [if_neg (by simp)] at hread
  have hentry : ∃ walked, resolveJsoncOcPath host new atKey =
      .ok (some (.objectEntry ⟨key, jsonToJsoncValue json, 0⟩ walked)) := by
    obtain ⟨walked, hwalked⟩ := matchBehind_entry (rootWith root steps entries line
      ⟨key, jsonToJsoncValue json, 0⟩) (jsonToJsoncValue json) steps entries.length key key 0
    refine ⟨walked, hread.trans ?_⟩
    rw [← hwalked]
    rfl
  refine ⟨json, hjson, hentry, ?_, ?_, ?_⟩
  · obtain ⟨walked, hwalked⟩ := hentry
    rw [resolveOcPath_plain hwild hinfo hwalked]
    rfl
  · intro other found hnot hfound
    exact kept_of_rootWith _ hroot hsubs hpath hnew hnot hfound
  · intro other found hnot habove hfound
    exact same_of_rootWith _ hroot hsubs hpath hnew hnot habove hfound

/-- Insertion of a plain key: read back where it succeeds, refused at a key that is there and under
what is no object. Under an array a number is an index. -/
theorem setOcPath_keyed {host : JsoncHost} {ast : JsoncAst} {path atKey atInsertion : OcPath}
    {key value : Str} (hkey : IsPlainKey key) (hat : path.slash key = some atKey)
    (hinsert : path.slash ('+' :: key) = some atInsertion) {found : Option JsoncOcPathMatch}
    (hpath : resolveJsoncOcPath host ast path = .ok found) :
    (∀ entries line, found.bind (containerNode ast) = some (.object entries line) →
      PassesNoKeyLast host ast path → (∀ new, resolveOcPath host ast atKey = .ok none →
          setOcPath host ast atInsertion value = .ok (.ok new) →
          ∃ json, host.jsonParse value = some json ∧
            ReadBack host ast new path atKey key (jsonToJsoncValue json)) ∧
        (entries.any (·.key = key) = true →
          ∃ failure, setOcPath host ast atInsertion value = .ok (.error failure))) ∧
    ((∀ entries line, found.bind (containerNode ast) ≠ some (.object entries line)) →
      ((∃ items line, found.bind (containerNode ast) = some (.array items line)) →
        key.all (·.isDigit) = false) →
      ∀ subs, concatSegments path = .ok subs →
        ∃ failure, setOcPath host ast atInsertion value = .ok (.error failure)) := by
  refine ⟨?_, ?_⟩
  · intro entries line hobject hpasses
    obtain ⟨resolved, hfound, hcontainer⟩ := Option.bind_eq_some_iff.mp hobject
    rw [hfound] at hpath
    obtain ⟨root, subs, steps, node, hroot, hsubs, hto, heq⟩ := resolveJsoncOcPath_eq_some hpath
    rw [heq, containerNode_of hroot hto] at hcontainer
    rw [some.inj hcontainer] at hto
    have hlast := hpasses root subs hroot hsubs
    refine ⟨?_, ?_⟩
    · intro new hunresolved hset
      have hmarked := setJsoncInsertion_of_setOcPath hinsert hset
      exact readBack_of_set hroot hsubs hto hlast hkey hat hunresolved hmarked
    · intro hexists
      exact setOcPath_failure hsubs hkey hinsert
        (setJsoncInsertion_existing hroot hsubs hto hlast hexists)
  · intro hobject hindex subs hsubs
    exact setOcPath_failure hsubs hkey hinsert
      (setJsoncInsertion_no_object hpath hobject hindex hkey.ne_nil)

/-! ## A small document -/

/-- A process that reads decimal numerals. -/
def decimalHost : JsoncHost where
  jsonParse := fun text =>
    if text ≠ [] ∧ text.all (·.isDigit) then some (.number text) else none
  toIndex := fun seg =>
    if seg ≠ [] ∧ seg.all (·.isDigit) then some (digitsValue seg) else none
  toIndex_head := by
    intro c rest hc
    rcases hc with rfl | rfl
    · rfl
    · rfl
  setStructuredLeaf := fun _ _ _ => .ok (.error ⟨.unresolved, none⟩)

/-- An object with one entry, on its second line. -/
def smallAst : JsoncAst where
  raw := ['\x7b', '\n'] ++ "\"a\": 1\n".toList ++ ['\x7d']
  root := some (.object [⟨"a".toList, .number "1".toList (some 2), 2⟩] (some 1))

/-- The object with another entry behind it. -/
def largerAst : JsoncAst where
  raw := ['\x7b', ' '] ++ "\"a\": 1, \"b\": 2".toList ++ [' ', '\x7d']
  root := some (.object [⟨"a".toList, .number "1".toList (some 2), 2⟩,
    ⟨"b".toList, .number "2".toList none, 0⟩] (some 1))

def smallPath (slot : Option Str) : OcPath := ⟨"f.jsonc".toList, slot, none, none, none⟩

theorem setOcPath_keyed_small : ∃ json, decimalHost.jsonParse "2".toList = some json ∧
      ReadBack decimalHost smallAst largerAst (smallPath none) (smallPath (some "b".toList))
        "b".toList (jsonToJsoncValue json) := by
  have hpasses : PassesNoKeyLast decimalHost smallAst (smallPath none) := by
    intro root subs _ hsubs before sub after hsplit
    rw [← Except.ok.inj hsubs] at hsplit
    exact absurd hsplit (by simp)
  exact ((setOcPath_keyed ⟨by decide, by rfl, by decide⟩ rfl rfl rfl).1 _ _ rfl hpasses).1 _ rfl rfl

/-- The path `$last` resolves to another value after the insertion. -/
theorem not_kept_last :
    resolveOcPath decimalHost smallAst (smallPath (some "b".toList)) = .ok none ∧
      setOcPath decimalHost smallAst (smallPath (some "+b".toList)) "2".toList =
        .ok (.ok largerAst) ∧
      resolveOcPath decimalHost smallAst (smallPath (some "$last".toList)) =
        .ok (some (.leaf "1".toList .number 2)) ∧
      resolveOcPath decimalHost largerAst (smallPath (some "$last".toList)) =
        .ok (some (.leaf "2".toList .number 0)) :=
  ⟨rfl, rfl, rfl, rfl⟩

end OpenClaw.Oc
