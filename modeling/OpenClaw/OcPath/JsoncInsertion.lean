import OpenClaw.OcPath.JsoncTree

/-!
# Keys inserted into JSONC documents

A value is inserted under a plain key of an object. The key is read back, and what else could be
resolved still is, as it was. The object is found by two walks, which part only at a key that is
called `$last`; and a path that takes `$last` at the object takes the new entry.
-/

namespace OpenClaw.Oc

open TreeAddress Option

variable {host : JsoncHost} {ast new : JsoncAst} {path other atKey atInsertion : OcPath}
  {root node : JsoncValue} {subs others : List Str} {key value : Str}

/-! ## Places -/

variable (host root)

/-- The position that the sub-segments of a path lead to. -/
def positionOf (subs : List Str) : Option (List ℕ) :=
  (resolveWalk host root subs).map position

/-- Where a path takes `$last`, the object has no key of that name. -/
def NoKeyLast (subs : List Str) : Prop :=
  ∀ before sub after, subs = before ++ sub :: after → unquoteSeg sub = posLast →
    ∀ position entries line, positionOf host root before = some position →
      nodeAt jsoncTrees root position = some (.object entries line) →
        ∀ entry ∈ entries, entry.key ≠ posLast

/-- A path takes `$last` where another one ends. -/
def TakesLastAt (subs others : List Str) : Prop :=
  ∃ before sub after, others = before ++ sub :: after ∧ unquoteSeg sub = posLast ∧
    ∃ position, positionOf host root before = some position ∧
      positionOf host root subs = some position

/-- A path leads to where another one ends, or to a container of it. -/
def LeadsAbove (subs others : List Str) : Prop :=
  ∃ above position, positionOf host root others = some above ∧
    positionOf host root subs = some position ∧ above <+: position

variable {host root}

/-! ## Numerals -/

theorem toIndex_posLast : host.toIndex posLast = none :=
  host.toIndex_head '$' "last".toList (.inr rfl)

variable {seg : Str} {steps : List (ℕ × ResolveNote)}

theorem toIndex_quoted (h : isQuotedSeg seg = true) : host.toIndex seg = none := by
  cases seg with
  | nil => exact nomatch h
  | cons c rest =>
    refine host.toIndex_head c rest (.inl ?_)
    unfold isQuotedSeg at h
    have hhead : (c :: rest).head? = some '"' := by
      simp only [Bool.and_eq_true, decide_eq_true_eq] at h
      exact h.1.2
    exact some.inj hhead

/-! ## The two walks -/

theorem lastKey_of_ne {keys : List Str} (h : seg ≠ posLast) : lastKey seg keys = none := by
  unfold lastKey isPositionalSeg
  rw [if_neg (by simpa using h)]

theorem lastIndex_of_ne {size : ℕ} (h : seg ≠ posLast) : lastIndex seg size = none := by
  unfold lastIndex isPositionalSeg
  rw [if_neg (by simp [h])]

/-- What the editor and the resolver choose is the same child, but for a key `$last`. -/
theorem choose_agree {label : JsoncLabel} {sub : Str} {step : ℕ × ResolveNote} {step' : ℕ × Unit}
    (hlast : unquoteSeg sub = posLast → ∀ keys, label = .object keys →
      ∀ entry ∈ keys, entry.1 ≠ posLast)
    (h : resolveChoose host label sub = some step) (h' : mutateChoose host label sub = some step') :
    step'.1 = step.1 := by
  unfold resolveChoose at h
  unfold mutateChoose at h'
  dsimp only at h h'
  split at h
  · cases h
  split at h'
  · cases h'
  cases label with
  | object keys =>
    dsimp only at h h'
    obtain ⟨i, hi, hstep⟩ := Option.map_eq_some_iff.mp h
    obtain ⟨i', hi', hstep'⟩ := Option.map_eq_some_iff.mp h'
    have hne : unquoteSeg sub ≠ posLast := by
      intro heq
      obtain ⟨hlt, hkey, -⟩ := List.findIdx?_eq_some_iff_getElem.mp hi'
      have hsame : keys[i'].1 = posLast := (of_decide_eq_true hkey).trans heq
      exact hlast heq keys rfl keys[i'] (List.getElem_mem hlt) hsame
    rw [lastKey_of_ne hne, getD_none, hi'] at hi
    rw [← hstep, ← hstep', some.inj hi]
  | array size =>
    dsimp only at h h'
    obtain ⟨i, hi, hstep⟩ := Option.map_eq_some_iff.mp h
    obtain ⟨i', hi', hstep'⟩ := Option.map_eq_some_iff.mp h'
    have hplain : isQuotedSeg sub = false := by
      rw [Bool.eq_false_iff]
      intro hquoted
      rw [toIndex_quoted hquoted] at hi'
      cases hi'
    have hself : unquoteSeg sub = sub := by
      rw [unquoteSeg, hplain]
      rfl
    have hne : sub ≠ posLast := by
      intro heq
      rw [heq, toIndex_posLast] at hi'
      cases hi'
    rw [hself, lastIndex_of_ne hne, getD_none, hi'] at hi
    rw [← hstep, ← hstep', some.inj hi]
  | leaf => cases h

theorem positionOf_nil : positionOf host root [] = some [] := rfl

theorem NoKeyLast.cons {sub : Str} {step : ℕ × ResolveNote} {child : JsoncValue}
    (h : NoKeyLast host root (sub :: subs))
    (hstep : resolveChoose host (jsoncLabel root) sub = some step)
    (hchild : jsoncChild root step.1 = some child) : NoKeyLast host child subs := by
  intro before seg after hsplit hseg pos entries line hpos hnode
  refine h (sub :: before) seg after (by rw [hsplit]; rfl) hseg (step.1 :: pos) entries line ?_ ?_
  · obtain ⟨steps, hsteps, heq⟩ := Option.map_eq_some_iff.mp hpos
    refine Option.map_eq_some_iff.mpr ⟨step :: steps, ?_, ?_⟩
    · exact walk_cons_eq_some.mpr ⟨step, child, steps, hstep, hchild, hsteps, rfl⟩
    · rw [← heq]
      rfl
  · exact nodeAt_cons_eq_some.mpr ⟨child, hchild, hnode⟩

/-- The editor and the resolver reach the same place, but for a key `$last`. -/
theorem walks_agree {steps' : List (ℕ × Unit)}
    (hlast : NoKeyLast host root subs) (h : resolveWalk host root subs = some steps)
    (h' : mutateWalk host root subs = some steps') : position steps' = position steps := by
  induction subs generalizing root steps steps' with
  | nil =>
    rw [← some.inj h, ← some.inj h']
    rfl
  | cons sub subs ih =>
    obtain ⟨step, child, rest, hstep, hchild, hrest, heq⟩ := walk_cons_eq_some.mp h
    obtain ⟨step', child', rest', hstep', hchild', hrest', heq'⟩ := walk_cons_eq_some.mp h'
    have hsame : step'.1 = step.1 := by
      refine choose_agree ?_ hstep hstep'
      intro hsub keys hkeys entry hentry
      change jsoncLabel root = .object keys at hkeys
      cases root with
      | object entries line =>
        have hmap : entries.map entryKey = keys := JsoncLabel.object.inj hkeys
        rw [← hmap] at hentry
        obtain ⟨found, hfound, hkey⟩ := List.mem_map.mp hentry
        rw [← hkey]
        exact hlast [] sub subs rfl hsub [] entries line positionOf_nil rfl found hfound
      | array items line => exact absurd hkeys (by simp [jsoncLabel])
      | string value line => exact absurd hkeys (by simp [jsoncLabel])
      | number value line => exact absurd hkeys (by simp [jsoncLabel])
      | boolean value line => exact absurd hkeys (by simp [jsoncLabel])
      | null line => exact absurd hkeys (by simp [jsoncLabel])
    rw [hsame] at hchild'
    rw [some.inj (hchild'.symm.trans hchild)] at hrest'
    have hdown := ih (hlast.cons hstep hchild) hrest hrest'
    rw [heq, heq', position, position, List.map_cons, List.map_cons, hsame]
    exact congrArg (step.1 :: ·) hdown

/-! ## Resolving -/

/-- The match of a node behind some steps from the root. -/
def matchBehind (root : JsoncValue) (steps : List (ℕ × ResolveNote)) (node : JsoncValue) :
    JsoncOcPathMatch := (walkedBehind ⟨none, root, []⟩ steps node).match

/-- What is resolved: the document, or the node that the sub-segments lead to. -/
structure ResolvesTo (host : JsoncHost) (root : JsoncValue) (subs : List Str)
    (steps : List (ℕ × ResolveNote)) (node : JsoncValue) : Prop where
  steps_eq : resolveWalk host root subs = some steps
  node_eq : nodeAt jsoncTrees root (position steps) = some node

theorem ResolvesTo.positionOf (h : ResolvesTo host root subs steps node) :
    positionOf host root subs = some (position steps) := congrArg (·.map position) h.steps_eq

theorem resolveJsoncOcPath_eq (hroot : ast.root = some root)
    (hsubs : concatSegments path = .ok subs) : resolveJsoncOcPath host ast path =
      if subs = [] then .ok (some (.root ast))
      else .ok ((resolveFrom host ⟨none, root, []⟩ (subs.map unquoteSeg)).map Walked.match) := by
  unfold resolveJsoncOcPath
  rw [hroot]
  dsimp only
  rw [hsubs]
  show (if subs = [] then _ else _) = _
  split_ifs <;> rfl

/-- A path is resolved to the document, or to the node its sub-segments lead to. -/
theorem resolveJsoncOcPath_eq_some {found : JsoncOcPathMatch}
    (h : resolveJsoncOcPath host ast path = .ok (some found)) :
    ∃ root subs steps node, ast.root = some root ∧ concatSegments path = .ok subs ∧
      ResolvesTo host root subs steps node ∧
      found = if subs = [] then .root ast else matchBehind root steps node := by
  cases hroot : ast.root with
  | none =>
    unfold resolveJsoncOcPath at h
    rw [hroot] at h
    exact absurd (Except.ok.inj h) (by simp)
  | some root =>
    cases hsubs : concatSegments path with
    | error e =>
      unfold resolveJsoncOcPath at h
      rw [hroot] at h
      dsimp only at h
      rw [hsubs] at h
      exact absurd h (by simp [bind, Except.bind])
    | ok subs =>
      rw [resolveJsoncOcPath_eq hroot hsubs] at h
      by_cases hnil : subs = []
      · rw [if_pos hnil] at h
        refine ⟨root, subs, [], root, rfl, rfl, ⟨?_, rfl⟩, ?_⟩
        · rw [hnil]
          rfl
        · rw [if_pos hnil]
          exact (some.inj (Except.ok.inj h)).symm
      · rw [if_neg hnil] at h
        obtain ⟨walked, hwalked, hmatch⟩ := Option.map_eq_some_iff.mp (Except.ok.inj h)
        rw [resolveFrom_eq] at hwalked
        obtain ⟨steps, hsteps, hwalked⟩ := Option.bind_eq_some_iff.mp hwalked
        obtain ⟨node, hnode, hwalked⟩ := Option.map_eq_some_iff.mp hwalked
        refine ⟨root, subs, steps, node, rfl, rfl, ⟨hsteps, hnode⟩, ?_⟩
        rw [if_neg hnil, ← hmatch, ← hwalked]
        rfl

/-- The sub-segments that lead to a node resolve the path. -/
theorem resolveJsoncOcPath_of (hroot : ast.root = some root)
    (hsubs : concatSegments path = .ok subs) (h : ResolvesTo host root subs steps node) :
    resolveJsoncOcPath host ast path =
      .ok (some (if subs = [] then .root ast else matchBehind root steps node)) := by
  rw [resolveJsoncOcPath_eq hroot hsubs]
  by_cases hnil : subs = []
  · rw [if_pos hnil, if_pos hnil]
  · have hsteps : resolveWalk host root subs = some steps := h.steps_eq
    rw [if_neg hnil, if_neg hnil, resolveFrom_eq, hsteps, bind_some, h.node_eq]
    rfl

theorem containerNode_matchBehind (steps : List (ℕ × ResolveNote)) :
    containerNode ast (matchBehind root steps node) = some node := by
  unfold matchBehind walkedBehind Walked.match
  dsimp only
  split <;> rfl

/-- The container is the node that the sub-segments lead to. -/
theorem containerNode_of (hroot : ast.root = some root) (h : ResolvesTo host root subs steps node) :
    containerNode ast (if subs = [] then .root ast else matchBehind root steps node) =
      some node := by
  by_cases hnil : subs = []
  · have hsteps : steps = [] := by
      have hlength := length_of_walk h.steps_eq
      rw [hnil] at hlength
      exact List.length_eq_zero_iff.mp hlength
    have hnode : some root = some node := by
      have hat := h.node_eq
      rw [hsteps] at hat
      exact hat
    rw [if_pos hnil, ← hnode]
    exact hroot
  · rw [if_neg hnil]
    exact containerNode_matchBehind steps

/-! ## What a path shows -/

/-- A value without its children. -/
def shallow : JsoncValue → JsoncValue
  | .object _ line => .object [] line
  | .array _ line => .array [] line
  | value => value

theorem shallow_setChild (value : JsoncValue) (i : ℕ) (child : JsoncValue) :
    shallow (jsoncSetChild value i child) = shallow value := by
  cases value <;> rfl

theorem jsoncValueToMatch_shallow (value : JsoncValue) (line : ℕ) :
    jsoncValueToMatch (shallow value) line = jsoncValueToMatch value line := by
  cases value <;> rfl

theorem line_shallow (value : JsoncValue) : (shallow value).line = value.line := by
  cases value <;> rfl

theorem insertionPoint_shallow (value : JsoncValue) :
    insertionPoint (shallow value) = insertionPoint value := by
  cases value <;> rfl

/-- A match as it stands in another document. -/
def OcMatch.onto (ast : JsoncAst) : OcMatch → OcMatch
  | .root _ line => .root ast line
  | found => found

/-- Nodes that differ in their children only show the same match. -/
theorem toUniversal_matchBehind {root' node' : JsoncValue} (steps : List (ℕ × ResolveNote))
    (h : shallow node' = shallow node) : (matchBehind root' steps node').toUniversal =
      ((matchBehind root steps node).toUniversal).onto new := by
  have hmatch : ∀ line, jsoncValueToMatch node' line = jsoncValueToMatch node line := by
    intro line
    rw [← jsoncValueToMatch_shallow node', h, jsoncValueToMatch_shallow]
  have hline : node'.line = node.line := by
    rw [← line_shallow node', h, line_shallow]
  have honto : ∀ line, (jsoncValueToMatch node line).onto new = jsoncValueToMatch node line := by
    intro line
    cases node <;> rfl
  unfold matchBehind walkedBehind Walked.match
  dsimp only
  split
  · show jsoncValueToMatch node' _ = (jsoncValueToMatch node _).onto new
    rw [honto, hmatch]
  · show jsoncValueToMatch node' _ = (jsoncValueToMatch node _).onto new
    rw [honto, hmatch, hline]

end OpenClaw.Oc
