import Mathlib.Data.List.Basic
import Mathlib.Tactic.Common

/-!
# Addresses in trees

A node has a label and numbered children. An address is a list of segments; each segment chooses a
child by the label of the node it is read at. Where a node is exchanged for one that extends it,
addresses lead where they led before.
-/

namespace TreeAddress

open List Option

/-- Trees of nodes `N` with labels `L`. Replacing a child leaves the label and the other children
as they are. -/
structure Trees (N L : Type*) where
  label : N → L
  child : N → ℕ → Option N
  setChild : N → ℕ → N → N
  label_setChild : ∀ node i new, label (setChild node i new) = label node
  child_setChild_self : ∀ node i old new, child node i = some old →
    child (setChild node i new) i = some new
  child_setChild_ne : ∀ node i j new, j ≠ i → child (setChild node i new) j = child node j

variable {N L S W : Type*} (trees : Trees N L)

/-- The node at a position. -/
def nodeAt : N → List ℕ → Option N
  | node, [] => some node
  | node, i :: rest => (trees.child node i).bind (nodeAt · rest)

/-- The tree with another node at a position. -/
def setAt : N → List ℕ → N → N
  | _, [], new => new
  | node, i :: rest, new =>
    match trees.child node i with
    | none => node
    | some child => trees.setChild node i (setAt child rest new)

/-- The steps of an address: the number of a child each, with a note. -/
def walk (choose : L → S → Option (ℕ × W)) : N → List S → Option (List (ℕ × W))
  | _, [] => some []
  | node, seg :: rest =>
    (choose (trees.label node) seg).bind fun step =>
      (trees.child node step.1).bind fun child => (walk choose child rest).map (step :: ·)

def position (steps : List (ℕ × W)) : List ℕ := steps.map Prod.fst

/-- A node has the children of another one, and the admissible segments choose them as there. -/
structure Extends (choose : L → S → Option (ℕ × W)) (Admissible : S → Prop) (old new : N) :
    Prop where
  choose : ∀ seg step, Admissible seg → choose (trees.label old) seg = some step →
    choose (trees.label new) seg = some step
  child : ∀ i node, trees.child old i = some node → trees.child new i = some node

variable {trees} {choose : L → S → Option (ℕ × W)} {Admissible : S → Prop} {root old new node : N}
  {pos other : List ℕ} {segs segs' : List S} {steps : List (ℕ × W)}

/-! ## Walks -/

theorem walk_cons_eq_some {seg : S} : walk trees choose root (seg :: segs) = some steps ↔
      ∃ step child rest, choose (trees.label root) seg = some step ∧
        trees.child root step.1 = some child ∧ walk trees choose child segs = some rest ∧
        steps = step :: rest := by
  rw [walk]
  constructor
  · intro h
    obtain ⟨step, hstep, h⟩ := Option.bind_eq_some_iff.mp h
    obtain ⟨child, hchild, h⟩ := Option.bind_eq_some_iff.mp h
    obtain ⟨rest, hrest, heq⟩ := Option.map_eq_some_iff.mp h
    exact ⟨step, child, rest, hstep, hchild, hrest, heq.symm⟩
  · intro ⟨step, child, rest, hstep, hchild, hrest, heq⟩
    rw [hstep, bind_some, hchild, bind_some, hrest, heq]
    rfl

theorem nodeAt_cons_eq_some {i : ℕ} : nodeAt trees root (i :: pos) = some node ↔
    ∃ child, trees.child root i = some child ∧ nodeAt trees child pos = some node :=
  bind_eq_some_iff

theorem nodeAt_append (root : N) (pos other : List ℕ) :
    nodeAt trees root (pos ++ other) = (nodeAt trees root pos).bind (nodeAt trees · other) := by
  induction pos generalizing root with
  | nil => rfl
  | cons i pos ih =>
    rw [cons_append, nodeAt, nodeAt]
    cases trees.child root i with
    | none => rfl
    | some child => exact ih child

/-- An address leads to a node. -/
theorem exists_nodeAt_of_walk (h : walk trees choose root segs = some steps) :
    ∃ node, nodeAt trees root (position steps) = some node := by
  induction segs generalizing root steps with
  | nil =>
    rw [← some.inj h]
    exact ⟨root, rfl⟩
  | cons seg segs ih =>
    obtain ⟨step, child, rest, _, hchild, hrest, heq⟩ := walk_cons_eq_some.mp h
    obtain ⟨node, hnode⟩ := ih hrest
    rw [heq]
    exact ⟨node, nodeAt_cons_eq_some.mpr ⟨child, hchild, hnode⟩⟩

theorem walk_append_eq_some : walk trees choose root (segs ++ segs') = some steps ↔
    ∃ front node rest, walk trees choose root segs = some front ∧
      nodeAt trees root (position front) = some node ∧ walk trees choose node segs' = some rest ∧
      steps = front ++ rest := by
  induction segs generalizing root steps with
  | nil =>
    constructor
    · intro h
      exact ⟨[], root, steps, rfl, rfl, h, rfl⟩
    · intro ⟨front, node, rest, hfront, hnode, hrest, heq⟩
      rw [← some.inj hfront] at hnode heq
      rw [← some.inj hnode] at hrest
      rw [heq]
      exact hrest
  | cons seg segs ih =>
    rw [cons_append, walk_cons_eq_some]
    constructor
    · intro ⟨step, child, tail, hstep, hchild, htail, heq⟩
      obtain ⟨front, node, rest, hfront, hnode, hrest, htail⟩ := ih.mp htail
      refine ⟨step :: front, node, rest, ?_, ?_, hrest, ?_⟩
      · exact walk_cons_eq_some.mpr ⟨step, child, front, hstep, hchild, hfront, rfl⟩
      · exact nodeAt_cons_eq_some.mpr ⟨child, hchild, hnode⟩
      · rw [heq, htail]
        rfl
    · intro ⟨front, node, rest, hfront, hnode, hrest, heq⟩
      obtain ⟨step, child, tail, hstep, hchild, htail, hcons⟩ := walk_cons_eq_some.mp hfront
      rw [hcons] at hnode heq
      obtain ⟨child', hchild', hnode⟩ := nodeAt_cons_eq_some.mp hnode
      rw [some.inj (hchild'.symm.trans hchild)] at hnode
      exact ⟨step, child, tail ++ rest, hstep, hchild,
        ih.mpr ⟨tail, node, rest, htail, hnode, hrest, rfl⟩, heq⟩

theorem length_of_walk (h : walk trees choose root segs = some steps) :
    steps.length = segs.length := by
  induction segs generalizing root steps with
  | nil =>
    rw [← some.inj h]
    rfl
  | cons seg segs ih =>
    obtain ⟨step, child, rest, _, _, hrest, heq⟩ := walk_cons_eq_some.mp h
    rw [heq, length_cons, length_cons, ih hrest]

/-! ## A node exchanged -/

theorem setAt_cons {child : N} {i : ℕ} (hchild : trees.child root i = some child) :
    setAt trees root (i :: pos) new = trees.setChild root i (setAt trees child pos new) := by
  rw [setAt, hchild]

theorem nodeAt_setAt_self (h : nodeAt trees root pos = some old) :
    nodeAt trees (setAt trees root pos new) pos = some new := by
  induction pos generalizing root with
  | nil => rfl
  | cons i pos ih =>
    obtain ⟨child, hchild, hpos⟩ := nodeAt_cons_eq_some.mp h
    rw [setAt_cons hchild]
    exact nodeAt_cons_eq_some.mpr ⟨_, trees.child_setChild_self root i child _ hchild, ih hpos⟩

/-- Addresses lead where they led before, if their segments are admissible at the node. -/
theorem walk_setAt (h : nodeAt trees root pos = some old)
    (hextends : Extends trees choose Admissible old new)
    (hwalk : walk trees choose root segs = some steps)
    (hadmissible : pos <+: position steps → ∀ seg, segs[pos.length]? = some seg →
      Admissible seg) :
    walk trees choose (setAt trees root pos new) segs = some steps := by
  induction pos generalizing root segs steps with
  | nil =>
    have hroot : root = old := some.inj h
    rw [hroot] at hwalk
    rw [setAt]
    cases segs with
    | nil => exact hwalk
    | cons seg segs =>
      obtain ⟨step, child, rest, hstep, hchild, hrest, heq⟩ := walk_cons_eq_some.mp hwalk
      have hseg := hadmissible nil_prefix seg rfl
      exact walk_cons_eq_some.mpr ⟨step, child, rest, hextends.choose seg step hseg hstep,
        hextends.child step.1 child hchild, hrest, heq⟩
  | cons i pos ih =>
    obtain ⟨child, hchild, hpos⟩ := nodeAt_cons_eq_some.mp h
    rw [setAt_cons hchild]
    cases segs with
    | nil => exact hwalk
    | cons seg segs =>
      obtain ⟨step, next, rest, hstep, hnext, hrest, heq⟩ := walk_cons_eq_some.mp hwalk
      rw [← trees.label_setChild root i (setAt trees child pos new)] at hstep
      by_cases hi : step.1 = i
      · rw [hi] at hnext
        rw [some.inj (hnext.symm.trans hchild)] at hrest
        have hdown : pos <+: position rest → ∀ seg, segs[pos.length]? = some seg →
            Admissible seg := by
          intro hprefix seg hseg
          apply hadmissible
          · rw [heq, position, map_cons, hi]
            exact (prefix_cons_inj i).mpr hprefix
          · exact hseg
        refine walk_cons_eq_some.mpr ⟨step, _, rest, hstep, ?_, ih hpos hrest hdown, heq⟩
        rw [hi]
        exact trees.child_setChild_self root i child _ hchild
      · refine walk_cons_eq_some.mpr ⟨step, next, rest, hstep, ?_, hrest, heq⟩
        rw [trees.child_setChild_ne root i _ _ hi]
        exact hnext

theorem nodeAt_of_extends (hchild : ∀ i node, trees.child old i = some node →
    trees.child new i = some node) (hne : other ≠ []) (h : nodeAt trees old other = some node) :
    nodeAt trees new other = some node := by
  cases other with
  | nil => exact absurd rfl hne
  | cons i other =>
    obtain ⟨child, hi, hother⟩ := nodeAt_cons_eq_some.mp h
    exact nodeAt_cons_eq_some.mpr ⟨child, hchild i child hi, hother⟩

/-- Only the node itself and those above it change. -/
theorem nodeAt_setAt_of_not_prefix (h : nodeAt trees root pos = some old)
    (hchild : ∀ i node, trees.child old i = some node → trees.child new i = some node)
    (hother : nodeAt trees root other = some node) (hnot : ¬ other <+: pos) :
    nodeAt trees (setAt trees root pos new) other = some node := by
  induction pos generalizing root other with
  | nil =>
    rw [← some.inj h] at hchild
    refine nodeAt_of_extends hchild ?_ hother
    intro hnil
    rw [hnil] at hnot
    exact hnot nil_prefix
  | cons i pos ih =>
    obtain ⟨child, hi, hpos⟩ := nodeAt_cons_eq_some.mp h
    rw [setAt_cons hi]
    cases other with
    | nil => exact absurd nil_prefix hnot
    | cons j other =>
      obtain ⟨next, hj, hnext⟩ := nodeAt_cons_eq_some.mp hother
      by_cases hji : j = i
      · rw [hji] at hj hnot ⊢
        rw [some.inj (hj.symm.trans hi)] at hnext
        have hdown : ¬ other <+: pos := fun hprefix => hnot ((prefix_cons_inj i).mpr hprefix)
        exact nodeAt_cons_eq_some.mpr
          ⟨_, trees.child_setChild_self root i child _ hi, ih hpos hnext hdown⟩
      · refine nodeAt_cons_eq_some.mpr ⟨next, ?_, hnext⟩
        rw [trees.child_setChild_ne root i j _ hji]
        exact hj

/-- What does not depend on the children, and is the same for the new node, is the same
everywhere. -/
theorem map_nodeAt_setAt {β : Type*} {view : N → β}
    (hview : ∀ node i child, view (trees.setChild node i child) = view node)
    (hnew : view new = view old) (h : nodeAt trees root pos = some old)
    (hchild : ∀ i node, trees.child old i = some node → trees.child new i = some node)
    (hother : nodeAt trees root other = some node) :
    (nodeAt trees (setAt trees root pos new) other).map view = some (view node) := by
  induction pos generalizing root other with
  | nil =>
    rw [setAt]
    rw [← some.inj h] at hnew hchild
    by_cases hnil : other = []
    · rw [hnil] at hother ⊢
      rw [← some.inj hother]
      exact congrArg some hnew
    · rw [nodeAt_of_extends hchild hnil hother]
      rfl
  | cons i pos ih =>
    obtain ⟨child, hi, hpos⟩ := nodeAt_cons_eq_some.mp h
    rw [setAt_cons hi]
    cases other with
    | nil =>
      rw [← some.inj hother]
      exact congrArg some (hview root i _)
    | cons j other =>
      obtain ⟨next, hj, hnext⟩ := nodeAt_cons_eq_some.mp hother
      rw [nodeAt]
      by_cases hji : j = i
      · rw [hji] at hj ⊢
        rw [some.inj (hj.symm.trans hi)] at hnext
        rw [trees.child_setChild_self root i child _ hi]
        exact ih hpos hnext
      · rw [trees.child_setChild_ne root i j _ hji, hj, bind_some, hnext]
        rfl

end TreeAddress
