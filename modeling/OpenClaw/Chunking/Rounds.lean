import Mathlib.Logic.Relation
import OpenClaw.Chunking.Breaks

/-!
# The rounds of a message

The states that the loop goes through, the pieces it cuts off, and the positions it skips between
them.
-/

namespace OpenClaw

open List Option

variable {text : Units} {spans : List FenceSpan} {state state' : ChunkState} {limit i j : ℕ}

/-! ## One round -/

/-- Where the next round begins after a break at `i`. -/
def nextStart (text : Units) (spans : List FenceSpan) (i : ℕ) : ℕ :=
  let afterBreak := i + if (text[i]?).any isSpaceUnit then 1 else 0
  if (findFenceSpanAt spans i).isSome then afterBreak else skipLeadingNewlines text afterBreak

theorem newline_of_skipLeadingNewlines {start : ℕ} (hstart : start ≤ i)
    (hi : i < skipLeadingNewlines text start) : text[i]? = some newline := by
  unfold skipLeadingNewlines at hi
  have hlt : i - start < ((text.drop start).takeWhile (· = newline)).length := by omega
  have hmem := getElem_mem hlt
  have heq : ((text.drop start).takeWhile (· = newline))[i - start] = newline := by
    have himp := mem_takeWhile_imp (p := fun unit => decide (unit = newline)) hmem
    exact of_decide_eq_true himp
  have hfront := takeWhile_prefix (fun unit => decide (unit = newline)) (l := text.drop start)
  have hget := hfront.getElem hlt
  have hdrop : (text.drop start)[i - start]? = text[start + (i - start)]? := getElem?_drop
  rw [Nat.add_sub_cancel' hstart] at hdrop
  rw [← hdrop, ← heq, hget]
  exact getElem?_eq_getElem _

theorem le_skipLeadingNewlines (text : Units) (start : ℕ) :
    start ≤ skipLeadingNewlines text start := Nat.le_add_right _ _

theorem le_nextStart (text : Units) (spans : List FenceSpan) (i : ℕ) :
    i ≤ nextStart text spans i := by
  unfold nextStart
  dsimp only
  have hskip := le_skipLeadingNewlines text (i + if (text[i]?).any isSpaceUnit then 1 else 0)
  split
  · exact Nat.le_add_right _ _
  · exact (Nat.le_add_right _ _).trans hskip

theorem chunkStep_last (h : text.length - state.start ≤ contentLimit limit state) :
    chunkStep text limit spans state =
      (some ⟨state.reopenFence, state.start, text.length, none⟩, none) := by
  rw [chunkStep, if_pos h]

/-- Where a state is cut. -/
def cutOf (text : Units) (limit : ℕ) (spans : List FenceSpan) (state : ChunkState) : ℕ :=
  (chooseBreak text limit spans state).1

/-- A state whose text does not fit into one chunk. -/
def HasMore (text : Units) (limit : ℕ) (state : ChunkState) : Prop :=
  contentLimit limit state < text.length - state.start

theorem chunkStep_more (hspans : SpansOf text 0 spans) (hmore : HasMore text limit state) :
    chunkStep text limit spans state =
      let i := cutOf text limit spans state
      (some ⟨state.reopenFence, state.start, i, findFenceSpanAt spans i⟩,
        some ⟨nextStart text spans i, findFenceSpanAt spans i⟩) := by
  have hspec := breakSpec_chooseBreak hspans hmore
  have hstart := hspec.start_lt
  have hend := hspec.le_end
  unfold HasMore at hmore
  rw [chunkStep, if_neg (Nat.not_le.mpr hmore)]
  dsimp only [cutOf]
  rw [hspec.around]
  generalize chooseBreak text limit spans state = choice at hstart hend hspec
  obtain ⟨i, fence?⟩ := choice
  dsimp only at hstart hend ⊢
  have hmin : min text.length (i + if (text[i]?).any isSpaceUnit then 1 else 0) =
      i + if (text[i]?).any isSpaceUnit then 1 else 0 := by
    apply Nat.min_eq_right
    split_ifs
    · omega
    · omega
  rw [if_neg (by omega), hmin]
  have haround : findFenceSpanAt spans i = fence? := hspec.around
  rw [nextStart, haround]

/-! ## The states of a run -/

variable (text limit)

/-- The loop goes on with another state. -/
def ChunkNext (spans : List FenceSpan) (state state' : ChunkState) : Prop :=
  state.start < text.length ∧ (chunkStep text limit spans state).2 = some state'

/-- The loop comes from one state to the other. -/
abbrev ChunkReaches (spans : List FenceSpan) : ChunkState → ChunkState → Prop :=
  Relation.ReflTransGen (ChunkNext text limit spans)

/-- The states that the loop goes through. -/
def ChunkVisits (state : ChunkState) : Prop :=
  ChunkReaches text limit (parseFenceSpans text) ⟨0, none⟩ state

variable {text limit}

/-- The position is between the break of a state and the beginning of the next round. -/
structure Skips (text : Units) (limit : ℕ) (spans : List FenceSpan) (state : ChunkState) (i : ℕ) :
    Prop where
  more : HasMore text limit state
  cut_le : cutOf text limit spans state ≤ i
  lt_next : i < nextStart text spans (cutOf text limit spans state)

def ChunkPiece.Covers (piece : ChunkPiece) (i : ℕ) : Prop := piece.start ≤ i ∧ i < piece.stop

/-- The pieces that the rounds from a state on cut off. -/
structure CutFrom (text : Units) (limit : ℕ) (spans : List FenceSpan) (state : ChunkState)
    (pieces : List ChunkPiece) : Prop where
  mem : ∀ piece, piece ∈ pieces ↔ ∃ visited, ChunkReaches text limit spans state visited ∧
    visited.start < text.length ∧ (chunkStep text limit spans visited).1 = some piece
  within : ∀ piece ∈ pieces,
    state.start ≤ piece.start ∧ piece.start < piece.stop ∧ piece.stop ≤ text.length
  consecutive : pieces.Pairwise fun first second => first.stop ≤ second.start
  omitted : ∀ i, state.start ≤ i → i < text.length →
    ((∀ piece ∈ pieces, ¬piece.Covers i) ↔
      ∃ visited, ChunkReaches text limit spans state visited ∧ Skips text limit spans visited i)

theorem reaches_iff_of_last (h : ∀ state', ¬ChunkNext text limit spans state state')
    (visited : ChunkState) : ChunkReaches text limit spans state visited ↔ state = visited := by
  unfold ChunkReaches
  rw [Relation.ReflTransGen.cases_head_iff]
  refine ⟨fun hreach => hreach.resolve_right ?_, Or.inl⟩
  intro ⟨state', hnext, _⟩
  exact h state' hnext

theorem reaches_iff_of_next (hlt : state.start < text.length)
    (hstep : (chunkStep text limit spans state).2 = some state') (visited : ChunkState) :
    ChunkReaches text limit spans state visited ↔
      state = visited ∨ ChunkReaches text limit spans state' visited := by
  unfold ChunkReaches
  rw [Relation.ReflTransGen.cases_head_iff]
  constructor
  · intro hreach
    refine hreach.imp id fun ⟨next, hnext, hrest⟩ => ?_
    rw [some.inj (hstep.symm.trans hnext.2)]
    exact hrest
  · intro hreach
    exact hreach.imp id fun hrest => ⟨state', ⟨hlt, hstep⟩, hrest⟩

theorem cutFrom_nil (h : text.length ≤ state.start) : CutFrom text limit spans state [] := by
  have hlast : ∀ state', ¬ChunkNext text limit spans state state' := by
    intro state' hnext
    have hlt := hnext.1
    omega
  refine ⟨fun piece => ⟨(fun hmem => nomatch hmem), ?_⟩, (fun _ hmem => nomatch hmem),
    List.Pairwise.nil, fun i hi hlt => ?_⟩
  · intro ⟨visited, hreach, hlt, _⟩
    rw [reaches_iff_of_last hlast] at hreach
    rw [← hreach] at hlt
    omega
  · exact absurd (h.trans hi) (Nat.not_le.mpr hlt)

theorem cutFrom_last (hlt : state.start < text.length)
    (h : text.length - state.start ≤ contentLimit limit state) :
    CutFrom text limit spans state [⟨state.reopenFence, state.start, text.length, none⟩] := by
  have hstep : chunkStep text limit spans state = _ := chunkStep_last h
  have hlast : ∀ state', ¬ChunkNext text limit spans state state' := by
    intro state' hnext
    have hnone := hnext.2
    rw [hstep] at hnone
    cases hnone
  refine ⟨fun piece => ?_, fun piece hmem => ?_, pairwise_singleton _ _, fun i hi hil => ?_⟩
  · rw [mem_singleton]
    constructor
    · intro hpiece
      refine ⟨state, Relation.ReflTransGen.refl, hlt, ?_⟩
      rw [hstep, hpiece]
    · intro ⟨visited, hreach, _, hvisited⟩
      rw [reaches_iff_of_last hlast] at hreach
      rw [← hreach, hstep] at hvisited
      exact (some.inj hvisited).symm
  · rw [mem_singleton.mp hmem]
    exact ⟨le_rfl, hlt, le_rfl⟩
  · constructor
    · intro hall
      exact absurd ⟨hi, hil⟩ (hall _ (mem_singleton_self _))
    · intro ⟨visited, hreach, hskips⟩
      rw [reaches_iff_of_last hlast] at hreach
      have hmore := hskips.more
      rw [← hreach] at hmore
      exact absurd h (Nat.not_le.mpr hmore)

theorem HasMore.start_lt (hmore : HasMore text limit state) : state.start < text.length := by
  unfold HasMore at hmore
  omega

section

variable (hspans : SpansOf text 0 spans)
include hspans

theorem HasMore.cut_lt (hmore : HasMore text limit state) :
    cutOf text limit spans state < text.length := by
  have hend := (breakSpec_chooseBreak hspans hmore).le_end
  unfold HasMore at hmore
  show (chooseBreak text limit spans state).1 < text.length
  omega

theorem start_le_of_next
    (h : ChunkNext text limit spans state state') : state.start ≤ state'.start := by
  by_cases hmore : HasMore text limit state
  · have hstep := h.2
    rw [chunkStep_more hspans hmore] at hstep
    rw [← some.inj hstep]
    have hstart := (breakSpec_chooseBreak hspans hmore).start_lt
    exact hstart.le.trans (le_nextStart text spans _)
  · have hstep := h.2
    rw [chunkStep_last (Nat.not_lt.mp hmore)] at hstep
    cases hstep

theorem start_le_of_reaches
    (h : ChunkReaches text limit spans state state') : state.start ≤ state'.start := by
  induction h with
  | refl => exact le_rfl
  | tail _ hnext ih => exact ih.trans (start_le_of_next hspans hnext)

theorem Skips.start_lt (h : Skips text limit spans state i) :
    state.start < i := (breakSpec_chooseBreak hspans h.more).start_lt.trans_le h.cut_le

/-- A state that is cut, with the pieces from the next one on. -/
theorem CutFrom.cons {pieces : List ChunkPiece} (hmore : HasMore text limit state)
    (h : CutFrom text limit spans ⟨nextStart text spans (cutOf text limit spans state),
      findFenceSpanAt spans (cutOf text limit spans state)⟩ pieces) :
    CutFrom text limit spans state (⟨state.reopenFence, state.start, cutOf text limit spans state,
      findFenceSpanAt spans (cutOf text limit spans state)⟩ :: pieces) := by
  have hstep := chunkStep_more hspans hmore
  have hstart : state.start < cutOf text limit spans state :=
    (breakSpec_chooseBreak hspans hmore).start_lt
  have hcut := hmore.cut_lt hspans
  have hlt := hmore.start_lt
  have hnext := le_nextStart text spans (cutOf text limit spans state)
  have hreaches := reaches_iff_of_next hlt (congrArg Prod.snd hstep)
  have hskips : ∀ j, Skips text limit spans state j ↔ cutOf text limit spans state ≤ j ∧
      j < nextStart text spans (cutOf text limit spans state) :=
    fun j => ⟨fun hj => ⟨hj.cut_le, hj.lt_next⟩, fun hj => ⟨hmore, hj.1, hj.2⟩⟩
  generalize cutOf text limit spans state = i at h hstep hstart hcut hnext hreaches hskips
  refine ⟨fun piece => ?_, fun piece hmem => ?_, ?_, fun j hj hjl => ?_⟩
  · rw [mem_cons, h.mem]
    constructor
    · rintro (rfl | ⟨visited, hreach, hvisited⟩)
      · exact ⟨state, Relation.ReflTransGen.refl, hlt, congrArg Prod.fst hstep⟩
      · exact ⟨visited, (hreaches visited).mpr (Or.inr hreach), hvisited⟩
    · intro ⟨visited, hreach, hvisitedLt, hvisited⟩
      rcases (hreaches visited).mp hreach with rfl | hreach
      · rw [hstep] at hvisited
        exact Or.inl (some.inj hvisited).symm
      · exact Or.inr ⟨visited, hreach, hvisitedLt, hvisited⟩
  · rcases mem_cons.mp hmem with rfl | hmem
    · exact ⟨le_rfl, hstart, hcut.le⟩
    · have hwithin := h.within piece hmem
      dsimp only at hwithin
      exact ⟨by omega, hwithin.2⟩
  · refine pairwise_cons.mpr ⟨fun piece hmem => ?_, h.consecutive⟩
    exact hnext.trans (h.within piece hmem).1
  · have hsplit : (∃ visited, ChunkReaches text limit spans state visited ∧
        Skips text limit spans visited j) ↔ Skips text limit spans state j ∨
        ∃ visited, ChunkReaches text limit spans ⟨nextStart text spans i, findFenceSpanAt spans i⟩
          visited ∧ Skips text limit spans visited j := by
      constructor
      · intro ⟨visited, hreach, hskip⟩
        rcases (hreaches visited).mp hreach with rfl | hreach
        · exact Or.inl hskip
        · exact Or.inr ⟨visited, hreach, hskip⟩
      · rintro (hskip | ⟨visited, hreach, hskip⟩)
        · exact ⟨state, Relation.ReflTransGen.refl, hskip⟩
        · exact ⟨visited, (hreaches visited).mpr (Or.inr hreach), hskip⟩
    -- a later state skips only what is behind its start
    have hlater : ∀ visited, ChunkReaches text limit spans
        ⟨nextStart text spans i, findFenceSpanAt spans i⟩ visited →
        Skips text limit spans visited j → nextStart text spans i < j :=
      fun visited hreach hskip =>
        (start_le_of_reaches hspans hreach).trans_lt (hskip.start_lt hspans)
    rw [forall_mem_cons, hsplit, hskips]
    unfold ChunkPiece.Covers
    dsimp only
    by_cases hnextj : nextStart text spans i ≤ j
    · rw [← h.omitted j hnextj hjl]
      unfold ChunkPiece.Covers
      constructor
      · exact fun hall => Or.inr hall.2
      · rintro (hskip | hall)
        · omega
        · exact ⟨by omega, hall⟩
    · have hrest : ∀ piece ∈ pieces, ¬(piece.start ≤ j ∧ j < piece.stop) := by
        intro piece hmem hcovers
        have hwithin := (h.within piece hmem).1
        dsimp only at hwithin
        omega
      constructor
      · exact fun hall => Or.inl (by omega)
      · rintro (hskip | ⟨visited, hreach, hskip⟩)
        · exact ⟨by omega, hrest⟩
        · have hlt := hlater visited hreach hskip
          omega

/-- With enough rounds the loop comes to an end, with the pieces of its states. -/
theorem exists_chunkLoop (limit : ℕ) (state : ChunkState) :
    ∃ pieces, (∀ fuel, text.length - state.start ≤ fuel →
      chunkLoop text limit spans fuel state = some pieces) ∧
      CutFrom text limit spans state pieces := by
  -- by induction on what is left of the text
  induction hleft : text.length - state.start using Nat.strong_induction_on generalizing state with
  | _ left ih =>
    by_cases hlt : state.start < text.length
    · by_cases hmore : HasMore text limit state
      · have hstep := chunkStep_more hspans hmore
        have hstart := (breakSpec_chooseBreak hspans hmore).start_lt
        have hnext := le_nextStart text spans (cutOf text limit spans state)
        have hle : state.start < nextStart text spans (cutOf text limit spans state) :=
          hstart.trans_le hnext
        obtain ⟨pieces, hloop, hcut⟩ := ih _ (by dsimp only; omega)
          ⟨nextStart text spans (cutOf text limit spans state),
            findFenceSpanAt spans (cutOf text limit spans state)⟩ rfl
        refine ⟨_, fun fuel hfuel => ?_, hcut.cons hspans hmore⟩
        cases fuel with
        | zero => omega
        | succ fuel =>
          rw [chunkLoop, if_pos hlt, hstep]
          dsimp only
          rw [hloop fuel (by dsimp only; omega)]
          rfl
      · have hlast := Nat.not_lt.mp hmore
        refine ⟨_, fun fuel hfuel => ?_, cutFrom_last hlt hlast⟩
        cases fuel with
        | zero => omega
        | succ fuel =>
          rw [chunkLoop, if_pos hlt, chunkStep_last hlast]
          rfl
    · refine ⟨[], fun fuel _ => ?_, cutFrom_nil (Nat.not_lt.mp hlt)⟩
      cases fuel with
      | zero => rw [chunkLoop, if_neg hlt]
      | succ fuel => rw [chunkLoop, if_neg hlt]

end

/-! ## The chunks of a text -/

/-- The pieces that a text is cut into, whether it fits into one chunk or not. -/
theorem exists_chunkPieces (text : Units) (limit : ℕ) :
    ∃ pieces, (∀ fuel, text.length ≤ fuel → chunkPieces fuel text limit = some pieces) ∧
      CutFrom text limit (parseFenceSpans text) ⟨0, none⟩ pieces :=
  exists_chunkLoop (spansOf_parseFenceSpans text) limit ⟨0, none⟩

theorem chunkMarkdownText_eq {fuel : ℕ} {limit : ℤ} (hlimit : 1 ≤ limit)
    (hfuel : text.length ≤ fuel) : chunkMarkdownText fuel text limit =
      (chunkPieces fuel text limit.toNat).map (·.map (·.chunk text)) := by
  unfold chunkMarkdownText resolveChunkEarlyReturn
  by_cases hnil : text = []
  · rw [if_pos hnil, hnil]
    cases fuel with
    | zero => rfl
    | succ fuel => rfl
  · rw [if_neg hnil, if_neg (by omega)]
    by_cases hfits : (text.length : ℤ) ≤ limit
    · have hpos : 0 < text.length := length_pos_iff.mpr hnil
      have hlast : text.length - 0 ≤ contentLimit limit.toNat ⟨0, none⟩ := by
        have hle : limit.toNat ≤ contentLimit limit.toNat ⟨0, none⟩ := Nat.le_max_right _ _
        omega
      rw [if_pos hfits, chunkPieces]
      cases fuel with
      | zero => omega
      | succ fuel =>
        rw [chunkLoop, if_pos hpos, chunkStep_last hlast]
        show some [text] = some [unitsSlice text 0 text.length]
        rw [unitsSlice, take_length, drop_zero]
    · rw [if_neg hfits]

end OpenClaw
