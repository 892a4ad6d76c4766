import OpenClaw.Chunking.Markdown
import OpenClaw.Chunking.Spans

/-!
# Where a window is cut

A soft break is never inside a fence. So a fence is cut only where a window without a soft break
ends in it, and it is the fence that `findFenceSpanAt` gives for the break.
-/

namespace OpenClaw

open Option

variable {text : Units} {spans : List FenceSpan} {fence : FenceSpan} {start stop limit : ℕ}

/-! ## Soft breaks -/

/-- The positions a scan has kept are allowed, and in front of `stop`. -/
structure Breakpoints.Allowed (isAllowed : ℕ → Bool) (stop : ℕ) (points : Breakpoints) : Prop where
  newline : ∀ i, points.lastNewline = some i → isAllowed i = true ∧ i < stop
  whitespace : ∀ i, points.lastWhitespace = some i → isAllowed i = true ∧ i < stop

theorem Breakpoints.Allowed.scan {isAllowed : ℕ → Bool} {points : Breakpoints} {i : ℕ}
    (h : points.Allowed isAllowed i) (char : UInt16) :
    (points.scan isAllowed i char).Allowed isAllowed (i + 1) := by
  have hkeep : points.Allowed isAllowed (i + 1) := by
    refine ⟨fun j hj => ?_, fun j hj => ?_⟩
    · have hlt := (h.newline j hj).2
      exact ⟨(h.newline j hj).1, by omega⟩
    · have hlt := (h.whitespace j hj).2
      exact ⟨(h.whitespace j hj).1, by omega⟩
  unfold Breakpoints.scan
  by_cases hallowed : isAllowed i = true
  · rw [hallowed]
    have hlast : ∀ j, some i = some j → isAllowed j = true ∧ j < i + 1 := by
      intro j hj
      rw [← some.inj hj]
      exact ⟨hallowed, Nat.lt_succ_self i⟩
    split_ifs
    · exact hkeep
    · exact ⟨hkeep.newline, hkeep.whitespace⟩
    · exact ⟨hkeep.newline, hkeep.whitespace⟩
    · exact hkeep
    · exact ⟨hlast, hkeep.whitespace⟩
    · exact ⟨hkeep.newline, hlast⟩
    · exact hkeep
  · rw [if_pos (by simpa using hallowed)]
    exact hkeep

theorem Breakpoints.Allowed.scanParenAwareFrom {isAllowed : ℕ → Bool} (chars : Units) {i : ℕ}
    {points : Breakpoints} (h : points.Allowed isAllowed i) :
    (scanParenAwareFrom isAllowed points i chars).Allowed isAllowed (i + chars.length) := by
  induction chars generalizing i points with
  | nil => exact h
  | cons char rest ih =>
    have hrest := ih (h.scan char)
    rw [Nat.add_assoc, Nat.add_comm 1] at hrest
    exact hrest

theorem unitsSlice_length (text : Units) (start stop : ℕ) :
    (unitsSlice text start stop).length = min stop text.length - start := by
  rw [unitsSlice, List.length_drop, List.length_take]

/-- A soft break is behind the start, in the window, and not inside a fence. -/
structure SoftBreak (spans : List FenceSpan) (start stop i : ℕ) : Prop where
  start_lt : start < i
  lt_stop : i < stop
  safe : findFenceSpanAt spans i = none

theorem softBreak_of_pick {i : ℕ} (h : pickSafeBreakIndex text start stop spans = some i) :
    SoftBreak spans start stop i := by
  have hallowed : (scanParenAwareBreakpoints text start stop (isSafeFenceBreak spans)).Allowed
      (isSafeFenceBreak spans) (start + (unitsSlice text start stop).length) :=
    Breakpoints.Allowed.scanParenAwareFrom _ ⟨(fun _ h => nomatch h), (fun _ h => nomatch h)⟩
  rw [unitsSlice_length] at hallowed
  unfold pickSafeBreakIndex at h
  generalize scanParenAwareBreakpoints text start stop (isSafeFenceBreak spans) = points
    at h hallowed
  have hsoft : start < i → isSafeFenceBreak spans i = true ∧ i < start + (min stop text.length - start)
      → SoftBreak spans start stop i := by
    intro hstart hi
    have hsafe := Option.isNone_iff_eq_none.mp hi.1
    exact ⟨hstart, by omega, hsafe⟩
  dsimp only at h
  split at h
  · rename_i lastNewline hlast
    rw [← some.inj h]
    rw [← some.inj h] at hsoft
    have hfilter := Option.filter_eq_some_iff.mp hlast
    exact hsoft (of_decide_eq_true hfilter.2) (hallowed.newline _ hfilter.1)
  · have hfilter := Option.filter_eq_some_iff.mp h
    exact hsoft (of_decide_eq_true hfilter.2) (hallowed.whitespace _ hfilter.1)

/-! ## Breaks in a fence -/

theorem pickNewlineBreak_eq_some {minProgressIdx fuel i : ℕ}
    (h : pickNewlineBreak text spans start minProgressIdx fence fuel = some i) :
    start < i ∧ i ≤ fuel ∧ minProgressIdx ≤ i ∧ text[i - 1]? = some newline ∧
      (findFenceSpanAt spans i).map (·.start) = some fence.start := by
  induction fuel with
  | zero => cases h
  | succ lastNewline ih =>
    rw [pickNewlineBreak] at h
    split_ifs at h with hstart hnewline hmin hfence
    · rw [← some.inj h]
      exact ⟨by omega, le_rfl, by omega, hnewline, hfence⟩
    · have hih := ih h
      exact ⟨hih.1, by omega, hih.2.2⟩
    · have hih := ih h
      exact ⟨hih.1, by omega, hih.2.2⟩

/-! ## The break of a round -/

/-- The end of the window of a state. -/
def endOfWindow (text : Units) (limit : ℕ) (state : ChunkState) : ℕ :=
  min text.length (state.start + contentLimit limit state)

/-- A window without a soft break that ends in the fence. -/
structure CutsFence (text : Units) (limit : ℕ) (spans : List FenceSpan) (state : ChunkState)
    (fence : FenceSpan) : Prop where
  no_soft : pickSafeBreakIndex text state.start (endOfWindow text limit state) spans = none
  around : findFenceSpanAt spans (endOfWindow text limit state) = some fence

theorem contentLimit_pos (limit : ℕ) (state : ChunkState) : 0 < contentLimit limit state :=
  Nat.lt_of_lt_of_le Nat.zero_lt_one (Nat.le_max_left _ _)

/-- The break of a window that ends in a fence is in that fence, and not behind the window. -/
structure FenceBreak (start windowEnd : ℕ) (fence : FenceSpan) (i : ℕ) : Prop where
  start_lt : start < i
  le_end : i ≤ windowEnd
  inside : fence.start < i

theorem fenceBreak_breakInFence {content windowEnd : ℕ} (hspans : SpansOf text 0 spans)
    (hend : windowEnd = start + content) (hcontent : 0 < content) (hlength : windowEnd < text.length)
    (hfence : findFenceSpanAt spans windowEnd = some fence) : FenceBreak start windowEnd fence
      (breakInFence text spans start content windowEnd fence) := by
  have hmem := (findFenceSpanAt_eq_some_iff hspans).mp hfence
  have hwindow : FenceBreak start windowEnd fence windowEnd := ⟨by omega, le_rfl, hmem.2.1⟩
  unfold breakInFence
  dsimp only
  by_cases hneed : start + (content - ((closeLine fence).length + 1)) ≤ start
  · rw [if_pos hneed]
    exact hwindow
  · rw [if_neg hneed]
    split
    · rename_i i hpick
      have hi := pickNewlineBreak_eq_some hpick
      -- the candidate is inside the span that begins where the fence does
      obtain ⟨found, hfound, hfoundStart⟩ := Option.map_eq_some_iff.mp hi.2.2.2.2
      have hinside := (findFenceSpanAt_eq_some_iff hspans).mp hfound
      have hlt : fence.start < i := by
        rw [← hfoundStart]
        exact hinside.2.1
      exact ⟨hi.1, by omega, hlt⟩
    · split_ifs with halready
      · exact hwindow
      · exact ⟨by omega, by omega, by omega⟩

/-- What a round that is not the last one cuts: the break is in the window, and the fence that is
cut is the one around the break. -/
structure BreakSpec (text : Units) (limit : ℕ) (spans : List FenceSpan) (state : ChunkState)
    (choice : ℕ × Option FenceSpan) : Prop where
  start_lt : state.start < choice.1
  le_end : choice.1 ≤ state.start + contentLimit limit state
  around : findFenceSpanAt spans choice.1 = choice.2

theorem breakSpec_chooseBreak {state : ChunkState} (hspans : SpansOf text 0 spans)
    (hmore : contentLimit limit state < text.length - state.start) :
    BreakSpec text limit spans state (chooseBreak text limit spans state) := by
  have hpos := contentLimit_pos limit state
  have hend : min text.length (state.start + contentLimit limit state) =
      state.start + contentLimit limit state := Nat.min_eq_right (by omega)
  unfold chooseBreak
  dsimp only
  rw [hend]
  cases hsoft : pickSafeBreakIndex text state.start (state.start + contentLimit limit state) spans
  with
  | some softBreak =>
    have hbreak := softBreak_of_pick hsoft
    have hlt := hbreak.lt_stop
    rw [getD_some, hbreak.safe]
    exact ⟨hbreak.start_lt, hlt.le, hbreak.safe⟩
  | none =>
    rw [getD_none]
    cases hfence : findFenceSpanAt spans (state.start + contentLimit limit state) with
    | none => exact ⟨by dsimp only; omega, le_rfl, hfence⟩
    | some fence =>
      have hbreak := fenceBreak_breakInFence hspans rfl hpos (by omega) hfence
      have hmem := (findFenceSpanAt_eq_some_iff hspans).mp hfence
      dsimp only
      generalize breakInFence text spans state.start (contentLimit limit state)
        (state.start + contentLimit limit state) fence = i at hbreak
      have hle := hbreak.le_end
      have haround : findFenceSpanAt spans i = some fence :=
        (findFenceSpanAt_eq_some_iff hspans).mpr ⟨hmem.1, hbreak.inside, by omega⟩
      refine ⟨hbreak.start_lt, hle, ?_⟩
      show findFenceSpanAt spans i = _
      rw [haround, filter_some, if_pos (decide_eq_true rfl)]

end OpenClaw
