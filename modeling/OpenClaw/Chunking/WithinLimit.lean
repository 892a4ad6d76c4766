import Mathlib.Data.List.MinMax
import Mathlib.Order.Nat
import OpenClaw.Chunking.Rounds

/-!
# The length of the chunks

A chunk is too long only where a window without a soft break ends close behind the opening line
of a fence: the break that is needed to keep a first character of code does not leave room for
the closing line.
-/

namespace OpenClaw

open List

variable {text : Units} {spans : List FenceSpan} {state : ChunkState} {fence : FenceSpan}
  {limit i : ℕ}

variable (spans)

def longestOpenLine : ℕ :=
  (spans.map (·.openLine.length)).foldr max 0

def longestCloseLine : ℕ :=
  (spans.map fun fence => (closeLine fence).length).foldr max 0

variable {spans}

theorem openLine_length_le (h : fence ∈ spans) : fence.openLine.length ≤ longestOpenLine spans :=
  le_max_of_le (mem_map_of_mem (f := fun fence => fence.openLine.length) h) le_rfl

theorem closeLine_length_le (h : fence ∈ spans) :
    (closeLine fence).length ≤ longestCloseLine spans :=
  le_max_of_le (mem_map_of_mem (f := fun fence => (closeLine fence).length) h) le_rfl

/-- The window of the state ends in the fence, too close behind its opening line. -/
structure Overflows (text : Units) (limit : ℕ) (spans : List FenceSpan) (state : ChunkState)
    (fence : FenceSpan) : Prop where
  more : HasMore text limit state
  cuts : CutsFence text limit spans state fence
  close : endOfWindow text limit state <
      fence.start + fence.openLine.length + 2 + (closeLine fence).length ∨
    endOfWindow text limit state =
        fence.start + fence.openLine.length + 2 + (closeLine fence).length ∧
      text[fence.start + fence.openLine.length + 1]? ≠ some newline

/-! ## The length of a chunk -/

/-- What is put behind a piece that ends at `stop`. -/
def suffixLength (text : Units) (stop : ℕ) : Option FenceSpan → ℕ
  | none => 0
  | some fence =>
    (closeLine fence).length + if text[stop - 1]? = some newline then 0 else 1

theorem getLast?_unitsSlice {start stop : ℕ} (hlt : start < stop) (hle : stop ≤ text.length) :
    (unitsSlice text start stop).getLast? = text[stop - 1]? := by
  rw [getLast?_eq_getElem?, unitsSlice_length, unitsSlice, getElem?_drop,
    Nat.min_eq_left hle, getElem?_take, if_pos (by omega)]
  congr 1
  omega

theorem chunk_length {piece : ChunkPiece} (hlt : piece.start < piece.stop)
    (hle : piece.stop ≤ text.length) :
    (piece.chunk text).length = (reopenPrefix piece.reopenFence).length +
      (piece.stop - piece.start) + suffixLength text piece.stop piece.fenceToSplit := by
  have hlast := getLast?_unitsSlice hlt hle
  have hlength := unitsSlice_length text piece.start piece.stop
  rw [Nat.min_eq_left hle] at hlength
  have hsome : text[piece.stop - 1]? = some text[piece.stop - 1] :=
    getElem?_eq_getElem (by omega)
  unfold ChunkPiece.chunk
  dsimp only
  cases piece.fenceToSplit with
  | none =>
    dsimp only [suffixLength]
    rw [length_append, hlength, Nat.add_zero]
  | some fence =>
    dsimp only [suffixLength]
    rw [getLast?_append, hlast, hsome, Option.some_or]
    split_ifs
    · rw [length_append, length_append, hlength]
      omega
    · rw [length_append, length_append, length_append, hlength, length_singleton]
      omega

/-! ## Where a fence is cut -/

theorem endOfWindow_eq (hmore : HasMore text limit state) :
    endOfWindow text limit state = state.start + contentLimit limit state := by
  unfold HasMore at hmore
  exact Nat.min_eq_right (by omega)

theorem cutOf_of_cutsFence (hcuts : CutsFence text limit spans state fence) :
    cutOf text limit spans state =
      breakInFence text spans state.start (contentLimit limit state) (endOfWindow text limit state)
        fence := by
  have hsoft := hcuts.no_soft
  have haround := hcuts.around
  unfold endOfWindow at hsoft haround ⊢
  unfold cutOf chooseBreak
  dsimp only
  rw [hsoft, Option.getD_none, haround]

theorem around_of_cutsFence (hspans : SpansOf text 0 spans) (hmore : HasMore text limit state)
    (hcuts : CutsFence text limit spans state fence) :
    findFenceSpanAt spans (cutOf text limit spans state) = some fence := by
  have hend := endOfWindow_eq hmore
  have hmem := (findFenceSpanAt_eq_some_iff hspans).mp hcuts.around
  have hlength : endOfWindow text limit state < text.length := by
    unfold HasMore at hmore
    omega
  have hbreak := fenceBreak_breakInFence hspans hend (contentLimit_pos limit state) hlength
    hcuts.around
  have hle := hbreak.le_end
  rw [cutOf_of_cutsFence hcuts]
  exact (findFenceSpanAt_eq_some_iff hspans).mpr ⟨hmem.1, hbreak.inside, by omega⟩

/-- A round that cuts a fence has a window that ends in it. -/
theorem cutsFence_of_around (hspans : SpansOf text 0 spans) (hmore : HasMore text limit state)
    (haround : findFenceSpanAt spans (cutOf text limit spans state) = some fence) :
    CutsFence text limit spans state fence := by
  cases hsoft : pickSafeBreakIndex text state.start (endOfWindow text limit state) spans with
  | some i =>
    have hsafe := (softBreak_of_pick hsoft).safe
    have hcut : cutOf text limit spans state = i := by
      unfold endOfWindow at hsoft
      unfold cutOf chooseBreak
      dsimp only
      rw [hsoft, Option.getD_some, hsafe]
    rw [hcut, hsafe] at haround
    cases haround
  | none =>
    cases hend : findFenceSpanAt spans (endOfWindow text limit state) with
    | none =>
      have hcut : cutOf text limit spans state = endOfWindow text limit state := by
        unfold endOfWindow at hsoft hend ⊢
        unfold cutOf chooseBreak
        dsimp only
        rw [hsoft, Option.getD_none, hend]
      rw [hcut, hend] at haround
      cases haround
    | some found =>
      have hfound := around_of_cutsFence hspans hmore ⟨hsoft, hend⟩
      rw [← Option.some.inj (hfound.symm.trans haround)]
      exact ⟨hsoft, hend⟩

/-- The newline in front of a break that leaves room for the closing line is found, if it is
behind the first character of code. -/
theorem pickNewlineBreak_ne_none {minProgressIdx lastNewline : ℕ} {start : ℕ}
    (hstart : start ≤ lastNewline) (hmin : minProgressIdx ≤ lastNewline + 1)
    (hnewline : text[lastNewline]? = some newline)
    (haround : findFenceSpanAt spans (lastNewline + 1) = some fence) :
    pickNewlineBreak text spans start minProgressIdx fence (lastNewline + 1) ≠ none := by
  rw [pickNewlineBreak, if_neg (by omega), if_pos hnewline, if_neg (by omega), haround,
    if_pos (Option.map_some ..)]
  exact Option.some_ne_none _

/-- Where the window of a state ends in a fence, the piece has room for the closing line exactly
if the window does not end too close behind the opening line. -/
theorem breakInFence_fits_iff {start content windowEnd : ℕ} (hspans : SpansOf text 0 spans)
    (hend : windowEnd = start + content) (hlength : windowEnd < text.length)
    (hroom : (closeLine fence).length + 2 ≤ content)
    (hfence : findFenceSpanAt spans windowEnd = some fence) :
    let i := breakInFence text spans start content windowEnd fence
    i - start + suffixLength text i (some fence) ≤ content ↔
      ¬(windowEnd < fence.start + fence.openLine.length + 2 + (closeLine fence).length ∨
        windowEnd = fence.start + fence.openLine.length + 2 + (closeLine fence).length ∧
          text[fence.start + fence.openLine.length + 1]? ≠ some newline) := by
  have hmem := (findFenceSpanAt_eq_some_iff hspans).mp hfence
  have hclose : 3 ≤ (closeLine fence).length := by
    have hmarker := (hspans.span fence hmem.1).1.line.marker_length
    rw [closeLine, length_append]
    omega
  dsimp only [suffixLength]
  unfold breakInFence
  dsimp only
  generalize hc : (closeLine fence).length = c at hroom hclose
  generalize hq : fence.start + fence.openLine.length + 2 = q
  have hcode : fence.start + fence.openLine.length + 1 = q - 1 := by omega
  have hfuel : max start (start + (content - c) - 1) + 1 = windowEnd - c := by omega
  rw [if_neg (by omega), hfuel, hcode]
  cases hpick : pickNewlineBreak text spans start (min text.length (max (start + 1) q)) fence
      (windowEnd - c) with
  | some i =>
    dsimp only
    have hi := pickNewlineBreak_eq_some hpick
    rw [if_pos hi.2.2.2.1]
    refine ⟨fun _ => ?_, fun _ => by omega⟩
    rintro (hlt | ⟨heq, hnot⟩)
    · omega
    · have hiq : i = q := by omega
      rw [← hiq] at hnot
      exact hnot hi.2.2.2.1
  | none =>
    dsimp only
    by_cases halready : start + (content - c) < min text.length (max (start + 1) q)
    · -- the whole window is taken, with the closing line behind it
      rw [if_pos halready]
      constructor
      · intro hle
        omega
      · intro hnot
        exact absurd (Or.inl (by omega)) hnot
    · rw [if_neg halready]
      have hmin : min text.length (max (start + 1) q) = max (start + 1) q := by omega
      rw [hmin] at hpick halready ⊢
      by_cases hless : max (start + 1) q < windowEnd - c
      · have hmax : max (max (start + 1) q) (start + (content - (c + 1))) = windowEnd - c - 1 := by
          omega
        rw [hmax]
        constructor
        · intro _ hor
          omega
        · intro _
          split_ifs
          · omega
          · omega
      · -- there is room for one character of code, but not for the newline behind it
        have hqEnd : q = windowEnd - c := by omega
        have hmax : max (max (start + 1) q) (start + (content - (c + 1))) = q := by omega
        have haround : findFenceSpanAt spans (q - 1 + 1) = some fence :=
          (findFenceSpanAt_eq_some_iff hspans).mpr ⟨hmem.1, by omega, by omega⟩
        have hnot : text[q - 1]? ≠ some newline := by
          intro hnewline
          have hne : pickNewlineBreak text spans start (max (start + 1) q) fence (q - 1 + 1) ≠ none :=
            pickNewlineBreak_ne_none (by omega) (by omega) hnewline haround
          rw [show q - 1 + 1 = windowEnd - c by omega] at hne
          exact hne hpick
        rw [hmax, if_neg hnot]
        constructor
        · intro hle
          omega
        · intro hor
          exact absurd (Or.inr ⟨by omega, hnot⟩) hor

/-! ## The chunk of a state -/

/-- The fence that is opened again is one of the text. -/
def ReopensSpan (spans : List FenceSpan) (state : ChunkState) : Prop :=
  ∀ fence, state.reopenFence = some fence → fence ∈ spans

theorem reopensSpan_of_reaches {state' : ChunkState} (hspans : SpansOf text 0 spans)
    (h : ChunkReaches text limit spans state state') (hstate : ReopensSpan spans state) :
    ReopensSpan spans state' := by
  induction h with
  | refl => exact hstate
  | @tail visited next _ hnext _ =>
    have hstep := hnext.2
    by_cases hmore : HasMore text limit visited
    · rw [chunkStep_more hspans hmore] at hstep
      rw [← Option.some.inj hstep]
      intro fence hfence
      exact ((findFenceSpanAt_eq_some_iff hspans).mp hfence).1
    · rw [chunkStep_last (Nat.not_lt.mp hmore)] at hstep
      cases hstep

/-- What the limit leaves for the content when it is not too small for the fences. -/
theorem contentLimit_eq (hlimit : longestOpenLine spans + longestCloseLine spans + 3 ≤ limit)
    (hreopen : ReopensSpan spans state) :
    (reopenPrefix state.reopenFence).length + contentLimit limit state = limit ∧
      longestCloseLine spans + 2 ≤ contentLimit limit state := by
  have hprefix : (reopenPrefix state.reopenFence).length ≤ longestOpenLine spans + 1 := by
    cases hfence : state.reopenFence with
    | none => exact Nat.zero_le _
    | some fence =>
      have hle := openLine_length_le (hreopen fence hfence)
      rw [reopenPrefix, length_append, length_singleton]
      omega
  unfold contentLimit
  omega

theorem chunk_fits_iff {piece : ChunkPiece} (hspans : SpansOf text 0 spans)
    (hlimit : longestOpenLine spans + longestCloseLine spans + 3 ≤ limit)
    (hreopen : ReopensSpan spans state) (hstart : state.start < text.length)
    (hpiece : (chunkStep text limit spans state).1 = some piece) :
    (piece.chunk text).length ≤ limit ↔ ∀ fence, ¬Overflows text limit spans state fence := by
  have hcontent := contentLimit_eq hlimit hreopen
  by_cases hmore : HasMore text limit state
  · have hspec := breakSpec_chooseBreak hspans hmore
    have hlt : state.start < cutOf text limit spans state := hspec.start_lt
    have hle : cutOf text limit spans state ≤ state.start + contentLimit limit state := hspec.le_end
    have hcut := hmore.cut_lt hspans
    rw [chunkStep_more hspans hmore] at hpiece
    rw [← Option.some.inj hpiece, chunk_length hlt hcut.le]
    dsimp only
    cases haround : findFenceSpanAt spans (cutOf text limit spans state) with
    | none =>
      rw [suffixLength]
      refine ⟨fun _ fence hover => ?_, fun _ => by omega⟩
      rw [around_of_cutsFence hspans hmore hover.cuts] at haround
      cases haround
    | some fence =>
      have hcuts := cutsFence_of_around hspans hmore haround
      have hend := endOfWindow_eq hmore
      have hlength : endOfWindow text limit state < text.length := by
        unfold HasMore at hmore
        omega
      have hmem := ((findFenceSpanAt_eq_some_iff hspans).mp hcuts.around).1
      have hclose := closeLine_length_le hmem
      have hfits := breakInFence_fits_iff hspans hend hlength (by omega) hcuts.around
      dsimp only at hfits
      rw [← cutOf_of_cutsFence hcuts] at hfits
      have hover : (∀ found, ¬Overflows text limit spans state found) ↔
          ¬Overflows text limit spans state fence := by
        refine ⟨fun hall => hall fence, fun hnot found hfound => ?_⟩
        have heq := Option.some.inj (hcuts.around.symm.trans hfound.cuts.around)
        rw [heq] at hnot
        exact hnot hfound
      have hoverIff : Overflows text limit spans state fence ↔ _ :=
        ⟨Overflows.close, fun hclose => ⟨hmore, hcuts, hclose⟩⟩
      rw [hover, hoverIff, ← hfits]
      omega
  · have hlast := Nat.not_lt.mp hmore
    rw [chunkStep_last hlast] at hpiece
    rw [← Option.some.inj hpiece, chunk_length hstart le_rfl]
    dsimp only [suffixLength]
    exact ⟨fun _ fence hover => hmore hover.more, fun _ => by omega⟩

/-! ## The whole text -/

/-- The chunks of a text fit exactly if no window of the loop ends too close behind the opening
line of a fence. -/
theorem chunkMarkdownText_withinLimit_iff (text : Units) (limit : ℤ)
    (hlimit : (longestOpenLine (parseFenceSpans text) + longestCloseLine (parseFenceSpans text) +
      3 : ℕ) ≤ limit) :
    ∃ chunks, (∀ fuel, text.length ≤ fuel → chunkMarkdownText fuel text limit = some chunks) ∧
      ((∀ chunk ∈ chunks, (chunk.length : ℤ) ≤ limit) ↔
        ∀ state, ChunkVisits text limit.toNat state →
          ∀ fence, ¬Overflows text limit.toNat (parseFenceSpans text) state fence) := by
  have hspans := spansOf_parseFenceSpans text
  have hlimitNat : longestOpenLine (parseFenceSpans text) +
      longestCloseLine (parseFenceSpans text) + 3 ≤ limit.toNat := by omega
  obtain ⟨pieces, hpieces, hcut⟩ := exists_chunkPieces text limit.toNat
  refine ⟨pieces.map (·.chunk text), fun fuel hfuel => ?_, ?_⟩
  · rw [chunkMarkdownText_eq (by omega) hfuel, hpieces fuel hfuel]
    rfl
  have hreopen : ∀ state, ChunkVisits text limit.toNat state →
      ReopensSpan (parseFenceSpans text) state :=
    fun state hvisits => reopensSpan_of_reaches hspans hvisits (fun _ h => nomatch h)
  rw [forall_mem_map]
  constructor
  · intro hall state hvisits fence hover
    have hstart := hover.more.start_lt
    have hstep := congrArg Prod.fst (chunkStep_more hspans hover.more)
    have hmem := (hcut.mem _).mpr ⟨state, hvisits, hstart, hstep⟩
    have hle : (ChunkPiece.chunk text _).length ≤ limit.toNat := Int.le_toNat (by omega) |>.mpr
      (hall _ hmem)
    exact (chunk_fits_iff hspans hlimitNat (hreopen state hvisits) hstart hstep).mp hle fence hover
  · intro hall piece hmem
    obtain ⟨state, hvisits, hstart, hstep⟩ := (hcut.mem piece).mp hmem
    have hle := (chunk_fits_iff hspans hlimitNat (hreopen state hvisits) hstart hstep).mpr
      (hall state hvisits)
    omega

/-- A message without a fenced block. -/
theorem chunkMarkdownText_withinLimit_iff_plain :
    ∃ chunks, (∀ fuel, 5 ≤ fuel → chunkMarkdownText fuel (units "ab cd") 3 = some chunks) ∧
      ((∀ chunk ∈ chunks, (chunk.length : ℤ) ≤ 3) ↔ ∀ state, ChunkVisits (units "ab cd") 3 state →
          ∀ fence, ¬Overflows (units "ab cd") 3 (parseFenceSpans (units "ab cd")) state fence) :=
  chunkMarkdownText_withinLimit_iff (units "ab cd") 3 (by decide)

/-- A fence behind a newline at the beginning of the text. -/
def lateFence : Units := units "\n```\nabcdefghijkl"

/-- The first chunk has ten characters. -/
theorem exists_not_withinLimit :
    (longestOpenLine (parseFenceSpans lateFence) + longestCloseLine (parseFenceSpans lateFence) +
      3 : ℕ) ≤ (9 : ℤ) ∧
      ∃ chunks, chunkMarkdownText 17 lateFence 9 = some chunks ∧
        ∃ chunk ∈ chunks, ¬(chunk.length : ℤ) ≤ 9 := by
  have hchunks : (chunkMarkdownText 17 lateFence 9).any
      (fun chunks => chunks.any fun chunk => !decide (chunk.length ≤ 9)) = true := by
    decide +kernel
  obtain ⟨chunks, hsome, hany⟩ := (Option.any_eq_true _ _).mp hchunks
  obtain ⟨chunk, hmem, hlong⟩ := any_eq_true.mp hany
  refine ⟨by decide +kernel, chunks, hsome, chunk, hmem, ?_⟩
  have hnot : ¬chunk.length ≤ 9 := by simpa using hlong
  omega

end OpenClaw
