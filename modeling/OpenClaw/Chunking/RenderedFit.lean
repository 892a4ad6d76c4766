import OpenClaw.Chunking.FormatKept
import OpenClaw.Chunking.RenderAware

/-!
# Rendered chunks fit

A cut leaves at least two pieces, none of them empty. So the work list runs out of text to cut:
with a text of n units counted as 2n - 1, every round takes something away. What is joined
afterwards is joined only within the limit.
-/

namespace OpenClaw

open List

variable {Rendered : Type} {options : RenderOptions Rendered} {text : Units} {ir chunk : MarkdownIR}

/-! ## Words -/

/-- The units that are no white space. -/
def nonSpaces (text : Units) : Units := text.filter fun unit => !isSpaceUnit unit

theorem nonSpaces_append (left right : Units) :
    nonSpaces (left ++ right) = nonSpaces left ++ nonSpaces right :=
  filter_append left right

theorem nonSpaces_eq_nil (h : ∀ unit ∈ text, isSpaceUnit unit = true) : nonSpaces text = [] := by
  apply filter_eq_nil_iff.mpr
  intro unit hmem
  rw [h unit hmem]
  exact Bool.false_ne_true

theorem nonSpaces_trimStartUnits (text : Units) :
    nonSpaces (trimStartUnits text) = nonSpaces text := by
  have hsplit : text.takeWhile isSpaceUnit ++ trimStartUnits text = text :=
    takeWhile_append_dropWhile
  have hnil : nonSpaces (text.takeWhile isSpaceUnit) = [] :=
    nonSpaces_eq_nil fun _ hmem => mem_takeWhile_imp hmem
  calc nonSpaces (trimStartUnits text)
      = nonSpaces (text.takeWhile isSpaceUnit) ++ nonSpaces (trimStartUnits text) := by rw [hnil]; rfl
    _ = nonSpaces text := by rw [← nonSpaces_append, hsplit]

theorem nonSpaces_trimEndUnits (text : Units) : nonSpaces (trimEndUnits text) = nonSpaces text := by
  obtain ⟨spaces, hsplit, hspaces⟩ := trimEndUnits_append text
  conv_rhs => rw [hsplit, nonSpaces_append, nonSpaces_eq_nil hspaces, append_nil]

/-- The texts of chunks, one behind the other. -/
def chunkTexts (chunks : List MarkdownIR) : Units := chunks.flatMap (·.text)

theorem chunkTexts_cons (chunk : MarkdownIR) (chunks : List MarkdownIR) :
    chunkTexts (chunk :: chunks) = chunk.text ++ chunkTexts chunks := rfl

theorem chunkTexts_append (left right : List MarkdownIR) :
    chunkTexts (left ++ right) = chunkTexts left ++ chunkTexts right := by
  unfold chunkTexts
  rw [flatMap_append]

/-! ## The first chunks -/

variable (resolve : Units → Option ℕ)

/-- A round loses nothing but white space. -/
theorem nonSpaces_chunkTextRound (limit : ℕ) (remaining : Units) :
    nonSpaces (chunkTextRound resolve limit remaining).1 ++
      nonSpaces (chunkTextRound resolve limit remaining).2 = nonSpaces remaining := by
  unfold chunkTextRound
  dsimp only
  generalize breakIndex resolve limit (remaining.take limit) = breakIdx
  rw [nonSpaces_trimEndUnits, nonSpaces_trimStartUnits, ← nonSpaces_append]
  by_cases hbroke : (remaining[breakIdx]?).any isSpaceUnit = true
  · -- the separator is white space
    obtain ⟨unit, hunit, hspace⟩ := (Option.any_eq_true _ _).mp hbroke
    obtain ⟨hlt, hget⟩ := List.getElem?_eq_some_iff.mp hunit
    have hmin : min remaining.length (breakIdx + 1) = breakIdx + 1 := by omega
    have hdrop : remaining.drop breakIdx = unit :: remaining.drop (breakIdx + 1) := by
      rw [drop_eq_getElem_cons hlt, hget]
    have hskip : nonSpaces (remaining.drop (breakIdx + 1)) = nonSpaces (remaining.drop breakIdx) := by
      rw [hdrop]
      unfold nonSpaces
      rw [filter_cons_of_neg (by rw [hspace]; exact Bool.false_ne_true)]
    rw [if_pos hbroke, hmin, nonSpaces_append, hskip, ← nonSpaces_append, take_append_drop]
  · rw [if_neg hbroke, Nat.add_zero]
    by_cases hle : breakIdx ≤ remaining.length
    · rw [min_eq_right hle, take_append_drop]
    · rw [min_eq_left (by omega), drop_length, append_nil, take_of_length_le (by omega)]

theorem nonSpaces_chunkTextLoop (limit : ℕ+) (remaining : Units) :
    nonSpaces (chunkTextLoop resolve limit remaining).flatten = nonSpaces remaining := by
  induction hn : remaining.length using Nat.strong_induction_on generalizing remaining with
  | _ n ih =>
    unfold chunkTextLoop
    split
    · next hmore =>
      have hshorter := chunkTextRound_length resolve limit hmore
      have hround := nonSpaces_chunkTextRound resolve limit remaining
      dsimp only
      have hfirst : (if (chunkTextRound resolve limit remaining).1 = [] then []
          else [(chunkTextRound resolve limit remaining).1]).flatten =
          (chunkTextRound resolve limit remaining).1 := by
        split
        · next hnil => rw [hnil]; rfl
        · exact append_nil _
      rw [flatten_append, nonSpaces_append, hfirst, ih _ (hn ▸ hshorter) _ rfl, hround]
    · split
      · next hnil => rw [hnil]; rfl
      · show nonSpaces (remaining ++ []) = _
        rw [append_nil]

theorem chunkTexts_sliceChunks (ir : MarkdownIR) (cursor : ℕ) (isFirst : Bool)
    (chunks : List Units) : chunkTexts (sliceChunks ir cursor isFirst chunks) = chunks.flatten := by
  induction chunks generalizing cursor isFirst with
  | nil => rfl
  | cons chunk rest ih =>
    unfold sliceChunks
    split
    · next hnil =>
      rw [ih, hnil]
      rfl
    · dsimp only
      rw [chunkTexts_cons, ih]
      rfl

theorem text_ne_nil_of_mem_sliceChunks {cursor : ℕ} {isFirst : Bool} {chunks : List Units}
    (h : chunk ∈ sliceChunks ir cursor isFirst chunks) : chunk.text ≠ [] := by
  induction chunks generalizing cursor isFirst with
  | nil => exact absurd h not_mem_nil
  | cons first rest ih =>
    unfold sliceChunks at h
    split at h
    · exact ih h
    · next hne =>
      rcases mem_cons.mp h with heq | hrest
      · rw [heq]
        exact hne
      · exact ih hrest

/-- The first cuts lose nothing but white space, and no piece is empty. -/
theorem chunkMarkdownIRByLimit_spec (hne : ir.text ≠ []) (limit : RenderedLimit) :
    nonSpaces (chunkTexts (chunkMarkdownIRByLimit ir limit)) = nonSpaces ir.text ∧
      ∀ chunk ∈ chunkMarkdownIRByLimit ir limit, chunk.text ≠ [] := by
  have hwhole : ∀ whole : MarkdownIR, whole.text = ir.text →
      nonSpaces (chunkTexts [whole]) = nonSpaces ir.text ∧ ∀ chunk ∈ [whole], chunk.text ≠ [] := by
    intro whole htext
    constructor
    · show nonSpaces (whole.text ++ []) = _
      rw [append_nil, htext]
    · intro chunk hmem
      rw [mem_singleton.mp hmem, htext]
      exact hne
  cases limit with
  | nan =>
    show nonSpaces (chunkTexts (if ir.text = [] then [] else _)) = _ ∧
      ∀ chunk ∈ if ir.text = [] then [] else _, _
    rw [if_neg hne]
    refine hwhole _ ?_
    show unitsSlice ir.text 0 ir.text.length = ir.text
    rw [unitsSlice, take_length, drop_zero]
  | unbounded =>
    show nonSpaces (chunkTexts (if ir.text = [] then [] else _)) = _ ∧
      ∀ chunk ∈ if ir.text = [] then [] else _, _
    rw [if_neg hne]
    exact hwhole ir rfl
  | units count =>
    have hpos := count.pos
    show nonSpaces (chunkTexts (chunkMarkdownIR ir (count : ℕ))) = _ ∧
      ∀ chunk ∈ chunkMarkdownIR ir (count : ℕ), _
    unfold chunkMarkdownIR
    rw [if_neg hne]
    split
    · exact hwhole ir rfl
    · next hlong =>
      refine ⟨?_, fun chunk hmem => text_ne_nil_of_mem_sliceChunks hmem⟩
      rw [chunkTexts_sliceChunks]
      have hearly : chunkText ir.text (count : ℕ) = chunkTextLoop resolveTextBreak count ir.text := by
        unfold chunkText resolveChunkEarlyReturn chunkTextByBreakResolver
        rw [if_neg hne, if_neg (by omega), if_neg (by omega)]
        dsimp only
        rw [if_neg hne, dif_neg (by omega), if_neg (by omega)]
        congr 1
      rw [hearly, nonSpaces_chunkTextLoop]

/-! ## Pieces -/

theorem unitsSlice_append {start middle stop : ℕ} (h : start ≤ middle) (h' : middle ≤ stop) :
    unitsSlice text start middle ++ unitsSlice text middle stop = unitsSlice text start stop := by
  have hslice (i j : ℕ) : unitsSlice text i (i + j) = (text.drop i).take j := by
    unfold unitsSlice
    rw [drop_take, Nat.add_sub_cancel_left]
  obtain ⟨m, rfl⟩ := Nat.exists_eq_add_of_le h
  obtain ⟨n, rfl⟩ := Nat.exists_eq_add_of_le h'
  rw [hslice, hslice, Nat.add_assoc, hslice, ← drop_drop, take_add]

theorem unitsSlice_ne_nil {start stop : ℕ} (h : start < stop) (h' : start < text.length) :
    unitsSlice text start stop ≠ [] := by
  apply ne_nil_of_length_pos
  rw [unitsSlice, length_drop, length_take]
  omega

theorem splitPreserveFrom_spec (ir : MarkdownIR) (limit : ℕ+) (cursor : ℕ) :
    chunkTexts (splitPreserveFrom ir limit cursor) = ir.text.drop cursor ∧
      ∀ piece ∈ splitPreserveFrom ir limit cursor, piece.text ≠ [] := by
  induction hn : ir.text.length - cursor using Nat.strong_induction_on generalizing cursor with
  | _ n ih =>
    unfold splitPreserveFrom
    split
    · next hmore =>
      have hlt := lt_findMarkdownIRPreservedSplitIndex limit hmore
      dsimp only
      generalize findMarkdownIRPreservedSplitIndex ir.text cursor limit = stop at *
      obtain ⟨htexts, hpieces⟩ := ih (ir.text.length - stop) (by omega) stop rfl
      constructor
      · rw [chunkTexts_cons, htexts]
        show (ir.text.take stop).drop cursor ++ ir.text.drop stop = ir.text.drop cursor
        conv_rhs => rw [← take_append_drop stop ir.text]
        rw [drop_append]
        congr 1
        rw [length_take]
        by_cases hle : stop ≤ ir.text.length
        · rw [min_eq_left hle, show cursor - stop = 0 by omega, drop_zero]
        · rw [drop_of_length_le (by omega), drop_nil]
      · intro piece hmem
        rcases mem_cons.mp hmem with heq | hrest
        · rw [heq]
          exact unitsSlice_ne_nil hlt hmore
        · exact hpieces piece hrest
    · next hdone =>
      refine ⟨?_, fun piece hmem => absurd hmem not_mem_nil⟩
      rw [drop_of_length_le (by omega)]
      rfl

theorem two_le_length_splitPreserveFrom {limit : ℕ+} (h : limit < ir.text.length) :
    2 ≤ (splitPreserveFrom ir limit 0).length := by
  have hpos := limit.pos
  have hbounds : 0 < findMarkdownIRPreservedSplitIndex ir.text 0 limit ∧
      findMarkdownIRPreservedSplitIndex ir.text 0 limit ≤ 0 + limit :=
    findMarkdownIRPreservedSplitIndex_bounds (by omega)
  rw [splitPreserveFrom.eq_def, dif_pos (by omega)]
  dsimp only
  rw [splitPreserveFrom.eq_def, dif_pos (by omega)]
  dsimp only
  rw [length_cons, length_cons]
  omega

theorem findLargestFrom_le (options : RenderOptions Rendered) (chunk : MarkdownIR) (n : ℕ) :
    findLargestFrom options chunk n ≤ n := by
  induction n with
  | zero => exact le_rfl
  | succ n ih =>
    unfold findLargestFrom
    split
    · exact le_rfl
    · omega

theorem not_fits_of_findLargestFrom {n : ℕ} (h : findLargestFrom options chunk n = 0) {j : ℕ}
    (hpos : 0 < j) (hle : j ≤ n) : options.fits (sliceMarkdownIR chunk 0 j) = false := by
  induction n with
  | zero => omega
  | succ n ih =>
    unfold findLargestFrom at h
    split at h
    · exact absurd h (Nat.succ_ne_zero n)
    · next hnot =>
      by_cases heq : j = n + 1
      · rw [heq]
        exact Bool.eq_false_iff.mpr hnot
      · exact ih h (by omega)

theorem splitMarkdownIRPreserveWhitespace_eq {limit : ℕ+} (h : limit < ir.text.length) :
    splitMarkdownIRPreserveWhitespace ir limit = splitPreserveFrom ir limit 0 := by
  have hne : ir.text ≠ [] := ne_nil_of_length_pos (by omega)
  unfold splitMarkdownIRPreserveWhitespace
  rw [if_neg hne, if_neg (not_le.mpr h)]

variable (options)

/-- No part of the text but the whole renders within the limit. -/
def NoPrefixFits (chunk : MarkdownIR) : Prop :=
  ∀ n, 0 < n → n < chunk.text.length → options.fits (sliceMarkdownIR chunk 0 n) = false

/-- A chunk is cut into at least two pieces, unless no prefix of it fits. -/
theorem splitMarkdownIRByRenderedLimit_cases {chunk : MarkdownIR} (hlong : 1 < chunk.text.length) :
    ((splitMarkdownIRByRenderedLimit options chunk).length ≤ 1 ∧ NoPrefixFits options chunk) ∨
      (2 ≤ (splitMarkdownIRByRenderedLimit options chunk).length ∧
        chunkTexts (splitMarkdownIRByRenderedLimit options chunk) = chunk.text ∧
        ∀ piece ∈ splitMarkdownIRByRenderedLimit options chunk, piece.text ≠ []) := by
  unfold splitMarkdownIRByRenderedLimit findLargestChunkTextLengthWithinRenderedLimit
  rw [if_neg (by omega), if_neg (by omega)]
  have hle := findLargestFrom_le options chunk (chunk.text.length - 1)
  dsimp only
  split
  · next hzero =>
    left
    refine ⟨le_rfl, fun n hpos hlt => not_fits_of_findLargestFrom hzero hpos (by omega)⟩
  · next hpositive =>
    right
    generalize findLargestFrom options chunk (chunk.text.length - 1) = splitLimit at *
    have hlimit : ((⟨splitLimit, Nat.pos_of_ne_zero hpositive⟩ : ℕ+) : ℕ) < chunk.text.length := by
      show splitLimit < chunk.text.length
      omega
    rw [splitMarkdownIRPreserveWhitespace_eq hlimit]
    split
    · have hspec := splitPreserveFrom_spec chunk ⟨splitLimit, Nat.pos_of_ne_zero hpositive⟩ 0
      exact ⟨two_le_length_splitPreserveFrom hlimit, hspec.1, hspec.2⟩
    · refine ⟨le_rfl, ?_, ?_⟩
      · show unitsSlice chunk.text 0 splitLimit ++
          (unitsSlice chunk.text splitLimit chunk.text.length ++ []) = chunk.text
        rw [append_nil, unitsSlice_append (Nat.zero_le _) (by omega), unitsSlice,
          take_length, drop_zero]
      · intro piece hmem
        rcases mem_cons.mp hmem with heq | hrest
        · rw [heq]
          exact unitsSlice_ne_nil (by omega) (by omega)
        · rw [mem_singleton.mp hrest]
          exact unitsSlice_ne_nil (by omega) (by omega)

variable {options}

/-! ## The work list -/

variable (options)

/-- What a chunk of the result may be. -/
def SettledChunk (chunk : MarkdownIR) : Prop :=
  options.fits chunk = true ∨ chunk.text.length ≤ 1 ∨ NoPrefixFits options chunk

/-- How many rounds the pending chunks may take. -/
def pendingRank (pending : List MarkdownIR) : ℕ :=
  (pending.map fun chunk => 2 * chunk.text.length - 1).sum

theorem pendingRank_cons (chunk : MarkdownIR) (pending : List MarkdownIR) :
    pendingRank (chunk :: pending) = 2 * chunk.text.length - 1 + pendingRank pending := rfl

theorem pendingRank_append (left right : List MarkdownIR) :
    pendingRank (left ++ right) = pendingRank left + pendingRank right := by
  unfold pendingRank
  rw [map_append, sum_append]

theorem pendingRank_pieces {pieces : List MarkdownIR} (h : ∀ piece ∈ pieces, piece.text ≠ []) :
    pendingRank pieces + pieces.length = 2 * (chunkTexts pieces).length := by
  induction pieces with
  | nil => rfl
  | cons piece rest ih =>
    have hpos := length_pos_of_ne_nil (h piece mem_cons_self)
    have hrest := ih fun p hp => h p (mem_cons_of_mem _ hp)
    rw [pendingRank_cons, chunkTexts_cons, length_append, length_cons]
    omega

/-- The induction is on the rank: a chunk that is final leaves the list, and the pieces of one that
is cut count less than it. -/
theorem renderLoop_spec (pending finalized : List MarkdownIR)
    (hne : ∀ chunk ∈ pending, chunk.text ≠ []) : ∃ settled, (∀ fuel, pendingRank pending ≤ fuel →
        renderLoop options fuel pending finalized = some (finalized ++ settled)) ∧
      chunkTexts settled = chunkTexts pending ∧ ∀ chunk ∈ settled, SettledChunk options chunk := by
  induction hn : pendingRank pending using Nat.strong_induction_on
    generalizing pending finalized with
  | _ n ih =>
  cases pending with
  | nil =>
    refine ⟨[], fun fuel _ => ?_, rfl, fun chunk hmem => absurd hmem not_mem_nil⟩
    rw [append_nil]
    unfold renderLoop
    rfl
  | cons chunk rest =>
    have hpos := length_pos_of_ne_nil (hne chunk mem_cons_self)
    have hrest : ∀ c ∈ rest, c.text ≠ [] := fun c hc => hne c (mem_cons_of_mem _ hc)
    rw [pendingRank_cons] at hn
    -- a chunk that is kept goes to the end of the result
    have hkeep : SettledChunk options chunk → (∀ fuel, renderLoop options (fuel + 1) (chunk :: rest)
        finalized = renderLoop options fuel rest (finalized ++ [chunk])) →
        ∃ settled, (∀ fuel, n ≤ fuel →
          renderLoop options fuel (chunk :: rest) finalized = some (finalized ++ settled)) ∧
          chunkTexts settled = chunkTexts (chunk :: rest) ∧
          ∀ c ∈ settled, SettledChunk options c := by
      intro hsettled hstep
      obtain ⟨settled, hrun, htexts, hall⟩ :=
        ih (pendingRank rest) (by omega) rest (finalized ++ [chunk]) hrest rfl
      refine ⟨chunk :: settled, ?_, ?_, ?_⟩
      · intro fuel hfuel
        obtain ⟨k, rfl⟩ := Nat.exists_eq_add_of_lt (show 0 < fuel by omega)
        rw [Nat.zero_add, hstep, hrun k (by omega), append_assoc]
        rfl
      · rw [chunkTexts_cons, chunkTexts_cons, htexts]
      · intro c hc
        rcases mem_cons.mp hc with heq | hmem
        · rw [heq]
          exact hsettled
        · exact hall c hmem
    by_cases hfinal : options.fits chunk = true ∨ chunk.text.length ≤ 1
    · refine hkeep (hfinal.imp_right .inl) fun fuel => ?_
      conv_lhs => unfold renderLoop
      rw [if_pos hfinal]
    rcases splitMarkdownIRByRenderedLimit_cases options
      (not_le.mp (not_or.mp hfinal).2) with ⟨hshort, hnone⟩ | ⟨hmany, htext, hpieces⟩
    · refine hkeep (.inr (.inr hnone)) fun fuel => ?_
      conv_lhs => unfold renderLoop
      rw [if_neg hfinal]
      exact if_pos hshort
    · generalize hsplit : splitMarkdownIRByRenderedLimit options chunk = split at *
      have hrank := pendingRank_pieces hpieces
      rw [htext] at hrank
      have hless : pendingRank (split ++ rest) < n := by
        rw [pendingRank_append]
        omega
      have hboth : ∀ c ∈ split ++ rest, c.text ≠ [] := by
        intro c hc
        rcases mem_append.mp hc with hmem | hmem
        · exact hpieces c hmem
        · exact hrest c hmem
      obtain ⟨settled, hrun, htexts, hall⟩ := ih _ hless (split ++ rest) finalized hboth rfl
      refine ⟨settled, ?_, ?_, hall⟩
      · intro fuel hfuel
        obtain ⟨k, rfl⟩ := Nat.exists_eq_add_of_lt (show 0 < fuel by omega)
        rw [Nat.zero_add, ← hrun k (by omega)]
        conv_lhs => unfold renderLoop
        rw [if_neg hfinal, hsplit]
        exact if_neg (by omega)
      · rw [htexts, chunkTexts_append, chunkTexts_cons, htext]

variable {options}

/-! ## White space joins its neighbours -/

theorem nonSpaces_of_isBlank (h : chunk.isBlank = true) : nonSpaces chunk.text = [] :=
  nonSpaces_eq_nil (all_eq_true.mp h)

theorem nonSpaces_slice_of_isBlank (h : chunk.isBlank = true) (start stop : ℕ) :
    nonSpaces (sliceMarkdownIR chunk start stop).text = [] := by
  apply nonSpaces_eq_nil
  intro unit hmem
  exact all_eq_true.mp h unit (mem_of_mem_take (mem_of_mem_drop hmem))

theorem nonSpaces_merge (left right : MarkdownIR) :
    nonSpaces (mergeMarkdownIRChunks left right).text =
      nonSpaces left.text ++ nonSpaces right.text :=
  nonSpaces_append left.text right.text

theorem divideWhitespace_spec {prev next : MarkdownIR} (hblank : chunk.isBlank = true)
    (hprev : SettledChunk options prev) (hnext : SettledChunk options next) (n : ℕ) :
    nonSpaces (divideWhitespace options prev chunk next n).1.text = nonSpaces prev.text ∧
      nonSpaces (divideWhitespace options prev chunk next n).2.text = nonSpaces next.text ∧
      SettledChunk options (divideWhitespace options prev chunk next n).1 ∧
      SettledChunk options (divideWhitespace options prev chunk next n).2 := by
  induction n with
  | zero => exact ⟨rfl, rfl, hprev, hnext⟩
  | succ n ih =>
    unfold divideWhitespace
    dsimp only
    split
    · next hfit =>
      rw [Bool.and_eq_true] at hfit
      refine ⟨?_, ?_, .inl hfit.1, .inl hfit.2⟩
      · rw [nonSpaces_merge, nonSpaces_slice_of_isBlank hblank, append_nil]
      · rw [nonSpaces_merge, nonSpaces_slice_of_isBlank hblank, nil_append]
    · exact ih

/-- The words of the coalesced chunks, which are the last one first. -/
def coalescedWords (coalesced : List MarkdownIR) : Units := nonSpaces (chunkTexts coalesced.reverse)

theorem coalescedWords_cons (chunk : MarkdownIR) (coalesced : List MarkdownIR) :
    coalescedWords (chunk :: coalesced) = coalescedWords coalesced ++ nonSpaces chunk.text := by
  unfold coalescedWords
  rw [reverse_cons, chunkTexts_append, nonSpaces_append]
  show _ ++ nonSpaces (chunk.text ++ []) = _
  rw [append_nil]

theorem coalesceRound_spec {coalesced : List MarkdownIR} {next : MarkdownIR}
    (hcoalesced : ∀ c ∈ coalesced, SettledChunk options c) (hchunk : SettledChunk options chunk)
    (hnext : SettledChunk options next) :
    coalescedWords (coalesceRound options coalesced chunk next).1 ++
        nonSpaces (coalesceRound options coalesced chunk next).2.text =
      coalescedWords coalesced ++ nonSpaces chunk.text ++ nonSpaces next.text ∧
      (∀ c ∈ (coalesceRound options coalesced chunk next).1, SettledChunk options c) ∧
      SettledChunk options (coalesceRound options coalesced chunk next).2 := by
  unfold coalesceRound
  by_cases hblank : chunk.isBlank = true
  swap
  · rw [if_pos (by rw [Bool.eq_false_iff.mpr hblank]; rfl)]
    refine ⟨by rw [coalescedWords_cons], ?_, hnext⟩
    intro c hc
    rcases mem_cons.mp hc with heq | hmem
    · rw [heq]
      exact hchunk
    · exact hcoalesced c hmem
  rw [if_neg (by rw [hblank]; exact Bool.false_ne_true), nonSpaces_of_isBlank hblank, append_nil]
  have hmerged : nonSpaces (mergeMarkdownIRChunks chunk next).text = nonSpaces next.text := by
    rw [nonSpaces_merge, nonSpaces_of_isBlank hblank, nil_append]
  dsimp only
  cases coalesced with
  | nil =>
    dsimp only
    split
    · next hfit => exact ⟨by rw [hmerged], hcoalesced, .inl hfit⟩
    · exact ⟨rfl, hcoalesced, hnext⟩
  | cons prev rest =>
    have hprev := hcoalesced prev mem_cons_self
    -- only the last of the coalesced chunks changes
    have hreplace : ∀ last, SettledChunk options last → ∀ c ∈ last :: rest, SettledChunk options c := by
      intro last hlast c hc
      rcases mem_cons.mp hc with heq | hmem
      · rw [heq]
        exact hlast
      · exact hcoalesced c (mem_cons_of_mem _ hmem)
    dsimp only
    split
    · next hfit =>
      refine ⟨?_, hreplace _ (.inl hfit), hnext⟩
      rw [coalescedWords_cons, coalescedWords_cons, nonSpaces_merge, nonSpaces_of_isBlank hblank,
        append_nil]
    · split
      · next hfit => exact ⟨by rw [hmerged], hcoalesced, .inl hfit⟩
      · obtain ⟨hleft, hright, hsettled, hsettled'⟩ :=
          divideWhitespace_spec hblank hprev hnext (chunk.text.length - 1)
        refine ⟨?_, hreplace _ hsettled, hsettled'⟩
        dsimp only
        rw [coalescedWords_cons, coalescedWords_cons, hleft, hright]

theorem coalesceLast_spec {coalesced : List MarkdownIR}
    (hcoalesced : ∀ c ∈ coalesced, SettledChunk options c) (hchunk : SettledChunk options chunk) :
    coalescedWords (coalesceLast options coalesced chunk) =
      coalescedWords coalesced ++ nonSpaces chunk.text ∧
      ∀ c ∈ coalesceLast options coalesced chunk, SettledChunk options c := by
  unfold coalesceLast
  by_cases hblank : chunk.isBlank = true
  swap
  · rw [if_pos (by rw [Bool.eq_false_iff.mpr hblank]; rfl)]
    refine ⟨coalescedWords_cons chunk coalesced, ?_⟩
    intro c hc
    rcases mem_cons.mp hc with heq | hmem
    · rw [heq]
      exact hchunk
    · exact hcoalesced c hmem
  rw [if_neg (by rw [hblank]; exact Bool.false_ne_true), nonSpaces_of_isBlank hblank, append_nil]
  cases coalesced with
  | nil => exact ⟨rfl, hcoalesced⟩
  | cons prev rest =>
    dsimp only
    split
    · next hfit =>
      constructor
      · rw [coalescedWords_cons, coalescedWords_cons, nonSpaces_merge,
          nonSpaces_of_isBlank hblank, append_nil]
      · intro c hc
        rcases mem_cons.mp hc with heq | hmem
        · rw [heq]
          exact .inl hfit
        · exact hcoalesced c (mem_cons_of_mem _ hmem)
    · exact ⟨rfl, hcoalesced⟩

theorem coalesceFrom_spec (coalesced rest : List MarkdownIR)
    (hcoalesced : ∀ c ∈ coalesced, SettledChunk options c) (hchunk : SettledChunk options chunk)
    (hrest : ∀ c ∈ rest, SettledChunk options c) :
    coalescedWords (coalesceFrom options coalesced chunk rest) =
      coalescedWords coalesced ++ nonSpaces chunk.text ++ nonSpaces (chunkTexts rest) ∧
      ∀ c ∈ coalesceFrom options coalesced chunk rest, SettledChunk options c := by
  induction rest generalizing coalesced chunk with
  | nil =>
    have hlast := coalesceLast_spec hcoalesced hchunk
    refine ⟨?_, hlast.2⟩
    show coalescedWords (coalesceLast options coalesced chunk) = _ ++ []
    rw [append_nil, hlast.1]
  | cons next rest ih =>
    have hround := coalesceRound_spec hcoalesced hchunk (hrest next mem_cons_self)
    have hrun := ih _ hround.2.1 hround.2.2 fun c hc => hrest c (mem_cons_of_mem _ hc)
    refine ⟨?_, hrun.2⟩
    show coalescedWords (coalesceFrom options (coalesceRound options coalesced chunk next).1
      (coalesceRound options coalesced chunk next).2 rest) = _
    rw [hrun.1, hround.1, chunkTexts_cons, nonSpaces_append, ← append_assoc]

theorem coalesce_spec {chunks : List MarkdownIR} (h : ∀ c ∈ chunks, SettledChunk options c) :
    nonSpaces (chunkTexts (coalesceWhitespaceOnlyMarkdownIRChunks options chunks)) =
      nonSpaces (chunkTexts chunks) ∧
      ∀ c ∈ coalesceWhitespaceOnlyMarkdownIRChunks options chunks, SettledChunk options c := by
  cases chunks with
  | nil => exact ⟨rfl, h⟩
  | cons chunk rest =>
    have hrun := coalesceFrom_spec [] rest (fun c hc => absurd hc not_mem_nil)
      (h chunk mem_cons_self) fun c hc => h c (mem_cons_of_mem _ hc)
    constructor
    · show coalescedWords (coalesceFrom options [] chunk rest) = _
      rw [hrun.1, chunkTexts_cons, nonSpaces_append]
      rfl
    · intro c hc
      exact hrun.2 c (mem_reverse.mp hc)

/-! ## The chunks -/

/-- After enough rounds there is a result, whatever the limit is and however the text is rendered.
It has the words of the text in their order, and each of its chunks renders within the limit,
unless it is a single unit or none of its prefixes would. -/
theorem renderMarkdownIRChunksWithinLimit_fits (options : RenderOptions Rendered) :
    ∃ rounds chunks, (∀ fuel, rounds ≤ fuel →
        renderMarkdownIRChunksWithinLimit options fuel = some chunks) ∧
      nonSpaces (chunks.flatMap (·.source.text)) = nonSpaces options.ir.text ∧
      ∀ chunk ∈ chunks, chunk.rendered = options.renderChunk chunk.source ∧
        ((normalizeRenderedLimit options.limit).admits (options.measureRendered chunk.rendered) =
            true ∨
          chunk.source.text.length ≤ 1 ∨
          ∀ n, 0 < n → n < chunk.source.text.length →
            (normalizeRenderedLimit options.limit).admits (options.measureRendered
              (options.renderChunk (sliceMarkdownIR chunk.source 0 n))) = false) := by
  by_cases hnil : options.ir.text = []
  · refine ⟨0, [], fun fuel _ => ?_, ?_, fun chunk hmem => absurd hmem not_mem_nil⟩
    · unfold renderMarkdownIRChunksWithinLimit
      rw [if_pos hnil]
    · rw [hnil]
      rfl
  · have hfirst := chunkMarkdownIRByLimit_spec hnil (normalizeRenderedLimit options.limit)
    obtain ⟨settled, hrun, htexts, hall⟩ := renderLoop_spec options
      (chunkMarkdownIRByLimit options.ir (normalizeRenderedLimit options.limit)) [] hfirst.2
    have hcoalesce := coalesce_spec hall
    refine ⟨pendingRank (chunkMarkdownIRByLimit options.ir (normalizeRenderedLimit options.limit)),
      (coalesceWhitespaceOnlyMarkdownIRChunks options settled).map fun source =>
      ⟨options.renderChunk source, source⟩, fun fuel hfuel => ?_, ?_, ?_⟩
    · unfold renderMarkdownIRChunksWithinLimit
      dsimp only
      rw [if_neg hnil, hrun fuel hfuel]
      rfl
    · rw [flatMap_map]
      calc nonSpaces (chunkTexts (coalesceWhitespaceOnlyMarkdownIRChunks options settled))
          = nonSpaces (chunkTexts settled) := hcoalesce.1
        _ = nonSpaces options.ir.text := by rw [htexts, hfirst.1]
    · intro chunk hmem
      obtain ⟨source, hsource, rfl⟩ := mem_map.mp hmem
      exact ⟨rfl, hcoalesce.2 source hsource⟩

end OpenClaw
