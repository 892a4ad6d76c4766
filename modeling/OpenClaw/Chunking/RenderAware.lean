import OpenClaw.Chunking.MarkdownIr

/-!
# Chunks that fit when rendered

`render-aware-chunking.ts`. A chunk whose rendering is too long is cut again, at the longest
prefix that renders within the limit, or at white space in front of it. The pieces take the
chunk's place in a work list. Chunks of white space are joined to a neighbour afterwards.
-/

namespace OpenClaw

open Option

/-! ## The limit -/

/-- A value of `Math.max(1, Math.floor(limit))`. -/
inductive RenderedLimit where
  | nan
  | units (count : ℕ+)
  | unbounded
deriving DecidableEq

def normalizeRenderedLimit : JsNumber → RenderedLimit
  | .nan => .nan
  | .negInfinity => .units 1
  | .infinity => .unbounded
  | .finite limit => .units ⟨max 1 ⌊limit⌋.toNat, lt_max_of_lt_left Nat.one_pos⟩

/-- `measured <= renderedLimit`. -/
def RenderedLimit.admits (limit : RenderedLimit) (measured : JsNumber) : Bool :=
  match limit with
  | nan => false
  | units count => measured.atMost (count : ℕ)
  | unbounded => measured ≠ .nan

structure RenderOptions (Rendered : Type) where
  ir : MarkdownIR
  limit : JsNumber
  measureRendered : Rendered → JsNumber
  renderChunk : MarkdownIR → Rendered

structure RenderedMarkdownChunk (Rendered : Type) where
  rendered : Rendered
  source : MarkdownIR

/-- The rendering of the text is within the limit. -/
def RenderOptions.fits {Rendered : Type} (options : RenderOptions Rendered)
    (ir : MarkdownIR) : Bool :=
  (normalizeRenderedLimit options.limit).admits (options.measureRendered (options.renderChunk ir))

/-! ## Slices -/

variable (ir : MarkdownIR)

def sliceMarkdownIR (start stop : ℕ) : MarkdownIR :=
  ⟨unitsSlice ir.text start stop, sliceStyleSpans ir.styles start stop,
    sliceLinkSpans ir.links start stop⟩

/-- `chunkMarkdownIR` with a normalized limit. No text is shorter than `NaN`, and none longer, so
that `chunkText` gives the text back. -/
def chunkMarkdownIRByLimit : RenderedLimit → List MarkdownIR
  | .nan => if ir.text = [] then [] else [sliceMarkdownIR ir 0 ir.text.length]
  | .units count => chunkMarkdownIR ir (count : ℕ)
  | .unbounded => if ir.text = [] then [] else [ir]

/-! ## Cuts at white space -/

/-- The variables of `findMarkdownIRPreservedSplitIndex`, with `none` for -1. -/
structure SplitScan where
  lastOutsideParenNewlineBreak : Option ℕ := none
  lastOutsideParenWhitespaceBreak : Option ℕ := none
  lastOutsideParenWhitespaceRunStart : Option ℕ := none
  lastAnyNewlineBreak : Option ℕ := none
  lastAnyWhitespaceBreak : Option ℕ := none
  lastAnyWhitespaceRunStart : Option ℕ := none
  parenDepth : ℕ := 0
  sawNonWhitespace : Bool := false

/-- A round of the loop, where `previous` is the unit in front, from `start` on. -/
def SplitScan.step (scan : SplitScan) (previous : Option UInt16) (index : ℕ) (char : UInt16) :
    SplitScan :=
  if char = 40 then { scan with sawNonWhitespace := true, parenDepth := scan.parenDepth + 1 }
  else if char = 41 ∧ 0 < scan.parenDepth then
    { scan with sawNonWhitespace := true, parenDepth := scan.parenDepth - 1 }
  else if !isSpaceUnit char then { scan with sawNonWhitespace := true }
  else if !scan.sawNonWhitespace then scan
  else if char = newline then
    { scan with
      lastAnyNewlineBreak := some (index + 1)
      lastOutsideParenNewlineBreak :=
        if scan.parenDepth = 0 then some (index + 1) else scan.lastOutsideParenNewlineBreak }
  else
    let whitespaceRunStart :=
      if previous.any isSpaceUnit then scan.lastAnyWhitespaceRunStart else some index
    { scan with
      lastAnyWhitespaceBreak := some (index + 1)
      lastAnyWhitespaceRunStart := whitespaceRunStart
      lastOutsideParenWhitespaceBreak :=
        if scan.parenDepth = 0 then some (index + 1) else scan.lastOutsideParenWhitespaceBreak
      lastOutsideParenWhitespaceRunStart :=
        if scan.parenDepth = 0 then whitespaceRunStart
        else scan.lastOutsideParenWhitespaceRunStart }

def SplitScan.run : SplitScan → Option UInt16 → ℕ → Units → SplitScan
  | scan, _, _, [] => scan
  | scan, previous, index, char :: rest =>
    (scan.step previous index char).run (some char) (index + 1) rest

/-- A break behind white space that goes on moves to the beginning of that white space. -/
def resolveWhitespaceBreak (text : Units) (start breakIndex : ℕ) (runStart : Option ℕ) : ℕ :=
  match runStart.filter (start < ·) with
  | none => breakIndex
  | some runStart => if (text[breakIndex]?).any isSpaceUnit then runStart else breakIndex

def findMarkdownIRPreservedSplitIndex (text : Units) (start : ℕ) (limit : ℕ+) : ℕ :=
  let maxEnd := min text.length (start + limit)
  if text.length ≤ maxEnd then text.length
  else
    let scan := SplitScan.run {} none start (unitsSlice text start maxEnd)
    match scan.lastOutsideParenNewlineBreak.filter (start < ·) with
    | some breakIndex => breakIndex
    | none =>
    match scan.lastOutsideParenWhitespaceBreak.filter (start < ·) with
    | some breakIndex =>
      resolveWhitespaceBreak text start breakIndex scan.lastOutsideParenWhitespaceRunStart
    | none =>
    match scan.lastAnyNewlineBreak.filter (start < ·) with
    | some breakIndex => breakIndex
    | none =>
    match scan.lastAnyWhitespaceBreak.filter (start < ·) with
    | some breakIndex => resolveWhitespaceBreak text start breakIndex scan.lastAnyWhitespaceRunStart
    | none => maxEnd

/-- The indices found so far lie in the part of the window that was read. -/
structure SplitScan.Within (scan : SplitScan) (stop : ℕ) : Prop where
  outsideNewline : ∀ i, scan.lastOutsideParenNewlineBreak = some i → i ≤ stop
  outsideWhitespace : ∀ i, scan.lastOutsideParenWhitespaceBreak = some i → i ≤ stop
  outsideRun : ∀ i, scan.lastOutsideParenWhitespaceRunStart = some i → i ≤ stop
  anyNewline : ∀ i, scan.lastAnyNewlineBreak = some i → i ≤ stop
  anyWhitespace : ∀ i, scan.lastAnyWhitespaceBreak = some i → i ≤ stop
  anyRun : ∀ i, scan.lastAnyWhitespaceRunStart = some i → i ≤ stop

theorem SplitScan.Within.mono {scan : SplitScan} {stop stop' : ℕ} (h : scan.Within stop)
    (hle : stop ≤ stop') : scan.Within stop' where
  outsideNewline := fun i hi => (h.outsideNewline i hi).trans hle
  outsideWhitespace := fun i hi => (h.outsideWhitespace i hi).trans hle
  outsideRun := fun i hi => (h.outsideRun i hi).trans hle
  anyNewline := fun i hi => (h.anyNewline i hi).trans hle
  anyWhitespace := fun i hi => (h.anyWhitespace i hi).trans hle
  anyRun := fun i hi => (h.anyRun i hi).trans hle

theorem SplitScan.Within.step {scan : SplitScan} {index : ℕ} (h : scan.Within index)
    (previous : Option UInt16) (char : UInt16) :
    (scan.step previous index char).Within (index + 1) := by
  have hkeep := h.mono (Nat.le_succ index)
  -- an index found in this round is this one, or the one behind it
  have hnew : ∀ {found : Option ℕ}, (∀ i, found = some i → i ≤ index + 1) → ∀ {newer : ℕ},
      newer ≤ index + 1 → ∀ {b : Prop} [Decidable b], ∀ i,
      (if b then some newer else found) = some i → i ≤ index + 1 := by
    intro found hfound newer hle b _ i hi
    split at hi
    · rw [← some.inj hi]
      exact hle
    · exact hfound i hi
  have hrun : ∀ i, (if previous.any isSpaceUnit then scan.lastAnyWhitespaceRunStart
      else some index) = some i → i ≤ index + 1 := by
    intro i hi
    split at hi
    · exact hkeep.anyRun i hi
    · rw [← some.inj hi]
      exact Nat.le_succ index
  have hlast : ∀ i, some (index + 1) = some i → i ≤ index + 1 := by
    intro i hi
    rw [← some.inj hi]
  unfold SplitScan.step
  split
  · exact ⟨hkeep.1, hkeep.2, hkeep.3, hkeep.4, hkeep.5, hkeep.6⟩
  split
  · exact ⟨hkeep.1, hkeep.2, hkeep.3, hkeep.4, hkeep.5, hkeep.6⟩
  split
  · exact ⟨hkeep.1, hkeep.2, hkeep.3, hkeep.4, hkeep.5, hkeep.6⟩
  split
  · exact hkeep
  split
  · exact ⟨hnew hkeep.outsideNewline le_rfl, hkeep.2, hkeep.3, hlast, hkeep.5, hkeep.6⟩
  · refine ⟨hkeep.1, hnew hkeep.outsideWhitespace le_rfl, ?_, hkeep.4, hlast, hrun⟩
    intro i hi
    dsimp only at hi
    split at hi
    · exact hrun i hi
    · exact hkeep.outsideRun i hi

theorem SplitScan.Within.run {scan : SplitScan} {index : ℕ} (h : scan.Within index)
    (previous : Option UInt16) (units : Units) :
    (scan.run previous index units).Within (index + units.length) := by
  induction units generalizing scan previous index with
  | nil => exact h
  | cons char rest ih =>
    have hrest := ih (h.step previous char) (some char)
    rw [List.length_cons, show index + (rest.length + 1) = index + 1 + rest.length by omega]
    exact hrest

theorem resolveWhitespaceBreak_bounds {text : Units} {start stop breakIndex : ℕ}
    {runStart : Option ℕ} (hbreak : start < breakIndex ∧ breakIndex ≤ stop)
    (hrun : ∀ i, runStart = some i → i ≤ stop) :
    start < resolveWhitespaceBreak text start breakIndex runStart ∧
      resolveWhitespaceBreak text start breakIndex runStart ≤ stop := by
  unfold resolveWhitespaceBreak
  split
  · exact hbreak
  · next i hi =>
    have hfound := Option.filter_eq_some_iff.mp hi
    split
    · exact ⟨of_decide_eq_true hfound.2, hrun i hfound.1⟩
    · exact hbreak

/-- A cut that is not the end of the text lies in the window. -/
theorem findMarkdownIRPreservedSplitIndex_bounds {text : Units} {start : ℕ} {limit : ℕ+}
    (h : start + limit < text.length) : start < findMarkdownIRPreservedSplitIndex text start limit ∧
      findMarkdownIRPreservedSplitIndex text start limit ≤ start + limit := by
  have hpos := limit.pos
  have hmin : min text.length (start + limit) = start + limit := by omega
  unfold findMarkdownIRPreservedSplitIndex
  rw [hmin]
  dsimp only
  rw [if_neg (by omega)]
  have hlength : start + (unitsSlice text start (start + limit)).length = start + limit := by
    rw [unitsSlice, List.length_drop, List.length_take]
    omega
  have hempty : SplitScan.Within {} start := by
    constructor <;> exact fun i hi => by cases hi
  have hwithin := hempty.run none (unitsSlice text start (start + limit))
  rw [hlength] at hwithin
  generalize SplitScan.run {} none start (unitsSlice text start (start + limit)) = scan at *
  have hfound : ∀ {found : Option ℕ} {i : ℕ}, found.filter (start < ·) = some i →
      found = some i ∧ start < i := by
    intro found i hi
    have hiff := Option.filter_eq_some_iff.mp hi
    exact ⟨hiff.1, of_decide_eq_true hiff.2⟩
  split
  · next i hi => exact ⟨(hfound hi).2, hwithin.outsideNewline i (hfound hi).1⟩
  split
  · next i hi =>
    exact resolveWhitespaceBreak_bounds ⟨(hfound hi).2, hwithin.outsideWhitespace i (hfound hi).1⟩
      hwithin.outsideRun
  split
  · next i hi => exact ⟨(hfound hi).2, hwithin.anyNewline i (hfound hi).1⟩
  split
  · next i hi =>
    exact resolveWhitespaceBreak_bounds ⟨(hfound hi).2, hwithin.anyWhitespace i (hfound hi).1⟩
      hwithin.anyRun
  · omega

theorem lt_findMarkdownIRPreservedSplitIndex {text : Units} {cursor : ℕ} (limit : ℕ+)
    (h : cursor < text.length) : cursor < findMarkdownIRPreservedSplitIndex text cursor limit := by
  by_cases hmore : cursor + limit < text.length
  · exact (findMarkdownIRPreservedSplitIndex_bounds hmore).1
  · unfold findMarkdownIRPreservedSplitIndex
    dsimp only
    rw [if_pos (by omega)]
    exact h

/-- The loop of `splitMarkdownIRPreserveWhitespace`. -/
def splitPreserveFrom (ir : MarkdownIR) (limit : ℕ+) (cursor : ℕ) : List MarkdownIR :=
  if _h : cursor < ir.text.length then
    let stop := findMarkdownIRPreservedSplitIndex ir.text cursor limit
    sliceMarkdownIR ir cursor stop :: splitPreserveFrom ir limit stop
  else []
termination_by ir.text.length - cursor
decreasing_by
  have hlt := lt_findMarkdownIRPreservedSplitIndex limit _h
  omega

def splitMarkdownIRPreserveWhitespace (limit : ℕ+) : List MarkdownIR :=
  if ir.text = [] then []
  else if ir.text.length ≤ limit then [ir]
  else splitPreserveFrom ir limit 0

/-! ## The work list -/

section

variable {Rendered : Type} (options : RenderOptions Rendered)

/-- The loop of `findLargestChunkTextLengthWithinRenderedLimit`, down from a length. -/
def findLargestFrom (chunk : MarkdownIR) : ℕ → ℕ
  | 0 => 0
  | n + 1 =>
    if options.fits (sliceMarkdownIR chunk 0 (n + 1)) then n + 1 else findLargestFrom chunk n

variable (chunk : MarkdownIR)

def findLargestChunkTextLengthWithinRenderedLimit : ℕ :=
  if chunk.text.length ≤ 1 then chunk.text.length
  else findLargestFrom options chunk (chunk.text.length - 1)

def splitMarkdownIRByRenderedLimit : List MarkdownIR :=
  if chunk.text.length ≤ 1 then [chunk]
  else
    let splitLimit := findLargestChunkTextLengthWithinRenderedLimit options chunk
    if h : splitLimit = 0 then [chunk]
    else
      let split := splitMarkdownIRPreserveWhitespace chunk ⟨splitLimit, Nat.pos_of_ne_zero h⟩
      if split.head?.any options.fits then split
      else [sliceMarkdownIR chunk 0 splitLimit,
        sliceMarkdownIR chunk splitLimit chunk.text.length]

/-- The loop over the pending chunks. -/
def renderLoop : ℕ → List MarkdownIR → List MarkdownIR → Option (List MarkdownIR)
  | _, [], finalized => some finalized
  | 0, _ :: _, _ => none
  | fuel + 1, chunk :: pending, finalized =>
    if options.fits chunk ∨ chunk.text.length ≤ 1 then
      renderLoop fuel pending (finalized ++ [chunk])
    else
      let split := splitMarkdownIRByRenderedLimit options chunk
      if split.length ≤ 1 then renderLoop fuel pending (finalized ++ [chunk])
      else renderLoop fuel (split ++ pending) finalized

/-! ## White space -/

/-- The loop of `mergeAdjacentStyleSpans`; `last` is the last span merged so far. -/
def mergeAdjacentStyleFrom (last : MarkdownStyleSpan) :
    List MarkdownStyleSpan → List MarkdownStyleSpan
  | [] => [last]
  | span :: rest =>
    if last.style = span.style ∧ span.start ≤ last.stop then
      mergeAdjacentStyleFrom { last with stop := max last.stop span.stop } rest
    else last :: mergeAdjacentStyleFrom span rest

def mergeAdjacentStyleSpans : List MarkdownStyleSpan → List MarkdownStyleSpan
  | [] => []
  | span :: rest => mergeAdjacentStyleFrom span rest

/-- The loop of `mergeAdjacentLinkSpans`; `last` is the last span merged so far. -/
def mergeAdjacentLinkFrom (last : MarkdownLinkSpan) : List MarkdownLinkSpan → List MarkdownLinkSpan
  | [] => [last]
  | link :: rest =>
    if last.href = link.href ∧ link.start ≤ last.stop then
      mergeAdjacentLinkFrom { last with stop := max last.stop link.stop } rest
    else last :: mergeAdjacentLinkFrom link rest

def mergeAdjacentLinkSpans : List MarkdownLinkSpan → List MarkdownLinkSpan
  | [] => []
  | link :: rest => mergeAdjacentLinkFrom link rest

def mergeMarkdownIRChunks (left right : MarkdownIR) : MarkdownIR :=
  let offset := left.text.length
  { text := left.text ++ right.text
    styles := mergeAdjacentStyleSpans (left.styles ++ right.styles.map fun span =>
      { span with start := span.start + offset, stop := span.stop + offset })
    links := mergeAdjacentLinkSpans (left.links ++ right.links.map fun link =>
      { link with start := link.start + offset, stop := link.stop + offset }) }

/-- The loop that divides white space between its neighbours: a part of it, down from a length,
goes to the chunk in front. -/
def divideWhitespace (prev chunk next : MarkdownIR) : ℕ → MarkdownIR × MarkdownIR
  | 0 => (prev, next)
  | n + 1 =>
    let mergedPrev := mergeMarkdownIRChunks prev (sliceMarkdownIR chunk 0 (n + 1))
    let mergedNext := mergeMarkdownIRChunks
      (sliceMarkdownIR chunk (n + 1) chunk.text.length) next
    if options.fits mergedPrev && options.fits mergedNext then (mergedPrev, mergedNext)
    else divideWhitespace prev chunk next n

/-- `chunk.text.trim().length > 0` is false. -/
def MarkdownIR.isBlank : Bool := ir.text.all isSpaceUnit

variable (coalesced : List MarkdownIR)

/-- A round with nothing behind the chunk. The coalesced chunks are the last one first. -/
def coalesceLast (chunk : MarkdownIR) : List MarkdownIR :=
  if !chunk.isBlank then chunk :: coalesced
  else match coalesced with
    | [] => []
    | prev :: rest =>
      let mergedPrev := mergeMarkdownIRChunks prev chunk
      if options.fits mergedPrev then mergedPrev :: rest else prev :: rest

/-- A round with a chunk behind: the coalesced chunks, and what takes the place of the next. -/
def coalesceRound (chunk next : MarkdownIR) : List MarkdownIR × MarkdownIR :=
  if !chunk.isBlank then (chunk :: coalesced, next)
  else
    let mergedNext := mergeMarkdownIRChunks chunk next
    match coalesced with
    | [] => if options.fits mergedNext then ([], mergedNext) else ([], next)
    | prev :: rest =>
      let mergedPrev := mergeMarkdownIRChunks prev chunk
      if options.fits mergedPrev then (mergedPrev :: rest, next)
      else if options.fits mergedNext then (prev :: rest, mergedNext)
      else
        let divided := divideWhitespace options prev chunk next (chunk.text.length - 1)
        (divided.1 :: rest, divided.2)

def coalesceFrom (coalesced : List MarkdownIR) (chunk : MarkdownIR) :
    List MarkdownIR → List MarkdownIR
  | [] => coalesceLast options coalesced chunk
  | next :: rest =>
    let round := coalesceRound options coalesced chunk next
    coalesceFrom round.1 round.2 rest

def coalesceWhitespaceOnlyMarkdownIRChunks : List MarkdownIR → List MarkdownIR
  | [] => []
  | chunk :: rest => (coalesceFrom options [] chunk rest).reverse

/-- The chunks, when a number of rounds over the pending ones is enough. -/
def renderMarkdownIRChunksWithinLimit (fuel : ℕ) : Option (List (RenderedMarkdownChunk Rendered)) :=
  if options.ir.text = [] then some []
  else
    let pending := chunkMarkdownIRByLimit options.ir (normalizeRenderedLimit options.limit)
    (renderLoop options fuel pending []).map fun finalized =>
      (coalesceWhitespaceOnlyMarkdownIRChunks options finalized).map fun source =>
        ⟨options.renderChunk source, source⟩

end

end OpenClaw
