import OpenClaw.Chunking.Fences

/-!
# Cutting a message into chunks

`chunkMarkdownText` of `chunk.ts`. The loop is written with a number of rounds that it may take;
without one left it has no result. A round cuts off a piece of the text, which is kept with what
is put around it.
-/

namespace OpenClaw

/-! ## Soft breaks -/

structure Breakpoints where
  lastNewline : Option ℕ
  lastWhitespace : Option ℕ
  depth : ℕ

def Breakpoints.init : Breakpoints := ⟨none, none, 0⟩

/-- One position of the scan. -/
def Breakpoints.scan (isAllowed : ℕ → Bool) (points : Breakpoints) (i : ℕ) (char : UInt16) :
    Breakpoints :=
  if !isAllowed i then points
  else if char = 40 then { points with depth := points.depth + 1 }
  else if char = 41 ∧ 0 < points.depth then { points with depth := points.depth - 1 }
  else if points.depth ≠ 0 then points
  else if char = newline then { points with lastNewline := some i }
  else if isSpaceUnit char then { points with lastWhitespace := some i }
  else points

def scanParenAwareFrom (isAllowed : ℕ → Bool) : Breakpoints → ℕ → Units → Breakpoints
  | points, _, [] => points
  | points, i, char :: rest =>
    scanParenAwareFrom isAllowed (points.scan isAllowed i char) (i + 1) rest

variable (text : Units)

/-- `text.slice(start, end)`. -/
def unitsSlice (start stop : ℕ) : Units := (text.take stop).drop start

def scanParenAwareBreakpoints (start stop : ℕ) (isAllowed : ℕ → Bool) : Breakpoints :=
  scanParenAwareFrom isAllowed .init start (unitsSlice text start stop)

/-- The index is `none` where the code has -1. -/
def pickSafeBreakIndex (start stop : ℕ) (spans : List FenceSpan) : Option ℕ :=
  let points := scanParenAwareBreakpoints text start stop (isSafeFenceBreak spans)
  match points.lastNewline.filter (start < ·) with
  | some lastNewline => some lastNewline
  | none => points.lastWhitespace.filter (start < ·)

/-! ## Breaks in a fence -/

def closeLine (fence : FenceSpan) : Units := fence.indent ++ fence.marker

/-- The loop over the newlines in front of `stop`: the break behind the last one in the fence. -/
def pickNewlineBreak (text : Units) (spans : List FenceSpan) (start minProgressIdx : ℕ)
    (initialFence : FenceSpan) : ℕ → Option ℕ
  | 0 => none
  | lastNewline + 1 =>
    let candidateBreak := lastNewline + 1
    if lastNewline < start then none
    else if text[lastNewline]? = some newline then
      if candidateBreak < minProgressIdx then none
      else if (findFenceSpanAt spans candidateBreak).map (·.start) = some initialFence.start then
        some candidateBreak
      else pickNewlineBreak text spans start minProgressIdx initialFence lastNewline
    else pickNewlineBreak text spans start minProgressIdx initialFence lastNewline

/-- The break of a window that ends at `windowEnd`, in the fence. -/
def breakInFence (spans : List FenceSpan) (start contentLimit windowEnd : ℕ)
    (initialFence : FenceSpan) : ℕ :=
  let closeLength := (closeLine initialFence).length
  let maxIdxIfNeedNewline := start + (contentLimit - (closeLength + 1))
  if maxIdxIfNeedNewline ≤ start then windowEnd
  else
    let minProgressIdx := min text.length
      (max (start + 1) (initialFence.start + initialFence.openLine.length + 2))
    let maxIdxIfAlreadyNewline := start + (contentLimit - closeLength)
    match pickNewlineBreak text spans start minProgressIdx initialFence
        (max start (maxIdxIfAlreadyNewline - 1) + 1) with
    | some breakIdx => breakIdx
    | none =>
      if maxIdxIfAlreadyNewline < minProgressIdx then windowEnd
      else max minProgressIdx maxIdxIfNeedNewline

/-! ## The loop -/

structure ChunkState where
  start : ℕ
  reopenFence : Option FenceSpan

/-- A piece of the text with the fence that is opened before it and the one closed behind it. -/
structure ChunkPiece where
  reopenFence : Option FenceSpan
  start : ℕ
  stop : ℕ
  fenceToSplit : Option FenceSpan
deriving DecidableEq

def reopenPrefix : Option FenceSpan → Units
  | none => []
  | some fence => fence.openLine ++ [newline]

/-- The chunk as it is sent. -/
def ChunkPiece.chunk (piece : ChunkPiece) : Units :=
  let rawChunk := reopenPrefix piece.reopenFence ++ unitsSlice text piece.start piece.stop
  match piece.fenceToSplit with
  | none => rawChunk
  | some fence =>
    if rawChunk.getLast? = some newline then rawChunk ++ closeLine fence
    else rawChunk ++ [newline] ++ closeLine fence

def skipLeadingNewlines (value : Units) (start : ℕ) : ℕ :=
  start + ((value.drop start).takeWhile (· = newline)).length

variable (limit : ℕ)

def contentLimit (state : ChunkState) : ℕ :=
  max 1 (limit - (reopenPrefix state.reopenFence).length)

/-- Where the window of a state is cut, and the fence that is cut there. -/
def chooseBreak (spans : List FenceSpan) (state : ChunkState) : ℕ × Option FenceSpan :=
  let start := state.start
  let contentLimit := contentLimit limit state
  let windowEnd := min text.length (start + contentLimit)
  let softBreak := pickSafeBreakIndex text start windowEnd spans
  let breakIdx := softBreak.getD windowEnd
  match findFenceSpanAt spans breakIdx with
  | none => (breakIdx, none)
  | some initialFence =>
    let breakIdx := breakInFence text spans start contentLimit windowEnd initialFence
    (breakIdx, (findFenceSpanAt spans breakIdx).filter (·.start = initialFence.start))

/-- A round of the loop: the piece it cuts off, and the next state if it goes on. -/
def chunkStep (spans : List FenceSpan) (state : ChunkState) :
    Option ChunkPiece × Option ChunkState :=
  if text.length - state.start ≤ contentLimit limit state then
    (some ⟨state.reopenFence, state.start, text.length, none⟩, none)
  else
    let (breakIdx, fenceToSplit) := chooseBreak text limit spans state
    if breakIdx ≤ state.start then (none, none)
    else
      let brokeOnSeparator := (text[breakIdx]?).any isSpaceUnit
      let nextStart := min text.length (breakIdx + if brokeOnSeparator then 1 else 0)
      let nextStart := if fenceToSplit.isSome then nextStart else skipLeadingNewlines text nextStart
      (some ⟨state.reopenFence, state.start, breakIdx, fenceToSplit⟩, some ⟨nextStart, fenceToSplit⟩)

def chunkLoop (text : Units) (limit : ℕ) (spans : List FenceSpan) :
    ℕ → ChunkState → Option (List ChunkPiece)
  | 0, state => if state.start < text.length then none else some []
  | fuel + 1, state =>
    if state.start < text.length then
      match chunkStep text limit spans state with
      | (piece?, none) => some piece?.toList
      | (piece?, some state') =>
        (chunkLoop text limit spans fuel state').map (piece?.toList ++ ·)
    else some []

/-- The pieces of a text that is not returned as it is. -/
def chunkPieces (fuel : ℕ) (text : Units) (limit : ℕ) : Option (List ChunkPiece) :=
  chunkLoop text limit (parseFenceSpans text) fuel ⟨0, none⟩

def resolveChunkEarlyReturn (limit : ℤ) : Option (List Units) :=
  if text = [] then some []
  else if limit ≤ 0 then some [text]
  else if (text.length : ℤ) ≤ limit then some [text]
  else none

def chunkMarkdownText (fuel : ℕ) (text : Units) (limit : ℤ) : Option (List Units) :=
  match resolveChunkEarlyReturn text limit with
  | some early => some early
  | none => (chunkPieces fuel text limit.toNat).map (·.map (·.chunk text))

end OpenClaw
