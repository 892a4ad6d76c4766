import Mathlib.Data.List.Infix
import Mathlib.Tactic.Common
import OpenClaw.Text.Basic

/-!
# Fenced code blocks

`parseFenceSpans` and `findFenceSpanAt` of `fences.ts`. Positions and lengths count UTF-16 code
units here, since a message may be cut anywhere; a text is the list of its code units.
-/

namespace OpenClaw

/-- A text as its UTF-16 code units. -/
abbrev Units := List UInt16

/-- The code units of an ASCII literal. -/
def units (s : String) : Units := s.toList.map fun c => UInt16.ofNat c.toNat

def newline : UInt16 := 10

/-- The class `\s`. -/
def isSpaceUnit (unit : UInt16) : Bool := isSpace (Char.ofNat unit.toNat)

/-- What `.` does not match. -/
def isLineTerminatorUnit (unit : UInt16) : Bool :=
  unit = 10 || unit = 13 || unit = 8232 || unit = 8233

/-! ## Fence lines -/

/-- The indent and the marker of a line, if it is one of a fence: the regular expression
`^( {0,3})(BBB+|~~~+)(.*)$`, with a backtick for `B`. -/
def matchFenceLine (line : Units) : Option (Units × Units) :=
  let indent := line.takeWhile (· = 32)
  let afterIndent := line.dropWhile (· = 32)
  match afterIndent.head? with
  | none => none
  | some markerChar =>
    let marker := afterIndent.takeWhile (· = markerChar)
    let rest := afterIndent.dropWhile (· = markerChar)
    if indent.length ≤ 3 ∧ (markerChar = 96 ∨ markerChar = 126) ∧ 3 ≤ marker.length ∧
        !rest.any isLineTerminatorUnit then some (indent, marker)
    else none

structure FenceSpan where
  start : ℕ
  stop : ℕ
  openLine : Units
  marker : Units
  indent : Units
deriving DecidableEq

/-- `buffer.split("\n")`. -/
def splitLines : Units → List Units
  | [] => [[]]
  | unit :: rest =>
    match splitLines rest with
    | [] => [[unit]]
    | line :: lines => if unit = newline then [] :: line :: lines else (unit :: line) :: lines

/-- A fence that has been opened. -/
structure OpenFence where
  start : ℕ
  openLine : Units
  marker : Units
  indent : Units

variable (fence : OpenFence)

def OpenFence.close (stop : ℕ) : FenceSpan :=
  ⟨fence.start, stop, fence.openLine, fence.marker, fence.indent⟩

/-- The line closes the fence. -/
def OpenFence.closedBy (marker : Units) : Bool :=
  fence.marker.head? = marker.head? && fence.marker.length ≤ marker.length

/-- The loop over the lines; the next one begins at `offset`. -/
def fenceSpansFrom (bufferLength : ℕ) : ℕ → Option OpenFence → List Units → List FenceSpan
  | _, none, [] => []
  | _, some fence, [] => [fence.close bufferLength]
  | offset, fence?, line :: lines =>
    let lineEnd := offset + line.length
    match matchFenceLine line, fence? with
    | none, fence? => fenceSpansFrom bufferLength (lineEnd + 1) fence? lines
    | some (indent, marker), none =>
      fenceSpansFrom bufferLength (lineEnd + 1) (some ⟨offset, line, marker, indent⟩) lines
    | some (_, marker), some fence =>
      if fence.closedBy marker then
        fence.close lineEnd :: fenceSpansFrom bufferLength (lineEnd + 1) none lines
      else fenceSpansFrom bufferLength (lineEnd + 1) (some fence) lines

def parseFenceSpans (buffer : Units) : List FenceSpan :=
  fenceSpansFrom buffer.length 0 none (splitLines buffer)

/-! ## Finding a span -/

/-- The binary search between `low` and `high`, which is exclusive here. -/
def findFenceSpanFrom (spans : List FenceSpan) (index : ℕ) : ℕ → ℕ → ℕ → Option FenceSpan
  | 0, _, _ => none
  | fuel + 1, low, high =>
    if high ≤ low then none
    else
      let mid := (low + (high - 1)) / 2
      match spans[mid]? with
      | none => none
      | some span =>
        if index ≤ span.start then findFenceSpanFrom spans index fuel low mid
        else if span.stop ≤ index then findFenceSpanFrom spans index fuel (mid + 1) high
        else some span

variable (spans : List FenceSpan)

def findFenceSpanAt (index : ℕ) : Option FenceSpan :=
  findFenceSpanFrom spans index spans.length 0 spans.length

def isSafeFenceBreak (index : ℕ) : Bool :=
  (findFenceSpanAt spans index).isNone

end OpenClaw
