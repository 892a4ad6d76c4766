import Mathlib.Data.List.Sort
import OpenClaw.Chunking.PlainText

/-!
# Cutting formatted text

`sliceStyleSpans`, `sliceLinkSpans` and `chunkMarkdownIR` of `ir.ts`. The chunks of the plain text
come without their positions, which are found again with a cursor: behind the chunk before and the
white space that follows it. For the first chunk the cursor skips nothing, and so every position
is wrong when the chunking left white space out in front of it.
-/

namespace OpenClaw

open List

/-! ## Formatted text -/

inductive MarkdownStyle where
  | bold | italic | strikethrough | code | codeBlock | spoiler | blockquote
deriving DecidableEq

/-- The place of the style's name in the order of `localeCompare`. -/
def MarkdownStyle.rank : MarkdownStyle → ℕ
  | blockquote => 0
  | bold => 1
  | code => 2
  | codeBlock => 3
  | italic => 4
  | spoiler => 5
  | strikethrough => 6

structure MarkdownStyleSpan where
  start : ℕ
  stop : ℕ
  style : MarkdownStyle
deriving DecidableEq

structure MarkdownLinkSpan where
  start : ℕ
  stop : ℕ
  href : Str
deriving DecidableEq

structure MarkdownIR where
  text : Units
  styles : List MarkdownStyleSpan
  links : List MarkdownLinkSpan
deriving DecidableEq

/-! ## Spans of a slice -/

/-- The comparison of `mergeStyleSpans` is not positive. -/
def MarkdownStyleSpan.le (a b : MarkdownStyleSpan) : Bool :=
  if a.start ≠ b.start then a.start < b.start
  else if a.stop ≠ b.stop then a.stop < b.stop
  else a.style.rank ≤ b.style.rank

/-- The span goes on where the one before it ends. Blockquotes that touch stay apart. -/
def MarkdownStyleSpan.extends (previous span : MarkdownStyleSpan) : Bool :=
  previous.style = span.style ∧ (span.start < previous.stop ∨
    (span.start = previous.stop ∧ span.style ≠ .blockquote))

/-- The loop of `mergeStyleSpans`; `previous` is the last span merged so far. -/
def mergeSortedSpans (previous : MarkdownStyleSpan) :
    List MarkdownStyleSpan → List MarkdownStyleSpan
  | [] => [previous]
  | span :: rest =>
    if previous.extends span then
      mergeSortedSpans { previous with stop := max previous.stop span.stop } rest
    else previous :: mergeSortedSpans span rest

variable (spans : List MarkdownStyleSpan)

def mergeStyleSpans : List MarkdownStyleSpan :=
  match spans.mergeSort MarkdownStyleSpan.le with
  | [] => []
  | first :: rest => mergeSortedSpans first rest

def resolveSliceBounds (spanStart spanStop start stop : ℕ) : Option (ℕ × ℕ) :=
  let sliceStart := max spanStart start
  let sliceStop := min spanStop stop
  if sliceStop ≤ sliceStart then none else some (sliceStart, sliceStop)

def sliceStyleSpans (start stop : ℕ) : List MarkdownStyleSpan :=
  mergeStyleSpans (spans.filterMap fun span =>
    (resolveSliceBounds span.start span.stop start stop).map fun bounds =>
      ⟨bounds.1 - start, bounds.2 - start, span.style⟩)

def sliceLinkSpans (spans : List MarkdownLinkSpan) (start stop : ℕ) : List MarkdownLinkSpan :=
  spans.filterMap fun span =>
    (resolveSliceBounds span.start span.stop start stop).map fun bounds =>
      ⟨bounds.1 - start, bounds.2 - start, span.href⟩

/-! ## The chunks -/

/-- The loop of `chunkMarkdownIR`, where `isFirst` says that the index is 0. -/
def sliceChunks (ir : MarkdownIR) : ℕ → Bool → List Units → List MarkdownIR
  | _, _, [] => []
  | cursor, isFirst, chunk :: rest =>
    if chunk = [] then sliceChunks ir cursor false rest
    else
      let start := if isFirst then cursor else skipSpaces ir.text cursor
      let stop := min ir.text.length (start + chunk.length)
      ⟨chunk, sliceStyleSpans ir.styles start stop, sliceLinkSpans ir.links start stop⟩ ::
        sliceChunks ir stop false rest

variable (ir : MarkdownIR)

def chunkMarkdownIR (limit : ℤ) : List MarkdownIR :=
  if ir.text = [] then []
  else if limit ≤ 0 ∨ (ir.text.length : ℤ) ≤ limit then [ir]
  else sliceChunks ir 0 true (chunkText ir.text limit)

/-! ## What covers a character -/

variable (style : MarkdownStyle)

/-- The text has the style at a position. -/
def MarkdownIR.HasStyle (i : ℕ) : Prop :=
  ∃ span ∈ ir.styles, span.style = style ∧ span.start ≤ i ∧ i < span.stop

/-- The text is linked to `href` at a position. -/
def MarkdownIR.HasLink (href : Str) (i : ℕ) : Prop :=
  ∃ span ∈ ir.links, span.href = href ∧ span.start ≤ i ∧ i < span.stop

/-- Merging two spans of one style keeps what they cover. -/
theorem extends_cover {previous span : MarkdownStyleSpan} (h : previous.extends span = true)
    (hle : previous.start ≤ span.start) (i : ℕ) :
    (previous.start ≤ i ∧ i < max previous.stop span.stop) ↔
      (previous.start ≤ i ∧ i < previous.stop) ∨ (span.start ≤ i ∧ i < span.stop) := by
  have hboth : previous.style = span.style ∧ (span.start < previous.stop ∨
    (span.start = previous.stop ∧ span.style ≠ .blockquote)) := of_decide_eq_true h
  have htouch : span.start ≤ previous.stop := by
    rcases hboth.2 with hlt | heq
    · exact hlt.le
    · exact heq.1.le
  rw [lt_max_iff]
  omega

/-- Some span of the list has the style at the position. -/
def CoversStyle (i : ℕ) : Prop :=
  ∃ span ∈ spans, span.style = style ∧ span.start ≤ i ∧ i < span.stop

theorem coversStyle_cons {span : MarkdownStyleSpan} {spans : List MarkdownStyleSpan}
    {style : MarkdownStyle} {i : ℕ} : CoversStyle (span :: spans) style i ↔
      (span.style = style ∧ span.start ≤ i ∧ i < span.stop) ∨ CoversStyle spans style i := by
  unfold CoversStyle
  rw [exists_mem_cons_iff]

/-- The spans are sorted, so a span that is merged begins behind the one it is merged into. -/
theorem coversStyle_mergeSortedSpans {previous : MarkdownStyleSpan}
    {spans : List MarkdownStyleSpan} {style : MarkdownStyle} {i : ℕ}
    (hsorted : (previous :: spans).Pairwise fun a b => a.start ≤ b.start) :
    CoversStyle (mergeSortedSpans previous spans) style i ↔
      CoversStyle (previous :: spans) style i := by
  induction spans generalizing previous with
  | nil => exact Iff.rfl
  | cons span rest ih =>
    rw [pairwise_cons] at hsorted
    have hle := hsorted.1 span mem_cons_self
    unfold mergeSortedSpans
    split
    · next hextends =>
      have hstyle : previous.style = span.style := (of_decide_eq_true hextends).1
      have hrest : (({ previous with stop := max previous.stop span.stop } : MarkdownStyleSpan) ::
          rest).Pairwise fun a b => a.start ≤ b.start := by
        rw [pairwise_cons]
        exact ⟨fun b hb => hsorted.1 b (mem_cons_of_mem _ hb), hsorted.2.of_cons⟩
      rw [ih hrest, coversStyle_cons, coversStyle_cons, coversStyle_cons]
      dsimp only
      rw [extends_cover hextends hle, hstyle]
      tauto
    · rw [coversStyle_cons, @coversStyle_cons previous, ih hsorted.2]

theorem coversStyle_mergeStyleSpans
    (i : ℕ) : CoversStyle (mergeStyleSpans spans) style i ↔ CoversStyle spans style i := by
  have hperm := mergeSort_perm spans MarkdownStyleSpan.le
  have hsorted : (spans.mergeSort MarkdownStyleSpan.le).Pairwise fun a b => a.start ≤ b.start := by
    have htrans : ∀ a b c : MarkdownStyleSpan, a.le b = true → b.le c = true → a.le c = true := by
      intro a b c hab hbc
      unfold MarkdownStyleSpan.le at *
      grind
    have htotal : ∀ a b : MarkdownStyleSpan, (a.le b || b.le a) = true := by
      intro a b
      unfold MarkdownStyleSpan.le
      grind
    refine (pairwise_mergeSort htrans htotal spans).imp ?_
    intro a b hab
    unfold MarkdownStyleSpan.le at hab
    grind
  have hmem : CoversStyle (spans.mergeSort MarkdownStyleSpan.le) style i ↔
      CoversStyle spans style i := by
    unfold CoversStyle
    simp only [hperm.mem_iff]
  rw [← hmem]
  unfold mergeStyleSpans
  cases h : spans.mergeSort MarkdownStyleSpan.le with
  | nil => exact Iff.rfl
  | cons first rest =>
    rw [h] at hsorted
    exact coversStyle_mergeSortedSpans hsorted

/-- A position of a slice is covered by the part of a span just where the span covers its
character. -/
theorem sliceBounds_cover {spanStart spanStop start stop i : ℕ} (hi : start + i < stop) :
    (∃ bounds, resolveSliceBounds spanStart spanStop start stop = some bounds ∧
      bounds.1 - start ≤ i ∧ i < bounds.2 - start) ↔
      spanStart ≤ start + i ∧ start + i < spanStop := by
  unfold resolveSliceBounds
  dsimp only
  constructor
  · intro ⟨bounds, hbounds, hle, hlt⟩
    split_ifs at hbounds
    rw [← Option.some.inj hbounds] at hle hlt
    dsimp only at hle hlt
    omega
  · intro hcover
    rw [if_neg (by omega)]
    refine ⟨_, rfl, ?_, ?_⟩ <;> (dsimp only; omega)

theorem coversStyle_sliceStyleSpans {spans : List MarkdownStyleSpan} {start stop i : ℕ}
    {style : MarkdownStyle} (hi : start + i < stop) :
    CoversStyle (sliceStyleSpans spans start stop) style i ↔ CoversStyle spans style (start + i) := by
  unfold sliceStyleSpans
  rw [coversStyle_mergeStyleSpans]
  unfold CoversStyle
  constructor
  · intro ⟨part, hmem, hstyle, hle, hlt⟩
    obtain ⟨span, hspan, hpart⟩ := mem_filterMap.mp hmem
    obtain ⟨bounds, hbounds, rfl⟩ := Option.map_eq_some_iff.mp hpart
    exact ⟨span, hspan, hstyle, (sliceBounds_cover hi).mp ⟨bounds, hbounds, hle, hlt⟩⟩
  · intro ⟨span, hspan, hstyle, hcover⟩
    obtain ⟨bounds, hbounds, hle, hlt⟩ := (sliceBounds_cover hi).mpr hcover
    exact ⟨_, mem_filterMap.mpr ⟨span, hspan, Option.map_eq_some_iff.mpr ⟨bounds, hbounds, rfl⟩⟩,
      hstyle, hle, hlt⟩

theorem hasLink_sliceLinkSpans {spans : List MarkdownLinkSpan} {start stop i : ℕ} {href : Str}
    (hi : start + i < stop) :
    (∃ span ∈ sliceLinkSpans spans start stop, span.href = href ∧ span.start ≤ i ∧ i < span.stop) ↔
      ∃ span ∈ spans, span.href = href ∧ span.start ≤ start + i ∧ start + i < span.stop := by
  unfold sliceLinkSpans
  constructor
  · intro ⟨part, hmem, hhref, hle, hlt⟩
    obtain ⟨span, hspan, hpart⟩ := mem_filterMap.mp hmem
    obtain ⟨bounds, hbounds, rfl⟩ := Option.map_eq_some_iff.mp hpart
    exact ⟨span, hspan, hhref, (sliceBounds_cover hi).mp ⟨bounds, hbounds, hle, hlt⟩⟩
  · intro ⟨span, hspan, hhref, hcover⟩
    obtain ⟨bounds, hbounds, hle, hlt⟩ := (sliceBounds_cover hi).mpr hcover
    exact ⟨_, mem_filterMap.mpr ⟨span, hspan, Option.map_eq_some_iff.mpr ⟨bounds, hbounds, rfl⟩⟩,
      hhref, hle, hlt⟩

end OpenClaw
