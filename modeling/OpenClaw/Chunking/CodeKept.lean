import OpenClaw.Chunking.Rounds

/-!
# What the chunks keep of the code

A round drops the whitespace character at its break, also where a fenced block is cut there. All
else that is dropped between two chunks is whitespace outside of the fenced blocks.
-/

namespace OpenClaw

variable {text : Units} {spans : List FenceSpan} {state : ChunkState} {limit i j : ℕ}

/-- The position belongs to a fenced block. -/
def InFence (spans : List FenceSpan) (i : ℕ) : Prop :=
  ∃ span ∈ spans, span.start ≤ i ∧ i < span.stop

/-- The pieces are consecutive, and what they leave out is whitespace outside of the fenced
blocks; so each character of a block is in one piece. -/
structure KeepsCode (text : Units) (spans : List FenceSpan) (pieces : List ChunkPiece) : Prop where
  within : ∀ piece ∈ pieces, piece.start ≤ piece.stop ∧ piece.stop ≤ text.length
  consecutive : pieces.Pairwise fun first second => first.stop ≤ second.start
  omitted : ∀ i unit, text[i]? = some unit → (∀ piece ∈ pieces, ¬piece.Covers i) →
    isSpaceUnit unit = true ∧ ¬InFence spans i
  once : ∀ i, InFence spans i →
    ∃! n : ℕ, ∃ piece : ChunkPiece, pieces[n]? = some piece ∧ piece.Covers i

/-- The state is cut at a whitespace character of a fenced block. -/
structure CutsCode (text : Units) (limit : ℕ) (spans : List FenceSpan) (state : ChunkState) :
    Prop where
  more : HasMore text limit state
  space : (text[cutOf text limit spans state]?).any isSpaceUnit = true
  inFence : InFence spans (cutOf text limit spans state)

theorem InFence.lt_length (hspans : SpansOf text 0 spans) (h : InFence spans i) :
    i < text.length := by
  obtain ⟨span, hmem, _, hstop⟩ := h
  have hle := (hspans.span span hmem).1.le
  omega

/-! ## What a round skips -/

theorem nextStart_eq_of_not_space (h : (text[i]?).any isSpaceUnit = false) :
    nextStart text spans i = i := by
  unfold nextStart
  rw [h]
  dsimp only
  rw [if_neg Bool.false_ne_true, Nat.add_zero]
  split_ifs
  · rfl
  · -- a newline is whitespace
    have hnot : ¬i < skipLeadingNewlines text i := by
      intro hlt
      rw [newline_of_skipLeadingNewlines le_rfl hlt] at h
      exact nomatch h
    have hle := le_skipLeadingNewlines text i
    omega

theorem space_of_skips (h : Skips text limit spans state j) :
    (text[cutOf text limit spans state]?).any isSpaceUnit = true := by
  by_contra hspace
  have hlt := h.lt_next
  rw [nextStart_eq_of_not_space (Bool.eq_false_iff.mpr hspace)] at hlt
  have hle := h.cut_le
  omega

theorem skips_cut (hmore : HasMore text limit state)
    (hspace : (text[cutOf text limit spans state]?).any isSpaceUnit = true) :
    Skips text limit spans state (cutOf text limit spans state) := by
  refine ⟨hmore, le_rfl, ?_⟩
  unfold nextStart
  rw [hspace]
  dsimp only
  rw [if_pos rfl]
  have hle := le_skipLeadingNewlines text (cutOf text limit spans state + 1)
  split_ifs
  · omega
  · omega

/-- Behind the break only newlines are skipped, where no fence is cut. -/
structure SkipsNewline (text : Units) (limit : ℕ) (spans : List FenceSpan) (state : ChunkState)
    (j : ℕ) : Prop where
  no_fence : findFenceSpanAt spans (cutOf text limit spans state) = none
  newline : ∀ i, cutOf text limit spans state < i → i ≤ j → text[i]? = some newline

theorem skipsNewline_of_skips (h : Skips text limit spans state j)
    (hlt : cutOf text limit spans state < j) : SkipsNewline text limit spans state j := by
  have hnext := h.lt_next
  unfold nextStart at hnext
  rw [space_of_skips h] at hnext
  dsimp only at hnext
  rw [if_pos rfl] at hnext
  cases hfence : findFenceSpanAt spans (cutOf text limit spans state) with
  | some fence =>
    rw [hfence, if_pos Option.isSome_some] at hnext
    omega
  | none =>
    rw [hfence, if_neg (by decide)] at hnext
    refine ⟨hfence, fun i hcut hle => ?_⟩
    exact newline_of_skipLeadingNewlines hcut (hle.trans_lt hnext)

theorem isSpace_of_skips (h : Skips text limit spans state j) {unit : UInt16}
    (hunit : text[j]? = some unit) : isSpaceUnit unit = true := by
  rcases h.cut_le.eq_or_lt with heq | hlt
  · have hspace := space_of_skips h
    rw [heq, hunit] at hspace
    exact hspace
  · have hnewline := (skipsNewline_of_skips h hlt).newline j hlt le_rfl
    rw [← Option.some.inj (hnewline.symm.trans hunit)]
    decide

/-- If a round skips a character of a block, it is cut at one: an opening line does not begin
with a newline. -/
theorem cutsCode_of_skips (hspans : SpansOf text 0 spans) (h : Skips text limit spans state j)
    (hfence : InFence spans j) : CutsCode text limit spans state := by
  refine ⟨h.more, space_of_skips h, ?_⟩
  rcases h.cut_le.eq_or_lt with heq | hlt
  · rw [heq]
    exact hfence
  · have hnewline := skipsNewline_of_skips h hlt
    obtain ⟨span, hmem, hstart, hstop⟩ := hfence
    have hnone := (findFenceSpanAt_eq_none_iff hspans).mp hnewline.no_fence span hmem
    have hspan := (hspans.span span hmem).1
    by_cases hcut : cutOf text limit spans state < span.start
    · have hhead := hspan.head
      rw [hnewline.newline span.start hcut hstart] at hhead
      exact absurd rfl (hspan.line.head_ne newline hhead.symm)
    · exact ⟨span, hmem, by omega, by omega⟩

/-! ## The whole text -/

theorem KeepsCode.of_cutFrom {pieces : List ChunkPiece} (hspans : SpansOf text 0 spans)
    (hcut : CutFrom text limit spans ⟨0, none⟩ pieces)
    (hall : ∀ state, ChunkReaches text limit spans ⟨0, none⟩ state →
      ¬CutsCode text limit spans state) : KeepsCode text spans pieces := by
  have homitted : ∀ i unit, text[i]? = some unit → (∀ piece ∈ pieces, ¬piece.Covers i) →
      isSpaceUnit unit = true ∧ ¬InFence spans i := by
    intro i unit hunit huncovered
    have hlt := (List.getElem?_eq_some_iff.mp hunit).1
    obtain ⟨visited, hreach, hskips⟩ := (hcut.omitted i (Nat.zero_le i) hlt).mp huncovered
    exact ⟨isSpace_of_skips hskips hunit,
      fun hfence => hall visited hreach (cutsCode_of_skips hspans hskips hfence)⟩
  refine ⟨fun piece hmem => ?_, hcut.consecutive, homitted, fun i hfence => ?_⟩
  · have hwithin := (hcut.within piece hmem).2
    exact ⟨hwithin.1.le, hwithin.2⟩
  · have hlt := hfence.lt_length hspans
    have hcovered : ∃ piece ∈ pieces, piece.Covers i := by
      by_contra hnone
      push Not at hnone
      exact (homitted i _ (List.getElem?_eq_getElem hlt) hnone).2 hfence
    obtain ⟨piece, hmem, hcovers⟩ := hcovered
    obtain ⟨n, hn⟩ := List.mem_iff_getElem?.mp hmem
    refine ⟨n, ⟨piece, hn, hcovers⟩, fun m ⟨other, hm, hother⟩ => ?_⟩
    unfold ChunkPiece.Covers at hcovers hother
    obtain ⟨hnlt, rfl⟩ := List.getElem?_eq_some_iff.mp hn
    obtain ⟨hmlt, rfl⟩ := List.getElem?_eq_some_iff.mp hm
    have hpairwise := List.pairwise_iff_getElem.mp hcut.consecutive
    rcases lt_trichotomy m n with hless | heq | hgreater
    · have hle := hpairwise m n hmlt hnlt hless
      omega
    · exact heq
    · have hle := hpairwise n m hnlt hmlt hgreater
      omega

theorem not_cutsCode_of_keepsCode {pieces : List ChunkPiece} (hspans : SpansOf text 0 spans)
    (hcut : CutFrom text limit spans ⟨0, none⟩ pieces) (hkeeps : KeepsCode text spans pieces)
    (hreach : ChunkReaches text limit spans ⟨0, none⟩ state) :
    ¬CutsCode text limit spans state := by
  intro hcode
  have hskips := skips_cut hcode.more hcode.space
  have hlt := hcode.inFence.lt_length hspans
  have huncovered := (hcut.omitted _ (Nat.zero_le _) hlt).mpr ⟨state, hreach, hskips⟩
  exact (hkeeps.omitted _ _ (List.getElem?_eq_getElem hlt) huncovered).2 hcode.inFence

/-- The chunks are made of pieces that keep the code of the text exactly if no round is cut at a
whitespace character of a fenced block. -/
theorem chunkMarkdownText_keepsCode_iff (text : Units) (limit : ℤ) (hlimit : 1 ≤ limit) :
    ∃ pieces, (∀ fuel, text.length ≤ fuel → chunkPieces fuel text limit.toNat = some pieces ∧
        chunkMarkdownText fuel text limit = some (pieces.map (·.chunk text))) ∧
      (KeepsCode text (parseFenceSpans text) pieces ↔ ∀ state, ChunkVisits text limit.toNat state →
          ¬CutsCode text limit.toNat (parseFenceSpans text) state) := by
  have hspans := spansOf_parseFenceSpans text
  obtain ⟨pieces, hpieces, hcut⟩ := exists_chunkPieces text limit.toNat
  refine ⟨pieces, fun fuel hfuel => ⟨hpieces fuel hfuel, ?_⟩, fun hkeeps state hvisits => ?_,
    fun hall => KeepsCode.of_cutFrom hspans hcut hall⟩
  · rw [chunkMarkdownText_eq hlimit hfuel, hpieces fuel hfuel]
    rfl
  · exact not_cutsCode_of_keepsCode hspans hcut hkeeps hvisits

/-- A message without a fenced block. -/
theorem chunkMarkdownText_keepsCode_iff_plain : ∃ pieces, (∀ fuel, 5 ≤ fuel →
      chunkPieces fuel (units "ab cd") 3 = some pieces ∧
        chunkMarkdownText fuel (units "ab cd") 3 = some (pieces.map (·.chunk (units "ab cd")))) ∧
      (KeepsCode (units "ab cd") (parseFenceSpans (units "ab cd")) pieces ↔
        ∀ state, ChunkVisits (units "ab cd") 3 state →
          ¬CutsCode (units "ab cd") 3 (parseFenceSpans (units "ab cd")) state) :=
  chunkMarkdownText_keepsCode_iff (units "ab cd") 3 (by decide)

/-- An indented line of code behind the first break. -/
def indentedCode : Units := units "```\na\n b\n```"

def indentedFence : FenceSpan := ⟨0, 12, units "```", units "```", []⟩

/-- The second chunk has lost the indent of its line. -/
theorem exists_not_keepsCode :
    chunkMarkdownText 12 indentedCode 10 = some [units "```\na\n```", units "```\nb\n```"] ∧
      ∃ pieces, chunkPieces 12 indentedCode 10 = some pieces ∧
        chunkMarkdownText 12 indentedCode 10 = some (pieces.map (·.chunk indentedCode)) ∧
        ¬KeepsCode indentedCode (parseFenceSpans indentedCode) pieces := by
  refine ⟨by decide +kernel, [⟨none, 0, 6, some indentedFence⟩, ⟨some indentedFence, 7, 12, none⟩],
    by decide +kernel, by decide +kernel, fun hkeeps => ?_⟩
  have hspans : parseFenceSpans indentedCode = [indentedFence] := by decide +kernel
  have hindent : indentedCode[6]? = some 32 := by decide +kernel
  rw [hspans] at hkeeps
  have hfence : InFence [indentedFence] 6 :=
    ⟨indentedFence, List.mem_singleton_self _, by decide, by decide⟩
  refine (hkeeps.omitted 6 32 hindent fun piece hmem hcovers => ?_).2 hfence
  unfold ChunkPiece.Covers at hcovers
  simp only [List.mem_cons, List.not_mem_nil, or_false] at hmem
  rcases hmem with rfl | rfl
  · exact nomatch hcovers
  · exact nomatch hcovers

end OpenClaw
