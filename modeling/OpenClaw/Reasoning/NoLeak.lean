import OpenClaw.Reasoning.Hidden

/-!
# No hidden reasoning is shown

A tag counts when it does not begin in a code region of the whole text, and a hidden part can open
such a region. Where all tags count, exactly the visible parts are left.
-/

namespace OpenClaw

open List

/-- What is left is exactly the visible parts, in both modes. -/
def ShowsVisible (first : Str) (blocks : List ThinkingBlock) : Prop :=
  ∀ mode, stripReasoningTagsFromText (reasoningText first blocks) mode .none =
    visibleText first blocks

instance (first : Str) (blocks : List ThinkingBlock) : Decidable (ShowsVisible first blocks) :=
  decidable_of_iff
    ((stripReasoningTagsFromText (reasoningText first blocks) .strict .none =
        visibleText first blocks) ∧
      (stripReasoningTagsFromText (reasoningText first blocks) .preserve .none =
        visibleText first blocks))
    ⟨fun h mode => match mode with
      | .strict => h.1
      | .preserve => h.2,
    fun h => ⟨h .strict, h .preserve⟩⟩

/-- No tag of a block begins in a code region of the text. -/
def TagsOutsideCode (first : Str) (blocks : List ThinkingBlock) : Prop :=
  ∀ tag ∈ blockTags first.length blocks,
    isInsideCode tag.start (findCodeRegions (reasoningText first blocks)) = false

instance (first : Str) (blocks : List ThinkingBlock) : Decidable (TagsOutsideCode first blocks) :=
  inferInstanceAs (Decidable (∀ tag ∈ blockTags first.length blocks,
    isInsideCode tag.start (findCodeRegions (reasoningText first blocks)) = false))

/-! ## The scan over the tags -/

theorem sliceText_append (before part rest : Str) :
    sliceText (before ++ (part ++ rest)) before.length (before.length + part.length) = part := by
  unfold sliceText
  rw [← append_assoc, take_append_of_le_length (by rw [length_append]),
    ← length_append, take_length, drop_left]

section

variable {cleaned : Str} {codeRegions : List CodeRegion}

/-- An opening tag outside of thinking. -/
theorem thinkingStep_open {idx : ℕ} (hidx : isInsideCode idx codeRegions = false)
    (result : Str) (lastIndex : ℕ) :
    thinkingStep cleaned codeRegions ⟨result, lastIndex, 0, none⟩ ⟨idx, 7, false⟩ =
      ⟨result ++ sliceText cleaned lastIndex idx, idx + 7, 1, some (idx + 7)⟩ := by
  unfold thinkingStep
  dsimp only
  rw [hidx]
  rfl

/-- The closing tag of a block. -/
theorem thinkingStep_close {idx : ℕ} (hidx : isInsideCode idx codeRegions = false)
    (result : Str) (lastIndex content : ℕ) :
    thinkingStep cleaned codeRegions ⟨result, lastIndex, 1, some content⟩ ⟨idx, 8, true⟩ =
      ⟨result, idx + 8, 0, none⟩ := by
  unfold thinkingStep
  dsimp only
  rw [hidx]
  rfl

/-- After all tags the scan is out of thinking, and what it has and what follows are the visible
parts. -/
theorem foldl_blockTags (blocks : List ThinkingBlock) (before part result : Str)
    (hcleaned : cleaned = before ++ (part ++ blocks.flatMap ThinkingBlock.text))
    (htags : ∀ tag ∈ blockTags (before.length + part.length) blocks,
      isInsideCode tag.start codeRegions = false) :
    ∃ shown lastIndex,
      (blockTags (before.length + part.length) blocks).foldl (thinkingStep cleaned codeRegions)
        ⟨result, before.length, 0, none⟩ = ⟨shown, lastIndex, 0, none⟩ ∧
      shown ++ cleaned.drop lastIndex =
        result ++ (part ++ blocks.flatMap ThinkingBlock.visible) := by
  induction blocks generalizing before part result with
  | nil =>
    refine ⟨result, before.length, rfl, ?_⟩
    rw [hcleaned, drop_left]
    rfl
  | cons block blocks ih =>
    -- the text up to the end of the closing tag is behind the scan
    let behind := before ++ (part ++ ("<think>".toList ++ (block.hidden ++ "</think>".toList)))
    have hbehind : behind.length =
        before.length + part.length + 7 + block.hidden.length + 8 := by
      show (before ++ (part ++ ("<think>".toList ++ (block.hidden ++ "</think>".toList)))).length = _
      rw [length_append, length_append, length_append, length_append]
      show before.length + (part.length + (7 + (block.hidden.length + 8))) = _
      omega
    have hsplit : cleaned =
        behind ++ (block.visible ++ blocks.flatMap ThinkingBlock.text) := by
      show cleaned = before ++ (part ++ ("<think>".toList ++
        (block.hidden ++ "</think>".toList))) ++ _
      rw [hcleaned, flatMap_cons, block.text_append, append_assoc, append_assoc,
        append_assoc, append_assoc]
    have hnext : before.length + part.length + block.text.length =
        behind.length + block.visible.length := by
      rw [hbehind, block.text_length]
      omega
    have hopen := htags _ mem_cons_self
    have hclose := htags _ (mem_cons_of_mem _ mem_cons_self)
    have hrest : ∀ tag ∈ blockTags (behind.length + block.visible.length) blocks,
        isInsideCode tag.start codeRegions = false := by
      intro tag htag
      rw [← hnext] at htag
      exact htags tag (mem_cons_of_mem _ (mem_cons_of_mem _ htag))
    have hslice : sliceText cleaned before.length (before.length + part.length) = part := by
      rw [hcleaned]
      exact sliceText_append before part _
    obtain ⟨shown, lastIndex, hfold, hshown⟩ :=
      ih behind block.visible (result ++ part) hsplit hrest
    refine ⟨shown, lastIndex, ?_, ?_⟩
    · rw [blockTags, foldl_cons, foldl_cons, thinkingStep_open hopen,
        thinkingStep_close hclose, hslice, hnext, ← hbehind]
      exact hfold
    · rw [hshown, flatMap_cons, append_assoc]

end

/-! ## The result -/

theorem finishThinking_outside (mode : ReasoningTagMode) (cleaned shown : Str) (lastIndex : ℕ) :
    finishThinking mode .none cleaned ⟨shown, lastIndex, 0, none⟩ =
      shown ++ cleaned.drop lastIndex := rfl

/-- The hidden parts stay hidden, and the visible ones are kept, where every tag counts. -/
theorem showsVisible_of_tagsOutsideCode {first : Str} {blocks : List ThinkingBlock}
    (htext : IsReasoningText first blocks) (houtside : TagsOutsideCode first blocks) :
    ShowsVisible first blocks := by
  intro mode
  obtain ⟨shown, lastIndex, hfold, hshown⟩ :=
    @foldl_blockTags (reasoningText first blocks) (findCodeRegions (reasoningText first blocks))
      blocks [] first [] rfl (by rw [length_nil, Nat.zero_add]; exact houtside)
  have hscan : finishThinking mode .none (reasoningText first blocks)
      ((Scan.matchAll (tagRe thinkingNames) (reasoningText first blocks)).foldl
        (thinkingStep (reasoningText first blocks)
          (findCodeRegions (reasoningText first blocks))) .init) = visibleText first blocks := by
    rw [length_nil, Nat.zero_add] at hfold
    rw [matchAll_reasoningText htext]
    show finishThinking mode .none _ ((blockTags first.length blocks).foldl _ ⟨[], 0, 0, none⟩) = _
    rw [hfold, finishThinking_outside, hshown]
    rfl
  cases blocks with
  | nil =>
    -- without a block the text may be left alone
    have hall : reasoningText first [] = visibleText first [] := rfl
    unfold stripReasoningTagsFromText
    split
    · exact hall
    · split
      · exact hall
      · rw [removeFinalTags_reasoningText htext]
        exact hscan
  | cons block blocks =>
    have hne : reasoningText first (block :: blocks) ≠ [] := by
      intro hnil
      have hlength := congrArg List.length (append_eq_nil_iff.mp hnil).2
      rw [flatMap_cons, length_append, block.text_length, length_nil] at hlength
      omega
    unfold stripReasoningTagsFromText
    rw [if_neg hne, quickTagTest_reasoningText, if_neg (by decide),
      removeFinalTags_reasoningText htext]
    exact hscan

/-- Code spans that are closed in the part they are in. -/
theorem showsVisible_of_tagsOutsideCode_spans :
    ShowsVisible "Hi `x`. ".toList [⟨"a `b` c".toList, "So: ".toList⟩, ⟨"~~~".toList, "ok".toList⟩] :=
  showsVisible_of_tagsOutsideCode
    { first_tagFree := by decide +kernel
      hidden_tagFree := by decide +kernel
      visible_tagFree := by decide +kernel
      first_closed := by decide +kernel
      visible_closed := by decide +kernel }
    (by decide +kernel)

/-- A backtick in the hidden part and one in the visible part behind it make a span, and the closing
tag between them does not count: the hidden part is shown. -/
theorem exists_not_showsVisible :
    ∃ first blocks, IsReasoningText first blocks ∧ ¬ShowsVisible first blocks :=
  ⟨[], [⟨"`".toList, "a`b`".toList⟩],
    { first_tagFree := by decide +kernel
      hidden_tagFree := by decide +kernel
      visible_tagFree := by decide +kernel
      first_closed := by decide +kernel
      visible_closed := by decide +kernel },
    by decide +kernel⟩

end OpenClaw
