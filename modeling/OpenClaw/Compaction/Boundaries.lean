import OpenClaw.Compaction.TokenShare
import OpenClaw.Transcript.Paired

/-!
# Where a history is split

The chunks of `splitMessagesByTokenShare` are the history cut into non-empty pieces. It stays in
one piece only where it is one message or one tool exchange, provided that its calls are answered
in time.
-/

namespace OpenClaw

open List Option

variable {estimateTokens : Json → ℚ} {normalizedParts : ℕ} {targetTokens : ℚ}
  {done messages : List Json} {split split' : TokenShareSplit} {message : Json}

/-! ## Estimates -/

@[simp]
theorem estimateMessagesTokens_nil : estimateMessagesTokens estimateTokens [] = 0 := rfl

theorem foldl_add_eq (f : Json → ℚ) (messages : List Json) (sum : ℚ) :
    messages.foldl (fun sum msg => sum + f msg) sum =
      sum + messages.foldl (fun sum msg => sum + f msg) 0 := by
  induction messages generalizing sum with
  | nil => simp
  | cons msg messages ih =>
    rw [foldl_cons, foldl_cons, ih, ih (0 + f msg)]
    ring

theorem estimateMessagesTokens_append (messages messages' : List Json) :
    estimateMessagesTokens estimateTokens (messages ++ messages') =
      estimateMessagesTokens estimateTokens messages +
        estimateMessagesTokens estimateTokens messages' := by
  simp only [estimateMessagesTokens, stripToolResultDetails, stripRuntimeContextCustomMessages,
    filter_append, map_append, foldl_append]
  exact foldl_add_eq _ _ _

theorem foldl_estimateCompactionMessageTokens (messages : List Json) (sum : ℚ) :
    messages.foldl (fun sum msg => sum + estimateCompactionMessageTokens estimateTokens msg) sum =
      sum + estimateMessagesTokens estimateTokens messages := by
  induction messages generalizing sum with
  | nil => simp
  | cons msg messages ih =>
    rw [foldl_cons, ih, ← singleton_append, estimateMessagesTokens_append,
      estimateCompactionMessageTokens, add_assoc]

/-! ## The pieces -/

/-- The messages `done` cut into pieces. -/
structure Cuts (estimateTokens : Json → ℚ) (done : List Json) (split : TokenShareSplit) :
    Prop where
  flatten : split.chunks.flatten ++ split.current = done
  chunk : ∀ chunk ∈ split.chunks, chunk ≠ []
  current : done ≠ [] → split.current ≠ []
  tokens : split.currentTokens = estimateMessagesTokens estimateTokens split.current
  index : ∀ index, split.pendingChunkStartIndex = some index → index < split.current.length

theorem Cuts.current_eq (h : Cuts estimateTokens done split) (hchunks : split.chunks = []) :
    split.current = done := by
  have hflatten := h.flatten
  rw [hchunks] at hflatten
  exact hflatten

theorem cuts_init : Cuts estimateTokens [] .init where
  flatten := rfl
  chunk _ h := nomatch h
  current h := absurd rfl h
  tokens := rfl
  index _ h := nomatch h

theorem Cuts.splitAtBoundary (h : Cuts estimateTokens done split) :
    Cuts estimateTokens done (splitCurrentAtPendingBoundary estimateTokens normalizedParts split) := by
  unfold splitCurrentAtPendingBoundary
  split
  · exact h
  · rename_i index hindex
    have hlt := h.index index hindex
    split_ifs with hkeep
    · exact h
    · rw [not_or] at hkeep
      have hdrop : split.current.drop index ≠ [] := by
        intro hnil
        have hlength := congrArg List.length hnil
        rw [length_drop, length_nil] at hlength
        omega
      refine ⟨?_, ?_, fun _ => hdrop, ?_, ?_⟩
      · have hflatten := h.flatten
        rw [flatten_append, append_assoc]
        simp only [flatten_cons, flatten_nil, append_nil, take_append_drop]
        exact hflatten
      · intro chunk hchunk
        rcases mem_append.mp hchunk with hchunk | hchunk
        · exact h.chunk chunk hchunk
        · rw [mem_singleton.mp hchunk]
          intro hnil
          have hlength := congrArg List.length hnil
          rw [length_take, length_nil] at hlength
          omega
      · dsimp only
        rw [foldl_estimateCompactionMessageTokens, zero_add]
      · intro index' hindex'
        rw [← some.inj hindex']
        exact length_pos_iff.mpr hdrop

/-- At the boundary the history is cut in two, unless it is where the current chunk begins. -/
theorem splitAtBoundary_eq {index : ℕ} (hindex : split.pendingChunkStartIndex = some index)
    (hchunks : split.chunks = []) (hparts : 2 ≤ normalizedParts) :
    index = 0 ∨ (splitCurrentAtPendingBoundary estimateTokens normalizedParts split).chunks ≠ [] := by
  unfold splitCurrentAtPendingBoundary
  rw [hindex, hchunks]
  by_cases hzero : index = 0
  · exact .inl hzero
  · right
    have hnot : ¬(index = 0 ∨ normalizedParts - 1 ≤ ([] : List (List Json)).length) := by
      rw [length_nil]
      omega
    dsimp only
    rw [if_neg hnot]
    exact cons_ne_nil _ _

theorem chunks_splitAtBoundary
    (h : (splitCurrentAtPendingBoundary estimateTokens normalizedParts split).chunks = []) :
    splitCurrentAtPendingBoundary estimateTokens normalizedParts split = split := by
  unfold splitCurrentAtPendingBoundary at h ⊢
  split at h
  · rfl
  · split_ifs at h ⊢
    · rfl
    · simp at h

section

variable (h : Cuts estimateTokens done split)
include h

theorem Cuts.push (message : Json) : Cuts estimateTokens (done ++ [message])
      (pushMessage (estimateCompactionMessageTokens estimateTokens message)
        (beginChunk normalizedParts targetTokens
          (estimateCompactionMessageTokens estimateTokens message) split) message) := by
  unfold beginChunk
  split_ifs with hbegin
  · refine ⟨?_, ?_, fun _ => ?_, ?_, fun _ hindex => nomatch hindex⟩
    · rw [← h.flatten]
      simp [pushMessage]
    · intro chunk hchunk
      rcases mem_append.mp hchunk with hchunk | hchunk
      · exact h.chunk chunk hchunk
      · rw [mem_singleton.mp hchunk]
        exact hbegin.2.2.1
    · exact cons_ne_nil _ _
    · exact zero_add _
  · refine ⟨?_, h.chunk, fun _ => ?_, ?_, fun index hindex => ?_⟩
    · rw [← h.flatten]
      exact (append_assoc _ _ _).symm
    · exact append_ne_nil_of_right_ne_nil _ (cons_ne_nil _ _)
    · show split.currentTokens + _ = estimateMessagesTokens estimateTokens (split.current ++ [message])
      rw [estimateMessagesTokens_append, h.tokens, estimateCompactionMessageTokens]
    · have hlt := h.index index hindex
      show index < (split.current ++ [message]).length
      rw [length_append, length_singleton]
      omega

/-- Other pending calls, and at most the boundary forgotten. -/
theorem Cuts.congr (hchunks : split'.chunks = split.chunks)
    (hcurrent : split'.current = split.current) (htokens : split'.currentTokens = split.currentTokens)
    (hindex : split'.pendingChunkStartIndex = none ∨
      split'.pendingChunkStartIndex = split.pendingChunkStartIndex) :
    Cuts estimateTokens done split' := by
  refine ⟨?_, ?_, ?_, ?_, fun index hsome => ?_⟩
  · rw [hchunks, hcurrent]
    exact h.flatten
  · rw [hchunks]
    exact h.chunk
  · rw [hcurrent]
    exact h.current
  · rw [htokens, hcurrent]
    exact h.tokens
  · rw [hcurrent]
    rcases hindex with hnone | heq
    · rw [hnone] at hsome
      cases hsome
    · exact h.index index (heq ▸ hsome)

theorem Cuts.answerPending (toolResult : Json) :
    Cuts estimateTokens done (answerPending split toolResult) := by
  unfold OpenClaw.answerPending
  split
  · exact h.congr rfl rfl rfl (.inl rfl)
  · exact h.congr rfl rfl rfl (.inr rfl)

theorem Cuts.trackPending (hdone : done ≠ []) (message : Json) : Cuts estimateTokens done
      (trackPending estimateTokens normalizedParts targetTokens split message) := by
  have hpos := length_pos_iff.mpr (h.current hdone)
  unfold OpenClaw.trackPending
  split_ifs with hassistant hresult
  · refine ⟨h.flatten, h.chunk, h.current, h.tokens, fun index hindex => ?_⟩
    dsimp only at hindex ⊢
    split_ifs at hindex
    rw [← some.inj hindex]
    omega
  · have hanswer := h.answerPending message
    dsimp only
    split_ifs
    · exact (@Cuts.splitAtBoundary _ normalizedParts _ _ hanswer).congr rfl rfl rfl (.inl rfl)
    · exact hanswer
  · exact h

theorem Cuts.splitStep (message : Json) : Cuts estimateTokens (done ++ [message])
      (splitStep estimateTokens normalizedParts targetTokens split message) := by
  have hne : done ++ [message] ≠ [] := append_ne_nil_of_right_ne_nil _ (cons_ne_nil _ _)
  exact (h.push message).trackPending hne message

end

/-! ## Pending calls -/

/-- A turn in one piece with all that came before: its pending calls are unanswered. -/
structure PendingTurn (done : List Json) (split : TokenShareSplit) (before : List Json)
    (turn : Json) (after : List Json) : Prop where
  done_eq : done = before ++ turn :: after
  index : split.pendingChunkStartIndex = some before.length
  calls : assistantHasToolCalls turn = true
  succeeded : stoppedWithError turn = false
  assistants : ∀ msg ∈ after, isAssistant msg = false
  pending : ∀ id ∈ split.pendingToolCallIds,
    id ∈ (extractToolCallsFromAssistant turn).map (·.id) ∧
      ∀ msg ∈ after, isToolResult msg = true → extractToolResultId msg ≠ some id

/-- Where nothing has been cut off, the pending calls are those of one turn. -/
def TracksPending (done : List Json) (split : TokenShareSplit) : Prop :=
  split.chunks = [] → split.pendingToolCallIds ≠ [] →
    ∃ before turn after, PendingTurn done split before turn after

theorem PendingTurn.snoc {before after : List Json} {turn : Json}
    (h : PendingTurn done split before turn after) (hassistant : isAssistant message = false)
    (hindex : split'.pendingChunkStartIndex = split.pendingChunkStartIndex)
    (hpending : ∀ id ∈ split'.pendingToolCallIds, id ∈ split.pendingToolCallIds ∧
      (isToolResult message = true → extractToolResultId message ≠ some id)) :
    PendingTurn (done ++ [message]) split' before turn (after ++ [message]) where
  done_eq := by rw [h.done_eq, append_assoc, cons_append]
  index := hindex.trans h.index
  calls := h.calls
  succeeded := h.succeeded
  assistants msg hmsg := by
    rcases mem_append.mp hmsg with hmsg | hmsg
    · exact h.assistants msg hmsg
    · rw [mem_singleton.mp hmsg]
      exact hassistant
  pending id hid := by
    obtain ⟨hold, hmessage⟩ := hpending id hid
    refine ⟨(h.pending id hold).1, fun msg hmsg => ?_⟩
    rcases mem_append.mp hmsg with hmsg | hmsg
    · exact (h.pending id hold).2 msg hmsg
    · rw [mem_singleton.mp hmsg]
      exact hmessage

theorem chunks_beginChunk (messageTokens : ℚ)
    (h : (beginChunk normalizedParts targetTokens messageTokens split).chunks = []) :
    beginChunk normalizedParts targetTokens messageTokens split = split := by
  unfold beginChunk at h ⊢
  split_ifs at h ⊢
  · simp at h
  · rfl

theorem pendingToolCallIds_answerPending {id : Str} {toolResult : Json}
    (h : id ∈ (answerPending split toolResult).pendingToolCallIds) :
    id ∈ split.pendingToolCallIds ∧ extractToolResultId toolResult ≠ some id ∧
      (answerPending split toolResult).pendingChunkStartIndex = split.pendingChunkStartIndex := by
  unfold answerPending at h ⊢
  cases hid : extractToolResultId toolResult with
  | none =>
    rw [hid] at h
    cases h
  | some resultId =>
    rw [hid] at h
    obtain ⟨hmem, hne⟩ := mem_filter.mp h
    refine ⟨hmem, fun heq => ?_, rfl⟩
    exact of_decide_eq_true hne (some.inj heq).symm

theorem chunks_answerPending (split : TokenShareSplit) (toolResult : Json) :
    (answerPending split toolResult).chunks = split.chunks := by
  unfold answerPending
  split <;> rfl

theorem not_stoppedWithError_of_keeps {turn : Json} (hassistant : isAssistant turn = true)
    (h : (!stoppedWithError turn && !(extractToolCallsFromAssistant turn).isEmpty) = true) :
    assistantHasToolCalls turn = true ∧ stoppedWithError turn = false := by
  rw [Bool.and_eq_true, Bool.not_eq_true'] at h
  exact ⟨by rw [assistantHasToolCalls, hassistant, h.2]; rfl, h.1⟩

theorem chunks_trackPending
    (h : (trackPending estimateTokens normalizedParts targetTokens split message).chunks = []) :
    split.chunks = [] := by
  unfold trackPending at h
  split_ifs at h
  · exact h
  · dsimp only at h
    split_ifs at h
    · rw [chunks_splitAtBoundary h, chunks_answerPending] at h
      exact h
    · rw [chunks_answerPending] at h
      exact h
  · exact h

/-- A step that cuts nothing off only appends the message. -/
theorem splitStep_of_chunks
    (h : (splitStep estimateTokens normalizedParts targetTokens split message).chunks = []) :
    split.chunks = [] ∧ beginChunk normalizedParts targetTokens
        (estimateCompactionMessageTokens estimateTokens message) split = split := by
  have hpushed := chunks_trackPending h
  have heq := chunks_beginChunk _ hpushed
  rw [heq] at hpushed
  exact ⟨hpushed, heq⟩

theorem TracksPending.splitStep (h : TracksPending done split)
    (hcuts : Cuts estimateTokens done split) (message : Json) : TracksPending (done ++ [message])
      (splitStep estimateTokens normalizedParts targetTokens split message) := by
  intro hchunks hpending
  obtain ⟨hnil, heq⟩ := splitStep_of_chunks hchunks
  rw [OpenClaw.splitStep, heq] at hchunks hpending ⊢
  set pushed := pushMessage (estimateCompactionMessageTokens estimateTokens message) split message
    with hpushed
  unfold trackPending at hchunks hpending ⊢
  split_ifs at hchunks hpending ⊢ with hassistant hresult
  · dsimp only at hpending ⊢
    split_ifs at hpending with hkeeps
    · obtain ⟨hcalls, hsucceeded⟩ := not_stoppedWithError_of_keeps hassistant hkeeps
      refine ⟨done, message, [], rfl, ?_, hcalls, hsucceeded, (fun _ hmsg => nomatch hmsg), ?_⟩
      · dsimp only
        rw [if_pos hkeeps, hpushed, pushMessage, hcuts.current_eq hnil]
        simp
      · intro id hid
        dsimp only at hid
        rw [if_pos hkeeps] at hid
        exact ⟨hid, fun _ hmsg => nomatch hmsg⟩
    · exact absurd rfl hpending
  · dsimp only at hchunks hpending ⊢
    split_ifs at hchunks hpending ⊢ with hcut
    · rw [chunks_splitAtBoundary hchunks] at hpending
      exact absurd hcut.1 hpending
    · obtain ⟨before, turn, after, hturn⟩ := h hnil hresult.2
      refine ⟨before, turn, after ++ [message], hturn.snoc (Bool.not_eq_true _ ▸ hassistant) ?_ ?_⟩
      · obtain ⟨id, hid⟩ := exists_mem_of_ne_nil _ hpending
        exact (pendingToolCallIds_answerPending hid).2.2
      · intro id hid
        obtain ⟨hold, hne, -⟩ := pendingToolCallIds_answerPending hid
        exact ⟨hold, fun _ => hne⟩
  · obtain ⟨before, turn, after, hturn⟩ := h hnil hpending
    refine ⟨before, turn, after ++ [message], hturn.snoc (Bool.not_eq_true _ ▸ hassistant) rfl ?_⟩
    intro id hid
    exact ⟨hid, fun htool => absurd ⟨htool, hpending⟩ hresult⟩

theorem cuts_foldl (hcuts : Cuts estimateTokens done split) (htracks : TracksPending done split)
    (messages : List Json) : Cuts estimateTokens (done ++ messages)
      (messages.foldl (splitStep estimateTokens normalizedParts targetTokens) split) ∧
    TracksPending (done ++ messages)
      (messages.foldl (splitStep estimateTokens normalizedParts targetTokens) split) := by
  induction messages generalizing done split with
  | nil =>
    rw [append_nil]
    exact ⟨hcuts, htracks⟩
  | cons message messages ih =>
    have hcuts' := @Cuts.splitStep _ normalizedParts targetTokens _ _ hcuts message
    have hrest := ih hcuts' (htracks.splitStep hcuts message)
    rw [append_assoc, singleton_append] at hrest
    exact hrest

theorem splitOf_messages (estimateTokens : Json → ℚ) (normalizedParts : ℕ) (targetTokens : ℚ)
    (messages : List Json) : Cuts estimateTokens messages
      (messages.foldl (splitStep estimateTokens normalizedParts targetTokens) .init) ∧
    TracksPending messages
      (messages.foldl (splitStep estimateTokens normalizedParts targetTokens) .init) := by
  have htracks : TracksPending [] TokenShareSplit.init := fun _ hpending => absurd rfl hpending
  exact cuts_foldl cuts_init htracks messages

/-! ## The chunks -/

/-- The state of which `finishSplit` makes the chunks. -/
theorem finishSplit_cases (hcuts : Cuts estimateTokens messages split) (hne : messages ≠ []) :
    ∃ last, Cuts estimateTokens messages last ∧
      finishSplit estimateTokens normalizedParts targetTokens split = last.chunks ++ [last.current] ∧
      (last.chunks = [] → split.chunks = []) ∧
      (last = split ∨ last = splitCurrentAtPendingBoundary estimateTokens normalizedParts split) := by
  unfold finishSplit
  dsimp only
  split_ifs with hcut hcurrent hcurrent
  · refine ⟨_, hcuts.splitAtBoundary, rfl, fun hnil => ?_, .inr rfl⟩
    rw [chunks_splitAtBoundary hnil] at hnil
    exact hnil
  · exact absurd (hcuts.splitAtBoundary.current hne) hcurrent
  · exact ⟨split, hcuts, rfl, id, .inl rfl⟩
  · exact absurd (hcuts.current hne) hcurrent

/-- The chunks are the history in non-empty pieces. -/
structure Pieces (messages : List Json) (chunks : List (List Json)) : Prop where
  flatten : chunks.flatten = messages
  chunk : ∀ chunk ∈ chunks, chunk ≠ []

theorem pieces_splitMessagesByTokenShare (estimateTokens : Json → ℚ) (messages : List Json)
    (parts : ℚ) : Pieces messages (splitMessagesByTokenShare estimateTokens messages parts) := by
  unfold splitMessagesByTokenShare
  split_ifs with hnil
  · exact ⟨hnil.symm, fun _ hchunk => nomatch hchunk⟩
  · dsimp only
    split_ifs
    · refine ⟨append_nil _, fun chunk hchunk => ?_⟩
      rw [mem_singleton.mp hchunk]
      exact hnil
    · set normalizedParts := normalizeParts parts messages.length
      set targetTokens := estimateMessagesTokens estimateTokens messages / (normalizedParts : ℚ)
      have hcuts := (splitOf_messages estimateTokens normalizedParts targetTokens messages).1
      obtain ⟨last, hlast, heq, -⟩ :=
        @finishSplit_cases _ normalizedParts targetTokens _ _ hcuts hnil
      rw [heq]
      refine ⟨?_, fun chunk hchunk => ?_⟩
      · rw [← hlast.flatten]
        simp
      · rcases mem_append.mp hchunk with hchunk | hchunk
        · exact hlast.chunk chunk hchunk
        · rw [mem_singleton.mp hchunk]
          exact hlast.current hnil

/-! ## A history in one piece -/

/-- A turn that did not fail with what follows it up to the last result it waits for. -/
def IsExchange (messages : List Json) : Prop :=
  ∃ turn after last, messages = turn :: (after ++ [last]) ∧ assistantHasToolCalls turn = true ∧
    stoppedWithError turn = false ∧ (∀ msg ∈ after, isAssistant msg = false) ∧
    isToolResult last = true ∧ ∃ call ∈ extractToolCallsFromAssistant turn,
      extractToolResultId last = some call.id ∧ ∀ msg ∈ after, isToolResult msg = true →
        extractToolResultId msg ≠ some call.id

theorem mem_splitTurns_append (before : List Json) {turn : Json}
    (hcalls : assistantHasToolCalls turn = true) (rest : List Json) :
    (⟨turn, (splitTurns rest).1⟩ : ToolTurn) ∈ (splitTurns (before ++ turn :: rest)).2 := by
  induction before with
  | nil =>
    rw [nil_append, splitTurns, if_pos hcalls]
    exact mem_cons_self
  | cons msg before ih =>
    rw [cons_append, splitTurns]
    split_ifs
    · exact mem_cons_of_mem _ ih
    · exact ih

/-- The calls that are pending in front of the last message are answered by it. -/
theorem PendingTurn.last_answers {before after : List Json} {turn last : Json}
    (h : PendingTurn done split before turn after)
    (hanswered : AnsweredBeforeNextAssistant (done ++ [last])) :
    ∀ id ∈ split.pendingToolCallIds, isToolResult last = true ∧
      extractToolResultId last = some id := by
  intro id hid
  obtain ⟨hcall, hopen⟩ := h.pending id hid
  obtain ⟨call, hmemCalls, rfl⟩ := mem_map.mp hcall
  have hturn := mem_splitTurns_append before h.calls (after ++ [last])
  have hdone : done ++ [last] = before ++ turn :: (after ++ [last]) := by
    rw [h.done_eq, append_assoc, cons_append]
  rw [← hdone] at hturn
  have hfailed : ¬(⟨turn, (splitTurns (after ++ [last])).1⟩ : ToolTurn).Failed := by
    rw [ToolTurn.Failed, h.succeeded]
    exact Bool.false_ne_true
  obtain ⟨msg, hmsg, hresult, hanswer⟩ := hanswered _ hturn hfailed call hmemCalls
  have hmem : msg ∈ after ++ [last] := by
    have hspan := (takeWhile_sublist _).subset hmsg
    rw [splitTurns_fst] at hspan
    exact (takeWhile_sublist _).subset hspan
  rcases mem_append.mp hmem with hmem | hmem
  · exact absurd hanswer (hopen msg hmem hresult)
  · rw [← mem_singleton.mp hmem]
    exact ⟨hresult, hanswer⟩

theorem isExchange_of_onePiece (hparts : 2 ≤ normalizedParts) (hlength : 2 ≤ messages.length)
    (htarget : targetTokens < estimateMessagesTokens estimateTokens messages)
    (hanswered : AnsweredBeforeNextAssistant messages)
    (hone : (finishSplit estimateTokens normalizedParts targetTokens
      (messages.foldl (splitStep estimateTokens normalizedParts targetTokens) .init)).length ≤ 1) :
    IsExchange messages := by
  have hne : messages ≠ [] := by
    intro hnil
    rw [hnil] at hlength
    exact nomatch hlength
  -- nothing has been cut off behind the last message
  have hcuts := (splitOf_messages estimateTokens normalizedParts targetTokens messages).1
  obtain ⟨final, -, heq, hfinal, -⟩ := @finishSplit_cases _ normalizedParts targetTokens _ _ hcuts hne
  rw [heq, length_append, length_singleton] at hone
  have hchunks := hfinal (length_eq_zero_iff.mp (by omega))
  obtain ⟨done, last, rfl⟩ := (eq_nil_or_concat' messages).resolve_left hne
  have hdone : done ≠ [] := by
    intro hnil
    rw [hnil, nil_append, length_singleton] at hlength
    omega
  obtain ⟨hcuts₀, htracks₀⟩ := splitOf_messages estimateTokens normalizedParts targetTokens done
  rw [foldl_append, foldl_cons, foldl_nil] at hchunks
  set split₀ := done.foldl (splitStep estimateTokens normalizedParts targetTokens) .init
  obtain ⟨hnil, heq⟩ := splitStep_of_chunks hchunks
  have htokens : split₀.currentTokens + estimateCompactionMessageTokens estimateTokens last =
      estimateMessagesTokens estimateTokens (done ++ [last]) := by
    rw [hcuts₀.tokens, hcuts₀.current_eq hnil, estimateMessagesTokens_append,
      estimateCompactionMessageTokens]
  -- the last message would have begun a chunk, had no call been pending
  have hpending : split₀.pendingToolCallIds ≠ [] := by
    intro hnone
    have hbegin : split₀.pendingToolCallIds = [] ∧ split₀.chunks.length < normalizedParts - 1 ∧
        split₀.current ≠ [] ∧ targetTokens <
          split₀.currentTokens + estimateCompactionMessageTokens estimateTokens last := by
      refine ⟨hnone, ?_, hcuts₀.current hdone, htokens ▸ htarget⟩
      rw [hnil, length_nil]
      omega
    have hchunks₁ := congrArg TokenShareSplit.chunks heq
    rw [beginChunk, if_pos hbegin] at hchunks₁
    have hlast := congrArg List.length hchunks₁
    simp at hlast
  obtain ⟨before, turn, after, hturn⟩ := htracks₀ hnil hpending
  have hlast := hturn.last_answers hanswered
  obtain ⟨id, hid⟩ := exists_mem_of_ne_nil _ hpending
  obtain ⟨hresult, hlastId⟩ := hlast id hid
  -- so it is the result that all pending calls wait for, and the boundary is behind it
  have hbefore : before.length = 0 := by
    have hassistant : ¬isAssistant last = true := by
      intro hassistant
      rw [not_isToolResult_of_isAssistant hassistant] at hresult
      cases hresult
    rw [splitStep, heq] at hchunks
    set pushed := pushMessage (estimateCompactionMessageTokens estimateTokens last) split₀ last
    rw [trackPending, if_neg hassistant, if_pos ⟨hresult, hpending⟩] at hchunks
    dsimp only at hchunks
    have hnone : (answerPending pushed last).pendingToolCallIds = [] := by
      rw [answerPending, hlastId, filter_eq_nil_iff]
      intro id' hid' hne
      have hsame := (hlast id' hid').2
      rw [hlastId] at hsame
      exact of_decide_eq_true hne (some.inj hsame).symm
    have hanswerEq : (answerPending pushed last).chunks = [] ∧
        (answerPending pushed last).pendingChunkStartIndex = some before.length ∧
        (answerPending pushed last).currentTokens =
          estimateMessagesTokens estimateTokens (done ++ [last]) := by
      rw [answerPending, hlastId]
      exact ⟨hnil, hturn.index, htokens⟩
    have hcut : (answerPending pushed last).pendingToolCallIds = [] ∧
        (answerPending pushed last).chunks.length < normalizedParts - 1 ∧
        targetTokens < (answerPending pushed last).currentTokens := by
      refine ⟨hnone, ?_, ?_⟩
      · rw [hanswerEq.1, length_nil]
        omega
      · rw [hanswerEq.2.2]
        exact htarget
    rw [if_pos hcut] at hchunks
    have hboundary := @splitAtBoundary_eq estimateTokens _ _ _ hanswerEq.2.1 hanswerEq.1 hparts
    exact hboundary.resolve_right (fun hsome => hsome hchunks)
  obtain ⟨hcall, hopen⟩ := hturn.pending id hid
  obtain ⟨call, hmemCalls, rfl⟩ := mem_map.mp hcall
  refine ⟨turn, after, last, ?_, hturn.calls, hturn.succeeded, hturn.assistants, hresult, call,
    hmemCalls, hlastId, hopen⟩
  rw [hturn.done_eq, length_eq_zero_iff.mp hbefore]
  rfl

end OpenClaw
