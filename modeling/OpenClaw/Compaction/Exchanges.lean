import OpenClaw.Compaction.Pruned

/-!
# Exchanges and chunk boundaries

No boundary of `splitMessagesByTokenShare` lies between a call and its result, unless the turn of
the call failed: the code waits for the results of the other turns only.
-/

namespace OpenClaw

open List Option Bool

variable {estimateTokens : Json → ℚ} {normalizedParts : ℕ} {targetTokens : ℚ}
  {done messages : List Json} {split split' : TokenShareSplit} {message : Json}

/-! ## Calls and results -/

/-- A result at the end of `mid`, of a call in the turn in front of it. -/
structure Answers (turn : Json) (mid : List Json) (result : Json) (id : Str) : Prop where
  assistant : isAssistant turn = true
  between : ∀ msg ∈ mid, isAssistant msg = false
  call : id ∈ (extractToolCallsFromAssistant turn).map (·.id)
  toolResult : isToolResult result = true
  answer : extractToolResultId result = some id

/-- Every tool result comes after its call and before the next assistant message, and no other
one answers the same call before it. -/
def ResultsFollowCalls (messages : List Json) : Prop :=
  ∀ before result after, messages = before ++ result :: after → isToolResult result = true →
    ∃ pre turn mid id, before = pre ++ turn :: mid ∧ Answers turn mid result id ∧
      ∀ msg ∈ mid, isToolResult msg = true → extractToolResultId msg ≠ some id

/-- No call of a turn that did not fail stands in front of the position with a result behind. -/
def KeepsExchanges (messages : List Json) (position : ℕ) : Prop :=
  ∀ pre turn mid result post id, messages = pre ++ turn :: mid ++ result :: post →
    Answers turn mid result id → stoppedWithError turn = false →
      position ≤ pre.length ∨ pre.length + 1 + mid.length < position

/-- In front of an assistant message no exchange is cut. -/
theorem keepsExchanges_of_assistant {position : ℕ} (h : messages[position]? = some message)
    (hassistant : isAssistant message = true) : KeepsExchanges messages position := by
  intro pre turn mid result post id heq hanswers _
  by_contra hcut
  have hlt : pre.length < position := by omega
  obtain ⟨k, rfl⟩ := Nat.exists_eq_add_of_lt hlt
  have hmem : message ∈ mid ++ [result] := by
    have hget : (mid ++ [result] ++ post)[k]? = some message := by
      rw [heq, append_assoc, getElem?_append_right (by omega)] at h
      have hsub : pre.length + k + 1 - pre.length = k + 1 := by omega
      rw [hsub] at h
      simpa using h
    rw [getElem?_append_left (by simp; omega)] at hget
    exact mem_of_getElem? hget
  rcases mem_append.mp hmem with hmid | hlast
  · rw [hanswers.between message hmid] at hassistant
    exact nomatch hassistant
  · rw [mem_singleton.mp hlast] at hassistant
    have hnot := not_isToolResult_of_isAssistant hassistant
    rw [hanswers.toolResult] at hnot
    exact nomatch hnot

/-- The last assistant message of a list is one place in it. -/
theorem lastTurn_unique {pre pre' mid mid' : List Json} {turn turn' : Json}
    (h : pre ++ turn :: mid = pre' ++ turn' :: mid') (hturn : isAssistant turn = true)
    (hturn' : isAssistant turn' = true) (hmid : ∀ msg ∈ mid, isAssistant msg = false)
    (hmid' : ∀ msg ∈ mid', isAssistant msg = false) : pre = pre' ∧ turn = turn' ∧ mid = mid' := by
  rcases append_eq_append_iff.mp h with ⟨between, hpre, hrest⟩ | ⟨between, hpre, hrest⟩
  · cases between with
    | nil =>
      rw [nil_append, List.cons.injEq] at hrest
      exact ⟨by rw [hpre, append_nil], hrest⟩
    | cons msg between =>
      rw [cons_append, List.cons.injEq] at hrest
      have hnot := hmid turn' (hrest.2 ▸ mem_append_right _ mem_cons_self)
      rw [hturn'] at hnot
      exact nomatch hnot
  · cases between with
    | nil =>
      rw [nil_append, List.cons.injEq] at hrest
      exact ⟨by rw [hpre, append_nil], hrest.1.symm, hrest.2.symm⟩
    | cons msg between =>
      rw [cons_append, List.cons.injEq] at hrest
      have hnot := hmid' turn (hrest.2 ▸ mem_append_right _ mem_cons_self)
      rw [hturn] at hnot
      exact nomatch hnot

/-- Calls of the last turn that did not fail are pending until they are answered. -/
def PendingComplete (done : List Json) (split : TokenShareSplit) : Prop :=
  ∀ pre turn mid id, done = pre ++ turn :: mid → isAssistant turn = true →
    (∀ msg ∈ mid, isAssistant msg = false) → stoppedWithError turn = false →
    id ∈ (extractToolCallsFromAssistant turn).map (·.id) →
    (∀ msg ∈ mid, isToolResult msg = true → extractToolResultId msg ≠ some id) →
      id ∈ split.pendingToolCallIds

/-- Where nothing is pending, no exchange is cut. -/
theorem PendingComplete.keepsExchanges {rest : List Json} (h : PendingComplete done split)
    (hfollow : ResultsFollowCalls (done ++ rest)) (hnone : split.pendingToolCallIds = []) :
    KeepsExchanges (done ++ rest) done.length := by
  intro pre turn mid result post id heq hanswers hsucceeded
  by_contra hcut
  obtain ⟨pre', turn', mid', id', hbefore, hanswers', hopen⟩ :=
    hfollow _ result post heq hanswers.toolResult
  obtain ⟨rfl, rfl, rfl⟩ := lastTurn_unique hbefore hanswers.assistant hanswers'.assistant
    hanswers.between hanswers'.between
  obtain rfl : id = id' := some.inj (hanswers.answer.symm.trans hanswers'.answer)
  -- the turn is done, and only a part of what follows it
  have hdone : done = (pre ++ turn :: mid).take done.length := by
    have htake := congrArg (List.take done.length) heq
    rw [take_left, take_append_of_le_length (by simp; omega)] at htake
    exact htake
  rw [List.take_append, take_of_length_le (by omega)] at hdone
  obtain ⟨k, hk⟩ : ∃ k, done.length - pre.length = k + 1 := ⟨done.length - pre.length - 1, by omega⟩
  rw [hk, take_succ_cons] at hdone
  have hpending := h pre turn _ id hdone hanswers.assistant
    (fun msg hmsg => hanswers.between msg (List.take_subset _ _ hmsg)) hsucceeded hanswers.call
    fun msg hmsg => hopen msg (List.take_subset _ _ hmsg)
  rw [hnone] at hpending
  exact nomatch hpending

/-- A message that is no assistant's leaves the calls pending that it does not answer. -/
theorem PendingComplete.snoc (h : PendingComplete done split) (hassistant : isAssistant message = false)
    (hpending : ∀ id ∈ split.pendingToolCallIds, id ∈ split'.pendingToolCallIds ∨
      isToolResult message = true ∧ extractToolResultId message = some id) :
    PendingComplete (done ++ [message]) split' := by
  intro pre turn mid id heq hturn hmid hsucceeded hcall hopen
  rcases eq_nil_or_concat' mid with rfl | ⟨mid', last, rfl⟩
  · rw [List.append_inj_right' heq rfl |> singleton_inj.mp] at hassistant
    rw [hturn] at hassistant
    exact nomatch hassistant
  · rw [← cons_append, ← append_assoc] at heq
    obtain ⟨hdone, hlast⟩ := append_inj' heq rfl
    obtain rfl : message = last := singleton_inj.mp hlast
    have hold := h pre turn mid' id hdone hturn (fun msg hmsg => hmid msg (mem_append_left _ hmsg))
      hsucceeded hcall fun msg hmsg => hopen msg (mem_append_left _ hmsg)
    refine (hpending id hold).resolve_right fun hanswered => ?_
    exact hopen message (mem_append_right _ (mem_singleton_self _)) hanswered.1 hanswered.2

/-! ## The split -/

/-- What the split keeps while it goes through `messages`. -/
structure KeepsTogether (messages : List Json) (normalizedParts : ℕ) (done : List Json)
    (split : TokenShareSplit) : Prop where
  complete : PendingComplete done split
  boundary : ∀ index, split.pendingChunkStartIndex = some index →
    ∃ turn, split.current[index]? = some turn ∧ isAssistant turn = true
  chunks : ∀ left, left <+: split.chunks → KeepsExchanges messages left.flatten.length
  count : split.chunks.length ≤ normalizedParts - 1

theorem keepsTogether_init : KeepsTogether messages normalizedParts [] .init where
  complete pre turn mid _ heq := absurd heq.symm (append_ne_nil_of_right_ne_nil _ (cons_ne_nil _ _))
  boundary _ h := nomatch h
  chunks left hleft := by
    rw [prefix_nil.mp hleft]
    exact fun _ _ _ _ _ _ _ _ _ => .inl (Nat.zero_le _)
  count := Nat.zero_le _

theorem KeepsTogether.addChunk {chunk : List Json}
    (h : KeepsTogether messages normalizedParts done split)
    (hposition : KeepsExchanges messages (split.chunks ++ [chunk]).flatten.length) :
    ∀ left, left <+: split.chunks ++ [chunk] → KeepsExchanges messages left.flatten.length := by
  intro left hleft
  rcases prefix_concat_iff.mp hleft with rfl | hold
  · exact hposition
  · exact h.chunks left hold

theorem KeepsTogether.splitAtBoundary {rest : List Json}
    (h : KeepsTogether (done ++ rest) normalizedParts done split)
    (hcuts : Cuts estimateTokens done split) : KeepsTogether (done ++ rest) normalizedParts done
      (splitCurrentAtPendingBoundary estimateTokens normalizedParts split) := by
  unfold splitCurrentAtPendingBoundary
  split
  · exact h
  · rename_i index hindex
    split_ifs with hkeep
    · exact h
    · obtain ⟨turn, hturn, hassistant⟩ := h.boundary index hindex
      have hlt := hcuts.index index hindex
      have hlength : (split.chunks ++ [split.current.take index]).flatten.length =
          split.chunks.flatten.length + index := by
        simp
        omega
      refine ⟨h.complete, fun index' hindex' => ?_, h.addChunk ?_, ?_⟩
      · refine ⟨turn, ?_, hassistant⟩
        rw [← some.inj hindex', getElem?_drop]
        exact hturn
      · rw [hlength]
        refine keepsExchanges_of_assistant ?_ hassistant
        rw [← hcuts.flatten, append_assoc, getElem?_append_right (by omega),
          Nat.add_sub_cancel_left, getElem?_append_left hlt]
        exact hturn
      · rw [length_append, length_singleton]
        omega

theorem KeepsTogether.beginChunk {rest : List Json} (messageTokens : ℚ)
    (h : KeepsTogether (done ++ rest) normalizedParts done split)
    (hcuts : Cuts estimateTokens done split) (hfollow : ResultsFollowCalls (done ++ rest)) :
    KeepsTogether (done ++ rest) normalizedParts done
      (beginChunk normalizedParts targetTokens messageTokens split) := by
  unfold OpenClaw.beginChunk
  split_ifs with hbegin
  · refine ⟨h.complete, (fun _ hindex => nomatch hindex), h.addChunk ?_, ?_⟩
    · have hflatten : (split.chunks ++ [split.current]).flatten = done := by
        rw [← hcuts.flatten]
        simp
      rw [hflatten]
      exact h.complete.keepsExchanges hfollow hbegin.1
    · rw [length_append, length_singleton]
      omega
  · exact h

theorem KeepsTogether.splitStep {rest : List Json}
    (h : KeepsTogether (done ++ message :: rest) normalizedParts done split)
    (hcuts : Cuts estimateTokens done split) (hfollow : ResultsFollowCalls (done ++ message :: rest)) :
    KeepsTogether (done ++ message :: rest) normalizedParts (done ++ [message])
      (splitStep estimateTokens normalizedParts targetTokens split message) := by
  have hbegun := @KeepsTogether.beginChunk _ _ targetTokens _ _ _
    (estimateCompactionMessageTokens estimateTokens message) h hcuts hfollow
  have hpushed := @Cuts.push _ normalizedParts targetTokens _ _ hcuts message
  have happend : done ++ message :: rest = (done ++ [message]) ++ rest := by simp
  unfold OpenClaw.splitStep
  dsimp only
  set begun := OpenClaw.beginChunk normalizedParts targetTokens
    (estimateCompactionMessageTokens estimateTokens message) split
  set pushed := pushMessage (estimateCompactionMessageTokens estimateTokens message) begun message
    with hpush
  have hboundary : ∀ index, pushed.pendingChunkStartIndex = some index →
      ∃ turn, pushed.current[index]? = some turn ∧ isAssistant turn = true := by
    intro index hindex
    obtain ⟨turn, hturn, hassistant⟩ := hbegun.boundary index hindex
    refine ⟨turn, ?_, hassistant⟩
    rw [hpush, pushMessage, List.getElem?_append_left (List.getElem?_eq_some_iff.mp hturn).1]
    exact hturn
  unfold trackPending
  split_ifs with hassistant hresult
  · refine ⟨?_, fun index hindex => ?_, hbegun.chunks, hbegun.count⟩
    · intro pre turn mid id heq hturn hmid hsucceeded hcall _
      obtain ⟨-, rfl, -⟩ := lastTurn_unique heq hassistant hturn (fun _ hmsg => by cases hmsg) hmid
      have hcalls : (extractToolCallsFromAssistant message).isEmpty = false := by
        rw [eq_false_iff, ne_eq, List.isEmpty_iff]
        intro hnil
        rw [hnil] at hcall
        cases hcall
      simp only [hsucceeded, hcalls, Bool.not_false, Bool.and_self, if_true]
      exact hcall
    · dsimp only at hindex
      split_ifs at hindex
      refine ⟨message, ?_, hassistant⟩
      rw [← some.inj hindex, hpush, pushMessage]
      simp
  · have hassistant : isAssistant message = false := not_eq_true _ ▸ hassistant
    obtain ⟨_, _, _, answered, -, hanswers, -⟩ := hfollow done message rest rfl hresult.1
    have hanswer : answerPending pushed message =
        { pushed with pendingToolCallIds := pushed.pendingToolCallIds.filter (· ≠ answered) } := by
      rw [answerPending, hanswers.answer]
    have hkept : KeepsTogether (done ++ message :: rest) normalizedParts (done ++ [message])
        (answerPending pushed message) := by
      rw [hanswer]
      refine ⟨hbegun.complete.snoc hassistant fun id hid => ?_, hboundary, hbegun.chunks, hbegun.count⟩
      by_cases heq : id = answered
      · exact .inr ⟨hresult.1, heq ▸ hanswers.answer⟩
      · exact .inl (mem_filter.mpr ⟨hid, decide_eq_true heq⟩)
    dsimp only
    split_ifs
    · rw [happend] at hkept ⊢
      have hsplit := hkept.splitAtBoundary (hpushed.answerPending message)
      exact ⟨hsplit.complete, (fun _ hindex => by cases hindex), hsplit.chunks, hsplit.count⟩
    · exact hkept
  · have hassistant : isAssistant message = false := not_eq_true _ ▸ hassistant
    exact ⟨hbegun.complete.snoc hassistant fun id hid => .inl hid, hboundary, hbegun.chunks,
      hbegun.count⟩

theorem keepsTogether_foldl {rest : List Json}
    (h : KeepsTogether (done ++ rest) normalizedParts done split)
    (hcuts : Cuts estimateTokens done split) (hfollow : ResultsFollowCalls (done ++ rest)) :
    KeepsTogether (done ++ rest) normalizedParts (done ++ rest)
      (rest.foldl (splitStep estimateTokens normalizedParts targetTokens) split) := by
  induction rest generalizing done split with
  | nil => rwa [append_nil] at h ⊢
  | cons message rest ih =>
    have hstep := @KeepsTogether.splitStep _ _ targetTokens _ _ _ _ h hcuts hfollow
    have happend : done ++ message :: rest = (done ++ [message]) ++ rest := by simp
    rw [happend] at hstep hfollow ⊢
    exact ih hstep (hcuts.splitStep message) hfollow

/-- The chunks are non-empty pieces of the history and not more than asked for; a call of a turn
that did not fail stays with its result, so that a result without its call in the same chunk is one
of a failed turn. -/
theorem splitMessagesByTokenShare_keepsExchanges (estimateTokens : Json → ℚ) (messages : List Json)
    (parts : ℚ) (hne : messages ≠ []) (hfollow : ResultsFollowCalls messages) :
    let chunks := splitMessagesByTokenShare estimateTokens messages parts
    Pieces messages chunks ∧ chunks.length ≤ max 1 (min ⌊parts⌋₊ messages.length) ∧
      (∀ left, left <+: chunks → KeepsExchanges messages left.flatten.length) ∧
      ∀ left before result after right, chunks = left ++ (before ++ result :: after) :: right →
        isToolResult result = true → ∃ turn mid id, Answers turn mid result id ∧
          (stoppedWithError turn = true ∨ turn ∈ before) := by
  intro chunks
  have hpieces := pieces_splitMessagesByTokenShare estimateTokens messages parts
  have hsplit : chunks.length ≤ max 1 (min ⌊parts⌋₊ messages.length) ∧
      ∀ left, left <+: chunks → KeepsExchanges messages left.flatten.length := by
    have hwhole : KeepsExchanges messages messages.length := by
      intro pre turn mid result post id heq _ _
      rw [heq]
      simp
      omega
    have hstart : KeepsExchanges messages 0 := fun _ _ _ _ _ _ _ _ _ => .inl (Nat.zero_le _)
    show (splitMessagesByTokenShare estimateTokens messages parts).length ≤ _ ∧
      ∀ left, left <+: splitMessagesByTokenShare estimateTokens messages parts → _
    unfold splitMessagesByTokenShare
    rw [if_neg hne]
    dsimp only
    split_ifs with hone
    · refine ⟨le_max_left _ _, fun left hleft => ?_⟩
      rcases prefix_concat_iff.mp (show left <+: [] ++ [messages] from hleft) with rfl | hnil
      · simpa using hwhole
      · rw [prefix_nil.mp hnil]
        exact hstart
    · set normalizedParts := normalizeParts parts messages.length with hnormalized
      set targetTokens := estimateMessagesTokens estimateTokens messages / (normalizedParts : ℚ)
      have hcuts := (splitOf_messages estimateTokens normalizedParts targetTokens messages).1
      have hkept := @keepsTogether_foldl estimateTokens normalizedParts targetTokens [] _ messages
        keepsTogether_init cuts_init hfollow
      obtain ⟨last, hlastCuts, heq, -, hlast⟩ :=
        @finishSplit_cases _ normalizedParts targetTokens _ _ hcuts hne
      have hlast : KeepsTogether messages normalizedParts messages last := by
        rcases hlast with rfl | rfl
        · exact hkept
        · have hsplit := @KeepsTogether.splitAtBoundary estimateTokens normalizedParts messages _ []
            (by rwa [append_nil]) hcuts
          rwa [append_nil] at hsplit
      rw [heq]
      refine ⟨?_, hlast.addChunk ?_⟩
      · have hcount := hlast.count
        have hparts : normalizedParts ≤ max 1 (min ⌊parts⌋₊ messages.length) := by
          rw [hnormalized, normalizeParts]
          split_ifs <;> omega
        rw [length_append, length_singleton]
        omega
      · have hflatten : (last.chunks ++ [last.current]).flatten = messages := by
          rw [← hlastCuts.flatten]
          simp
        rw [hflatten]
        exact hwhole
  refine ⟨hpieces, hsplit.1, hsplit.2, ?_⟩
  intro left before result after right heq hresult
  have hmessages : messages = (left.flatten ++ before) ++ result :: (after ++ right.flatten) := by
    rw [← hpieces.flatten, show splitMessagesByTokenShare estimateTokens messages parts = _ from heq]
    simp
  obtain ⟨pre, turn, mid, id, hbefore, hanswers, -⟩ := hfollow _ result _ hmessages hresult
  refine ⟨turn, mid, id, hanswers, ?_⟩
  by_cases hfailed : stoppedWithError turn = true
  · exact .inl hfailed
  right
  have hkept := hsplit.2 left ⟨_, heq.symm⟩ pre turn mid result (after ++ right.flatten) id
    (hbefore ▸ hmessages) hanswers (not_eq_true _ ▸ hfailed)
  have hlength := congrArg List.length hbefore
  simp only [length_append, length_cons] at hlength
  have hle : left.flatten.length ≤ pre.length := by omega
  have hdrop := congrArg (List.drop left.flatten.length) hbefore
  rw [drop_left, drop_append_of_le_length hle] at hdrop
  rw [hdrop]
  exact mem_append_right _ mem_cons_self

theorem resultsFollowCalls_pair {turn result : Json} {id : Str} (h : Answers turn [] result id) :
    ResultsFollowCalls [turn, result] := by
  intro before result' after heq hresult
  rcases cons_eq_append_iff.mp heq with ⟨-, hrest⟩ | ⟨before', rfl, hrest⟩
  · rw [(cons.inj hrest).1, not_isToolResult_of_isAssistant h.assistant] at hresult
    exact nomatch hresult
  · rcases cons_eq_append_iff.mp hrest with ⟨rfl, hlast⟩ | ⟨before, -, hnil⟩
    · rw [(cons.inj hlast).1]
      exact ⟨[], turn, [], id, rfl, h, fun _ hmsg => nomatch hmsg⟩
    · exact absurd hnil.symm (append_ne_nil_of_right_ne_nil _ (cons_ne_nil _ _))

theorem splitMessagesByTokenShare_keepsExchanges_pair :
    let chunks := splitMessagesByTokenShare (fun _ => 15) [pruneSampleTurn, pruneSampleResult] 2
    Pieces [pruneSampleTurn, pruneSampleResult] chunks ∧ ∀ left, left <+: chunks →
      KeepsExchanges [pruneSampleTurn, pruneSampleResult] left.flatten.length := by
  have h := splitMessagesByTokenShare_keepsExchanges (fun _ => 15)
    [pruneSampleTurn, pruneSampleResult] 2 (cons_ne_nil _ _)
    (resultsFollowCalls_pair ⟨rfl, fun _ hmsg => (nomatch hmsg), mem_cons_self, rfl, rfl⟩)
  exact ⟨h.1, h.2.2.1⟩

/-- The turn of `pruneSampleTurn`, stopped by an error. -/
def failedSampleTurn : Json :=
  pruneSample "assistant" [("stopReason".toList, .string "error".toList), ("content".toList, .array
    [.object [("type".toList, .string "toolCall".toList), ("id".toList, .string "call_1".toList)]])]

/-- The result of a failed turn is summarised without its call. -/
theorem exists_result_without_call : ResultsFollowCalls [failedSampleTurn, pruneSampleResult] ∧
      Answers failedSampleTurn [] pruneSampleResult "call_1".toList ∧
      splitMessagesByTokenShare (fun _ => 15) [failedSampleTurn, pruneSampleResult] 2 =
        [[failedSampleTurn], [pruneSampleResult]] := by
  have hanswers : Answers failedSampleTurn [] pruneSampleResult "call_1".toList :=
    ⟨rfl, fun _ hmsg => (nomatch hmsg), mem_cons_self, rfl, rfl⟩
  refine ⟨resultsFollowCalls_pair hanswers, hanswers, ?_⟩
  have hpieces := pieces_splitMessagesByTokenShare (fun _ => 15)
    [failedSampleTurn, pruneSampleResult] 2
  have hlengths : (splitMessagesByTokenShare (fun _ => 15)
      [failedSampleTurn, pruneSampleResult] 2).map length = [1, 1] := by
    decide +kernel
  obtain ⟨first, rest, heq, hfirst, hrest⟩ := map_eq_cons_iff.mp hlengths
  obtain ⟨second, _, rfl, hsecond, hnil⟩ := map_eq_cons_iff.mp hrest
  obtain ⟨turn, rfl⟩ := length_eq_one_iff.mp hfirst
  obtain ⟨result, rfl⟩ := length_eq_one_iff.mp hsecond
  rw [map_eq_nil_iff.mp hnil] at heq
  have hflatten := hpieces.flatten
  rw [heq] at hflatten ⊢
  obtain ⟨rfl, hresult⟩ := cons.inj hflatten
  rw [(cons.inj hresult).1]

end OpenClaw
