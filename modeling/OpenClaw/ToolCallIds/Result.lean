import OpenClaw.ToolCallIds.Sanitized

/-!
# Sanitizing keeps results attached

A result is answered to the first open call with its id, in the order in which the calls are met.
The clock is left aside: it is read when a thousand ids made for one call are all in use.
-/

namespace OpenClaw

open Json List Option

section

variable {host : ToolIdHost} {mode : ToolCallIdMode} {options : ToolIdSanitizeOptions}
  {kept : List ℕ} {r : ToolIdResolver}

/-! ## The clock -/

theorem rewriteToolCallBlocks_after (blocks : List Json) :
    (rewriteToolCallBlocks host mode options r blocks).2.2 =
      (resolveIds host mode options r ((blocks.filterMap toolCallOfBlock?).map (·.id))).2 := by
  induction blocks generalizing r with
  | nil => rfl
  | cons block blocks ih =>
    cases hcall : toolCallOfBlock? block with
    | none =>
      rw [filterMap_cons_none hcall, rewriteToolCallBlocks, hcall]
      exact ih
    | some call =>
      rw [filterMap_cons_some hcall, map_cons, resolveIds_cons, rewriteToolCallBlocks,
        hcall]
      dsimp only
      split
      · exact ih
      · exact ih

theorem rewriteAssistantToolCallIds_after (m : Json) :
    (rewriteAssistantToolCallIds host mode options r m).2 =
      (resolveIds host mode options r (toolCallIds m)).2 := by
  by_cases hcontent : ∃ blocks, m.get? "content".toList = some (.array blocks)
  · obtain ⟨blocks, hblocks⟩ := hcontent
    rw [rewriteAssistantToolCallIds_of_content hblocks, toolCallIds_of_content hblocks]
    exact rewriteToolCallBlocks_after blocks
  · rw [not_exists] at hcontent
    obtain ⟨hnone, hids⟩ := @rewriteAssistantToolCallIds_of_no_content host mode options r m hcontent
    rw [hnone, hids]
    rfl

theorem clockReads_resolveIdField_le (id : Option Str) :
    r.clockReads ≤ (resolveIdField host mode options r id).2.clockReads := by
  cases id with
  | none => exact le_refl _
  | some id => exact clockReads_resolveToolResultId_le id

theorem clockReads_rewriteToolResultIds_le (m : Json) :
    r.clockReads ≤ (rewriteToolResultIds host mode options r m).2.clockReads := by
  have hfields : ∀ callId useId : Option Str,
      r.clockReads ≤ (resolveIdFields host mode options r callId useId).2.2.clockReads := by
    intro callId useId
    unfold resolveIdFields
    split
    · exact clockReads_resolveIdField_le callId
    · exact le_trans (clockReads_resolveIdField_le callId) (clockReads_resolveIdField_le useId)
  unfold rewriteToolResultIds
  dsimp only
  split
  · exact hfields _ _
  · exact hfields _ _

theorem clockReads_sanitizeMessage_le (s : ToolIdSanitizing) (m : Json) :
    s.resolver.clockReads ≤ (sanitizeMessage host mode options kept s m).resolver.clockReads := by
  unfold sanitizeMessage
  split
  · split
    · exact le_of_eq (foldl_preserveAssistantId (toolCallIds m) s.resolver).2.2.2.symm
    · dsimp only
      rw [rewriteAssistantToolCallIds_after]
      exact clockReads_resolveIds_le _
  · split
    · exact clockReads_rewriteToolResultIds_le m
    · exact le_refl _

theorem clockReads_foldl_le (rest : List Json) (s : ToolIdSanitizing) : s.resolver.clockReads ≤
    (rest.foldl (sanitizeMessage host mode options kept) s).resolver.clockReads := by
  induction rest generalizing s with
  | nil => exact le_refl _
  | cons m rest ih => exact le_trans (clockReads_sanitizeMessage_le s m) (ih _)

/-! ## All messages -/

section

variable {messages processed rest : List Json} {m : Json} {s : ToolIdSanitizing} {a : Attribution}

/-- One message. -/
theorem Sanitized.step (h : Sanitized mode options kept messages processed (m :: rest) s a)
    (hagree : isToolResult m = true → ResultIdsAgree m)
    (hclock : (sanitizeMessage host mode options kept s m).resolver.clockReads = 0) :
    Sanitized mode options kept messages (processed ++ [m]) rest
      (sanitizeMessage host mode options kept s m) (attributeMessage earliestCall a m) := by
  cases hassistant : isAssistant m with
  | true =>
    by_cases hkept : processed.length ∈ kept
    · exact h.push_kept hassistant hkept
    · apply h.push_resolved hassistant hkept
      rw [← rewriteAssistantToolCallIds_after]
      unfold sanitizeMessage at hclock
      rw [if_pos hassistant, h.out_length, if_neg hkept] at hclock
      exact hclock
  | false =>
    cases hresult : isToolResult m with
    | true => exact h.push_result hresult (hagree hresult) hclock
    | false =>
      have hstep : sanitizeMessage host mode options kept s m =
          ⟨s.resolver, s.out ++ [m], s.changed⟩ := by
        unfold sanitizeMessage
        rw [hassistant, if_neg Bool.false_ne_true, hresult, if_neg Bool.false_ne_true]
      have hattribute : attributeMessage earliestCall a m =
          ⟨a.unanswered, a.owners ++ [none]⟩ := by
        unfold attributeMessage
        rw [hassistant, if_neg Bool.false_ne_true, hresult, if_neg Bool.false_ne_true]
      rw [hstep, hattribute]
      apply h.push_other hassistant
      intro htrue
      rw [hresult] at htrue
      cases htrue

/-- The messages that follow. -/
theorem Sanitized.run (h : Sanitized mode options kept messages processed rest s a)
    (hagree : ∀ m ∈ rest, isToolResult m = true → ResultIdsAgree m)
    (hclock : (rest.foldl (sanitizeMessage host mode options kept) s).resolver.clockReads = 0) :
    Sanitized mode options kept messages (processed ++ rest) []
      (rest.foldl (sanitizeMessage host mode options kept) s)
      (rest.foldl (attributeMessage earliestCall) a) := by
  induction rest generalizing processed s a with
  | nil =>
    rw [append_nil]
    exact h
  | cons m rest ih =>
    have hfirst : (sanitizeMessage host mode options kept s m).resolver.clockReads = 0 := by
      have hle := @clockReads_foldl_le host mode options kept rest
        (sanitizeMessage host mode options kept s m)
      rw [foldl_cons] at hclock
      omega
    have hstep := h.step (hagree m mem_cons_self) hfirst
    have hrest := ih hstep (fun other hother => hagree other (mem_cons_of_mem m hother)) hclock
    rw [append_assoc] at hrest
    exact hrest

end

theorem sanitized_init (messages : List Json) :
    Sanitized mode options (replaySafeThinking host options messages).2 messages [] messages
      ⟨.init (replaySafeThinking host options messages).1, [], false⟩ ⟨[], []⟩ := by
  obtain ⟨hreserved, hnodup⟩ := replaySafeThinking_spec host options messages
  rw [hreserved] at hnodup
  exact
    { split := rfl
      owners_length := rfl
      unchanged := fun _ => rfl
      same := .nil
      nodup := hnodup
      used := by
        intro id hid
        show id ∈ (replaySafeThinking host options messages).1
        rw [hreserved]
        exact hid
      pending := fun _ => rfl
      occurrences := fun _ => rfl
      calls := fun _ _ h => nomatch h
      attached := fun _ _ h => nomatch h
      orphans := fun _ _ h => nomatch h }

end

variable (host : ToolIdHost) (mode : ToolCallIdMode) (options : ToolIdSanitizeOptions)

/-- Each result carries the id given to the first open call with its raw id, the ids of the calls
differ, and nothing but ids changes. -/
theorem sanitizeToolCallIds_keepsResultsAttached (messages : List Json)
    (hagree : ∀ m ∈ messages, isToolResult m = true → ResultIdsAgree m)
    (hclock : (sanitizeRun host mode options messages).resolver.clockReads = 0) :
    KeepsResultsAttached host mode options earliestCall (ChangedNativeId host mode options messages)
      messages (sanitizeToolCallIdsForCloudCodeAssist host mode options messages) := by
  have h := (@sanitized_init host mode options messages).run hagree hclock
  have hout : sanitizeToolCallIdsForCloudCodeAssist host mode options messages =
      (sanitizeRun host mode options messages).out := by
    unfold sanitizeToolCallIdsForCloudCodeAssist
    dsimp only
    split
    · rfl
    · next hchanged =>
      exact (h.unchanged (Bool.eq_false_iff.mpr hchanged)).symm
  rw [hout]
  exact
    { same := h.same
      calls_nodup := by
        have hnodup := h.nodup
        rw [keptFrom, append_nil] at hnodup
        exact hnodup
      calls_valid := h.calls
      attached := h.attached
      orphans := by
        intro index message hmessage hresult howner given hgiven
        have hnot := (h.orphans index message hmessage hresult howner given hgiven).2
        rw [keptFrom, append_nil] at hnot
        exact hnot }

/-! ## Runs -/

/-- A process whose hashes are not asked for. -/
def sampleToolIdHost : ToolIdHost :=
  { Host.asciiLinux with
    sha256Hex := fun _ => List.replicate 64 '0'
    dateNow := fun _ => 0
    sha256Hex_length := fun _ => List.length_replicate
    sha256Hex_digits := by
      intro _ c hc
      rw [List.eq_of_mem_replicate hc]
      decide }

def sampleCall (id : String) : Json :=
  .object [("role".toList, .string "assistant".toList), ("content".toList, .array
    [.object [("type".toList, .string "toolCall".toList), ("id".toList, .string id.toList)]])]

def sampleToolResult (id : String) : Json :=
  .object [("role".toList, .string "toolResult".toList), ("toolCallId".toList, .string id.toList)]

def sampleToolIdOptions : ToolIdSanitizeOptions := ⟨false, false, none⟩

/-- A raw id that comes back, and a result without a call. -/
def sampleToolIdMessages : List Json :=
  [sampleCall "call_1", sampleToolResult "call_1", sampleCall "call_1", sampleToolResult "call_1",
    sampleToolResult "other"]

theorem sanitizeToolCallIds_keepsResultsAttached_sample :
    KeepsResultsAttached sampleToolIdHost .strict sampleToolIdOptions earliestCall
      (ChangedNativeId sampleToolIdHost .strict sampleToolIdOptions sampleToolIdMessages)
      sampleToolIdMessages
      (sanitizeToolCallIdsForCloudCodeAssist sampleToolIdHost .strict sampleToolIdOptions
        sampleToolIdMessages) :=
  sanitizeToolCallIds_keepsResultsAttached _ _ _ _
    (fun m hm _ _ _ _ huse => by
      have hnone : ∀ m ∈ sampleToolIdMessages, idField? m "toolUseId".toList = none := by
        decide +kernel
      rw [hnone m hm] at huse
      cases huse)
    (by decide +kernel)

/-- The first call is not answered, and the result of the second one is given the id of the
first. -/
theorem exists_not_attached_to_latest :
    ∃ (host : ToolIdHost) (mode : ToolCallIdMode) (options : ToolIdSanitizeOptions)
      (messages : List Json), (∀ m ∈ messages, isToolResult m = true → ResultIdsAgree m) ∧
        (sanitizeRun host mode options messages).resolver.clockReads = 0 ∧
        ¬KeepsResultsAttached host mode options latestTurnCall (fun _ _ => False) messages
          (sanitizeToolCallIdsForCloudCodeAssist host mode options messages) := by
  refine ⟨sampleToolIdHost, .strict, sampleToolIdOptions,
    [sampleCall "a", sampleCall "a", sampleToolResult "a"], ?_, by decide +kernel, ?_⟩
  · intro m hm _ _ _ _ huse
    have hnone : ∀ m ∈ [sampleCall "a", sampleCall "a", sampleToolResult "a"],
        idField? m "toolUseId".toList = none := by decide +kernel
    rw [hnone m hm] at huse
    cases huse
  · intro h
    obtain ⟨id, message, hid, hmessage, hgiven⟩ := h.attached 2 ⟨1, 0, "a".toList⟩ (by decide +kernel)
    have hids : ((sanitizeToolCallIdsForCloudCodeAssist sampleToolIdHost .strict
        sampleToolIdOptions [sampleCall "a", sampleCall "a", sampleToolResult "a"])[2]?).map
          resultIds = some ["a".toList] := by decide +kernel
    have hcall : callIdAt (sanitizeToolCallIdsForCloudCodeAssist sampleToolIdHost .strict
        sampleToolIdOptions [sampleCall "a", sampleCall "a", sampleToolResult "a"])
          ⟨1, 0, "a".toList⟩ = some "a2".toList := by decide +kernel
    rw [hmessage, map_some, some_inj] at hids
    rw [hcall, some_inj] at hid
    have hmem := (hgiven "a".toList).mp (by rw [hids]; exact mem_singleton.mpr rfl)
    rw [← hid] at hmem
    revert hmem
    decide

end OpenClaw
