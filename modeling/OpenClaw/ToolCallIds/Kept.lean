import OpenClaw.ToolCallIds.Attached

/-!
# The turns that are kept

The reserved ids are the ids of the kept turns, each once.
-/

namespace OpenClaw

open Json List

variable {host : Host} {allowed : Option (List Str)}

theorem isToolCallBlock_of_call {block : Json} {call : ToolCallLike}
    (h : toolCallOfBlock? block = some call) :
    isToolCallBlock block = true ∧ stringField? block "id".toList = some call.id := by
  unfold toolCallOfBlock? at h
  split at h
  · next id type hid htype =>
    by_cases hcall : id ≠ [] ∧ type ∈ toolCallTypes
    · rw [if_pos hcall] at h
      rw [← Option.some.inj h]
      unfold isToolCallBlock
      rw [htype]
      exact ⟨decide_eq_true hcall.2, hid⟩
    · rw [if_neg hcall] at h
      cases h
  · cases h

theorem not_isThinkingLikeBlock {block : Json} (h : isToolCallBlock block = true) :
    isThinkingLikeBlock block = false := by
  unfold isToolCallBlock at h
  unfold isThinkingLikeBlock
  cases htype : stringField? block "type".toList with
  | none => rfl
  | some type =>
    rw [htype] at h
    have hmem : type ∈ toolCallTypes := of_decide_eq_true h
    have hne : type ≠ "thinking".toList ∧ type ≠ "redacted_thinking".toList := by
      constructor
      · rintro rfl
        revert hmem
        decide
      · rintro rfl
        revert hmem
        decide
    rw [Bool.or_eq_false_iff]
    exact ⟨decide_eq_false fun heq => hne.1 (Option.some.inj heq),
      decide_eq_false fun heq => hne.2 (Option.some.inj heq)⟩

/-- The ids of a turn that is replayed differ, even without the white space around them. -/
theorem nodup_of_areReplaySafe {sawThinking sawToolCall : Bool} {seen : List Str}
    {blocks : List Json}
    (h : areReplaySafe host allowed sawThinking sawToolCall seen blocks = true) :
    ((blocks.filterMap toolCallOfBlock?).map (trim ·.id)).Nodup ∧
      ∀ id ∈ (blocks.filterMap toolCallOfBlock?).map (trim ·.id), id ∉ seen := by
  induction blocks generalizing sawThinking sawToolCall seen with
  | nil => exact ⟨nodup_nil, fun _ hid => nomatch hid⟩
  | cons block blocks ih =>
    rw [areReplaySafe] at h
    cases hcall : toolCallOfBlock? block with
    | none =>
      rw [filterMap_cons_none hcall]
      split at h
      · exact ih h
      · split at h
        · dsimp only at h
          split_ifs at h
          obtain ⟨hnodup, hunseen⟩ := ih h
          exact ⟨hnodup, fun id hid hseen => hunseen id hid (mem_append_left _ hseen)⟩
        · exact ih h
    | some call =>
      obtain ⟨hblock, hid⟩ := isToolCallBlock_of_call hcall
      rw [not_isThinkingLikeBlock hblock, if_neg Bool.false_ne_true, hblock, if_pos rfl, hid] at h
      dsimp only [Option.map_some, Option.getD_some] at h
      split_ifs at h
      next hchecks =>
      obtain ⟨hnodup, hunseen⟩ := ih h
      simp only [Bool.or_eq_true, decide_eq_true_eq, not_or] at hchecks
      rw [filterMap_cons_some hcall, map_cons, nodup_cons]
      refine ⟨⟨fun hmem => hunseen _ hmem (mem_append_right _ mem_cons_self), hnodup⟩, ?_⟩
      intro id hmem
      rcases mem_cons.mp hmem with rfl | hmem
      · exact hchecks.1.1.2
      · exact fun hseen => hunseen id hmem (mem_append_left _ hseen)

theorem toolCallIds_nodup {message : Json}
    (h : isReplaySafeThinkingAssistantMessage host message allowed = true) :
    (toolCallIds message).Nodup := by
  unfold isReplaySafeThinkingAssistantMessage at h
  split at h
  · next blocks hblocks =>
    rw [toolCallIds_of_content hblocks]
    have hnodup := (nodup_of_areReplaySafe h).1
    have hmap : (blocks.filterMap toolCallOfBlock?).map (trim ·.id) =
        ((blocks.filterMap toolCallOfBlock?).map (·.id)).map trim := by
      rw [map_map]
      rfl
    rw [hmap] at hnodup
    exact hnodup.of_map trim
  · cases h

/-- Only later turns are kept. -/
theorem le_of_mem_kept {index i : ℕ} {reserved : List Str} {messages : List Json}
    (h : i ∈ (collectReplaySafeFrom host allowed index reserved messages).2) : index ≤ i := by
  induction messages generalizing index reserved with
  | nil => cases h
  | cons message messages ih =>
    rw [collectReplaySafeFrom] at h
    split at h
    · rcases mem_cons.mp h with rfl | h
      · exact le_refl i
      · have hle := ih h
        omega
    · have hle := ih h
      omega

theorem keptFrom_cons_of_lt (kept : List ℕ) {i index : ℕ} (h : i < index) (messages : List Json) :
    keptFrom (i :: kept) index messages = keptFrom kept index messages := by
  induction messages generalizing index with
  | nil => rfl
  | cons message messages ih =>
    have hmem : index ∈ i :: kept ↔ index ∈ kept := by
      rw [mem_cons]
      constructor
      · intro hor
        rcases hor with heq | hmem
        · omega
        · exact hmem
      · exact Or.inr
    rw [keptFrom, keptFrom, ih (by omega), if_congr hmem rfl rfl]

/-- The reserved ids are those of the kept turns, and no id is reserved twice. -/
theorem collectReplaySafeFrom_spec (index : ℕ) (reserved : List Str) (messages : List Json) :
    (collectReplaySafeFrom host allowed index reserved messages).1 = reserved ++
        keptFrom (collectReplaySafeFrom host allowed index reserved messages).2 index messages ∧
      (reserved.Nodup → (collectReplaySafeFrom host allowed index reserved messages).1.Nodup) := by
  induction messages generalizing index reserved with
  | nil => exact ⟨(append_nil reserved).symm, id⟩
  | cons message messages ih =>
    by_cases hkept : (isAssistant message &&
        isReplaySafeThinkingAssistantMessage host message allowed &&
        !(toolCallIds message).any (· ∈ reserved)) = true
    · have hcollect : collectReplaySafeFrom host allowed index reserved (message :: messages) =
          ((collectReplaySafeFrom host allowed (index + 1) (reserved ++ toolCallIds message)
            messages).1, index :: (collectReplaySafeFrom host allowed (index + 1)
              (reserved ++ toolCallIds message) messages).2) := if_pos hkept
      obtain ⟨hreserved, hnodup⟩ := ih (index + 1) (reserved ++ toolCallIds message)
      rw [hcollect]
      constructor
      · rw [keptFrom, if_pos mem_cons_self, keptFrom_cons_of_lt _ (Nat.lt_succ_self index),
          ← append_assoc]
        exact hreserved
      · intro hold
        apply hnodup
        simp only [Bool.and_eq_true, Bool.not_eq_true', any_eq_false, decide_eq_true_eq] at hkept
        refine hold.append (toolCallIds_nodup hkept.1.2) ?_
        intro id hid hmem
        exact hkept.2 id hmem hid
    · have hcollect : collectReplaySafeFrom host allowed index reserved (message :: messages) =
          collectReplaySafeFrom host allowed (index + 1) reserved messages := if_neg hkept
      obtain ⟨hreserved, hnodup⟩ := ih (index + 1) reserved
      rw [hcollect]
      refine ⟨?_, hnodup⟩
      have hnot : index ∉ (collectReplaySafeFrom host allowed (index + 1) reserved messages).2 := by
        intro hmem
        have hle := le_of_mem_kept hmem
        omega
      rw [keptFrom, if_neg hnot]
      exact hreserved

/-- The same of the options of a call. -/
theorem replaySafeThinking_spec (host : ToolIdHost) (options : ToolIdSanitizeOptions)
    (messages : List Json) : (replaySafeThinking host options messages).1 =
        keptFrom (replaySafeThinking host options messages).2 0 messages ∧
      (replaySafeThinking host options messages).1.Nodup := by
  unfold replaySafeThinking
  split
  · have hspec := @collectReplaySafeFrom_spec host.toHost
      (normalizeAllowedToolNames host.toHost options.allowedToolNames) 0 [] messages
    exact ⟨hspec.1, hspec.2 nodup_nil⟩
  · refine ⟨?_, nodup_nil⟩
    have hnone : ∀ index, keptFrom [] index messages = [] := by
      induction messages with
      | nil => exact fun _ => rfl
      | cons message messages ih =>
        intro index
        rw [keptFrom, if_neg not_mem_nil, ih]
        rfl
    exact (hnone 0).symm

end OpenClaw
