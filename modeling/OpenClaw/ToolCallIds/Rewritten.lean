import OpenClaw.ToolCallIds.Resolved

/-!
# Rewritten messages

What a rewritten message has in common with the message it was made from, and the ids it carries.
-/

namespace OpenClaw

open Json List Option

/-! ## Nothing but ids -/

/-- A block, or the block of a call with another id. -/
def SameBlock (block block' : Json) : Prop :=
  block' = block ∨
    ∃ call id, toolCallOfBlock? block = some call ∧ id ≠ [] ∧
      block' = withStringField block "id".toList id

/-- The second message differs from the first one in the ids of its calls, or in its result ids. -/
inductive SameButIds (m : Json) : Json → Prop
  | same : SameButIds m m
  | calls {blocks blocks' : List Json} : isAssistant m = true →
      m.get? "content".toList = some (.array blocks) → List.Forall₂ SameBlock blocks blocks' →
      SameButIds m (withContent m blocks')
  | result {callId useId : Option Str} : isToolResult m = true →
      callId.isSome = (idField? m "toolCallId".toList).isSome →
      useId.isSome = (idField? m "toolUseId".toList).isSome →
      SameButIds m
        (withIdField (withIdField m "toolCallId".toList callId) "toolUseId".toList useId)

/-- The ids of a result. -/
def resultIds (message : Json) : List Str :=
  (idField? message "toolCallId".toList).toList ++ (idField? message "toolUseId".toList).toList

/-! ## Blocks and contents -/

variable {block m : Json} {call : ToolCallLike} {id key : Str} {blocks : List Json}

section

variable (h : toolCallOfBlock? block = some call)
include h

theorem isObject_of_toolCallOfBlock? : block.isObject = true := by
  cases hid : stringField? block "id".toList with
  | none =>
    unfold toolCallOfBlock? at h
    rw [hid] at h
    cases h
  | some id => exact isObject_of_stringField? hid

/-- The call of a block with another id. -/
theorem toolCallOfBlock?_withStringField (hid : id ≠ []) :
    toolCallOfBlock? (withStringField block "id".toList id) = some { call with id := id } := by
  have hobject := isObject_of_toolCallOfBlock? h
  have hnewId := stringField?_withStringField hobject "id".toList id
  have hnewType := stringField?_withStringField_of_ne hobject
    (by decide : "type".toList ≠ "id".toList) id
  have hnewName := stringField?_withStringField_of_ne hobject
    (by decide : "name".toList ≠ "id".toList) id
  unfold toolCallOfBlock? at h ⊢
  rw [hnewId, hnewType, hnewName]
  cases holdId : stringField? block "id".toList with
  | none =>
    rw [holdId] at h
    cases h
  | some old =>
    cases htype : stringField? block "type".toList with
    | none =>
      rw [holdId, htype] at h
      cases h
    | some type =>
      rw [holdId, htype] at h
      dsimp only at h ⊢
      by_cases hcall : old ≠ [] ∧ type ∈ toolCallTypes
      · rw [if_pos hcall] at h
        rw [if_pos ⟨hid, hcall.2⟩, ← some.inj h]
      · rw [if_neg hcall] at h
        cases h

theorem id_ne_nil_of_toolCallOfBlock? : call.id ≠ [] := by
  unfold toolCallOfBlock? at h
  split at h
  · next id type _ _ =>
    by_cases hcall : id ≠ [] ∧ type ∈ toolCallTypes
    · rw [if_pos hcall] at h
      rw [← some.inj h]
      exact hcall.1
    · rw [if_neg hcall] at h
      cases h
  · cases h

end

/-- An id of a call is not empty. -/
theorem ne_nil_of_mem_toolCallIds (h : id ∈ toolCallIds m) : id ≠ [] := by
  obtain ⟨call, hcall, rfl⟩ := mem_map.mp h
  unfold extractToolCallsFromAssistant at hcall
  split at hcall
  · obtain ⟨block, _, hblock⟩ := mem_filterMap.mp hcall
    exact id_ne_nil_of_toolCallOfBlock? hblock
  · cases hcall

theorem get?_withContent (h : m.isObject = true) (blocks : List Json) :
    (withContent m blocks).get? "content".toList = some (.array blocks) := by
  obtain ⟨entries, rfl⟩ := isObject_iff.mp h
  exact lookup_insert entries _ _

theorem get?_withContent_of_ne (h : m.isObject = true) (blocks : List Json)
    (hne : key ≠ "content".toList) : (withContent m blocks).get? key = m.get? key := by
  obtain ⟨entries, rfl⟩ := isObject_iff.mp h
  exact lookup_insert_of_ne entries _ hne

theorem isObject_of_get? {v : Json} (h : m.get? key = some v) : m.isObject = true := by
  cases m with
  | object entries => rfl
  | _ => cases h

theorem messageRole_withContent (h : m.isObject = true) (blocks : List Json) :
    messageRole (withContent m blocks) = messageRole m := by
  unfold messageRole stringField?
  rw [get?_withContent_of_ne h blocks (by decide)]

theorem toolCallIds_of_content (h : m.get? "content".toList = some (.array blocks)) :
    toolCallIds m = (blocks.filterMap toolCallOfBlock?).map (·.id) := by
  unfold toolCallIds extractToolCallsFromAssistant
  rw [h]

/-! ## Assistant messages -/

section

variable {host : ToolIdHost} {mode : ToolCallIdMode} {options : ToolIdSanitizeOptions}
  {r : ToolIdResolver}

/-- The blocks of a message: the ids of its calls are the resolved ones. -/
theorem rewriteToolCallBlocks_spec (hclock : (resolveIds host mode options r
      ((blocks.filterMap toolCallOfBlock?).map (·.id))).2.clockReads = 0) :
    (rewriteToolCallBlocks host mode options r blocks).2.2 =
        (resolveIds host mode options r ((blocks.filterMap toolCallOfBlock?).map (·.id))).2 ∧
      ((rewriteToolCallBlocks host mode options r blocks).1.filterMap toolCallOfBlock?).map (·.id) =
        (resolveIds host mode options r ((blocks.filterMap toolCallOfBlock?).map (·.id))).1 ∧
      List.Forall₂ SameBlock blocks (rewriteToolCallBlocks host mode options r blocks).1 ∧
      ((rewriteToolCallBlocks host mode options r blocks).2.1 = false →
        (rewriteToolCallBlocks host mode options r blocks).1 = blocks) := by
  induction blocks generalizing r with
  | nil => exact ⟨rfl, rfl, .nil, fun _ => rfl⟩
  | cons block blocks ih =>
    cases hcall : toolCallOfBlock? block with
    | none =>
      have hstep : rewriteToolCallBlocks host mode options r (block :: blocks) =
          (block :: (rewriteToolCallBlocks host mode options r blocks).1,
            (rewriteToolCallBlocks host mode options r blocks).2.1,
            (rewriteToolCallBlocks host mode options r blocks).2.2) := by
        rw [rewriteToolCallBlocks, hcall]
      rw [filterMap_cons_none hcall] at hclock ⊢
      obtain ⟨hafter, hids, hsame, hunchanged⟩ := ih hclock
      rw [hstep]
      refine ⟨hafter, ?_, .cons (Or.inl rfl) hsame, fun h => ?_⟩
      · rw [filterMap_cons_none hcall]
        exact hids
      · exact congrArg (block :: ·) (hunchanged h)
    | some call =>
      rw [filterMap_cons_some hcall, map_cons, resolveIds_cons] at hclock ⊢
      dsimp only at hclock ⊢
      have hfirst : (r.resolveAssistantId host mode options call.id).2.clockReads = 0 := by
        have hle := @clockReads_resolveIds_le host mode options
          (r.resolveAssistantId host mode options call.id).2
          ((blocks.filterMap toolCallOfBlock?).map (·.id))
        omega
      obtain ⟨next, heq, hgiven, _⟩ := resolveAssistantId_spec hfirst
      have hne := ne_nil_of_givenId hgiven
      obtain ⟨hafter, hids, hsame, hunchanged⟩ := ih hclock
      by_cases hid : (r.resolveAssistantId host mode options call.id).1 = call.id
      · have hstep : rewriteToolCallBlocks host mode options r (block :: blocks) =
            (block :: (rewriteToolCallBlocks host mode options
                (r.resolveAssistantId host mode options call.id).2 blocks).1,
              (rewriteToolCallBlocks host mode options
                (r.resolveAssistantId host mode options call.id).2 blocks).2.1,
              (rewriteToolCallBlocks host mode options
                (r.resolveAssistantId host mode options call.id).2 blocks).2.2) := by
          rw [rewriteToolCallBlocks, hcall]
          dsimp only
          rw [if_pos hid]
        rw [hstep]
        refine ⟨hafter, ?_, .cons (Or.inl rfl) hsame, fun h => ?_⟩
        · rw [filterMap_cons_some hcall, map_cons, hids, hid]
        · exact congrArg (block :: ·) (hunchanged h)
      · have hstep : rewriteToolCallBlocks host mode options r (block :: blocks) =
            (withStringField block "id".toList (r.resolveAssistantId host mode options call.id).1 ::
                (rewriteToolCallBlocks host mode options
                (r.resolveAssistantId host mode options call.id).2 blocks).1,
              true,
              (rewriteToolCallBlocks host mode options
                (r.resolveAssistantId host mode options call.id).2 blocks).2.2) := by
          rw [rewriteToolCallBlocks, hcall]
          dsimp only
          rw [if_neg hid]
        have hfirstNe : (r.resolveAssistantId host mode options call.id).1 ≠ [] := by
          rw [heq]
          exact hne
        rw [hstep]
        refine ⟨hafter, ?_, .cons (Or.inr ⟨call, _, hcall, hfirstNe, rfl⟩) hsame, fun h => nomatch h⟩
        rw [filterMap_cons_some (toolCallOfBlock?_withStringField hcall hfirstNe), map_cons, hids]

theorem rewriteAssistantToolCallIds_of_content
    (h : m.get? "content".toList = some (.array blocks)) :
    rewriteAssistantToolCallIds host mode options r m =
      (if (rewriteToolCallBlocks host mode options r blocks).2.1 then
        some (withContent m (rewriteToolCallBlocks host mode options r blocks).1) else none,
      (rewriteToolCallBlocks host mode options r blocks).2.2) := by
  unfold rewriteAssistantToolCallIds
  rw [h]

/-- Without content there is no call. -/
theorem rewriteAssistantToolCallIds_of_no_content {m : Json}
    (h : ∀ blocks, m.get? "content".toList ≠ some (.array blocks)) :
    rewriteAssistantToolCallIds host mode options r m = (none, r) ∧ toolCallIds m = [] := by
  constructor
  · unfold rewriteAssistantToolCallIds
    split
    · next blocks hblocks => exact absurd hblocks (h blocks)
    · rfl
  · unfold toolCallIds extractToolCallsFromAssistant
    split
    · next blocks hblocks => exact absurd hblocks (h blocks)
    · rfl

/-- An assistant message. -/
theorem rewriteAssistantToolCallIds_spec (hassistant : isAssistant m = true)
    (hclock : (resolveIds host mode options r (toolCallIds m)).2.clockReads = 0) :
    (rewriteAssistantToolCallIds host mode options r m).2 =
        (resolveIds host mode options r (toolCallIds m)).2 ∧
      toolCallIds ((rewriteAssistantToolCallIds host mode options r m).1.getD m) =
        (resolveIds host mode options r (toolCallIds m)).1 ∧
      SameButIds m ((rewriteAssistantToolCallIds host mode options r m).1.getD m) := by
  by_cases hcontent : ∃ blocks, m.get? "content".toList = some (.array blocks)
  · obtain ⟨blocks, hblocks⟩ := hcontent
    have hobject := isObject_of_get? hblocks
    rw [toolCallIds_of_content hblocks] at hclock ⊢
    obtain ⟨hafter, hids, hsame, hunchanged⟩ := rewriteToolCallBlocks_spec hclock
    rw [rewriteAssistantToolCallIds_of_content hblocks]
    refine ⟨hafter, ?_⟩
    cases hchanged : (rewriteToolCallBlocks host mode options r blocks).2.1 with
    | true =>
      refine ⟨?_, .calls hassistant hblocks hsame⟩
      show toolCallIds (withContent m _) = _
      rw [toolCallIds_of_content (get?_withContent hobject _)]
      exact hids
    | false =>
      refine ⟨?_, .same⟩
      rw [hunchanged hchanged] at hids
      show toolCallIds m = _
      rw [toolCallIds_of_content hblocks]
      exact hids
  · rw [not_exists] at hcontent
    obtain ⟨hnone, hids⟩ := @rewriteAssistantToolCallIds_of_no_content host mode options r m hcontent
    rw [hnone, hids]
    exact ⟨rfl, hids, .same⟩

/-! ## Results -/

/-- The two ids of a result are one id, where it has both. -/
def ResultIdsAgree (m : Json) : Prop :=
  ∀ callId useId, idField? m "toolCallId".toList = some callId →
    idField? m "toolUseId".toList = some useId → callId = useId

theorem extractToolResultId_eq (m : Json) : extractToolResultId m =
    (idField? m "toolCallId".toList).or (idField? m "toolUseId".toList) := rfl

theorem isObject_of_idField? (h : idField? m key = some id) : m.isObject = true := by
  unfold idField? at h
  cases hfield : stringField? m key with
  | none =>
    rw [hfield] at h
    cases h
  | some text => exact isObject_of_stringField? hfield

section

variable (h : m.isObject = true)
include h

theorem idField?_withStringField (key : Str)
    (hid : id ≠ []) : idField? (withStringField m key id) key = some id := by
  unfold idField?
  rw [stringField?_withStringField h, filter_some, if_pos (decide_eq_true hid)]

theorem idField?_withStringField_of_ne {key' : Str}
    (hne : key' ≠ key) (id : Str) : idField? (withStringField m key id) key' = idField? m key' := by
  unfold idField?
  rw [stringField?_withStringField_of_ne h hne]

theorem isObject_withStringField (key id : Str) : (withStringField m key id).isObject = true := by
  obtain ⟨entries, rfl⟩ := isObject_iff.mp h
  rfl

/-- Setting a field that the result has. -/
theorem idField?_withIdField (key : Str) {id : Option Str}
    (hid : ∀ text, id = some text → text ≠ []) (hhas : id.isSome = (idField? m key).isSome) :
    idField? (withIdField m key id) key = id := by
  cases id with
  | some text => exact idField?_withStringField h key (hid text rfl)
  | none =>
    show idField? m key = none
    rw [← not_isSome_iff_eq_none, ← hhas]
    exact Bool.false_ne_true

theorem idField?_withIdField_of_ne {key' : Str} (hne : key' ≠ key) (id : Option Str) :
    idField? (withIdField m key id) key' = idField? m key' := by
  cases id with
  | some text => exact idField?_withStringField_of_ne h hne text
  | none => rfl

theorem isObject_withIdField (key : Str) (id : Option Str) :
    (withIdField m key id).isObject = true := by
  cases id with
  | some text => exact isObject_withStringField h key text
  | none => exact h

end

/-- Both ids of a result become the resolved one. -/
theorem resolveIdFields_eq {callId useId : Option Str} (hid : callId.or useId = some id)
    (hagree : ∀ a b, callId = some a → useId = some b → a = b) :
    resolveIdFields host mode options r callId useId =
      (callId.map fun _ => (r.resolveToolResultId host mode options id).1,
        useId.map fun _ => (r.resolveToolResultId host mode options id).1,
        (r.resolveToolResultId host mode options id).2) := by
  cases callId with
  | some callId =>
    rw [some_or] at hid
    rw [hid]
    cases useId with
    | some useId =>
      have hsame := hagree callId useId rfl rfl
      rw [some.inj hid] at hsame
      rw [← hsame]
      exact if_pos ⟨rfl, rfl⟩
    | none => exact if_neg fun h => nomatch h.2
  | none =>
    rw [none_or] at hid
    rw [hid]
    exact if_neg fun h => nomatch h.1

theorem rewriteToolResultIds_eq (hid : extractToolResultId m = some id)
    (hagree : ResultIdsAgree m) : rewriteToolResultIds host mode options r m =
      (if (idField? m "toolCallId".toList).map
            (fun _ => (r.resolveToolResultId host mode options id).1) =
              idField? m "toolCallId".toList ∧
          (idField? m "toolUseId".toList).map
            (fun _ => (r.resolveToolResultId host mode options id).1) =
              idField? m "toolUseId".toList then none
        else some (withIdField (withIdField m "toolCallId".toList
          ((idField? m "toolCallId".toList).map
            fun _ => (r.resolveToolResultId host mode options id).1)) "toolUseId".toList
          ((idField? m "toolUseId".toList).map
            fun _ => (r.resolveToolResultId host mode options id).1)),
      (r.resolveToolResultId host mode options id).2) := by
  rw [extractToolResultId_eq] at hid
  unfold rewriteToolResultIds
  dsimp only
  rw [resolveIdFields_eq hid hagree]
  dsimp only
  split <;> rfl

/-- What a result is answered with: its ids are all the resolved id. -/
theorem rewriteToolResultIds_spec (hresult : isToolResult m = true)
    (hid : extractToolResultId m = some id) (hagree : ResultIdsAgree m)
    (hne : (r.resolveToolResultId host mode options id).1 ≠ []) :
    (rewriteToolResultIds host mode options r m).2 =
        (r.resolveToolResultId host mode options id).2 ∧
      (∀ given, given ∈ resultIds ((rewriteToolResultIds host mode options r m).1.getD m) ↔
        given = (r.resolveToolResultId host mode options id).1) ∧
      SameButIds m ((rewriteToolResultIds host mode options r m).1.getD m) := by
  have hobject : m.isObject = true := by
    rw [extractToolResultId_eq] at hid
    cases hcall : idField? m "toolCallId".toList with
    | some callId => exact isObject_of_idField? hcall
    | none =>
      rw [hcall, none_or] at hid
      exact isObject_of_idField? hid
  rw [rewriteToolResultIds_eq hid hagree]
  generalize (r.resolveToolResultId host mode options id).1 = next at hne ⊢
  -- the fields of what is returned
  have hids : ∀ out, idField? out "toolCallId".toList =
        (idField? m "toolCallId".toList).map (fun _ => next) →
      idField? out "toolUseId".toList = (idField? m "toolUseId".toList).map (fun _ => next) →
      ∀ given, given ∈ resultIds out ↔ given = next := by
    intro out hout hout' given
    rw [extractToolResultId_eq] at hid
    unfold resultIds
    rw [hout, hout']
    cases hcall : idField? m "toolCallId".toList with
    | some callId =>
      cases idField? m "toolUseId".toList with
      | some useId => simp
      | none => simp
    | none =>
      rw [hcall, none_or] at hid
      rw [hid]
      simp
  refine ⟨rfl, ?_⟩
  split
  · next hsame =>
    exact ⟨hids m hsame.1.symm hsame.2.symm, .same⟩
  · have hmap : ∀ (id : Option Str) (text : Str), id.map (fun _ => next) = some text →
        text ≠ [] := by
      intro id text hsome
      obtain ⟨_, _, hnext⟩ := Option.map_eq_some_iff.mp hsome
      rw [← hnext]
      exact hne
    have hsome : ∀ id : Option Str, (id.map fun _ => next).isSome = id.isSome := fun id =>
      isSome_map
    refine ⟨hids _ ?_ ?_, .result hresult (hsome _) (hsome _)⟩
    · show idField? (withIdField (withIdField m _ _) _ _) _ = _
      rw [idField?_withIdField_of_ne (isObject_withIdField hobject _ _) (by decide)]
      exact idField?_withIdField hobject _ (hmap _) (hsome _)
    · show idField? (withIdField (withIdField m _ _) _ _) _ = _
      apply idField?_withIdField (isObject_withIdField hobject _ _) _ (hmap _)
      rw [idField?_withIdField_of_ne hobject (by decide)]
      exact hsome _

/-! ## Roles -/

theorem messageRole_withIdField (h : m.isObject = true)
    (hne : "role".toList ≠ key) (id : Option Str) :
    messageRole (withIdField m key id) = messageRole m := by
  cases id with
  | some text => exact stringField?_withStringField_of_ne h hne text
  | none => rfl

theorem isObject_of_messageRole {role : Str} (h : messageRole m = some role) :
    m.isObject = true := isObject_of_stringField? h

/-- The role stays. -/
theorem SameButIds.messageRole_eq {m' : Json} (h : SameButIds m m') :
    messageRole m' = messageRole m := by
  cases h with
  | same => rfl
  | calls hassistant _ _ =>
    exact messageRole_withContent (isObject_of_messageRole (of_decide_eq_true hassistant)) _
  | result hresult _ _ =>
    have hobject := isObject_of_messageRole (of_decide_eq_true hresult)
    rw [messageRole_withIdField (isObject_withIdField hobject _ _) (by decide),
      messageRole_withIdField hobject (by decide)]

end

end OpenClaw
