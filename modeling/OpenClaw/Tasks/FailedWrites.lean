import OpenClaw.Tasks.Consistency

/-!
# What a failed write of the store leaves behind

The registry writes to memory first and to the store after that, and nothing is rolled
back when the store throws. What a failed call leaves is therefore a change of the one task
that it writes. An update, a link and a deletion make their whole change before they call
the store, so they leave what they leave when the store accepts it.
-/

namespace OpenClaw

open SecondaryIndex RegistryOutcome TaskMemory.Indexed Keyed

/-! ## Changes of one task -/

/-- Nothing that belongs to another task is different. A deletion builds the index by run
again, which then lists another task as its record says. -/
structure ChangesOnly (taskId : Str) (mem mem' : TaskMemory) : Prop where
  tasks : ∀ other, other ≠ taskId → mem'.tasks.find other = mem.tasks.find other
  taskDeliveryStates : ∀ other, other ≠ taskId →
    mem'.taskDeliveryStates.find other = mem.taskDeliveryStates.find other
  byRunId : ∀ key other, other ≠ taskId →
    (other ∈ mem'.taskIdsByRunId.ids key ↔ other ∈ mem.taskIdsByRunId.ids key) ∨
      (other ∈ mem'.taskIdsByRunId.ids key ↔
        ∃ task, mem.tasks.find other = some task ∧ key ∈ runIdIndexKeys task)
  byOwnerKey : ∀ key other, other ≠ taskId →
    (other ∈ mem'.taskIdsByOwnerKey.ids key ↔ other ∈ mem.taskIdsByOwnerKey.ids key)
  byParentFlowId : ∀ key other, other ≠ taskId →
    (other ∈ mem'.taskIdsByParentFlowId.ids key ↔ other ∈ mem.taskIdsByParentFlowId.ids key)
  byRelatedSessionKey : ∀ key other, other ≠ taskId →
    (other ∈ mem'.taskIdsByRelatedSessionKey.ids key ↔
      other ∈ mem.taskIdsByRelatedSessionKey.ids key)

section ChangesOnly

variable {taskId : Str} {mem mem' mem'' : TaskMemory}

theorem ChangesOnly.refl (taskId : Str) (mem : TaskMemory) : ChangesOnly taskId mem mem where
  tasks _ _ := rfl
  taskDeliveryStates _ _ := rfl
  byRunId _ _ _ := .inl Iff.rfl
  byOwnerKey _ _ _ := Iff.rfl
  byParentFlowId _ _ _ := Iff.rfl
  byRelatedSessionKey _ _ _ := Iff.rfl

theorem ChangesOnly.trans (h : ChangesOnly taskId mem mem') (h' : ChangesOnly taskId mem' mem'') :
    ChangesOnly taskId mem mem'' where
  tasks other hne := (h'.tasks other hne).trans (h.tasks other hne)
  taskDeliveryStates other hne :=
    (h'.taskDeliveryStates other hne).trans (h.taskDeliveryStates other hne)
  byRunId key other hne := by
    rcases h'.byRunId key other hne with hsame | hrecord
    · rw [hsame]
      exact h.byRunId key other hne
    · rw [hrecord, h.tasks other hne]
      exact .inr Iff.rfl
  byOwnerKey key other hne := (h'.byOwnerKey key other hne).trans (h.byOwnerKey key other hne)
  byParentFlowId key other hne :=
    (h'.byParentFlowId key other hne).trans (h.byParentFlowId key other hne)
  byRelatedSessionKey key other hne :=
    (h'.byRelatedSessionKey key other hne).trans (h.byRelatedSessionKey key other hne)

theorem mem_addAll_of_ne {index : SecondaryIndex Str Str} {keys : List Str} {other : Str}
    (hne : other ≠ taskId) (key : Str) :
    other ∈ (index.addAll keys taskId).ids key ↔ other ∈ index.ids key := by
  rw [mem_addAll]
  simp [hne]

theorem mem_removeAll_of_ne {index : SecondaryIndex Str Str} {keys : List Str} {other : Str}
    (hne : other ≠ taskId) (key : Str) :
    other ∈ (index.removeAll keys taskId).ids key ↔ other ∈ index.ids key := by
  rw [mem_removeAll]
  simp [hne]

/-- A record that is set before the indexes are told of it. -/
theorem changesOnly_set (mem : TaskMemory) (record : TaskRecord) :
    ChangesOnly record.taskId mem { mem with tasks := mem.tasks.set record } :=
  { ChangesOnly.refl record.taskId mem with
    tasks := fun _ hne => find_set_of_ne _ hne }

theorem changesOnly_addIndexEntries (record : TaskRecord) (mem : TaskMemory) :
    ChangesOnly record.taskId mem (addIndexEntries record mem) where
  tasks _ _ := rfl
  taskDeliveryStates _ _ := rfl
  byRunId key _ hne := .inl (mem_addAll_of_ne hne key)
  byOwnerKey key _ hne := mem_addAll_of_ne hne key
  byParentFlowId key _ hne := mem_addAll_of_ne hne key
  byRelatedSessionKey key _ hne := mem_addAll_of_ne hne key

theorem changesOnly_replaceTask (mem : TaskMemory) {current next : TaskRecord}
    (hrun : next.runId = current.runId) :
    ChangesOnly next.taskId mem (replaceTask current next mem) where
  tasks other hne := by
    rw [replaceTask_tasks]
    exact find_set_of_ne _ hne
  taskDeliveryStates other _ := by rw [replaceTask_taskDeliveryStates]
  byRunId key other _ := by
    have hchanged : runIdIndexChanged current next = false := by
      unfold runIdIndexChanged
      simp [hrun]
    rw [replaceTask_byRunId, hchanged]
    exact .inl Iff.rfl
  byOwnerKey key other hne := by
    rw [replaceTask_byOwnerKey]
    split_ifs
    · rw [mem_addAll_of_ne hne, mem_removeAll_of_ne hne]
    · rfl
  byParentFlowId key other hne := by
    rw [replaceTask_byParentFlowId]
    split_ifs
    · rw [mem_addAll_of_ne hne, mem_removeAll_of_ne hne]
    · rfl
  byRelatedSessionKey key other hne := by
    rw [replaceTask_byRelatedSessionKey]
    split_ifs
    · rw [mem_addAll_of_ne hne, mem_removeAll_of_ne hne]
    · rfl

theorem changesOnly_removeTask (taskId : Str) (current : TaskRecord) (mem : TaskMemory) :
    ChangesOnly taskId mem (removeTask taskId current mem) where
  tasks other hne := by
    show (mem.tasks.erase taskId).find other = _
    rw [find_erase, if_neg hne]
  taskDeliveryStates other hne := by
    show (mem.taskDeliveryStates.erase taskId).find other = _
    rw [find_erase, if_neg hne]
  byRunId key other hne := by
    have hrebuilt := exact_rebuild (mem.tasks.erase taskId) runIdIndexKeys key other
    rw [find_erase, if_neg hne] at hrebuilt
    exact .inr hrebuilt
  byOwnerKey key _ hne := mem_removeAll_of_ne hne key
  byParentFlowId key _ hne := mem_removeAll_of_ne hne key
  byRelatedSessionKey key _ hne := mem_removeAll_of_ne hne key

end ChangesOnly

/-! ## Writers -/

section Writers

variable {env : TaskMemorySurroundings} {store : TaskRegistryStore} {mem : TaskMemory}

variable (o : RegistryOutcome) (state : TaskDeliveryState)

theorem changesOnly_upsertTaskDeliveryState :
    ChangesOnly state.taskId o.memory (upsertTaskDeliveryState env store o state).memory := by
  rcases upsertTaskDeliveryState_memory env store o state with heq | ⟨next, hid, heq⟩
  · rw [heq]
    exact .refl _ _
  · rw [heq, ← hid]
    exact { ChangesOnly.refl next.taskId o.memory with
      taskDeliveryStates := fun _ hne => find_set_of_ne _ hne }

theorem changesOnly_updateTaskEntry (taskId : Str) {patch : TaskRecord → TaskPatch}
    (hpatch : ∀ current, ((patch current).apply current).runId = current.runId) :
    ChangesOnly taskId o.memory (updateTaskEntry env store o taskId patch).memory := by
  rcases updateTaskEntry_memory env store o taskId patch with heq | ⟨current, hcurrent, heq⟩
  · rw [heq]
    exact .refl _ _
  · have hid : (nextTask env.toTaskSurroundings current (patch current)).taskId = taskId := by
      rw [nextTask_taskId]
      exact key_of_find hcurrent
    have hrun : (nextTask env.toTaskSurroundings current (patch current)).runId =
        current.runId := by
      rw [nextTask_runId, hpatch]
    have honly := changesOnly_replaceTask o.memory hrun
    rw [hid] at honly
    rw [heq]
    exact honly

variable (mem)

theorem changesOnly_mergeIntoExistingTask (existing : TaskRecord)
    (params : CreateTaskParams) (requesterOrigin : Option DeliveryContext) :
    ChangesOnly existing.taskId mem
      (mergeIntoExistingTask env store mem existing params requesterOrigin).memory := by
  unfold mergeIntoExistingTask
  dsimp only
  have horigin : ChangesOnly existing.taskId mem
      (mergeRequesterOrigin env store mem existing.taskId requesterOrigin).memory := by
    rcases mergeRequesterOrigin_cases env store mem existing.taskId requesterOrigin with
      heq | ⟨state, hid, heq⟩
    · rw [heq]
      exact .refl _ _
    · rw [heq, ← hid]
      exact changesOnly_upsertTaskDeliveryState { memory := mem } state
  split_ifs
  · exact horigin
  · exact horigin
  · exact horigin.trans (changesOnly_updateTaskEntry _ _ fun _ => rfl)

theorem changesOnly_deleteTaskRecordById (taskId : Str) :
    ChangesOnly taskId mem (deleteTaskRecordById store mem taskId).memory := by
  rcases deleteTaskRecordById_memory store mem taskId with heq | ⟨current, -, heq⟩
  · rw [heq]
    exact .refl _ _
  · rw [heq]
    exact changesOnly_removeTask taskId current mem

theorem changesOnly_insertTask (record : TaskRecord) (requesterOrigin : Option DeliveryContext) :
    ChangesOnly record.taskId mem (insertTask env store mem record requesterOrigin).memory := by
  unfold insertTask
  dsimp only
  rw [persist_memory, change_memory]
  have hstates := (changesOnly_set mem record).trans (@changesOnly_upsertTaskDeliveryState env store
      { memory := { mem with tasks := mem.tasks.set record } }
      { taskId := record.taskId
        requesterOrigin := requesterOrigin.bind env.normalizeDeliveryContext })
  split_ifs
  · exact hstates
  · exact hstates.trans (changesOnly_addIndexEntries record _)

/-- An update has changed memory before it calls the store. -/
theorem updateTaskEntry_healthy (taskId : Str) (patch : TaskRecord → TaskPatch) :
    (updateTaskEntry env store o taskId patch).memory =
      (updateTaskEntry env store.healthy o taskId patch).memory := by
  unfold updateTaskEntry
  cases o.memory.tasks.find taskId with
  | none => rfl
  | some current => simp only [persist_memory]

theorem upsertTaskDeliveryState_healthy : (upsertTaskDeliveryState env store o state).memory =
      (upsertTaskDeliveryState env store.healthy o state).memory := by
  unfold upsertTaskDeliveryState
  dsimp only
  split_ifs
  · rfl
  · rw [persist_memory, persist_memory]

theorem deleteTaskRecordById_healthy (taskId : Str) :
    (deleteTaskRecordById store mem taskId).memory =
      (deleteTaskRecordById store.healthy mem taskId).memory := by
  unfold deleteTaskRecordById
  cases mem.tasks.find taskId with
  | none => rfl
  | some current => simp only [persist_memory]

variable {mem}

end Writers

/-! ## Calls -/

/-- The task that a call writes. -/
def TaskCall.target (mem : TaskMemory) : TaskCall → Str
  | create taskId params _ => ((mem.existingTaskForCreate params).map (·.taskId)).getD taskId
  | update taskId _ => taskId
  | setDeliveryState state => state.taskId
  | linkToFlow taskId _ => taskId
  | delete taskId => taskId

def TaskCall.isCreate : TaskCall → Bool
  | create _ _ _ => true
  | _ => false

section Calls

variable (env : TaskMemorySurroundings) (store : TaskRegistryStore) (mem : TaskMemory)

theorem changesOnly_createTaskEntry (taskId : Str) (params : CreateTaskParams)
    (requesterOrigin : Option DeliveryContext) :
    ChangesOnly (((mem.existingTaskForCreate params).map (·.taskId)).getD taskId) mem
      (createTaskEntry env store mem taskId params requesterOrigin).memory := by
  unfold createTaskEntry
  dsimp only
  split_ifs
  · exact .refl _ _
  · exact .refl _ _
  · cases mem.existingTaskForCreate params with
    | some existing => exact changesOnly_mergeIntoExistingTask mem existing params _
    | none =>
      have honly := @changesOnly_insertTask env store mem
        (newTaskRecord env.toTaskSurroundings taskId params) requesterOrigin
      rw [newTaskRecord_taskId] at honly
      exact honly

theorem changesOnly_performTaskCall (call : TaskCall) :
    ChangesOnly (call.target mem) mem (performTaskCall env store mem call).memory := by
  cases call with
  | create taskId params requesterOrigin =>
    exact changesOnly_createTaskEntry env store mem taskId params requesterOrigin
  | update taskId update =>
    exact changesOnly_updateTaskEntry { memory := mem } taskId
      fun current => update.patch_runId env.toTaskSurroundings current
  | setDeliveryState state => exact changesOnly_upsertTaskDeliveryState { memory := mem } state
  | linkToFlow taskId flowId =>
    show ChangesOnly taskId mem (linkTaskEntryToFlow env store mem taskId flowId).memory
    rcases linkTaskEntryToFlow_cases env mem taskId flowId with heq | ⟨patch, hpatch, heq⟩
    · rw [heq]
      exact .refl _ _
    · rw [heq]
      exact changesOnly_updateTaskEntry { memory := mem } taskId fun _ => hpatch _
  | delete taskId => exact changesOnly_deleteTaskRecordById mem taskId

/-- Other than a creation, a call has changed memory before it calls the store. -/
theorem performTaskCall_healthy {call : TaskCall} (hcall : call.isCreate = false) :
    (performTaskCall env store mem call).memory =
      (performTaskCall env store.healthy mem call).memory := by
  cases call with
  | create => exact Bool.noConfusion hcall
  | update taskId update => exact updateTaskEntry_healthy _ _ _
  | setDeliveryState state => exact upsertTaskDeliveryState_healthy _ _
  | linkToFlow taskId flowId =>
    show (linkTaskEntryToFlow env store mem taskId flowId).memory =
      (linkTaskEntryToFlow env store.healthy mem taskId flowId).memory
    rcases linkTaskEntryToFlow_cases env mem taskId flowId with heq | ⟨patch, -, heq⟩
    · rw [heq, heq]
    · rw [heq, heq]
      exact updateTaskEntry_healthy _ _ _
  | delete taskId => exact deleteTaskRecordById_healthy _ _

variable {mem} in
/-- Other than a creation, a call leaves exact indexes, whether or not the store throws. -/
theorem TaskMemory.Indexed.performTaskCall (h : mem.Indexed) {call : TaskCall}
    (hcall : call.isCreate = false) : (performTaskCall env store mem call).memory.Indexed := by
  cases call with
  | create => exact Bool.noConfusion hcall
  | update taskId update =>
    exact updateEntry h (update.patch_runId env.toTaskSurroundings)
  | setDeliveryState state => exact upsertState h state
  | linkToFlow taskId flowId =>
    show (linkTaskEntryToFlow env store mem taskId flowId).memory.Indexed
    rcases linkTaskEntryToFlow_cases env mem taskId flowId with heq | ⟨patch, hpatch, heq⟩
    · rw [heq]
      exact h
    · rw [heq]
      exact updateEntry h fun _ => hpatch _
  | delete taskId =>
    show (deleteTaskRecordById store mem taskId).memory.Indexed
    rcases deleteTaskRecordById_memory store mem taskId with heq | ⟨current, hcurrent, heq⟩
    · rw [heq]
      exact h
    · rw [heq]
      exact h.removeTask hcurrent

end Calls

/-! ## A deletion that the store refuses -/

/-- A store that refuses every call. -/
def brokenStore : TaskRegistryStore := { snapshotStore with throws := fun _ _ => true }

end OpenClaw
