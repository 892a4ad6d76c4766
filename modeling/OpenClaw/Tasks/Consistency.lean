import OpenClaw.Lib.Run
import OpenClaw.Tasks.Indexes

/-!
# Indexes and timestamps stay consistent

A record is written in three places: a patch replaces one, a creation inserts one, and a
restored snapshot brings many. Each place normalises the times of what it writes and
changes the indexes with it, so a step keeps the indexes exact and the times in order.

The tests of `updateTask` compare the raw run id, the trimmed session keys and the trimmed
flow id. A rebuild is right for any patch; where no test fires the keys are the same.
-/

namespace OpenClaw

open SecondaryIndex RegistryOutcome

/-! ## Consistent maps -/

/-- Each index lists each task under exactly the trimmed, non-empty keys of its record. -/
structure TaskMemory.Indexed (mem : TaskMemory) : Prop where
  byRunId : Exact mem.tasks runIdIndexKeys mem.taskIdsByRunId
  byOwnerKey : Exact mem.tasks ownerIndexKeys mem.taskIdsByOwnerKey
  byParentFlowId : Exact mem.tasks parentFlowIdIndexKeys mem.taskIdsByParentFlowId
  byRelatedSessionKey :
    Exact mem.tasks getTaskRelatedSessionIndexKeys mem.taskIdsByRelatedSessionKey

/-- `createdAt` is the floor of the start, and the start (or `createdAt`) that of the rest. -/
structure TaskRecord.TimesOrdered (task : TaskRecord) : Prop where
  startedAt : ∀ startedAt ∈ task.startedAt, task.createdAt ≤ startedAt
  lastEventAt : ∀ lastEventAt ∈ task.lastEventAt, task.startedAt.getD task.createdAt ≤ lastEventAt
  endedAt : ∀ endedAt ∈ task.endedAt, task.startedAt.getD task.createdAt ≤ endedAt

structure TaskMemory.Consistent (mem : TaskMemory) : Prop where
  indexed : mem.Indexed
  times : ∀ task ∈ mem.tasks.entries, task.TimesOrdered

/-! ## Timestamps -/

variable (task : TaskRecord)

theorem timesOrdered_normalizeTaskTimestamps : (normalizeTaskTimestamps task).TimesOrdered := by
  have hmax : ∀ (time : Option ℤ) (floor : ℤ), ∀ t ∈ time.map (max · floor), floor ≤ t := by
    intro time floor t ht
    rw [Option.mem_map] at ht
    obtain ⟨s, -, rfl⟩ := ht
    exact le_max_right s floor
  exact ⟨hmax _ _, hmax _ _, hmax _ _⟩

theorem TaskRecord.TimesOrdered.stampCleanupAfter {task : TaskRecord} (h : task.TimesOrdered)
    (terminalAt : ℤ) : (stampCleanupAfter task terminalAt).TimesOrdered := by
  unfold OpenClaw.stampCleanupAfter
  split_ifs
  · exact ⟨h.startedAt, h.lastEventAt, h.endedAt⟩
  · exact h

variable (env : TaskSurroundings) (current : TaskRecord) (patch : TaskPatch)

theorem timesOrdered_nextTask : (nextTask env current patch).TimesOrdered :=
  (timesOrdered_normalizeTaskTimestamps _).stampCleanupAfter _

theorem timesOrdered_newTaskRecord (taskId : Str)
    (params : CreateTaskParams) : (newTaskRecord env taskId params).TimesOrdered :=
  (timesOrdered_normalizeTaskTimestamps _).stampCleanupAfter _

/-! ## Records keep their run id -/

theorem stampCleanupAfter_runId (terminalAt : ℤ) :
    (stampCleanupAfter task terminalAt).runId = task.runId := by
  unfold stampCleanupAfter
  split_ifs <;> rfl

theorem nextTask_runId : (nextTask env current patch).runId = (patch.apply current).runId :=
  stampCleanupAfter_runId _ _

theorem TaskUpdate.patch_runId
    (update : TaskUpdate) : ((update.patch env current).apply current).runId = current.runId := by
  cases update <;> rfl

/-! ## How far a function came -/

namespace RegistryOutcome

variable (o : RegistryOutcome) (store : TaskRegistryStore)

variable (f : TaskMemory → TaskMemory)

@[simp]
theorem change_memory : (o.change f).memory = if o.storeThrew then o.memory else f o.memory := by
  unfold change
  split_ifs <;> rfl

@[simp]
theorem change_storeThrew : (o.change f).storeThrew = o.storeThrew := by
  unfold change
  split_ifs <;> rfl

@[simp]
theorem persist_memory (call : TaskMemory → TaskStoreCall) :
    (o.persist store call).memory = o.memory := by
  unfold persist
  split_ifs <;> rfl

/-- Nothing after a call that throws is reached. -/
theorem storeThrew_of_persist {o : RegistryOutcome} {store : TaskRegistryStore}
    {call : TaskMemory → TaskStoreCall} (h : (o.persist store call).storeThrew = false) :
    o.storeThrew = false := by
  unfold persist at h
  split_ifs at h with hthrew
  · exact h
  · exact Bool.eq_false_iff.mpr hthrew

end RegistryOutcome

section Writers

variable (env : TaskMemorySurroundings) (store : TaskRegistryStore) (o : RegistryOutcome)

/-- An update replaces the record, unless it is not found or not reached. -/
theorem updateTaskEntry_memory (taskId : Str) (patch : TaskRecord → TaskPatch) :
    (updateTaskEntry env store o taskId patch).memory = o.memory ∨
      ∃ current, o.memory.tasks.find taskId = some current ∧
        (updateTaskEntry env store o taskId patch).memory =
          replaceTask current (nextTask env.toTaskSurroundings current (patch current))
            o.memory := by
  unfold updateTaskEntry
  cases hfind : o.memory.tasks.find taskId with
  | none => exact .inl rfl
  | some current =>
    dsimp only
    rw [persist_memory, change_memory]
    split_ifs
    · exact .inl rfl
    · exact .inr ⟨current, rfl, rfl⟩

theorem upsertTaskDeliveryState_memory (state : TaskDeliveryState) :
    (upsertTaskDeliveryState env store o state).memory = o.memory ∨
      ∃ next : TaskDeliveryState, next.taskId = state.taskId ∧
        (upsertTaskDeliveryState env store o state).memory =
          { o.memory with taskDeliveryStates := o.memory.taskDeliveryStates.set next } := by
  unfold upsertTaskDeliveryState
  dsimp only
  split_ifs
  · exact .inl rfl
  · rw [persist_memory, change_memory]
    split_ifs
    · exact .inl rfl
    · refine .inr ⟨_, ?_, rfl⟩
      rfl

theorem deleteTaskRecordById_memory (mem : TaskMemory) (taskId : Str) :
    (deleteTaskRecordById store mem taskId).memory = mem ∨
      ∃ current, mem.tasks.find taskId = some current ∧
        (deleteTaskRecordById store mem taskId).memory = removeTask taskId current mem := by
  unfold deleteTaskRecordById
  cases hfind : mem.tasks.find taskId with
  | none => exact .inl rfl
  | some current => exact .inr ⟨current, rfl, by simp⟩

theorem mergeRequesterOrigin_cases (mem : TaskMemory) (taskId : Str)
    (requesterOrigin : Option DeliveryContext) :
    mergeRequesterOrigin env store mem taskId requesterOrigin = { memory := mem } ∨
      ∃ state : TaskDeliveryState, state.taskId = taskId ∧
        mergeRequesterOrigin env store mem taskId requesterOrigin =
          upsertTaskDeliveryState env store { memory := mem } state := by
  unfold mergeRequesterOrigin
  dsimp only
  split_ifs
  · refine .inr ⟨_, ?_, rfl⟩
    rfl
  · exact .inl rfl

/-- A link is an update with a patch that keeps the run id, or nothing. -/
theorem linkTaskEntryToFlow_cases (mem : TaskMemory) (taskId flowId : Str) :
    (∀ store, linkTaskEntryToFlow env store mem taskId flowId = { memory := mem }) ∨
      ∃ patch : TaskPatch, (∀ task, (patch.apply task).runId = task.runId) ∧
        ∀ store, linkTaskEntryToFlow env store mem taskId flowId =
          updateTaskEntry env store { memory := mem } taskId fun _ => patch := by
  unfold linkTaskEntryToFlow
  split_ifs
  · exact .inl fun _ => rfl
  · cases mem.tasks.find taskId with
    | none => exact .inl fun _ => rfl
    | some current =>
      dsimp only
      split_ifs
      · exact .inl fun _ => rfl
      · exact .inl fun _ => rfl
      · exact .inr ⟨_, fun _ => rfl, fun _ => rfl⟩

end Writers

/-! ## Exact indexes -/

theorem indexed_cleared : TaskMemory.cleared.Indexed :=
  ⟨exact_empty _, exact_empty _, exact_empty _, exact_empty _⟩

/-- The indexes depend on nothing but the tasks. -/
theorem TaskMemory.Indexed.congr {mem mem' : TaskMemory} (h : mem.Indexed)
    (htasks : mem'.tasks = mem.tasks) (hrun : mem'.taskIdsByRunId = mem.taskIdsByRunId)
    (howner : mem'.taskIdsByOwnerKey = mem.taskIdsByOwnerKey)
    (hflow : mem'.taskIdsByParentFlowId = mem.taskIdsByParentFlowId)
    (hsession : mem'.taskIdsByRelatedSessionKey = mem.taskIdsByRelatedSessionKey) :
    mem'.Indexed := by
  constructor
  · rw [htasks, hrun]
    exact h.byRunId
  · rw [htasks, howner]
    exact h.byOwnerKey
  · rw [htasks, hflow]
    exact h.byParentFlowId
  · rw [htasks, hsession]
    exact h.byRelatedSessionKey

theorem indexed_rebuildIndexes (mem : TaskMemory) : (rebuildIndexes mem).Indexed :=
  ⟨exact_rebuild _ _, exact_rebuild _ _, exact_rebuild _ _, exact_rebuild _ _⟩

section Replace

variable {mem : TaskMemory} {current next : TaskRecord}

theorem replaceTask_tasks : (replaceTask current next mem).tasks = mem.tasks.set next := by
  unfold replaceTask
  dsimp only
  split_ifs <;> rfl

theorem replaceTask_taskDeliveryStates :
    (replaceTask current next mem).taskDeliveryStates = mem.taskDeliveryStates := by
  unfold replaceTask
  dsimp only
  split_ifs <;> rfl

theorem replaceTask_byRunId : (replaceTask current next mem).taskIdsByRunId =
    if runIdIndexChanged current next then .rebuild (mem.tasks.set next) runIdIndexKeys
    else mem.taskIdsByRunId := by
  unfold replaceTask
  dsimp only
  split_ifs <;> rfl

theorem replaceTask_byOwnerKey : (replaceTask current next mem).taskIdsByOwnerKey =
    if sessionIndexChanged current next then
      (mem.taskIdsByOwnerKey.removeAll (ownerIndexKeys current) next.taskId).addAll
        (ownerIndexKeys next) next.taskId
    else mem.taskIdsByOwnerKey := by
  unfold replaceTask
  dsimp only
  split_ifs <;> rfl

theorem replaceTask_byParentFlowId : (replaceTask current next mem).taskIdsByParentFlowId =
    if parentFlowIndexChanged current next then
      (mem.taskIdsByParentFlowId.removeAll (parentFlowIdIndexKeys current) next.taskId).addAll
        (parentFlowIdIndexKeys next) next.taskId
    else mem.taskIdsByParentFlowId := by
  unfold replaceTask
  dsimp only
  split_ifs <;> rfl

theorem replaceTask_byRelatedSessionKey :
    (replaceTask current next mem).taskIdsByRelatedSessionKey =
      if sessionIndexChanged current next then
        (mem.taskIdsByRelatedSessionKey.removeAll (getTaskRelatedSessionIndexKeys current)
          next.taskId).addAll (getTaskRelatedSessionIndexKeys next) next.taskId
      else mem.taskIdsByRelatedSessionKey := by
  unfold replaceTask
  dsimp only
  split_ifs <;> rfl

theorem keys_of_session_same (h : sessionIndexChanged current next = false) :
    ownerIndexKeys current = ownerIndexKeys next ∧
      getTaskRelatedSessionIndexKeys current = getTaskRelatedSessionIndexKeys next := by
  unfold sessionIndexChanged at h
  rw [Bool.or_eq_false_iff, decide_eq_false_iff_not, decide_eq_false_iff_not, not_not,
    not_not] at h
  unfold ownerIndexKeys getTaskRelatedSessionIndexKeys
  rw [h.1, h.2]
  exact ⟨rfl, rfl⟩

theorem keys_of_parentFlow_same (h : parentFlowIndexChanged current next = false) :
    parentFlowIdIndexKeys current = parentFlowIdIndexKeys next := by
  unfold parentFlowIndexChanged at h
  rw [decide_eq_false_iff_not, not_not] at h
  have hbind : ∀ task : TaskRecord, parentFlowIdIndexKeys task =
      ((task.parentFlowId.map trim).bind nonEmptyText?).toList := by
    intro task
    unfold parentFlowIdIndexKeys normalizeOptionalString
    rw [Option.bind_map]
    rfl
  rw [hbind, hbind, h]

/-- A patch that does not empty the run id keeps the indexes exact. -/
theorem TaskMemory.Indexed.replaceTask (h : mem.Indexed)
    (hcurrent : mem.tasks.find next.taskId = some current)
    (hrun : runIdIndexChanged current next = false → next.runId = current.runId) :
    (replaceTask current next mem).Indexed := by
  constructor
  · rw [replaceTask_tasks, replaceTask_byRunId]
    split_ifs with hchanged
    · exact exact_rebuild _ _
    · have hkeys : runIdIndexKeys current = runIdIndexKeys next := by
        unfold runIdIndexKeys
        rw [hrun (Bool.eq_false_iff.mpr hchanged)]
      exact h.byRunId.replace_same hcurrent fun k => by rw [hkeys]
  · rw [replaceTask_tasks, replaceTask_byOwnerKey]
    split_ifs with hchanged
    · exact h.byOwnerKey.replace hcurrent
    · have hkeys := keys_of_session_same (Bool.eq_false_iff.mpr hchanged)
      exact h.byOwnerKey.replace_same hcurrent fun k => by rw [hkeys.1]
  · rw [replaceTask_tasks, replaceTask_byParentFlowId]
    split_ifs with hchanged
    · exact h.byParentFlowId.replace hcurrent
    · have hkeys := keys_of_parentFlow_same (Bool.eq_false_iff.mpr hchanged)
      exact h.byParentFlowId.replace_same hcurrent fun k => by rw [hkeys]
  · rw [replaceTask_tasks, replaceTask_byRelatedSessionKey]
    split_ifs with hchanged
    · exact h.byRelatedSessionKey.replace hcurrent
    · have hkeys := keys_of_session_same (Bool.eq_false_iff.mpr hchanged)
      exact h.byRelatedSessionKey.replace_same hcurrent fun k => by rw [hkeys.2]

end Replace

theorem TaskMemory.Indexed.insert {mem : TaskMemory} (h : mem.Indexed) {record : TaskRecord}
    (hnew : mem.tasks.find record.taskId = none) :
    (addIndexEntries record { mem with tasks := mem.tasks.set record }).Indexed :=
  ⟨h.byRunId.insert hnew, h.byOwnerKey.insert hnew, h.byParentFlowId.insert hnew,
    h.byRelatedSessionKey.insert hnew⟩

theorem TaskMemory.Indexed.removeTask {mem : TaskMemory} (h : mem.Indexed) {taskId : Str}
    {current : TaskRecord} (hcurrent : mem.tasks.find taskId = some current) :
    (removeTask taskId current mem).Indexed :=
  ⟨exact_rebuild _ _, h.byOwnerKey.erase hcurrent, h.byParentFlowId.erase hcurrent,
    h.byRelatedSessionKey.erase hcurrent⟩

/-! ## Steps -/

section Steps

variable {env : TaskMemorySurroundings} {store : TaskRegistryStore} {mem : TaskMemory}

theorem consistent_cleared : TaskMemory.cleared.Consistent :=
  ⟨indexed_cleared, fun _ htask => absurd htask List.not_mem_nil⟩

theorem TaskMemory.Consistent.withStates (h : mem.Consistent) (states : TaskDeliveryStateMap) :
    { mem with taskDeliveryStates := states }.Consistent :=
  ⟨h.indexed.congr rfl rfl rfl rfl rfl, h.times⟩

theorem TaskMemory.Indexed.upsertState {o : RegistryOutcome} (h : o.memory.Indexed)
    (state : TaskDeliveryState) : (upsertTaskDeliveryState env store o state).memory.Indexed := by
  rcases upsertTaskDeliveryState_memory env store o state with heq | ⟨next, -, heq⟩
  · rw [heq]
    exact h
  · rw [heq]
    exact h.congr rfl rfl rfl rfl rfl

theorem TaskMemory.Consistent.upsertState {o : RegistryOutcome} (h : o.memory.Consistent)
    (state : TaskDeliveryState) : (upsertTaskDeliveryState env store o state).memory.Consistent := by
  refine ⟨h.indexed.upsertState state, ?_⟩
  rcases upsertTaskDeliveryState_memory env store o state with heq | ⟨next, -, heq⟩
  · rw [heq]
    exact h.times
  · rw [heq]
    exact h.times

/-- Whether or not the store throws, an update leaves exact indexes. -/
theorem TaskMemory.Indexed.updateEntry {o : RegistryOutcome} (h : o.memory.Indexed) {taskId : Str}
    {patch : TaskRecord → TaskPatch}
    (hpatch : ∀ current, ((patch current).apply current).runId = current.runId) :
    (updateTaskEntry env store o taskId patch).memory.Indexed := by
  rcases updateTaskEntry_memory env store o taskId patch with heq | ⟨current, hcurrent, heq⟩
  · rw [heq]
    exact h
  · rw [heq]
    have hid : (nextTask env.toTaskSurroundings current (patch current)).taskId = taskId := by
      rw [nextTask_taskId]
      exact Keyed.key_of_find hcurrent
    refine h.replaceTask (hid ▸ hcurrent) fun _ => ?_
    rw [nextTask_runId, hpatch]

theorem TaskMemory.Consistent.updateEntry {o : RegistryOutcome} (h : o.memory.Consistent)
    {taskId : Str} {patch : TaskRecord → TaskPatch}
    (hpatch : ∀ current, ((patch current).apply current).runId = current.runId) :
    (updateTaskEntry env store o taskId patch).memory.Consistent := by
  refine ⟨h.indexed.updateEntry hpatch, ?_⟩
  rcases updateTaskEntry_memory env store o taskId patch with heq | ⟨current, -, heq⟩
  · rw [heq]
    exact h.times
  · rw [heq, replaceTask_tasks]
    intro task htask
    rcases Keyed.mem_set.mp htask with rfl | ⟨hold, -⟩
    · exact timesOrdered_nextTask _ _ _
    · exact h.times task hold

section

variable (h : mem.Consistent)
include h

theorem TaskMemory.Consistent.insertTask {record : TaskRecord}
    (hnew : mem.tasks.find record.taskId = none) (htimes : record.TimesOrdered)
    {requesterOrigin : Option DeliveryContext}
    (hhealthy : (insertTask env store mem record requesterOrigin).storeThrew = false) :
    (insertTask env store mem record requesterOrigin).memory.Consistent := by
  unfold OpenClaw.insertTask at hhealthy ⊢
  dsimp only at hhealthy ⊢
  set o := upsertTaskDeliveryState env store
    { memory := { mem with tasks := mem.tasks.set record } } _ with ho
  have hreached : o.storeThrew = false := by
    rw [← o.change_storeThrew (addIndexEntries record)]
    exact storeThrew_of_persist hhealthy
  rw [persist_memory, change_memory, hreached]
  have hstates : ∃ states, o.memory =
      { mem with tasks := mem.tasks.set record, taskDeliveryStates := states } := by
    rcases upsertTaskDeliveryState_memory env store
      { memory := { mem with tasks := mem.tasks.set record } } _ with heq | ⟨next, -, heq⟩
    · exact ⟨mem.taskDeliveryStates, heq⟩
    · exact ⟨_, heq⟩
  obtain ⟨states, hstates⟩ := hstates
  rw [hstates]
  refine ⟨(h.withStates states).indexed.insert hnew, ?_⟩
  intro task htask
  rcases Keyed.mem_set.mp htask with rfl | ⟨hold, -⟩
  · exact htimes
  · exact h.times task hold

theorem TaskMemory.Consistent.mergeIntoExistingTask (existing : TaskRecord)
    (params : CreateTaskParams) (requesterOrigin : Option DeliveryContext) :
    (mergeIntoExistingTask env store mem existing params requesterOrigin).memory.Consistent := by
  unfold OpenClaw.mergeIntoExistingTask
  dsimp only
  have hmemory :
      (mergeRequesterOrigin env store mem existing.taskId requesterOrigin).memory.Consistent := by
    rcases mergeRequesterOrigin_cases env store mem existing.taskId requesterOrigin with
      heq | ⟨state, -, heq⟩
    · rw [heq]
      exact h
    · rw [heq]
      exact TaskMemory.Consistent.upsertState h state
  split_ifs
  · exact hmemory
  · exact hmemory
  · exact hmemory.updateEntry fun _ => rfl

theorem TaskMemory.Consistent.createTaskEntry {taskId : Str}
    (hnew : mem.tasks.find taskId = none) {params : CreateTaskParams}
    {requesterOrigin : Option DeliveryContext}
    (hhealthy : (createTaskEntry env store mem taskId params requesterOrigin).storeThrew = false) :
    (createTaskEntry env store mem taskId params requesterOrigin).memory.Consistent := by
  unfold OpenClaw.createTaskEntry at hhealthy ⊢
  dsimp only at hhealthy ⊢
  split_ifs at hhealthy ⊢
  · exact h
  · exact h
  · cases hexisting : mem.existingTaskForCreate params with
    | some existing => exact h.mergeIntoExistingTask existing params requesterOrigin
    | none =>
      rw [hexisting] at hhealthy
      have hid := newTaskRecord_taskId env.toTaskSurroundings taskId params
      exact h.insertTask (by rw [hid]; exact hnew) (timesOrdered_newTaskRecord _ _ _) hhealthy

theorem TaskMemory.Consistent.linkTaskEntryToFlow (taskId flowId : Str) :
    (linkTaskEntryToFlow env store mem taskId flowId).memory.Consistent := by
  rcases linkTaskEntryToFlow_cases env mem taskId flowId with heq | ⟨patch, hpatch, heq⟩
  · rw [heq]
    exact h
  · rw [heq]
    exact TaskMemory.Consistent.updateEntry h fun _ => hpatch _

theorem TaskMemory.Consistent.deleteTaskRecordById (taskId : Str) :
    (deleteTaskRecordById store mem taskId).memory.Consistent := by
  rcases deleteTaskRecordById_memory store mem taskId with heq | ⟨current, hcurrent, heq⟩
  · rw [heq]
    exact h
  · rw [heq]
    refine ⟨h.indexed.removeTask hcurrent, ?_⟩
    intro task htask
    exact h.times task (List.mem_of_mem_filter htask)

theorem TaskMemory.Consistent.performTaskCall {call : TaskCall}
    (hfresh : call.Fresh mem) (hhealthy : (performTaskCall env store mem call).storeThrew = false) :
    (performTaskCall env store mem call).memory.Consistent := by
  cases call with
  | create taskId params requesterOrigin => exact h.createTaskEntry hfresh hhealthy
  | update taskId update =>
    exact TaskMemory.Consistent.updateEntry h fun current => update.patch_runId _ current
  | setDeliveryState state => exact TaskMemory.Consistent.upsertState h state
  | linkToFlow taskId flowId => exact h.linkTaskEntryToFlow taskId flowId
  | delete taskId => exact h.deleteTaskRecordById taskId

/-- A restored record is normalised, and the indexes are built from all of them. -/
theorem TaskMemory.Consistent.restore (loaded : Option TaskRegistrySnapshot) :
    (restoreTaskMemoryOnce loaded mem).Consistent := by
  unfold restoreTaskMemoryOnce
  have hflag : { mem with restoreAttempted := true }.Consistent :=
    ⟨h.indexed.congr rfl rfl rfl rfl rfl, h.times⟩
  split_ifs
  · exact h
  · cases loaded with
    | none => exact hflag
    | some restored =>
      dsimp only
      split_ifs
      · exact hflag
      · refine ⟨indexed_rebuildIndexes _, ?_⟩
        show ∀ task ∈ (restored.tasks.entries.foldl
          (fun tasks task => tasks.set (normalizeTaskTimestamps task)) mem.tasks).entries, _
        have hset : ∀ (rows : List TaskRecord) (tasks : TaskMap),
            (∀ task ∈ tasks.entries, task.TimesOrdered) →
            ∀ task ∈ (rows.foldl (fun tasks task => tasks.set (normalizeTaskTimestamps task))
              tasks).entries, task.TimesOrdered := by
          intro rows
          induction rows with
          | nil => exact fun tasks htasks => htasks
          | cons row rows ih =>
            intro tasks htasks
            apply ih
            intro task htask
            rcases Keyed.mem_set.mp htask with rfl | ⟨hold, -⟩
            · exact timesOrdered_normalizeTaskTimestamps row
            · exact htasks task hold
        exact hset _ _ h.times

theorem TaskMemory.Consistent.step {mem' : TaskMemory} {label : TaskRegistrySnapshot × TaskMemoryAction} (hstep : taskMemoryStep mem label mem') : mem'.Consistent := by
  obtain ⟨loaded, action⟩ := label
  cases action with
  | call env store call =>
    obtain ⟨hfresh, hhealthy, rfl⟩ := hstep
    exact (h.restore _).performTaskCall hfresh hhealthy
  | reload =>
    have heq : mem' = restoreTaskMemoryOnce (some loaded) .cleared := hstep
    rw [heq]
    exact consistent_cleared.restore _

end

end Steps

/-- After any sequence of calls whose store calls succeed, the indexes list the tasks under
exactly their trimmed, non-empty keys, and the times of every record are in order. -/
theorem taskMemory_consistent {labels : List (TaskRegistrySnapshot × TaskMemoryAction)}
    {mem : TaskMemory} (hrun : Lts.Run taskMemoryStep .cleared labels mem) : mem.Consistent :=
  hrun.invariant TaskMemory.Consistent (fun h hstep => h.step hstep) consistent_cleared

/-! ## One task with a padded run id -/

def plainMemorySurroundings : TaskMemorySurroundings where
  now := 1000
  ownerSessionKey task := task.ownerKey
  canDeliver _ := false
  queueFails _ := false
  sanitizesToNothing _ := true
  parentFlowLinkAllowed _ _ _ := true
  normalizeDeliveryContext := some

/-- A store that only saves snapshots, and never fails. -/
def snapshotStore : TaskRegistryStore := ⟨false, false, false, false, false, false, fun _ _ => false⟩

def paddedTask : CreateTaskParams :=
  { runtime := .acp
    requesterSessionKey := some "agent:main".toList
    childSessionKey := some "agent:main ".toList
    runId := some " run".toList
    task := "build".toList
    startedAt := some 400 }

def paddedTaskMemory : TaskMemory :=
  (performTaskCall plainMemorySurroundings snapshotStore
    (restoreTaskMemoryOnce (some ⟨.empty, .empty⟩) .cleared)
    (.create "task".toList paddedTask (some { channel := some "telegram".toList }))).memory

theorem taskMemory_consistent_padded : paddedTaskMemory.Consistent := by
  have hstep : taskMemoryStep .cleared (⟨.empty, .empty⟩, .call plainMemorySurroundings
      snapshotStore (.create "task".toList paddedTask (some { channel := some "telegram".toList })))
      paddedTaskMemory := ⟨rfl, by decide +kernel, rfl⟩
  exact taskMemory_consistent (.single hstep)

end OpenClaw
