import OpenClaw.Lib.SecondaryIndex
import OpenClaw.Tasks.Lifecycle

/-!
# The maps and the indexes of the task registry

`TaskRegistry` searches all tasks where the code looks into an index. Here are the maps as
the code keeps them: the tasks, their delivery states, and the ids of the tasks by run, by
owner, by flow and by session. Every writer changes the indexes along with the tasks.

A call of the store may throw. What a function did to the maps before stays done, and
what comes after is not reached; a `RegistryOutcome` says how far it came.
-/

namespace OpenClaw

/-! ## The maps -/

/-- Where a requester is answered. -/
structure DeliveryContext where
  channel : Option Str := none
  «to» : Option Str := none
  accountId : Option Str := none
  threadId : Option Str := none
deriving DecidableEq

structure TaskDeliveryState where
  taskId : Str
  requesterOrigin : Option DeliveryContext := none
  lastNotifiedEventAt : Option ℤ := none
deriving DecidableEq

abbrev TaskDeliveryStateMap := Keyed TaskDeliveryState TaskDeliveryState.taskId

variable (task : TaskRecord)

/-- The keys of `addRunIdIndex`. -/
def runIdIndexKeys : List Str := (normalizeOptionalString task.runId).toList

/-- The keys of `addOwnerKeyIndex` and `deleteOwnerKeyIndex`. -/
def ownerIndexKeys : List Str :=
  (normalizeOptionalString (some task.ownerKey)).toList

/-- The keys of `addParentFlowIdIndex` and `deleteParentFlowIdIndex`. -/
def parentFlowIdIndexKeys : List Str :=
  (normalizeOptionalString task.parentFlowId).toList

def getTaskRelatedSessionIndexKeys : List Str :=
  ([normalizeOptionalString (some task.ownerKey),
    normalizeOptionalString task.childSessionKey].filterMap id).dedup

/-- The module variables of the registry. -/
structure TaskMemory where
  tasks : TaskMap
  taskDeliveryStates : TaskDeliveryStateMap
  taskIdsByRunId : SecondaryIndex Str Str
  taskIdsByOwnerKey : SecondaryIndex Str Str
  taskIdsByParentFlowId : SecondaryIndex Str Str
  taskIdsByRelatedSessionKey : SecondaryIndex Str Str
  restoreAttempted : Bool

/-- `clearTaskRegistryMemory`, and `restoreAttempted = false`. -/
def TaskMemory.cleared : TaskMemory where
  tasks := .empty
  taskDeliveryStates := .empty
  taskIdsByRunId := .empty
  taskIdsByOwnerKey := .empty
  taskIdsByParentFlowId := .empty
  taskIdsByRelatedSessionKey := .empty
  restoreAttempted := false

/-- What the modules around the maps answer during one call. -/
structure TaskMemorySurroundings extends TaskSurroundings where
  normalizeDeliveryContext : DeliveryContext → Option DeliveryContext

/-! ## The store -/

inductive TaskStoreCall where
  | saveSnapshot (tasks : TaskMap) (deliveryStates : TaskDeliveryStateMap)
  | upsertTaskWithDeliveryState (task : TaskRecord) (deliveryState : Option TaskDeliveryState)
  | upsertTask (task : TaskRecord)
  | deleteTaskWithDeliveryState (taskId : Str)
  | deleteTask (taskId : Str)
  | upsertDeliveryState (state : TaskDeliveryState)
  | deleteDeliveryState (taskId : Str)

/-- A store: the optional methods it has, and which calls throw, after the calls that the
same function made before. -/
structure TaskRegistryStore where
  upsertTaskWithDeliveryState : Bool
  upsertTask : Bool
  deleteTaskWithDeliveryState : Bool
  deleteTask : Bool
  upsertDeliveryState : Bool
  deleteDeliveryState : Bool
  throws : List TaskStoreCall → TaskStoreCall → Bool

variable (store : TaskRegistryStore)

/-- The same store on a good day. -/
def TaskRegistryStore.healthy : TaskRegistryStore :=
  { store with throws := fun _ _ => false }

variable (mem : TaskMemory)

def persistTaskUpsert (task : TaskRecord) (mem : TaskMemory) : TaskStoreCall :=
  if store.upsertTaskWithDeliveryState then
    .upsertTaskWithDeliveryState task (mem.taskDeliveryStates.find task.taskId)
  else if store.upsertTask then .upsertTask task
  else .saveSnapshot mem.tasks mem.taskDeliveryStates

variable (taskId : Str)

def persistTaskDelete (mem : TaskMemory) : TaskStoreCall :=
  if store.deleteTaskWithDeliveryState then .deleteTaskWithDeliveryState taskId
  else if store.deleteTask then .deleteTask taskId
  else .saveSnapshot mem.tasks mem.taskDeliveryStates

def persistTaskDeliveryStateUpsert (state : TaskDeliveryState) (mem : TaskMemory) : TaskStoreCall :=
  if store.upsertDeliveryState then .upsertDeliveryState state
  else .saveSnapshot mem.tasks mem.taskDeliveryStates

def persistTaskDeliveryStateDelete (mem : TaskMemory) : TaskStoreCall :=
  if store.deleteDeliveryState then .deleteDeliveryState taskId
  else .saveSnapshot mem.tasks mem.taskDeliveryStates

/-- How far a function came: the maps, the calls of the store, and whether the last of them
threw. -/
structure RegistryOutcome where
  memory : TaskMemory
  calls : List TaskStoreCall := []
  storeThrew : Bool := false

variable (o : RegistryOutcome)

namespace RegistryOutcome

/-- A change of the maps, where it is reached. -/
def change (f : TaskMemory → TaskMemory) : RegistryOutcome :=
  if o.storeThrew then o else { o with memory := f o.memory }

/-- A call of the store, where it is reached. -/
def persist (store : TaskRegistryStore) (call : TaskMemory → TaskStoreCall) : RegistryOutcome :=
  if o.storeThrew then o
  else
    { o with
      calls := o.calls ++ [call o.memory]
      storeThrew := store.throws o.calls (call o.memory) }

end RegistryOutcome

/-! ## Restoring -/

structure TaskRegistrySnapshot where
  tasks : TaskMap
  deliveryStates : TaskDeliveryStateMap

def rebuildIndexes : TaskMemory :=
  { mem with
    taskIdsByRunId := .rebuild mem.tasks runIdIndexKeys
    taskIdsByOwnerKey := .rebuild mem.tasks ownerIndexKeys
    taskIdsByParentFlowId := .rebuild mem.tasks parentFlowIdIndexKeys
    taskIdsByRelatedSessionKey := .rebuild mem.tasks getTaskRelatedSessionIndexKeys }

/-- `restoreTaskRegistryOnce`, for what `loadSnapshot` gives, `none` where it throws. -/
def restoreTaskMemoryOnce (loaded : Option TaskRegistrySnapshot) (mem : TaskMemory) : TaskMemory :=
  if mem.restoreAttempted then mem
  else
    let mem := { mem with restoreAttempted := true }
    match loaded with
    | none => mem
    | some restored =>
      if restored.tasks.entries.isEmpty && restored.deliveryStates.entries.isEmpty then mem
      else
        rebuildIndexes
          { mem with
            tasks := restored.tasks.entries.foldl
              (fun tasks task => tasks.set (normalizeTaskTimestamps task)) mem.tasks
            taskDeliveryStates := restored.deliveryStates.entries.foldl
              (fun states state => states.set state) mem.taskDeliveryStates }

/-! ## Updating a task -/

variable (current next : TaskRecord)

/-- What `updateTask` tests before it touches the session indexes. -/
def sessionIndexChanged : Bool :=
  normalizeOptionalString (some current.ownerKey) ≠ normalizeOptionalString (some next.ownerKey) ||
    normalizeOptionalString current.childSessionKey ≠ normalizeOptionalString next.childSessionKey

def parentFlowIndexChanged : Bool :=
  current.parentFlowId.map trim ≠ next.parentFlowId.map trim

/-- `patch.runId && patch.runId !== current.runId`, read off the patched record. -/
def runIdIndexChanged : Bool :=
  next.runId.getD [] ≠ [] && next.runId ≠ current.runId

/-- `tasks.set(taskId, next)`, and the indexes after it. -/
def replaceTask (mem : TaskMemory) : TaskMemory :=
  let mem := { mem with tasks := mem.tasks.set next }
  let mem :=
    if runIdIndexChanged current next then
      { mem with taskIdsByRunId := .rebuild mem.tasks runIdIndexKeys }
    else mem
  let mem :=
    if sessionIndexChanged current next then
      { mem with
        taskIdsByOwnerKey :=
          (mem.taskIdsByOwnerKey.removeAll (ownerIndexKeys current) next.taskId).addAll
            (ownerIndexKeys next) next.taskId
        taskIdsByRelatedSessionKey :=
          (mem.taskIdsByRelatedSessionKey.removeAll (getTaskRelatedSessionIndexKeys current)
            next.taskId).addAll (getTaskRelatedSessionIndexKeys next) next.taskId }
    else mem
  if parentFlowIndexChanged current next then
    { mem with
      taskIdsByParentFlowId :=
        (mem.taskIdsByParentFlowId.removeAll (parentFlowIdIndexKeys current) next.taskId).addAll
          (parentFlowIdIndexKeys next) next.taskId }
  else mem

variable (env : TaskMemorySurroundings)

/-- `updateTask`, for a patch that may look at the record. -/
def updateTaskEntry (store : TaskRegistryStore) (o : RegistryOutcome)
    (taskId : Str) (patch : TaskRecord → TaskPatch) : RegistryOutcome :=
  match o.memory.tasks.find taskId with
  | none => o
  | some current =>
    let next := nextTask env.toTaskSurroundings current (patch current)
    (o.change (replaceTask current next)).persist store (persistTaskUpsert store next)

def upsertTaskDeliveryState (store : TaskRegistryStore)
    (o : RegistryOutcome) (state : TaskDeliveryState) : RegistryOutcome :=
  let current := o.memory.taskDeliveryStates.find state.taskId
  let next : TaskDeliveryState :=
    { taskId := state.taskId
      requesterOrigin := state.requesterOrigin.bind env.normalizeDeliveryContext
      lastNotifiedEventAt := state.lastNotifiedEventAt }
  if next.requesterOrigin.isNone && next.lastNotifiedEventAt.isNone && current.isNone then o
  else
    (o.change fun mem => { mem with taskDeliveryStates := mem.taskDeliveryStates.set next }).persist
      store (persistTaskDeliveryStateUpsert store next)

/-! ## Creating a task -/

/-- `getTasksByRunId` by the index. -/
def TaskMemory.tasksByRunId (runId : Str) : List TaskRecord :=
  mem.taskIdsByRunId.lookup mem.tasks (trim runId)

/-- `findExistingTaskForCreate` by the index. -/
def TaskMemory.existingTaskForCreate (params : CreateTaskParams) : Option TaskRecord :=
  match normalizeOptionalString params.runId with
  | none => none
  | some runId =>
    let runScopeMatches := (mem.tasksByRunId runId).filter fun task =>
      task.runtime = params.runtime && task.scopeKind = params.scope.scopeKind &&
        normalizeOptionalString (some task.ownerKey) =
          normalizeOptionalString (some params.scope.ownerKey) &&
        normalizeOptionalString task.childSessionKey =
          normalizeOptionalString params.childSessionKey &&
        normalizeOptionalString task.parentFlowId = normalizeOptionalString params.parentFlowId
    let exact := runScopeMatches.find? fun task =>
      normalizeOptionalString task.label = normalizeOptionalString params.label &&
        normalizeOptionalString (some task.task) = normalizeOptionalString (some params.task)
    match exact with
    | some task => some task
    | none => if params.runtime ≠ .acp then none else pickPreferredRunIdTask runScopeMatches

/-- The start of `mergeExistingTaskForCreate`: the first origin of a task is remembered. -/
def mergeRequesterOrigin (store : TaskRegistryStore)
    (mem : TaskMemory) (taskId : Str) (requesterOrigin : Option DeliveryContext) : RegistryOutcome :=
  let requesterOrigin := requesterOrigin.bind env.normalizeDeliveryContext
  let currentDeliveryState := mem.taskDeliveryStates.find taskId
  if requesterOrigin.isSome && (currentDeliveryState.bind (·.requesterOrigin)).isNone then
    upsertTaskDeliveryState env store { memory := mem }
      { taskId := taskId
        requesterOrigin := requesterOrigin
        lastNotifiedEventAt := currentDeliveryState.bind (·.lastNotifiedEventAt) }
  else { memory := mem }

/-- `mergeExistingTaskForCreate`. -/
def mergeIntoExistingTask (store : TaskRegistryStore)
    (mem : TaskMemory) (existing : TaskRecord) (params : CreateTaskParams)
    (requesterOrigin : Option DeliveryContext) : RegistryOutcome :=
  let o := mergeRequesterOrigin env store mem existing.taskId requesterOrigin
  let patch := mergePatch existing params
  -- `assertParentFlowLinkAllowed` throws after the delivery state was written
  if patch.parentFlowId.isSome &&
      !env.parentFlowLinkAllowed existing.ownerKey existing.scopeKind params.parentFlowId then
    o
  else if patch.isEmpty then o
  else updateTaskEntry env store o existing.taskId fun _ => patch.toPatch

/-- The four additions of `createTaskRecord`. -/
def addIndexEntries (record : TaskRecord) (mem : TaskMemory) : TaskMemory :=
  { mem with
    taskIdsByRunId := mem.taskIdsByRunId.addAll (runIdIndexKeys record) record.taskId
    taskIdsByOwnerKey := mem.taskIdsByOwnerKey.addAll (ownerIndexKeys record) record.taskId
    taskIdsByParentFlowId :=
      mem.taskIdsByParentFlowId.addAll (parentFlowIdIndexKeys record) record.taskId
    taskIdsByRelatedSessionKey := mem.taskIdsByRelatedSessionKey.addAll
      (getTaskRelatedSessionIndexKeys record) record.taskId }

/-- The end of `createTaskRecord`, for a record without an equal. -/
def insertTask (store : TaskRegistryStore) (mem : TaskMemory)
    (record : TaskRecord) (requesterOrigin : Option DeliveryContext) : RegistryOutcome :=
  -- the index entries come after the first call of the store, the record before it
  let o : RegistryOutcome := { memory := { mem with tasks := mem.tasks.set record } }
  let o := upsertTaskDeliveryState env store o
    { taskId := record.taskId
      requesterOrigin := requesterOrigin.bind env.normalizeDeliveryContext }
  (o.change (addIndexEntries record)).persist store (persistTaskUpsert store record)

/-- `createTaskRecord`, with the id that `crypto.randomUUID` gives. -/
def createTaskEntry (store : TaskRegistryStore) (mem : TaskMemory)
    (taskId : Str) (params : CreateTaskParams) (requesterOrigin : Option DeliveryContext) :
    RegistryOutcome :=
  let scope := params.scope
  -- `assertTaskOwner` and `assertParentFlowLinkAllowed` throw
  if trim scope.ownerKey = [] && scope.scopeKind ≠ .system then { memory := mem }
  else if trimmedOrEmpty params.parentFlowId ≠ [] &&
      !env.parentFlowLinkAllowed scope.ownerKey scope.scopeKind params.parentFlowId then
    { memory := mem }
  else
    match mem.existingTaskForCreate params with
    | some existing => mergeIntoExistingTask env store mem existing params requesterOrigin
    | none =>
      insertTask env store mem (newTaskRecord env.toTaskSurroundings taskId params) requesterOrigin

/-! ## Linking and deleting -/

/-- `linkTaskToFlowById`. -/
def linkTaskEntryToFlow (store : TaskRegistryStore)
    (mem : TaskMemory) (taskId flowId : Str) : RegistryOutcome :=
  if trim flowId = [] then { memory := mem }
  else
    match mem.tasks.find taskId with
    | none => { memory := mem }
    | some current =>
      if trimmedOrEmpty current.parentFlowId ≠ [] then { memory := mem }
      else if !env.parentFlowLinkAllowed current.ownerKey current.scopeKind (some (trim flowId)) then
        { memory := mem }
      else
        updateTaskEntry env store { memory := mem } taskId fun _ =>
          { apply := fun task => { task with parentFlowId := some (trim flowId) }
            taskId := keepsId_parentFlow flowId }

/-- What `deleteTaskRecordById` does to the maps. -/
def removeTask (mem : TaskMemory) : TaskMemory :=
  let tasks := mem.tasks.erase taskId
  { mem with
    tasks := tasks
    taskDeliveryStates := mem.taskDeliveryStates.erase taskId
    taskIdsByRunId := .rebuild tasks runIdIndexKeys
    taskIdsByOwnerKey := mem.taskIdsByOwnerKey.removeAll (ownerIndexKeys current) taskId
    taskIdsByParentFlowId :=
      mem.taskIdsByParentFlowId.removeAll (parentFlowIdIndexKeys current) taskId
    taskIdsByRelatedSessionKey := mem.taskIdsByRelatedSessionKey.removeAll
      (getTaskRelatedSessionIndexKeys current) taskId }

def deleteTaskRecordById : RegistryOutcome :=
  match mem.tasks.find taskId with
  | none => { memory := mem }
  | some current =>
    let o : RegistryOutcome := { memory := removeTask taskId current mem }
    (o.persist store (persistTaskDelete store taskId)).persist store
      (persistTaskDeliveryStateDelete store taskId)

/-! ## Calls -/

/-- The patches with which the functions of the registry call `updateTask`. A function that
is scoped to a run makes one such call for each task that it finds. -/
inductive TaskUpdate where
  | agentEvent (evt : AgentEvent)
  | runState (params : TaskRunUpdate)
  | runDelivery (deliveryStatus : TaskDeliveryStatus) (error : Option Str)
  | progress (progressSummary : Option (Option Str)) (lastEventAt : Option ℤ)
  | timing (startedAt endedAt lastEventAt : Option ℤ)
  | cleanupAfter (time : ℤ)
  | notifyPolicy (policy : TaskNotifyPolicy)
  | terminal (params : MarkTerminalParams)
  | lost (params : MarkLostParams)
  | delivery (deliveryStatus : TaskDeliveryStatus)
  | touch
  | cancelled (reason : Option Str)

def TaskUpdate.patch (env : TaskSurroundings) (current : TaskRecord) : TaskUpdate → TaskPatch
  | agentEvent evt => agentEventPatch env evt current
  | runState params => params.patch current
  | runDelivery deliveryStatus error => setDeliveryStatusPatch deliveryStatus error
  | progress progressSummary lastEventAt => setTaskProgressPatch progressSummary lastEventAt
  | timing startedAt endedAt lastEventAt => setTaskTimingPatch startedAt endedAt lastEventAt
  | cleanupAfter time => setTaskCleanupAfterPatch time
  | notifyPolicy policy => updateTaskNotifyPolicyPatch env policy
  | terminal params => params.patch
  | lost params => params.patch
  | delivery deliveryStatus => deliveryPatch env deliveryStatus
  | touch => touchPatch env
  | cancelled reason => cancelPatch env reason

inductive TaskCall where
  | create (taskId : Str) (params : CreateTaskParams) (requesterOrigin : Option DeliveryContext)
  | update (taskId : Str) (update : TaskUpdate)
  | setDeliveryState (state : TaskDeliveryState)
  | linkToFlow (taskId flowId : Str)
  | delete (taskId : Str)

/-- A call in a registry that is restored. -/
def performTaskCall (store : TaskRegistryStore) (mem : TaskMemory) : TaskCall → RegistryOutcome
  | .create taskId params requesterOrigin =>
    createTaskEntry env store mem taskId params requesterOrigin
  | .update taskId update =>
    updateTaskEntry env store { memory := mem } taskId fun current =>
      update.patch env.toTaskSurroundings current
  | .setDeliveryState state => upsertTaskDeliveryState env store { memory := mem } state
  | .linkToFlow taskId flowId => linkTaskEntryToFlow env store mem taskId flowId
  | .delete taskId => deleteTaskRecordById store mem taskId

/-- `ensureTaskRegistryReady` and a call, or `reloadTaskRegistryFromStore`. -/
inductive TaskMemoryAction where
  | call (env : TaskMemorySurroundings) (store : TaskRegistryStore) (call : TaskCall)
  | reload

/-- A new task gets an id that no task has. -/
def TaskCall.Fresh : TaskCall → Prop
  | create taskId _ _ => mem.tasks.find taskId = none
  | _ => True

/-- A step in which no call of the store throws. The label carries what `loadSnapshot` gives
if it is called. -/
def taskMemoryStep (label : TaskRegistrySnapshot × TaskMemoryAction) (mem' : TaskMemory) : Prop :=
  match label.2 with
  | .call env store call =>
    let ready := restoreTaskMemoryOnce (some label.1) mem
    call.Fresh ready ∧ (performTaskCall env store ready call).storeThrew = false ∧
      mem' = (performTaskCall env store ready call).memory
  | .reload => mem' = restoreTaskMemoryOnce (some label.1) .cleared

end OpenClaw
