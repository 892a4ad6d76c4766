import OpenClaw.Tasks.Record

/-!
# The task registry of one process

The registry keeps every task in memory and in the store. Functions that wait for the
delivery runtime or for the control runtime are split at the wait: what they do first is
one step, what they do with the answer is another, and anything may happen between.
Everything else runs to its end in one step.

The flow registry, the channels, the session queue and the clock answer through
`TaskSurroundings`, which may differ from step to step. Writes to the store succeed.
-/

namespace OpenClaw

/-- What the modules around the registry answer during one step. -/
structure TaskSurroundings where
  /-- `Date.now()`. -/
  now : ℤ
  /-- `resolveTaskDeliveryOwner(task).sessionKey?.trim()`, empty when there is none. -/
  ownerSessionKey : TaskRecord → Str
  /-- `canDeliverTaskToRequesterOrigin`. -/
  canDeliver : TaskRecord → Bool
  /-- Whether `queueTaskSystemEvent` or `queueBlockedTaskFollowup` throws. -/
  queueFails : TaskRecord → Bool
  /-- Whether `sanitizeTaskStatusText` of a summary is empty. -/
  sanitizesToNothing : Option Str → Bool
  /-- Whether `assertParentFlowLinkAllowed` returns. -/
  parentFlowLinkAllowed : Str → TaskScopeKind → Option Str → Bool

inductive TaskEventKind where
  | status (status : TaskStatus)
  | progress
deriving DecidableEq

structure TaskEventRecord where
  atMs : ℤ
  kind : TaskEventKind
  summary : Option Str
deriving DecidableEq

/-- A delivery that waits for `sendMessage`. -/
inductive TaskSend where
  | terminal (task : TaskRecord)
  | stateChange (taskId : Str) (latestEvent : TaskEventRecord)

/-- A cancellation that waits for the control runtime. -/
structure CancelCall where
  taskId : Str
  runtime : TaskRuntime
  reason : Option Str

structure TaskRegistry where
  tasks : TaskMap
  /-- `taskDeliveryStates`: what is remembered of a task's last notice. -/
  lastNotifiedEventAt : Str → Option ℤ
  tasksWithPendingDelivery : List Str
  listenerStarted : Bool
  restoreAttempted : Bool
  store : TaskStore
  sends : List TaskSend
  cancels : List CancelCall

/-- A process that has not touched the registry yet. -/
def TaskRegistry.start (store : TaskStore) : TaskRegistry :=
  { tasks := .empty
    lastNotifiedEventAt := fun _ => none
    tasksWithPendingDelivery := []
    listenerStarted := false
    restoreAttempted := false
    store := store
    sends := []
    cancels := [] }

/-! ## Restoring -/

variable (reg : TaskRegistry)

def restoreTaskRegistryOnce : TaskRegistry :=
  if reg.restoreAttempted then reg
  else
    { reg with
      restoreAttempted := true
      tasks := reg.store.loadTasks
      lastNotifiedEventAt := reg.store.lastNotifiedEventAt }

def ensureTaskRegistryReady : TaskRegistry :=
  { restoreTaskRegistryOnce reg with listenerStarted := true }

/-- `clearTaskRegistryMemory`, and `restoreAttempted = false`. -/
def clearTaskRegistryMemory : TaskRegistry :=
  { reg with
    tasks := .empty
    lastNotifiedEventAt := fun _ => none
    tasksWithPendingDelivery := []
    restoreAttempted := false }

def reloadTaskRegistryFromStore : TaskRegistry :=
  restoreTaskRegistryOnce (clearTaskRegistryMemory reg)

/-! ## Writing a record -/

/-- `tasks.set` and `persistTaskUpsert`. -/
def putTask (next : TaskRecord) : TaskRegistry :=
  { reg with
    tasks := reg.tasks.set next
    store := { reg.store with rows := reg.store.rows.set next } }

/-- A patch as the function that applies it. It keeps the id. -/
structure TaskPatch where
  apply : TaskRecord → TaskRecord
  taskId : ∀ task, (apply task).taskId = task.taskId

variable (env : TaskSurroundings) (current : TaskRecord)

def nextTask (patch : TaskPatch) : TaskRecord :=
  let next := normalizeTaskTimestamps (patch.apply current)
  stampCleanupAfter next ((next.endedAt.or next.lastEventAt).getD env.now)

@[simp]
theorem nextTask_taskId (patch : TaskPatch) :
    (nextTask env current patch).taskId = current.taskId := by
  simp [nextTask, patch.taskId]

@[simp]
theorem nextTask_status (patch : TaskPatch) :
    (nextTask env current patch).status = (patch.apply current).status := by
  simp [nextTask]

def updateTask (reg : TaskRegistry) (taskId : Str) (patch : TaskPatch) : TaskRegistry :=
  match reg.tasks.find taskId with
  | none => reg
  | some current => putTask reg (nextTask env current patch)

/-- `upsertTaskDeliveryState` with a time, and `persistTaskDeliveryStateUpsert`. -/
def setLastNotifiedEventAt (taskId : Str) (atMs : ℤ) : TaskRegistry :=
  { reg with
    lastNotifiedEventAt := Function.update reg.lastNotifiedEventAt taskId (some atMs)
    store := { reg.store with
      lastNotifiedEventAt := Function.update reg.store.lastNotifiedEventAt taskId (some atMs) } }

/-! ## Finding tasks by run -/

def getTasksByRunId (runId : Str) : List TaskRecord :=
  if trim runId = [] then []
  else reg.tasks.entries.filter fun task => trimmedOrEmpty task.runId = trim runId

variable (task : TaskRecord)

def taskRunScopeKey : Str :=
  joinWith ['\x00'] [task.runtime.name, task.scopeKind.name,
    (normalizeOptionalString (some task.ownerKey)).getD [],
    (normalizeOptionalString task.childSessionKey).getD []]

/-- The scope of a run-scoped function. -/
structure TaskRunScope where
  runId : Str
  runtime : Option TaskRuntime := none
  sessionKey : Option Str := none

def getTasksByRunScope (scope : TaskRunScope) : List TaskRecord :=
  let ofRun := (getTasksByRunId reg scope.runId).filter fun task =>
    scope.runtime.all (task.runtime = ·)
  match normalizeOptionalString scope.sessionKey with
  | some sessionKey =>
    let childMatches := ofRun.filter fun task =>
      normalizeOptionalString task.childSessionKey = some sessionKey
    if childMatches ≠ [] then childMatches
    else
      ofRun.filter fun task =>
        task.scopeKind = .session && normalizeOptionalString (some task.ownerKey) = some sessionKey
  | none => if (ofRun.map taskRunScopeKey).dedup.length ≤ 1 then ofRun else []

/-- The tasks of `getTasksByRunId` in the owner, child and runtime of a task. -/
def getPeerTasksForDelivery : List TaskRecord :=
  match task.runId with
  | none => []
  | some runId =>
    (getTasksByRunId reg runId).filter fun candidate =>
      candidate.runtime = task.runtime && candidate.scopeKind = task.scopeKind &&
        normalizeOptionalString (some candidate.ownerKey) =
          normalizeOptionalString (some task.ownerKey) &&
        normalizeOptionalString candidate.childSessionKey =
          normalizeOptionalString task.childSessionKey

def taskLookupPriority : ℕ := if task.runtime = .cli then 1 else 0

def pickPreferredRunIdTask (found : List TaskRecord) : Option TaskRecord :=
  (found.mergeSort fun left right =>
    taskLookupPriority left < taskLookupPriority right ||
      (taskLookupPriority left = taskLookupPriority right &&
        left.createdAt ≤ right.createdAt)).head?

/-! ## Deliveries -/

def shouldAutoDeliverTaskTerminalUpdate : Bool :=
  if task.notifyPolicy = .silent then false
  else if task.runtime = .subagent && task.status ≠ .cancelled then false
  else if !isTerminalTaskStatus task.status then false
  else task.deliveryStatus = .pending

def shouldAutoDeliverTaskStateChange : Bool :=
  task.notifyPolicy = .stateChanges && task.deliveryStatus = .pending &&
    !isTerminalTaskStatus task.status

def shouldSuppressDuplicateTerminalDelivery (preferredTaskId : Option Str) : Bool :=
  if task.runtime ≠ .acp || trimmedOrEmpty task.runId = [] then false
  else preferredTaskId.any fun preferred => preferred ≠ [] && preferred ≠ task.taskId

/-- Whether `formatTaskStateChangeMessage` has a text for the event. -/
def hasStateChangeMessage (event : TaskEventRecord) : Bool :=
  match event.kind with
  | .status status => status = .running
  | .progress => !env.sanitizesToNothing event.summary

def resolveMissingOwnerDeliveryStatus : TaskDeliveryStatus :=
  if task.scopeKind = .system then .notApplicable else .parentMissing

/-- `{ deliveryStatus, lastEventAt: Date.now() }`. -/
def deliveryPatch (deliveryStatus : TaskDeliveryStatus) : TaskPatch where
  apply task := { task with deliveryStatus := deliveryStatus, lastEventAt := some env.now }
  taskId _ := rfl

/-- `{ lastEventAt: Date.now() }`. -/
def touchPatch : TaskPatch where
  apply task := { task with lastEventAt := some env.now }
  taskId _ := rfl

/-- `maybeDeliverTaskTerminalUpdate` up to its wait. -/
def maybeDeliverTaskTerminalUpdate (reg : TaskRegistry) (taskId : Str) : TaskRegistry :=
  match reg.tasks.find taskId with
  | none => reg
  | some latest =>
    if !shouldAutoDeliverTaskTerminalUpdate latest || taskId ∈ reg.tasksWithPendingDelivery then
      reg
    else
      let preferred :=
        if latest.runId.all (· = []) then none
        else pickPreferredRunIdTask (getPeerTasksForDelivery reg latest)
      if shouldSuppressDuplicateTerminalDelivery latest (preferred.map (·.taskId)) then
        updateTask env reg taskId (deliveryPatch env .notApplicable)
      else if env.ownerSessionKey latest = [] then
        updateTask env reg taskId (deliveryPatch env (resolveMissingOwnerDeliveryStatus latest))
      else if !env.canDeliver latest then
        updateTask env reg taskId
          (deliveryPatch env (if env.queueFails latest then .failed else .sessionQueued))
      else
        { reg with
          tasksWithPendingDelivery := taskId :: reg.tasksWithPendingDelivery
          sends := reg.sends ++ [.terminal latest] }

/-- `maybeDeliverTaskStateChangeUpdate` up to its wait. -/
def maybeDeliverTaskStateChangeUpdate (reg : TaskRegistry)
    (taskId : Str) (latestEvent : Option TaskEventRecord) : TaskRegistry :=
  match reg.tasks.find taskId, latestEvent with
  | some current, some latestEvent =>
    if !shouldAutoDeliverTaskStateChange current ||
        latestEvent.atMs ≤ (reg.lastNotifiedEventAt taskId).getD 0 ||
        !hasStateChangeMessage env latestEvent then
      reg
    else if env.ownerSessionKey current = [] then
      updateTask env reg taskId (deliveryPatch env (resolveMissingOwnerDeliveryStatus current))
    else if !env.canDeliver current then
      if env.queueFails current then reg
      else
        updateTask env (setLastNotifiedEventAt reg taskId latestEvent.atMs) taskId (touchPatch env)
    else
      { reg with sends := reg.sends ++ [.stateChange taskId latestEvent] }
  | _, _ => reg

/-- The rest of a delivery. `sent` tells whether nothing threw. -/
def finishSend (reg : TaskRegistry) (send : TaskSend) (sent : Bool) : TaskRegistry :=
  match send with
  | .terminal task =>
    let reg := updateTask env reg task.taskId
      (deliveryPatch env (if sent then .delivered else .failed))
    { reg with
      tasksWithPendingDelivery := reg.tasksWithPendingDelivery.filter (· ≠ task.taskId) }
  | .stateChange taskId latestEvent =>
    if sent then
      updateTask env (setLastNotifiedEventAt reg taskId latestEvent.atMs) taskId (touchPatch env)
    else
      reg

/-! ## Setters by id -/

def setTaskProgressPatch (progressSummary : Option (Option Str)) (lastEventAt : Option ℤ) :
    TaskPatch where
  apply task :=
    { task with
      progressSummary := match progressSummary with
        | some progressSummary => normalizeTaskSummary progressSummary
        | none => task.progressSummary
      lastEventAt := lastEventAt.or task.lastEventAt }
  taskId _ := rfl

def setTaskTimingPatch (startedAt endedAt lastEventAt : Option ℤ) : TaskPatch where
  apply task :=
    { task with
      startedAt := startedAt.or task.startedAt
      endedAt := endedAt.or task.endedAt
      lastEventAt := lastEventAt.or task.lastEventAt }
  taskId _ := rfl

def setTaskCleanupAfterPatch (cleanupAfter : ℤ) : TaskPatch where
  apply task := { task with cleanupAfter := some cleanupAfter }
  taskId _ := rfl

def updateTaskNotifyPolicyPatch (notifyPolicy : TaskNotifyPolicy) : TaskPatch where
  apply task := { task with notifyPolicy := notifyPolicy, lastEventAt := some env.now }
  taskId _ := rfl

def resolveTaskTerminalOutcome (status : TaskStatus) (terminalOutcome : Option TaskTerminalOutcome) :
    Option TaskTerminalOutcome :=
  match terminalOutcome with
  | some outcome => some outcome
  | none => if status = .succeeded then some .succeeded else none

/-- The statuses that `markTaskTerminalById` and the run-scoped finalizers write. -/
inductive TaskFinalStatus where
  | succeeded | failed | timedOut | cancelled
deriving DecidableEq

def TaskFinalStatus.status : TaskFinalStatus → TaskStatus
  | succeeded => .succeeded
  | failed => .failed
  | timedOut => .timedOut
  | cancelled => .cancelled

structure MarkTerminalParams where
  taskId : Str
  status : TaskFinalStatus
  endedAt : ℤ
  lastEventAt : Option ℤ := none
  error : Option Str := none
  terminalSummary : Option (Option Str) := none
  terminalOutcome : Option (Option TaskTerminalOutcome) := none

def MarkTerminalParams.patch (params : MarkTerminalParams) : TaskPatch where
  apply task :=
    { task with
      status := params.status.status
      endedAt := some params.endedAt
      lastEventAt := some (params.lastEventAt.getD params.endedAt)
      error := params.error.or task.error
      terminalSummary := match params.terminalSummary with
        | some terminalSummary => normalizeTaskSummary terminalSummary
        | none => task.terminalSummary
      terminalOutcome := match params.terminalOutcome with
        | some terminalOutcome => resolveTaskTerminalOutcome params.status.status terminalOutcome
        | none => task.terminalOutcome }
  taskId _ := rfl

structure MarkLostParams where
  taskId : Str
  endedAt : ℤ
  lastEventAt : Option ℤ := none
  error : Option Str := none
  cleanupAfter : Option ℤ := none

def MarkLostParams.patch (params : MarkLostParams) : TaskPatch where
  apply task :=
    { task with
      status := .lost
      endedAt := some params.endedAt
      lastEventAt := some (params.lastEventAt.getD params.endedAt)
      error := params.error.or task.error
      cleanupAfter := params.cleanupAfter.or task.cleanupAfter }
  taskId _ := rfl

theorem keepsId_parentFlow (flowId : Str) (task : TaskRecord) :
    { task with parentFlowId := some (trim flowId) }.taskId = task.taskId := rfl

/-- `linkTaskToFlowById`. -/
def linkTaskToFlowById (reg : TaskRegistry) (taskId flowId : Str) : TaskRegistry :=
  if trim flowId = [] then reg
  else
    match reg.tasks.find taskId with
    | none => reg
    | some current =>
      if trimmedOrEmpty current.parentFlowId ≠ [] then reg
      else if !env.parentFlowLinkAllowed current.ownerKey current.scopeKind (some (trim flowId)) then
        reg
      else
        updateTask env reg taskId
          { apply := fun task => { task with parentFlowId := some (trim flowId) }
            taskId := keepsId_parentFlow flowId }

end OpenClaw
