import OpenClaw.Tasks.Registry

/-!
# What happens to a task

The writers of the registry: the listener for agent events, the run-scoped updates, the
creation of a task and its repetition, and cancellation. Only the first two and the start
of a cancellation look at the status of a task before they change it.
-/

namespace OpenClaw

/-! ## Agent events -/

inductive LifecyclePhase where
  | start | «end» | error | other
deriving DecidableEq

/-- The stream of an agent event, with the data the listener reads of it. -/
inductive AgentEventStream where
  | lifecycle (phase : LifecyclePhase) (startedAt endedAt : Option ℤ) (aborted : Bool)
      (error : Option Str)
  | error (error : Option Str)
  | other
deriving DecidableEq

structure AgentEvent where
  runId : Str
  sessionKey : Option Str := none
  ts : ℤ
  stream : AgentEventStream
deriving DecidableEq

variable (env : TaskSurroundings) (evt : AgentEvent)

/-- `evt.ts || Date.now()`. -/
def AgentEvent.time : ℤ :=
  if evt.ts = 0 then env.now else evt.ts

/-- The status the listener writes, if any. -/
def AgentEventStream.nextStatus : AgentEventStream → Option TaskStatus
  | lifecycle .start _ _ _ _ => some .running
  | lifecycle .end _ _ aborted _ => some (if aborted then .timedOut else .succeeded)
  | lifecycle .error _ _ _ _ => some .failed
  | _ => none

/-- `patch.endedAt`, if the listener sets it. -/
def AgentEventStream.nextEndedAt (now : ℤ) : AgentEventStream → Option ℤ
  | lifecycle .end _ endedAt _ _ => some (endedAt.getD now)
  | lifecycle .error _ endedAt _ _ => some (endedAt.getD now)
  | _ => none

variable (current : TaskRecord)

/-- `patch.startedAt`, if the listener sets it: `0` counts as absent. -/
def AgentEventStream.nextStartedAt : AgentEventStream → Option ℤ
  | lifecycle _ startedAt _ _ _ => (startedAt.or current.startedAt).filter (· ≠ 0)
  | _ => none

/-- `patch.error`, if the listener sets it to another text. -/
def AgentEventStream.nextError : AgentEventStream → Option Str
  | lifecycle .error _ _ _ text => text
  | error text => text
  | _ => none

def agentEventPatch : TaskPatch where
  apply task :=
    { task with
      lastEventAt := some (evt.time env)
      startedAt := (evt.stream.nextStartedAt current).or task.startedAt
      status := (evt.stream.nextStatus).getD task.status
      endedAt := (evt.stream.nextEndedAt (evt.time env)).or task.endedAt
      error := (evt.stream.nextError).or task.error }
  taskId _ := rfl

/-- `stateChangeEvent` of the listener. -/
def agentStateChangeEvent : Option TaskEventRecord :=
  evt.stream.nextStatus.bind fun status =>
    if status = current.status then none
    else
      some
        { atMs := evt.time env
          kind := .status status
          summary := normalizeTaskSummary <|
            if status = .failed then evt.stream.nextError.or current.error
            else if status = .succeeded then current.terminalSummary
            else none }

variable (reg : TaskRegistry) (taskId : Str)

/-- The two deliveries that follow a change. -/
def deliverUpdates (latestEvent : Option TaskEventRecord) : TaskRegistry :=
  maybeDeliverTaskTerminalUpdate env
    (maybeDeliverTaskStateChangeUpdate env reg taskId latestEvent) taskId

/-- The loop body of the listener. -/
def applyAgentEvent (current : TaskRecord) : TaskRegistry :=
  if isTerminalTaskStatus current.status then reg
  else
    deliverUpdates env (updateTask env reg current.taskId (agentEventPatch env evt current))
      current.taskId (agentStateChangeEvent env evt current)

def onAgentEvent (evt : AgentEvent) : TaskRegistry :=
  if !reg.listenerStarted then reg
  else
    let reg := restoreTaskRegistryOnce reg
    (getTasksByRunScope reg { runId := evt.runId, sessionKey := evt.sessionKey }).foldl
      (applyAgentEvent env evt) reg

/-! ## Run-scoped updates -/

structure TaskRunUpdate where
  scope : TaskRunScope
  status : Option TaskStatus := none
  startedAt : Option ℤ := none
  endedAt : Option ℤ := none
  lastEventAt : Option ℤ := none
  error : Option Str := none
  progressSummary : Option (Option Str) := none
  terminalSummary : Option (Option Str) := none
  terminalOutcome : Option (Option TaskTerminalOutcome) := none
  eventSummary : Option Str := none

variable (params : TaskRunUpdate)

def TaskRunUpdate.patch (current : TaskRecord) : TaskPatch where
  apply task :=
    { task with
      status := params.status.getD task.status
      startedAt := params.startedAt.or task.startedAt
      endedAt := params.endedAt.or task.endedAt
      lastEventAt := params.lastEventAt.or task.lastEventAt
      error := params.error.or task.error
      progressSummary := match params.progressSummary with
        | some progressSummary => normalizeTaskSummary progressSummary
        | none => task.progressSummary
      terminalSummary := match params.terminalSummary with
        | some terminalSummary => normalizeTaskSummary terminalSummary
        | none => task.terminalSummary
      terminalOutcome := match params.terminalOutcome with
        | some terminalOutcome =>
          resolveTaskTerminalOutcome (params.status.getD current.status) terminalOutcome
        | none => task.terminalOutcome }
  taskId _ := rfl

/-- `nextEvent` of `updateTaskStateByRunId`. -/
def TaskRunUpdate.nextEvent (current : TaskRecord) : Option TaskEventRecord :=
  let nextStatus := params.status.getD current.status
  let eventSummary := (normalizeTaskSummary params.eventSummary).or <|
    if nextStatus = .failed then normalizeTaskSummary (params.error.or current.error)
    else if nextStatus = .succeeded then
      normalizeTaskSummary ((params.terminalSummary.bind id).or current.terminalSummary)
    else none
  if nextStatus ≠ current.status || (normalizeTaskSummary params.eventSummary).isSome then
    some
      { atMs := (params.lastEventAt.or params.endedAt).getD env.now
        kind := if nextStatus ≠ current.status then .status nextStatus else .progress
        summary := normalizeTaskSummary eventSummary }
  else
    none

/-- The loop body of `updateTaskStateByRunId`. -/
def applyTaskRunUpdate (reg : TaskRegistry) (current : TaskRecord) : TaskRegistry :=
  if params.status.any fun nextStatus =>
      !shouldApplyRunScopedStatusUpdate current.status nextStatus then
    reg
  else
    deliverUpdates env (updateTask env reg current.taskId (params.patch current)) current.taskId
      (params.nextEvent env current)

/-- `updateTaskStateByRunId`, which `markTaskRunningByRunId`, `recordTaskProgressByRunId` and
`finalizeTaskRunByRunId` call. -/
def updateTaskStateByRunId : TaskRegistry :=
  (getTasksByRunScope reg params.scope).foldl (applyTaskRunUpdate env params) reg

def setDeliveryStatusPatch (deliveryStatus : TaskDeliveryStatus) (error : Option Str) :
    TaskPatch where
  apply task := { task with deliveryStatus := deliveryStatus, error := error.or task.error }
  taskId _ := rfl

def updateTaskDeliveryByRunId (scope : TaskRunScope)
    (deliveryStatus : TaskDeliveryStatus) (error : Option Str) : TaskRegistry :=
  (getTasksByRunScope reg scope).foldl
    (fun reg current => updateTask env reg current.taskId (setDeliveryStatusPatch deliveryStatus error))
    reg

/-! ## Creation -/

structure CreateTaskParams where
  runtime : TaskRuntime
  taskKind : Option Str := none
  sourceId : Option Str := none
  requesterSessionKey : Option Str := none
  ownerKey : Option Str := none
  scopeKind : Option TaskScopeKind := none
  childSessionKey : Option Str := none
  parentFlowId : Option Str := none
  parentTaskId : Option Str := none
  /-- `resolveTaskAgentId`: the explicit agent id, or the one in a session key. -/
  agentId : Option Str := none
  runId : Option Str := none
  label : Option Str := none
  task : Str
  preferMetadata : Bool := false
  status : Option TaskStatus := none
  deliveryStatus : Option TaskDeliveryStatus := none
  notifyPolicy : Option TaskNotifyPolicy := none
  startedAt : Option ℤ := none
  lastEventAt : Option ℤ := none
  cleanupAfter : Option ℤ := none
  progressSummary : Option Str := none
  terminalSummary : Option Str := none
  terminalOutcome : Option TaskTerminalOutcome := none

variable (params : CreateTaskParams)

def resolveTaskRequesterSessionKey : Str :=
  if trimmedOrEmpty params.requesterSessionKey ≠ [] then trimmedOrEmpty params.requesterSessionKey
  else if params.scopeKind = some .system then []
  else trimmedOrEmpty params.ownerKey

def resolveTaskScopeKind (scopeKind : Option TaskScopeKind) (requesterSessionKey : Str) :
    TaskScopeKind :=
  scopeKind.getD (if trim requesterSessionKey = [] then .system else .session)

def resolveTaskOwnerKey (requesterSessionKey : Str) (ownerKey : Option Str) : Str :=
  if trimmedOrEmpty ownerKey = [] then trim requesterSessionKey else trimmedOrEmpty ownerKey

def ensureDeliveryStatus (ownerKey : Str) (scopeKind : TaskScopeKind) : TaskDeliveryStatus :=
  if scopeKind = .system then .notApplicable
  else if trim ownerKey = [] then .parentMissing
  else .pending

def ensureNotifyPolicy (notifyPolicy : Option TaskNotifyPolicy)
    (deliveryStatus : Option TaskDeliveryStatus) (ownerKey : Str) (scopeKind : TaskScopeKind) :
    TaskNotifyPolicy :=
  notifyPolicy.getD <|
    if deliveryStatus.getD (ensureDeliveryStatus ownerKey scopeKind) = .notApplicable then .silent
    else .doneOnly

/-- The resolved scope of a task to create. -/
structure CreateTaskScope where
  requesterSessionKey : Str
  scopeKind : TaskScopeKind
  ownerKey : Str

def CreateTaskParams.scope : CreateTaskScope :=
  let requesterSessionKey := resolveTaskRequesterSessionKey params
  { requesterSessionKey := requesterSessionKey
    scopeKind := resolveTaskScopeKind params.scopeKind requesterSessionKey
    ownerKey := resolveTaskOwnerKey requesterSessionKey params.ownerKey }

def findExistingTaskForCreate : Option TaskRecord :=
  let runId := trimmedOrEmpty params.runId
  if runId = [] then none
  else
    let runScopeMatches := (getTasksByRunId reg runId).filter fun task =>
      task.runtime = params.runtime && task.scopeKind = params.scope.scopeKind &&
        normalizeOptionalString (some task.ownerKey) =
          normalizeOptionalString (some params.scope.ownerKey) &&
        normalizeOptionalString task.childSessionKey =
          normalizeOptionalString params.childSessionKey &&
        normalizeOptionalString task.parentFlowId = normalizeOptionalString params.parentFlowId
    let exact := runScopeMatches.find? fun task =>
      normalizeOptionalString task.label = normalizeOptionalString params.label &&
        normalizeOptionalString (some task.task) = normalizeOptionalString (some params.task)
    match exact with
    | some task => some task
    | none => if params.runtime ≠ .acp then none else pickPreferredRunIdTask runScopeMatches

/-- The patch of `mergeExistingTaskForCreate`. -/
structure MergePatch where
  taskKind : Option Str
  sourceId : Option Str
  parentFlowId : Option Str
  parentTaskId : Option Str
  agentId : Option Str
  label : Option Str
  task : Option Str
  deliveryStatus : Option TaskDeliveryStatus
  notifyPolicy : Option TaskNotifyPolicy
deriving DecidableEq

/-- A new text where the record has none. -/
def fillText (value existing : Option Str) : Option Str :=
  if trimmedOrEmpty value ≠ [] && trimmedOrEmpty existing = [] then some (trimmedOrEmpty value)
  else none

/-- A new text where the record has another one. -/
def preferText (value existing : Option Str) : Option Str :=
  if trimmedOrEmpty value ≠ [] && trimmedOrEmpty existing ≠ trimmedOrEmpty value then
    some (trimmedOrEmpty value)
  else none

def mergePatch (existing : TaskRecord) (params : CreateTaskParams) : MergePatch :=
  let notifyPolicy := ensureNotifyPolicy params.notifyPolicy params.deliveryStatus
    existing.ownerKey existing.scopeKind
  { sourceId := fillText params.sourceId existing.sourceId
    taskKind := fillText params.taskKind existing.taskKind
    parentFlowId := fillText params.parentFlowId existing.parentFlowId
    parentTaskId := fillText params.parentTaskId existing.parentTaskId
    agentId := fillText params.agentId existing.agentId
    label :=
      if params.preferMetadata then preferText params.label existing.label
      else fillText params.label existing.label
    task := if params.preferMetadata then preferText (some params.task) (some existing.task) else none
    deliveryStatus :=
      if params.deliveryStatus = some .pending && existing.deliveryStatus ≠ .delivered then
        some .pending
      else none
    notifyPolicy :=
      if notifyPolicy ≠ existing.notifyPolicy && existing.notifyPolicy = .silent then
        some notifyPolicy
      else none }

variable (patch : MergePatch)

def MergePatch.isEmpty : Bool :=
  patch = ⟨none, none, none, none, none, none, none, none, none⟩

def MergePatch.toPatch : TaskPatch where
  apply task :=
    { task with
      taskKind := patch.taskKind.or task.taskKind
      sourceId := patch.sourceId.or task.sourceId
      parentFlowId := patch.parentFlowId.or task.parentFlowId
      parentTaskId := patch.parentTaskId.or task.parentTaskId
      agentId := patch.agentId.or task.agentId
      label := patch.label.or task.label
      task := patch.task.getD task.task
      deliveryStatus := patch.deliveryStatus.getD task.deliveryStatus
      notifyPolicy := patch.notifyPolicy.getD task.notifyPolicy }
  taskId _ := rfl

def mergeExistingTaskForCreate (existing : TaskRecord) (params : CreateTaskParams) : TaskRegistry :=
  let patch := mergePatch existing params
  -- `assertParentFlowLinkAllowed` throws before anything is written
  if patch.parentFlowId.isSome &&
      !env.parentFlowLinkAllowed existing.ownerKey existing.scopeKind params.parentFlowId then
    reg
  else if patch.isEmpty then reg
  else updateTask env reg existing.taskId patch.toPatch

/-- The record that `createTaskRecord` inserts. -/
def newTaskRecord : TaskRecord :=
  let scope := params.scope
  let status := params.status.getD .queued
  let deliveryStatus :=
    params.deliveryStatus.getD (ensureDeliveryStatus scope.ownerKey scope.scopeKind)
  let record := normalizeTaskTimestamps
    { taskId := taskId
      runtime := params.runtime
      taskKind := normalizeOptionalString params.taskKind
      sourceId := normalizeOptionalString params.sourceId
      requesterSessionKey := scope.requesterSessionKey
      ownerKey := scope.ownerKey
      scopeKind := scope.scopeKind
      childSessionKey := params.childSessionKey
      parentFlowId := normalizeOptionalString params.parentFlowId
      parentTaskId := normalizeOptionalString params.parentTaskId
      agentId := params.agentId
      runId := normalizeOptionalString params.runId
      label := normalizeOptionalString params.label
      task := params.task
      status := status
      deliveryStatus := deliveryStatus
      notifyPolicy := ensureNotifyPolicy params.notifyPolicy (some deliveryStatus) scope.ownerKey
        scope.scopeKind
      createdAt := env.now
      startedAt := params.startedAt
      lastEventAt := some ((params.lastEventAt.or params.startedAt).getD env.now)
      cleanupAfter := params.cleanupAfter
      progressSummary := normalizeTaskSummary params.progressSummary
      terminalSummary := normalizeTaskSummary params.terminalSummary
      terminalOutcome := resolveTaskTerminalOutcome status params.terminalOutcome }
  stampCleanupAfter record ((record.endedAt.or record.lastEventAt).getD record.createdAt)

@[simp]
theorem newTaskRecord_taskId : (newTaskRecord env taskId params).taskId = taskId := by
  simp [newTaskRecord]

/-- `createTaskRecord`, with the id that `crypto.randomUUID` gives. -/
def createTaskRecord : TaskRegistry :=
  let scope := params.scope
  -- `assertTaskOwner` and `assertParentFlowLinkAllowed` throw
  if trim scope.ownerKey = [] && scope.scopeKind ≠ .system then reg
  else if trimmedOrEmpty params.parentFlowId ≠ [] &&
      !env.parentFlowLinkAllowed scope.ownerKey scope.scopeKind params.parentFlowId then
    reg
  else
    match findExistingTaskForCreate reg params with
    | some existing => mergeExistingTaskForCreate env reg existing params
    | none =>
      let record := newTaskRecord env taskId params
      let reg := putTask reg record
      if isTerminalTaskStatus record.status then maybeDeliverTaskTerminalUpdate env reg taskId
      else reg

/-! ## Cancellation -/

variable (reason : Option Str)

def cancelPatch : TaskPatch where
  apply task :=
    { task with
      status := .cancelled
      endedAt := some env.now
      lastEventAt := some env.now
      error := some ((normalizeOptionalString reason).getD "Cancelled by operator.".toList) }
  taskId _ := rfl

/-- The end of `cancelTaskById`. -/
def writeCancelled : TaskRegistry :=
  maybeDeliverTaskTerminalUpdate env (updateTask env reg taskId (cancelPatch env reason)) taskId

/-- `cancelTaskById` up to its wait. -/
def cancelTaskById : TaskRegistry :=
  match reg.tasks.find (trim taskId) with
  | none => reg
  | some task =>
    if isTerminalTaskStatus task.status then reg
    else if task.runtime = .cli then writeCancelled env reg task.taskId reason
    else if trimmedOrEmpty task.childSessionKey = [] then reg
    else if task.runtime = .cron then reg
    else { reg with cancels := reg.cancels ++ [⟨task.taskId, task.runtime, reason⟩] }

/-- What the control runtime answers to a cancellation. -/
inductive ControlAnswer where
  | threw
  | returned (found killed : Bool)
deriving DecidableEq

/-- Whether `cancelTaskById` goes on to write the status. An ACP session manager only
returns, a sub-agent run must have been found and killed. -/
def ControlAnswer.confirms (runtime : TaskRuntime) : ControlAnswer → Bool
  | threw => false
  | returned found killed => runtime = .acp || (found && killed)

/-- `cancelTaskById` after its wait. -/
def finishCancel (call : CancelCall) (answer : ControlAnswer) : TaskRegistry :=
  if answer.confirms call.runtime then writeCancelled env reg call.taskId call.reason else reg

/-! ## Steps -/

inductive TaskOperation where
  | agentEvent (evt : AgentEvent)
  | updateByRunId (params : TaskRunUpdate)
  | updateDeliveryByRunId (scope : TaskRunScope) (deliveryStatus : TaskDeliveryStatus)
      (error : Option Str)
  | create (taskId : Str) (params : CreateTaskParams)
  | setProgressById (taskId : Str) (progressSummary : Option (Option Str)) (lastEventAt : Option ℤ)
  | setTimingById (taskId : Str) (startedAt endedAt lastEventAt : Option ℤ)
  | setCleanupAfterById (taskId : Str) (cleanupAfter : ℤ)
  | updateNotifyPolicyById (taskId : Str) (notifyPolicy : TaskNotifyPolicy)
  | linkToFlowById (taskId flowId : Str)
  | markTerminalById (params : MarkTerminalParams)
  | markLostById (params : MarkLostParams)
  | deliverTerminal (taskId : Str)
  | deliverStateChange (taskId : Str) (latestEvent : Option TaskEventRecord)
  | finishSend (index : ℕ) (sent : Bool)
  | cancelById (taskId : Str) (reason : Option Str)
  | finishCancel (index : ℕ) (answer : ControlAnswer)
  | reload
  | restart

/-- The exported functions begin with `ensureTaskRegistryReady`; what goes on after a wait
does not. -/
def performTaskOperation : TaskOperation → TaskRegistry
  | .agentEvent evt => onAgentEvent env reg evt
  | .updateByRunId params => updateTaskStateByRunId env (ensureTaskRegistryReady reg) params
  | .updateDeliveryByRunId scope deliveryStatus error =>
    updateTaskDeliveryByRunId env (ensureTaskRegistryReady reg) scope deliveryStatus error
  | .create taskId params => createTaskRecord env (ensureTaskRegistryReady reg) taskId params
  | .setProgressById taskId progressSummary lastEventAt =>
    updateTask env (ensureTaskRegistryReady reg) taskId
      (setTaskProgressPatch progressSummary lastEventAt)
  | .setTimingById taskId startedAt endedAt lastEventAt =>
    updateTask env (ensureTaskRegistryReady reg) taskId
      (setTaskTimingPatch startedAt endedAt lastEventAt)
  | .setCleanupAfterById taskId cleanupAfter =>
    updateTask env (ensureTaskRegistryReady reg) taskId (setTaskCleanupAfterPatch cleanupAfter)
  | .updateNotifyPolicyById taskId notifyPolicy =>
    updateTask env (ensureTaskRegistryReady reg) taskId
      (updateTaskNotifyPolicyPatch env notifyPolicy)
  | .linkToFlowById taskId flowId =>
    linkTaskToFlowById env (ensureTaskRegistryReady reg) taskId flowId
  | .markTerminalById params =>
    updateTask env (ensureTaskRegistryReady reg) params.taskId params.patch
  | .markLostById params => updateTask env (ensureTaskRegistryReady reg) params.taskId params.patch
  | .deliverTerminal taskId =>
    maybeDeliverTaskTerminalUpdate env (ensureTaskRegistryReady reg) taskId
  | .deliverStateChange taskId latestEvent =>
    maybeDeliverTaskStateChangeUpdate env (ensureTaskRegistryReady reg) taskId latestEvent
  | .finishSend index sent =>
    match reg.sends[index]? with
    | none => reg
    | some send => OpenClaw.finishSend env { reg with sends := reg.sends.eraseIdx index } send sent
  | .cancelById taskId reason => cancelTaskById env (ensureTaskRegistryReady reg) taskId reason
  | .finishCancel index answer =>
    match reg.cancels[index]? with
    | none => reg
    | some call =>
      OpenClaw.finishCancel env { reg with cancels := reg.cancels.eraseIdx index } call answer
  | .reload => reloadTaskRegistryFromStore reg
  | .restart => .start reg.store

/-- A new task gets an id that no task has. -/
def TaskOperation.Fresh : TaskOperation → Prop
  | .create taskId _ => (ensureTaskRegistryReady reg).tasks.find taskId = none
  | _ => True

def taskStep (label : TaskSurroundings × TaskOperation) (reg' : TaskRegistry) : Prop :=
  label.2.Fresh reg ∧ reg' = performTaskOperation label.1 reg label.2

/-- `getTaskById(taskId)?.status`, for the id as it stands in the registry. -/
def taskStatus : Option TaskStatus :=
  ((ensureTaskRegistryReady reg).tasks.find taskId).map (·.status)

end OpenClaw
