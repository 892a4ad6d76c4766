import OpenClaw.Lib.Keyed
import OpenClaw.Text.Basic
import Mathlib.Data.List.Sort

/-!
# Background tasks: records and their store

A task record, the table of status changes that a run may make, and the rows of the
SQLite store. The store is read in the order of `created_at, task_id` and drops empty
strings; a read back is normalised like a write.
-/

namespace OpenClaw

/-! ## Records -/

inductive TaskRuntime where
  | subagent | acp | cli | cron
deriving DecidableEq

def TaskRuntime.name : TaskRuntime → Str
  | subagent => "subagent".toList
  | acp => "acp".toList
  | cli => "cli".toList
  | cron => "cron".toList

inductive TaskStatus where
  | queued | running | succeeded | failed | timedOut | cancelled | lost
deriving DecidableEq

inductive TaskDeliveryStatus where
  | pending | delivered | sessionQueued | failed | parentMissing | notApplicable
deriving DecidableEq

inductive TaskNotifyPolicy where
  | doneOnly | stateChanges | silent
deriving DecidableEq

inductive TaskTerminalOutcome where
  | succeeded | blocked
deriving DecidableEq

inductive TaskScopeKind where
  | session | system
deriving DecidableEq

def TaskScopeKind.name : TaskScopeKind → Str
  | session => "session".toList
  | system => "system".toList

structure TaskRecord where
  taskId : Str
  runtime : TaskRuntime
  taskKind : Option Str := none
  sourceId : Option Str := none
  requesterSessionKey : Str
  ownerKey : Str
  scopeKind : TaskScopeKind
  childSessionKey : Option Str := none
  parentFlowId : Option Str := none
  parentTaskId : Option Str := none
  agentId : Option Str := none
  runId : Option Str := none
  label : Option Str := none
  task : Str
  status : TaskStatus
  deliveryStatus : TaskDeliveryStatus
  notifyPolicy : TaskNotifyPolicy
  createdAt : ℤ
  startedAt : Option ℤ := none
  endedAt : Option ℤ := none
  lastEventAt : Option ℤ := none
  cleanupAfter : Option ℤ := none
  error : Option Str := none
  progressSummary : Option Str := none
  terminalSummary : Option Str := none
  terminalOutcome : Option TaskTerminalOutcome := none
deriving DecidableEq

def isTerminalTaskStatus : TaskStatus → Bool
  | .succeeded | .failed | .timedOut | .cancelled | .lost => true
  | .queued | .running => false

def shouldApplyRunScopedStatusUpdate (currentStatus nextStatus : TaskStatus) : Bool :=
  if currentStatus = nextStatus then true
  else if !isTerminalTaskStatus currentStatus then true
  else if !isTerminalTaskStatus nextStatus then false
  else currentStatus = .succeeded && nextStatus ≠ .lost

/-! ## Texts -/

/-- `value.replace(/\s+/g, " ")`. -/
def collapseSpaces : Str → Str
  | [] => []
  | c :: rest =>
    if isSpace c then
      match rest with
      | [] => [' ']
      | d :: _ => if isSpace d then collapseSpaces rest else ' ' :: collapseSpaces rest
    else c :: collapseSpaces rest

variable (value : Option Str)

def normalizeTaskSummary : Option Str :=
  value.bind fun value => nonEmptyText? (trim (collapseSpaces value))

/-- `value?.trim() ?? ""`. -/
def trimmedOrEmpty : Str := trim (value.getD [])

/-! ## Timestamps -/

/-- The earliest of a time and the times that are present. -/
def createdAtFloor (createdAt : ℤ) (candidates : List (Option ℤ)) : ℤ :=
  candidates.foldl (fun floor candidate => min floor (candidate.getD floor)) createdAt

variable (task : TaskRecord)

def normalizeTaskTimestamps : TaskRecord :=
  let createdAt := createdAtFloor task.createdAt [task.startedAt, task.lastEventAt, task.endedAt]
  let startedAt := task.startedAt.map (max · createdAt)
  let lastEventAt := task.lastEventAt.map (max · (startedAt.getD createdAt))
  let endedAt := task.endedAt.map (max · (startedAt.getD createdAt))
  { task with
    createdAt := createdAt
    startedAt := startedAt
    lastEventAt := lastEventAt
    endedAt := endedAt }

@[simp]
theorem normalizeTaskTimestamps_taskId : (normalizeTaskTimestamps task).taskId = task.taskId := rfl

@[simp]
theorem normalizeTaskTimestamps_status : (normalizeTaskTimestamps task).status = task.status := rfl

/-- `DEFAULT_TASK_RETENTION_MS`. -/
def defaultTaskRetentionMs : ℤ := 7 * 24 * 60 * 60000

variable (terminalAt : ℤ)

/-- A terminal record without a clean-up time gets one. -/
def stampCleanupAfter : TaskRecord :=
  if isTerminalTaskStatus task.status && task.cleanupAfter.isNone then
    { task with cleanupAfter := some (terminalAt + defaultTaskRetentionMs) }
  else
    task

@[simp]
theorem stampCleanupAfter_taskId : (stampCleanupAfter task terminalAt).taskId = task.taskId := by
  unfold stampCleanupAfter
  split_ifs <;> rfl

@[simp]
theorem stampCleanupAfter_status : (stampCleanupAfter task terminalAt).status = task.status := by
  unfold stampCleanupAfter
  split_ifs <;> rfl

/-! ## The store -/

/-- The row of a record, read back. -/
def rowToTaskRecord : TaskRecord :=
  { task with
    requesterSessionKey :=
      if task.scopeKind = .system then []
      else if trim task.requesterSessionKey = [] then task.ownerKey
      else trim task.requesterSessionKey
    taskKind := task.taskKind.bind nonEmptyText?
    sourceId := task.sourceId.bind nonEmptyText?
    childSessionKey := task.childSessionKey.bind nonEmptyText?
    parentFlowId := task.parentFlowId.bind nonEmptyText?
    parentTaskId := task.parentTaskId.bind nonEmptyText?
    agentId := task.agentId.bind nonEmptyText?
    runId := task.runId.bind nonEmptyText?
    label := task.label.bind nonEmptyText?
    error := task.error.bind nonEmptyText?
    progressSummary := task.progressSummary.bind nonEmptyText?
    terminalSummary := task.terminalSummary.bind nonEmptyText? }

/-- The order of the binary collation on task ids. -/
def strAtMost : Str → Str → Bool
  | [], _ => true
  | _ :: _, [] => false
  | a :: as, b :: bs => if a = b then strAtMost as bs else a.toNat < b.toNat

/-- `ORDER BY created_at ASC, task_id ASC`. -/
def rowAtMost (a b : TaskRecord) : Bool :=
  a.createdAt < b.createdAt || (a.createdAt = b.createdAt && strAtMost a.taskId b.taskId)

/-- The tasks by id, in insertion order. -/
abbrev TaskMap := Keyed TaskRecord TaskRecord.taskId

structure TaskStore where
  rows : TaskMap
  /-- `last_notified_event_at` of the delivery states. -/
  lastNotifiedEventAt : Str → Option ℤ

variable (store : TaskStore)

/-- `tasks` after the rows of the store are set one by one. -/
def TaskStore.loadTasks : TaskMap :=
  store.rows.reread (store.rows.entries.mergeSort rowAtMost)
    (fun row => normalizeTaskTimestamps (rowToTaskRecord row)) (List.mergeSort_perm _ _)
    fun _ => rfl

theorem TaskStore.find_loadTasks (taskId : Str) : store.loadTasks.find taskId =
      (store.rows.find taskId).map fun row => normalizeTaskTimestamps (rowToTaskRecord row) :=
  Keyed.find_reread _ _ _ _

end OpenClaw
