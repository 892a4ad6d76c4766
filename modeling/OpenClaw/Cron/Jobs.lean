import OpenClaw.Cron.Schedule

/-!
# Cron jobs

`cron/service/jobs.ts`: when a job runs next, the repair of its schedule, and the two walks
over all jobs, with `applyJobResult` of `cron/service/timer.ts`. A job carries the fields
these functions read or write.
-/

namespace OpenClaw

inductive CronRunStatus where
  | ok | error | skipped
deriving DecidableEq

inductive CronPayloadKind where
  | systemEvent | agentTurn
deriving DecidableEq

structure CronJobState where
  nextRunAtMs : Option ℤ := none
  runningAtMs : Option ℤ := none
  lastRunAtMs : Option ℤ := none
  lastStatus : Option CronRunStatus := none
  lastError : Option Str := none
  lastDurationMs : Option ℤ := none
  consecutiveErrors : Option ℤ := none
  consecutiveSkipped : Option ℤ := none
  scheduleErrorCount : Option ℤ := none
deriving DecidableEq

structure CronJob where
  id : Str
  enabled : Option Bool
  deleteAfterRun : Option Bool
  createdAtMs : Option ℤ
  schedule : CronSchedule
  sessionTarget : Str
  payloadKind : CronPayloadKind
  state : CronJobState
deriving DecidableEq

inductive CronRetryOn where
  | rateLimit | overloaded | network | timeout | serverError
deriving DecidableEq

/-- `cronConfig.retry`. -/
structure CronRetryConfig where
  maxAttempts : Option ℤ := none
  backoffMs : Option (List ℤ) := none
  retryOn : Option (List CronRetryOn) := none
deriving DecidableEq

/-- What the cron service is started with. -/
structure CronDeps extends CronHost where
  retry : Option CronRetryConfig
  /-- `isTransientCronError`. -/
  isTransientCronError (error : Option Str) (retryOn : Option (List CronRetryOn)) : Bool

variable (deps : CronDeps)

variable (job : CronJob)

namespace CronJob

/-- `isJobEnabled`. -/
def isEnabled : Bool := job.enabled.getD true

def isCron : Bool :=
  match job.schedule with
  | .cron .. => true
  | _ => false

def isAt : Bool :=
  match job.schedule with
  | .at _ => true
  | _ => false

def isEvery : Bool :=
  match job.schedule with
  | .every .. => true
  | _ => false

def setNextRun (nextRunAtMs : Option ℤ) : CronJob :=
  { job with state.nextRunAtMs := nextRunAtMs }

def setRunning (runningAtMs : Option ℤ) : CronJob :=
  { job with state.runningAtMs := runningAtMs }

end CronJob

/-! ## Backoff -/

def stuckRunMs : ℤ := 2 * 60 * 60 * 1000

def defaultErrorBackoffScheduleMs : List ℤ :=
  [30000, 60000, 5 * 60000, 15 * 60000, 60 * 60000]

def hasScheduledNextRunAtMs (value : Option ℤ) : Bool := value.any (0 < ·)

def errorBackoffMs (consecutiveErrors : ℤ) (scheduleMs : List ℤ) : ℤ :=
  scheduleMs.getD (max 0 (min (consecutiveErrors - 1) (scheduleMs.length - 1))).toNat 30000

/-- `cronConfig?.retry?.backoffMs ?? DEFAULT_ERROR_BACKOFF_SCHEDULE_MS`. -/
def retryBackoffMs : List ℤ :=
  (deps.retry.bind (·.backoffMs)).getD defaultErrorBackoffScheduleMs

/-- The error count the repair works with. -/
def effectiveConsecutiveErrors : ℤ :=
  match job.state.consecutiveErrors with
  | some errors => max 1 errors
  | none => 1

/-! ## The next run -/

def resolveEveryAnchorMs (anchorMs : Option ℤ) (fallbackAnchorMs : ℤ) : ℤ :=
  max 0 (anchorMs.getD fallbackAnchorMs)

variable (nowMs : ℤ)

def computeJobNextRunAtMs : Except Str (Option ℤ) :=
  if !job.isEnabled then .ok none
  else match job.schedule with
    | .every everyMs anchorMs =>
      let every := max 1 everyMs
      let anchor := resolveEveryAnchorMs anchorMs (job.createdAtMs.getD nowMs)
      match job.state.lastRunAtMs with
      | some lastRun =>
        if nowMs < lastRun + every then .ok (some (lastRun + every))
        else computeNextRunAtMs deps.toCronHost (.every every (some anchor)) nowMs
      | none => computeNextRunAtMs deps.toCronHost (.every every (some anchor)) nowMs
    | .at time =>
      let atMs := parseAbsoluteTimeMs deps.toCronHost time
      match job.state.lastRunAtMs with
      | some lastRun =>
        if job.state.lastStatus = some .ok ∧ lastRun ≠ 0 then .ok (atMs.filter (lastRun < ·))
        else .ok atMs
      | none => .ok atMs
    | .cron .. => do
      let next ← computeStaggeredCronNextRunAtMs deps.toCronHost job.id job.schedule nowMs
      if next.isSome then return next
      -- an evaluator without an answer is asked again from the next second
      let nextSecondMs := nowMs / 1000 * 1000 + 1000
      computeStaggeredCronNextRunAtMs deps.toCronHost job.id job.schedule nextSecondMs

def maxScheduleErrors : ℤ := 3

def recordScheduleComputeError (err : Str) : CronJob :=
  let errorCount := job.state.scheduleErrorCount.getD 0 + 1
  { job with
    enabled := if maxScheduleErrors ≤ errorCount then some false else job.enabled
    state := { job.state with
      scheduleErrorCount := some errorCount
      nextRunAtMs := none
      lastError := some ("schedule error: ".toList ++ err) } }

/-- `recomputeJobNextRunAtMs`: the next run, not before the backoff of a failed job. -/
def recomputeJobNextRunAtMs : CronJob :=
  match computeJobNextRunAtMs deps job nowMs with
  | .error err => recordScheduleComputeError job err
  | .ok newNext =>
    let floored := match job.state.lastRunAtMs with
      | some lastRun =>
        if !job.isAt ∧ job.state.lastStatus = some .error then
          newNext.map fun next => max next
            (lastRun + errorBackoffMs (effectiveConsecutiveErrors job) (retryBackoffMs deps))
        else newNext
      | none => newNext
    { job with state := { job.state with
      nextRunAtMs := floored
      scheduleErrorCount := job.state.scheduleErrorCount.filter (· = 0) } }

/-! ## Repair -/

/-- `isStaggeredCronRunAtMs`. -/
def isStaggeredCronRunAtMs (runAtMs : ℤ) : Except Str Bool := do
  if !job.isCron then return false
  let previous ← computeStaggeredCronPreviousRunAtMs deps.toCronHost job.id job.schedule (runAtMs + 1)
  return previous = some runAtMs

def isPendingErrorBackoffSlot (nextRunAtMs nowMs : ℤ) : Bool :=
  match job.state.lastRunAtMs with
  | none => false
  | some lastRun =>
    if job.state.lastStatus ≠ some .error then false
    else
      let lastEndedAtMs := lastRun + max 0 (job.state.lastDurationMs.getD 0)
      let backoffFloor := lastEndedAtMs +
        errorBackoffMs (effectiveConsecutiveErrors job) (retryBackoffMs deps)
      nowMs < backoffFloor && nextRunAtMs ≤ backoffFloor

/-- The comparison of a future run with the runs the schedule has. -/
def isStaleFutureRun (nextRun nowMs : ℤ) : Bool :=
  match computeStaggeredCronNextRunAtMs deps.toCronHost job.id job.schedule nowMs with
  | .ok (some naturalNext) =>
    match isStaggeredCronRunAtMs deps job nextRun with
    | .ok false =>
      if nextRun < naturalNext then job.payloadKind ≠ .agentTurn
      else if nextRun = naturalNext then false
      else match computeStaggeredCronNextRunAtMs deps.toCronHost job.id job.schedule naturalNext with
        | .ok (some followingNaturalNext) =>
          0 < followingNaturalNext - naturalNext &&
            followingNaturalNext + (followingNaturalNext - naturalNext) ≤ nextRun
        | _ => false
    | _ => false
  | _ => false

def shouldRepairFutureCronNextRunAtMs : Bool :=
  match job.state.nextRunAtMs with
  | none => false
  | some nextRun =>
    if !job.isCron ∨ nextRun ≤ 0 ∨ nextRun ≤ nowMs ∨ job.state.runningAtMs.isSome then false
    else if isPendingErrorBackoffSlot deps job nextRun nowMs then false
    else isStaleFutureRun deps job nextRun nowMs

/-! ## The walks -/

/-- The anchor that `normalizeJobTickState` fills in. -/
def normalizeAnchor : CronJob :=
  match job.schedule with
  | .every everyMs anchorMs => { job with
      schedule := .every everyMs
        (some (resolveEveryAnchorMs anchorMs (job.createdAtMs.getD nowMs))) }
  | _ => job

@[simp]
theorem normalizeAnchor_state (now : ℤ) : (normalizeAnchor job now).state = job.state := by
  unfold normalizeAnchor
  split <;> rfl

@[simp]
theorem normalizeAnchor_isEnabled (now : ℤ) :
    (normalizeAnchor job now).isEnabled = job.isEnabled := by
  unfold normalizeAnchor
  split <;> rfl

/-- The slot of the job has been executed. -/
def alreadyExecutedSlot : Bool :=
  match job.state.nextRunAtMs, job.state.lastRunAtMs with
  | some nextRun, some lastRun => nextRun ≤ lastRun
  | _, _ => false

/-- `normalizeJobTickState`: the job, and whether the walk skips it. -/
def normalizeJobTickState : CronJob × Bool :=
  let job := normalizeAnchor job nowMs
  if !job.isEnabled then ((job.setNextRun none).setRunning none, true)
  else
    let job := if hasScheduledNextRunAtMs job.state.nextRunAtMs then job else job.setNextRun none
    match job.state.runningAtMs with
    | none => (job, false)
    | some runningAt =>
      if stuckRunMs < nowMs - runningAt then (job.setRunning none, !alreadyExecutedSlot job)
      else (job, false)

variable (fn : CronJob → ℤ → CronJob)

/-- `walkSchedulableJobs` on one job. -/
def walkJob (nowMs : ℤ) (job : CronJob) : CronJob :=
  match normalizeJobTickState job nowMs with
  | (job, true) => job
  | (job, false) => fn job nowMs

def walkSchedulableJobs (nowMs : ℤ) (jobs : List CronJob) : List CronJob :=
  jobs.map (walkJob fn nowMs)

/-- What `recomputeNextRuns` does with a job. -/
def recomputeIfDueOrMissing : CronJob :=
  let isDueOrMissing := !hasScheduledNextRunAtMs job.state.nextRunAtMs ||
    job.state.nextRunAtMs.any (· ≤ nowMs)
  if isDueOrMissing || shouldRepairFutureCronNextRunAtMs deps job nowMs then
    recomputeJobNextRunAtMs deps job nowMs
  else job

def recomputeNextRuns (jobs : List CronJob) : List CronJob :=
  walkSchedulableJobs (recomputeIfDueOrMissing deps) nowMs jobs

structure MaintenanceOptions where
  recomputeExpired : Bool := false
  repairFutureCronNextRunAtMs : Bool := true
deriving DecidableEq

variable (opts : MaintenanceOptions)

/-- What `recomputeNextRunsForMaintenance` does with a job. -/
def maintainJob (job : CronJob) (nowMs : ℤ) : CronJob :=
  if !hasScheduledNextRunAtMs job.state.nextRunAtMs then recomputeJobNextRunAtMs deps job nowMs
  else if opts.repairFutureCronNextRunAtMs && shouldRepairFutureCronNextRunAtMs deps job nowMs then
    recomputeJobNextRunAtMs deps job nowMs
  else if opts.recomputeExpired && job.state.nextRunAtMs.any (· ≤ nowMs) &&
      job.state.runningAtMs.isNone && alreadyExecutedSlot job then
    recomputeJobNextRunAtMs deps job nowMs
  else job

def recomputeNextRunsForMaintenance (nowMs : ℤ) (jobs : List CronJob) : List CronJob :=
  walkSchedulableJobs (maintainJob deps opts) nowMs jobs

/-! ## Results -/

structure CronRunResult where
  status : CronRunStatus
  error : Option Str
  startedAt : ℤ
  endedAt : ℤ
deriving DecidableEq

def defaultMaxTransientRetries : ℤ := 3

/-- `resolveRetryConfig(cronConfig).backoffMs`. -/
def oneShotBackoffMs : List ℤ :=
  match deps.retry.bind (·.backoffMs) with
  | some (first :: rest) => first :: rest
  | _ => defaultErrorBackoffScheduleMs.take 3

/-- `resolveRetryConfig(cronConfig).maxAttempts`. -/
def oneShotMaxAttempts : ℤ := (deps.retry.bind (·.maxAttempts)).getD defaultMaxTransientRetries

/-- `resolveRetryConfig(cronConfig).retryOn`. -/
def oneShotRetryOn : Option (List CronRetryOn) := (deps.retry.bind (·.retryOn)).filter (· ≠ [])

def resolveCronNextRunWithLowerBound (naturalNext : Option ℤ) (lowerBoundMs : ℤ) : Option ℤ :=
  naturalNext.map (max · lowerBoundMs)

def minRefireGapMs : ℤ := 2000

variable (result : CronRunResult)

/-- What a result leaves in the job's state before the next run is computed. -/
def recordJobResult : CronJob :=
  { job with
    state := { job.state with
      runningAtMs := none
      lastRunAtMs := some result.startedAt
      lastStatus := some result.status
      lastDurationMs := some (max 0 (result.endedAt - result.startedAt))
      lastError := result.error
      consecutiveErrors :=
        if result.status = .error then some (job.state.consecutiveErrors.getD 0 + 1) else some 0
      consecutiveSkipped :=
        if result.status = .skipped then some (job.state.consecutiveSkipped.getD 0 + 1)
        else some 0 } }

variable (prevLastRunAtMs : Option ℤ)

/-- The schedule's next run after a result. A manual run leaves the rhythm of an interval
alone: it is computed from the run before. -/
def naturalNextAfterResult (endedAt : ℤ) (preserveSchedule : Bool) : Except Str (Option ℤ) :=
  if preserveSchedule ∧ job.isEvery then
    computeJobNextRunAtMs deps { job with state.lastRunAtMs := prevLastRunAtMs } endedAt
  else computeJobNextRunAtMs deps job endedAt

/-- The next run of a recurring job after a result. -/
def scheduleAfterResult (result : CronRunResult) (preserveSchedule : Bool) : CronJob :=
  let natural := naturalNextAfterResult deps job prevLastRunAtMs result.endedAt preserveSchedule
  let job := match natural with
    | .error err => recordScheduleComputeError job err
    | .ok _ => job
  let naturalNext := match natural with
    | .error _ => none
    | .ok next => next
  if result.status = .error then
    let backoff := errorBackoffMs (job.state.consecutiveErrors.getD 1) defaultErrorBackoffScheduleMs
    let backoffNext := result.endedAt + backoff
    job.setNextRun <|
      if job.isCron then resolveCronNextRunWithLowerBound naturalNext backoffNext
      else some (match naturalNext with
        | some next => max next backoffNext
        | none => backoffNext)
  else if job.isCron then
    job.setNextRun (resolveCronNextRunWithLowerBound naturalNext (result.endedAt + minRefireGapMs))
  else job.setNextRun naturalNext

/-- What a result does to the schedule of a one-shot job. -/
def settleOneShot : CronJob :=
  match result.status with
  | .ok | .skipped => { job.setNextRun none with enabled := some false }
  | .error =>
    let consecutive := job.state.consecutiveErrors.getD 1
    if deps.isTransientCronError result.error (oneShotRetryOn deps) ∧
        consecutive ≤ oneShotMaxAttempts deps then
      job.setNextRun (some (result.endedAt + errorBackoffMs consecutive (oneShotBackoffMs deps)))
    else { job.setNextRun none with enabled := some false }

/-- `applyJobResult`, with its answer whether the job is to be deleted. -/
def applyJobResult (preserveSchedule : Bool) : CronJob × Bool :=
  let prevLastRunAtMs := job.state.lastRunAtMs
  let job := recordJobResult job result
  let shouldDelete := job.isAt && job.deleteAfterRun == some true && result.status == .ok
  if shouldDelete then (job, true)
  else if job.isAt then (settleOneShot deps job result, false)
  else if job.isEnabled then
    (scheduleAfterResult deps job prevLastRunAtMs result preserveSchedule, false)
  else (job.setNextRun none, false)

end OpenClaw
