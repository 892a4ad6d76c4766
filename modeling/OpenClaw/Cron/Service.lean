import OpenClaw.Cron.Jobs

/-!
# The operations of the cron service

`cron/service/ops.ts` and `onTimer` of `cron/service/timer.ts`. Each function below is one
locked section. The clock is read anew in a section wherever the source does so.
-/

namespace OpenClaw

/-! ## The cron store

`cron/store.ts`, `cron/service/store.ts` and `cron/schedule-identity.ts`: the service keeps
the jobs in memory and on disk, where a second file holds what changes at run time. Saving
and loading do not fail here. -/

/-! ## Schedule identity -/

/-- What `tryCronScheduleIdentity` serializes. -/
structure CronScheduleIdentity where
  enabled : Bool
  schedule : CronSchedule
deriving DecidableEq

def trimmedNonEmpty? (s : Str) : Option Str := if trim s = [] then none else some (trim s)

variable (job : CronJob)

def tryCronScheduleIdentity : Option CronScheduleIdentity :=
  match job.schedule with
  | .at time => (trimmedNonEmpty? time).map fun time => ⟨job.enabled.getD true, .at time⟩
  | .every everyMs anchorMs => some ⟨job.enabled.getD true, .every everyMs anchorMs⟩
  | .cron expr tz staggerMs => (trimmedNonEmpty? expr).map fun expr =>
    ⟨job.enabled.getD true, .cron expr (tz.bind trimmedNonEmpty?) staggerMs⟩

def cronSchedulingInputsEqual (previous next : CronJob) : Bool :=
  (tryCronScheduleIdentity previous).isSome &&
    tryCronScheduleIdentity previous == tryCronScheduleIdentity next

/-! ## The store -/

/-- An entry of the state file. -/
structure CronStateFileEntry where
  scheduleIdentity : Option CronScheduleIdentity
  state : CronJobState
deriving DecidableEq

/-- The jobs in memory, if they have been loaded, and the two files. -/
structure CronStore where
  jobs : Option (List CronJob)
  configFile : List CronJob
  stateFile : Str → Option CronStateFileEntry

namespace CronStore

/-- `mergeStateFileEntry`. A job without an entry keeps its inline state. -/
def mergeStateFileEntry : Option CronStateFileEntry → CronJob
  | none => job
  | some entry =>
    let job := { job with state := entry.state }
    if entry.scheduleIdentity.isSome ∧ entry.scheduleIdentity ≠ tryCronScheduleIdentity job then
      job.setNextRun none
    else job

def loadCronStore (s : CronStore) : List CronJob :=
  s.configFile.map fun job => mergeStateFileEntry job (s.stateFile job.id)

variable (host : CronHost)

/-- The schedule as `normalizeCronJobInput` leaves it. -/
def coerceSchedule : CronSchedule → CronSchedule
  | .at time =>
    if trim time = [] then .at time
    else match parseAbsoluteTimeMs host (trim time) with
      | some ms => .at (host.isoString ms)
      | none => .at (trim time)
  | .every everyMs anchorMs => .every everyMs anchorMs
  | .cron expr tz staggerMs => .cron (trim expr) tz (staggerMs.map (max 0))

variable (previousJobs : List CronJob)

/-- `invalidateStaleNextRunOnScheduleChange`. -/
def invalidateStaleNextRun (hydrated : CronJob) : CronJob :=
  match previousJobs.reverse.find? (·.id = hydrated.id) with
  | none => hydrated
  | some previous =>
    if cronSchedulingInputsEqual previous hydrated then hydrated else hydrated.setNextRun none

/-- A job of the files as it comes into memory. -/
def hydrate (job : CronJob) : CronJob :=
  invalidateStaleNextRun previousJobs { job with
    schedule := coerceSchedule host job.schedule
    enabled := some (job.enabled.getD true) }

/-- The jobs that a load brings into memory. -/
def reloaded (s : CronStore) : List CronJob :=
  s.loadCronStore.map (hydrate host (s.jobs.getD []))

def ensureLoaded (deps : CronDeps) (s : CronStore) (forceReload skipRecompute : Bool) (nowMs : ℤ) :
    CronStore :=
  if s.jobs.isSome ∧ !forceReload then s
  else
    let jobs := s.reloaded deps.toCronHost
    { s with jobs := some (if skipRecompute then jobs else recomputeNextRuns deps nowMs jobs) }

/-- `persist`: the config file without the run-time fields, and the state file. -/
def persist (s : CronStore) : CronStore :=
  match s.jobs with
  | none => s
  | some jobs => { s with
      configFile := jobs.map fun job => { job with state := {} }
      stateFile := fun id => (jobs.reverse.find? (·.id = id)).map fun job =>
        ⟨tryCronScheduleIdentity job, job.state⟩ }

def mapJobs (f : List CronJob → List CronJob) (s : CronStore) : CronStore :=
  { s with jobs := s.jobs.map f }

end CronStore

/-! ## The operations of the cron service -/

variable (deps : CronDeps)

/-! ## Lists of jobs -/

/-- Changes the first job with this id. -/
def updateJob (id : Str) (f : CronJob → CronJob) : List CronJob → List CronJob
  | [] => []
  | job :: jobs => if job.id = id then f job :: jobs else job :: updateJob id f jobs

variable (id : Str)

def findJob (jobs : List CronJob) (id : Str) : Option CronJob := jobs.find? (·.id = id)

def removeJob (jobs : List CronJob) : List CronJob := jobs.filter (·.id ≠ id)

/-! ## Reading -/

variable (s : CronStore)

/-- `ensureLoadedForRead`, which is all that `status`, `list`, `listPage` and `readJob` do to
the store. -/
def ensureLoadedForRead (loadNow walkNow : ℤ) : CronStore :=
  let s := s.ensureLoaded deps false true loadNow
  let walked := s.mapJobs (recomputeNextRunsForMaintenance deps {} walkNow)
  if walked.jobs = s.jobs then s else walked.persist

/-! ## Editing -/

structure CronJobCreate where
  id : Str
  enabled : Option Bool
  deleteAfterRun : Option Bool
  schedule : CronSchedule
  sessionTarget : Str
  payloadKind : CronPayloadKind
  state : CronJobState
  /-- The checks of the fields that are left out here. -/
  accepted : Bool

/-- `assertSafeCronSessionTargetId`, as a test. -/
def isSafeCronSessionTargetId (sessionId : Str) : Bool :=
  trim sessionId ≠ [] && !(trim sessionId).any fun c => c == '/' || c == '\\' || c == '\x00'

/-- `assertSupportedJobSpec`, as a test. -/
def isSupportedJobSpec : Bool :=
  let target := job.sessionTarget
  let isSession := startsWith target "session:".toList
  let isIsolatedLike := target = "isolated" ∨ target = "current" ∨ isSession
  (!isSession || isSafeCronSessionTargetId (target.drop 8)) &&
    !(target = ("main" : Str) && job.payloadKind ≠ .systemEvent) &&
    !(isIsolatedLike && job.payloadKind ≠ .agentTurn)

variable (nowMs : ℤ)

/-- The schedule a new job gets. -/
def createSchedule (schedule : CronSchedule) (nowMs : ℤ) : CronSchedule :=
  match schedule with
  | .every everyMs anchorMs => .every everyMs (some (resolveEveryAnchorMs anchorMs nowMs))
  | .cron expr tz (some staggerMs) => .cron expr tz (some (max 0 staggerMs))
  | .cron expr tz none => .cron expr tz (resolveDefaultCronStaggerMs expr)
  | schedule => schedule

variable (input : CronJobCreate)

/-- `createJob`, with `none` where it throws. -/
def createJob (nowMs : ℤ) : Option CronJob :=
  let schedule := createSchedule input.schedule nowMs
  let job : CronJob := {
    id := input.id
    enabled := some (input.enabled.getD true)
    deleteAfterRun := input.deleteAfterRun.orElse fun _ =>
      match schedule with
      | .at _ => some true
      | _ => none
    createdAtMs := some nowMs
    schedule := schedule
    sessionTarget := input.sessionTarget
    payloadKind := input.payloadKind
    state := input.state }
  if !isSupportedJobSpec job ∨ !input.accepted then none
  else match computeJobNextRunAtMs deps job nowMs with
    | .error _ => none
    | .ok next => some (job.setNextRun next)

/-- `add`. -/
def add (loadNow createNow walkNow : ℤ) : CronStore :=
  let s := s.ensureLoaded deps false false loadNow
  match createJob deps input createNow with
  | none => s
  | some job => (s.mapJobs fun jobs => recomputeNextRuns deps walkNow (jobs ++ [job])).persist

/-- The fields of `patch.state`, where they are given. -/
structure CronJobStatePatch where
  nextRunAtMs : Option (Option ℤ) := none
  runningAtMs : Option (Option ℤ) := none
  lastRunAtMs : Option (Option ℤ) := none
  lastStatus : Option (Option CronRunStatus) := none
  lastError : Option (Option Str) := none
  lastDurationMs : Option (Option ℤ) := none
  consecutiveErrors : Option (Option ℤ) := none
  consecutiveSkipped : Option (Option ℤ) := none
  scheduleErrorCount : Option (Option ℤ) := none

def CronJobStatePatch.apply (patch : CronJobStatePatch) (state : CronJobState) : CronJobState where
  nextRunAtMs := patch.nextRunAtMs.getD state.nextRunAtMs
  runningAtMs := patch.runningAtMs.getD state.runningAtMs
  lastRunAtMs := patch.lastRunAtMs.getD state.lastRunAtMs
  lastStatus := patch.lastStatus.getD state.lastStatus
  lastError := patch.lastError.getD state.lastError
  lastDurationMs := patch.lastDurationMs.getD state.lastDurationMs
  consecutiveErrors := patch.consecutiveErrors.getD state.consecutiveErrors
  consecutiveSkipped := patch.consecutiveSkipped.getD state.consecutiveSkipped
  scheduleErrorCount := patch.scheduleErrorCount.getD state.scheduleErrorCount

structure CronJobPatch where
  enabled : Option Bool := none
  deleteAfterRun : Option Bool := none
  schedule : Option CronSchedule := none
  sessionTarget : Option Str := none
  payloadKind : Option CronPayloadKind := none
  state : CronJobStatePatch := {}
  /-- The checks of the fields that are left out here. -/
  accepted : Bool := true

/-- The schedule of a patched job. -/
def patchSchedule (current patch : CronSchedule) : CronSchedule :=
  match patch with
  | .cron expr tz (some staggerMs) => .cron expr tz (some (max 0 staggerMs))
  | .cron expr tz none =>
    match current with
    | .cron _ _ staggerMs => .cron expr tz staggerMs
    | _ => .cron expr tz (resolveDefaultCronStaggerMs expr)
  | patch => patch

variable (patch : CronJobPatch)

/-- The job with the fields of the patch. -/
def mergedJob : CronJob :=
  { job with
    enabled := patch.enabled.orElse fun _ => job.enabled
    deleteAfterRun := patch.deleteAfterRun.orElse fun _ => job.deleteAfterRun
    schedule := match patch.schedule with
      | some schedule => patchSchedule job.schedule schedule
      | none => job.schedule
    sessionTarget := patch.sessionTarget.getD job.sessionTarget
    payloadKind := patch.payloadKind.getD job.payloadKind
    state := patch.state.apply job.state }

/-- `applyJobPatch`, with `none` where it throws. -/
def applyJobPatch : Option CronJob :=
  if isSupportedJobSpec (mergedJob job patch) ∧ patch.accepted then some (mergedJob job patch)
  else none

/-- The anchor that `update` fills in. -/
def anchorPatchedJob (nowMs : ℤ) : CronJob :=
  match job.schedule with
  | .every everyMs none =>
    let fallbackAnchorMs := match patch.schedule with
      | some (.every ..) => nowMs
      | _ => job.createdAtMs.getD nowMs
    { job with schedule := .every everyMs (some (max 0 fallbackAnchorMs)) }
  | _ => job

/-- The next run of a patched job, with `none` where computing it throws. -/
def rescheduledJob (job : CronJob) (patch : CronJobPatch) (nowMs : ℤ) : Option CronJob :=
  if patch.schedule.isSome ∨ patch.enabled.isSome then
    if job.isEnabled then (computeJobNextRunAtMs deps job nowMs).toOption.map job.setNextRun
    else some ((job.setNextRun none).setRunning none)
  else if job.isEnabled ∧ !hasScheduledNextRunAtMs job.state.nextRunAtMs then
    (computeJobNextRunAtMs deps job nowMs).toOption.map job.setNextRun
  else some job

/-- The job that `update` stores, with `none` where it throws. -/
def patchedJob (job : CronJob) (patch : CronJobPatch) (nowMs : ℤ) : Option CronJob :=
  (applyJobPatch job patch).bind fun nextJob =>
    let nextJob := anchorPatchedJob nextJob patch nowMs
    -- a disabled cron job still has to have a schedule that can be evaluated
    if patch.schedule.isSome ∧ nextJob.isCron ∧ !nextJob.isEnabled ∧
        (computeJobNextRunAtMs deps { nextJob with enabled := some true } nowMs).toOption.isNone then
      none
    else rescheduledJob deps nextJob patch nowMs

/-- `update`. -/
def update (id : Str) (patch : CronJobPatch) (loadNow nowMs : ℤ) : CronStore :=
  let s := s.ensureLoaded deps false true loadNow
  match findJob (s.jobs.getD []) id with
  | none => s
  | some job =>
    match patchedJob deps job patch nowMs with
    | none => s
    | some nextJob => (s.mapJobs (updateJob id fun _ => nextJob)).persist

/-- `remove`. -/
def remove (id : Str) (loadNow : ℤ) : CronStore :=
  ((s.ensureLoaded deps false false loadNow).mapJobs (removeJob id)).persist

/-! ## Manual runs -/

inductive CronRunMode where
  | due | force
deriving DecidableEq

inductive ManualRunPreflight where
  | unknownJob
  | invalidSpec
  | alreadyRunning
  | notDue
  | runnable (nowMs : ℤ)
deriving DecidableEq

def isJobDue (forced : Bool) : Bool :=
  if job.state.runningAtMs.isSome then false
  else if forced then true
  else job.isEnabled && hasScheduledNextRunAtMs job.state.nextRunAtMs &&
    job.state.nextRunAtMs.any (· ≤ nowMs)

/-- Applies a result to the first job with this id, and deletes the job if it is done. -/
def applyResultTo (result : CronRunResult) (preserveSchedule : Bool)
    (jobs : List CronJob) : List CronJob :=
  match findJob jobs id with
  | none => jobs
  | some job =>
    if (applyJobResult deps job result preserveSchedule).2 then removeJob id jobs
    else updateJob id (fun job => (applyJobResult deps job result preserveSchedule).1) jobs

/-- `skipInvalidPersistedManualRun`. -/
def skipInvalidPersistedManualRun (id : Str) (mode : CronRunMode) (error : Str)
    (endedAt walkNow : ℤ) : CronStore :=
  (s.mapJobs fun jobs =>
    recomputeNextRunsForMaintenance deps { recomputeExpired := true } walkNow
      (applyResultTo deps id ⟨.skipped, some error, endedAt, endedAt⟩ (mode == .force) jobs)).persist

/-- `inspectManualRunPreflight`. -/
def inspectManualRunPreflight (id : Str) (mode : CronRunMode) (specError : Str)
    (loadNow walkNow nowMs endWalkNow : ℤ) : CronStore × ManualRunPreflight :=
  let s := (s.ensureLoaded deps false true loadNow).mapJobs
    (recomputeNextRunsForMaintenance deps {} walkNow)
  match findJob (s.jobs.getD []) id with
  | none => (s, .unknownJob)
  | some job =>
    if !isSupportedJobSpec job then
      (skipInvalidPersistedManualRun deps s id mode specError nowMs endWalkNow, .invalidSpec)
    else if job.state.runningAtMs.isSome then (s, .alreadyRunning)
    else if !isJobDue job nowMs (mode == .force) then (s, .notDue)
    else (s, .runnable nowMs)

/-- Marks a job as running. -/
def markRunning (job : CronJob) : CronJob :=
  { job with state := { job.state with runningAtMs := some nowMs, lastError := none } }

/-- The second section of `prepareManualRun`: the store, and whether the run is reserved. -/
def reserveManualRun (id : Str) (preflightNow : ℤ) : CronStore × Bool :=
  match findJob (s.jobs.getD []) id with
  | none => (s, false)
  | some job =>
    if job.state.runningAtMs.isSome then (s, false)
    else ((s.mapJobs (updateJob id (markRunning preflightNow))).persist, true)

/-- `mergeManualRunSnapshotAfterReload`. -/
def mergeManualRunSnapshotAfterReload (snapshot : Option CronJob)
    (jobs : List CronJob) : List CronJob :=
  match snapshot with
  | none => removeJob id jobs
  | some job => updateJob id (fun reloaded =>
      { reloaded with enabled := job.enabled, state := job.state }) jobs

/-- The locked section of `finishPreparedManualRun`. -/
def finishPreparedManualRun (id : Str) (mode : CronRunMode)
    (result : CronRunResult) (loadNow reloadNow walkNow : ℤ) : CronStore :=
  let s := s.ensureLoaded deps false true loadNow
  match findJob (s.jobs.getD []) id with
  | none => s
  | some job =>
    let applied := applyJobResult deps job result (mode == .force)
    let s := s.mapJobs (applyResultTo deps id result (mode == .force))
    let snapshot := if applied.2 then none else some applied.1
    let s := s.ensureLoaded deps true true reloadNow
    (s.mapJobs fun jobs =>
      recomputeNextRunsForMaintenance deps { recomputeExpired := true } walkNow
        (mergeManualRunSnapshotAfterReload id snapshot jobs)).persist

/-! ## The timer -/

/-- `isRunnableJob`, without the options that only a start of the service sets. -/
def isRunnableJob : Bool :=
  job.isEnabled && job.state.runningAtMs.isNone &&
    hasScheduledNextRunAtMs job.state.nextRunAtMs && job.state.nextRunAtMs.any (· ≤ nowMs)

/-- The first locked section of `onTimer`: the store, and the jobs it has reserved. -/
def scanDueJobs (loadNow dueCheckNow nowMs : ℤ) : CronStore × List CronJob :=
  let s := s.ensureLoaded deps true true loadNow
  let due := (s.jobs.getD []).filter (isRunnableJob · dueCheckNow)
  if due = [] then
    let walked := s.mapJobs
      (recomputeNextRunsForMaintenance deps { recomputeExpired := true } dueCheckNow)
    (if walked.jobs = s.jobs then s else walked.persist, [])
  else
    ((s.mapJobs fun jobs => jobs.map fun job =>
      if isRunnableJob job dueCheckNow then markRunning nowMs job else job).persist, due)

/-- The second locked section of `onTimer`: the outcomes of its runs, by job. -/
def applyDueOutcomes (outcomes : List (Str × CronRunResult)) (loadNow walkNow : ℤ) : CronStore :=
  let s := s.ensureLoaded deps true true loadNow
  (s.mapJobs fun jobs => recomputeNextRunsForMaintenance deps {} walkNow <|
    outcomes.foldl (fun jobs outcome => applyResultTo deps outcome.1 outcome.2 false jobs)
      jobs).persist

end OpenClaw
