import Mathlib.Data.List.Sort
import OpenClaw.Cron.Service

/-!
# The start of the cron service

`start` of `cron/service/ops.ts` with `runMissedJobs` of `cron/service/timer.ts`: the runs
that a restart has interrupted are recorded as failed, the jobs that were missed are run or
put off, and the timer is armed. Each function below is one locked section.
-/

namespace OpenClaw

/-- What the cron service is started with, with the options of the catch-up. -/
structure CronStartDeps extends CronDeps where
  maxMissedJobsPerRestart : Option ℤ
  missedJobStaggerMs : Option ℤ
  startupDeferredMissedAgentJobDelayMs : Option ℤ

variable (deps : CronStartDeps)

/-! ## Interrupted runs -/

def startupInterruptedError : Str := "cron: job interrupted by gateway restart".toList

variable (job : CronJob) (nowMs : ℤ)

def markInterruptedStartupRun (runningAtMs nowMs : ℤ) : CronJob :=
  { job with
    enabled := if job.isAt then some false else job.enabled
    state := { job.state with
      runningAtMs := none
      lastRunAtMs := some runningAtMs
      lastStatus := some .error
      lastError := some startupInterruptedError
      lastDurationMs := some (max 0 (nowMs - runningAtMs))
      consecutiveErrors := some (max 0 (job.state.consecutiveErrors.getD 0) + 1)
      nextRunAtMs := none } }

/-- What the first section does with a job. The clock is read for each job. -/
def markIfInterrupted (clock : Str → ℤ) (job : CronJob) : CronJob :=
  match job.state.runningAtMs with
  | none => job
  | some runningAtMs => markInterruptedStartupRun job runningAtMs (clock job.id)

variable (s : CronStore)

/-- `persist` with `stateOnly`. -/
def CronStore.persistState : CronStore :=
  { s.persist with configFile := s.configFile }

/-- The first section of `start`: the store, and the ids of the interrupted jobs. -/
def markInterruptedRuns (loadNow : ℤ) (clock : Str → ℤ) : CronStore × List Str :=
  let s := s.ensureLoaded deps.toCronDeps false true loadNow
  let jobs := s.jobs.getD []
  let interrupted := jobs.filter (·.state.runningAtMs.isSome)
  let marked := s.mapJobs (·.map (markIfInterrupted clock))
  (if interrupted ≠ [] then marked.persist
    else if jobs ≠ [] then marked.persistState
    else marked,
    interrupted.map (·.id))

/-! ## Missed jobs -/

def isErrorBackoffPending : Bool :=
  if job.isAt ∨ job.state.lastStatus ≠ some .error then false
  else match job.state.lastRunAtMs with
    | none => false
    | some lastRunAtMs => nowMs < lastRunAtMs +
        errorBackoffMs (effectiveConsecutiveErrors job) defaultErrorBackoffScheduleMs

def computeJobPreviousRunAtMs : Except Str (Option ℤ) :=
  if !job.isEnabled || !job.isCron then .ok none
  else computeStaggeredCronPreviousRunAtMs deps.toCronHost job.id job.schedule nowMs

/-- A cron job has had a slot since its last run. -/
def missedSlotSinceLastRun : Bool :=
  match computeJobPreviousRunAtMs deps job nowMs, job.state.lastRunAtMs with
  | .ok (some previousRunAtMs), some lastRunAtMs => lastRunAtMs < previousRunAtMs
  | _, _ => false

/-- A one-shot job that has run is missed only if it waits for a retry. -/
def isMissedRetry : Bool :=
  match job.state.lastStatus, job.state.nextRunAtMs, job.state.lastRunAtMs with
  | some .error, some nextRun, some lastRun => lastRun < nextRun && nextRun ≤ nowMs
  | _, _, _ => false

variable (skipJobIds : List Str)

/-- `isRunnableJob` with the options `skipJobIds`, `skipAtIfAlreadyRan` and
`allowCronMissedRunByLastRun`. -/
def isMissedJob (job : CronJob) (nowMs : ℤ) : Bool :=
  if !job.isEnabled then false
  else if job.id ∈ skipJobIds then false
  else if job.state.runningAtMs.isSome then false
  else if job.isAt ∧ job.state.lastStatus.isSome then isMissedRetry job nowMs
  else
    let hasNext := hasScheduledNextRunAtMs job.state.nextRunAtMs
    if hasNext ∧ job.state.nextRunAtMs.any (· ≤ nowMs) then true
    else if hasNext ∧ job.state.nextRunAtMs.any (nowMs < ·) ∧ isErrorBackoffPending job nowMs then
      false
    else if !job.isCron then false
    else missedSlotSinceLastRun deps job nowMs

structure StartupDeferredJob where
  jobId : Str
  delayMs : Option ℤ
deriving DecidableEq

structure StartupCatchupPlan where
  candidates : List CronJob
  deferredJobs : List StartupDeferredJob
deriving DecidableEq

/-- The plan for the jobs that were missed. Agent turns are put off until after the start. -/
def startupCatchupPlan (missed : List CronJob) : StartupCatchupPlan :=
  let maxImmediate := max 0 (deps.maxMissedJobsPerRestart.getD 5)
  let sorted := missed.insertionSort fun a b =>
    a.state.nextRunAtMs.getD 0 ≤ b.state.nextRunAtMs.getD 0
  let deferredAgentJobs := sorted.filter (·.payloadKind = .agentTurn)
  let startupEligible := sorted.filter (·.payloadKind ≠ .agentTurn)
  let deferredAgentDelayMs :=
    max 0 (deps.startupDeferredMissedAgentJobDelayMs.getD (2 * 60000))
  { candidates := startupEligible.take maxImmediate.toNat
    deferredJobs := (startupEligible.drop maxImmediate.toNat).map (⟨·.id, none⟩) ++
      deferredAgentJobs.map (⟨·.id, some deferredAgentDelayMs⟩) }

/-- `planStartupCatchup`, which is only called by `start`: the store, and the plan. -/
def planStartupCatchup (loadNow nowMs : ℤ) : CronStore × StartupCatchupPlan :=
  let s := s.ensureLoaded deps.toCronDeps false true loadNow
  let missed := (s.jobs.getD []).filter (isMissedJob deps skipJobIds · nowMs)
  if missed = [] then (s, ⟨[], []⟩)
  else
    let plan := startupCatchupPlan deps missed
    ((s.mapJobs fun jobs => jobs.map fun job =>
      if job ∈ plan.candidates then markRunning nowMs job else job).persist, plan)

/-- Puts the deferred jobs off, one after the other. -/
def deferJobs (staggerMs baseNow : ℤ) : ℤ → List StartupDeferredJob → List CronJob → List CronJob
  | _, [], jobs => jobs
  | offset, deferred :: rest, jobs =>
    if (findJob jobs deferred.jobId).any (·.isEnabled) then
      let nextRunAtMs := match deferred.delayMs with
        | some delayMs => baseNow + delayMs + offset - staggerMs
        | none => baseNow + offset
      deferJobs staggerMs baseNow (offset + staggerMs) rest
        (updateJob deferred.jobId (·.setNextRun (some nextRunAtMs)) jobs)
    else deferJobs staggerMs baseNow offset rest jobs

/-- `applyStartupCatchupOutcomes`. -/
def applyStartupCatchupOutcomes (deferredJobs : List StartupDeferredJob)
    (outcomes : List (Str × CronRunResult)) (loadNow baseNow walkNow : ℤ) : CronStore :=
  let staggerMs := max 0 (deps.missedJobStaggerMs.getD 5000)
  let s := s.ensureLoaded deps.toCronDeps false true loadNow
  (s.mapJobs fun jobs =>
    recomputeNextRunsForMaintenance deps.toCronDeps { repairFutureCronNextRunAtMs := false } walkNow <|
      deferJobs staggerMs baseNow staggerMs deferredJobs <|
        outcomes.foldl (fun jobs outcome =>
          applyResultTo deps.toCronDeps outcome.1 outcome.2 false jobs) jobs).persist

/-- The last section of `start`. -/
def finishStart (loadNow walkNow : ℤ) : CronStore :=
  let s := s.ensureLoaded deps.toCronDeps false true loadNow
  let walked := s.mapJobs
    (recomputeNextRunsForMaintenance deps.toCronDeps { recomputeExpired := true } walkNow)
  if walked.jobs = s.jobs then s else walked.persist

end OpenClaw
