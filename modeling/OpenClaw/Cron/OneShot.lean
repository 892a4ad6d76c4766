import OpenClaw.Lib.Run
import OpenClaw.Cron.Copies

/-!
# One-shot jobs

A service that ticks, is read and is restarted. Each start of a one-shot job uses up one of
its attempts, of which it has one more than it may be retried.
-/

namespace OpenClaw

open Lts List CronStore

/-! ## The process -/

/-- Where the process is: in its start, or ticking. While jobs are executed, those that wait
for their turn and those that have been started are known. -/
inductive CronStage where
  | booted
  | marked (interrupted : List Str)
  | catchingUp (deferredJobs : List StartupDeferredJob) (waiting started : List Str)
  | caughtUp
  | armed (waiting started : List Str)

variable (stage : CronStage)

namespace CronStage

def waiting : CronStage → List Str
  | catchingUp _ waiting _ | armed waiting _ => waiting
  | _ => []

def started : CronStage → List Str
  | catchingUp _ _ started | armed _ started => started
  | _ => []

/-- The reserved jobs whose outcome is not applied yet. -/
def inFlight : List Str := stage.waiting ++ stage.started

end CronStage

structure CronProcess where
  store : CronStore
  stage : CronStage

inductive CronProcessEvent where
  /-- `status`, `list`, `listPage` or `readJob`. -/
  | read (loadNow walkNow : ℤ)
  /-- The process ends, and another one is started. -/
  | restart
  | markInterrupted (loadNow : ℤ) (clock : Str → ℤ)
  | planCatchup (loadNow nowMs : ℤ)
  /-- An execution starts. -/
  | start (id : Str) (startedAt : ℤ)
  | applyCatchup (outcomes : List (Str × CronRunResult)) (loadNow baseNow walkNow : ℤ)
  | finishStart (loadNow walkNow : ℤ)
  | scan (loadNow dueCheckNow nowMs : ℤ)
  | applyTick (outcomes : List (Str × CronRunResult)) (loadNow walkNow : ℤ)

variable (deps : CronStartDeps)

/-- One step of the process. The clocks may show anything, and so may the outcomes. -/
inductive CronProcessStep : CronProcess → CronProcessEvent → CronProcess → Prop
  | read (s : CronProcess) (loadNow walkNow : ℤ) :
      CronProcessStep s (.read loadNow walkNow)
        { s with store := ensureLoadedForRead deps.toCronDeps s.store loadNow walkNow }
  | restart (s : CronProcess) :
      CronProcessStep s .restart ⟨{ s.store with jobs := none }, .booted⟩
  | markInterrupted (store : CronStore) (loadNow : ℤ) (clock : Str → ℤ) :
      CronProcessStep ⟨store, .booted⟩ (.markInterrupted loadNow clock)
        ⟨(markInterruptedRuns deps store loadNow clock).1,
          .marked (markInterruptedRuns deps store loadNow clock).2⟩
  | planCatchup (store : CronStore) (interrupted : List Str) (loadNow nowMs : ℤ) :
      CronProcessStep ⟨store, .marked interrupted⟩ (.planCatchup loadNow nowMs)
        (let planned := planStartupCatchup deps store interrupted loadNow nowMs
        ⟨planned.1,
          if planned.2.candidates = [] ∧ planned.2.deferredJobs = [] then .caughtUp
          else .catchingUp planned.2.deferredJobs (idsOf planned.2.candidates) []⟩)
  | startMissed (store : CronStore) (deferredJobs : List StartupDeferredJob) (id : Str)
      (waiting started : List Str) (startedAt : ℤ) :
      CronProcessStep ⟨store, .catchingUp deferredJobs (id :: waiting) started⟩
        (.start id startedAt) ⟨store, .catchingUp deferredJobs waiting (started ++ [id])⟩
  | applyCatchup (store : CronStore) (deferredJobs : List StartupDeferredJob) (started : List Str)
      (outcomes : List (Str × CronRunResult)) (loadNow baseNow walkNow : ℤ)
      (hrun : outcomes.map Prod.fst = started) :
      CronProcessStep ⟨store, .catchingUp deferredJobs [] started⟩
        (.applyCatchup outcomes loadNow baseNow walkNow)
        ⟨applyStartupCatchupOutcomes deps store deferredJobs outcomes loadNow baseNow walkNow,
          .caughtUp⟩
  | finishStart (store : CronStore) (loadNow walkNow : ℤ) :
      CronProcessStep ⟨store, .caughtUp⟩ (.finishStart loadNow walkNow)
        ⟨finishStart deps store loadNow walkNow, .armed [] []⟩
  /-- A tick without due jobs is over at once. -/
  | scan (store : CronStore) (loadNow dueCheckNow nowMs : ℤ) :
      CronProcessStep ⟨store, .armed [] []⟩ (.scan loadNow dueCheckNow nowMs)
        (let scanned := scanDueJobs deps.toCronDeps store loadNow dueCheckNow nowMs
        ⟨scanned.1, .armed (idsOf scanned.2) []⟩)
  /-- The job of the tick is still the one in memory. -/
  | startDue (store : CronStore) (id : Str) (waiting started : List Str) (startedAt : ℤ) :
      CronProcessStep ⟨store, .armed (id :: waiting) started⟩ (.start id startedAt)
        ⟨store.mapJobs (updateJob id (·.setRunning (some startedAt))),
          .armed waiting (started ++ [id])⟩
  | applyTick (store : CronStore) (started : List Str) (outcomes : List (Str × CronRunResult))
      (loadNow walkNow : ℤ) (hrun : outcomes.map Prod.fst = started) (hsome : started ≠ []) :
      CronProcessStep ⟨store, .armed [] started⟩
        (.applyTick outcomes loadNow walkNow)
        ⟨applyDueOutcomes deps.toCronDeps store outcomes loadNow walkNow, .armed [] []⟩

variable (id : Str)

namespace CronProcessEvent

/-- The event is an execution of the job. -/
def starts : CronProcessEvent → Bool
  | start id' _ => id' = id
  | _ => false

/-- An outcome after which a one-shot job is not to run again. -/
def IsFinal (result : CronRunResult) : Prop :=
  result.status ≠ .error ∨ deps.isTransientCronError result.error (oneShotRetryOn deps.toCronDeps) = false

/-- The event ends the last execution of the job: it has such an outcome, or a restart
interrupts it. -/
def EndsJob (s : CronProcess) : CronProcessEvent → Prop
  | restart => id ∈ s.stage.inFlight
  | applyCatchup outcomes _ _ _ | applyTick outcomes _ _ =>
    ∃ result, (id, result) ∈ outcomes ∧ IsFinal deps result
  | _ => False

/-- No walk of the event clears the marker of the job, which is enabled. -/
def KeepsMarker (s : CronProcess) : CronProcessEvent → Prop
  | read _ walkNow | finishStart _ walkNow =>
    ∀ job ∈ jobsWith id (s.store.current deps.toCronHost), job.view.NotStuck walkNow
  | applyCatchup outcomes _ _ walkNow => id ∉ outcomes.map Prod.fst →
    ∀ job ∈ jobsWith id (s.store.current deps.toCronHost), job.view.NotStuck walkNow
  | scan _ dueCheckNow _ =>
    (s.store.reloaded deps.toCronHost).any (isRunnableJob · dueCheckNow) = false →
      ∀ job ∈ jobsWith id (s.store.reloaded deps.toCronHost), job.view.NotStuck dueCheckNow
  | applyTick outcomes _ walkNow => id ∉ outcomes.map Prod.fst →
    ∀ job ∈ jobsWith id (s.store.reloaded deps.toCronHost), job.view.NotStuck walkNow
  | restart | markInterrupted _ _ | planCatchup _ _ | start _ _ => True

end CronProcessEvent

/-! ## Attempts -/

/-- Where the execution of a job is. -/
inductive RunPhase where
  | idle | waiting | started
deriving DecidableEq

def CronStage.phase : RunPhase :=
  if id ∈ stage.waiting then .waiting else if id ∈ stage.started then .started else .idle

/-- A one-shot job that may be started so many times: once, if it is not started yet, and once
for each retry left. A job that is enabled and marked but not in flight will be recorded as
interrupted. -/
structure MayRun (deps : CronStartDeps) (phase : RunPhase) (attempts : ℕ) (v : JobView) : Prop where
  isAt : v.isAt = true
  nonneg : 0 ≤ v.errors
  marked : v.isEnabled = true → phase ≠ .idle → v.runningAtMs.isSome = true
  attempts : v.isEnabled = true → (phase = .idle → v.runningAtMs = none) →
    max 0 (oneShotMaxAttempts deps.toCronDeps - v.errors) + (if phase = .started then 0 else 1) ≤
      attempts

variable {deps} {id : Str} {n m : ℕ} {phase : RunPhase} {v : JobView}

theorem mayRun_of_disabled (hat : v.isAt = true) (hnonneg : 0 ≤ v.errors)
    (hdisabled : v.isEnabled = false) : MayRun deps phase n v where
  isAt := hat
  nonneg := hnonneg
  marked henabled := absurd henabled (by simp [hdisabled])
  attempts henabled := absurd henabled (by simp [hdisabled])

theorem isOneShot_mayRun : IsOneShot (MayRun deps phase n) where
  isAt _ h := h.isAt
  cleared _ h hdisabled := mayRun_of_disabled h.isAt h.nonneg hdisabled

namespace MayRun

/-- The job is reserved. -/
theorem reserve (h : MayRun deps .idle n v) (hidle : v.runningAtMs = none) (now : ℤ) :
    MayRun deps .waiting n { v with runningAtMs := some now } where
  isAt := h.isAt
  nonneg := h.nonneg
  marked _ _ := rfl
  attempts henabled _ := h.attempts henabled fun _ => hidle

/-- An execution of the job starts. -/
theorem start (h : MayRun deps .waiting (n + 1) v) : MayRun deps .started n v where
  isAt := h.isAt
  nonneg := h.nonneg
  marked henabled _ := h.marked henabled (by decide)
  attempts henabled _ := by
    have := h.attempts henabled fun hidle => absurd hidle (by decide)
    simp at this ⊢
    omega

theorem setRunning (h : MayRun deps .started n v) (now : ℤ) :
    MayRun deps .started n { v with runningAtMs := some now } where
  isAt := h.isAt
  nonneg := h.nonneg
  marked _ _ := rfl
  attempts henabled _ := h.attempts henabled fun hidle => absurd hidle (by decide)

/-- A restart forgets what is in flight. -/
theorem restart (h : MayRun deps phase n v) : MayRun deps .idle n v where
  isAt := h.isAt
  nonneg := h.nonneg
  marked _ hidle := absurd rfl hidle
  attempts henabled hnone := by
    have hphase : phase = .idle := by
      by_contra hne
      have := h.marked henabled hne
      simp [hnone rfl] at this
    subst hphase
    exact h.attempts henabled hnone

/-- A job that was in flight bears its marker. -/
theorem interrupted (h : MayRun deps phase n v) (hflight : phase ≠ .idle) : MayRun deps .idle m v where
  isAt := h.isAt
  nonneg := h.nonneg
  marked _ hidle := absurd rfl hidle
  attempts henabled hnone := by
    have := h.marked henabled hflight
    simp [hnone rfl] at this

end MayRun

variable {job : CronJob} {now loadNow walkNow : ℤ} {outcomes : List (Str × CronRunResult)}
  {stage : CronStage}

theorem mayRun_markIfInterrupted (h : MayRun deps .idle n job.view)
    (clock : Str → ℤ) : MayRun deps .idle n (markIfInterrupted clock job).view := by
  have hat : job.isAt = true := h.isAt
  unfold markIfInterrupted
  split
  · exact h
  · rename_i runningAtMs hmarked
    refine mayRun_of_disabled hat ?_ ?_
    · show 0 ≤ max 0 (job.state.consecutiveErrors.getD 0) + 1
      omega
    · unfold markInterruptedStartupRun
      rw [if_pos hat]
      rfl

theorem view_recordJobResult (job : CronJob) (result : CronRunResult) :
    (recordJobResult job result).view =
      { job.view with
        runningAtMs := none
        errors := if result.status = .error then job.view.errors + 1 else 0 } := by
  by_cases herror : result.status = .error
  · rw [if_pos herror]
    simp only [recordJobResult, if_pos herror]
    rfl
  · rw [if_neg herror]
    simp only [recordJobResult, if_neg herror]
    rfl

/-- A one-shot job is enabled after a result only if it is to be retried. -/
theorem mayRun_applyJobResult {result : CronRunResult} (h : MayRun deps .started n job.view)
    (hkept : (applyJobResult deps.toCronDeps job result false).2 = false)
    (hm : m = n ∨ CronProcessEvent.IsFinal deps result) :
    MayRun deps .idle m (applyJobResult deps.toCronDeps job result false).1.view := by
  have hview := view_recordJobResult job result
  have hat : (recordJobResult job result).isAt = true := h.isAt
  have hnonneg : 0 ≤ (recordJobResult job result).view.errors := by
    have := h.nonneg
    rw [hview]
    dsimp only
    split <;> omega
  have hdone : MayRun deps .idle m
      { (recordJobResult job result).setNextRun none with enabled := some false }.view :=
    mayRun_of_disabled hat hnonneg rfl
  unfold applyJobResult at hkept ⊢
  dsimp only at hkept ⊢
  split at hkept
  · exact nomatch hkept
  rename_i hnotDeleted
  rw [if_neg hnotDeleted, if_pos hat]
  unfold settleOneShot
  cases hstatus : result.status with
  | ok => exact hdone
  | skipped => exact hdone
  | error =>
    have herrors : (recordJobResult job result).state.consecutiveErrors.getD 1 =
        job.view.errors + 1 := by
      simp [recordJobResult, hstatus, CronJob.view]
    dsimp only
    rw [herrors]
    split
    · rename_i hretry
      -- the error is transient, so that the outcome is not final
      have hsame : m = n := by
        refine hm.resolve_right ?_
        rintro (hother | hpermanent)
        · exact hother hstatus
        · simp [hpermanent] at hretry
      rw [CronJob.view_setNextRun, hview, hsame, if_pos hstatus]
      refine ⟨h.isAt, ?_, fun _ hidle => absurd rfl hidle, ?_⟩
      · have := h.nonneg
        show 0 ≤ job.view.errors + 1
        omega
      · intro henabled _
        have := h.attempts henabled fun hidle => absurd hidle (by decide)
        have hleft := hretry.2
        simp at this ⊢
        omega
    · exact hdone

/-! ## Steps -/

variable {s : CronStore} {jobs : List CronJob}

/-- Reserving some of the jobs in memory: the reserved ones were enabled and not marked. -/
theorem Sound.reserve {d : CronJob → Prop} [DecidablePred d] {ids : List Str}
    (h : Sound (MayRun deps .idle n) id s) (hjobs : s.jobs = some jobs)
    (hidle : ∀ job ∈ jobs, d job → job.isEnabled = true ∧ job.state.runningAtMs = none)
    (hids : ∀ job ∈ jobsWith id jobs, (id ∈ ids ↔ d job)) :
    Sound (MayRun deps (if id ∈ ids then .waiting else .idle) n) id
      (s.mapJobs (·.map fun job => if d job then markRunning now job else job)).persist := by
  have hdistinct := h.memory
  have hmemory := h.inMemory
  rw [hjobs] at hdistinct hmemory
  have hid : ∀ job, (if d job then markRunning now job else job).id = job.id := by
    intro job
    split <;> rfl
  have hreserved : (s.mapJobs (·.map fun job => if d job then markRunning now job else job)).jobs =
      some (jobs.map fun job => if d job then markRunning now job else job) := by
    rw [mapJobs_jobs, hjobs]
    rfl
  refine sound_persist hreserved ?_ ?_
  · rw [idsOf_map hid]
    exact hdistinct
  · intro job hjob
    rw [jobsWith_map hid, mem_map] at hjob
    obtain ⟨before, hbefore, rfl⟩ := hjob
    have hview := hmemory before hbefore
    by_cases hd : d before
    · rw [if_pos hd, if_pos ((hids before hbefore).mpr hd), CronJob.view_markRunning]
      exact hview.reserve (hidle before (mem_jobsWith.mp hbefore).1 hd).2 now
    · rw [if_neg hd, if_neg fun hmem => hd ((hids before hbefore).mp hmem)]
      exact hview

theorem mem_idsOf_iff {reserved : List CronJob} (hdistinct : (idsOf jobs).Nodup)
    (hsubset : reserved ⊆ jobs) (hjob : job ∈ jobsWith id jobs) :
    id ∈ idsOf reserved ↔ job ∈ reserved := by
  obtain ⟨hmem, hid⟩ := mem_jobsWith.mp hjob
  constructor
  · intro hidMem
    obtain ⟨other, hother, heq⟩ := mem_map.mp hidMem
    have hsame := inj_on_of_nodup_map hdistinct (hsubset hother) hmem (heq.trans hid.symm)
    exact hsame ▸ hother
  · intro hreserved
    exact hid ▸ mem_map_of_mem hreserved

/-- A job that can be reserved has an attempt left. -/
theorem MayRun.one_le (h : MayRun deps .idle n job.view)
    (henabled : job.isEnabled = true) (hidle : job.state.runningAtMs = none) : 1 ≤ n := by
  have hattempts := h.attempts henabled fun _ => hidle
  have hzero : (if RunPhase.idle = .started then (0 : ℤ) else 1) = 1 := rfl
  rw [hzero] at hattempts
  omega

theorem Sound.markInterrupted (h : Sound (MayRun deps .idle n) id s) (loadNow : ℤ)
    (clock : Str → ℤ) : Sound (MayRun deps .idle n) id (markInterruptedRuns deps s loadNow clock).1 := by
  have hloaded := h.load deps.toCronDeps loadNow
  have hjobs := ensureLoaded_skip_jobs deps.toCronDeps s loadNow
  have hdistinct := hloaded.memory
  have hmemory := hloaded.inMemory
  unfold markInterruptedRuns
  dsimp only
  rw [hjobs, Option.getD_some] at hdistinct hmemory ⊢
  set current := s.current deps.toCronHost
  have hid : ∀ job, (markIfInterrupted clock job).id = job.id := by
    intro job
    unfold markIfInterrupted
    split <;> rfl
  have hmarked : ((s.ensureLoaded deps.toCronDeps false true loadNow).mapJobs
      (·.map (markIfInterrupted clock))).jobs = some (current.map (markIfInterrupted clock)) := by
    rw [mapJobs_jobs, hjobs]
    rfl
  split
  · refine sound_persist hmarked ?_ ?_
    · rw [idsOf_map hid]
      exact hdistinct
    · intro job hjob
      rw [jobsWith_map hid, mem_map] at hjob
      obtain ⟨before, hbefore, rfl⟩ := hjob
      exact mayRun_markIfInterrupted (hmemory before hbefore) clock
  rename_i hnone
  -- no job is marked, and the jobs in memory stay as they are
  have hunmarked : ∀ job ∈ current, markIfInterrupted clock job = job := by
    intro job hjob
    have hrunning : job.state.runningAtMs = none := by
      by_contra hsome
      have := filter_eq_nil_iff.mp (not_not.mp hnone) job hjob
      exact this (Option.isSome_iff_ne_none.mpr hsome)
    unfold markIfInterrupted
    rw [hrunning]
  have hsame : (s.ensureLoaded deps.toCronDeps false true loadNow).mapJobs
      (·.map (markIfInterrupted clock)) = s.ensureLoaded deps.toCronDeps false true loadNow := by
    have hmap : current.map (markIfInterrupted clock) = current :=
      (map_congr_left hunmarked).trans (map_id' _)
    unfold CronStore.mapJobs
    rw [hjobs, Option.map_some, hmap, ← hjobs]
  rw [hsame]
  split
  · exact ⟨isSynced_persistState hloaded.toIsSynced,
      holds_persistState hjobs hloaded.toIsSynced hmemory⟩
  · exact hloaded

theorem isMissedJob_idle {skipJobIds : List Str} (h : isMissedJob deps skipJobIds job now = true) :
    job.isEnabled = true ∧ job.state.runningAtMs = none := by
  unfold isMissedJob at h
  split at h
  · exact nomatch h
  rename_i henabled
  split at h
  · exact nomatch h
  split at h
  · exact nomatch h
  rename_i hrunning
  refine ⟨by simpa using henabled, ?_⟩
  simpa using hrunning

theorem isRunnableJob_idle (h : isRunnableJob job now = true) :
    job.isEnabled = true ∧ job.state.runningAtMs = none := by
  unfold isRunnableJob at h
  simp only [Bool.and_eq_true, Option.isNone_iff_eq_none] at h
  exact h.1.1

/-- The candidates of the catch-up are missed jobs, each of them once. -/
theorem candidates_subperm (missed : List CronJob) :
    (startupCatchupPlan deps missed).candidates.Subperm missed := by
  unfold startupCatchupPlan
  dsimp only
  exact ((take_sublist ..).trans filter_sublist).subperm.trans (perm_insertionSort ..).subperm

theorem planStartupCatchup_eq (interrupted : List Str) (loadNow now : ℤ) :
    planStartupCatchup deps s interrupted loadNow now =
      let missed := (s.current deps.toCronHost).filter (isMissedJob deps interrupted · now)
      if missed = [] then (s.ensureLoaded deps.toCronDeps false true loadNow, ⟨[], []⟩)
      else
        (((s.ensureLoaded deps.toCronDeps false true loadNow).mapJobs
          (·.map fun job => if job ∈ (startupCatchupPlan deps missed).candidates then
            markRunning now job else job)).persist, startupCatchupPlan deps missed) := by
  unfold planStartupCatchup
  dsimp only
  rw [ensureLoaded_skip_jobs, Option.getD_some]

/-- The candidates of the catch-up are reserved. -/
theorem Sound.planCatchup (h : Sound (MayRun deps .idle n) id s) (interrupted : List Str)
    (loadNow now : ℤ) {planned : CronStore × StartupCatchupPlan}
    (hplanned : planStartupCatchup deps s interrupted loadNow now = planned) :
    (idsOf planned.2.candidates).Nodup ∧ (id ∈ idsOf planned.2.candidates → 1 ≤ n) ∧
      Sound (MayRun deps (if id ∈ idsOf planned.2.candidates then .waiting else .idle) n) id
        planned.1 := by
  have hloaded := h.load deps.toCronDeps loadNow
  have hjobs := ensureLoaded_skip_jobs deps.toCronDeps s loadNow
  have hdistinct := hloaded.memory
  have hmemory := hloaded.inMemory
  rw [hjobs, Option.getD_some] at hdistinct hmemory
  rw [planStartupCatchup_eq] at hplanned
  dsimp only at hplanned
  set current := s.current deps.toCronHost
  set missed := current.filter (isMissedJob deps interrupted · now) with hmissed
  split at hplanned
  · rw [← hplanned]
    exact ⟨nodup_nil, fun hmem => absurd hmem not_mem_nil, hloaded⟩
  rw [← hplanned]
  dsimp only
  set candidates := (startupCatchupPlan deps missed).candidates
  have hsubperm : candidates.Subperm missed := candidates_subperm missed
  have hmem : ∀ job ∈ candidates, job ∈ current ∧ isMissedJob deps interrupted job now = true := by
    intro job hjob
    exact mem_filter.mp (hsubperm.subset hjob)
  refine ⟨?_, ?_, ?_⟩
  · obtain ⟨sub, hperm, hsublist⟩ := hsubperm
    have hsub : (idsOf sub).Nodup := hdistinct.sublist ((hsublist.trans filter_sublist).map _)
    exact (hperm.map _).nodup_iff.mp hsub
  · intro hidMem
    obtain ⟨job, hjob, hid⟩ := mem_map.mp hidMem
    have hidle := isMissedJob_idle (hmem job hjob).2
    exact (hmemory job (mem_jobsWith.mpr ⟨(hmem job hjob).1, hid⟩)).one_le hidle.1 hidle.2
  · apply hloaded.reserve hjobs
    · intro job _ hjob
      exact isMissedJob_idle (hmem job hjob).2
    · intro job hjob
      exact mem_idsOf_iff hdistinct (fun _ hcandidate => (hmem _ hcandidate).1) hjob

/-- The due jobs of a tick are reserved. Where no job is due, the jobs are walked. -/
theorem Sound.scan (h : Sound (MayRun deps .idle n) id s) {dueCheckNow : ℤ}
    (hkeeps : (s.reloaded deps.toCronHost).any (isRunnableJob · dueCheckNow) = false →
      ∀ job ∈ jobsWith id (s.reloaded deps.toCronHost), job.view.NotStuck dueCheckNow) :
    (id ∈ idsOf (scanDueJobs deps.toCronDeps s loadNow dueCheckNow now).2 → 1 ≤ n) ∧
      Sound (MayRun deps
          (if id ∈ idsOf (scanDueJobs deps.toCronDeps s loadNow dueCheckNow now).2 then .waiting
            else .idle) n) id
        (scanDueJobs deps.toCronDeps s loadNow dueCheckNow now).1 := by
  have hloaded := h.reload deps.toCronDeps loadNow
  have hjobs := ensureLoaded_force_jobs deps.toCronDeps s loadNow
  have hdistinct := hloaded.memory
  have hmemory := hloaded.inMemory
  rw [hjobs, Option.getD_some] at hdistinct hmemory
  generalize hscanned : scanDueJobs deps.toCronDeps s loadNow dueCheckNow now = scanned
  unfold scanDueJobs at hscanned
  dsimp only at hscanned
  rw [hjobs, Option.getD_some] at hscanned
  set current := s.reloaded deps.toCronHost
  split at hscanned
  · rename_i hnone
    have hrecomputes : Recomputes deps.toCronDeps _ :=
      recomputes_maintainJob { recomputeExpired := true }
    have hwalked := hloaded.walk isOneShot_mayRun hrecomputes hjobs (hkeeps (by simpa using hnone))
    rw [hjobs] at hwalked
    rw [← hscanned]
    exact ⟨fun hmem => absurd hmem not_mem_nil, hwalked⟩
  rw [← hscanned]
  refine ⟨?_, ?_⟩
  · intro hidMem
    obtain ⟨job, hjob, hid⟩ := mem_map.mp hidMem
    obtain ⟨hjobMem, hrunnable⟩ := mem_filter.mp hjob
    have hidle := isRunnableJob_idle hrunnable
    exact (hmemory job (mem_jobsWith.mpr ⟨hjobMem, hid⟩)).one_le hidle.1 hidle.2
  · apply hloaded.reserve hjobs
    · intro job _ hjob
      exact isRunnableJob_idle hjob
    · intro job hjob
      have hdue := mem_idsOf_iff hdistinct
        (filter_sublist (p := (isRunnableJob · dueCheckNow))).subset hjob
      rw [mem_filter] at hdue
      exact hdue.trans (and_iff_right (mem_jobsWith.mp hjob).1)

/-- An execution of a tick starts, which refreshes the marker in memory. -/
theorem Sound.startDue {p : JobView → Prop} (h : Sound p id s) (other : Str) (startedAt : ℤ)
    (hother : other = id → ∀ v, p v → p { v with runningAtMs := some startedAt }) :
    Sound p id (s.mapJobs (updateJob other (·.setRunning (some startedAt)))) := by
  cases hjobs : s.jobs with
  | none =>
    have hsame : s.mapJobs (updateJob other (·.setRunning (some startedAt))) = s := by
      unfold CronStore.mapJobs
      rw [hjobs, Option.map_none, ← hjobs]
    rw [hsame]
    exact h
  | some jobs =>
    have hmemory := h.inMemory
    rw [hjobs, Option.getD_some] at hmemory
    have hstarted : (s.mapJobs (updateJob other (·.setRunning (some startedAt)))).jobs =
        some (updateJob other (·.setRunning (some startedAt)) jobs) := by
      rw [mapJobs_jobs, hjobs]
      rfl
    have hheaders (jobs : List CronJob) : (updateJob other (·.setRunning (some startedAt)) jobs).map
        CronJob.header = jobs.map CronJob.header := by
      induction jobs with
      | nil => rfl
      | cons job jobs ih =>
        unfold updateJob
        split
        · rfl
        · exact congrArg (job.header :: ·) ih
    refine ⟨h.toIsSynced.withJobs hstarted rfl ((hheaders jobs).trans (h.headers jobs hjobs)),
      h.toHolds.withJobs hstarted rfl ?_⟩
    intro job hjob
    obtain ⟨hmem, hid⟩ := mem_jobsWith.mp hjob
    rcases mem_updateJob hmem with hsame | ⟨before, hbefore, rfl⟩
    · exact hmemory job (mem_jobsWith.mpr ⟨hsame, hid⟩)
    · have hbeforeId : before.id = id := hid
      rw [CronJob.view_setRunning]
      refine hother ((findJob_id hbefore).symm.trans hbeforeId) _ ?_
      exact hmemory before (mem_jobsWith.mpr ⟨mem_of_find?_eq_some hbefore, hbeforeId⟩)

theorem runningAtMs_applyJobResult (hat : job.isAt = true) (result : CronRunResult) :
    (applyJobResult deps.toCronDeps job result false).1.view.runningAtMs = none := by
  have hrecorded : (recordJobResult job result).isAt = true := hat
  unfold applyJobResult
  dsimp only
  rw [if_pos hrecorded]
  split
  · rfl
  · unfold settleOneShot
    split
    · rfl
    · rfl
    · dsimp only
      split <;> rfl

/-- The outcomes of a batch are applied to the jobs. -/
theorem mayRun_applyOutcomes
    (hdistinct : (idsOf jobs).Nodup) (hnodup : (outcomes.map Prod.fst).Nodup)
    (h : ∀ job ∈ jobsWith id jobs,
      MayRun deps (if id ∈ outcomes.map Prod.fst then .started else .idle) n job.view)
    (hm : m = n ∨ ∃ result, (id, result) ∈ outcomes ∧ CronProcessEvent.IsFinal deps result)
    (hstays : id ∉ outcomes.map Prod.fst → ∀ job ∈ jobsWith id jobs, job.view.NotStuck walkNow) :
    ∀ job ∈ jobsWith id (outcomes.foldl (fun jobs outcome =>
        applyResultTo deps.toCronDeps outcome.1 outcome.2 false jobs) jobs),
      MayRun deps .idle m job.view ∧ job.view.NotStuck walkNow := by
  intro job hjob
  by_cases hmem : id ∈ outcomes.map Prod.fst
  · rw [if_pos hmem] at h
    obtain ⟨⟨_, result⟩, hresult, rfl⟩ := mem_map.mp hmem
    obtain ⟨before, hbefore, hkept, rfl⟩ := jobsWith_applyOutcomes_self hdistinct hresult hnodup hjob
    have hmay := h before hbefore
    refine ⟨mayRun_applyJobResult hmay hkept ?_, ?_⟩
    · refine hm.imp_right ?_
      rintro ⟨final, hfinal, hisFinal⟩
      have hsame := inj_on_of_nodup_map hnodup hfinal hresult rfl
      rwa [(Prod.mk.inj hsame).2] at hisFinal
    · intro _ runningAt hrunning
      rw [runningAtMs_applyJobResult hmay.isAt] at hrunning
      exact nomatch hrunning
  · rw [if_neg hmem] at h
    have hothers : ∀ outcome ∈ outcomes, outcome.1 ≠ id := by
      intro outcome houtcome heq
      exact hmem (heq ▸ mem_map_of_mem houtcome)
    rw [jobsWith_applyOutcomes hothers] at hjob
    have hsame : m = n := by
      refine hm.resolve_right ?_
      rintro ⟨result, hresult, _⟩
      exact hmem (mem_map_of_mem (f := Prod.fst) hresult)
    rw [hsame]
    exact ⟨h job hjob, hstays hmem job hjob⟩

section

variable (h : Sound (MayRun deps (if id ∈ outcomes.map Prod.fst then .started else .idle) n) id s)
  (hnodup : (outcomes.map Prod.fst).Nodup)
  (hm : m = n ∨ ∃ result, (id, result) ∈ outcomes ∧ CronProcessEvent.IsFinal deps result)
include h hnodup hm

theorem Sound.applyTick (hstays : id ∉ outcomes.map Prod.fst →
      ∀ job ∈ jobsWith id (s.reloaded deps.toCronHost), job.view.NotStuck walkNow) :
    Sound (MayRun deps .idle m) id (applyDueOutcomes deps.toCronDeps s outcomes loadNow walkNow) := by
  have hloaded := h.reload deps.toCronDeps loadNow
  have hjobs := ensureLoaded_force_jobs deps.toCronDeps s loadNow
  have hdistinct := hloaded.memory
  have hmemory := hloaded.inMemory
  rw [hjobs, Option.getD_some] at hdistinct hmemory
  have happlied := mayRun_applyOutcomes hdistinct hnodup hmemory hm hstays
  have hrecomputes : Recomputes deps.toCronDeps (maintainJob deps.toCronDeps {}) :=
    recomputes_maintainJob {}
  unfold applyDueOutcomes
  dsimp only
  refine sound_persist (by rw [mapJobs_jobs, hjobs]; rfl) ?_ ?_
  · rw [idsOf_maintenance]
    exact hdistinct.sublist (idsOf_applyOutcomes_sublist ..)
  · exact isOneShot_mayRun.walk hrecomputes (fun job hjob => (happlied job hjob).1)
      fun job hjob => (happlied job hjob).2

theorem Sound.applyCatchup {deferredJobs : List StartupDeferredJob} {baseNow : ℤ}
    (hstays : id ∉ outcomes.map Prod.fst →
      ∀ job ∈ jobsWith id (s.current deps.toCronHost), job.view.NotStuck walkNow) :
    Sound (MayRun deps .idle m) id
      (applyStartupCatchupOutcomes deps s deferredJobs outcomes loadNow baseNow walkNow) := by
  have hloaded := h.load deps.toCronDeps loadNow
  have hjobs := ensureLoaded_skip_jobs deps.toCronDeps s loadNow
  have hdistinct := hloaded.memory
  have hmemory := hloaded.inMemory
  rw [hjobs, Option.getD_some] at hdistinct hmemory
  have happlied := mayRun_applyOutcomes hdistinct hnodup hmemory hm hstays
  have hrecomputes : Recomputes deps.toCronDeps
      (maintainJob deps.toCronDeps { repairFutureCronNextRunAtMs := false }) :=
    recomputes_maintainJob _
  unfold applyStartupCatchupOutcomes
  dsimp only
  refine sound_persist (by rw [mapJobs_jobs, hjobs]; rfl) ?_ ?_
  · rw [idsOf_maintenance, idsOf_deferJobs]
    exact hdistinct.sublist (idsOf_applyOutcomes_sublist ..)
  · -- a deferral leaves the marker and the attempts of the job alone
    have hdeferred := view_deferJobs (p := fun v => MayRun deps .idle m v ∧ v.NotStuck walkNow)
      (max 0 (deps.missedJobStaggerMs.getD 5000)) baseNow
      (max 0 (deps.missedJobStaggerMs.getD 5000)) deferredJobs happlied
    exact isOneShot_mayRun.walk hrecomputes (fun job hjob => (hdeferred job hjob).1)
      fun job hjob => (hdeferred job hjob).2

end

/-! ## Runs -/

/-- The job may be started so many times from here on. -/
structure HasAttempts (deps : CronStartDeps) (id : Str) (n : ℕ) (s : CronProcess) : Prop
    extends Sound (MayRun deps (s.stage.phase id) n) id s.store where
  nodup : s.stage.inFlight.Nodup
  reserved : id ∈ s.stage.waiting → 1 ≤ n

theorem CronStage.phase_ne_idle (h : id ∈ stage.inFlight) : stage.phase id ≠ .idle := by
  unfold phase
  rcases mem_append.mp h with hwaiting | hstarted
  · rw [if_pos hwaiting]
    decide
  · rw [if_pos hstarted]
    split <;> decide

/-- The next waiting job is started. -/
theorem phase_start {stage' : CronStage} {other : Str} {waiting started : List Str}
    (hwaiting : stage.waiting = other :: waiting) (hstarted : stage.started = started)
    (hwaiting' : stage'.waiting = waiting) (hstarted' : stage'.started = started ++ [other])
    (hnodup : stage.inFlight.Nodup) : stage'.inFlight.Nodup ∧
      (other = id → stage.phase id = .waiting ∧ stage'.phase id = .started ∧ id ∉ stage'.waiting) ∧
      (other ≠ id → stage'.phase id = stage.phase id ∧ (id ∈ stage'.waiting → id ∈ stage.waiting)) := by
  unfold CronStage.inFlight CronStage.phase at *
  rw [hwaiting, hstarted] at hnodup
  rw [hwaiting, hstarted, hwaiting', hstarted']
  have hother : other ∉ waiting := fun hmem =>
    (nodup_cons.mp hnodup).1 (mem_append_left _ hmem)
  refine ⟨?_, ?_, ?_⟩
  · have hperm : (waiting ++ (started ++ [other])).Perm (other :: waiting ++ started) := by
      rw [← append_assoc]
      exact perm_append_singleton ..
    exact hperm.nodup_iff.mpr hnodup
  · rintro rfl
    simp [hother]
  · intro hne
    have : id ≠ other := fun heq => hne heq.symm
    simp [this]

theorem hasAttempts_idle (hidle : stage.inFlight = [])
    (h : Sound (MayRun deps .idle n) id s) : HasAttempts deps id n ⟨s, stage⟩ := by
  obtain ⟨hwaiting, hstarted⟩ := append_eq_nil_iff.mp hidle
  have hphase : stage.phase id = .idle := by
    unfold CronStage.phase
    rw [hwaiting, hstarted]
    rfl
  refine ⟨?_, ?_, ?_⟩
  · rw [hphase]
    exact h
  · rw [hidle]
    exact nodup_nil
  · rw [hwaiting]
    exact fun hmem => absurd hmem not_mem_nil

/-- Jobs have been reserved. -/
theorem hasAttempts_reserved {ids : List Str} (hwaiting : stage.waiting = ids)
    (hstarted : stage.started = []) (hnodup : ids.Nodup) (hreserved : id ∈ ids → 1 ≤ n)
    (h : Sound (MayRun deps (if id ∈ ids then .waiting else .idle) n) id s) :
    HasAttempts deps id n ⟨s, stage⟩ := by
  have hphase : stage.phase id = if id ∈ ids then .waiting else .idle := by
    unfold CronStage.phase
    rw [hwaiting, hstarted]
    rfl
  refine ⟨?_, ?_, ?_⟩
  · rw [hphase]
    exact h
  · show (stage.waiting ++ stage.started).Nodup
    rwa [hwaiting, hstarted, append_nil]
  · rwa [hwaiting]

/-- The next waiting job is started. The store may refresh the marker of that job. -/
theorem HasAttempts.start {s s' : CronStore} {other : Str}
    {waiting started : List Str} (h : HasAttempts deps id n ⟨s, stage⟩) (stage' : CronStage)
    (hwaiting : stage.waiting = other :: waiting) (hstarted : stage.started = started)
    (hwaiting' : stage'.waiting = waiting) (hstarted' : stage'.started = started ++ [other])
    (hstore : ∀ p : JobView → Prop, (other = id → ∀ v now, p v → p { v with runningAtMs := some now }) →
      Sound p id s → Sound p id s') :
    if other = id then ∃ left, n = left + 1 ∧ HasAttempts deps id left ⟨s', stage'⟩
    else HasAttempts deps id n ⟨s', stage'⟩ := by
  obtain ⟨hnodup, hself, hothers⟩ := phase_start hwaiting hstarted hwaiting' hstarted' h.nodup
  have hsound : Sound (MayRun deps (stage.phase id) n) id s := h.toSound
  split
  · rename_i heq
    obtain ⟨hphase, hphase', hnotWaiting⟩ := hself heq
    have hpos : 1 ≤ n := h.reserved (by
      show id ∈ stage.waiting
      rw [hwaiting, heq]
      exact mem_cons_self)
    obtain ⟨left, rfl⟩ : ∃ left, n = left + 1 := ⟨n - 1, by omega⟩
    rw [hphase] at hsound
    have hstartedSound : Sound (MayRun deps .started left) id s := hsound.imp fun _ hv => hv.start
    refine ⟨left, rfl, ?_, hnodup, fun hmem => absurd hmem hnotWaiting⟩
    show Sound (MayRun deps (stage'.phase id) left) id s'
    rw [hphase']
    exact hstore _ (fun _ _ now hv => hv.setRunning now) hstartedSound
  · rename_i hne
    obtain ⟨hphase, hwaits⟩ := hothers hne
    refine ⟨?_, hnodup, fun hmem => h.reserved (hwaits hmem)⟩
    show Sound (MayRun deps (stage'.phase id) n) id s'
    rw [hphase]
    exact hstore _ (fun heq => absurd heq hne) hsound

/-- A start of the job uses up an attempt, and no step adds one. The end of its last
execution takes all of them. -/
theorem HasAttempts.step {s t : CronProcess} {event : CronProcessEvent} (h : HasAttempts deps id n s)
    (hstep : CronProcessStep deps s event t) (hkeeps : event.KeepsMarker deps id s)
    (hm : m = n ∨ event.EndsJob deps id s) :
    if event.starts id then ∃ left, n = left + 1 ∧ HasAttempts deps id left t
    else HasAttempts deps id m t := by
  have hsound := h.toSound
  cases hstep with
  | read loadNow walkNow =>
    obtain rfl := hm.resolve_right fun hends => hends
    exact ⟨hsound.read isOneShot_mayRun hkeeps, h.nodup, h.reserved⟩
  | restart =>
    refine hasAttempts_idle rfl (hsound.unload.imp fun v hv => ?_)
    rcases hm with rfl | hinFlight
    · exact hv.restart
    · exact hv.interrupted (CronStage.phase_ne_idle hinFlight)
  | markInterrupted store loadNow clock =>
    obtain rfl := hm.resolve_right fun hends => hends
    exact hasAttempts_idle rfl (hsound.markInterrupted loadNow clock)
  | planCatchup store interrupted loadNow now =>
    obtain rfl := hm.resolve_right fun hends => hends
    obtain ⟨hnodup, hreserved, hplanned⟩ := hsound.planCatchup interrupted loadNow now rfl
    show HasAttempts deps id m _
    dsimp only
    by_cases hnone : (planStartupCatchup deps store interrupted loadNow now).2.candidates = [] ∧
        (planStartupCatchup deps store interrupted loadNow now).2.deferredJobs = []
    · rw [if_pos hnone]
      refine hasAttempts_idle rfl ?_
      rw [hnone.1] at hplanned
      exact hplanned
    · rw [if_neg hnone]
      exact hasAttempts_reserved rfl rfl hnodup hreserved hplanned
  | startMissed store deferredJobs other waiting started startedAt =>
    obtain rfl := hm.resolve_right fun hends => hends
    have hstart := h.start (.catchingUp deferredJobs waiting (started ++ [other])) rfl rfl rfl rfl
      fun _ _ hstore => hstore
    simpa [CronProcessEvent.starts] using hstart
  | applyCatchup store deferredJobs started outcomes loadNow baseNow walkNow hrun =>
    subst hrun
    have hnodup : (outcomes.map Prod.fst).Nodup := h.nodup
    exact hasAttempts_idle rfl (hsound.applyCatchup hnodup hm hkeeps)
  | finishStart store loadNow walkNow =>
    obtain rfl := hm.resolve_right fun hends => hends
    have hrecomputes : Recomputes deps.toCronDeps
        (maintainJob deps.toCronDeps { recomputeExpired := true }) := recomputes_maintainJob _
    exact hasAttempts_idle rfl ((hsound.load deps.toCronDeps loadNow).walk isOneShot_mayRun
      hrecomputes (ensureLoaded_skip_jobs ..) hkeeps)
  | scan store loadNow dueCheckNow now =>
    obtain rfl := hm.resolve_right fun hends => hends
    obtain ⟨hreserved, hscanned⟩ := hsound.scan hkeeps
    exact hasAttempts_reserved rfl rfl (scan_nodup h.toHasDistinctIds ..) hreserved hscanned
  | startDue store other waiting started startedAt =>
    obtain rfl := hm.resolve_right fun hends => hends
    have hstart := h.start (.armed waiting (started ++ [other])) rfl rfl rfl rfl
      fun _ hp hstore => hstore.startDue other startedAt fun heq v hv => hp heq v startedAt hv
    simpa [CronProcessEvent.starts] using hstart
  | applyTick store started outcomes loadNow walkNow hrun hsome =>
    subst hrun
    have hnodup : (outcomes.map Prod.fst).Nodup := h.nodup
    exact hasAttempts_idle rfl (hsound.applyTick hnodup hm hkeeps)

theorem cronProcessStep_deterministic : Deterministic (CronProcessStep deps) := by
  intro s event t u hstep hstep'
  cases hstep with
  | read | restart | markInterrupted | planCatchup | startMissed | applyCatchup | finishStart
  | scan | startDue | applyTick =>
    cases hstep'
    rfl

/-- The process has a one-shot job with this id, which is not in flight. -/
structure IsIdleOneShot (id : Str) (s : CronProcess) : Prop
    extends Sound (fun v => v.isAt = true ∧ 0 ≤ v.errors) id s.store where
  nodup : s.stage.inFlight.Nodup
  notInFlight : id ∉ s.stage.inFlight

theorem IsIdleOneShot.hasAttempts {s : CronProcess} (h : IsIdleOneShot id s)
    (hmax : 0 ≤ oneShotMaxAttempts deps.toCronDeps) :
    HasAttempts deps id (1 + oneShotMaxAttempts deps.toCronDeps).toNat s := by
  have hphase : s.stage.phase id = .idle := by
    unfold CronStage.phase
    rw [if_neg fun hmem => h.notInFlight (mem_append_left _ hmem),
      if_neg fun hmem => h.notInFlight (mem_append_right _ hmem)]
  refine ⟨?_, h.nodup, fun hmem => absurd (mem_append_left _ hmem) h.notInFlight⟩
  rw [hphase]
  refine h.toSound.imp fun v hv => ⟨hv.1, hv.2, fun _ hidle => absurd rfl hidle, fun _ _ => ?_⟩
  have := hv.2
  simp
  omega

/-- As long as no walk clears its marker, a one-shot job is started once and once more for
each retry, and never again after an outcome that is not to be retried or an interruption. -/
theorem oneShot_bounded {s t : CronProcess} {events : List CronProcessEvent}
    (hmax : 0 ≤ oneShotMaxAttempts deps.toCronDeps) (hidle : IsIdleOneShot id s)
    (h : Run (fun s event t => CronProcessStep deps s event t ∧ event.KeepsMarker deps id s)
      s events t) :
    (events.countP (·.starts id) : ℤ) ≤ 1 + oneShotMaxAttempts deps.toCronDeps ∧
      ∀ before event after u, events = before ++ event :: after →
        Run (CronProcessStep deps) s before u → event.EndsJob deps id u →
        ∀ later ∈ after, later.starts id = false := by
  have hattempts := hidle.hasAttempts hmax
  have huse : ∀ {n s event t}, HasAttempts deps id n s →
      CronProcessStep deps s event t ∧ event.KeepsMarker deps id s → event.starts id = true →
      ∃ m, n = m + 1 ∧ HasAttempts deps id m t := by
    intro n s event t hs hstep hstarts
    have hnext := hs.step hstep.1 hstep.2 (.inl rfl)
    rwa [if_pos hstarts] at hnext
  have hkeep : ∀ {n s event t}, HasAttempts deps id n s →
      CronProcessStep deps s event t ∧ event.KeepsMarker deps id s → event.starts id = false →
      HasAttempts deps id n t := by
    intro n s event t hs hstep hstarts
    have hnext := hs.step hstep.1 hstep.2 (.inl rfl)
    rwa [if_neg (by simp [hstarts])] at hnext
  constructor
  · obtain ⟨left, hcount, _⟩ := h.consumes _ (·.starts id) huse hkeep hattempts
    omega
  · rintro before event after u rfl hbefore hends
    obtain ⟨u', hfirst, hrest⟩ := run_append_iff.mp h
    obtain rfl : u' = u := (hfirst.mono And.left).unique cronProcessStep_deterministic hbefore
    obtain ⟨left, _, hleft⟩ := hfirst.consumes _ (·.starts id) huse hkeep hattempts
    obtain ⟨v, hevent, hafter⟩ := run_cons_iff.mp hrest
    have hended := hleft.step (m := 0) hevent.1 hevent.2 (.inr hends)
    have hnotStart : event.starts id = false := by
      cases event with
      | start other startedAt => exact absurd hends (fun hfalse => hfalse)
      | _ => rfl
    rw [if_neg (by simp [hnotStart])] at hended
    obtain ⟨rest, hcount, _⟩ := hafter.consumes _ (·.starts id) huse hkeep hended
    have hnone : after.countP (·.starts id) = 0 := by omega
    intro later hlater
    have := countP_eq_zero.mp hnone later hlater
    simpa using this

/-! ## A job that runs for hours -/

/-- A host that parses one time only, the second after the epoch. -/
def oneShotDeps : CronStartDeps where
  localTimezone := "UTC".toList
  nextRun _ _ _ := .ok none
  previousRun _ _ _ := .ok none
  parseDate _ := some 1000
  isoString _ := "1970-01-01T00:00:01.000Z".toList
  digestHead _ := 0
  retry := none
  isTransientCronError _ _ := false
  maxMissedJobsPerRestart := none
  missedJobStaggerMs := none
  startupDeferredMissedAgentJobDelayMs := none

/-- An agent turn, which may have no timeout. -/
def oneShotJob : CronJob where
  id := "job".toList
  enabled := some true
  deleteAfterRun := some true
  createdAtMs := some 0
  schedule := .at "1970-01-01T00:00:01.000Z".toList
  sessionTarget := "isolated".toList
  payloadKind := .agentTurn
  state := { nextRunAtMs := some 1000 }

def oneShotStore : CronStore where
  jobs := some [oneShotJob]
  configFile := [{ oneShotJob with state := {} }]
  stateFile _ := some ⟨tryCronScheduleIdentity oneShotJob, oneShotJob.state⟩

theorem oneShotStore_idle : IsIdleOneShot "job".toList ⟨oneShotStore, .armed [] []⟩ where
  memory := by decide
  disk := by decide
  headers jobs hjobs := by
    obtain rfl : [oneShotJob] = jobs := Option.some.inj hjobs
    decide
  inMemory := by decide
  onDisk := by decide
  nodup := by decide
  notInFlight := by decide

/-- The store after the tick has reserved the job. -/
def reservedStore : CronStore := (scanDueJobs oneShotDeps.toCronDeps oneShotStore 1000 1000 1000).1

/-- The tick that starts the job. -/
def oneShotTick : List CronProcessEvent :=
  [.scan 1000 1000 1000, .start "job".toList 1000]

def startedProcess : CronProcess where
  store := reservedStore.mapJobs (updateJob "job".toList (·.setRunning (some 1000)))
  stage := .armed [] ["job".toList]

theorem run_oneShotTick : Run (fun s event t => CronProcessStep oneShotDeps s event t ∧
      event.KeepsMarker oneShotDeps "job".toList s)
    ⟨oneShotStore, .armed [] []⟩ oneShotTick startedProcess := by
  have hscan : CronProcessStep oneShotDeps ⟨oneShotStore, .armed [] []⟩ (.scan 1000 1000 1000)
      ⟨reservedStore, .armed ["job".toList] []⟩ := by
    have hids : idsOf (scanDueJobs oneShotDeps.toCronDeps oneShotStore 1000 1000 1000).2 =
        ["job".toList] := by
      decide +kernel
    have hstep : CronProcessStep oneShotDeps _ _ _ := .scan oneShotStore 1000 1000 1000
    dsimp only at hstep
    rwa [hids] at hstep
  have hdue : (oneShotStore.reloaded oneShotDeps.toCronHost).any (isRunnableJob · 1000) = true := by
    decide +kernel
  refine .cons ⟨hscan, fun hnone => ?_⟩ (.single ⟨.startDue _ _ _ _ _, trivial⟩)
  rw [hdue] at hnone
  exact nomatch hnone

/-- The job ends well. -/
theorem oneShot_bounded_ok : ∃ t events,
    Run (fun s event t => CronProcessStep oneShotDeps s event t ∧
      event.KeepsMarker oneShotDeps "job".toList s) ⟨oneShotStore, .armed [] []⟩ events t ∧
    (events.countP (·.starts "job".toList) : ℤ) ≤ 1 + oneShotMaxAttempts oneShotDeps.toCronDeps ∧
    ∀ before event after u, events = before ++ event :: after →
      Run (CronProcessStep oneShotDeps) ⟨oneShotStore, .armed [] []⟩ before u →
      event.EndsJob oneShotDeps "job".toList u → ∀ later ∈ after, later.starts "job".toList = false := by
  have happly : CronProcessStep oneShotDeps startedProcess
      (.applyTick [("job".toList, ⟨.ok, none, 1000, 2000⟩)] 2000 2000) _ :=
    .applyTick _ _ _ _ _ rfl (by decide)
  have hkeeps : CronProcessEvent.KeepsMarker oneShotDeps "job".toList startedProcess
      (.applyTick [("job".toList, ⟨.ok, none, 1000, 2000⟩)] 2000 2000) :=
    fun hmem => absurd mem_cons_self hmem
  have hrun := run_oneShotTick.snoc ⟨happly, hkeeps⟩
  exact ⟨_, _, hrun, oneShot_bounded (by decide) oneShotStore_idle hrun⟩

/-- More than two hours after the start of the job. -/
def twoHoursLater : ℤ := 1000 + stuckRunMs + 1

/-- The store of the next process, after the jobs have been listed two hours later. -/
def listedStore : CronStore :=
  { ensureLoadedForRead oneShotDeps.toCronDeps startedProcess.store twoHoursLater twoHoursLater with
    jobs := none }

def unmarkedStore : CronStore :=
  (markInterruptedRuns oneShotDeps listedStore twoHoursLater fun _ => twoHoursLater).1

def plannedStore : CronStore :=
  (planStartupCatchup oneShotDeps unmarkedStore [] twoHoursLater twoHoursLater).1

def deferredStore : CronStore :=
  finishStart oneShotDeps
    (applyStartupCatchupOutcomes oneShotDeps plannedStore [⟨"job".toList, some 120000⟩] []
      twoHoursLater twoHoursLater twoHoursLater)
    twoHoursLater twoHoursLater

/-- The start of the next process finds the job neither running nor run, and puts it off. -/
theorem run_oneShotRestart : Run (CronProcessStep oneShotDeps) ⟨listedStore, .booted⟩
    [.markInterrupted twoHoursLater fun _ => twoHoursLater, .planCatchup twoHoursLater twoHoursLater,
      .applyCatchup [] twoHoursLater twoHoursLater twoHoursLater,
      .finishStart twoHoursLater twoHoursLater] ⟨deferredStore, .armed [] []⟩ := by
  have hmark : CronProcessStep oneShotDeps ⟨listedStore, .booted⟩
      (.markInterrupted twoHoursLater fun _ => twoHoursLater) ⟨unmarkedStore, .marked []⟩ := by
    have hnone : (markInterruptedRuns oneShotDeps listedStore twoHoursLater
        fun _ => twoHoursLater).2 = [] := by
      decide +kernel
    have hstep : CronProcessStep oneShotDeps _ _ _ :=
      .markInterrupted listedStore twoHoursLater fun _ => twoHoursLater
    rwa [hnone] at hstep
  have hplan : CronProcessStep oneShotDeps ⟨unmarkedStore, .marked []⟩
      (.planCatchup twoHoursLater twoHoursLater)
      ⟨plannedStore, .catchingUp [⟨"job".toList, some 120000⟩] [] []⟩ := by
    have hplanned : (planStartupCatchup oneShotDeps unmarkedStore [] twoHoursLater twoHoursLater).2 =
        ⟨[], [⟨"job".toList, some 120000⟩]⟩ := by
      decide +kernel
    have hstep : CronProcessStep oneShotDeps _ _ _ :=
      .planCatchup unmarkedStore [] twoHoursLater twoHoursLater
    dsimp only at hstep
    rwa [hplanned, if_neg (by simp)] at hstep
  exact .cons hmark (.cons hplan (.cons (.applyCatchup _ _ _ _ _ _ _ rfl)
    (.single (.finishStart ..))))

/-- The tick two minutes later. -/
theorem run_oneShotAgain : ∃ t, Run (CronProcessStep oneShotDeps) ⟨deferredStore, .armed [] []⟩
    [.scan (twoHoursLater + 120000) (twoHoursLater + 120000) (twoHoursLater + 120000),
      .start "job".toList (twoHoursLater + 120000)] t := by
  have hids : idsOf (scanDueJobs oneShotDeps.toCronDeps deferredStore (twoHoursLater + 120000)
      (twoHoursLater + 120000) (twoHoursLater + 120000)).2 = ["job".toList] := by
    decide +kernel
  have hscan : CronProcessStep oneShotDeps _ _ _ := .scan deferredStore (twoHoursLater + 120000)
    (twoHoursLater + 120000) (twoHoursLater + 120000)
  dsimp only at hscan
  rw [hids] at hscan
  exact ⟨_, .cons hscan (.single (.startDue ..))⟩

/-- Listing the jobs while one has run for hours lets the next process run it again. -/
theorem not_oneShot_bounded : ¬ ∀ (deps : CronStartDeps) (id : Str) (s t : CronProcess)
    (events : List CronProcessEvent), 0 ≤ oneShotMaxAttempts deps.toCronDeps →
    IsIdleOneShot id s → Run (CronProcessStep deps) s events t →
    (events.countP (·.starts id) : ℤ) ≤ 1 + oneShotMaxAttempts deps.toCronDeps ∧
      ∀ before event after u, events = before ++ event :: after →
        Run (CronProcessStep deps) s before u → event.EndsJob deps id u →
        ∀ later ∈ after, later.starts id = false := by
  intro hall
  have hlisted := (run_oneShotTick.mono And.left).snoc (.read startedProcess twoHoursLater twoHoursLater)
  obtain ⟨t, hagain⟩ := run_oneShotAgain
  have hrun := hlisted.append (.cons (.restart _) (run_oneShotRestart.append hagain))
  have hinFlight : "job".toList ∈ startedProcess.stage.inFlight := by decide
  have hnever := (hall _ _ _ _ _ (by decide) oneShotStore_idle hrun).2 _ _ _ _ rfl hlisted hinFlight
  have hlast := hnever (.start "job".toList (twoHoursLater + 120000)) (by simp)
  exact nomatch hlast

end OpenClaw
