import OpenClaw.Cron.Slots
import OpenClaw.Cron.Backoff

/-!
# Operations and pending slots

The locked sections of the service as one type of operations, and which of them keep the
pending slot of a job they are not about.
-/

namespace OpenClaw

open List Option CronStore

variable {deps : CronDeps}

/-! ## Operations -/

/-- A locked section of the service, with the times its clock shows. -/
inductive CronOperation where
  /-- `status`, `list`, `listPage` or `readJob`. -/
  | read (loadNow walkNow : ℤ)
  | add (input : CronJobCreate) (loadNow createNow walkNow : ℤ)
  | update (id : Str) (patch : CronJobPatch) (loadNow nowMs : ℤ)
  | remove (id : Str) (loadNow : ℤ)
  | preflight (id : Str) (mode : CronRunMode) (specError : Str)
      (loadNow walkNow nowMs endWalkNow : ℤ)
  | reserve (id : Str) (preflightNow : ℤ)
  | finishRun (id : Str) (mode : CronRunMode) (result : CronRunResult)
      (loadNow reloadNow walkNow : ℤ)
  | scan (loadNow dueCheckNow nowMs : ℤ)
  | applyOutcomes (outcomes : List (Str × CronRunResult)) (loadNow walkNow : ℤ)

namespace CronOperation

variable (deps)

def run (s : CronStore) : CronOperation → CronStore
  | read loadNow walkNow => ensureLoadedForRead deps s loadNow walkNow
  | add input loadNow createNow walkNow => OpenClaw.add deps s input loadNow createNow walkNow
  | update id patch loadNow nowMs => OpenClaw.update deps s id patch loadNow nowMs
  | remove id loadNow => OpenClaw.remove deps s id loadNow
  | preflight id mode specError loadNow walkNow nowMs endWalkNow =>
    (inspectManualRunPreflight deps s id mode specError loadNow walkNow nowMs endWalkNow).1
  | reserve id preflightNow => (reserveManualRun s id preflightNow).1
  | finishRun id mode result loadNow reloadNow walkNow =>
    finishPreparedManualRun deps s id mode result loadNow reloadNow walkNow
  | scan loadNow dueCheckNow nowMs => (scanDueJobs deps s loadNow dueCheckNow nowMs).1
  | applyOutcomes outcomes loadNow walkNow => applyDueOutcomes deps s outcomes loadNow walkNow

/-- What the clock shows during the operation. -/
def clocks : CronOperation → List ℤ
  | read loadNow walkNow => [loadNow, walkNow]
  | add _ loadNow createNow walkNow => [loadNow, createNow, walkNow]
  | update _ _ loadNow nowMs => [loadNow, nowMs]
  | remove _ loadNow => [loadNow]
  | preflight _ _ _ loadNow walkNow nowMs endWalkNow => [loadNow, walkNow, nowMs, endWalkNow]
  | reserve _ _ => []
  | finishRun _ _ _ loadNow reloadNow walkNow => [loadNow, reloadNow, walkNow]
  | scan loadNow dueCheckNow nowMs => [loadNow, dueCheckNow, nowMs]
  | applyOutcomes _ loadNow walkNow => [loadNow, walkNow]

/-- The operation edits or executes the job with this id. -/
def Concerns (s : CronStore) (id : Str) : CronOperation → Prop
  | read _ _ => False
  | add input _ _ _ => input.id = id
  | update id' _ _ _ | remove id' _ | preflight id' _ _ _ _ _ _ | reserve id' _
  | finishRun id' _ _ _ _ _ => id' = id
  | scan loadNow dueCheckNow nowMs =>
    ∃ job ∈ (scanDueJobs deps s loadNow dueCheckNow nowMs).2, job.id = id
  | applyOutcomes outcomes _ _ => ∃ outcome ∈ outcomes, outcome.1 = id

/-- The jobs the operation works on: the ones it reads anew from the files, if it does. -/
def workedOn (s : CronStore) : CronOperation → List CronJob
  | finishRun _ _ _ loadNow _ _ =>
    (s.ensureLoaded deps false true loadNow).reloaded deps.toCronHost
  | scan _ _ _ | applyOutcomes _ _ _ => s.reloaded deps.toCronHost
  | _ => s.current deps.toCronHost

/-- When the operation computes the next run of a job with this pending slot anew. The full
recomputation does so with every due slot, the maintenance walk with slots that are no
valid time. -/
def recomputes (s : CronStore) (slot : ℤ) : CronOperation → List ℤ
  | read _ walkNow => if 0 < slot then [] else [walkNow]
  | add input loadNow createNow walkNow =>
    (if s.jobs.isNone then [loadNow] else []) ++
      if (createJob deps input createNow).isSome then [walkNow] else []
  | remove _ loadNow => if s.jobs.isNone then [loadNow] else []
  | preflight id _ _ _ walkNow _ endWalkNow =>
    if 0 < slot then []
    else walkNow ::
      if (findJob (s.current deps.toCronHost) id).any (!isSupportedJobSpec ·) then [endWalkNow] else []
  | finishRun id _ _ _ _ walkNow =>
    if 0 < slot ∨ findJob (s.current deps.toCronHost) id = none then [] else [walkNow]
  | scan _ dueCheckNow _ =>
    if 0 < slot ∨ (s.reloaded deps.toCronHost).any (isRunnableJob · dueCheckNow) then []
    else [dueCheckNow]
  | applyOutcomes _ _ walkNow => if 0 < slot then [] else [walkNow]
  | update _ _ _ _ | reserve _ _ => []

variable {deps}

end CronOperation

variable {loadNow walkNow now : ℤ} {jobs : List CronJob}

theorem inspectManualRunPreflight_invalidSpec_iff {s : CronStore} {id : Str} {mode : CronRunMode}
    {specError : Str} {endWalkNow : ℤ} :
    (inspectManualRunPreflight deps s id mode specError loadNow walkNow now endWalkNow).2 =
        .invalidSpec ↔
      (findJob (s.current deps.toCronHost) id).any (!isSupportedJobSpec ·) = true := by
  unfold inspectManualRunPreflight
  dsimp only
  rw [mapJobs_jobs, ensureLoaded_skip_jobs, map_some, getD_some,
    findJob_recomputeNextRunsForMaintenance]
  cases findJob (s.current deps.toCronHost) id with
  | none => simp
  | some job =>
    have hspec : isSupportedJobSpec (walkJob (maintainJob deps {}) walkNow job) =
        isSupportedJobSpec job :=
      isFixed_isSupportedJobSpec.walkJob (recomputes_maintainJob {}) walkNow job
    simp only [map_some, any_some, hspec]
    cases isSupportedJobSpec job with
    | false => simp
    | true =>
      have hother : ¬ (!true) = true := by simp
      rw [if_neg hother]
      split
      · simp
      split <;> simp

theorem scanDueJobs_eq_nil_iff {s : CronStore} {dueCheckNow : ℤ} :
    (scanDueJobs deps s loadNow dueCheckNow now).2 = [] ↔
      (s.reloaded deps.toCronHost).any (isRunnableJob · dueCheckNow) = false := by
  unfold scanDueJobs
  dsimp only
  rw [ensureLoaded_force_jobs, getD_some]
  have hnone : (s.reloaded deps.toCronHost).filter (isRunnableJob · dueCheckNow) = [] ↔
      (s.reloaded deps.toCronHost).any (isRunnableJob · dueCheckNow) = false := by
    simp
  split
  · rename_i hdue
    exact iff_of_true rfl (hnone.mp hdue)
  · rename_i hdue
    exact iff_of_false hdue (mt hnone.mpr hdue)

/-- The next run of the job with this id. -/
def nextRunOf (deps : CronDeps) (s : CronStore) (id : Str) : Option ℤ :=
  (findJob (s.current deps.toCronHost) id).bind (·.state.nextRunAtMs)

/-! ## The jobs after an operation -/

theorem nextRunOf_of_jobs {s : CronStore} (h : s.jobs = some jobs) (id : Str) :
    nextRunOf deps s id = (findJob jobs id).bind (·.state.nextRunAtMs) := by
  unfold nextRunOf CronStore.current
  rw [h]
  rfl

theorem ensureLoadedForRead_jobs (s : CronStore) (loadNow walkNow : ℤ) :
    (ensureLoadedForRead deps s loadNow walkNow).jobs =
      some (recomputeNextRunsForMaintenance deps {} walkNow (s.current deps.toCronHost)) := by
  unfold ensureLoadedForRead
  dsimp only
  have hwalked : ((s.ensureLoaded deps false true loadNow).mapJobs
      (recomputeNextRunsForMaintenance deps {} walkNow)).jobs =
      some (recomputeNextRunsForMaintenance deps {} walkNow (s.current deps.toCronHost)) := by
    rw [mapJobs_jobs, ensureLoaded_skip_jobs]
    rfl
  split
  · rename_i hsame
    rw [← hsame, hwalked]
  · rw [persist_jobs, hwalked]

theorem findJob_congr {jobs' : List CronJob} {id : Str}
    (h : jobsWith id jobs = jobsWith id jobs') : findJob jobs id = findJob jobs' id := by
  rw [findJob_eq, findJob_eq, h]

theorem findJob_id {id : Str} {job : CronJob} (h : findJob jobs id = some job) : job.id = id := by
  simpa using find?_some h

theorem patchedJob_id {job nextJob : CronJob} {patch : CronJobPatch}
    (h : patchedJob deps job patch now = some nextJob) : nextJob.id = job.id := by
  have hanchor (job : CronJob) : (anchorPatchedJob job patch now).id = job.id := by
    unfold anchorPatchedJob
    split <;> rfl
  have hrescheduled (job : CronJob) (heq : rescheduledJob deps job patch now = some nextJob) :
      nextJob.id = job.id := by
    unfold rescheduledJob at heq
    split at heq
    · split at heq
      · obtain ⟨next, -, rfl⟩ := Option.map_eq_some_iff.mp heq
        rfl
      · rw [← some.inj heq]
        rfl
    split at heq
    · obtain ⟨next, -, rfl⟩ := Option.map_eq_some_iff.mp heq
      rfl
    · rw [← some.inj heq]
  unfold patchedJob at h
  obtain ⟨merged, hmerged, h⟩ := Option.bind_eq_some_iff.mp h
  have hid : merged.id = job.id := by
    unfold applyJobPatch at hmerged
    split_ifs at hmerged
    rw [← some.inj hmerged]
    rfl
  dsimp only at h
  split_ifs at h
  exact (hrescheduled _ h).trans ((hanchor merged).trans hid)

/-! ## Each operation -/

section
variable {s : CronStore} {id id' : Str} {job : CronJob} {slot : ℤ}

/-- A list of jobs in which the job has come through some walks. -/
theorem nextRunOf_eq {f : CronJob → CronJob} {s' : CronStore}
    (hjobs : s'.jobs = some jobs) (hfind : findJob jobs id = some (f job)) :
    nextRunOf deps s' id = (f job).state.nextRunAtMs := by
  rw [nextRunOf_of_jobs hjobs, hfind]
  rfl

theorem nextRunOf_read (hjob : findJob (s.current deps.toCronHost) id = some job)
    (hpending : SlotPending job slot) (hdue : slot ≤ walkNow) :
    nextRunOf deps (ensureLoadedForRead deps s loadNow walkNow) id = some slot ↔
      (slot ≤ 0 → SlotIsComputed deps job slot walkNow) := by
  rw [nextRunOf_eq (f := walkJob (maintainJob deps {}) walkNow) (ensureLoadedForRead_jobs ..)
    (by rw [findJob_recomputeNextRunsForMaintenance, hjob]; rfl)]
  exact hpending.maintenance hdue

theorem findJob_append_of_some {jobs' : List CronJob} (h : findJob jobs id = some job) :
    findJob (jobs ++ jobs') id = some job := by
  unfold findJob at h ⊢
  rw [find?_append, h]
  rfl

section

variable (hjob : findJob (s.current deps.toCronHost) id = some job)
  (hpending : SlotPending job slot)
include hjob hpending

theorem nextRunOf_add (input : CronJobCreate) {createNow : ℤ}
    (hdue : slot ≤ loadNow) (hclock : loadNow ≤ walkNow) :
    nextRunOf deps (add deps s input loadNow createNow walkNow) id = some slot ↔
      (s.jobs.isNone → SlotIsComputed deps job slot loadNow) ∧
      ((createJob deps input createNow).isSome → SlotIsComputed deps job slot walkNow) := by
  have hadded (jobs : List CronJob) (hjobs : (s.ensureLoaded deps false false loadNow).jobs =
      some jobs) : (add deps s input loadNow createNow walkNow).jobs =
        (createJob deps input createNow).elim (some jobs)
          fun new => some (recomputeNextRuns deps walkNow (jobs ++ [new])) := by
    unfold add
    dsimp only
    cases createJob deps input createNow with
    | none => exact hjobs
    | some new =>
      dsimp only
      rw [persist_jobs, mapJobs_jobs, hjobs]
      rfl
  have hloaded := ensureLoaded_jobs deps s false false loadNow
  cases hmemory : s.jobs with
  | some jobs =>
    have hjob : findJob jobs id = some job := by
      simpa [CronStore.current, hmemory] using hjob
    have hjobs := hadded jobs (by simpa [hmemory] using hloaded)
    cases hnew : createJob deps input createNow with
    | none =>
      rw [hnew] at hjobs
      rw [nextRunOf_eq (f := fun job => job) hjobs hjob, hpending.next]
      simp
    | some new =>
      rw [hnew] at hjobs
      rw [nextRunOf_eq (f := walkJob (recomputeIfDueOrMissing deps) walkNow) hjobs
        (by rw [findJob_recomputeNextRuns, findJob_append_of_some hjob]; rfl),
        hpending.full (hdue.trans hclock)]
      simp
  | none =>
    have hjob : findJob (s.reloaded deps.toCronHost) id = some job := by
      simpa [CronStore.current, hmemory] using hjob
    have hwalked : findJob (recomputeNextRuns deps loadNow (s.reloaded deps.toCronHost)) id =
        some (walkJob (recomputeIfDueOrMissing deps) loadNow job) := by
      rw [findJob_recomputeNextRuns, hjob]
      rfl
    have hjobs := hadded (recomputeNextRuns deps loadNow (s.reloaded deps.toCronHost))
      (by simpa [hmemory] using hloaded)
    cases hnew : createJob deps input createNow with
    | none =>
      rw [hnew] at hjobs
      rw [nextRunOf_eq (f := walkJob (recomputeIfDueOrMissing deps) loadNow) hjobs hwalked,
        hpending.full hdue]
      simp
    | some new =>
      rw [hnew] at hjobs
      rw [nextRunOf_eq (f := fun job => walkJob (recomputeIfDueOrMissing deps) walkNow
          (walkJob (recomputeIfDueOrMissing deps) loadNow job)) hjobs
        (by rw [findJob_recomputeNextRuns, findJob_append_of_some hwalked]; rfl),
        hpending.full_full hdue hclock]
      simp

theorem nextRunOf_update (hne : id' ≠ id) (patch : CronJobPatch) (loadNow now : ℤ) :
    nextRunOf deps (update deps s id' patch loadNow now) id = some slot := by
  have hloaded := ensureLoaded_skip_jobs deps s loadNow
  suffices h : ∃ jobs, (update deps s id' patch loadNow now).jobs = some jobs ∧
      jobsWith id jobs = jobsWith id (s.current deps.toCronHost) by
    obtain ⟨jobs, hjobs, hsame⟩ := h
    rw [nextRunOf_eq (f := fun job => job) hjobs ((findJob_congr hsame).trans hjob), hpending.next]
  unfold update
  dsimp only
  split
  · exact ⟨_, hloaded, rfl⟩
  rename_i job' hjob'
  split
  · exact ⟨_, hloaded, rfl⟩
  rename_i nextJob hnextJob
  refine ⟨_, by rw [persist_jobs, mapJobs_jobs, hloaded]; rfl, ?_⟩
  exact jobsWith_updateJob hne
    (fun _ _ => (patchedJob_id hnextJob).trans (findJob_id hjob')) _

theorem nextRunOf_remove (hne : id' ≠ id) (hdue : slot ≤ loadNow) :
    nextRunOf deps (remove deps s id' loadNow) id = some slot ↔
      (s.jobs.isNone → SlotIsComputed deps job slot loadNow) := by
  have hremoved (jobs : List CronJob) (hjobs : (s.ensureLoaded deps false false loadNow).jobs =
      some jobs) : (remove deps s id' loadNow).jobs = some (removeJob id' jobs) := by
    unfold remove
    rw [persist_jobs, mapJobs_jobs, hjobs]
    rfl
  have hfind (jobs : List CronJob) : findJob (removeJob id' jobs) id = findJob jobs id :=
    findJob_congr (jobsWith_removeJob hne jobs)
  have hloaded := ensureLoaded_jobs deps s false false loadNow
  cases hmemory : s.jobs with
  | some jobs =>
    have hjob : findJob jobs id = some job := by
      simpa [CronStore.current, hmemory] using hjob
    rw [nextRunOf_eq (f := fun job => job) (hremoved jobs (by simpa [hmemory] using hloaded))
      ((hfind jobs).trans hjob), hpending.next]
    simp
  | none =>
    have hjob : findJob (s.reloaded deps.toCronHost) id = some job := by
      simpa [CronStore.current, hmemory] using hjob
    rw [nextRunOf_eq (f := walkJob (recomputeIfDueOrMissing deps) loadNow)
      (hremoved (recomputeNextRuns deps loadNow (s.reloaded deps.toCronHost))
        (by simpa [hmemory] using hloaded))
      (by rw [hfind, findJob_recomputeNextRuns, hjob]; rfl), hpending.full hdue]
    simp

theorem nextRunOf_preflight (hne : id' ≠ id) (mode : CronRunMode) (specError : Str)
    {endWalkNow : ℤ} (hdue : slot ≤ walkNow) (hclock : walkNow ≤ endWalkNow) :
    nextRunOf deps (inspectManualRunPreflight deps s id' mode specError loadNow walkNow now
        endWalkNow).1 id = some slot ↔
      (slot ≤ 0 → SlotIsComputed deps job slot walkNow ∧
        ((inspectManualRunPreflight deps s id' mode specError loadNow walkNow now endWalkNow).2 =
          .invalidSpec → SlotIsComputed deps job slot endWalkNow)) := by
  have hwalked : ((s.ensureLoaded deps false true loadNow).mapJobs
      (recomputeNextRunsForMaintenance deps {} walkNow)).jobs =
      some (recomputeNextRunsForMaintenance deps {} walkNow (s.current deps.toCronHost)) := by
    rw [mapJobs_jobs, ensureLoaded_skip_jobs]
    rfl
  have hfind : findJob (recomputeNextRunsForMaintenance deps {} walkNow
      (s.current deps.toCronHost)) id = some (walkJob (maintainJob deps {}) walkNow job) := by
    rw [findJob_recomputeNextRunsForMaintenance, hjob]
    rfl
  -- every answer but one leaves the store as the first walk does
  have honce {s' : CronStore} {answer : ManualRunPreflight} (hanswer : answer ≠ .invalidSpec)
      (hs' : s' = (s.ensureLoaded deps false true loadNow).mapJobs
        (recomputeNextRunsForMaintenance deps {} walkNow)) :
      nextRunOf deps (s', answer).1 id = some slot ↔
        (slot ≤ 0 → SlotIsComputed deps job slot walkNow ∧
          ((s', answer).2 = .invalidSpec → SlotIsComputed deps job slot endWalkNow)) := by
    rw [hs', nextRunOf_eq (f := walkJob (maintainJob deps {}) walkNow) hwalked hfind,
      hpending.maintenance hdue]
    simp [hanswer]
  unfold inspectManualRunPreflight
  dsimp only
  split
  · exact honce (by simp) rfl
  rename_i job' hjob'
  split
  · have hskipped : (skipInvalidPersistedManualRun deps ((s.ensureLoaded deps false true
        loadNow).mapJobs (recomputeNextRunsForMaintenance deps {} walkNow)) id' mode specError now
        endWalkNow).jobs = some (recomputeNextRunsForMaintenance deps { recomputeExpired := true }
          endWalkNow (applyResultTo deps id' ⟨.skipped, some specError, now, now⟩ (mode == .force)
            (recomputeNextRunsForMaintenance deps {} walkNow (s.current deps.toCronHost)))) := by
      unfold skipInvalidPersistedManualRun
      rw [persist_jobs, mapJobs_jobs, hwalked]
      rfl
    rw [nextRunOf_eq (f := fun job => walkJob (maintainJob deps { recomputeExpired := true })
        endWalkNow (walkJob (maintainJob deps {}) walkNow job)) hskipped
      (by rw [findJob_recomputeNextRunsForMaintenance,
            findJob_congr (jobsWith_applyResultTo hne _ _ _), hfind]; rfl),
      hpending.maintenance_maintenance hdue hclock]
    simp
  split
  · exact honce (by simp) rfl
  split
  · exact honce (by simp) rfl
  · exact honce (by simp) rfl

theorem nextRunOf_reserve (hne : id' ≠ id) (preflightNow : ℤ) :
    nextRunOf deps (reserveManualRun s id' preflightNow).1 id = some slot := by
  have hsame : nextRunOf deps s id = some slot := by
    unfold nextRunOf
    rw [hjob]
    exact hpending.next
  unfold reserveManualRun
  split
  · exact hsame
  rename_i job' hjob'
  split
  · exact hsame
  cases hmemory : s.jobs with
  | none => simp [hmemory, findJob] at hjob'
  | some jobs =>
    have hjob : findJob jobs id = some job := by
      simpa [CronStore.current, hmemory] using hjob
    have hreserved : (s.mapJobs (updateJob id' (markRunning preflightNow))).persist.jobs =
        some (updateJob id' (markRunning preflightNow) jobs) := by
      rw [persist_jobs, mapJobs_jobs, hmemory]
      rfl
    have hframe : jobsWith id (updateJob id' (markRunning preflightNow) jobs) = jobsWith id jobs :=
      jobsWith_updateJob hne (fun job h => (markRunning_id preflightNow job).trans h) jobs
    rw [nextRunOf_eq (f := fun job => job) hreserved ((findJob_congr hframe).trans hjob),
      hpending.next]

end

theorem nextRunOf_finishRun (hjob : findJob (s.current deps.toCronHost) id = some job)
    {reloadNow : ℤ}
    (hreloaded : findJob ((s.ensureLoaded deps false true loadNow).reloaded deps.toCronHost) id =
      some job)
    (hpending : SlotPending job slot) (hne : id' ≠ id) (mode : CronRunMode) (result : CronRunResult)
    (hdue : slot ≤ walkNow) :
    nextRunOf deps (finishPreparedManualRun deps s id' mode result loadNow reloadNow walkNow) id =
        some slot ↔
      (slot ≤ 0 → findJob (s.current deps.toCronHost) id' ≠ none →
        SlotIsComputed deps job slot walkNow) := by
  have hloaded := ensureLoaded_skip_jobs deps s loadNow
  unfold finishPreparedManualRun
  dsimp only
  rw [hloaded, getD_some]
  cases hother : findJob (s.current deps.toCronHost) id' with
  | none =>
    dsimp only
    rw [nextRunOf_eq (f := fun job => job) hloaded hjob, hpending.next]
    simp
  | some job' =>
    dsimp only
    set applied := (s.ensureLoaded deps false true loadNow).mapJobs
      (applyResultTo deps id' result (mode == .force)) with happlied
    -- the result of another job is no difference to what the files give for this one
    have happlied : findJob (applied.reloaded deps.toCronHost) id = some job := by
      have hmemory : jobsWith id (applied.jobs.getD []) =
          jobsWith id ((s.ensureLoaded deps false true loadNow).jobs.getD []) := by
        rw [happlied, mapJobs_jobs, hloaded]
        exact jobsWith_applyResultTo hne ..
      have hframe : jobsWith id (applied.reloaded deps.toCronHost) =
          jobsWith id ((s.ensureLoaded deps false true loadNow).reloaded deps.toCronHost) :=
        jobsWith_reloaded_congr rfl rfl hmemory
      rw [findJob_congr hframe, hreloaded]
    rw [nextRunOf_eq (f := walkJob (maintainJob deps { recomputeExpired := true }) walkNow)
      (by rw [persist_jobs, mapJobs_jobs, ensureLoaded_force_jobs]; rfl)
      (by rw [findJob_recomputeNextRunsForMaintenance,
            findJob_congr (jobsWith_mergeManualRunSnapshotAfterReload hne _ _), happlied]; rfl),
      hpending.maintenance hdue]
    simp

section

variable (hreloaded : findJob (s.reloaded deps.toCronHost) id = some job)
  (hpending : SlotPending job slot)
include hreloaded hpending

theorem nextRunOf_scan {dueCheckNow : ℤ} (hdue : slot ≤ dueCheckNow)
    (hother : ¬ ∃ job ∈ (scanDueJobs deps s loadNow dueCheckNow now).2, job.id = id) :
    nextRunOf deps (scanDueJobs deps s loadNow dueCheckNow now).1 id = some slot ↔
      (slot ≤ 0 → (scanDueJobs deps s loadNow dueCheckNow now).2 = [] →
        SlotIsComputed deps job slot dueCheckNow) := by
  have hloaded := ensureLoaded_force_jobs deps s loadNow
  have hfound := find?_some hreloaded
  have hmem : job ∈ s.reloaded deps.toCronHost := mem_of_find?_eq_some hreloaded
  unfold scanDueJobs at hother ⊢
  dsimp only at hother ⊢
  rw [hloaded, getD_some] at hother ⊢
  split
  · rename_i hnone
    have hwalked : ((s.ensureLoaded deps true true loadNow).mapJobs
        (recomputeNextRunsForMaintenance deps { recomputeExpired := true } dueCheckNow)).jobs =
        some (recomputeNextRunsForMaintenance deps { recomputeExpired := true } dueCheckNow
          (s.reloaded deps.toCronHost)) := by
      rw [mapJobs_jobs, hloaded]
      rfl
    have hresult : (if ((s.ensureLoaded deps true true loadNow).mapJobs
          (recomputeNextRunsForMaintenance deps { recomputeExpired := true } dueCheckNow)).jobs =
          some (s.reloaded deps.toCronHost) then s.ensureLoaded deps true true loadNow
        else ((s.ensureLoaded deps true true loadNow).mapJobs
          (recomputeNextRunsForMaintenance deps { recomputeExpired := true }
            dueCheckNow)).persist).jobs =
        some (recomputeNextRunsForMaintenance deps { recomputeExpired := true } dueCheckNow
          (s.reloaded deps.toCronHost)) := by
      split
      · rename_i hsame
        rw [hloaded, ← hsame, hwalked]
      · rw [persist_jobs, hwalked]
    rw [nextRunOf_eq (f := walkJob (maintainJob deps { recomputeExpired := true }) dueCheckNow)
      hresult (by rw [findJob_recomputeNextRunsForMaintenance, hreloaded]; rfl),
      hpending.maintenance hdue]
    simp
  · rename_i hsome
    rw [if_neg hsome] at hother
    have hnotRunnable : isRunnableJob job dueCheckNow = false := by
      by_contra hrunnable
      exact hother ⟨job, mem_filter.mpr ⟨hmem, by simpa using hrunnable⟩, by simpa using hfound⟩
    let mark := fun job => if isRunnableJob job dueCheckNow then markRunning now job else job
    have hmark (job : CronJob) : (mark job).id = job.id := by
      show (if isRunnableJob job dueCheckNow then markRunning now job else job).id = job.id
      split <;> rfl
    have hsame : mark job = job := by
      show (if isRunnableJob job dueCheckNow then markRunning now job else job) = job
      rw [hnotRunnable]
      rfl
    rw [nextRunOf_eq (f := mark)
      (by rw [persist_jobs, mapJobs_jobs, hloaded]; rfl)
      (by rw [findJob_map hmark, hreloaded]; rfl), hsame, hpending.next]
    simp [hsome]

theorem nextRunOf_applyOutcomes {outcomes : List (Str × CronRunResult)}
    (hother : ¬ ∃ outcome ∈ outcomes, outcome.1 = id) (hdue : slot ≤ walkNow) :
    nextRunOf deps (applyDueOutcomes deps s outcomes loadNow walkNow) id = some slot ↔
      (slot ≤ 0 → SlotIsComputed deps job slot walkNow) := by
  have hne : ∀ outcome ∈ outcomes, outcome.1 ≠ id := fun outcome hmem heq =>
    hother ⟨outcome, hmem, heq⟩
  unfold applyDueOutcomes
  dsimp only
  rw [nextRunOf_eq (f := walkJob (maintainJob deps {}) walkNow)
    (by rw [persist_jobs, mapJobs_jobs, ensureLoaded_force_jobs]; rfl)
    (by rw [findJob_recomputeNextRunsForMaintenance, findJob_congr (jobsWith_applyOutcomes hne _),
          hreloaded]; rfl)]
  exact hpending.maintenance hdue

end

end

/-! ## When a slot stays due -/

/-- An operation that neither edits nor executes a job keeps its pending slot exactly where
every recomputation of it gives the slot again. The operation works on the job as the service
knows it, its slot is due when the clock is first read, and the clock does not go back. -/
theorem nextRunOf_run_iff {s : CronStore} {id : Str} {job : CronJob} {slot : ℤ}
    (op : CronOperation) (hjob : findJob (s.current deps.toCronHost) id = some job)
    (hworked : findJob (op.workedOn deps s) id = some job) (hpending : SlotPending job slot)
    (hclocks : (slot :: op.clocks).Pairwise (· ≤ ·)) (hother : ¬ op.Concerns deps s id) :
    nextRunOf deps (op.run deps s) id = some slot ↔
      ∀ now ∈ op.recomputes deps s slot, SlotIsComputed deps job slot now := by
  cases op with
  | read loadNow walkNow =>
    simp only [CronOperation.clocks, pairwise_cons, mem_cons, forall_eq_or_imp] at hclocks
    refine (nextRunOf_read hjob hpending hclocks.1.2.1).trans ?_
    by_cases hpos : 0 < slot <;> simp [CronOperation.recomputes, hpos]
    omega
  | add input loadNow createNow walkNow =>
    simp only [CronOperation.clocks, pairwise_cons, mem_cons, forall_eq_or_imp] at hclocks
    refine (nextRunOf_add hjob hpending input hclocks.1.1 hclocks.2.1.2.1).trans ?_
    cases hmemory : s.jobs <;> cases hnew : createJob deps input createNow <;>
      simp [CronOperation.recomputes, hmemory, hnew]
  | update id' patch loadNow now =>
    exact iff_of_true (nextRunOf_update hjob hpending hother patch loadNow now)
      (by simp [CronOperation.recomputes])
  | remove id' loadNow =>
    simp only [CronOperation.clocks, pairwise_cons, mem_cons, forall_eq_or_imp] at hclocks
    refine (nextRunOf_remove hjob hpending hother hclocks.1.1).trans ?_
    cases hmemory : s.jobs <;> simp [CronOperation.recomputes, hmemory]
  | preflight id' mode specError loadNow walkNow now endWalkNow =>
    simp only [CronOperation.clocks, pairwise_cons, mem_cons, forall_eq_or_imp] at hclocks
    refine (nextRunOf_preflight hjob hpending hother mode specError hclocks.1.2.1
      hclocks.2.2.1.2.1).trans ?_
    rw [inspectManualRunPreflight_invalidSpec_iff]
    by_cases hpos : 0 < slot
    · simp [CronOperation.recomputes, hpos]
    · cases hinvalid : (findJob (s.current deps.toCronHost) id').any (!isSupportedJobSpec ·) with
      | true =>
        simp [CronOperation.recomputes, hpos, hinvalid]
        omega
      | false =>
        simp [CronOperation.recomputes, hpos, hinvalid]
        omega
  | reserve id' preflightNow =>
    exact iff_of_true (nextRunOf_reserve hjob hpending hother preflightNow)
      (by simp [CronOperation.recomputes])
  | finishRun id' mode result loadNow reloadNow walkNow =>
    simp only [CronOperation.clocks, pairwise_cons, mem_cons, forall_eq_or_imp] at hclocks
    refine (nextRunOf_finishRun hjob hworked hpending hother mode result hclocks.1.2.2.1).trans ?_
    by_cases hpos : 0 < slot
    · simp [CronOperation.recomputes, hpos]
    · by_cases hknown : findJob (s.current deps.toCronHost) id' = none
      · simp [CronOperation.recomputes, hknown]
      · simp [CronOperation.recomputes, hpos, hknown]
        omega
  | scan loadNow dueCheckNow now =>
    simp only [CronOperation.clocks, pairwise_cons, mem_cons, forall_eq_or_imp] at hclocks
    refine (nextRunOf_scan hworked hpending hclocks.1.2.1 hother).trans ?_
    rw [scanDueJobs_eq_nil_iff]
    by_cases hpos : 0 < slot
    · simp [CronOperation.recomputes, hpos]
    · cases hdue : (s.reloaded deps.toCronHost).any (isRunnableJob · dueCheckNow) with
      | true => simp [CronOperation.recomputes, hdue]
      | false =>
        simp only [CronOperation.recomputes, hpos, hdue]
        simp
        omega
  | applyOutcomes outcomes loadNow walkNow =>
    simp only [CronOperation.clocks, pairwise_cons, mem_cons, forall_eq_or_imp] at hclocks
    refine (nextRunOf_applyOutcomes hworked hpending hother hclocks.1.2.1).trans ?_
    by_cases hpos : 0 < slot <;> simp [CronOperation.recomputes, hpos]
    omega

/-- A job that runs every minute and is due at the first. -/
def dueJob : CronJob := (minutelyJob none).setNextRun (some 60000)

def dueStore : CronStore where
  jobs := some [dueJob]
  configFile := [minutelyJob none]
  stateFile _ := some ⟨tryCronScheduleIdentity dueJob, dueJob.state⟩

theorem dueJob_pending : SlotPending dueJob 60000 := by
  constructor <;> decide

/-- Listing the jobs a second later. -/
theorem nextRunOf_run_iff_list :
    nextRunOf (minutely none) ((CronOperation.read 60000 61000).run (minutely none) dueStore)
      "job".toList = some 60000 :=
  (nextRunOf_run_iff (.read 60000 61000) rfl rfl dueJob_pending (by decide) id).mpr (by
    intro now hnow
    simp [CronOperation.recomputes] at hnow)

/-- Another job that runs every minute. -/
def otherJobCreate : CronJobCreate where
  id := "other".toList
  enabled := none
  deleteAfterRun := none
  schedule := .cron "* * * * *".toList none none
  sessionTarget := "main".toList
  payloadKind := .systemEvent
  state := {}
  accepted := true

/-- Not every operation keeps the pending slots of the jobs it is not about. -/
theorem not_nextRunOf_run_add : ¬ ∀ (deps : CronDeps) (s : CronStore) (id : Str) (job : CronJob)
    (slot : ℤ) (op : CronOperation), findJob (s.current deps.toCronHost) id = some job →
    findJob (op.workedOn deps s) id = some job → SlotPending job slot →
    (slot :: op.clocks).Pairwise (· ≤ ·) → ¬ op.Concerns deps s id →
    nextRunOf deps (op.run deps s) id = some slot := by
  intro hall
  have hkept := hall (minutely none) dueStore "job".toList dueJob 60000
    (.add otherJobCreate 61000 61000 61000) rfl rfl dueJob_pending (by decide)
    (by show otherJobCreate.id ≠ "job".toList; decide)
  exact absurd hkept (by decide +kernel)

end OpenClaw
