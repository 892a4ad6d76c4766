import OpenClaw.Cron.Service

/-!
# What an operation leaves alone

An operation on one job leaves the jobs with other ids alone, and a walk or a load treats
each job on its own.
-/

namespace OpenClaw

open List

variable {deps : CronDeps} {id id' : Str}

variable (jobs : List CronJob)

/-- The jobs with this id, which are one job in a store the service has written. -/
def jobsWith (id : Str) (jobs : List CronJob) : List CronJob := jobs.filter (·.id = id)

theorem findJob_eq (id : Str) : findJob jobs id = (jobsWith id jobs).head? := by
  unfold findJob jobsWith
  rw [head?_filter]

theorem findJob_reverse_eq (id : Str) : findJob jobs.reverse id = (jobsWith id jobs).getLast? := by
  rw [findJob_eq]
  unfold jobsWith
  rw [filter_reverse, head?_reverse]

theorem jobsWith_append (jobs jobs' : List CronJob) :
    jobsWith id (jobs ++ jobs') = jobsWith id jobs ++ jobsWith id jobs' :=
  filter_append ..

theorem jobsWith_map {f : CronJob → CronJob} (hf : ∀ job, (f job).id = job.id)
    (jobs : List CronJob) : jobsWith id (jobs.map f) = (jobsWith id jobs).map f := by
  unfold jobsWith
  rw [filter_map]
  congr 2
  funext job
  simp [hf]

theorem mem_jobsWith {job : CronJob} {jobs : List CronJob} :
    job ∈ jobsWith id jobs ↔ job ∈ jobs ∧ job.id = id := by
  unfold jobsWith
  simp

theorem findJob_map {f : CronJob → CronJob} (hf : ∀ job, (f job).id = job.id)
    (jobs : List CronJob) (id : Str) : findJob (jobs.map f) id = (findJob jobs id).map f := by
  rw [findJob_eq, findJob_eq, jobsWith_map hf, head?_map]

/-! ## Edits of another job -/

theorem jobsWith_updateJob (hne : id' ≠ id) {f : CronJob → CronJob}
    (hf : ∀ job, job.id = id' → (f job).id = id') (jobs : List CronJob) :
    jobsWith id (updateJob id' f jobs) = jobsWith id jobs := by
  induction jobs with
  | nil => rfl
  | cons job jobs ih =>
    unfold updateJob
    split
    · rename_i hjob
      have hother : ¬ job.id = id := fun heq => hne (hjob.symm.trans heq)
      have hother' : ¬ (f job).id = id := fun heq => hne ((hf job hjob).symm.trans heq)
      simp [jobsWith, hother, hother']
    · simp only [jobsWith, filter_cons]
      split
      · exact congrArg (job :: ·) ih
      · exact ih

theorem jobsWith_removeJob (hne : id' ≠ id) (jobs : List CronJob) :
    jobsWith id (removeJob id' jobs) = jobsWith id jobs := by
  unfold jobsWith removeJob
  rw [filter_filter]
  refine filter_congr fun job _ => ?_
  by_cases heq : job.id = id
  · have : id ≠ id' := fun h => hne h.symm
    simp [heq, this]
  · simp [heq]

variable (job : CronJob)

@[simp]
theorem applyJobResult_id (result : CronRunResult) (preserveSchedule : Bool) :
    (applyJobResult deps job result preserveSchedule).1.id = job.id := by
  have hsettle (job : CronJob) : (settleOneShot deps job result).id = job.id := by
    unfold settleOneShot
    split
    · rfl
    · rfl
    · dsimp only
      split <;> rfl
  have hschedule (job : CronJob) (prev : Option ℤ) :
      (scheduleAfterResult deps job prev result preserveSchedule).id = job.id := by
    unfold scheduleAfterResult
    dsimp only
    cases naturalNextAfterResult deps job prev result.endedAt preserveSchedule with
    | error err =>
      dsimp only
      split
      · rfl
      · split <;> rfl
    | ok next =>
      dsimp only
      split
      · rfl
      · split <;> rfl
  unfold applyJobResult
  dsimp only
  split
  · rfl
  split
  · exact hsettle _
  split
  · exact hschedule _ _
  · rfl

theorem jobsWith_applyResultTo (hne : id' ≠ id) (result : CronRunResult) (preserveSchedule : Bool)
    (jobs : List CronJob) :
    jobsWith id (applyResultTo deps id' result preserveSchedule jobs) = jobsWith id jobs := by
  unfold applyResultTo
  split
  · rfl
  split
  · exact jobsWith_removeJob hne jobs
  · exact jobsWith_updateJob hne (fun job hjob => (applyJobResult_id ..).trans hjob) jobs

theorem jobsWith_mergeManualRunSnapshotAfterReload (hne : id' ≠ id) (snapshot : Option CronJob)
    (jobs : List CronJob) :
    jobsWith id (mergeManualRunSnapshotAfterReload id' snapshot jobs) = jobsWith id jobs := by
  unfold mergeManualRunSnapshotAfterReload
  split
  · exact jobsWith_removeJob hne jobs
  · apply jobsWith_updateJob hne
    exact fun _ hjob => hjob

theorem jobsWith_applyOutcomes {outcomes : List (Str × CronRunResult)}
    (hne : ∀ outcome ∈ outcomes, outcome.1 ≠ id) (jobs : List CronJob) :
    jobsWith id (outcomes.foldl (fun jobs outcome =>
      applyResultTo deps outcome.1 outcome.2 false jobs) jobs) = jobsWith id jobs := by
  induction outcomes generalizing jobs with
  | nil => rfl
  | cons outcome outcomes ih =>
    rw [foldl_cons, ih fun other hother => hne other (mem_cons_of_mem _ hother)]
    exact jobsWith_applyResultTo (hne outcome mem_cons_self) ..

variable (now : ℤ)

theorem markRunning_id (job : CronJob) : (markRunning now job).id = job.id := rfl

/-! ## Walks -/

@[simp]
theorem recompute_runningAtMs :
    (recomputeJobNextRunAtMs deps job now).state.runningAtMs = job.state.runningAtMs := by
  unfold recomputeJobNextRunAtMs
  split <;> rfl

/-- What both walks have in common: they recompute a job or leave it alone. -/
def Recomputes (deps : CronDeps) (fn : CronJob → ℤ → CronJob) : Prop :=
  ∀ job now, fn job now = recomputeJobNextRunAtMs deps job now ∨ fn job now = job

variable (opts : MaintenanceOptions)

theorem recomputes_maintainJob : Recomputes deps (maintainJob deps opts) := by
  intro job now
  unfold maintainJob
  split
  · exact .inl rfl
  split
  · exact .inl rfl
  split
  · exact .inl rfl
  · exact .inr rfl

theorem recomputes_recomputeIfDueOrMissing : Recomputes deps (recomputeIfDueOrMissing deps) := by
  intro job now
  unfold recomputeIfDueOrMissing
  dsimp only
  split
  · exact .inl rfl
  · exact .inr rfl

/-- A part of a job that a walk cannot change. -/
def IsFixed {α : Type} (part : CronJob → α) : Prop :=
  ∀ job enabled schedule state,
    part { job with enabled := enabled, schedule := schedule, state := state } = part job

theorem isFixed_id : IsFixed CronJob.id := fun _ _ _ _ => rfl

theorem isFixed_isSupportedJobSpec : IsFixed isSupportedJobSpec := fun _ _ _ _ => rfl

namespace IsFixed

variable {α : Type} {part : CronJob → α}

theorem recompute (h : IsFixed part) (job : CronJob) (now : ℤ) :
    part (recomputeJobNextRunAtMs deps job now) = part job := by
  unfold recomputeJobNextRunAtMs
  split
  · exact h job ..
  · exact h job ..

theorem normalizeAnchor (h : IsFixed part) (job : CronJob) (now : ℤ) :
    part (normalizeAnchor job now) = part job := by
  unfold OpenClaw.normalizeAnchor
  split
  · exact h job ..
  · rfl

theorem normalizeJobTickState (h : IsFixed part) (job : CronJob) (now : ℤ) :
    part (normalizeJobTickState job now).1 = part job := by
  have hanchor := h.normalizeAnchor job now
  unfold OpenClaw.normalizeJobTickState
  dsimp only
  set anchored := OpenClaw.normalizeAnchor job now
  split
  · exact (h anchored ..).trans hanchor
  have hvalid : part (if hasScheduledNextRunAtMs anchored.state.nextRunAtMs = true then anchored
      else anchored.setNextRun none) = part job := by
    split
    · exact hanchor
    · exact (h anchored ..).trans hanchor
  set valid := if hasScheduledNextRunAtMs anchored.state.nextRunAtMs = true then anchored
    else anchored.setNextRun none
  split
  · exact hvalid
  split
  · exact (h valid ..).trans hvalid
  · exact hvalid

theorem walkJob {fn : CronJob → ℤ → CronJob} (h : IsFixed part) (hfn : Recomputes deps fn)
    (now : ℤ) (job : CronJob) : part (walkJob fn now job) = part job := by
  have hnormalized := h.normalizeJobTickState job now
  unfold OpenClaw.walkJob
  split
  · rename_i heq
    rwa [heq] at hnormalized
  · rename_i walked heq
    rw [heq] at hnormalized
    rcases hfn walked now with hsame | hsame
    · rw [hsame, h.recompute]
      exact hnormalized
    · rw [hsame]
      exact hnormalized

end IsFixed

theorem findJob_recomputeNextRunsForMaintenance (now : ℤ) (jobs : List CronJob) (id : Str) :
    findJob (recomputeNextRunsForMaintenance deps opts now jobs) id =
      (findJob jobs id).map (walkJob (maintainJob deps opts) now) :=
  findJob_map (isFixed_id.walkJob (recomputes_maintainJob opts) now) jobs id

theorem findJob_recomputeNextRuns (jobs : List CronJob) (id : Str) :
    findJob (recomputeNextRuns deps now jobs) id =
      (findJob jobs id).map (walkJob (recomputeIfDueOrMissing deps) now) :=
  findJob_map (isFixed_id.walkJob recomputes_recomputeIfDueOrMissing now) jobs id

/-! ## Loads -/

namespace CronStore

@[simp]
theorem mergeStateFileEntry_id (entry : Option CronStateFileEntry) :
    (mergeStateFileEntry job entry).id = job.id := by
  unfold mergeStateFileEntry
  split
  · rfl
  dsimp only
  split <;> rfl

@[simp]
theorem hydrate_id (host : CronHost) (previousJobs : List CronJob) (job : CronJob) :
    (hydrate host previousJobs job).id = job.id := by
  unfold hydrate invalidateStaleNextRun
  split
  · rfl
  · split <;> rfl

/-- A load looks at the job with the same id only. -/
theorem hydrate_congr {host : CronHost} {previousJobs previousJobs' : List CronJob} {job : CronJob}
    (h : jobsWith job.id previousJobs = jobsWith job.id previousJobs') :
    hydrate host previousJobs job = hydrate host previousJobs' job := by
  have hlast : previousJobs.reverse.find? (·.id = job.id) =
      previousJobs'.reverse.find? (·.id = job.id) := by
    have := findJob_reverse_eq previousJobs job.id
    rw [h, ← findJob_reverse_eq] at this
    exact this
  unfold hydrate invalidateStaleNextRun
  dsimp only
  rw [hlast]

theorem jobsWith_reloaded_congr {host : CronHost} {s s' : CronStore}
    (hconfig : s.configFile = s'.configFile) (hstate : s.stateFile = s'.stateFile)
    (hjobs : jobsWith id (s.jobs.getD []) = jobsWith id (s'.jobs.getD [])) :
    jobsWith id (s.reloaded host) = jobsWith id (s'.reloaded host) := by
  unfold reloaded loadCronStore
  rw [hconfig, hstate, jobsWith_map (hydrate_id host _), jobsWith_map (hydrate_id host _)]
  refine map_congr_left fun job hjob => hydrate_congr ?_
  rw [(mem_jobsWith.mp hjob).2]
  exact hjobs

/-- The jobs the service works with: those in memory, or those a load would bring. -/
def current (host : CronHost) (s : CronStore) : List CronJob := s.jobs.getD (s.reloaded host)

@[simp]
theorem persist_jobs (s : CronStore) : s.persist.jobs = s.jobs := by
  unfold persist
  split
  · rename_i hnone
    rw [hnone]
  · rfl

@[simp]
theorem mapJobs_jobs (f : List CronJob → List CronJob) (s : CronStore) :
    (s.mapJobs f).jobs = s.jobs.map f := rfl

variable (deps)

theorem ensureLoaded_jobs (s : CronStore) (forceReload skipRecompute : Bool) (now : ℤ) :
    (s.ensureLoaded deps forceReload skipRecompute now).jobs = some
      (if s.jobs.isSome ∧ !forceReload then s.jobs.getD []
      else if skipRecompute then s.reloaded deps.toCronHost
      else recomputeNextRuns deps now (s.reloaded deps.toCronHost)) := by
  unfold ensureLoaded
  split
  · rename_i hloaded
    obtain ⟨jobs, hjobs⟩ := Option.isSome_iff_exists.mp hloaded.1
    rw [hjobs]
    rfl
  · rfl

/-- Without a recomputation, a store that is loaded on demand has its current jobs. -/
theorem ensureLoaded_skip_jobs (s : CronStore) (now : ℤ) :
    (s.ensureLoaded deps false true now).jobs = some (s.current deps.toCronHost) := by
  rw [ensureLoaded_jobs]
  unfold current
  cases s.jobs <;> rfl

theorem ensureLoaded_force_jobs (s : CronStore) (now : ℤ) :
    (s.ensureLoaded deps true true now).jobs = some (s.reloaded deps.toCronHost) := by
  rw [ensureLoaded_jobs]
  simp

variable {deps}

end CronStore

end OpenClaw
