import OpenClaw.Cron.Evaluator

/-!
# The backoff of a failed job

After a failed run a recurring job is not due before its backoff has passed, whatever walks
over the jobs come in between. The floor is computed with the default table and checked with
the configured one, so the property depends on the two agreeing.
-/

namespace OpenClaw

open Calendar List Option

variable {deps : CronDeps}

/-! ## Walks -/

/-- One of the calls that recompute the schedule of all jobs. -/
inductive RecomputeCall where
  | recomputeNextRuns (nowMs : ℤ)
  | recomputeNextRunsForMaintenance (opts : MaintenanceOptions) (nowMs : ℤ)
deriving DecidableEq

variable (job : CronJob)

namespace RecomputeCall

def nowMs : RecomputeCall → ℤ
  | recomputeNextRuns nowMs | recomputeNextRunsForMaintenance _ nowMs => nowMs

variable (deps)

/-- What the call does with a schedulable job. -/
def visit : RecomputeCall → CronJob → ℤ → CronJob
  | recomputeNextRuns _ => recomputeIfDueOrMissing deps
  | recomputeNextRunsForMaintenance opts _ => maintainJob deps opts

def apply (call : RecomputeCall) (jobs : List CronJob) : List CronJob :=
  match call with
  | recomputeNextRuns nowMs => OpenClaw.recomputeNextRuns deps nowMs jobs
  | recomputeNextRunsForMaintenance opts nowMs =>
    OpenClaw.recomputeNextRunsForMaintenance deps opts nowMs jobs

/-- What the call does with one job. -/
def applyJob (call : RecomputeCall) (job : CronJob) : CronJob :=
  walkJob (call.visit deps) call.nowMs job

variable {deps}

theorem apply_eq (call : RecomputeCall) (jobs : List CronJob) :
    call.apply deps jobs = jobs.map (call.applyJob deps) := by
  cases call <;> rfl

end RecomputeCall

def applyCalls (deps : CronDeps) (calls : List RecomputeCall) (jobs : List CronJob) :
    List CronJob :=
  calls.foldl (fun jobs call => call.apply deps jobs) jobs

/-- The calls treat each job on its own. -/
theorem getElem?_applyCalls (calls : List RecomputeCall) (jobs : List CronJob) (i : ℕ) :
    (applyCalls deps calls jobs)[i]? =
      jobs[i]?.map fun job => calls.foldl (fun job call => call.applyJob deps job) job := by
  induction calls generalizing jobs with
  | nil => simp [applyCalls]
  | cons call calls ih =>
    have hstep : applyCalls deps (call :: calls) jobs =
        applyCalls deps calls (call.apply deps jobs) := rfl
    rw [hstep, ih, RecomputeCall.apply_eq, getElem?_map, Option.map_map]
    rfl

/-! ## What a walk leaves alone -/

/-- The walks change when a job runs next, not what it is or how it last ran. -/
structure SameHistory (job job' : CronJob) : Prop where
  id : job'.id = job.id
  schedule : job'.schedule = job.schedule ∨ (job.isEvery = true ∧ job'.isEvery = true)
  lastRunAtMs : job'.state.lastRunAtMs = job.state.lastRunAtMs
  lastStatus : job'.state.lastStatus = job.state.lastStatus
  lastDurationMs : job'.state.lastDurationMs = job.state.lastDurationMs
  consecutiveErrors : job'.state.consecutiveErrors = job.state.consecutiveErrors
  notRunning : job.state.runningAtMs = none → job'.state.runningAtMs = none

theorem SameHistory.refl : SameHistory job job :=
  ⟨rfl, .inl rfl, rfl, rfl, rfl, rfl, fun h => h⟩

theorem SameHistory.trans {a b c : CronJob} (h : SameHistory a b) (h' : SameHistory b c) :
    SameHistory a c where
  id := h'.id.trans h.id
  schedule := by
    rcases h'.schedule with heq | ⟨hb, hc⟩
    · rcases h.schedule with heq' | ⟨ha, hb⟩
      · exact .inl (heq.trans heq')
      · refine .inr ⟨ha, ?_⟩
        unfold CronJob.isEvery at hb ⊢
        rw [heq]
        exact hb
    · rcases h.schedule with heq' | ⟨ha, hb⟩
      · refine .inr ⟨?_, hc⟩
        unfold CronJob.isEvery at hb ⊢
        rw [← heq']
        exact hb
      · exact .inr ⟨ha, hc⟩
  lastRunAtMs := h'.lastRunAtMs.trans h.lastRunAtMs
  lastStatus := h'.lastStatus.trans h.lastStatus
  lastDurationMs := h'.lastDurationMs.trans h.lastDurationMs
  consecutiveErrors := h'.consecutiveErrors.trans h.consecutiveErrors
  notRunning := fun hrunning => h'.notRunning (h.notRunning hrunning)

theorem sameHistory_recomputeJobNextRunAtMs (now : ℤ) :
    SameHistory job (recomputeJobNextRunAtMs deps job now) := by
  unfold recomputeJobNextRunAtMs
  split <;> exact ⟨rfl, .inl rfl, rfl, rfl, rfl, rfl, fun h => h⟩

theorem sameHistory_normalizeAnchor (now : ℤ) : SameHistory job (normalizeAnchor job now) := by
  unfold normalizeAnchor
  split
  · rename_i hschedule
    refine ⟨rfl, .inr ⟨?_, rfl⟩, rfl, rfl, rfl, rfl, fun h => h⟩
    simp [CronJob.isEvery, hschedule]
  · exact .refl job

variable {job job' : CronJob} {now floor next : ℤ} {result : CronRunResult}
  {preserveSchedule : Bool}

theorem SameHistory.isCron (h : SameHistory job job') : job'.isCron = job.isCron := by
  unfold CronJob.isCron
  rcases h.schedule with heq | ⟨hevery, hevery'⟩
  · rw [heq]
  · unfold CronJob.isEvery at hevery hevery'
    split at hevery <;> split at hevery' <;> simp_all

theorem SameHistory.schedule_eq (h : SameHistory job job')
    (hcron : job.isCron = true) : job'.schedule = job.schedule := by
  refine h.schedule.resolve_right fun hevery => ?_
  have := hevery.1
  unfold CronJob.isEvery at this
  unfold CronJob.isCron at hcron
  split at hcron <;> simp_all

/-- A call recomputes a job or leaves it alone, and says which jobs it recomputes. -/
theorem visit_cases (deps : CronDeps) (call : RecomputeCall) (job : CronJob) (now : ℤ) :
    (call.visit deps job now = recomputeJobNextRunAtMs deps job now ∧
      (hasScheduledNextRunAtMs job.state.nextRunAtMs = false ∨
        (∃ next, job.state.nextRunAtMs = some next ∧ next ≤ now) ∨
        shouldRepairFutureCronNextRunAtMs deps job now = true)) ∨
    (call.visit deps job now = job ∧ hasScheduledNextRunAtMs job.state.nextRunAtMs = true) := by
  have hdue (h : job.state.nextRunAtMs.any (· ≤ now) = true) :
      ∃ next, job.state.nextRunAtMs = some next ∧ next ≤ now := by
    cases hnext : job.state.nextRunAtMs with
    | none => simp [hnext] at h
    | some next => exact ⟨next, rfl, by simpa [hnext] using h⟩
  cases call with
  | recomputeNextRuns _ =>
    show (recomputeIfDueOrMissing deps job now = _ ∧ _) ∨ (recomputeIfDueOrMissing deps job now = _ ∧ _)
    unfold recomputeIfDueOrMissing
    dsimp only
    split
    · rename_i hcond
      refine .inl ⟨rfl, ?_⟩
      rcases Bool.or_eq_true_iff.mp hcond with hmissing | hrepair
      · rcases Bool.or_eq_true_iff.mp hmissing with hnone | hpast
        · exact .inl (by simpa using hnone)
        · exact .inr (.inl (hdue hpast))
      · exact .inr (.inr hrepair)
    · rename_i hcond
      refine .inr ⟨rfl, ?_⟩
      simp only [Bool.or_eq_true, Bool.not_eq_true', not_or, Bool.not_eq_false] at hcond
      exact hcond.1.1
  | recomputeNextRunsForMaintenance opts _ =>
    show (maintainJob deps opts job now = _ ∧ _) ∨ (maintainJob deps opts job now = _ ∧ _)
    unfold maintainJob
    split
    · rename_i hmissing
      exact .inl ⟨rfl, .inl (by simpa using hmissing)⟩
    rename_i hscheduled
    split
    · rename_i hrepair
      exact .inl ⟨rfl, .inr (.inr (Bool.and_eq_true_iff.mp hrepair).2)⟩
    split
    · rename_i hexpired
      simp only [Bool.and_eq_true] at hexpired
      exact .inl ⟨rfl, .inr (.inl (hdue hexpired.1.1.2))⟩
    · exact .inr ⟨rfl, by simpa using hscheduled⟩

theorem sameHistory_visit (call : RecomputeCall) (job : CronJob) (now : ℤ) :
    SameHistory job (call.visit deps job now) := by
  rcases visit_cases deps call job now with ⟨heq, -⟩ | ⟨heq, -⟩
  · rw [heq]
    exact sameHistory_recomputeJobNextRunAtMs job now
  · rw [heq]
    exact .refl job

theorem normalizeAnchor_of_isCron (hcron : job.isCron = true) (now : ℤ) :
    normalizeAnchor job now = job := by
  unfold CronJob.isCron at hcron
  unfold normalizeAnchor
  split at hcron <;> simp_all

/-- A disabled job loses its next run and is skipped. -/
theorem walkJob_disabled {fn : CronJob → ℤ → CronJob} (h : job.isEnabled = false) :
    walkJob fn now job = ((normalizeAnchor job now).setNextRun none).setRunning none := by
  simp [walkJob, normalizeJobTickState, h]

/-- An enabled job that is not running and has a valid next run or none is visited. -/
theorem walkJob_enabled {fn : CronJob → ℤ → CronJob}
    (h : job.isEnabled = true) (hrunning : job.state.runningAtMs = none)
    (hnext : ∀ next, job.state.nextRunAtMs = some next → 0 < next) :
    walkJob fn now job = fn (normalizeAnchor job now) now := by
  have hjob : (if hasScheduledNextRunAtMs job.state.nextRunAtMs = true then normalizeAnchor job now
      else (normalizeAnchor job now).setNextRun none) = normalizeAnchor job now := by
    split
    · rfl
    · rename_i hmissing
      have hnone : job.state.nextRunAtMs = none := by
        cases heq : job.state.nextRunAtMs with
        | none => rfl
        | some next => simp [heq, hasScheduledNextRunAtMs, hnext next heq] at hmissing
      have hstate : (normalizeAnchor job now).state.nextRunAtMs = none := by
        rw [normalizeAnchor_state, hnone]
      unfold CronJob.setNextRun
      rw [← hstate]
  simp [walkJob, normalizeJobTickState, h, hjob, hrunning]

/-! ## The floor -/

/-- When the failed run ended, plus the default backoff for the errors in a row. -/
def backoffFloorMs (job : CronJob) (result : CronRunResult) : ℤ :=
  result.endedAt + errorBackoffMs (job.state.consecutiveErrors.getD 0 + 1) defaultErrorBackoffScheduleMs

variable (deps job result)

/-- The same with the configured table. -/
def configuredFloorMs : ℤ :=
  result.endedAt +
    errorBackoffMs (max 1 (job.state.consecutiveErrors.getD 0 + 1)) (retryBackoffMs deps)

/-- The configured backoff is the shorter one and the floor, which is no slot of the
schedule, lies so far behind two slots in a row that it looks stale from before them. -/
def FloorLooksStale : Prop :=
  job.isCron = true ∧ configuredFloorMs deps job result < backoffFloorMs job result ∧
    isStaggeredCronRunAtMs deps job (backoffFloorMs job result) = .ok false ∧
    ∃ now natural following, result.endedAt ≤ now ∧
      computeStaggeredCronNextRunAtMs deps.toCronHost job.id job.schedule now = .ok (some natural) ∧
      computeStaggeredCronNextRunAtMs deps.toCronHost job.id job.schedule natural =
        .ok (some following) ∧
      following + (following - natural) ≤ backoffFloorMs job result

variable {deps job result}

/-- The backoff of a failed run is kept: the run is followed by none before the floor,
whichever calls come after it. -/
structure BackoffKept (deps : CronDeps) (job : CronJob) (result : CronRunResult)
    (preserveSchedule : Bool) : Prop where
  applied : ∀ next, (applyJobResult deps job result preserveSchedule).1.state.nextRunAtMs =
    some next → backoffFloorMs job result ≤ next
  kept : ∀ (before after : List CronJob) (calls : List RecomputeCall) (t : ℤ) (job' : CronJob),
    (result.endedAt :: calls.map (·.nowMs) ++ [t]).Pairwise (· ≤ ·) →
    t < backoffFloorMs job result →
    (applyCalls deps calls
      (before ++ (applyJobResult deps job result preserveSchedule).1 :: after))[before.length]? =
        some job' →
    ∀ next, job'.state.nextRunAtMs = some next → t < next

/-! ## After the failed run -/

/-- What a failed run leaves behind, apart from the next run. -/
structure HasFailed (job : CronJob) (result : CronRunResult) (job' : CronJob) : Prop where
  id : job'.id = job.id
  schedule : job.isCron = true → job'.schedule = job.schedule
  isCron : job'.isCron = job.isCron
  lastRunAtMs : job'.state.lastRunAtMs = some result.startedAt
  lastStatus : job'.state.lastStatus = some .error
  lastDurationMs : job'.state.lastDurationMs = some (max 0 (result.endedAt - result.startedAt))
  consecutiveErrors : job'.state.consecutiveErrors =
    some (job.state.consecutiveErrors.getD 0 + 1)
  notRunning : job'.state.runningAtMs = none

theorem HasFailed.keep {job'' : CronJob}
    (h : HasFailed job result job') (hsame : SameHistory job' job'') :
    HasFailed job result job'' where
  id := hsame.id.trans h.id
  schedule hcron := (hsame.schedule_eq (h.isCron.trans hcron)).trans (h.schedule hcron)
  isCron := hsame.isCron.trans h.isCron
  lastRunAtMs := hsame.lastRunAtMs.trans h.lastRunAtMs
  lastStatus := hsame.lastStatus.trans h.lastStatus
  lastDurationMs := hsame.lastDurationMs.trans h.lastDurationMs
  consecutiveErrors := hsame.consecutiveErrors.trans h.consecutiveErrors
  notRunning := hsame.notRunning h.notRunning

theorem hasFailed_recordJobResult (job : CronJob)
    (hstatus : result.status = .error) : HasFailed job result (recordJobResult job result) := by
  refine ⟨rfl, fun _ => rfl, rfl, rfl, ?_, rfl, ?_, rfl⟩
  · show some result.status = _
    rw [hstatus]
  · show (if result.status = .error then _ else _) = _
    rw [if_pos hstatus]

/-- The next run of a failed job is not before the floor, and where it is not the floor
itself, no slot of its schedule from now on is either. -/
structure NotBeforeFloor (deps : CronDeps) (job : CronJob) (floor now : ℤ) (job' : CronJob) :
    Prop where
  next : ∀ next, job'.state.nextRunAtMs = some next → floor ≤ next
  scheduled : job'.isEnabled = true → job.isCron = false → job'.state.nextRunAtMs ≠ none
  quiet : job'.isEnabled = true → job.isCron = true → job'.state.nextRunAtMs ≠ some floor →
    ∀ t ≥ now, ∀ next,
      computeStaggeredCronNextRunAtMs deps.toCronHost job.id job.schedule t = .ok (some next) →
      floor ≤ next

theorem applyJobResult_failed (henabled : job.isEnabled = true) (hat : job.isAt = false) :
    (applyJobResult deps job result preserveSchedule).1 =
      scheduleAfterResult deps (recordJobResult job result) job.state.lastRunAtMs result
        preserveSchedule := by
  have hat' : (recordJobResult job result).isAt = false := hat
  have henabled' : (recordJobResult job result).isEnabled = true := henabled
  simp [applyJobResult, hat', henabled']

theorem sameHistory_recordScheduleComputeError (job : CronJob) (err : Str) :
    SameHistory job (recordScheduleComputeError job err) :=
  ⟨rfl, .inl rfl, rfl, rfl, rfl, rfl, fun h => h⟩

theorem sameHistory_setNextRun (job : CronJob) (next : Option ℤ) :
    SameHistory job (job.setNextRun next) :=
  ⟨rfl, .inl rfl, rfl, rfl, rfl, rfl, fun h => h⟩

/-- The result itself. -/
theorem hasFailed_applyJobResult
    (henabled : job.isEnabled = true) (hat : job.isAt = false) (hstatus : result.status = .error) :
    HasFailed job result (applyJobResult deps job result preserveSchedule).1 := by
  rw [applyJobResult_failed henabled hat]
  have hrecorded := hasFailed_recordJobResult job hstatus
  unfold scheduleAfterResult
  dsimp only
  rw [if_pos hstatus]
  refine HasFailed.keep (HasFailed.keep hrecorded ?_) (sameHistory_setNextRun _ _)
  split
  · exact sameHistory_recordScheduleComputeError _ _
  · exact .refl _

/-- The next run after a failed run: the later of the natural one and the floor. -/
theorem nextRunAtMs_scheduleAfterResult (deps : CronDeps) (job : CronJob) (prev : Option ℤ)
    (preserveSchedule : Bool) (hstatus : result.status = .error) :
    (scheduleAfterResult deps (recordJobResult job result) prev result
      preserveSchedule).state.nextRunAtMs =
      match naturalNextAfterResult deps (recordJobResult job result) prev result.endedAt
        preserveSchedule with
      | .ok (some natural) => some (max natural (backoffFloorMs job result))
      | _ => if job.isCron then none else some (backoffFloorMs job result) := by
  have herrors : (recordJobResult job result).state.consecutiveErrors.getD 1 =
      job.state.consecutiveErrors.getD 0 + 1 := by
    rw [(hasFailed_recordJobResult job hstatus).consecutiveErrors]
    rfl
  have hcron : (recordJobResult job result).isCron = job.isCron := rfl
  unfold scheduleAfterResult
  dsimp only
  rw [if_pos hstatus]
  cases hnatural : naturalNextAfterResult deps (recordJobResult job result) prev result.endedAt
      preserveSchedule with
  | error err =>
    have hcron' : (recordScheduleComputeError (recordJobResult job result) err).isCron =
        job.isCron := rfl
    have herrors' : (recordScheduleComputeError (recordJobResult job result)
        err).state.consecutiveErrors.getD 1 = job.state.consecutiveErrors.getD 0 + 1 := herrors
    simp only [CronJob.setNextRun, hcron', herrors', resolveCronNextRunWithLowerBound,
      backoffFloorMs, map_none]
  | ok natural =>
    simp only [CronJob.setNextRun, hcron, herrors, resolveCronNextRunWithLowerBound, backoffFloorMs]
    cases natural with
    | none => rfl
    | some natural => cases job.isCron <;> rfl

theorem isEvery_of_isCron (hcron : job.isCron = true) : job.isEvery = false := by
  unfold CronJob.isCron at hcron
  unfold CronJob.isEvery
  split <;> simp_all

/-- The natural next run of a cron job after a result. -/
theorem naturalNextAfterResult_cron (hdeps : deps.Lawful) (result : CronRunResult)
    (prev : Option ℤ) (preserveSchedule : Bool) (henabled : job.isEnabled = true)
    (hcron : job.isCron = true) :
    naturalNextAfterResult deps (recordJobResult job result) prev result.endedAt preserveSchedule =
      computeStaggeredCronNextRunAtMs deps.toCronHost job.id job.schedule result.endedAt := by
  have hcron' : (recordJobResult job result).isCron = true := hcron
  have henabled' : (recordJobResult job result).isEnabled = true := henabled
  unfold naturalNextAfterResult
  rw [isEvery_of_isCron hcron', if_neg (by simp), computeJobNextRunAtMs_eq hdeps henabled' hcron']
  rfl

/-- The result itself respects the floor. -/
theorem notBeforeFloor_applyJobResult (hdeps : deps.Lawful) (henabled : job.isEnabled = true)
    (hat : job.isAt = false) (hstatus : result.status = .error) :
    NotBeforeFloor deps job (backoffFloorMs job result) result.endedAt
      (applyJobResult deps job result preserveSchedule).1 := by
  rw [applyJobResult_failed henabled hat]
  have hnext := nextRunAtMs_scheduleAfterResult deps job job.state.lastRunAtMs preserveSchedule
    hstatus
  refine ⟨fun next heq => ?_, fun _ hcron => ?_, fun _ hcron hother t ht next heq => ?_⟩
  · rw [heq] at hnext
    split at hnext
    · have := some.inj hnext
      omega
    · split_ifs at hnext
      have := some.inj hnext
      omega
  · rw [hnext, hcron]
    split <;> simp
  · -- the natural next run of a cron job
    have hevaluator := isEvaluator_computeStaggeredCronNextRunAtMs hdeps hcron
    rw [naturalNextAfterResult_cron hdeps result _ preserveSchedule henabled hcron] at hnext
    obtain ⟨natural, hle, hfirst⟩ := hevaluator.exists_le ht heq
    rw [hfirst] at hnext
    have hne : max natural (backoffFloorMs job result) ≠ backoffFloorMs job result := fun hmax =>
      hother (hnext.trans (congrArg some hmax))
    omega

/-! ## The calls that follow -/

theorem notBeforeFloor_of_disabled
    (henabled : job'.isEnabled = false) (hnext : job'.state.nextRunAtMs = none) :
    NotBeforeFloor deps job floor now job' :=
  ⟨fun next heq => absurd (hnext.symm.trans heq) (by simp),
    fun h => absurd (henabled.symm.trans h) (by simp),
    fun h => absurd (henabled.symm.trans h) (by simp)⟩

/-- What `shouldRepairFutureCronNextRunAtMs` has found out when it says so. -/
theorem shouldRepairFutureCronNextRunAtMs_spec
    (h : shouldRepairFutureCronNextRunAtMs deps job now = true)
    (hnext : job.state.nextRunAtMs = some next) :
    job.isCron = true ∧ isPendingErrorBackoffSlot deps job next now = false ∧
      isStaggeredCronRunAtMs deps job next = .ok false ∧
      ∃ natural, computeStaggeredCronNextRunAtMs deps.toCronHost job.id job.schedule now =
          .ok (some natural) ∧
        (next < natural ∨ ∃ following,
          computeStaggeredCronNextRunAtMs deps.toCronHost job.id job.schedule natural =
            .ok (some following) ∧ following + (following - natural) ≤ next) := by
  unfold shouldRepairFutureCronNextRunAtMs at h
  rw [hnext] at h
  dsimp only at h
  split at h
  · exact nomatch h
  rename_i hguard
  split at h
  · exact nomatch h
  rename_i hpending
  have hcron : job.isCron = true := by
    by_contra hcron
    exact hguard (.inl (by simpa using hcron))
  refine ⟨hcron, by simpa using hpending, ?_⟩
  unfold isStaleFutureRun at h
  split at h
  · rename_i natural hnatural
    split at h
    · rename_i hslot
      refine ⟨hslot, natural, hnatural, ?_⟩
      split at h
      · rename_i hbefore
        exact .inl hbefore
      split at h
      · exact nomatch h
      split at h
      · rename_i following hfollowing
        simp only [Bool.and_eq_true, decide_eq_true_eq] at h
        exact .inr ⟨following, hfollowing, h.2⟩
      · exact nomatch h
    · exact nomatch h
  · exact nomatch h

/-- The configured backoff, as the repair computes it. -/
theorem isPendingErrorBackoffSlot_eq
    (h : HasFailed job result job') (hended : result.startedAt ≤ result.endedAt) (next now : ℤ) :
    isPendingErrorBackoffSlot deps job' next now =
      (decide (now < configuredFloorMs deps job result) &&
        decide (next ≤ configuredFloorMs deps job result)) := by
  have herrors : effectiveConsecutiveErrors job' =
      max 1 (job.state.consecutiveErrors.getD 0 + 1) := by
    unfold effectiveConsecutiveErrors
    rw [h.consecutiveErrors]
  unfold isPendingErrorBackoffSlot
  rw [h.lastRunAtMs]
  dsimp only
  rw [if_neg (by simp [h.lastStatus]), h.lastDurationMs, herrors]
  have hfloor : result.startedAt + max 0 ((some (max 0 (result.endedAt - result.startedAt))).getD 0) +
      errorBackoffMs (max 1 (job.state.consecutiveErrors.getD 0 + 1)) (retryBackoffMs deps) =
      configuredFloorMs deps job result := by
    show result.startedAt + max 0 (max 0 (result.endedAt - result.startedAt)) + _ = _
    unfold configuredFloorMs
    omega
  rw [hfloor]

/-- A recomputed cron job runs at its next slot or later. -/
theorem nextRunAtMs_recomputeJobNextRunAtMs {r : Option ℤ}
    (h : computeJobNextRunAtMs deps job now = .ok r)
    (hnext : (recomputeJobNextRunAtMs deps job now).state.nextRunAtMs = some next) :
    ∃ natural, r = some natural ∧ natural ≤ next := by
  unfold recomputeJobNextRunAtMs at hnext
  rw [h] at hnext
  dsimp only at hnext
  cases r with
  | none =>
    split at hnext
    · split at hnext <;> exact nomatch hnext
    · exact nomatch hnext
  | some natural =>
    refine ⟨natural, rfl, ?_⟩
    split at hnext
    · split at hnext
      · have hmax : max natural _ = next := some.inj hnext
        exact hmax ▸ le_max_left _ _
      · exact (some.inj hnext).le
    · exact (some.inj hnext).le

/-- A recomputed cron job respects the floor where its schedule does. -/
theorem notBeforeFloor_recomputeJobNextRunAtMs (hdeps : deps.Lawful)
    (hfailed : HasFailed job result job')
    (henabled : job'.isEnabled = true) (hcron : job.isCron = true)
    (hquiet : ∀ t ≥ now, ∀ next, computeStaggeredCronNextRunAtMs deps.toCronHost job.id
      job.schedule t = .ok (some next) → floor ≤ next) :
    NotBeforeFloor deps job floor now (recomputeJobNextRunAtMs deps job' now) := by
  have hcompute : computeJobNextRunAtMs deps job' now =
      computeStaggeredCronNextRunAtMs deps.toCronHost job.id job.schedule now := by
    rw [computeJobNextRunAtMs_eq hdeps henabled (hfailed.isCron.trans hcron), hfailed.id,
      hfailed.schedule hcron]
  refine ⟨fun next hnext => ?_, fun _ hnot => absurd (hcron.symm.trans hnot) (by simp),
    fun _ _ _ => hquiet⟩
  cases hr : computeStaggeredCronNextRunAtMs deps.toCronHost job.id job.schedule now with
  | error err =>
    have hnone : (recomputeJobNextRunAtMs deps job' now).state.nextRunAtMs = none := by
      unfold recomputeJobNextRunAtMs
      rw [hcompute, hr]
      rfl
    exact absurd (hnone.symm.trans hnext) (by simp)
  | ok r =>
    obtain ⟨natural, rfl, hle⟩ := nextRunAtMs_recomputeJobNextRunAtMs (hcompute.trans hr) hnext
    exact (hquiet now le_rfl natural hr).trans hle

/-- A call before the floor finds nothing to repair that would come earlier. -/
theorem NotBeforeFloor.visit (hdeps : deps.Lawful)
    (hstale : ¬ FloorLooksStale deps job result) (hended : result.startedAt ≤ result.endedAt)
    (hpos : 0 < backoffFloorMs job result) (call : RecomputeCall)
    (hnow : result.endedAt ≤ now) (hbefore : now < backoffFloorMs job result)
    (hfailed : HasFailed job result job') (henabled : job'.isEnabled = true)
    (h : NotBeforeFloor deps job (backoffFloorMs job result) now job') :
    NotBeforeFloor deps job (backoffFloorMs job result) now (call.visit deps job' now) := by
  rcases visit_cases deps call job' now with ⟨heq, hwhy⟩ | ⟨heq, -⟩
  swap
  · rw [heq]
    exact h
  rw [heq]
  -- a next run is valid and still ahead, so it was recomputed for a repair
  have hrepair (next : ℤ) (hnext : job'.state.nextRunAtMs = some next) :
      shouldRepairFutureCronNextRunAtMs deps job' now = true := by
    have hfloor := h.next next hnext
    rcases hwhy with hinvalid | ⟨next', hnext', hpast⟩ | hrepair
    · have hvalid : hasScheduledNextRunAtMs (some next) = true := by
        show decide (0 < next) = true
        exact decide_eq_true (by omega)
      rw [hnext, hvalid] at hinvalid
      exact nomatch hinvalid
    · have : next = next' := some.inj (hnext.symm.trans hnext')
      omega
    · exact hrepair
  by_cases hcron : job.isCron = true
  · refine notBeforeFloor_recomputeJobNextRunAtMs hdeps hfailed henabled hcron ?_
    by_cases hother : job'.state.nextRunAtMs = some (backoffFloorMs job result)
    · obtain ⟨-, hpending, hslot, natural, hnatural, hwhere⟩ :=
        shouldRepairFutureCronNextRunAtMs_spec (hrepair _ hother) hother
      rw [hfailed.id, hfailed.schedule hcron] at hnatural hwhere
      rcases hwhere with hahead | ⟨following, hfollowing, hfar⟩
      · intro t ht next hnext
        have hevaluator := isEvaluator_computeStaggeredCronNextRunAtMs hdeps hcron
        have := hevaluator.le_of_le ht hnatural hnext
        omega
      · refine absurd ⟨hcron, ?_, ?_, now, natural, following, hnow, hnatural, hfollowing, hfar⟩
          hstale
        · rw [isPendingErrorBackoffSlot_eq hfailed hended] at hpending
          simp only [Bool.and_eq_false_iff, decide_eq_false_iff_not] at hpending
          omega
        · unfold isStaggeredCronRunAtMs at hslot ⊢
          rw [hfailed.isCron, hfailed.id, hfailed.schedule hcron] at hslot
          exact hslot
    · exact h.quiet henabled hcron hother
  · have hcron : job.isCron = false := by simpa using hcron
    cases hnext : job'.state.nextRunAtMs with
    | none => exact absurd hnext (h.scheduled henabled hcron)
    | some next =>
      have hrepaired := (shouldRepairFutureCronNextRunAtMs_spec (hrepair next hnext) hnext).1
      rw [hfailed.isCron, hcron] at hrepaired
      exact nomatch hrepaired

theorem NotBeforeFloor.later {job'' : CronJob} {c : ℤ}
    (h : NotBeforeFloor deps job floor c job') (hle : c ≤ now) (hstate : job''.state = job'.state)
    (henabled : job''.isEnabled = job'.isEnabled) : NotBeforeFloor deps job floor now job'' := by
  refine ⟨?_, ?_, ?_⟩
  · rw [hstate]
    exact h.next
  · rw [hstate, henabled]
    exact h.scheduled
  · rw [hstate, henabled]
    exact fun hon hcron hother t ht => h.quiet hon hcron hother t (hle.trans ht)

section

variable (hdeps : deps.Lawful)
  (hstale : ¬ FloorLooksStale deps job result)
  (hended : result.startedAt ≤ result.endedAt)
  (hpos : 0 < backoffFloorMs job result)
include hdeps hstale hended hpos

/-- One call. -/
theorem NotBeforeFloor.call (call : RecomputeCall) {c : ℤ} (hc : result.endedAt ≤ c)
    (hclock : c ≤ call.nowMs) (hbefore : call.nowMs < backoffFloorMs job result)
    (hfailed : HasFailed job result job')
    (h : NotBeforeFloor deps job (backoffFloorMs job result) c job') :
    HasFailed job result (call.applyJob deps job') ∧
      NotBeforeFloor deps job (backoffFloorMs job result) call.nowMs (call.applyJob deps job') := by
  unfold RecomputeCall.applyJob
  by_cases henabled : job'.isEnabled = true
  · rw [walkJob_enabled henabled hfailed.notRunning fun next hnext =>
      lt_of_lt_of_le hpos (h.next next hnext)]
    have hfailed' := hfailed.keep (sameHistory_normalizeAnchor job' call.nowMs)
    have h' : NotBeforeFloor deps job (backoffFloorMs job result) call.nowMs
        (normalizeAnchor job' call.nowMs) := h.later hclock (by simp) (by simp)
    exact ⟨hfailed'.keep (sameHistory_visit call _ _),
      h'.visit hdeps hstale hended hpos call (hc.trans hclock) hbefore hfailed' (by simpa using henabled)⟩
  · have hdisabled : job'.isEnabled = false := by simpa using henabled
    rw [walkJob_disabled hdisabled]
    refine ⟨?_, notBeforeFloor_of_disabled ?_ rfl⟩
    · exact hfailed.keep ((sameHistory_normalizeAnchor job' call.nowMs).trans
        ⟨rfl, .inl rfl, rfl, rfl, rfl, rfl, fun _ => rfl⟩)
    · exact (normalizeAnchor_isEnabled job' call.nowMs).trans hdisabled

/-- A sequence of calls with a clock that does not go back. -/
theorem NotBeforeFloor.calls (calls : List RecomputeCall) :
    ∀ (c t : ℤ) (job' : CronJob), result.endedAt ≤ c →
      (c :: calls.map (·.nowMs) ++ [t]).Pairwise (· ≤ ·) → t < backoffFloorMs job result →
      HasFailed job result job' → NotBeforeFloor deps job (backoffFloorMs job result) c job' →
      ∀ next, (calls.foldl (fun job call => call.applyJob deps job) job').state.nextRunAtMs =
        some next → backoffFloorMs job result ≤ next := by
  induction calls with
  | nil => exact fun c t job' _ _ _ _ h next hnext => h.next next hnext
  | cons call calls ih =>
    intro c t job' hc hclocks ht hfailed h
    simp only [map_cons, cons_append, pairwise_cons] at hclocks
    obtain ⟨hfirst, hrest, hclocks⟩ := hclocks
    have hlast : call.nowMs ≤ t := hrest t (by simp)
    have hclock : c ≤ call.nowMs := hfirst _ (by simp)
    have hstep := h.call hdeps hstale hended hpos call hc hclock (lt_of_le_of_lt hlast ht) hfailed
    refine ih call.nowMs t _ (hc.trans hclock) ?_ ht hstep.1 hstep.2
    exact pairwise_cons.mpr ⟨hrest, hclocks⟩

end

/-! ## When the backoff is kept -/

theorem backoffFloorMs_pos (hended : 0 ≤ result.endedAt) : 0 < backoffFloorMs job result := by
  have hentries : ∀ i : ℕ, 0 < defaultErrorBackoffScheduleMs.getD i 30000 := by
    intro i
    rcases i with _ | _ | _ | _ | _ | i <;> simp [defaultErrorBackoffScheduleMs]
  have hbackoff := hentries (max 0 (min (job.state.consecutiveErrors.getD 0 + 1 - 1)
    (defaultErrorBackoffScheduleMs.length - 1))).toNat
  unfold backoffFloorMs errorBackoffMs
  omega

/-- A cron job whose natural run comes before the floor is enabled and runs at the floor. -/
theorem nextRunAtMs_applyJobResult_eq_floor (hdeps : deps.Lawful) (henabled : job.isEnabled = true)
    (hat : job.isAt = false) (hstatus : result.status = .error) (hcron : job.isCron = true)
    {first : ℤ} (hfirst : computeStaggeredCronNextRunAtMs deps.toCronHost job.id job.schedule
      result.endedAt = .ok (some first)) (hle : first ≤ backoffFloorMs job result) :
    (applyJobResult deps job result preserveSchedule).1.isEnabled = true ∧
      (applyJobResult deps job result preserveSchedule).1.state.nextRunAtMs =
        some (backoffFloorMs job result) := by
  have hcompute : naturalNextAfterResult deps (recordJobResult job result) job.state.lastRunAtMs
      result.endedAt preserveSchedule = .ok (some first) :=
    (naturalNextAfterResult_cron hdeps result _ preserveSchedule henabled hcron).trans hfirst
  rw [applyJobResult_failed henabled hat]
  constructor
  · unfold scheduleAfterResult
    simp only [hcompute, if_pos hstatus]
    exact henabled
  · rw [nextRunAtMs_scheduleAfterResult _ _ _ _ hstatus, hcompute]
    exact congrArg some (max_eq_right hle)

/-- The repair moves a failed job to its next slot, or to the configured backoff from the
start of the run. -/
theorem nextRunAtMs_recomputeJobNextRunAtMs_failed (hdeps : deps.Lawful)
    (hfailed : HasFailed job result job')
    (henabled : job'.isEnabled = true) (hcron : job.isCron = true) {natural : ℤ}
    (hnatural : computeStaggeredCronNextRunAtMs deps.toCronHost job.id job.schedule now =
      .ok (some natural)) :
    (recomputeJobNextRunAtMs deps job' now).state.nextRunAtMs =
      some (max natural (result.startedAt + errorBackoffMs
        (max 1 (job.state.consecutiveErrors.getD 0 + 1)) (retryBackoffMs deps))) := by
  have hcron' : job'.isCron = true := hfailed.isCron.trans hcron
  have hcompute : computeJobNextRunAtMs deps job' now = .ok (some natural) := by
    rw [computeJobNextRunAtMs_eq hdeps henabled hcron', hfailed.id, hfailed.schedule hcron, hnatural]
  have hat : job'.isAt = false := by
    cases hschedule : job'.schedule <;> simp_all [CronJob.isAt, CronJob.isCron]
  have herrors : effectiveConsecutiveErrors job' =
      max 1 (job.state.consecutiveErrors.getD 0 + 1) := by
    unfold effectiveConsecutiveErrors
    rw [hfailed.consecutiveErrors]
  unfold recomputeJobNextRunAtMs
  rw [hcompute]
  dsimp only
  rw [hfailed.lastRunAtMs]
  dsimp only
  rw [if_pos ⟨by simp [hat], hfailed.lastStatus⟩, herrors]
  rfl

/-- The maintenance walk recomputes a job whose future run needs a repair. -/
theorem applyJob_of_shouldRepair (henabled : job.isEnabled = true)
    (hcron : job.isCron = true) (hrunning : job.state.runningAtMs = none)
    (hnext : job.state.nextRunAtMs = some next) (hpos : 0 < next)
    (hrepair : shouldRepairFutureCronNextRunAtMs deps job now = true) :
    (RecomputeCall.recomputeNextRunsForMaintenance {} now).applyJob deps job =
      recomputeJobNextRunAtMs deps job now := by
  have hvalid : hasScheduledNextRunAtMs job.state.nextRunAtMs = true := by
    rw [hnext]
    exact decide_eq_true hpos
  show walkJob _ now job = _
  rw [walkJob_enabled henabled hrunning fun next' heq => by
    have : next = next' := some.inj (hnext.symm.trans heq)
    omega, normalizeAnchor_of_isCron hcron]
  show maintainJob deps {} job now = _
  unfold maintainJob
  rw [hvalid, hrepair]
  rfl

/-- A floor that looks stale is repaired away before it is reached. -/
theorem not_backoffKept_of_floorLooksStale (hdeps : deps.Lawful)
    (preserveSchedule : Bool) (henabled : job.isEnabled = true)
    (hat : job.isAt = false) (hstatus : result.status = .error) (hstart : 0 ≤ result.startedAt)
    (hended : result.startedAt ≤ result.endedAt) (hstale : FloorLooksStale deps job result) :
    ¬ BackoffKept deps job result preserveSchedule := by
  intro hkept
  obtain ⟨hcron, hshorter, hslot, now, natural, following, hnow, hnatural, hfollowing, hfar⟩ :=
    hstale
  have hevaluator := isEvaluator_computeStaggeredCronNextRunAtMs hdeps hcron
  have hpos : 0 < backoffFloorMs job result := backoffFloorMs_pos (by omega)
  have hlt : now < natural := hevaluator.lt hnatural
  have hlt' : natural < following := hevaluator.lt hfollowing
  set applied := (applyJobResult deps job result preserveSchedule).1 with happlied
  have hfailed : HasFailed job result applied := hasFailed_applyJobResult henabled hat hstatus
  -- the first natural run comes before the floor
  obtain ⟨first, hfirst, hfirst'⟩ := hevaluator.exists_le hnow hnatural
  obtain ⟨henabled', hnext⟩ : applied.isEnabled = true ∧
      applied.state.nextRunAtMs = some (backoffFloorMs job result) :=
    nextRunAtMs_applyJobResult_eq_floor hdeps henabled hat hstatus hcron hfirst' (by omega)
  -- so the maintenance walk takes the floor for a stale slot
  have hrepair : shouldRepairFutureCronNextRunAtMs deps applied now = true := by
    have hslot' : isStaggeredCronRunAtMs deps applied (backoffFloorMs job result) = .ok false := by
      unfold isStaggeredCronRunAtMs at hslot ⊢
      rw [hfailed.isCron, hfailed.id, hfailed.schedule hcron]
      exact hslot
    have hpending : isPendingErrorBackoffSlot deps applied (backoffFloorMs job result) now =
        false := by
      rw [isPendingErrorBackoffSlot_eq hfailed hended]
      simp only [Bool.and_eq_false_iff, decide_eq_false_iff_not]
      omega
    have hguard : ¬ ((!applied.isCron) = true ∨ backoffFloorMs job result ≤ 0 ∨
        backoffFloorMs job result ≤ now ∨ applied.state.runningAtMs.isSome = true) := by
      rw [hfailed.isCron, hcron, hfailed.notRunning]
      simp only [Bool.not_true, isSome_none, Bool.false_eq_true, or_false, false_or]
      omega
    unfold shouldRepairFutureCronNextRunAtMs
    rw [hnext]
    dsimp only
    rw [if_neg hguard, if_neg (by simp [hpending])]
    unfold isStaleFutureRun
    rw [hfailed.id, hfailed.schedule hcron, hnatural]
    dsimp only
    rw [hslot']
    dsimp only
    rw [if_neg (by omega), if_neg (by omega), hfollowing]
    simp only [Bool.and_eq_true, decide_eq_true_eq]
    omega
  -- and makes the job due at the repaired run
  let call := RecomputeCall.recomputeNextRunsForMaintenance {} now
  let repaired := max natural (result.startedAt + errorBackoffMs
    (max 1 (job.state.consecutiveErrors.getD 0 + 1)) (retryBackoffMs deps))
  have hrepaired : (call.applyJob deps applied).state.nextRunAtMs = some repaired := by
    rw [applyJob_of_shouldRepair henabled' (hfailed.isCron.trans hcron) hfailed.notRunning hnext
      hpos hrepair]
    exact nextRunAtMs_recomputeJobNextRunAtMs_failed hdeps hfailed henabled' hcron hnatural
  have hnatural' : natural ≤ repaired := le_max_left _ _
  have hclocks : List.Pairwise (· ≤ ·) [result.endedAt, now, repaired] := by
    simp only [pairwise_cons, mem_cons, not_mem_nil, or_false, forall_eq_or_imp, forall_eq]
    exact ⟨⟨hnow, by omega⟩, by omega, by simp, .nil⟩
  have hearly : repaired < backoffFloorMs job result := by
    have hconfigured : result.endedAt + errorBackoffMs
        (max 1 (job.state.consecutiveErrors.getD 0 + 1)) (retryBackoffMs deps) <
        backoffFloorMs job result := hshorter
    exact max_lt (by omega) (by omega)
  have hdue := hkept.kept [] [] [call] repaired (call.applyJob deps applied) hclocks hearly rfl
    repaired hrepaired
  exact absurd hdue (lt_irrefl _)

/-- The backoff of a failed run of a recurring job is kept exactly when its floor does not
look stale to the repair. -/
theorem backoffKept_iff (hdeps : deps.Lawful) {job : CronJob} {result : CronRunResult}
    (preserveSchedule : Bool) (henabled : job.isEnabled = true) (hat : job.isAt = false)
    (hstatus : result.status = .error) (hstart : 0 ≤ result.startedAt)
    (hended : result.startedAt ≤ result.endedAt) :
    BackoffKept deps job result preserveSchedule ↔ ¬ FloorLooksStale deps job result := by
  refine ⟨fun hkept hstale => not_backoffKept_of_floorLooksStale hdeps preserveSchedule henabled hat hstatus hstart
    hended hstale hkept, fun hstale => ?_⟩
  have hpos : 0 < backoffFloorMs job result := backoffFloorMs_pos (by omega)
  have hfailed : HasFailed job result (applyJobResult deps job result preserveSchedule).1 :=
    hasFailed_applyJobResult henabled hat hstatus
  have hfloor : NotBeforeFloor deps job (backoffFloorMs job result) result.endedAt
      (applyJobResult deps job result preserveSchedule).1 :=
    notBeforeFloor_applyJobResult hdeps henabled hat hstatus
  refine ⟨hfloor.next, fun before after calls t job' hclocks ht hjob' next hnext => ?_⟩
  rw [getElem?_applyCalls, getElem?_append_right le_rfl] at hjob'
  simp only [Nat.sub_self, getElem?_cons_zero, map_some, some.injEq] at hjob'
  rw [← hjob'] at hnext
  have := NotBeforeFloor.calls hdeps hstale hended hpos calls result.endedAt t _ le_rfl hclocks ht
    hfailed hfloor next hnext
  omega

/-! ## A job that runs every minute -/

variable (retry : Option CronRetryConfig)

/-- An evaluator for which every expression means every minute. -/
def minutely : CronDeps where
  localTimezone := "UTC"
  nextRun _ _ t := .ok (some ((t / 60000 + 1) * 60000))
  previousRun _ _ t := .ok (some ((t - 1) / 60000 * 60000))
  parseDate _ := none
  isoString _ := []
  digestHead _ := 0
  retry := retry
  isTransientCronError _ _ := false

theorem minutely_lawful : (minutely retry).Lawful := by
  refine fun expr tz => .inr ⟨{m | m % 60000 = 0}, fun t => ⟨_, rfl, ⟨?_, ?_⟩, ?_⟩⟩
  · show (t / 60000 + 1) * 60000 % 60000 = 0
    omega
  · show t < (t / 60000 + 1) * 60000
    omega
  · intro m hm
    have hslot : m % 60000 = 0 := hm.1
    have hafter : t < m := hm.2
    omega

def minutelyJob (consecutiveErrors : Option ℤ) : CronJob where
  id := "job"
  enabled := some true
  deleteAfterRun := none
  createdAtMs := some 0
  schedule := .cron "* * * * *".toList none none
  sessionTarget := "main"
  payloadKind := .systemEvent
  state := { consecutiveErrors := consecutiveErrors }

def minutelyFailure : CronRunResult := ⟨.error, none, 60500, 61000⟩

/-- With the default table. -/
theorem backoffKept_iff_default :
    BackoffKept (minutely none) (minutelyJob none) minutelyFailure false :=
  (backoffKept_iff (minutely_lawful none) false rfl rfl rfl (by decide) (by decide)).mpr
    fun hstale => absurd hstale.2.1 (by decide)

/-- A configured backoff of a second does not keep the hour after the fifth error. -/
theorem not_backoffKept_configured : ¬ ∀ (deps : CronDeps) (job : CronJob) (result : CronRunResult)
    (preserveSchedule : Bool), deps.Lawful → job.isEnabled = true → job.isAt = false →
    result.status = .error → 0 ≤ result.startedAt → result.startedAt ≤ result.endedAt →
    BackoffKept deps job result preserveSchedule := by
  intro hall
  let retry : Option CronRetryConfig := some { backoffMs := some [1000] }
  have hstale : FloorLooksStale (minutely retry) (minutelyJob (some 4)) minutelyFailure :=
    ⟨rfl, by decide +kernel, by decide +kernel, 61000, 120000, 180000, by decide,
      by decide +kernel, by decide +kernel, by decide⟩
  exact not_backoffKept_of_floorLooksStale (minutely_lawful retry) false rfl
    rfl rfl (by decide) (by decide) hstale
    (hall _ _ _ false (minutely_lawful retry) rfl rfl rfl (by decide) (by decide))

end OpenClaw
