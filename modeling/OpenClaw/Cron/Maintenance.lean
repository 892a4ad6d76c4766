import OpenClaw.Cron.Jobs

/-!
# Schedule maintenance settles

Both walks of `cron/service/jobs.ts`, with the change each reports. A next run is computed from
the schedule and the history of a job, not from the next run that stood there before, so a second
walk computes what the first one did. Only a job whose stuck marker the first walk clears may have
to wait for the second.
-/

namespace OpenClaw

open Option List

variable (deps : CronDeps)

/-! ## What is reported -/

variable (job : CronJob) (nowMs : ℤ)

/-- `changed` of `normalizeJobTickState`. -/
def normalizeJobTickChanged : Bool :=
  let anchorChanged : Bool := (normalizeAnchor job nowMs).schedule ≠ job.schedule
  if !job.isEnabled then
    anchorChanged || job.state.nextRunAtMs.isSome || job.state.runningAtMs.isSome
  else
    anchorChanged ||
      (!hasScheduledNextRunAtMs job.state.nextRunAtMs && job.state.nextRunAtMs.isSome) ||
      job.state.runningAtMs.any (stuckRunMs < nowMs - ·)

/-- `changed` of `recomputeJobNextRunAtMs`. -/
def recomputeJobNextRunChanged : Bool :=
  match computeJobNextRunAtMs deps job nowMs with
  | .error _ => true
  | .ok _ =>
    job.state.nextRunAtMs ≠ (recomputeJobNextRunAtMs deps job nowMs).state.nextRunAtMs ||
      job.state.scheduleErrorCount.any (· ≠ 0)

/-- The jobs whose next run `recomputeNextRuns` computes again. -/
def isDueMissingOrStale : Bool :=
  !hasScheduledNextRunAtMs job.state.nextRunAtMs || job.state.nextRunAtMs.any (· ≤ nowMs) ||
    shouldRepairFutureCronNextRunAtMs deps job nowMs

variable (opts : MaintenanceOptions)

/-- The jobs whose next run `recomputeNextRunsForMaintenance` computes again. -/
def needsMaintenance (job : CronJob) (nowMs : ℤ) : Bool :=
  !hasScheduledNextRunAtMs job.state.nextRunAtMs ||
    (opts.repairFutureCronNextRunAtMs && shouldRepairFutureCronNextRunAtMs deps job nowMs) ||
    (opts.recomputeExpired && job.state.nextRunAtMs.any (· ≤ nowMs) &&
      job.state.runningAtMs.isNone && alreadyExecutedSlot job)

/-- `walkSchedulableJobs` on one job reports a change. -/
def walkJobChanged (recomputes : CronJob → ℤ → Bool) (nowMs : ℤ) (job : CronJob) : Bool :=
  let tick := normalizeJobTickState job nowMs
  normalizeJobTickChanged job nowMs ||
    (!tick.2 && recomputes tick.1 nowMs && recomputeJobNextRunChanged deps tick.1 nowMs)

/-- The result of `recomputeNextRuns`. -/
def recomputeNextRunsChanged (jobs : List CronJob) : Bool :=
  jobs.any (walkJobChanged deps (isDueMissingOrStale deps) nowMs)

/-- The result of `recomputeNextRunsForMaintenance`. -/
def recomputeNextRunsForMaintenanceChanged (nowMs : ℤ) (jobs : List CronJob) : Bool :=
  jobs.any (walkJobChanged deps (needsMaintenance deps opts) nowMs)

variable {deps}

/-! ## A visit -/

/-- What a walk does with a job that it does not skip. -/
def visitJob (deps : CronDeps) (recomputes : CronJob → ℤ → Bool) (job : CronJob) (nowMs : ℤ) :
    CronJob :=
  if recomputes job nowMs then recomputeJobNextRunAtMs deps job nowMs else job

theorem recomputeIfDueOrMissing_eq :
    recomputeIfDueOrMissing deps = visitJob deps (isDueMissingOrStale deps) := rfl

theorem maintainJob_eq : maintainJob deps opts = visitJob deps (needsMaintenance deps opts) := by
  funext job now
  unfold maintainJob visitJob needsMaintenance
  by_cases hnext : hasScheduledNextRunAtMs job.state.nextRunAtMs = true
  · rw [hnext]
    by_cases hrepair : (opts.repairFutureCronNextRunAtMs &&
        shouldRepairFutureCronNextRunAtMs deps job now) = true
    · rw [hrepair]
      rfl
    · rw [Bool.eq_false_iff.mpr hrepair]
      rfl
  · rw [Bool.eq_false_iff.mpr hnext]
    rfl

/-! ## Computing a next run again -/

/-- A next run, not before the backoff of a failed job. -/
def flooredNextRun (deps : CronDeps) (job : CronJob) (newNext : Option ℤ) : Option ℤ :=
  match job.state.lastRunAtMs with
  | some lastRun =>
    if !job.isAt ∧ job.state.lastStatus = some .error then
      newNext.map fun next => max next
        (lastRun + errorBackoffMs (effectiveConsecutiveErrors job) (retryBackoffMs deps))
    else newNext
  | none => newNext

/-- The job with another next run and another count of schedule errors. -/
def CronJob.withSlot (nextRunAtMs scheduleErrorCount : Option ℤ) : CronJob :=
  { job with state := { job.state with
    nextRunAtMs := nextRunAtMs
    scheduleErrorCount := scheduleErrorCount } }

theorem CronJob.withSlot_self :
    job.withSlot job.state.nextRunAtMs job.state.scheduleErrorCount = job := rfl

theorem CronJob.setNextRun_eq_withSlot (next : Option ℤ) :
    job.setNextRun next = job.withSlot next job.state.scheduleErrorCount := rfl

/-- The computation reads neither the next run nor the count. -/
theorem recomputeJobNextRunAtMs_withSlot {job : CronJob} {now : ℤ} {r : Option ℤ}
    (h : computeJobNextRunAtMs deps job now = .ok r) (next errors : Option ℤ) :
    recomputeJobNextRunAtMs deps (job.withSlot next errors) now =
      job.withSlot (flooredNextRun deps job r) (errors.filter (· = 0)) := by
  have hcompute : computeJobNextRunAtMs deps (job.withSlot next errors) now = .ok r := h
  unfold recomputeJobNextRunAtMs
  rw [hcompute]
  rfl

variable (errors : Option ℤ)

theorem filter_zero_twice : (errors.filter (· = 0)).filter (· = 0) = errors.filter (· = 0) := by
  rw [Option.filter_filter]
  congr 1
  funext n
  exact Bool.and_self _

theorem filter_zero_any : (errors.filter (· = 0)).any (· ≠ 0) = false := by
  cases h : errors.filter (· = 0) with
  | none => rfl
  | some n =>
    have hzero : n = 0 := of_decide_eq_true (Option.filter_eq_some_iff.mp h).2
    rw [hzero]
    rfl

theorem recomputeJobNextRunChanged_withSlot {job : CronJob} {now : ℤ} {r : Option ℤ}
    (h : computeJobNextRunAtMs deps job now = .ok r) (errors : Option ℤ) :
    recomputeJobNextRunChanged deps
      (job.withSlot (flooredNextRun deps job r) (errors.filter (· = 0))) now = false := by
  have hcompute : computeJobNextRunAtMs deps
      (job.withSlot (flooredNextRun deps job r) (errors.filter (· = 0))) now = .ok r := h
  unfold recomputeJobNextRunChanged
  rw [hcompute, recomputeJobNextRunAtMs_withSlot h]
  show (decide (flooredNextRun deps job r ≠ flooredNextRun deps job r) ||
    (errors.filter (· = 0)).any (· ≠ 0)) = false
  rw [filter_zero_any, Bool.or_false]
  exact decide_eq_false fun hne => hne rfl

/-! ## A job that is ready -/

/-- Nothing is left to normalize in an enabled job, its next run apart. -/
structure IsNormalizedJob (job : CronJob) (now : ℤ) : Prop where
  enabled : job.isEnabled = true
  anchored : normalizeAnchor job now = job
  notStuck : job.state.runningAtMs.any (stuckRunMs < now - ·) = false

theorem normalizeAnchor_twice (now : ℤ) :
    normalizeAnchor (normalizeAnchor job now) now = normalizeAnchor job now := by
  cases hschedule : job.schedule with
  | every everyMs anchorMs =>
    simp only [normalizeAnchor, hschedule, resolveEveryAnchorMs, getD_some, ← max_assoc,
      max_self]
  | _ => simp only [normalizeAnchor, hschedule]

theorem IsNormalizedJob.normalize {job : CronJob} {now : ℤ} (h : IsNormalizedJob job now) :
    normalizeJobTickState job now =
      (if hasScheduledNextRunAtMs job.state.nextRunAtMs then job else job.setNextRun none,
        false) := by
  unfold normalizeJobTickState
  rw [h.anchored]
  dsimp only
  rw [h.enabled, if_neg (by simp)]
  have hnot := h.notStuck
  have hrunning : (job.setNextRun none).state.runningAtMs = job.state.runningAtMs := rfl
  by_cases hnext : hasScheduledNextRunAtMs job.state.nextRunAtMs = true
  all_goals
    simp only [hnext, if_true, if_false, Bool.false_eq_true, hrunning]
    cases hr : job.state.runningAtMs with
    | none => rfl
    | some runningAt =>
      rw [hr] at hnot
      exact if_neg (of_decide_eq_false hnot)

theorem IsNormalizedJob.normalizeChanged {job : CronJob} {now : ℤ} (h : IsNormalizedJob job now) :
    normalizeJobTickChanged job now =
      (!hasScheduledNextRunAtMs job.state.nextRunAtMs && job.state.nextRunAtMs.isSome) := by
  unfold normalizeJobTickChanged
  rw [h.anchored, h.enabled, h.notStuck]
  simp

theorem normalizeAnchor_withSlot {job : CronJob} {now : ℤ} (h : normalizeAnchor job now = job)
    (next errors : Option ℤ) :
    normalizeAnchor (job.withSlot next errors) now = job.withSlot next errors := by
  cases hschedule : job.schedule with
  | every everyMs anchorMs =>
    unfold normalizeAnchor at h
    rw [hschedule] at h
    have hsame := congrArg CronJob.schedule h
    unfold normalizeAnchor CronJob.withSlot
    rw [hschedule]
    dsimp only at hsame ⊢
    rw [hsame, hschedule]
  | _ =>
    unfold normalizeAnchor CronJob.withSlot
    rw [hschedule]

theorem IsNormalizedJob.withSlot {job : CronJob} {now : ℤ} (h : IsNormalizedJob job now) (next errors : Option ℤ) :
    IsNormalizedJob (job.withSlot next errors) now where
  enabled := h.enabled
  anchored := normalizeAnchor_withSlot h.anchored next errors
  notStuck := h.notStuck

/-! ## Two walks -/

section

variable {recomputes : CronJob → ℤ → Bool} {job : CronJob} {now : ℤ} {r : Option ℤ}

/-- What a walk makes of a job that is ready. -/
theorem walkJob_normalized (h : IsNormalizedJob job now) :
    walkJob (visitJob deps recomputes) now job =
      visitJob deps recomputes
        (if hasScheduledNextRunAtMs job.state.nextRunAtMs then job else job.setNextRun none)
        now := by
  unfold walkJob
  rw [h.normalize]

theorem walkJobChanged_normalized (h : IsNormalizedJob job now)
    (hnext : job.state.nextRunAtMs = none ∨
      hasScheduledNextRunAtMs job.state.nextRunAtMs = true) :
    walkJobChanged deps recomputes now job =
      (recomputes job now && recomputeJobNextRunChanged deps job now) := by
  unfold walkJobChanged
  rw [h.normalizeChanged, h.normalize]
  rcases hnext with hnone | hsome
  · have hsame : job.setNextRun none = job := by
      rw [job.setNextRun_eq_withSlot, ← hnone, job.withSlot_self]
    rw [hsame, hnone, ite_self]
    rfl
  · rw [hsome, if_pos rfl]
    rfl

/-- A walk leaves a job alone that has just been recomputed. -/
theorem walkJob_recomputed
    (hmissing : ∀ job now, hasScheduledNextRunAtMs job.state.nextRunAtMs = false →
      recomputes job now = true)
    (h : IsNormalizedJob job now) (hok : computeJobNextRunAtMs deps job now = .ok r)
    (errors : Option ℤ) : walkJob (visitJob deps recomputes) now
        (job.withSlot (flooredNextRun deps job r) (errors.filter (· = 0))) =
      job.withSlot (flooredNextRun deps job r) (errors.filter (· = 0)) := by
  rw [walkJob_normalized (h.withSlot _ _)]
  show visitJob deps recomputes (if hasScheduledNextRunAtMs (flooredNextRun deps job r) then _
    else _) now = _
  by_cases hnext : hasScheduledNextRunAtMs (flooredNextRun deps job r) = true
  · rw [if_pos hnext]
    unfold visitJob
    split
    · rw [recomputeJobNextRunAtMs_withSlot hok, filter_zero_twice]
    · rfl
  · -- a next run that is no time is dropped, and computed again
    rw [if_neg hnext]
    unfold visitJob
    rw [if_pos (hmissing _ now rfl)]
    show recomputeJobNextRunAtMs deps (job.withSlot none (errors.filter (· = 0))) now = _
    rw [recomputeJobNextRunAtMs_withSlot hok, filter_zero_twice]

theorem walkJobChanged_recomputed (h : IsNormalizedJob job now)
    (hok : computeJobNextRunAtMs deps job now = .ok r)
    (hepoch : ∀ next, flooredNextRun deps job r = some next → 0 < next) (errors : Option ℤ) :
    walkJobChanged deps recomputes now
      (job.withSlot (flooredNextRun deps job r) (errors.filter (· = 0))) = false := by
  have hready := h.withSlot (flooredNextRun deps job r) (errors.filter (· = 0))
  have hnext : flooredNextRun deps job r = none ∨
      hasScheduledNextRunAtMs (flooredNextRun deps job r) = true := by
    cases hfloored : flooredNextRun deps job r with
    | none => exact .inl rfl
    | some next => exact .inr (decide_eq_true (hepoch next hfloored))
  rw [walkJobChanged_normalized hready hnext, recomputeJobNextRunChanged_withSlot hok, Bool.and_false]

/-- A walk keeps what an earlier walk made of a job that was ready. -/
theorem walkJob_visited
    (hmissing : ∀ job now, hasScheduledNextRunAtMs job.state.nextRunAtMs = false →
      recomputes job now = true)
    (h : IsNormalizedJob job now) (hok : computeJobNextRunAtMs deps job now = .ok r) :
    let once := walkJob (visitJob deps recomputes) now job
    walkJob (visitJob deps recomputes) now once = once ∧
      ((∀ next, flooredNextRun deps job r = some next → 0 < next) →
        walkJobChanged deps recomputes now once = false) := by
  have hrecompute : ∀ next, recomputeJobNextRunAtMs deps
      (job.withSlot next job.state.scheduleErrorCount) now =
      job.withSlot (flooredNextRun deps job r) (job.state.scheduleErrorCount.filter (· = 0)) :=
    fun next => recomputeJobNextRunAtMs_withSlot hok next _
  have hdone := walkJob_recomputed hmissing h hok job.state.scheduleErrorCount
  have hquiet : (∀ next, flooredNextRun deps job r = some next → 0 < next) →
      walkJobChanged deps recomputes now (job.withSlot (flooredNextRun deps job r)
        (job.state.scheduleErrorCount.filter (· = 0))) = false :=
    fun hepoch => walkJobChanged_recomputed h hok hepoch job.state.scheduleErrorCount
  dsimp only
  rw [walkJob_normalized h]
  by_cases hnext : hasScheduledNextRunAtMs job.state.nextRunAtMs = true
  · rw [if_pos hnext]
    unfold visitJob
    by_cases hcond : recomputes job now = true
    · rw [if_pos hcond, ← job.withSlot_self, hrecompute, job.withSlot_self]
      exact ⟨hdone, hquiet⟩
    · rw [if_neg hcond]
      constructor
      · show walkJob (visitJob deps recomputes) now job = job
        rw [walkJob_normalized h, if_pos hnext]
        exact if_neg hcond
      · intro _
        rw [walkJobChanged_normalized h (.inr hnext), Bool.eq_false_iff.mpr hcond, Bool.false_and]
  · rw [if_neg hnext, job.setNextRun_eq_withSlot]
    unfold visitJob
    rw [if_pos (hmissing _ now rfl), hrecompute]
    exact ⟨hdone, hquiet⟩

/-! ## Any job -/

variable (job)

theorem computeJobNextRunAtMs_normalizeAnchor (now : ℤ) :
    computeJobNextRunAtMs deps (normalizeAnchor job now) now =
      computeJobNextRunAtMs deps job now := by
  cases hschedule : job.schedule with
  | every everyMs anchorMs =>
    simp only [computeJobNextRunAtMs, normalizeAnchor, hschedule, resolveEveryAnchorMs,
      getD_some, ← max_assoc, max_self, CronJob.isEnabled]
  | _ => simp only [normalizeAnchor, hschedule]

theorem flooredNextRun_normalizeAnchor (now : ℤ) (newNext : Option ℤ) :
    flooredNextRun deps (normalizeAnchor job now) newNext = flooredNextRun deps job newNext := by
  cases hschedule : job.schedule with
  | every everyMs anchorMs =>
    simp only [flooredNextRun, normalizeAnchor, hschedule, CronJob.isAt, effectiveConsecutiveErrors]
  | _ => simp only [normalizeAnchor, hschedule]

/-- The job without a next run that is no time. -/
def dropInvalidNextRun : CronJob :=
  if hasScheduledNextRunAtMs job.state.nextRunAtMs then job else job.setNextRun none

theorem dropInvalidNextRun_eq :
    ∃ next, dropInvalidNextRun job = job.withSlot next job.state.scheduleErrorCount ∧
      (next = none ∨ hasScheduledNextRunAtMs next = true) := by
  unfold dropInvalidNextRun
  split
  · next hnext => exact ⟨job.state.nextRunAtMs, rfl, .inr hnext⟩
  · exact ⟨none, rfl, .inl rfl⟩

/-- What a walk works on, when it does not skip the job. -/
def normalizedJob (now : ℤ) : CronJob :=
  if job.state.runningAtMs.any (stuckRunMs < now - ·) then
    (dropInvalidNextRun (normalizeAnchor job now)).setRunning none
  else dropInvalidNextRun (normalizeAnchor job now)

/-- The walk clears the marker of the job and leaves its slot alone, which is still to be run. -/
def IsStuckOnOpenSlot (now : ℤ) : Prop :=
  job.isEnabled = true ∧ job.state.runningAtMs.any (stuckRunMs < now - ·) = true ∧
    ¬ ∃ nextRun lastRun, job.state.nextRunAtMs = some nextRun ∧ 0 < nextRun ∧
      job.state.lastRunAtMs = some lastRun ∧ nextRun ≤ lastRun

variable {job}

theorem normalizeAnchor_setRunning (h : normalizeAnchor job now = job) (runningAtMs : Option ℤ) :
    normalizeAnchor (job.setRunning runningAtMs) now = job.setRunning runningAtMs := by
  cases hschedule : job.schedule with
  | every everyMs anchorMs =>
    have hsame := congrArg CronJob.schedule h
    simp only [normalizeAnchor, hschedule] at hsame
    simp only [normalizeAnchor, CronJob.setRunning, hschedule, hsame]
  | _ => simp only [normalizeAnchor, CronJob.setRunning, hschedule]

theorem isNormalizedJob_normalizedJob (henabled : job.isEnabled = true) (now : ℤ) :
    IsNormalizedJob (normalizedJob job now) now ∧
      ((normalizedJob job now).state.nextRunAtMs = none ∨
        hasScheduledNextRunAtMs (normalizedJob job now).state.nextRunAtMs = true) := by
  have henabled' : (normalizeAnchor job now).isEnabled = true := by
    rw [normalizeAnchor_isEnabled]
    exact henabled
  obtain ⟨next, heq, hnext⟩ := dropInvalidNextRun_eq (normalizeAnchor job now)
  have hkeep := normalizeAnchor_withSlot (normalizeAnchor_twice job now) next
    (normalizeAnchor job now).state.scheduleErrorCount
  unfold normalizedJob
  rw [heq]
  split
  · exact ⟨⟨henabled', normalizeAnchor_setRunning hkeep none, rfl⟩, hnext⟩
  · next hnot =>
    refine ⟨⟨henabled', hkeep, ?_⟩, hnext⟩
    show (normalizeAnchor job now).state.runningAtMs.any _ = false
    rw [normalizeAnchor_state]
    exact Bool.eq_false_iff.mpr hnot

/-- The slot that the walk looks at is the one that is a time. -/
theorem alreadyExecutedSlot_dropInvalidNextRun (job : CronJob) (now : ℤ) :
    alreadyExecutedSlot (dropInvalidNextRun (normalizeAnchor job now)) = true ↔
      ∃ nextRun lastRun, job.state.nextRunAtMs = some nextRun ∧ 0 < nextRun ∧
        job.state.lastRunAtMs = some lastRun ∧ nextRun ≤ lastRun := by
  have hstate := normalizeAnchor_state job now
  unfold alreadyExecutedSlot dropInvalidNextRun
  cases hnext : job.state.nextRunAtMs with
  | none => simp [hasScheduledNextRunAtMs, CronJob.setNextRun, hnext]
  | some nextRun =>
    by_cases hpos : 0 < nextRun
    · cases hlast : job.state.lastRunAtMs with
      | none => simp [hasScheduledNextRunAtMs, hpos, hnext, hlast]
      | some lastRun => simp [hasScheduledNextRunAtMs, hpos, hnext, hlast]
    · simp [hasScheduledNextRunAtMs, hpos, hnext, CronJob.setNextRun]

theorem normalizeJobTickState_enabled (henabled : job.isEnabled = true) (now : ℤ) :
    (normalizeJobTickState job now).1 = normalizedJob job now ∧
      ((normalizeJobTickState job now).2 = true ↔ IsStuckOnOpenSlot job now) := by
  have hslot := alreadyExecutedSlot_dropInvalidNextRun job now
  have hrunning : (dropInvalidNextRun (normalizeAnchor job now)).state.runningAtMs =
      job.state.runningAtMs := by
    obtain ⟨next, heq, -⟩ := dropInvalidNextRun_eq (normalizeAnchor job now)
    rw [heq]
    show (normalizeAnchor job now).state.runningAtMs = _
    rw [normalizeAnchor_state]
  have htick : normalizeJobTickState job now =
      job.state.runningAtMs.elim (dropInvalidNextRun (normalizeAnchor job now), false)
        fun runningAt =>
          if stuckRunMs < now - runningAt then
            ((dropInvalidNextRun (normalizeAnchor job now)).setRunning none,
              !alreadyExecutedSlot (dropInvalidNextRun (normalizeAnchor job now)))
          else (dropInvalidNextRun (normalizeAnchor job now), false) := by
    unfold normalizeJobTickState
    dsimp only
    rw [normalizeAnchor_isEnabled, henabled, if_neg (by simp), ← hrunning]
    cases hr : (dropInvalidNextRun (normalizeAnchor job now)).state.runningAtMs <;>
    · unfold dropInvalidNextRun at hr ⊢
      rw [hr]
      rfl
  unfold normalizedJob IsStuckOnOpenSlot
  rw [htick]
  cases job.state.runningAtMs with
  | none =>
    refine ⟨rfl, ?_⟩
    simp
  | some runningAt =>
    by_cases hstuck : stuckRunMs < now - runningAt
    · simp only [hstuck, if_true, any_some, decide_true, true_and, Option.elim_some]
      rw [← hslot, Bool.not_eq_true, Bool.not_eq_true']
      exact ⟨fun h => ⟨henabled, h⟩, fun h => h.2⟩
    · simp [hstuck]

theorem walkJob_enabled_cases (henabled : job.isEnabled = true) (now : ℤ) :
    (IsStuckOnOpenSlot job now ∧
        walkJob (visitJob deps recomputes) now job = normalizedJob job now) ∨
      (¬ IsStuckOnOpenSlot job now ∧ walkJob (visitJob deps recomputes) now job =
        walkJob (visitJob deps recomputes) now (normalizedJob job now)) := by
  obtain ⟨hfst, hsnd⟩ := normalizeJobTickState_enabled henabled now
  obtain ⟨hnormalized, hnext⟩ := isNormalizedJob_normalizedJob henabled now
  have hwalk : walkJob (visitJob deps recomputes) now job =
      if (normalizeJobTickState job now).2 then normalizedJob job now
      else visitJob deps recomputes (normalizedJob job now) now := by
    unfold walkJob
    rw [← hfst]
    rcases normalizeJobTickState job now with ⟨tick, skip⟩
    cases skip <;> rfl
  have hvisit : walkJob (visitJob deps recomputes) now (normalizedJob job now) =
      visitJob deps recomputes (normalizedJob job now) now := by
    rw [walkJob_normalized hnormalized]
    rcases hnext with hnone | hsome
    · have hsame : (normalizedJob job now).setNextRun none = normalizedJob job now := by
        rw [CronJob.setNextRun_eq_withSlot]
        conv_rhs => rw [← CronJob.withSlot_self (normalizedJob job now), hnone]
      rw [hsame, ite_self]
    · rw [if_pos hsome]
  rw [hwalk, hvisit]
  by_cases hskip : (normalizeJobTickState job now).2 = true
  · rw [if_pos hskip]
    exact .inl ⟨hsnd.mp hskip, rfl⟩
  · rw [if_neg hskip]
    exact .inr ⟨fun h => hskip (hsnd.mpr h), rfl⟩

/-- The job's next run, if there is one, is a time. -/
def RunsAfterEpoch (deps : CronDeps) (job : CronJob) (now : ℤ) : Prop :=
  ∀ next, (recomputeJobNextRunAtMs deps job now).state.nextRunAtMs = some next → 0 < next

/-- What three walks make of a job. -/
theorem walkJob_settles
    (hmissing : ∀ job now, hasScheduledNextRunAtMs job.state.nextRunAtMs = false →
      recomputes job now = true)
    (hok : computeJobNextRunAtMs deps job now = .ok r) :
    let once := walkJob (visitJob deps recomputes) now job
    let twice := walkJob (visitJob deps recomputes) now once
    walkJob (visitJob deps recomputes) now twice = twice ∧
      (¬ IsStuckOnOpenSlot job now → twice = once) ∧
      (RunsAfterEpoch deps job now → walkJobChanged deps recomputes now twice = false) := by
  by_cases henabled : job.isEnabled = true
  · obtain ⟨hnormalized, -⟩ := isNormalizedJob_normalizedJob henabled now
    have hcompute : computeJobNextRunAtMs deps (normalizedJob job now) now = .ok r := by
      rw [← hok, ← computeJobNextRunAtMs_normalizeAnchor job now]
      unfold normalizedJob
      obtain ⟨next, heq, -⟩ := dropInvalidNextRun_eq (normalizeAnchor job now)
      rw [heq]
      split <;> rfl
    have hfloored : flooredNextRun deps (normalizedJob job now) r = flooredNextRun deps job r := by
      rw [← flooredNextRun_normalizeAnchor job now]
      unfold normalizedJob
      obtain ⟨next, heq, -⟩ := dropInvalidNextRun_eq (normalizeAnchor job now)
      rw [heq]
      split <;> rfl
    have hepoch : RunsAfterEpoch deps job now →
        ∀ next, flooredNextRun deps (normalizedJob job now) r = some next → 0 < next := by
      intro h next hsome
      refine h next ?_
      rw [← job.withSlot_self, recomputeJobNextRunAtMs_withSlot hok, ← hfloored]
      exact hsome
    obtain ⟨hagain, hquiet⟩ := walkJob_visited hmissing hnormalized hcompute
    have hcases := @walkJob_enabled_cases deps recomputes job henabled now
    rcases hcases with ⟨hstuck, hwalk⟩ | ⟨-, hwalk⟩
    · -- the first walk leaves a job that is ready for the second
      dsimp only
      rw [hwalk]
      exact ⟨hagain, fun hnot => absurd hstuck hnot, fun h => hquiet (hepoch h)⟩
    · dsimp only
      rw [hwalk, hagain]
      exact ⟨hagain, fun _ => rfl, fun h => hquiet (hepoch h)⟩
  · have hdisabled : job.isEnabled = false := Bool.eq_false_iff.mpr henabled
    have hwalk : ∀ j : CronJob, j.isEnabled = false →
        walkJob (visitJob deps recomputes) now j =
          ((normalizeAnchor j now).setNextRun none).setRunning none := by
      intro j hj
      unfold walkJob normalizeJobTickState
      dsimp only
      rw [normalizeAnchor_isEnabled, hj]
      rfl
    have hcleared : normalizeAnchor ((normalizeAnchor job now).setNextRun none) now =
        (normalizeAnchor job now).setNextRun none :=
      normalizeAnchor_withSlot (normalizeAnchor_twice job now) none _
    have hkeep := normalizeAnchor_setRunning hcleared none
    have henabled' : (((normalizeAnchor job now).setNextRun none).setRunning none).isEnabled =
        false := by
      show (normalizeAnchor job now).isEnabled = false
      rw [normalizeAnchor_isEnabled]
      exact hdisabled
    have honce : walkJob (visitJob deps recomputes) now
        (((normalizeAnchor job now).setNextRun none).setRunning none) =
        ((normalizeAnchor job now).setNextRun none).setRunning none := by
      rw [hwalk _ henabled', hkeep]
      rfl
    dsimp only
    rw [hwalk job hdisabled, honce, honce]
    refine ⟨rfl, fun _ => rfl, fun _ => ?_⟩
    unfold walkJobChanged normalizeJobTickChanged normalizeJobTickState
    dsimp only
    rw [normalizeAnchor_isEnabled, henabled', hkeep]
    simp [CronJob.setRunning, CronJob.setNextRun]

end

/-! ## A store -/

theorem walkSchedulableJobs_settles {recomputes : CronJob → ℤ → Bool} {now : ℤ}
    {jobs : List CronJob}
    (hmissing : ∀ job now, hasScheduledNextRunAtMs job.state.nextRunAtMs = false →
      recomputes job now = true)
    (hok : ∀ job ∈ jobs, ∃ r, computeJobNextRunAtMs deps job now = .ok r) :
    let once := walkSchedulableJobs (visitJob deps recomputes) now jobs
    let twice := walkSchedulableJobs (visitJob deps recomputes) now once
    ((∀ job ∈ jobs, ¬ IsStuckOnOpenSlot job now) → twice = once ∧
      ((∀ job ∈ jobs, RunsAfterEpoch deps job now) →
        once.any (walkJobChanged deps recomputes now) = false)) ∧
      walkSchedulableJobs (visitJob deps recomputes) now twice = twice ∧
      ((∀ job ∈ jobs, RunsAfterEpoch deps job now) →
        twice.any (walkJobChanged deps recomputes now) = false) := by
  have hthree : ∀ job ∈ jobs, _ := fun job hjob =>
    (hok job hjob).elim fun r hr => walkJob_settles hmissing hr
  have htwice : walkSchedulableJobs (visitJob deps recomputes) now
      (walkSchedulableJobs (visitJob deps recomputes) now jobs) =
      jobs.map (walkJob (visitJob deps recomputes) now ∘ walkJob (visitJob deps recomputes) now) := by
    unfold walkSchedulableJobs
    rw [List.map_map]
  have hquiet : (∀ job ∈ jobs, RunsAfterEpoch deps job now) →
      (walkSchedulableJobs (visitJob deps recomputes) now
        (walkSchedulableJobs (visitJob deps recomputes) now jobs)).any
          (walkJobChanged deps recomputes now) = false := by
    intro hepoch
    rw [htwice, List.any_eq_false]
    intro last hlast
    obtain ⟨job, hjob, rfl⟩ := mem_map.mp hlast
    rw [Bool.not_eq_true]
    exact (hthree job hjob).2.2 (hepoch job hjob)
  dsimp only
  refine ⟨fun hopen => ?_, ?_, hquiet⟩
  · have hsame : walkSchedulableJobs (visitJob deps recomputes) now
        (walkSchedulableJobs (visitJob deps recomputes) now jobs) =
        walkSchedulableJobs (visitJob deps recomputes) now jobs := by
      rw [htwice]
      apply map_congr_left
      intro job hjob
      exact (hthree job hjob).2.1 (hopen job hjob)
    rw [hsame] at hquiet
    exact ⟨hsame, hquiet⟩
  · rw [htwice]
    unfold walkSchedulableJobs
    rw [List.map_map]
    apply map_congr_left
    intro job hjob
    exact (hthree job hjob).1

/-- Walks at one time settle after the second of them, and after the first where no stuck marker
hides a slot that is still to be run. Nothing is reported from then on, unless a schedule gives
a next run that is no time. -/
theorem recomputeNextRuns_settle {now : ℤ} {jobs : List CronJob} (opts : MaintenanceOptions)
    (hok : ∀ job ∈ jobs, ∃ r, computeJobNextRunAtMs deps job now = .ok r) :
    (let once := recomputeNextRunsForMaintenance deps opts now jobs
      let twice := recomputeNextRunsForMaintenance deps opts now once
      ((∀ job ∈ jobs, ¬ IsStuckOnOpenSlot job now) → twice = once ∧
        ((∀ job ∈ jobs, RunsAfterEpoch deps job now) →
          recomputeNextRunsForMaintenanceChanged deps opts now once = false)) ∧
        recomputeNextRunsForMaintenance deps opts now twice = twice ∧
        ((∀ job ∈ jobs, RunsAfterEpoch deps job now) →
          recomputeNextRunsForMaintenanceChanged deps opts now twice = false)) ∧
    (let once := recomputeNextRuns deps now jobs
      let twice := recomputeNextRuns deps now once
      ((∀ job ∈ jobs, ¬ IsStuckOnOpenSlot job now) → twice = once ∧
        ((∀ job ∈ jobs, RunsAfterEpoch deps job now) →
          recomputeNextRunsChanged deps now once = false)) ∧
        recomputeNextRuns deps now twice = twice ∧
        ((∀ job ∈ jobs, RunsAfterEpoch deps job now) →
          recomputeNextRunsChanged deps now twice = false)) := by
  constructor
  · have hmissing : ∀ job now, hasScheduledNextRunAtMs job.state.nextRunAtMs = false →
        needsMaintenance deps opts job now = true := by
      intro job now hnext
      unfold needsMaintenance
      rw [hnext]
      rfl
    unfold recomputeNextRunsForMaintenance recomputeNextRunsForMaintenanceChanged
    rw [maintainJob_eq]
    exact walkSchedulableJobs_settles hmissing hok
  · have hmissing : ∀ job now, hasScheduledNextRunAtMs job.state.nextRunAtMs = false →
        isDueMissingOrStale deps job now = true := by
      intro job now hnext
      unfold isDueMissingOrStale
      rw [hnext]
      rfl
    unfold recomputeNextRuns recomputeNextRunsChanged
    rw [recomputeIfDueOrMissing_eq]
    exact walkSchedulableJobs_settles hmissing hok

/-! ## A job of every minute, and one of the past -/

/-- An evaluator of no expressions, and a parser of one date. -/
def lastSecondDeps : CronDeps where
  localTimezone := "UTC".toList
  nextRun := fun _ _ _ => .ok none
  previousRun := fun _ _ _ => .ok none
  parseDate := fun text => if text = "1969-12-31T23:59:59Z".toList then some (-1000) else none
  isoString := fun _ => []
  digestHead := fun _ => 0
  retry := none
  isTransientCronError := fun _ _ => false

def storedJob (schedule : CronSchedule) (runningAtMs : Option ℤ) : CronJob where
  id := "job".toList
  enabled := some true
  deleteAfterRun := none
  createdAtMs := some 0
  schedule := schedule
  sessionTarget := "main".toList
  payloadKind := .systemEvent
  state := { runningAtMs := runningAtMs }

theorem recomputeNextRuns_settle_everyMinute : let jobs := [storedJob (.every 60000 (some 0)) none]
    let once := recomputeNextRunsForMaintenance lastSecondDeps {} 7200001 jobs
    recomputeNextRunsForMaintenance lastSecondDeps {} 7200001 once = once := by
  have hok : ∀ job ∈ [storedJob (.every 60000 (some 0)) none],
      ∃ r, computeJobNextRunAtMs lastSecondDeps job 7200001 = .ok r := by
    intro job hjob
    rw [mem_singleton.mp hjob]
    exact ⟨_, rfl⟩
  refine ((recomputeNextRuns_settle {} hok).1.1 ?_).1
  intro job hjob hstuck
  rw [mem_singleton.mp hjob] at hstuck
  exact Bool.false_ne_true hstuck.2.1

/-- The walk that clears a stuck marker leaves the missing next run to the walk after it, and a
next run before the epoch is dropped and computed in every walk. -/
theorem not_recomputeNextRuns_settle : (let jobs := [storedJob (.every 60000 (some 0)) (some 0)]
      let once := recomputeNextRunsForMaintenance lastSecondDeps {} 7200001 jobs
      recomputeNextRunsForMaintenance lastSecondDeps {} 7200001 once ≠ once ∧
        recomputeNextRunsForMaintenanceChanged lastSecondDeps {} 7200001 once = true) ∧
    (let jobs := [storedJob (.at "1969-12-31T23:59:59Z".toList) none]
      let once := recomputeNextRunsForMaintenance lastSecondDeps {} 7200001 jobs
      recomputeNextRunsForMaintenance lastSecondDeps {} 7200001 once = once ∧
        recomputeNextRunsForMaintenanceChanged lastSecondDeps {} 7200001 once = true) := by
  decide +kernel

end OpenClaw
