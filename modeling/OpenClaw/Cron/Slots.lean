import OpenClaw.Cron.Frame
import Mathlib.Tactic.Ring
import Mathlib.Tactic.Linarith

/-!
# No slot is skipped

A slot that is due and has not been executed stays due, whatever the service does to other
jobs. The full recomputation does not respect this, so the property depends on which of the
two walks an operation takes.
-/

namespace OpenClaw

open Option Bool

variable {deps : CronDeps}

/-! ## Pending slots -/

/-- The job is to run at the slot and has not. -/
structure SlotPending (job : CronJob) (slot : ℤ) : Prop where
  enabled : job.isEnabled = true
  notRunning : job.state.runningAtMs = none
  next : job.state.nextRunAtMs = some slot
  notExecuted : ∀ lastRun, job.state.lastRunAtMs = some lastRun → lastRun < slot

variable (job : CronJob) (now : ℤ)

/-- The schedule of the job gives the slot, which is not in the future, as the next run: it
is the time of a one-shot job, or an interval is computed at the very moment it ends. -/
def SlotIsComputed (deps : CronDeps) (job : CronJob) (slot now : ℤ) : Prop :=
  match job.schedule with
  | .at time => parseAbsoluteTimeMs deps.toCronHost time = some slot
  | .every everyMs anchorMs =>
    let anchor := resolveEveryAnchorMs anchorMs (job.createdAtMs.getD now)
    slot = now ∧ anchor < now ∧ (now - anchor) % max 1 everyMs = 0 ∧
      ∀ lastRun, job.state.lastRunAtMs = some lastRun → lastRun + max 1 everyMs ≤ now ∧
        (job.state.lastStatus = some .error → lastRun +
          errorBackoffMs (effectiveConsecutiveErrors job) (retryBackoffMs deps) ≤ now)
  | .cron .. => False

/-! ## Next runs are in the future -/

variable {next everyMs : ℤ} {job' : CronJob} {fn : CronJob → ℤ → CronJob}
  {opts : MaintenanceOptions}

theorem lt_of_cronNextRunAtMs {host : CronHost} {expr tz : Str} {now : ℤ}
    (h : cronNextRunAtMs host expr tz now = .ok (some next)) : now < next := by
  have hfilter (r : Option ℤ) (heq : r.filter (now < ·) = some next) : now < next := by
    have := Option.filter_eq_some_iff.mp heq
    simpa using this.2
  simp only [cronNextRunAtMs, bind, Except.bind] at h
  split at h
  · exact nomatch h
  split at h
  · exact absurd h (by simp [pure, Except.pure])
  split at h
  · rename_i hlt
    obtain rfl : _ = next := by simpa [pure, Except.pure] using h
    exact hlt
  split at h
  · exact nomatch h
  split at h
  · split at h
    · rename_i hlt
      obtain rfl : _ = next := by simpa [pure, Except.pure] using h
      exact hlt
    split at h
    · exact nomatch h
    · exact hfilter _ (Except.ok.inj h)
  · split at h
    · exact nomatch h
    · exact hfilter _ (Except.ok.inj h)

theorem lt_of_staggeredNextLoop {next : ℤ → Except Str (Option ℤ)} {offsetMs now slot : ℤ}
    {attempts : ℕ} {cursorMs : ℤ}
    (h : staggeredNextLoop next offsetMs now attempts cursorMs = .ok (some slot)) : now < slot := by
  induction attempts generalizing cursorMs with
  | zero => exact absurd h (by simp [staggeredNextLoop])
  | succ attempts ih =>
    simp only [staggeredNextLoop, bind, Except.bind] at h
    split at h
    · exact nomatch h
    split at h
    · exact absurd h (by simp [pure, Except.pure])
    split at h
    · rename_i hlt
      obtain rfl : _ = slot := by simpa [pure, Except.pure] using h
      exact hlt
    · exact ih h

theorem lt_of_computeStaggeredCronNextRunAtMs {host : CronHost} {job : CronJob} {now : ℤ}
    (hcron : job.isCron = true)
    (h : computeStaggeredCronNextRunAtMs host job.id job.schedule now = .ok (some next)) :
    now < next := by
  unfold computeStaggeredCronNextRunAtMs at h
  dsimp only at h
  split at h
  · cases hschedule : job.schedule with
    | cron expr tz staggerMs =>
      rw [hschedule] at h
      simp only [computeNextRunAtMs] at h
      split at h
      · exact nomatch h
      · exact lt_of_cronNextRunAtMs h
    | _ => simp [CronJob.isCron, hschedule] at hcron
  · exact lt_of_staggeredNextLoop h

theorem lt_of_computeJobNextRunAtMs {job : CronJob} {now : ℤ} (henabled : job.isEnabled = true)
    (hcron : job.isCron = true) (h : computeJobNextRunAtMs deps job now = .ok (some next)) :
    now < next := by
  cases hschedule : job.schedule with
  | cron expr tz staggerMs =>
    simp only [computeJobNextRunAtMs, henabled, hschedule, bind, Except.bind, Bool.not_true,
      false_eq_true, if_false] at h
    rw [← hschedule] at h
    split at h
    · exact nomatch h
    rename_i r hr
    split at h
    · obtain rfl : r = some next := by simpa [pure, Except.pure] using h
      exact lt_of_computeStaggeredCronNextRunAtMs hcron hr
    · have := lt_of_computeStaggeredCronNextRunAtMs hcron h
      omega
  | _ => simp [CronJob.isCron, hschedule] at hcron

/-- An interval's next run is in the future, or it is now. -/
theorem everyNextRunAtMs_cases {anchorMs : ℤ} (now : ℤ) (hevery : 1 ≤ everyMs)
    (hanchor : 0 ≤ anchorMs) : now < everyNextRunAtMs everyMs (some anchorMs) now ∨
      (everyNextRunAtMs everyMs (some anchorMs) now = now ∧ anchorMs < now ∧
        (now - anchorMs) % everyMs = 0) := by
  have hmax : max 1 everyMs = everyMs := max_eq_right hevery
  have hmax' : max 0 ((some anchorMs).getD now) = anchorMs := max_eq_right hanchor
  unfold everyNextRunAtMs
  rw [hmax, hmax']
  dsimp only
  split
  · rename_i hlt
    exact .inl hlt
  rename_i hge
  have hr := Int.emod_nonneg (now - anchorMs + everyMs - 1) (show everyMs ≠ 0 by omega)
  have hr' := Int.emod_lt_of_pos (now - anchorMs + everyMs - 1) (show 0 < everyMs by omega)
  have hdiv := Int.ediv_mul_add_emod (now - anchorMs + everyMs - 1) everyMs
  set q := (now - anchorMs + everyMs - 1) / everyMs
  by_cases hq : 1 ≤ q
  · rw [max_eq_right hq]
    by_cases heq : q * everyMs = now - anchorMs
    · refine .inr ⟨by omega, ?_, ?_⟩
      · have : 1 * 1 ≤ q * everyMs := Int.mul_le_mul hq hevery (by omega) (by omega)
        omega
      · rw [← heq]
        exact Int.mul_emod_left ..
    · exact .inl (by omega)
  · rw [max_eq_left (by omega)]
    have hqe : q * everyMs ≤ 0 := by
      have : q ≤ 0 := by omega
      nlinarith
    exact .inl (by omega)

theorem everyNextRunAtMs_eq_now {anchorMs now : ℤ} (hevery : 1 ≤ everyMs)
    (hanchor : 0 ≤ anchorMs) (hlt : anchorMs < now) (hgrid : (now - anchorMs) % everyMs = 0) :
    everyNextRunAtMs everyMs (some anchorMs) now = now := by
  rcases everyNextRunAtMs_cases now hevery hanchor with hfuture | hnow
  swap
  · exact hnow.1
  -- the interval that ends now is counted once
  obtain ⟨k, hk⟩ := Int.dvd_of_emod_eq_zero hgrid
  have hcount : (now - anchorMs + everyMs - 1) / everyMs = k := by
    rw [show now - anchorMs + everyMs - 1 = everyMs - 1 + everyMs * k by omega,
      Int.add_mul_ediv_left _ _ (by omega), Int.ediv_eq_zero_of_lt (by omega) (by omega)]
    omega
  have hpos : 1 ≤ k := by
    by_contra hk0
    have : everyMs * k ≤ 0 := by nlinarith
    omega
  have hvalue : everyNextRunAtMs everyMs (some anchorMs) now = anchorMs + k * everyMs := by
    unfold everyNextRunAtMs
    rw [max_eq_right hevery, show max 0 ((some anchorMs).getD now) = anchorMs from
      max_eq_right hanchor]
    dsimp only
    rw [if_neg (by omega), hcount, max_eq_right hpos]
  rw [hvalue, mul_comm]
  omega

/-! ## Recomputing a slot -/

/-- The error floor that a recomputation adds. -/
theorem nextRunAtMs_recomputeJobNextRunAtMs_eq {job : CronJob} {now : ℤ} {r : Option ℤ}
    (h : computeJobNextRunAtMs deps job now = .ok r) :
    (recomputeJobNextRunAtMs deps job now).state.nextRunAtMs =
      match job.state.lastRunAtMs with
      | some lastRun =>
        if !job.isAt ∧ job.state.lastStatus = some .error then
          r.map fun next => max next
            (lastRun + errorBackoffMs (effectiveConsecutiveErrors job) (retryBackoffMs deps))
        else r
      | none => r := by
  unfold recomputeJobNextRunAtMs
  cases job.state.lastRunAtMs <;> simp only [h]

theorem computeJobNextRunAtMs_every {job : CronJob} {anchorMs : Option ℤ} {now : ℤ}
    (henabled : job.isEnabled = true) (hschedule : job.schedule = .every everyMs anchorMs) :
    computeJobNextRunAtMs deps job now = .ok (some
      (match job.state.lastRunAtMs with
      | some lastRun =>
        if now < lastRun + max 1 everyMs then lastRun + max 1 everyMs
        else everyNextRunAtMs (max 1 everyMs)
          (some (resolveEveryAnchorMs anchorMs (job.createdAtMs.getD now))) now
      | none => everyNextRunAtMs (max 1 everyMs)
          (some (resolveEveryAnchorMs anchorMs (job.createdAtMs.getD now))) now)) := by
  cases hlast : job.state.lastRunAtMs with
  | none =>
    simp only [computeJobNextRunAtMs, henabled, hschedule, hlast, computeNextRunAtMs, Bool.not_true,
      false_eq_true, if_false]
  | some lastRun =>
    simp only [computeJobNextRunAtMs, henabled, hschedule, hlast, computeNextRunAtMs, Bool.not_true,
      false_eq_true, if_false]
    split <;> rfl

/-- A recomputation at the slot or later gives the slot only where the schedule does. -/
theorem slotIsComputed_of_recompute {job : CronJob} {slot now : ℤ} (henabled : job.isEnabled = true)
    (hdue : slot ≤ now) (h : (recomputeJobNextRunAtMs deps job now).state.nextRunAtMs = some slot) :
    SlotIsComputed deps job slot now := by
  cases hcompute : computeJobNextRunAtMs deps job now with
  | error err =>
    simp only [recomputeJobNextRunAtMs, hcompute] at h
    exact absurd h (by simp [recordScheduleComputeError])
  | ok r =>
    rw [nextRunAtMs_recomputeJobNextRunAtMs_eq hcompute] at h
    cases hschedule : job.schedule with
    | «at» time =>
      have hat : job.isAt = true := by simp [CronJob.isAt, hschedule]
      have hr : r = some slot := by
        split at h
        · rwa [if_neg (by simp [hat])] at h
        · exact h
      simp only [SlotIsComputed, hschedule]
      subst hr
      simp only [computeJobNextRunAtMs, henabled, hschedule, Bool.not_true, false_eq_true,
        if_false] at hcompute
      split at hcompute
      · split at hcompute
        · exact (Option.filter_eq_some_iff.mp (Except.ok.inj hcompute)).1
        · exact Except.ok.inj hcompute
      · exact Except.ok.inj hcompute
    | cron expr tz staggerMs =>
      have hcron : job.isCron = true := by simp [CronJob.isCron, hschedule]
      -- the next slot of an expression is in the future
      have hr : ∃ next, r = some next ∧ next ≤ slot := by
        split at h
        · split at h
          · obtain ⟨next, hnext, hmax⟩ := Option.map_eq_some_iff.mp h
            exact ⟨next, hnext, hmax ▸ le_max_left _ _⟩
          · exact ⟨slot, h, le_rfl⟩
        · exact ⟨slot, h, le_rfl⟩
      obtain ⟨next, rfl, hle⟩ := hr
      have := lt_of_computeJobNextRunAtMs henabled hcron hcompute
      omega
    | every everyMs anchorMs =>
      have hat : job.isAt = false := by simp [CronJob.isAt, hschedule]
      rw [computeJobNextRunAtMs_every henabled hschedule] at hcompute
      have hr := Except.ok.inj hcompute
      subst hr
      have hcases := everyNextRunAtMs_cases now (le_max_left 1 everyMs)
        (le_max_left 0 (anchorMs.getD (job.createdAtMs.getD now)))
      change now < everyNextRunAtMs (max 1 everyMs)
          (some (resolveEveryAnchorMs anchorMs (job.createdAtMs.getD now))) now ∨
        everyNextRunAtMs (max 1 everyMs)
          (some (resolveEveryAnchorMs anchorMs (job.createdAtMs.getD now))) now = now ∧
        resolveEveryAnchorMs anchorMs (job.createdAtMs.getD now) < now ∧
        (now - resolveEveryAnchorMs anchorMs (job.createdAtMs.getD now)) % max 1 everyMs = 0 at hcases
      simp only [SlotIsComputed, hschedule]
      cases hlast : job.state.lastRunAtMs with
      | none =>
        simp only [hlast] at h
        have := some.inj h
        exact ⟨by omega, by omega, by omega, fun lastRun heq => absurd heq (by simp)⟩
      | some lastRun =>
        simp only [hlast] at h
        have hpast : ¬ now < lastRun + max 1 everyMs := by
          intro hfuture
          rw [if_pos hfuture] at h
          split at h
          · have : max (lastRun + max 1 everyMs) _ = slot := some.inj h
            have := le_max_left (lastRun + max 1 everyMs) (lastRun +
              errorBackoffMs (effectiveConsecutiveErrors job) (retryBackoffMs deps))
            omega
          · have := some.inj h
            omega
        rw [if_neg hpast] at h
        split at h
        · have hslot : max (everyNextRunAtMs (max 1 everyMs)
              (some (resolveEveryAnchorMs anchorMs (job.createdAtMs.getD now))) now) (lastRun +
                errorBackoffMs (effectiveConsecutiveErrors job) (retryBackoffMs deps)) = slot :=
            some.inj h
          refine ⟨by omega, by omega, by omega, fun lastRun' heq => ?_⟩
          obtain rfl := some.inj heq
          exact ⟨by omega, fun _ => by omega⟩
        · rename_i hstatus
          have hslot := some.inj h
          refine ⟨by omega, by omega, by omega, fun lastRun' heq => ?_⟩
          obtain rfl := some.inj heq
          exact ⟨by omega, fun herror => absurd ⟨by simp [hat], herror⟩ hstatus⟩

/-- Where the schedule gives the slot, so does a recomputation. -/
theorem recompute_of_slotIsComputed {job : CronJob} {slot now : ℤ} (henabled : job.isEnabled = true)
    (hlastRun : ∀ lastRun, job.state.lastRunAtMs = some lastRun → lastRun < slot)
    (hcomputed : SlotIsComputed deps job slot now) :
    (recomputeJobNextRunAtMs deps job now).state.nextRunAtMs = some slot := by
  cases hschedule : job.schedule with
  | cron expr tz staggerMs => simp [SlotIsComputed, hschedule] at hcomputed
  | «at» time =>
    simp only [SlotIsComputed, hschedule] at hcomputed
    have hat : job.isAt = true := by simp [CronJob.isAt, hschedule]
    have hcompute : computeJobNextRunAtMs deps job now = .ok (some slot) := by
      simp only [computeJobNextRunAtMs, henabled, hschedule, hcomputed, Bool.not_true,
        false_eq_true, if_false]
      split
      · rename_i lastRun hlast
        split
        · exact congrArg Except.ok (Option.filter_eq_some_iff.mpr
            ⟨rfl, by simpa using hlastRun lastRun hlast⟩)
        · rfl
      · rfl
    rw [nextRunAtMs_recomputeJobNextRunAtMs_eq hcompute]
    split
    · rw [if_neg (by simp [hat])]
    · rfl
  | every everyMs anchorMs =>
    simp only [SlotIsComputed, hschedule] at hcomputed
    obtain ⟨rfl, hanchor, hgrid, hlast⟩ := hcomputed
    have hnow := everyNextRunAtMs_eq_now (le_max_left 1 everyMs) (le_max_left 0 _) hanchor hgrid
    have hcompute : computeJobNextRunAtMs deps job slot = .ok (some slot) := by
      rw [computeJobNextRunAtMs_every henabled hschedule]
      split
      · rename_i lastRun heq
        have := (hlast lastRun heq).1
        rw [if_neg (by omega)]
        exact congrArg (Except.ok ∘ some) hnow
      · exact congrArg (Except.ok ∘ some) hnow
    rw [nextRunAtMs_recomputeJobNextRunAtMs_eq hcompute]
    split
    · rename_i lastRun heq
      split
      · rename_i hstatus
        exact congrArg some (max_eq_left ((hlast lastRun heq).2 hstatus.2))
      · rfl
    · rfl

/-! ## Walks over a pending slot -/

/-- What a recomputation reads of a job, as a walk has prepared it. -/
structure SameInputs (job : CronJob) (now : ℤ) (job' : CronJob) : Prop where
  schedule : job'.schedule = (normalizeAnchor job now).schedule
  createdAtMs : job'.createdAtMs = job.createdAtMs
  lastRunAtMs : job'.state.lastRunAtMs = job.state.lastRunAtMs
  lastStatus : job'.state.lastStatus = job.state.lastStatus
  consecutiveErrors : job'.state.consecutiveErrors = job.state.consecutiveErrors

theorem SameInputs.schedule_eq {job : CronJob} {now : ℤ} (h : SameInputs job now job')
    (hevery : job.isEvery = false) : job'.schedule = job.schedule := by
  rw [h.schedule]
  unfold normalizeAnchor
  split
  · rename_i hschedule
    simp [CronJob.isEvery, hschedule] at hevery
  · rfl

theorem SameInputs.slotIsComputed_at {job : CronJob} {now slot c : ℤ} {time : Str}
    (h : SameInputs job now job') (hat : job'.schedule = .at time) :
    SlotIsComputed deps job slot c ↔ parseAbsoluteTimeMs deps.toCronHost time = some slot := by
  have hschedule : job.schedule = .at time := by
    have := h.schedule
    rw [hat] at this
    unfold normalizeAnchor at this
    split at this
    · exact nomatch this
    · exact this.symm
  simp only [SlotIsComputed, hschedule]

/-- The anchor of an interval, once it is filled in. -/
theorem SameInputs.every {job : CronJob} {now : ℤ} {anchorMs : Option ℤ}
    (h : SameInputs job now job') (hschedule : job.schedule = .every everyMs anchorMs) :
    job'.schedule =
      .every everyMs (some (resolveEveryAnchorMs anchorMs (job.createdAtMs.getD now))) := by
  rw [h.schedule]
  unfold normalizeAnchor
  rw [hschedule]

theorem resolveEveryAnchorMs_some_resolve (anchorMs : Option ℤ) (fallback fallback' : ℤ) :
    resolveEveryAnchorMs (some (resolveEveryAnchorMs anchorMs fallback)) fallback' =
      resolveEveryAnchorMs anchorMs fallback := by
  unfold resolveEveryAnchorMs
  exact max_eq_right (le_max_left _ _)

/-- At the time of the walk the prepared job computes what the job computes. -/
theorem SameInputs.slotIsComputed_iff {job : CronJob} {now slot : ℤ} (h : SameInputs job now job') :
    SlotIsComputed deps job' slot now ↔ SlotIsComputed deps job slot now := by
  cases hschedule : job.schedule with
  | every everyMs anchorMs =>
    have herrors : effectiveConsecutiveErrors job' = effectiveConsecutiveErrors job := by
      unfold effectiveConsecutiveErrors
      rw [h.consecutiveErrors]
    simp only [SlotIsComputed, hschedule, h.every hschedule, resolveEveryAnchorMs_some_resolve,
      h.lastRunAtMs, h.lastStatus, herrors]
  | _ =>
    have hsame : job'.schedule = job.schedule :=
      h.schedule_eq (by simp [CronJob.isEvery, hschedule])
    simp only [SlotIsComputed, hsame, hschedule]

/-- What a later recomputation gives, it would have given at the walk. -/
theorem SameInputs.slotIsComputed_earlier {job : CronJob} {now later slot : ℤ}
    (h : SameInputs job now job') (hdue : slot ≤ now) (hclock : now ≤ later)
    (hcomputed : SlotIsComputed deps job' slot later) : SlotIsComputed deps job slot now := by
  cases hschedule : job'.schedule with
  | «at» time =>
    simp only [SlotIsComputed, hschedule] at hcomputed
    exact (h.slotIsComputed_at hschedule).mpr hcomputed
  | cron expr tz staggerMs => simp [SlotIsComputed, hschedule] at hcomputed
  | every everyMs anchorMs =>
    have hslot : slot = later := by
      simp only [SlotIsComputed, hschedule] at hcomputed
      exact hcomputed.1
    obtain rfl : now = later := by omega
    exact h.slotIsComputed_iff.mp hcomputed

/-- A slot that the walk has computed, a later recomputation computes from the same data. -/
theorem SameInputs.slotIsComputed_later {job : CronJob} {now later slot : ℤ}
    (h : SameInputs job now job') (hcomputed : SlotIsComputed deps job slot now) :
    SlotIsComputed deps job' slot later ↔ SlotIsComputed deps job slot later := by
  cases hschedule : job.schedule with
  | every everyMs anchorMs =>
    have herrors : effectiveConsecutiveErrors job' = effectiveConsecutiveErrors job := by
      unfold effectiveConsecutiveErrors
      rw [h.consecutiveErrors]
    simp only [SlotIsComputed, hschedule] at hcomputed
    -- an anchor that is filled in with the time of the walk computes nothing then
    have hanchor : resolveEveryAnchorMs anchorMs (job.createdAtMs.getD now) =
        resolveEveryAnchorMs anchorMs (job.createdAtMs.getD later) := by
      have hbefore := hcomputed.2.1
      unfold resolveEveryAnchorMs at hbefore ⊢
      cases anchorMs with
      | some anchor => rfl
      | none =>
        cases hcreated : job.createdAtMs with
        | some created => rfl
        | none =>
          rw [hcreated] at hbefore
          have : now ≤ max 0 now := le_max_right _ _
          exact absurd hbefore (not_lt.mpr this)
    simp only [SlotIsComputed, hschedule, h.every hschedule, resolveEveryAnchorMs_some_resolve,
      h.lastRunAtMs, h.lastStatus, herrors, hanchor]
  | _ =>
    have hsame : job'.schedule = job.schedule :=
      h.schedule_eq (by simp [CronJob.isEvery, hschedule])
    simp only [SlotIsComputed, hsame, hschedule]

/-- The job that a walk hands on, if it is enabled and not running. -/
def preparedJob : CronJob :=
  if hasScheduledNextRunAtMs job.state.nextRunAtMs then normalizeAnchor job now
  else (normalizeAnchor job now).setNextRun none

theorem walkJob_prepared {job : CronJob} {now : ℤ}
    (henabled : job.isEnabled = true) (hrunning : job.state.runningAtMs = none) :
    walkJob fn now job = fn (preparedJob job now) now := by
  have hrunning' : (preparedJob job now).state.runningAtMs = none := by
    unfold preparedJob
    split
    · simpa using hrunning
    · show (normalizeAnchor job now).state.runningAtMs = none
      simpa using hrunning
  have hnormalized : normalizeJobTickState job now = (preparedJob job now, false) := by
    unfold preparedJob at hrunning' ⊢
    simp only [normalizeJobTickState, normalizeAnchor_isEnabled, henabled, normalizeAnchor_state,
      Bool.not_true, false_eq_true, if_false, hrunning']
  unfold walkJob
  rw [hnormalized]

theorem sameInputs_preparedJob : SameInputs job now (preparedJob job now) := by
  have hcreated : (normalizeAnchor job now).createdAtMs = job.createdAtMs := by
    unfold normalizeAnchor
    split <;> rfl
  unfold preparedJob
  split
  · exact ⟨rfl, hcreated, by simp, by simp, by simp⟩
  · exact ⟨rfl, hcreated, by simp [CronJob.setNextRun], by simp [CronJob.setNextRun],
      by simp [CronJob.setNextRun]⟩

theorem preparedJob_isEnabled : (preparedJob job now).isEnabled = job.isEnabled := by
  unfold preparedJob
  split <;> exact normalizeAnchor_isEnabled job now

theorem preparedJob_runningAtMs :
    (preparedJob job now).state.runningAtMs = job.state.runningAtMs := by
  unfold preparedJob
  split <;> simp [CronJob.setNextRun]

theorem preparedJob_nextRunAtMs :
    (preparedJob job now).state.nextRunAtMs = job.state.nextRunAtMs.filter (0 < ·) := by
  unfold preparedJob hasScheduledNextRunAtMs
  cases hnext : job.state.nextRunAtMs with
  | none =>
    rw [if_neg (by simp)]
    rfl
  | some next =>
    by_cases hpos : 0 < next
    · rw [if_pos (by simpa using hpos), filter_some, if_pos (by simpa using hpos)]
      simp [hnext]
    · rw [if_neg (by simpa using hpos), filter_some, if_neg (by simpa using hpos)]
      rfl

/-- A recomputation that finds a next run changes that alone. -/
theorem recompute_keeps {job : CronJob} {now slot : ℤ}
    (h : (recomputeJobNextRunAtMs deps job now).state.nextRunAtMs = some slot) :
    (recomputeJobNextRunAtMs deps job now).isEnabled = job.isEnabled ∧
      (recomputeJobNextRunAtMs deps job now).state.runningAtMs = job.state.runningAtMs ∧
      (recomputeJobNextRunAtMs deps job now).state.lastRunAtMs = job.state.lastRunAtMs := by
  unfold recomputeJobNextRunAtMs at h ⊢
  split at h
  · exact absurd h (by simp [recordScheduleComputeError])
  · rename_i heq
    exact ⟨rfl, rfl, rfl⟩

theorem SameInputs.recompute {job : CronJob} {now c : ℤ} (h : SameInputs job now job') :
    SameInputs job now (recomputeJobNextRunAtMs deps job' c) := by
  unfold recomputeJobNextRunAtMs
  split
  · exact ⟨h.schedule, h.createdAtMs, h.lastRunAtMs, h.lastStatus, h.consecutiveErrors⟩
  · exact ⟨h.schedule, h.createdAtMs, h.lastRunAtMs, h.lastStatus, h.consecutiveErrors⟩

/-- The full walk recomputes a due slot. -/
theorem SlotPending.walkJob_recompute {job : CronJob} {slot now : ℤ} (h : SlotPending job slot)
    (hdue : slot ≤ now) : walkJob (recomputeIfDueOrMissing deps) now job =
      recomputeJobNextRunAtMs deps (preparedJob job now) now := by
  rw [walkJob_prepared h.enabled h.notRunning]
  unfold recomputeIfDueOrMissing
  dsimp only
  rw [preparedJob_nextRunAtMs, h.next, filter_some]
  refine if_pos ?_
  by_cases hpos : 0 < slot
  · rw [if_pos (by simpa using hpos)]
    simp [hdue]
  · rw [if_neg (by simpa using hpos)]
    simp [hasScheduledNextRunAtMs]

/-- The maintenance walk keeps a due slot that is a valid time, and recomputes it otherwise. -/
theorem SlotPending.walkJob_maintain {job : CronJob} {slot now : ℤ}
    (h : SlotPending job slot) (hdue : slot ≤ now) : walkJob (maintainJob deps opts) now job =
      if 0 < slot then preparedJob job now
      else recomputeJobNextRunAtMs deps (preparedJob job now) now := by
  rw [walkJob_prepared h.enabled h.notRunning]
  have hnext := preparedJob_nextRunAtMs job now
  rw [h.next, filter_some] at hnext
  by_cases hpos : 0 < slot
  · rw [if_pos (by simpa using hpos)] at hnext
    have hrepair : shouldRepairFutureCronNextRunAtMs deps (preparedJob job now) now = false := by
      unfold shouldRepairFutureCronNextRunAtMs
      rw [hnext]
      exact if_pos (.inr (.inr (.inl hdue)))
    have hexecuted : alreadyExecutedSlot (preparedJob job now) = false := by
      unfold alreadyExecutedSlot
      rw [hnext, (sameInputs_preparedJob job now).lastRunAtMs]
      cases hlast : job.state.lastRunAtMs with
      | none => rfl
      | some lastRun =>
        have := h.notExecuted lastRun hlast
        exact decide_eq_false (by omega)
    have hvalid : hasScheduledNextRunAtMs (preparedJob job now).state.nextRunAtMs = true := by
      rw [hnext]
      exact decide_eq_true hpos
    rw [if_pos hpos]
    unfold maintainJob
    rw [hvalid, hrepair, hexecuted]
    simp
  · rw [if_neg (by simpa using hpos)] at hnext
    rw [if_neg hpos]
    unfold maintainJob
    rw [hnext]
    rfl

/-- A recomputation of a due slot keeps it pending where the schedule gives it, and gives
another one or none elsewhere. -/
theorem SlotPending.recompute_prepared {job : CronJob} {slot now : ℤ} (h : SlotPending job slot)
    (hdue : slot ≤ now) :
    (recomputeJobNextRunAtMs deps (preparedJob job now) now).state.nextRunAtMs = some slot ↔
      SlotIsComputed deps job slot now := by
  have hinputs := sameInputs_preparedJob job now
  have henabled : (preparedJob job now).isEnabled = true :=
    (preparedJob_isEnabled job now).trans h.enabled
  constructor
  · intro hslot
    exact hinputs.slotIsComputed_iff.mp (slotIsComputed_of_recompute henabled hdue hslot)
  · intro hcomputed
    refine recompute_of_slotIsComputed henabled ?_ (hinputs.slotIsComputed_iff.mpr hcomputed)
    rw [hinputs.lastRunAtMs]
    exact h.notExecuted

theorem SlotPending.of_recompute {job : CronJob} {slot now : ℤ} (h : SlotPending job slot)
    (hslot : (recomputeJobNextRunAtMs deps (preparedJob job now) now).state.nextRunAtMs =
      some slot) : SlotPending (recomputeJobNextRunAtMs deps (preparedJob job now) now) slot := by
  obtain ⟨henabled, hrunning, hlastRun⟩ := recompute_keeps hslot
  refine ⟨?_, ?_, hslot, ?_⟩
  · rw [henabled, preparedJob_isEnabled, h.enabled]
  · rw [hrunning, preparedJob_runningAtMs, h.notRunning]
  · rw [hlastRun, (sameInputs_preparedJob job now).lastRunAtMs]
    exact h.notExecuted

/-- A walk gives a job a slot that is not in the future only where the schedule does. -/
theorem slotIsComputed_of_walkJob (hfn : Recomputes deps fn)
    {job : CronJob} {slot now : ℤ} (hrunning : job.state.runningAtMs = none) (hdue : slot ≤ now)
    (h : (walkJob fn now job).state.nextRunAtMs = some slot)
    (hother : job.state.nextRunAtMs ≠ some slot) : SlotIsComputed deps job slot now := by
  by_cases henabled : job.isEnabled = true
  · rw [walkJob_prepared henabled hrunning] at h
    rcases hfn (preparedJob job now) now with heq | heq
    · rw [heq] at h
      exact (sameInputs_preparedJob job now).slotIsComputed_iff.mp
        (slotIsComputed_of_recompute ((preparedJob_isEnabled job now).trans henabled) hdue h)
    · rw [heq, preparedJob_nextRunAtMs] at h
      exact absurd (Option.filter_eq_some_iff.mp h).1 hother
  · have hdisabled : job.isEnabled = false := by simpa using henabled
    have hnone : (walkJob fn now job).state.nextRunAtMs = none := by
      simp [walkJob, normalizeJobTickState, hdisabled, CronJob.setNextRun, CronJob.setRunning]
    exact absurd (hnone.symm.trans h) (by simp)

/-! ## One walk and two -/

section
variable {job : CronJob} {slot now later : ℤ}

theorem SlotPending.prepared (h : SlotPending job slot) (hpos : 0 < slot) :
    SlotPending (preparedJob job now) slot := by
  refine ⟨?_, ?_, ?_, ?_⟩
  · rw [preparedJob_isEnabled, h.enabled]
  · rw [preparedJob_runningAtMs, h.notRunning]
  · rw [preparedJob_nextRunAtMs, h.next, filter_some, if_pos (by simpa using hpos)]
  · rw [(sameInputs_preparedJob job now).lastRunAtMs]
    exact h.notExecuted

theorem SlotPending.full (h : SlotPending job slot) (hdue : slot ≤ now) :
    (walkJob (recomputeIfDueOrMissing deps) now job).state.nextRunAtMs = some slot ↔
      SlotIsComputed deps job slot now := by
  rw [h.walkJob_recompute hdue]
  exact h.recompute_prepared hdue

theorem SlotPending.maintenance (h : SlotPending job slot) (hdue : slot ≤ now) :
    (walkJob (maintainJob deps opts) now job).state.nextRunAtMs = some slot ↔
      (slot ≤ 0 → SlotIsComputed deps job slot now) := by
  rw [h.walkJob_maintain hdue]
  split
  · rename_i hpos
    exact ⟨fun _ hneg => absurd hpos (by omega), fun _ => (h.prepared hpos).next⟩
  · rename_i hneg
    rw [h.recompute_prepared hdue]
    exact ⟨fun hcomputed _ => hcomputed, fun himp => himp (by omega)⟩

/-- A recomputation and a walk after it. -/
theorem SlotPending.recompute_walk (hfn : Recomputes deps fn)
    (h : SlotPending job slot) (hdue : slot ≤ now) (hclock : now ≤ later)
    (hpending : ∀ {job'}, SlotPending job' slot →
      ((walkJob fn later job').state.nextRunAtMs = some slot ↔ SlotIsComputed deps job' slot later)) :
    (walkJob fn later (recomputeJobNextRunAtMs deps (preparedJob job now) now)).state.nextRunAtMs =
      some slot ↔ SlotIsComputed deps job slot now ∧ SlotIsComputed deps job slot later := by
  have hinputs : SameInputs job now (recomputeJobNextRunAtMs deps (preparedJob job now) now) :=
    (sameInputs_preparedJob job now).recompute
  by_cases hcomputed : SlotIsComputed deps job slot now
  · have hnext := (h.recompute_prepared hdue).mpr hcomputed
    rw [hpending (h.of_recompute hnext), hinputs.slotIsComputed_later hcomputed]
    exact ⟨fun hlater => ⟨hcomputed, hlater⟩, And.right⟩
  · refine ⟨fun hnext => ?_, fun hboth => absurd hboth.1 hcomputed⟩
    have hrunning : (recomputeJobNextRunAtMs deps (preparedJob job now) now).state.runningAtMs =
        none := by
      rw [recompute_runningAtMs, preparedJob_runningAtMs, h.notRunning]
    have hlater := slotIsComputed_of_walkJob hfn hrunning (hdue.trans hclock) hnext fun hslot =>
      hcomputed ((h.recompute_prepared hdue).mp hslot)
    exact absurd (hinputs.slotIsComputed_earlier hdue hclock hlater) hcomputed

theorem SlotPending.full_full (h : SlotPending job slot) (hdue : slot ≤ now)
    (hclock : now ≤ later) : (walkJob (recomputeIfDueOrMissing deps) later
      (walkJob (recomputeIfDueOrMissing deps) now job)).state.nextRunAtMs = some slot ↔
      SlotIsComputed deps job slot now ∧ SlotIsComputed deps job slot later := by
  rw [h.walkJob_recompute hdue]
  exact h.recompute_walk recomputes_recomputeIfDueOrMissing hdue hclock fun hpending =>
    hpending.full (hdue.trans hclock)

theorem SlotPending.maintenance_maintenance {opts' : MaintenanceOptions}
    (h : SlotPending job slot) (hdue : slot ≤ now) (hclock : now ≤ later) :
    (walkJob (maintainJob deps opts') later
      (walkJob (maintainJob deps opts) now job)).state.nextRunAtMs = some slot ↔
      (slot ≤ 0 → SlotIsComputed deps job slot now ∧ SlotIsComputed deps job slot later) := by
  rw [h.walkJob_maintain hdue]
  split
  · rename_i hpos
    rw [(h.prepared hpos).maintenance (hdue.trans hclock)]
    exact ⟨fun _ hneg => absurd hpos (by omega), fun _ hneg => absurd hpos (by omega)⟩
  · rename_i hneg
    rw [h.recompute_walk (recomputes_maintainJob opts') hdue hclock fun hpending => by
      rw [hpending.maintenance (hdue.trans hclock)]
      exact ⟨fun himp => himp (by omega), fun hcomputed _ => hcomputed⟩]
    exact ⟨fun hboth _ => hboth, fun himp => himp (by omega)⟩

end

end OpenClaw
