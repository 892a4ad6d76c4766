import Mathlib.Data.Rat.Floor
import OpenClaw.Cron.Jobs

/-!
# Intervals

The `every` schedules of `cron/schedule.ts` and `cron/service/jobs.ts`, with the finite numbers a
store may hold. A period and an anchor are rounded down, and then held to at least one and at
least zero.
-/

namespace OpenClaw

open Calendar

/-! ## The schedule as stored -/

structure EverySchedule where
  everyMs : ℚ
  anchorMs : Option ℚ

/-- The fields of a job that its interval is computed from. -/
structure EveryJob where
  enabled : Option Bool
  schedule : EverySchedule
  createdAtMs : Option ℚ
  lastRunAtMs : Option ℚ

variable (schedule : EverySchedule) (nowMs : ℤ)

namespace EverySchedule

/-- `everyMs` in `computeNextRunAtMs`. -/
def stepMs : ℤ := max 1 ⌊schedule.everyMs⌋

/-- `anchor` in `computeNextRunAtMs`. -/
def anchor : ℤ :=
  max 0 ⌊schedule.anchorMs.getD nowMs⌋

def computeNextRunAtMs : ℤ :=
  let everyMs := schedule.stepMs
  let anchor := schedule.anchor nowMs
  if nowMs < anchor then anchor
  else
    let elapsed := nowMs - anchor
    let steps := max 1 ((elapsed + everyMs - 1) / everyMs)
    anchor + steps * everyMs

/-- The times one step after the anchor, two steps after it, and so on. -/
def grid : Set ℤ :=
  {t | ∃ k : ℤ, 1 ≤ k ∧ t = schedule.anchor nowMs + k * schedule.stepMs}

end EverySchedule

variable (job : EveryJob)

namespace EveryJob

def isJobEnabled : Bool := job.enabled.getD true

/-- `resolveEveryAnchorMs`, with the time of creation behind the anchor of the schedule. -/
def resolveEveryAnchorMs (nowMs : ℤ) : ℤ :=
  match job.schedule.anchorMs with
  | some anchorMs => max 0 ⌊anchorMs⌋
  | none => max 0 ⌊job.createdAtMs.getD nowMs⌋

/-- The schedule that `computeJobNextRunAtMs` hands on. -/
def resolvedSchedule (nowMs : ℤ) : EverySchedule where
  everyMs := job.schedule.stepMs
  anchorMs := some (job.resolveEveryAnchorMs nowMs)

def computeJobNextRunAtMs (nowMs : ℤ) : Option ℤ :=
  if !job.isJobEnabled then none
  else match job.lastRunAtMs with
    | some lastRunAtMs =>
      let nextFromLastRun := ⌊lastRunAtMs⌋ + job.schedule.stepMs
      if nowMs < nextFromLastRun then some nextFromLastRun
      else some ((job.resolvedSchedule nowMs).computeNextRunAtMs nowMs)
    | none => some ((job.resolvedSchedule nowMs).computeNextRunAtMs nowMs)

/-- One step after the last run is still to come. -/
def IsWaiting (nowMs : ℤ) : Prop :=
  ∃ lastRunAtMs, job.lastRunAtMs = some lastRunAtMs ∧ nowMs < ⌊lastRunAtMs⌋ + job.schedule.stepMs

end EveryJob

/-! ## Whole milliseconds -/

variable (now : ℤ)

theorem EverySchedule.computeNextRunAtMs_eq (host : CronHost) (schedule : EverySchedule) (now : ℤ) :
    OpenClaw.computeNextRunAtMs host
        (.every ⌊schedule.everyMs⌋ (schedule.anchorMs.map Int.floor)) now =
      .ok (some (schedule.computeNextRunAtMs now)) := by
  have hanchor : max 0 ((schedule.anchorMs.map Int.floor).getD now) = schedule.anchor now := by
    unfold EverySchedule.anchor
    cases schedule.anchorMs with
    | some anchorMs => rfl
    | none =>
      show max 0 now = max 0 ⌊(now : ℚ)⌋
      rw [Int.floor_intCast]
  show Except.ok (some (everyNextRunAtMs _ _ now)) = _
  unfold everyNextRunAtMs EverySchedule.computeNextRunAtMs
  rw [hanchor]
  rfl

theorem EveryJob.resolvedSchedule_stepMs :
    (job.resolvedSchedule now).stepMs = job.schedule.stepMs := by
  show max 1 ⌊((job.schedule.stepMs : ℤ) : ℚ)⌋ = _
  rw [Int.floor_intCast]
  exact max_eq_right (le_max_left 1 _)

theorem EveryJob.resolvedSchedule_anchor :
    (job.resolvedSchedule now).anchor now = job.resolveEveryAnchorMs now := by
  have hnonneg : 0 ≤ job.resolveEveryAnchorMs now := by
    unfold EveryJob.resolveEveryAnchorMs
    split <;> exact le_max_left 0 _
  show max 0 ⌊((job.resolveEveryAnchorMs now : ℤ) : ℚ)⌋ = _
  rw [Int.floor_intCast]
  exact max_eq_right hnonneg

theorem EveryJob.computeJobNextRunAtMs_eq (deps : CronDeps) (job : EveryJob) (record : CronJob)
    (henabled : record.enabled = job.enabled) (hschedule : record.schedule =
      .every ⌊job.schedule.everyMs⌋ (job.schedule.anchorMs.map Int.floor))
    (hcreated : record.createdAtMs = job.createdAtMs.map Int.floor)
    (hlast : record.state.lastRunAtMs = job.lastRunAtMs.map Int.floor) (now : ℤ) :
    OpenClaw.computeJobNextRunAtMs deps record now = .ok (job.computeJobNextRunAtMs now) := by
  have hanchor : OpenClaw.resolveEveryAnchorMs (job.schedule.anchorMs.map Int.floor)
      (record.createdAtMs.getD now) = job.resolveEveryAnchorMs now := by
    unfold OpenClaw.resolveEveryAnchorMs EveryJob.resolveEveryAnchorMs
    rw [hcreated]
    cases job.schedule.anchorMs with
    | some anchorMs => rfl
    | none =>
      cases job.createdAtMs with
      | some createdAtMs => rfl
      | none =>
        show max 0 now = max 0 ⌊(now : ℚ)⌋
        rw [Int.floor_intCast]
  have hnext : OpenClaw.computeNextRunAtMs deps.toCronHost
      (.every job.schedule.stepMs (some (job.resolveEveryAnchorMs now))) now =
      .ok (some ((job.resolvedSchedule now).computeNextRunAtMs now)) := by
    rw [← EverySchedule.computeNextRunAtMs_eq deps.toCronHost]
    show _ = OpenClaw.computeNextRunAtMs deps.toCronHost
      (.every ⌊((job.schedule.stepMs : ℤ) : ℚ)⌋
        (some ⌊((job.resolveEveryAnchorMs now : ℤ) : ℚ)⌋)) now
    rw [Int.floor_intCast, Int.floor_intCast]
  have hstep : max 1 ⌊job.schedule.everyMs⌋ = job.schedule.stepMs := rfl
  unfold OpenClaw.computeJobNextRunAtMs EveryJob.computeJobNextRunAtMs CronJob.isEnabled
    EveryJob.isJobEnabled
  rw [henabled, hschedule, hlast]
  dsimp only
  rw [hanchor, hstep, hnext]
  cases job.enabled.getD true with
  | false => rfl
  | true =>
    cases job.lastRunAtMs with
    | none => rfl
    | some lastRunAtMs =>
      show (if now < ⌊lastRunAtMs⌋ + job.schedule.stepMs then Except.ok _ else Except.ok _) =
        Except.ok (if now < ⌊lastRunAtMs⌋ + job.schedule.stepMs then _ else _)
      split_ifs <;> rfl

/-! ## The next time on the grid -/

theorem EverySchedule.stepMs_pos : 0 < schedule.stepMs :=
  lt_of_lt_of_le Int.one_pos (le_max_left 1 _)

/-- The number of whole steps that `computeNextRunAtMs` takes reaches past `now`, and one step
fewer does not. -/
theorem steps_bounds (elapsed : ℤ) {every : ℤ} (hevery : 0 < every)
    (hbetween : elapsed = 0 ∨ ¬ every ∣ elapsed) (hnonneg : 0 ≤ elapsed) :
    elapsed < max 1 ((elapsed + every - 1) / every) * every ∧
      (max 1 ((elapsed + every - 1) / every) - 1) * every ≤ elapsed := by
  have hdiv := Int.ediv_mul_add_emod (elapsed + every - 1) every
  have hmod := Int.emod_nonneg (elapsed + every - 1) (show every ≠ 0 by omega)
  have hmod' := Int.emod_lt_of_pos (elapsed + every - 1) hevery
  set q := (elapsed + every - 1) / every
  rcases hbetween with hzero | hdvd
  · -- at the anchor no step has been taken yet
    have hq : q = 0 := by
      show (elapsed + every - 1) / every = 0
      rw [hzero]
      exact Int.ediv_eq_zero_of_lt (by omega) (by omega)
    rw [hq, max_eq_left (by omega)]
    omega
  · have hne : q * every ≠ elapsed := by
      intro heq
      exact hdvd ⟨q, by rw [mul_comm]; exact heq.symm⟩
    have hpos : 1 ≤ q := by
      by_contra hq
      have hle : q * every ≤ 0 := by
        apply mul_nonpos_of_nonpos_of_nonneg <;> omega
      have hne0 : elapsed ≠ 0 := by
        intro heq
        exact hdvd (heq ▸ dvd_zero every)
      omega
    rw [max_eq_right hpos, sub_mul]
    omega

theorem EverySchedule.isNext_computeNextRunAtMs {schedule : EverySchedule} {now : ℤ}
    (hanchor : schedule.anchor now ≤ now)
    (hbetween : now = schedule.anchor now ∨ ¬ schedule.stepMs ∣ now - schedule.anchor now) :
    IsNext (schedule.grid now) now (some (schedule.computeNextRunAtMs now)) := by
  have hstep := schedule.stepMs_pos
  unfold EverySchedule.computeNextRunAtMs EverySchedule.grid
  dsimp only
  rw [if_neg (not_lt.mpr hanchor)]
  generalize schedule.anchor now = anchor at *
  generalize schedule.stepMs = every at *
  have hbounds := steps_bounds (now - anchor) hstep
    (hbetween.imp_left fun heq => by omega) (by omega)
  set steps := max 1 ((now - anchor + every - 1) / every)
  refine ⟨⟨⟨steps, le_max_left 1 _, rfl⟩, by omega⟩, ?_⟩
  rintro _ ⟨⟨k, hk, rfl⟩, hlt⟩
  -- a time of the grid after `now` has taken more than `steps - 1` steps
  have hmore : steps - 1 < k := by
    have hmul : (steps - 1) * every < k * every := by omega
    exact lt_of_mul_lt_mul_right hmul hstep.le
  have hmul : steps * every ≤ k * every := Int.mul_le_mul_of_nonneg_right (by omega) hstep.le
  omega

theorem EverySchedule.computeNextRunAtMs_le {schedule : EverySchedule} {now : ℤ}
    (hanchor : schedule.anchor now ≤ now)
    (hbetween : now = schedule.anchor now ∨ ¬ schedule.stepMs ∣ now - schedule.anchor now) :
    schedule.computeNextRunAtMs now ≤ now + schedule.stepMs := by
  have hstep := schedule.stepMs_pos
  have hbounds := steps_bounds (now - schedule.anchor now) hstep
    (hbetween.imp_left fun heq => by omega) (by omega)
  unfold EverySchedule.computeNextRunAtMs
  dsimp only
  rw [if_neg (not_lt.mpr hanchor)]
  rw [sub_mul] at hbounds
  omega

/-- Between the times of the grid an interval's next run is the next of them, and before the
anchor it is the anchor. A job waits one step after its last run, and then follows its schedule. -/
theorem everyRuns_ahead (henabled : job.isJobEnabled = true)
    (hlast : ∀ lastRunAtMs, job.lastRunAtMs = some lastRunAtMs → lastRunAtMs ≤ now) :
    (now < schedule.anchor now → schedule.computeNextRunAtMs now = schedule.anchor now) ∧
    (schedule.anchor now ≤ now →
      (now = schedule.anchor now ∨ ¬ schedule.stepMs ∣ now - schedule.anchor now) →
      IsNext (schedule.grid now) now (some (schedule.computeNextRunAtMs now))) ∧
    ∃ next, job.computeJobNextRunAtMs now = some next ∧
      (job.IsWaiting now → now < next ∧ next ≤ now + job.schedule.stepMs) ∧
      (¬ job.IsWaiting now → now < job.resolveEveryAnchorMs now →
        next = job.resolveEveryAnchorMs now) ∧
      (¬ job.IsWaiting now → job.resolveEveryAnchorMs now ≤ now →
        (now = job.resolveEveryAnchorMs now ∨
          ¬ job.schedule.stepMs ∣ now - job.resolveEveryAnchorMs now) →
        now < next ∧ next ≤ now + job.schedule.stepMs) := by
  have hcanchor : ∀ s : EverySchedule, now < s.anchor now →
      s.computeNextRunAtMs now = s.anchor now := fun s hlt => if_pos hlt
  refine ⟨hcanchor schedule, EverySchedule.isNext_computeNextRunAtMs, ?_⟩
  by_cases hwait : job.IsWaiting now
  · obtain ⟨lastRunAtMs, hsome, hlt⟩ := hwait
    have hfloor : ⌊lastRunAtMs⌋ ≤ now := by
      have hle : ⌊lastRunAtMs⌋ ≤ ⌊(now : ℚ)⌋ := Int.floor_le_floor (hlast lastRunAtMs hsome)
      rwa [Int.floor_intCast] at hle
    refine ⟨⌊lastRunAtMs⌋ + job.schedule.stepMs, ?_, fun _ => ⟨hlt, by omega⟩,
      fun hnot => absurd ⟨lastRunAtMs, hsome, hlt⟩ hnot,
      fun hnot => absurd ⟨lastRunAtMs, hsome, hlt⟩ hnot⟩
    unfold EveryJob.computeJobNextRunAtMs
    rw [henabled, hsome]
    exact if_pos hlt
  · refine ⟨(job.resolvedSchedule now).computeNextRunAtMs now, ?_, fun h => absurd h hwait, ?_, ?_⟩
    · unfold EveryJob.computeJobNextRunAtMs
      rw [henabled]
      cases hsome : job.lastRunAtMs with
      | none => rfl
      | some lastRunAtMs => exact if_neg fun hlt => hwait ⟨lastRunAtMs, hsome, hlt⟩
    · intro _ hlt
      rw [← job.resolvedSchedule_anchor now] at hlt ⊢
      exact hcanchor _ hlt
    · intro _ hle hbetween
      rw [← job.resolvedSchedule_anchor now] at hle hbetween
      rw [← job.resolvedSchedule_stepMs now] at hbetween ⊢
      exact ⟨(EverySchedule.isNext_computeNextRunAtMs hle hbetween).lt,
        EverySchedule.computeNextRunAtMs_le hle hbetween⟩

/-! ## A job of every minute -/

def everyMinuteJob : EveryJob where
  enabled := none
  schedule := ⟨60000, some 0⟩
  createdAtMs := none
  lastRunAtMs := some 60000

/-- The same job, with its anchor on the next day. -/
def tomorrowJob : EveryJob where
  enabled := none
  schedule := ⟨60000, some 86400000⟩
  createdAtMs := none
  lastRunAtMs := some 0

theorem everyRuns_ahead_everyMinute : IsNext (everyMinuteJob.schedule.grid 150000) 150000
      (some (everyMinuteJob.schedule.computeNextRunAtMs 150000)) :=
  (everyRuns_ahead everyMinuteJob.schedule everyMinuteJob 150000 rfl fun lastRunAtMs h => by
    rw [← Option.some.inj h]
    norm_num).2.1 (by decide +kernel) (by decide +kernel)

/-- A whole number of steps after the anchor the answer is the present, and before the anchor of
its schedule a job may have more than one step to go. -/
theorem not_everyRuns_ahead : everyMinuteJob.schedule.computeNextRunAtMs 120000 = 120000 ∧
      everyMinuteJob.computeJobNextRunAtMs 120000 = some 120000 ∧
      tomorrowJob.computeJobNextRunAtMs 120000 = some (120000 + 86280000) := by
  decide +kernel

end OpenClaw
