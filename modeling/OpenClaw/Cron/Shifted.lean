import OpenClaw.Cron.Evaluator

/-!
# Staggered slots

The slots of a job are the instants of its cron expression, all moved by the job's offset. The
cursor of the searches is moved back by the offset, but not before the epoch; no instant is that
early, so the first attempt answers.
-/

namespace OpenClaw

open Calendar

variable {host : CronHost} {deps : CronDeps} {instants : Set ℤ} {expr : Str}
  {tz : Option Str} {staggerMs : Option ℤ}

/-- What the evaluator of a cron expression answers: the next and the previous member of a set. -/
structure Evaluates (host : CronHost) (expr tz : Str) (instants : Set ℤ) : Prop where
  next : ∀ t, ∃ r, host.nextRun expr tz t = .ok r ∧ IsNext instants t r
  previous : ∀ t, ∃ r, host.previousRun expr tz t = .ok r ∧ IsPrevious instants t r

/-- The slots of a job with an offset. -/
def shifted (instants : Set ℤ) (offsetMs : ℤ) : Set ℤ := Set.image (· + offsetMs) instants

theorem cronOffsetMs_nonneg (host : CronHost) (jobId : Str) (schedule : CronSchedule) :
    0 ≤ cronOffsetMs host jobId schedule := by
  unfold cronOffsetMs
  split
  · unfold resolveStableCronOffsetMs
    split_ifs with hstagger
    · exact le_rfl
    · exact Int.emod_nonneg _ (by omega)
  · exact le_rfl

theorem mem_shifted {offsetMs t : ℤ} : t ∈ shifted instants offsetMs ↔ t - offsetMs ∈ instants := by
  constructor
  · intro ⟨m, hm, hadd⟩
    have heq : t - offsetMs = m := by
      change m + offsetMs = t at hadd
      omega
    rw [heq]
    exact hm
  · intro hmem
    exact ⟨t - offsetMs, hmem, Int.sub_add_cancel t offsetMs⟩

theorem shifted_zero : shifted instants 0 = instants := by
  ext t
  rw [mem_shifted, Int.sub_zero]

/-! ## The next slot -/

theorem computeNextRunAtMs_evaluates (staggerMs : Option ℤ) (hexpr : trim expr ≠ [])
    (h : Evaluates host (trim expr) (resolveCronTimezone host tz) instants) (t : ℤ) :
    ∃ r, computeNextRunAtMs host (.cron expr tz staggerMs) t = .ok r ∧ IsNext instants t r := by
  obtain ⟨r, hr, hnext⟩ := h.next t
  refine ⟨r, ?_, hnext⟩
  unfold computeNextRunAtMs
  dsimp only
  rw [if_neg hexpr]
  exact cronNextRunAtMs_eq hr hnext

/-- The search for the next slot finds the least slot after `now`. -/
theorem staggeredNext_isNext (jobId : Str) (hexpr : trim expr ≠ []) (hpos : ∀ s ∈ instants, 0 < s)
    (h : Evaluates host (trim expr) (resolveCronTimezone host tz) instants) (now : ℤ) :
    ∃ r, computeStaggeredCronNextRunAtMs host jobId (.cron expr tz staggerMs) now = .ok r ∧
      IsNext (shifted instants (cronOffsetMs host jobId (.cron expr tz staggerMs))) now r := by
  have hnonneg := cronOffsetMs_nonneg host jobId (.cron expr tz staggerMs)
  unfold computeStaggeredCronNextRunAtMs
  dsimp only
  generalize cronOffsetMs host jobId (.cron expr tz staggerMs) = offsetMs at hnonneg ⊢
  by_cases hoffset : offsetMs ≤ 0
  · have hzero : offsetMs = 0 := le_antisymm hoffset hnonneg
    obtain ⟨r, hr, hnext⟩ := computeNextRunAtMs_evaluates staggerMs hexpr h now
    rw [if_pos hoffset, hzero]
    refine ⟨r, hr, ?_⟩
    rw [shifted_zero]
    exact hnext
  · obtain ⟨r, hr, hnext⟩ := computeNextRunAtMs_evaluates staggerMs hexpr h (max 0 (now - offsetMs))
    rw [if_neg hoffset]
    refine ⟨r.map (· + offsetMs), staggeredNextLoop_eq 3 hr hnext, ?_⟩
    refine hnext.map (fun _ _ hlt => Int.add_lt_add_right hlt offsetMs) fun m hm => ?_
    have hm0 := hpos m hm
    show now < m + offsetMs ↔ max 0 (now - offsetMs) < m
    omega

/-! ## The previous slot -/

theorem computePreviousRunAtMs_evaluates (staggerMs : Option ℤ) (hexpr : trim expr ≠ [])
    (h : Evaluates host (trim expr) (resolveCronTimezone host tz) instants) (t : ℤ) :
    ∃ r, computePreviousRunAtMs host (.cron expr tz staggerMs) t = .ok r ∧
      IsPrevious instants t r := by
  obtain ⟨r, hr, hprevious⟩ := h.previous t
  refine ⟨r, ?_, hprevious⟩
  unfold computePreviousRunAtMs
  dsimp only
  rw [if_neg hexpr, hr]
  cases r with
  | none => rfl
  | some n =>
    have hlt : n < t := hprevious.1.2
    show Except.ok ((some n).filter (· < t)) = _
    rw [Option.filter_some, if_pos (decide_eq_true hlt)]

/-- The first attempt finds the previous slot. -/
theorem staggeredPreviousLoop_eq {previous : ℤ → Except Str (Option ℤ)} {offsetMs t : ℤ}
    {r : Option ℤ} (attempts : ℕ) (hpos : ∀ s ∈ instants, 0 < s)
    (h : previous (max 0 (t - offsetMs)) = .ok r)
    (hprevious : IsPrevious instants (max 0 (t - offsetMs)) r) :
    staggeredPreviousLoop previous offsetMs t (attempts + 1) (max 0 (t - offsetMs)) =
      .ok (r.map (· + offsetMs)) := by
  unfold staggeredPreviousLoop
  rw [h]
  cases r with
  | none => rfl
  | some base =>
    have hlt : base < max 0 (t - offsetMs) := hprevious.1.2
    have hbase : 0 < base := hpos base hprevious.1.1
    have hle : base + offsetMs ≤ t := by omega
    show (if base + offsetMs ≤ t then _ else _) = _
    rw [if_pos hle]
    rfl

/-- The search for the previous slot finds the greatest slot before `now`. -/
theorem staggeredPrevious_isPrevious (jobId : Str) (hexpr : trim expr ≠ []) (hpos : ∀ s ∈ instants, 0 < s)
    (h : Evaluates host (trim expr) (resolveCronTimezone host tz) instants) (now : ℤ) :
    ∃ r, computeStaggeredCronPreviousRunAtMs host jobId (.cron expr tz staggerMs) now = .ok r ∧
      IsPrevious (shifted instants (cronOffsetMs host jobId (.cron expr tz staggerMs))) now r := by
  have hnonneg := cronOffsetMs_nonneg host jobId (.cron expr tz staggerMs)
  unfold computeStaggeredCronPreviousRunAtMs
  dsimp only
  generalize cronOffsetMs host jobId (.cron expr tz staggerMs) = offsetMs at hnonneg ⊢
  by_cases hoffset : offsetMs ≤ 0
  · have hzero : offsetMs = 0 := le_antisymm hoffset hnonneg
    obtain ⟨r, hr, hprevious⟩ := computePreviousRunAtMs_evaluates staggerMs hexpr h now
    rw [if_pos hoffset, hzero]
    refine ⟨r, hr, ?_⟩
    rw [shifted_zero]
    exact hprevious
  · obtain ⟨r, hr, hprevious⟩ := computePreviousRunAtMs_evaluates staggerMs hexpr h
      (max 0 (now - offsetMs))
    rw [if_neg hoffset]
    refine ⟨r.map (· + offsetMs), staggeredPreviousLoop_eq 3 hpos hr hprevious, ?_⟩
    refine hprevious.map (fun _ _ hlt => Int.add_lt_add_right hlt offsetMs) fun m hm => ?_
    have hm0 := hpos m hm
    show m + offsetMs < now ↔ m < max 0 (now - offsetMs)
    omega

/-! ## Slots -/

/-- The search for the next run, the search for the previous one and the test of a time agree on
the slots: they are the instants of the expression, moved by the offset. -/
theorem staggeredRuns_shifted {deps : CronDeps} {job : CronJob} {expr : Str} {tz : Option Str}
    {staggerMs : Option ℤ} {instants : Set ℤ} (hschedule : job.schedule = .cron expr tz staggerMs)
    (hexpr : trim expr ≠ []) (hpos : ∀ s ∈ instants, 0 < s)
    (hunbounded : ∀ t, ∃ s ∈ instants, t < s)
    (h : Evaluates deps.toCronHost (trim expr) (resolveCronTimezone deps.toCronHost tz) instants)
    (now : ℤ) : let slots := shifted instants (cronOffsetMs deps.toCronHost job.id job.schedule)
    (∃ n, computeStaggeredCronNextRunAtMs deps.toCronHost job.id job.schedule now = .ok (some n) ∧
      IsLeast {m | m ∈ slots ∧ now < m} n) ∧
    (∃ r, computeStaggeredCronPreviousRunAtMs deps.toCronHost job.id job.schedule now = .ok r ∧
      IsPrevious slots now r) ∧
    ∀ t, ∃ isSlot, isStaggeredCronRunAtMs deps job t = .ok isSlot ∧
      (isSlot = true ↔ t - cronOffsetMs deps.toCronHost job.id job.schedule ∈ instants) := by
  rw [hschedule]
  refine ⟨?_, staggeredPrevious_isPrevious job.id hexpr hpos h now, ?_⟩
  · obtain ⟨r, hr, hnext⟩ := staggeredNext_isNext job.id hexpr hpos h now
    cases r with
    | some n => exact ⟨n, hr, hnext⟩
    | none =>
      -- the instants go on forever
      obtain ⟨s, hs, hlt⟩ := hunbounded
        (now - cronOffsetMs deps.toCronHost job.id (.cron expr tz staggerMs))
      have hle := hnext (s + cronOffsetMs deps.toCronHost job.id (.cron expr tz staggerMs))
        ⟨s, hs, rfl⟩
      omega
  · intro t
    obtain ⟨r, hr, hprevious⟩ := staggeredPrevious_isPrevious job.id hexpr hpos h (t + 1)
    have hcron : job.isCron = true := by
      unfold CronJob.isCron
      rw [hschedule]
    refine ⟨decide (r = some t), ?_, ?_⟩
    · unfold isStaggeredCronRunAtMs
      rw [hcron, hschedule, hr]
      rfl
    · rw [decide_eq_true_eq, hprevious.eq_some_iff (by omega), mem_shifted]

/-! ## A schedule that matches every second -/

/-- The whole seconds after the epoch. -/
def secondInstants : Set ℤ := {t | 0 < t ∧ t % 1000 = 0}

/-- An evaluator that matches every second, and a digest that staggers by seven milliseconds. -/
def everySecondDeps : CronDeps where
  localTimezone := "UTC".toList
  nextRun := fun _ _ t => .ok (some (max 1000 (t / 1000 * 1000 + 1000)))
  previousRun := fun _ _ t =>
    .ok (if 1000 < t then some ((t - 1) / 1000 * 1000) else none)
  parseDate := fun _ => none
  isoString := fun _ => []
  digestHead := fun _ => 7
  retry := none
  isTransientCronError := fun _ _ => false

def everySecondJob : CronJob where
  id := "job".toList
  enabled := none
  deleteAfterRun := none
  createdAtMs := none
  schedule := .cron "* * * * * *".toList none (some 100)
  sessionTarget := "isolated".toList
  payloadKind := .agentTurn
  state := {}

theorem evaluates_everySecond :
    Evaluates everySecondDeps.toCronHost "* * * * * *".toList "UTC".toList secondInstants where
  next := by
    intro t
    refine ⟨_, rfl, ⟨⟨?_, ?_⟩, ?_⟩, ?_⟩
    · omega
    · omega
    · show t < max 1000 (t / 1000 * 1000 + 1000)
      omega
    · intro m ⟨⟨hm, hmod⟩, hlt⟩
      show max 1000 (t / 1000 * 1000 + 1000) ≤ m
      omega
  previous := by
    intro t
    refine ⟨_, rfl, ?_⟩
    by_cases ht : 1000 < t
    · rw [if_pos ht]
      refine ⟨⟨⟨?_, ?_⟩, ?_⟩, ?_⟩
      · omega
      · omega
      · show (t - 1) / 1000 * 1000 < t
        omega
      · intro m ⟨⟨hm, hmod⟩, hlt⟩
        show m ≤ (t - 1) / 1000 * 1000
        omega
    · rw [if_neg ht]
      intro m ⟨hm, hmod⟩
      omega

theorem staggeredRuns_shifted_everySecond :
    ∃ n, computeStaggeredCronNextRunAtMs everySecondDeps.toCronHost everySecondJob.id
        everySecondJob.schedule 5 = .ok (some n) ∧
      IsLeast {m | m ∈ shifted secondInstants (cronOffsetMs everySecondDeps.toCronHost
        everySecondJob.id everySecondJob.schedule) ∧ 5 < m} n := by
  have hunbounded : ∀ t : ℤ, ∃ s ∈ secondInstants, t < s := by
    intro t
    refine ⟨max 1000 (t / 1000 * 1000 + 1000), ⟨?_, ?_⟩, ?_⟩ <;> omega
  exact (staggeredRuns_shifted rfl (by decide) (fun s hs => hs.1) hunbounded evaluates_everySecond
    5).1

end OpenClaw
