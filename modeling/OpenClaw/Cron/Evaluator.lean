import OpenClaw.Cron.Jobs

/-!
# What the schedule of a job evaluates to

The assumption on the evaluator of cron expressions, and what follows for the staggered
schedule of a job: it has a next instant, or none, or always throws.
-/

namespace OpenClaw

open Calendar

variable (host : CronHost)

/-- A function of the clock that always throws or gives the next member of a set. -/
def IsEvaluator (next : ℤ → Except Str (Option ℤ)) : Prop :=
  (∃ err, ∀ t, next t = .error err) ∨
    ∃ instants : Set ℤ, ∀ t, ∃ r, next t = .ok r ∧ IsNext instants t r

section

variable {next : ℤ → Except Str (Option ℤ)} {s t n m : ℤ}

theorem IsEvaluator.lt (h : IsEvaluator next) (hn : next t = .ok (some n)) : t < n := by
  rcases h with ⟨err, herr⟩ | ⟨instants, hnext⟩
  · exact absurd ((herr t).symm.trans hn) (by simp)
  · obtain ⟨r, hr, hinst⟩ := hnext t
    rw [hn] at hr
    obtain rfl := Except.ok.inj hr
    exact hinst.lt

/-- What follows later does not come before what follows now, and something does. -/
theorem IsEvaluator.exists_le (h : IsEvaluator next) (hst : s ≤ t) (hm : next t = .ok (some m)) :
    ∃ n ≤ m, next s = .ok (some n) := by
  rcases h with ⟨err, herr⟩ | ⟨instants, hnext⟩
  · exact absurd ((herr t).symm.trans hm) (by simp)
  · obtain ⟨r, hr, hinst⟩ := hnext t
    rw [hm] at hr
    obtain rfl := Except.ok.inj hr
    obtain ⟨r', hr', hinst'⟩ := hnext s
    cases r' with
    | none => exact absurd hinst.lt (not_lt.mpr (hinst'.none_later hst m hinst.mem))
    | some n => exact ⟨n, hinst'.le_of_le hinst hst, hr'⟩

theorem IsEvaluator.le_of_le (h : IsEvaluator next) (hst : s ≤ t) (hn : next s = .ok (some n))
    (hm : next t = .ok (some m)) : n ≤ m := by
  obtain ⟨n', hle, hn'⟩ := h.exists_le hst hm
  rw [hn] at hn'
  have hsame : n = n' := Option.some.inj (Except.ok.inj hn')
  omega

end

/-- The evaluator returns the least matching instant strictly after its argument, or
throws for an expression that it cannot read. -/
def CronHost.Lawful : Prop := ∀ expr tz, IsEvaluator (host.nextRun expr tz)

variable {host}

theorem cronNextRunAtMs_eq {expr tz : Str} {instants : Set ℤ} {t : ℤ} {r : Option ℤ}
    (h : host.nextRun expr tz t = .ok r) (hnext : IsNext instants t r) :
    cronNextRunAtMs host expr tz t = .ok r := by
  unfold cronNextRunAtMs
  rw [h]
  cases r with
  | none => rfl
  | some next =>
    have hlt : t < next := hnext.lt
    show (if t < next then _ else _) = _
    rw [if_pos hlt]
    rfl

theorem IsEvaluator.cronNext {expr tz : Str} (h : IsEvaluator (host.nextRun expr tz)) :
    IsEvaluator (cronNextRunAtMs host expr tz) := by
  rcases h with ⟨err, herr⟩ | ⟨instants, hnext⟩
  · refine .inl ⟨err, fun t => ?_⟩
    unfold cronNextRunAtMs
    rw [herr t]
    rfl
  · refine .inr ⟨instants, fun t => ?_⟩
    obtain ⟨r, hr, hinst⟩ := hnext t
    exact ⟨r, cronNextRunAtMs_eq hr hinst, hinst⟩

theorem isEvaluator_computeNextRunAtMs (hhost : host.Lawful) (expr : Str) (tz : Option Str)
    (staggerMs : Option ℤ) : IsEvaluator (computeNextRunAtMs host (.cron expr tz staggerMs)) := by
  by_cases hexpr : trim expr = []
  · refine .inr ⟨∅, fun t => ⟨none, ?_, fun m hm => absurd hm (by simp)⟩⟩
    simp [computeNextRunAtMs, hexpr]
  · have heq : computeNextRunAtMs host (.cron expr tz staggerMs) =
        cronNextRunAtMs host (trim expr) (resolveCronTimezone host tz) := by
      ext1 t
      simp [computeNextRunAtMs, hexpr]
    rw [heq]
    exact (hhost _ _).cronNext

/-- The first attempt finds the staggered slot. -/
theorem staggeredNextLoop_eq {next : ℤ → Except Str (Option ℤ)} {offsetMs t : ℤ} {r : Option ℤ}
    {instants : Set ℤ} (attempts : ℕ) (h : next (max 0 (t - offsetMs)) = .ok r)
    (hnext : IsNext instants (max 0 (t - offsetMs)) r) :
    staggeredNextLoop next offsetMs t (attempts + 1) (max 0 (t - offsetMs)) =
      .ok (r.map (· + offsetMs)) := by
  unfold staggeredNextLoop
  rw [h]
  cases r with
  | none => rfl
  | some base =>
    have hlt : max 0 (t - offsetMs) < base := hnext.lt
    have hbase : t < base + offsetMs := by omega
    show (if t < base + offsetMs then _ else _) = _
    rw [if_pos hbase]
    rfl

theorem IsEvaluator.staggered {next : ℤ → Except Str (Option ℤ)} (h : IsEvaluator next)
    (offsetMs : ℤ) (attempts : ℕ) : IsEvaluator fun t =>
      staggeredNextLoop next offsetMs t (attempts + 1) (max 0 (t - offsetMs)) := by
  rcases h with ⟨err, herr⟩ | ⟨instants, hnext⟩
  · refine .inl ⟨err, fun t => ?_⟩
    show staggeredNextLoop next offsetMs t (attempts + 1) _ = _
    unfold staggeredNextLoop
    rw [herr]
    rfl
  · -- the slots of the window that has begun after the epoch
    refine .inr ⟨Set.image (· + offsetMs) (instants ∩ {m | 0 < m}), fun t => ?_⟩
    obtain ⟨r, hr, hinst⟩ := hnext (max 0 (t - offsetMs))
    refine ⟨r.map (· + offsetMs), staggeredNextLoop_eq attempts hr hinst, ?_⟩
    have hkept : IsNext (instants ∩ {m | 0 < m}) (max 0 (t - offsetMs)) r :=
      hinst.inter fun m _ hm => lt_of_le_of_lt (le_max_left _ _) hm
    refine hkept.map (fun a b hab => by simpa using hab) fun m hm => ?_
    have hpos : 0 < m := hm.2
    show t < m + offsetMs ↔ max 0 (t - offsetMs) < m
    omega

theorem isEvaluator_computeStaggeredCronNextRunAtMs (hhost : host.Lawful) {job : CronJob}
    (hcron : job.isCron = true) :
    IsEvaluator (computeStaggeredCronNextRunAtMs host job.id job.schedule) := by
  have hbase : IsEvaluator (computeNextRunAtMs host job.schedule) := by
    unfold CronJob.isCron at hcron
    split at hcron
    · rename_i hschedule
      rw [hschedule]
      exact isEvaluator_computeNextRunAtMs hhost ..
    · exact nomatch hcron
  by_cases hoffset : cronOffsetMs host job.id job.schedule ≤ 0
  · have heq : computeStaggeredCronNextRunAtMs host job.id job.schedule =
        computeNextRunAtMs host job.schedule := by
      ext1 t
      simp [computeStaggeredCronNextRunAtMs, hoffset]
    rw [heq]
    exact hbase
  · have heq : computeStaggeredCronNextRunAtMs host job.id job.schedule = fun t =>
        staggeredNextLoop (computeNextRunAtMs host job.schedule)
          (cronOffsetMs host job.id job.schedule) t (3 + 1)
          (max 0 (t - cronOffsetMs host job.id job.schedule)) := by
      ext1 t
      simp [computeStaggeredCronNextRunAtMs, hoffset]
    rw [heq]
    exact hbase.staggered _ 3

variable {deps : CronDeps}

theorem computeJobNextRunAtMs_cron {job : CronJob} (henabled : job.isEnabled = true)
    (hcron : job.isCron = true) (t : ℤ) : computeJobNextRunAtMs deps job t = (do
      let next ← computeStaggeredCronNextRunAtMs deps.toCronHost job.id job.schedule t
      if next.isSome then return next
      computeStaggeredCronNextRunAtMs deps.toCronHost job.id job.schedule (t / 1000 * 1000 + 1000)) := by
  unfold CronJob.isCron at hcron
  split at hcron
  · rename_i hschedule
    simp only [computeJobNextRunAtMs, henabled, hschedule]
    rfl
  · exact nomatch hcron

/-- The next run of an enabled cron job is that of its staggered schedule. -/
theorem computeJobNextRunAtMs_eq (hdeps : deps.Lawful) {job : CronJob}
    (henabled : job.isEnabled = true) (hcron : job.isCron = true) (t : ℤ) :
    computeJobNextRunAtMs deps job t =
      computeStaggeredCronNextRunAtMs deps.toCronHost job.id job.schedule t := by
  rw [computeJobNextRunAtMs_cron henabled hcron]
  rcases isEvaluator_computeStaggeredCronNextRunAtMs hdeps hcron with
    ⟨err, herr⟩ | ⟨instants, hnext⟩
  · rw [herr t]
    rfl
  · obtain ⟨r, hr, hinst⟩ := hnext t
    rw [hr]
    cases r with
    | some next => rfl
    | none =>
      -- nothing follows from the next second either
      obtain ⟨r', hr', hinst'⟩ := hnext (t / 1000 * 1000 + 1000)
      have hlater : IsNext instants (t / 1000 * 1000 + 1000) none := hinst.none_later (by omega)
      rw [hinst'.unique hlater] at hr'
      exact hr'

end OpenClaw
