import OpenClaw.Cron.Markers
import OpenClaw.Cron.Startup

/-!
# The copies of a job

A job is in memory and on disk, where the two files each hold a part of it. What decides
whether a one-shot job runs is the same in all copies.
-/

namespace OpenClaw

open List CronStore

variable {deps : CronDeps} {host : CronHost} {id : Str} {s : CronStore} {jobs : List CronJob}

/-! ## Views -/

/-- What decides whether a one-shot job runs. -/
structure JobView where
  isAt : Bool
  isEnabled : Bool
  runningAtMs : Option ℤ
  errors : ℤ
deriving DecidableEq

variable (job : CronJob)

namespace CronJob

def view : JobView where
  isAt := job.isAt
  isEnabled := job.isEnabled
  runningAtMs := job.state.runningAtMs
  errors := job.state.consecutiveErrors.getD 0

/-- The part of the view that the config file holds. -/
def header : Str × Bool × Bool := (job.id, job.isAt, job.isEnabled)

@[simp]
theorem view_setNextRun (next : Option ℤ) : (job.setNextRun next).view = job.view :=
  rfl

@[simp]
theorem view_setRunning (runningAtMs : Option ℤ) :
    (job.setRunning runningAtMs).view = { job.view with runningAtMs := runningAtMs } := rfl

theorem view_markRunning (now : ℤ) :
    (markRunning now job).view = { job.view with runningAtMs := some now } := rfl

end CronJob

@[simp]
theorem isAt_coerceSchedule (enabled : Option Bool) :
    CronJob.isAt { job with schedule := CronStore.coerceSchedule host job.schedule, enabled := enabled } =
      job.isAt := by
  unfold CronJob.isAt CronStore.coerceSchedule
  cases job.schedule with
  | «at» time =>
    dsimp only
    split_ifs
    · rfl
    · cases parseAbsoluteTimeMs host (trim time) <;> rfl
  | every everyMs anchorMs => rfl
  | cron expr tz staggerMs => rfl

variable (previousJobs : List CronJob)

theorem view_invalidateStaleNextRun (job : CronJob) :
    (CronStore.invalidateStaleNextRun previousJobs job).view = job.view := by
  unfold CronStore.invalidateStaleNextRun
  split
  · rfl
  · split <;> rfl

/-- A load changes neither the view of a job nor its header. -/
theorem view_hydrate (job : CronJob) :
    (CronStore.hydrate host previousJobs job).view = job.view := by
  unfold CronStore.hydrate
  rw [view_invalidateStaleNextRun]
  have hisAt : CronJob.isAt { job with
      schedule := CronStore.coerceSchedule host job.schedule
      enabled := some (job.enabled.getD true) } = job.isAt := isAt_coerceSchedule ..
  simp only [CronJob.view, hisAt]
  rfl

variable {job : CronJob} {s' : CronStore} {now : ℤ} {fn : CronJob → ℤ → CronJob}

theorem header_of_view {job' : CronJob} (hid : job.id = job'.id) (hview : job.view = job'.view) :
    job.header = job'.header := by
  have hisAt : job.isAt = job'.isAt := congrArg JobView.isAt hview
  have henabled : job.isEnabled = job'.isEnabled := congrArg JobView.isEnabled hview
  unfold CronJob.header
  rw [hid, hisAt, henabled]

variable (job)

theorem header_hydrate : (CronStore.hydrate host previousJobs job).header = job.header :=
  header_of_view (hydrate_id ..) (view_hydrate ..)

theorem header_mergeStateFileEntry (entry : Option CronStateFileEntry) :
    (CronStore.mergeStateFileEntry job entry).header = job.header := by
  unfold CronStore.mergeStateFileEntry
  split
  · rfl
  · dsimp only
    split <;> rfl

theorem view_mergeStateFileEntry (entry : CronStateFileEntry) :
    (CronStore.mergeStateFileEntry job (some entry)).view =
      { job.view with
        runningAtMs := entry.state.runningAtMs
        errors := entry.state.consecutiveErrors.getD 0 } := by
  unfold CronStore.mergeStateFileEntry
  dsimp only
  split <;> rfl

variable {job}

/-! ## Saved jobs -/

/-- The config file has the headers of the jobs in memory. -/
structure IsSynced (s : CronStore) : Prop extends HasDistinctIds s where
  headers : ∀ jobs, s.jobs = some jobs → jobs.map CronJob.header = s.configFile.map CronJob.header

/-- Every copy of the job satisfies the property. -/
structure Holds (p : JobView → Prop) (id : Str) (s : CronStore) : Prop where
  inMemory : ∀ job ∈ jobsWith id (s.jobs.getD []), p job.view
  onDisk : ∀ job ∈ jobsWith id s.loadCronStore, p job.view

theorem find_last_of_distinct (hdistinct : (idsOf jobs).Nodup) (hmem : job ∈ jobs) :
    jobs.reverse.find? (·.id = job.id) = some job := by
  have hsome : (jobs.reverse.find? (·.id = job.id)).isSome = true := by
    rw [find?_isSome]
    exact ⟨job, mem_reverse.mpr hmem, by simp⟩
  obtain ⟨last, hlast⟩ := Option.isSome_iff_exists.mp hsome
  have hid : last.id = job.id := by simpa using find?_some hlast
  have hlastMem : last ∈ jobs := mem_reverse.mp (mem_of_find?_eq_some hlast)
  rw [hlast, inj_on_of_nodup_map hdistinct hlastMem hmem hid]

/-- The files that a save leaves have the views of the jobs in memory. -/
theorem view_saved (hdistinct : (idsOf jobs).Nodup)
    (hheaders : jobs.map CronJob.header = s'.configFile.map CronJob.header)
    (hstate : ∀ id, s'.stateFile id = (jobs.reverse.find? (·.id = id)).map fun job =>
      ⟨tryCronScheduleIdentity job, job.state⟩)
    (hjob : job ∈ s'.loadCronStore) :
    ∃ saved ∈ jobs, saved.id = job.id ∧ saved.view = job.view := by
  obtain ⟨stripped, hstripped, rfl⟩ := mem_map.mp hjob
  have hheader : stripped.header ∈ jobs.map CronJob.header := by
    rw [hheaders]
    exact mem_map_of_mem hstripped
  obtain ⟨saved, hsaved, heq⟩ := mem_map.mp hheader
  have hid : saved.id = stripped.id := congrArg Prod.fst heq
  have hisAt : saved.isAt = stripped.isAt := congrArg (fun header => header.2.1) heq
  have henabled : saved.isEnabled = stripped.isEnabled := congrArg (fun header => header.2.2) heq
  refine ⟨saved, hsaved, hid.trans (mergeStateFileEntry_id ..).symm, ?_⟩
  rw [hstate, ← hid, find_last_of_distinct hdistinct hsaved, Option.map_some,
    view_mergeStateFileEntry]
  unfold CronJob.view
  rw [hisAt, henabled]

variable {p q : JobView → Prop}

theorem holds_of_saved (hjobs : s'.jobs = some jobs) (hdistinct : (idsOf jobs).Nodup)
    (hheaders : jobs.map CronJob.header = s'.configFile.map CronJob.header)
    (hstate : ∀ id, s'.stateFile id = (jobs.reverse.find? (·.id = id)).map fun job =>
      ⟨tryCronScheduleIdentity job, job.state⟩)
    (h : ∀ job ∈ jobsWith id jobs, p job.view) : Holds p id s' where
  inMemory := by
    rw [hjobs]
    exact h
  onDisk := by
    intro job hjob
    have hmem := mem_jobsWith.mp hjob
    obtain ⟨saved, hsaved, hid, hview⟩ := view_saved hdistinct hheaders hstate hmem.1
    rw [← hview]
    exact h saved (mem_jobsWith.mpr ⟨hsaved, hid.trans hmem.2⟩)

theorem isSynced_persist (hjobs : s.jobs = some jobs) (hdistinct : (idsOf jobs).Nodup) :
    IsSynced s.persist where
  toHasDistinctIds := .persist hjobs hdistinct
  headers := by
    intro jobs' hjobs'
    rw [persist_jobs, hjobs] at hjobs'
    obtain rfl := Option.some.inj hjobs'
    unfold CronStore.persist
    rw [hjobs]
    dsimp only
    rw [map_map]
    rfl

theorem holds_persist (hjobs : s.jobs = some jobs) (hdistinct : (idsOf jobs).Nodup)
    (h : ∀ job ∈ jobsWith id jobs, p job.view) : Holds p id s.persist := by
  have hsaved : s.persist.jobs = some jobs := by
    rw [persist_jobs, hjobs]
  refine holds_of_saved hsaved hdistinct ((isSynced_persist hjobs hdistinct).headers _ hsaved) ?_ h
  intro id'
  unfold CronStore.persist
  rw [hjobs]

/-- Saving only the state keeps the config file, which has the headers already. -/
theorem holds_persistState (hjobs : s.jobs = some jobs) (hsynced : IsSynced s)
    (h : ∀ job ∈ jobsWith id jobs, p job.view) : Holds p id s.persistState := by
  have hsaved : s.persistState.jobs = some jobs := by
    show s.persist.jobs = some jobs
    rw [persist_jobs, hjobs]
  have hdistinct : (idsOf jobs).Nodup := by
    have := hsynced.memory
    rwa [hjobs] at this
  refine holds_of_saved hsaved hdistinct (hsynced.headers _ hjobs) ?_ h
  intro id'
  show s.persist.stateFile id' = _
  unfold CronStore.persist
  rw [hjobs]

theorem isSynced_persistState (hsynced : IsSynced s) : IsSynced s.persistState := by
  have hjobs : s.persistState.jobs = s.jobs := persist_jobs s
  refine ⟨⟨?_, hsynced.disk⟩, ?_⟩
  · rw [hjobs]
    exact hsynced.memory
  · intro jobs' hjobs'
    rw [hjobs] at hjobs'
    exact hsynced.headers jobs' hjobs'

/-! ## Loaded jobs -/

theorem Holds.reloaded (h : Holds p id s) : ∀ job ∈ jobsWith id (s.reloaded host), p job.view := by
  intro job hjob
  unfold CronStore.reloaded at hjob
  rw [jobsWith_map (hydrate_id host _), mem_map] at hjob
  obtain ⟨loaded, hloaded, rfl⟩ := hjob
  rw [view_hydrate]
  exact h.onDisk loaded hloaded

theorem Holds.current (h : Holds p id s) : ∀ job ∈ jobsWith id (s.current host), p job.view := by
  have hmemory := h.inMemory
  unfold CronStore.current
  cases hjobs : s.jobs with
  | none => exact h.reloaded
  | some jobs =>
    rw [hjobs] at hmemory
    exact hmemory

theorem headers_reloaded : (s.reloaded host).map CronJob.header = s.configFile.map CronJob.header := by
  unfold CronStore.reloaded CronStore.loadCronStore
  rw [map_map, map_map]
  refine map_congr_left fun job _ => ?_
  show (CronStore.hydrate host _ (CronStore.mergeStateFileEntry job _)).header = job.header
  rw [header_hydrate, header_mergeStateFileEntry]

theorem IsSynced.headers_current (h : IsSynced s) :
    (s.current host).map CronJob.header = s.configFile.map CronJob.header := by
  unfold CronStore.current
  cases hjobs : s.jobs with
  | none => exact headers_reloaded
  | some jobs => exact h.headers jobs hjobs

/-- A store in which only the jobs in memory differ. -/
theorem IsSynced.withJobs (h : IsSynced s) (hjobs : s'.jobs = some jobs)
    (hconfig : s'.configFile = s.configFile)
    (hheaders : jobs.map CronJob.header = s.configFile.map CronJob.header) : IsSynced s' := by
  have hids : idsOf jobs = idsOf s.configFile := by
    have := congrArg (List.map Prod.fst) hheaders
    rwa [map_map, map_map] at this
  refine ⟨h.load hjobs (hids ▸ h.disk) hconfig, ?_⟩
  intro jobs' hjobs'
  rw [hjobs] at hjobs'
  obtain rfl := Option.some.inj hjobs'
  rw [hconfig]
  exact hheaders

theorem Holds.withJobs (h : Holds p id s) (hjobs : s'.jobs = some jobs)
    (hload : s'.loadCronStore = s.loadCronStore) (hmemory : ∀ job ∈ jobsWith id jobs, p job.view) :
    Holds p id s' where
  inMemory := by
    rw [hjobs]
    exact hmemory
  onDisk := by
    rw [hload]
    exact h.onDisk

/-- All copies of the job satisfy the property, and the files agree on the jobs. -/
structure Sound (p : JobView → Prop) (id : Str) (s : CronStore) : Prop
    extends IsSynced s, Holds p id s

theorem sound_persist (hjobs : s.jobs = some jobs) (hdistinct : (idsOf jobs).Nodup)
    (h : ∀ job ∈ jobsWith id jobs, p job.view) : Sound p id s.persist where
  toIsSynced := isSynced_persist hjobs hdistinct
  toHolds := holds_persist hjobs hdistinct h

theorem Sound.imp (h : Sound p id s) (hpq : ∀ v, p v → q v) : Sound q id s where
  toIsSynced := h.toIsSynced
  inMemory job hjob := hpq _ (h.inMemory job hjob)
  onDisk job hjob := hpq _ (h.onDisk job hjob)

theorem Sound.load (h : Sound p id s) (deps : CronDeps) (now : ℤ) :
    Sound p id (s.ensureLoaded deps false true now) where
  toIsSynced := h.toIsSynced.withJobs (ensureLoaded_skip_jobs deps s now)
    (configFile_ensureLoaded ..) h.headers_current
  toHolds := h.toHolds.withJobs (ensureLoaded_skip_jobs deps s now)
    (loadCronStore_ensureLoaded ..) h.current

theorem Sound.reload (h : Sound p id s) (deps : CronDeps) (now : ℤ) :
    Sound p id (s.ensureLoaded deps true true now) where
  toIsSynced := h.toIsSynced.withJobs (ensureLoaded_force_jobs deps s now)
    (configFile_ensureLoaded ..) headers_reloaded
  toHolds := h.toHolds.withJobs (ensureLoaded_force_jobs deps s now)
    (loadCronStore_ensureLoaded ..) h.reloaded

theorem Sound.unload (h : Sound p id s) : Sound p id { s with jobs := none } where
  memory := nodup_nil
  disk := h.disk
  headers _ hjobs := absurd hjobs (by simp)
  inMemory job hjob := absurd hjob not_mem_nil
  onDisk := h.onDisk

/-! ## Walks -/

/-- A walk at this time leaves the marker of the job alone, if it is enabled. -/
def JobView.NotStuck (v : JobView) (nowMs : ℤ) : Prop :=
  v.isEnabled = true → ∀ runningAt, v.runningAtMs = some runningAt → nowMs - runningAt ≤ stuckRunMs

/-- A property of one-shot jobs that a disabled job keeps without its marker. -/
structure IsOneShot (p : JobView → Prop) : Prop where
  isAt : ∀ v, p v → v.isAt = true
  cleared : ∀ v, p v → v.isEnabled = false → p { v with runningAtMs := none }

theorem schedule_of_isAt (h : job.isAt = true) : ∃ time, job.schedule = .at time := by
  unfold CronJob.isAt at h
  cases hschedule : job.schedule with
  | «at» time => exact ⟨time, rfl⟩
  | every everyMs anchorMs => simp [hschedule] at h
  | cron expr tz staggerMs => simp [hschedule] at h

/-- The time of a one-shot job always has a value. -/
theorem view_recomputeJobNextRunAtMs (h : job.isAt = true) (now : ℤ) :
    (recomputeJobNextRunAtMs deps job now).view = job.view := by
  obtain ⟨time, hschedule⟩ := schedule_of_isAt h
  have hok : ∃ next, computeJobNextRunAtMs deps job now = .ok next := by
    unfold computeJobNextRunAtMs
    split
    · exact ⟨none, rfl⟩
    · rw [hschedule]
      dsimp only
      split
      · split <;> exact ⟨_, rfl⟩
      · exact ⟨_, rfl⟩
  obtain ⟨next, hnext⟩ := hok
  unfold recomputeJobNextRunAtMs
  rw [hnext]
  rfl

theorem view_normalizeJobTickState (hat : job.isAt = true) (hstays : job.view.NotStuck now) :
    (normalizeJobTickState job now).1.view =
      if job.isEnabled then job.view else { job.view with runningAtMs := none } := by
  obtain ⟨time, hschedule⟩ := schedule_of_isAt hat
  have hanchor : normalizeAnchor job now = job := by
    unfold normalizeAnchor
    rw [hschedule]
  unfold normalizeJobTickState
  rw [hanchor]
  dsimp only
  cases henabled : job.isEnabled with
  | false => rfl
  | true =>
    have hfalse : ¬ (!true) = true := by simp
    rw [if_neg hfalse, if_pos rfl]
    have hvalid : ∀ valid : CronJob, valid = (if hasScheduledNextRunAtMs job.state.nextRunAtMs = true
        then job else job.setNextRun none) →
        valid.view = job.view ∧ valid.state.runningAtMs = job.state.runningAtMs := by
      rintro valid rfl
      split
      · exact ⟨rfl, rfl⟩
      · exact ⟨rfl, rfl⟩
    obtain ⟨hview, hrunning⟩ := hvalid _ rfl
    split
    · exact hview
    · rename_i runningAt hmarked
      have := hstays henabled runningAt (hrunning.symm.trans hmarked)
      rw [if_neg (by omega)]
      exact hview

theorem view_walkJob (hfn : Recomputes deps fn)
    (hat : job.isAt = true) (hstays : job.view.NotStuck now) : (walkJob fn now job).view =
      if job.isEnabled then job.view else { job.view with runningAtMs := none } := by
  have hnormalized := view_normalizeJobTickState hat hstays
  unfold walkJob
  split
  · rename_i walked heq
    rw [heq] at hnormalized
    exact hnormalized
  · rename_i walked heq
    rw [heq] at hnormalized
    have hwalkedAt : walked.isAt = true := by
      have : walked.view.isAt = job.view.isAt := by
        rw [hnormalized]
        split <;> rfl
      exact this.trans hat
    rcases hfn walked now with hsame | hsame
    · rw [hsame, view_recomputeJobNextRunAtMs hwalkedAt]
      exact hnormalized
    · rw [hsame]
      exact hnormalized

theorem IsOneShot.walk (hp : IsOneShot p) (hfn : Recomputes deps fn)
    (h : ∀ job ∈ jobsWith id jobs, p job.view)
    (hstays : ∀ job ∈ jobsWith id jobs, job.view.NotStuck now) :
    ∀ job ∈ jobsWith id (walkSchedulableJobs fn now jobs), p job.view := by
  intro job hjob
  unfold walkSchedulableJobs at hjob
  rw [jobsWith_map (isFixed_id.walkJob hfn now), mem_map] at hjob
  obtain ⟨before, hbefore, rfl⟩ := hjob
  have hview := h before hbefore
  rw [view_walkJob hfn (hp.isAt _ hview) (hstays before hbefore)]
  split
  · exact hview
  · rename_i hdisabled
    exact hp.cleared _ hview (Bool.eq_false_iff.mpr hdisabled)

/-- What the sections without executions do: the jobs are walked, and saved if they differ. -/
theorem Sound.walk (h : Sound p id s) (hp : IsOneShot p)
    (hfn : Recomputes deps fn) (hjobs : s.jobs = some jobs)
    (hstays : ∀ job ∈ jobsWith id jobs, job.view.NotStuck now) :
    Sound p id (if (s.mapJobs (walkSchedulableJobs fn now)).jobs = s.jobs then s
      else (s.mapJobs (walkSchedulableJobs fn now)).persist) := by
  split
  · exact h
  · have hdistinct := h.memory
    have hmemory := h.inMemory
    rw [hjobs] at hdistinct hmemory
    have hwalked : (s.mapJobs (walkSchedulableJobs fn now)).jobs =
        some (walkSchedulableJobs fn now jobs) := by
      rw [mapJobs_jobs, hjobs]
      rfl
    refine sound_persist hwalked ?_ ?_
    · rw [idsOf_walk hfn]
      exact hdistinct
    · exact hp.walk hfn hmemory hstays

theorem Sound.read (h : Sound p id s) (hp : IsOneShot p) {loadNow walkNow : ℤ}
    (hstays : ∀ job ∈ jobsWith id (s.current deps.toCronHost), job.view.NotStuck walkNow) :
    Sound p id (ensureLoadedForRead deps s loadNow walkNow) := by
  have hrecomputes : Recomputes deps (maintainJob deps {}) := recomputes_maintainJob {}
  have hjobs := ensureLoaded_skip_jobs deps s loadNow
  exact (h.load deps loadNow).walk hp hrecomputes hjobs hstays

/-! ## Results -/

/-- With distinct ids, a job is alone with its id. -/
theorem jobsWith_of_find (hdistinct : (idsOf jobs).Nodup)
    (hfound : findJob jobs id = some job) : jobsWith id jobs = [job] := by
  have hid : job.id = id := findJob_id hfound
  have hmem : job ∈ jobsWith id jobs := mem_jobsWith.mpr ⟨mem_of_find?_eq_some hfound, hid⟩
  have hall : ∀ other ∈ jobsWith id jobs, other = job := by
    intro other hother
    obtain ⟨hotherMem, hotherId⟩ := mem_jobsWith.mp hother
    exact inj_on_of_nodup_map hdistinct hotherMem (mem_jobsWith.mp hmem).1
      (hotherId.trans hid.symm)
  have hnodup : (jobsWith id jobs).Nodup := (List.Nodup.of_map _ hdistinct).filter _
  have hsame := eq_replicate_of_mem hall
  have hone : (jobsWith id jobs).length = 1 := by
    have hle : (jobsWith id jobs).length ≤ 1 := nodup_replicate.mp (hsame ▸ hnodup)
    have hpos := length_pos_of_mem hmem
    omega
  rw [hsame, hone]
  rfl

theorem jobsWith_updateJob_self {f : CronJob → CronJob} (hdistinct : (idsOf jobs).Nodup)
    (hf : ∀ job, job.id = id → (f job).id = id)
    (hfound : findJob jobs id = some job) : jobsWith id (updateJob id f jobs) = [f job] := by
  have hid : (f job).id = id := hf job (findJob_id hfound)
  have hmem : f job ∈ jobsWith id (updateJob id f jobs) :=
    mem_jobsWith.mpr ⟨mem_updateJob_of_find hfound, hid⟩
  have hids : (idsOf (updateJob id f jobs)).Nodup := by
    rw [idsOf_updateJob hf]
    exact hdistinct
  have hfirst : findJob (updateJob id f jobs) id = some (f job) := by
    rw [findJob_eq]
    cases hjobs : jobsWith id (updateJob id f jobs) with
    | nil => simp [hjobs] at hmem
    | cons first rest =>
      have hfirst : first ∈ jobsWith id (updateJob id f jobs) := by simp [hjobs]
      rw [head?_cons, inj_on_of_nodup_map hids (mem_jobsWith.mp hfirst).1
        (mem_jobsWith.mp hmem).1 ((mem_jobsWith.mp hfirst).2.trans hid.symm)]
  exact jobsWith_of_find hids hfirst

theorem jobsWith_removeJob_self : jobsWith id (removeJob id jobs) = [] := by
  unfold jobsWith removeJob
  rw [filter_filter, filter_eq_nil_iff]
  simp

/-- What a result leaves of the job. -/
theorem jobsWith_applyResultTo_self (hdistinct : (idsOf jobs).Nodup) {result : CronRunResult}
    (hjob : job ∈ jobsWith id (applyResultTo deps id result false jobs)) :
    ∃ before ∈ jobsWith id jobs, (applyJobResult deps before result false).2 = false ∧
      job = (applyJobResult deps before result false).1 := by
  unfold applyResultTo at hjob
  cases hfound : findJob jobs id with
  | none =>
    rw [hfound] at hjob
    rw [findJob_eq, head?_eq_none_iff] at hfound
    simp [hfound] at hjob
  | some before =>
    rw [hfound] at hjob
    dsimp only at hjob
    split at hjob
    · rw [jobsWith_removeJob_self] at hjob
      exact absurd hjob not_mem_nil
    · rename_i hkept
      rw [jobsWith_updateJob_self hdistinct (fun job hid => (applyJobResult_id ..).trans hid) hfound,
        mem_singleton] at hjob
      refine ⟨before, ?_, Bool.eq_false_iff.mpr hkept, hjob⟩
      rw [jobsWith_of_find hdistinct hfound]
      exact mem_singleton_self before

/-- What the outcomes of a batch leave of a job that is in it. -/
theorem jobsWith_applyOutcomes_self (hdistinct : (idsOf jobs).Nodup)
    {outcomes : List (Str × CronRunResult)} {result : CronRunResult}
    (hmem : (id, result) ∈ outcomes) (hnodup : (outcomes.map Prod.fst).Nodup)
    (hjob : job ∈ jobsWith id (outcomes.foldl (fun jobs outcome =>
      applyResultTo deps outcome.1 outcome.2 false jobs) jobs)) :
    ∃ before ∈ jobsWith id jobs, (applyJobResult deps before result false).2 = false ∧
      job = (applyJobResult deps before result false).1 := by
  obtain ⟨earlier, later, rfl⟩ := append_of_mem hmem
  rw [map_append, map_cons] at hnodup
  have hdisjoint := nodup_append.mp hnodup
  have hearlier : ∀ outcome ∈ earlier, outcome.1 ≠ id := by
    intro outcome houtcome
    exact hdisjoint.2.2 _ (mem_map_of_mem houtcome) id mem_cons_self
  have hlater : ∀ outcome ∈ later, outcome.1 ≠ id := by
    intro outcome houtcome heq
    have hmem : outcome.1 ∈ later.map Prod.fst := mem_map_of_mem houtcome
    rw [heq] at hmem
    exact (nodup_cons.mp hdisjoint.2.1).1 hmem
  rw [foldl_append, foldl_cons, jobsWith_applyOutcomes hlater] at hjob
  rw [← jobsWith_applyOutcomes hearlier jobs]
  exact jobsWith_applyResultTo_self (hdistinct.sublist (idsOf_applyOutcomes_sublist ..)) hjob

/-! ## Deferrals -/

theorem idsOf_deferJobs (staggerMs baseNow offset : ℤ) (deferredJobs : List StartupDeferredJob)
    (jobs : List CronJob) : idsOf (deferJobs staggerMs baseNow offset deferredJobs jobs) = idsOf jobs := by
  induction deferredJobs generalizing offset jobs with
  | nil => rfl
  | cons deferred rest ih =>
    unfold deferJobs
    split
    · rw [ih]
      apply idsOf_updateJob
      intro job hid
      exact hid
    · exact ih ..

/-- A deferral changes the time of the next run only. -/
theorem view_deferJobs (staggerMs baseNow offset : ℤ) (deferredJobs : List StartupDeferredJob)
    (h : ∀ job ∈ jobsWith id jobs, p job.view) :
    ∀ job ∈ jobsWith id (deferJobs staggerMs baseNow offset deferredJobs jobs), p job.view := by
  induction deferredJobs generalizing offset jobs with
  | nil => exact h
  | cons deferred rest ih =>
    unfold deferJobs
    split
    · refine ih _ fun job hjob => ?_
      obtain ⟨hmem, hid⟩ := mem_jobsWith.mp hjob
      rcases mem_updateJob hmem with hsame | ⟨before, hbefore, rfl⟩
      · exact h job (mem_jobsWith.mpr ⟨hsame, hid⟩)
      · rw [CronJob.view_setNextRun]
        exact h before (mem_jobsWith.mpr ⟨mem_of_find?_eq_some hbefore, hid⟩)
    · exact ih _ h

end OpenClaw
