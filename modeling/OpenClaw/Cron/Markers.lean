import Mathlib.Data.List.Nodup
import OpenClaw.Cron.Operations

/-!
# Running markers

Which operations leave the running marker of a job where it is, in memory and on disk.
-/

namespace OpenClaw

open List CronStore

variable {deps : CronDeps} {id id' : Str} {s : CronStore} {jobs : List CronJob}

/-! ## Marked jobs -/

/-- Every job with this id bears a marker. -/
def MarkedIn (id : Str) (jobs : List CronJob) : Prop :=
  ∀ job ∈ jobsWith id jobs, job.state.runningAtMs.isSome = true

/-- A marker that a walk at this time does not clear. -/
structure StaysMarked (job : CronJob) (nowMs : ℤ) : Prop where
  enabled : job.isEnabled = true
  notStuck : ∀ runningAt, job.state.runningAtMs = some runningAt → nowMs - runningAt ≤ stuckRunMs

variable {f : CronJob → CronJob} {job : CronJob} {fn : CronJob → ℤ → CronJob}
  {now loadNow walkNow preflightNow : ℤ} {s' : CronStore}

theorem MarkedIn.map (h : MarkedIn id jobs) (hid : ∀ job, (f job).id = job.id)
    (hf : ∀ job ∈ jobsWith id jobs, job.state.runningAtMs.isSome = true →
      (f job).state.runningAtMs.isSome = true) : MarkedIn id (jobs.map f) := by
  intro job hjob
  rw [jobsWith_map hid, mem_map] at hjob
  obtain ⟨before, hbefore, rfl⟩ := hjob
  exact hf before hbefore (h before hbefore)

theorem MarkedIn.congr {jobs' : List CronJob} (h : MarkedIn id jobs)
    (heq : jobsWith id jobs' = jobsWith id jobs) : MarkedIn id jobs' := by
  unfold MarkedIn
  rw [heq]
  exact h

theorem MarkedIn.removeJob (h : MarkedIn id jobs) : MarkedIn id (removeJob id' jobs) := by
  intro job hjob
  have hmem := mem_jobsWith.mp hjob
  exact h job (mem_jobsWith.mpr ⟨mem_of_mem_filter hmem.1, hmem.2⟩)

theorem mem_updateJob (h : job ∈ updateJob id' f jobs) :
    job ∈ jobs ∨ ∃ before, findJob jobs id' = some before ∧ job = f before := by
  induction jobs with
  | nil => exact .inl h
  | cons first rest ih =>
    unfold updateJob at h
    by_cases hfirst : first.id = id'
    · rw [if_pos hfirst, mem_cons] at h
      rcases h with rfl | h
      · exact .inr ⟨first, by simp [findJob, hfirst], rfl⟩
      · exact .inl (mem_cons_of_mem _ h)
    · rw [if_neg hfirst, mem_cons] at h
      rcases h with rfl | h
      · exact .inl mem_cons_self
      · rcases ih h with hmem | ⟨before, hbefore, rfl⟩
        · exact .inl (mem_cons_of_mem _ hmem)
        · refine .inr ⟨before, ?_, rfl⟩
          unfold findJob at hbefore ⊢
          rw [find?_cons_of_neg (by simpa using hfirst)]
          exact hbefore

/-- The first job with an id gets another value, which bears a marker if it is this job. -/
theorem MarkedIn.updateJob (h : MarkedIn id jobs)
    (hf : ∀ job, findJob jobs id' = some job → (f job).id = id →
      (f job).state.runningAtMs.isSome = true) : MarkedIn id (updateJob id' f jobs) := by
  intro job hjob
  have hmem := mem_jobsWith.mp hjob
  rcases mem_updateJob hmem.1 with hbefore | ⟨before, hbefore, rfl⟩
  · exact h job (mem_jobsWith.mpr ⟨hbefore, hmem.2⟩)
  · exact hf before hbefore hmem.2

theorem walkJob_runningAtMs (hfn : Recomputes deps fn) (h : StaysMarked job now) :
    (walkJob fn now job).state.runningAtMs = job.state.runningAtMs := by
  set valid := if hasScheduledNextRunAtMs (normalizeAnchor job now).state.nextRunAtMs = true then
    normalizeAnchor job now else (normalizeAnchor job now).setNextRun none with hvalid
  have hrunning : valid.state.runningAtMs = job.state.runningAtMs := by
    rw [hvalid]
    split
    · rw [normalizeAnchor_state]
    · show (normalizeAnchor job now).state.runningAtMs = job.state.runningAtMs
      rw [normalizeAnchor_state]
  have hnormalized : normalizeJobTickState job now = (valid, false) := by
    unfold normalizeJobTickState
    dsimp only
    rw [normalizeAnchor_isEnabled, h.enabled, ← hvalid]
    have hfalse : ¬ (!true) = true := by simp
    rw [if_neg hfalse]
    split
    · rfl
    · rename_i runningAt hrunningAt
      have := h.notStuck runningAt (hrunning ▸ hrunningAt)
      rw [if_neg (by omega)]
  unfold walkJob
  rw [hnormalized]
  dsimp only
  rcases hfn valid now with hsame | hsame
  · rw [hsame, recompute_runningAtMs, hrunning]
  · rw [hsame, hrunning]

theorem MarkedIn.walk (hfn : Recomputes deps fn)
    (h : MarkedIn id jobs) (hstays : ∀ job ∈ jobsWith id jobs, StaysMarked job now) :
    MarkedIn id (walkSchedulableJobs fn now jobs) :=
  h.map (isFixed_id.walkJob hfn now) fun job hjob hmarked => by
    rwa [walkJob_runningAtMs hfn (hstays job hjob)]

/-! ## Marked stores -/

/-- The job is marked in memory and on disk. -/
structure Marked (s : CronStore) (id : Str) : Prop where
  memory : MarkedIn id (s.jobs.getD [])
  disk : MarkedIn id s.loadCronStore

namespace CronStore

theorem runningAtMs_mergeStateFileEntry (job : CronJob) (entry : CronStateFileEntry) :
    (mergeStateFileEntry job (some entry)).state.runningAtMs = entry.state.runningAtMs := by
  unfold mergeStateFileEntry
  dsimp only
  split <;> rfl

theorem runningAtMs_hydrate (host : CronHost) (previousJobs : List CronJob) (job : CronJob) :
    (hydrate host previousJobs job).state.runningAtMs = job.state.runningAtMs := by
  unfold hydrate invalidateStaleNextRun
  split
  · rfl
  · split <;> rfl

/-- What the files give after saving has the states of the jobs saved. -/
theorem markedIn_loadCronStore_persist (hjobs : s.jobs = some jobs) (h : MarkedIn id jobs) :
    MarkedIn id s.persist.loadCronStore := by
  unfold persist loadCronStore
  rw [hjobs]
  dsimp only
  intro job hjob
  obtain ⟨hmem, hid⟩ := mem_jobsWith.mp hjob
  simp only [map_map, mem_map, Function.comp_apply] at hmem
  obtain ⟨saved, hsaved, rfl⟩ := hmem
  have hsavedId : saved.id = id := by
    rw [← hid, mergeStateFileEntry_id]
  obtain ⟨last, hlast⟩ : ∃ last, jobs.reverse.find? (·.id = saved.id) = some last := by
    have hsome : (jobs.reverse.find? (·.id = saved.id)).isSome = true := by
      rw [find?_isSome]
      exact ⟨saved, mem_reverse.mpr hsaved, by simp⟩
    exact Option.isSome_iff_exists.mp hsome
  have hlastId : last.id = saved.id := by simpa using find?_some hlast
  have hlastMem : last ∈ jobs := mem_reverse.mp (mem_of_find?_eq_some hlast)
  show (mergeStateFileEntry { saved with state := {} } (Option.map _
    (jobs.reverse.find? (·.id = saved.id)))).state.runningAtMs.isSome = true
  rw [hlast, Option.map_some, runningAtMs_mergeStateFileEntry]
  exact h last (mem_jobsWith.mpr ⟨hlastMem, hlastId.trans hsavedId⟩)

theorem markedIn_reloaded {host : CronHost} (h : MarkedIn id s.loadCronStore) :
    MarkedIn id (s.reloaded host) :=
  h.map (hydrate_id host _) fun job _ hmarked => by rwa [runningAtMs_hydrate]

/-- A load does not touch the files. -/
@[simp]
theorem loadCronStore_ensureLoaded (forceReload skipRecompute : Bool) (now : ℤ) :
    (s.ensureLoaded deps forceReload skipRecompute now).loadCronStore = s.loadCronStore := by
  unfold ensureLoaded
  split <;> rfl

@[simp]
theorem loadCronStore_mapJobs (f : List CronJob → List CronJob) :
    (s.mapJobs f).loadCronStore = s.loadCronStore := rfl

end CronStore

theorem marked_persist (hjobs : s.jobs = some jobs) (h : MarkedIn id jobs) :
    Marked s.persist id where
  memory := by
    rw [persist_jobs, hjobs]
    exact h
  disk := markedIn_loadCronStore_persist hjobs h

theorem Marked.reloaded (h : Marked s id) : MarkedIn id (s.reloaded deps.toCronHost) :=
  markedIn_reloaded h.disk

theorem Marked.current (h : Marked s id) : MarkedIn id (s.current deps.toCronHost) := by
  have hmemory := h.memory
  unfold CronStore.current
  cases hjobs : s.jobs with
  | none => exact h.reloaded
  | some jobs =>
    rw [hjobs] at hmemory
    exact hmemory

/-! ## Operations -/

namespace CronOperation

/-- The operation ends an execution of the job with this id. -/
def Ends (id : Str) : CronOperation → Prop
  | finishRun id' _ _ _ _ _ => id' = id
  | applyOutcomes outcomes _ _ => ∃ outcome ∈ outcomes, outcome.1 = id
  | _ => False

/-- The operation, which works on this job, does not clear its marker: every walk finds the
job enabled and its marker not stuck, an update neither writes the marker nor leaves the job
disabled, and a manual run does not find a job that is not supported. -/
def KeepsMarker (deps : CronDeps) (s : CronStore) (job : CronJob) : CronOperation → Prop
  | read _ walkNow | applyOutcomes _ _ walkNow => StaysMarked job walkNow
  | add input _ createNow walkNow =>
    (createJob deps input createNow).isSome → StaysMarked job walkNow
  | update id patch _ nowMs => job.id = id → (patchedJob deps job patch nowMs).isSome →
    patch.state.runningAtMs ≠ some none ∧
      (patch.schedule.isSome ∨ patch.enabled.isSome → (mergedJob job patch).isEnabled = true)
  | remove _ _ | reserve _ _ => True
  | preflight id _ _ _ walkNow _ endWalkNow => StaysMarked job walkNow ∧
    ((findJob (s.current deps.toCronHost) id).any (!isSupportedJobSpec ·) →
      job.id ≠ id ∧ StaysMarked (walkJob (maintainJob deps {}) walkNow job) endWalkNow)
  | finishRun id _ _ _ _ walkNow =>
    findJob (s.current deps.toCronHost) id ≠ none → StaysMarked job walkNow
  | scan _ dueCheckNow _ =>
    (s.reloaded deps.toCronHost).any (isRunnableJob · dueCheckNow) = false →
      StaysMarked job dueCheckNow

end CronOperation

theorem Marked.read (h : Marked s id)
    (hkeeps : ∀ job ∈ jobsWith id (s.current deps.toCronHost), StaysMarked job walkNow) :
    Marked (ensureLoadedForRead deps s loadNow walkNow) id := by
  have hwalked : MarkedIn id (recomputeNextRunsForMaintenance deps {} walkNow
      (s.current deps.toCronHost)) :=
    h.current.walk (recomputes_maintainJob {}) hkeeps
  unfold ensureLoadedForRead
  dsimp only
  split
  · refine ⟨?_, ?_⟩
    · rw [ensureLoaded_skip_jobs]
      exact h.current
    · rw [loadCronStore_ensureLoaded]
      exact h.disk
  · apply marked_persist _ hwalked
    rw [mapJobs_jobs, ensureLoaded_skip_jobs]
    rfl

theorem ensureLoaded_of_isSome (hloaded : s.jobs.isSome = true) (skipRecompute : Bool) (now : ℤ) :
    s.ensureLoaded deps false skipRecompute now = s := by
  unfold CronStore.ensureLoaded
  rw [if_pos ⟨hloaded, rfl⟩]

theorem current_of_isSome (hloaded : s.jobs.isSome = true) (host : CronHost) :
    s.jobs = some (s.current host) := by
  obtain ⟨jobs, hjobs⟩ := Option.isSome_iff_exists.mp hloaded
  unfold CronStore.current
  rw [hjobs]
  rfl

theorem createJob_id {input : CronJobCreate}
    (h : createJob deps input now = some job) : job.id = input.id := by
  unfold createJob at h
  extract_lets schedule new at h
  split at h
  · exact nomatch h
  split at h
  · exact nomatch h
  · rw [← Option.some.inj h]
    rfl

theorem Marked.add (h : Marked s id) (hloaded : s.jobs.isSome = true) {input : CronJobCreate}
    {createNow : ℤ} (hfresh : input.id ≠ id) (hkeeps : (createJob deps input createNow).isSome →
      ∀ job ∈ jobsWith id (s.current deps.toCronHost), StaysMarked job walkNow) :
    Marked (add deps s input loadNow createNow walkNow) id := by
  unfold OpenClaw.add
  rw [ensureLoaded_of_isSome hloaded]
  cases hcreate : createJob deps input createNow with
  | none => exact h
  | some job =>
    have hjobs := current_of_isSome hloaded deps.toCronHost
    have hother : jobsWith id [job] = [] := by
      have : job.id ≠ id := fun heq => hfresh ((createJob_id hcreate).symm.trans heq)
      simp [jobsWith, this]
    have happended : jobsWith id (s.current deps.toCronHost ++ [job]) =
        jobsWith id (s.current deps.toCronHost) := by
      rw [jobsWith_append, hother, append_nil]
    have hwalked : MarkedIn id (recomputeNextRuns deps walkNow (s.current deps.toCronHost ++ [job])) :=
      (h.current.congr happended).walk recomputes_recomputeIfDueOrMissing
        (happended ▸ hkeeps (by rw [hcreate]; rfl))
    apply marked_persist _ hwalked
    rw [mapJobs_jobs, hjobs]
    rfl

theorem patchedJob_isMarked {nextJob : CronJob} {patch : CronJobPatch}
    (hnext : patchedJob deps job patch now = some nextJob)
    (hmarked : job.state.runningAtMs.isSome = true) (hpatch : patch.state.runningAtMs ≠ some none)
    (henabled : patch.schedule.isSome ∨ patch.enabled.isSome →
      (mergedJob job patch).isEnabled = true) : nextJob.state.runningAtMs.isSome = true := by
  have hmerged : (mergedJob job patch).state.runningAtMs.isSome = true := by
    show (patch.state.runningAtMs.getD job.state.runningAtMs).isSome = true
    match hvalue : patch.state.runningAtMs with
    | none => exact hmarked
    | some none => exact absurd hvalue hpatch
    | some (some runningAt) => rfl
  have hanchor (job : CronJob) : (anchorPatchedJob job patch now).state = job.state ∧
      (anchorPatchedJob job patch now).isEnabled = job.isEnabled := by
    unfold anchorPatchedJob
    split
    · exact ⟨rfl, rfl⟩
    · exact ⟨rfl, rfl⟩
  obtain ⟨merged, happlied, hnext⟩ := Option.bind_eq_some_iff.mp hnext
  unfold applyJobPatch at happlied
  split_ifs at happlied
  obtain rfl := Option.some.inj happlied
  set anchored := anchorPatchedJob (mergedJob job patch) patch now with hanchored
  have hrunning : anchored.state.runningAtMs.isSome = true := by
    rw [hanchored, (hanchor _).1]
    exact hmerged
  have hscheduled {result : Except Str (Option ℤ)}
      (heq : result.toOption.map anchored.setNextRun = some nextJob) :
      nextJob.state.runningAtMs.isSome = true := by
    obtain ⟨next, _, rfl⟩ := Option.map_eq_some_iff.mp heq
    exact hrunning
  dsimp only at hnext
  split at hnext
  · exact nomatch hnext
  unfold rescheduledJob at hnext
  split at hnext
  · rename_i hgiven
    rw [if_pos (by rw [(hanchor _).2]; exact henabled hgiven)] at hnext
    exact hscheduled hnext
  split at hnext
  · exact hscheduled hnext
  · rw [← Option.some.inj hnext]
    exact hrunning

theorem Marked.update (h : Marked s id) (hloaded : s.jobs.isSome = true) {patch : CronJobPatch}
    {loadNow now : ℤ} (hkeeps : ∀ job ∈ jobsWith id (s.current deps.toCronHost), job.id = id' →
      (patchedJob deps job patch now).isSome → patch.state.runningAtMs ≠ some none ∧
        (patch.schedule.isSome ∨ patch.enabled.isSome → (mergedJob job patch).isEnabled = true)) :
    Marked (update deps s id' patch loadNow now) id := by
  have hjobs := current_of_isSome hloaded deps.toCronHost
  unfold OpenClaw.update
  rw [ensureLoaded_of_isSome hloaded]
  dsimp only
  rw [hjobs, Option.getD_some]
  split
  · exact h
  rename_i job hjob
  split
  · exact h
  rename_i nextJob hnext
  have hupdated : MarkedIn id (updateJob id' (fun _ => nextJob) (s.current deps.toCronHost)) := by
    refine h.current.updateJob fun found hfound hid => ?_
    obtain rfl : job = found := Option.some.inj (hjob.symm.trans hfound)
    have hjobId : job.id = id' := findJob_id hjob
    have hmem : job ∈ jobsWith id (s.current deps.toCronHost) :=
      mem_jobsWith.mpr ⟨mem_of_find?_eq_some hjob, (patchedJob_id hnext).symm.trans hid⟩
    have hpatch := hkeeps job hmem hjobId (by rw [hnext]; rfl)
    exact patchedJob_isMarked hnext (h.current job hmem) hpatch.1 hpatch.2
  apply marked_persist _ hupdated
  rw [mapJobs_jobs, hjobs]
  rfl

theorem Marked.remove (h : Marked s id) (hloaded : s.jobs.isSome = true) {loadNow : ℤ} :
    Marked (remove deps s id' loadNow) id := by
  have hjobs := current_of_isSome hloaded deps.toCronHost
  unfold OpenClaw.remove
  rw [ensureLoaded_of_isSome hloaded]
  have hremoved : MarkedIn id (removeJob id' (s.current deps.toCronHost)) := h.current.removeJob
  apply marked_persist _ hremoved
  rw [mapJobs_jobs, hjobs]
  rfl

theorem Marked.preflight (h : Marked s id) {mode : CronRunMode} {specError : Str} {endWalkNow : ℤ}
    (hstays : ∀ job ∈ jobsWith id (s.current deps.toCronHost), StaysMarked job walkNow)
    (hkeeps : ∀ job ∈ jobsWith id (s.current deps.toCronHost),
      (findJob (s.current deps.toCronHost) id').any (!isSupportedJobSpec ·) →
        job.id ≠ id' ∧ StaysMarked (walkJob (maintainJob deps {}) walkNow job) endWalkNow) :
    Marked (inspectManualRunPreflight deps s id' mode specError loadNow walkNow now endWalkNow).1
      id := by
  set walked := recomputeNextRunsForMaintenance deps {} walkNow (s.current deps.toCronHost)
    with hwalked
  have hmarked : MarkedIn id walked := h.current.walk (recomputes_maintainJob {}) hstays
  have hjobs : ((s.ensureLoaded deps false true loadNow).mapJobs
      (recomputeNextRunsForMaintenance deps {} walkNow)).jobs = some walked := by
    rw [mapJobs_jobs, ensureLoaded_skip_jobs]
    rfl
  have honce : Marked ((s.ensureLoaded deps false true loadNow).mapJobs
      (recomputeNextRunsForMaintenance deps {} walkNow)) id := by
    refine ⟨?_, ?_⟩
    · rw [hjobs]
      exact hmarked
    · rw [loadCronStore_mapJobs, loadCronStore_ensureLoaded]
      exact h.disk
  unfold inspectManualRunPreflight
  dsimp only
  rw [hjobs, Option.getD_some]
  split
  · exact honce
  rename_i walkedJob hfound
  split
  · rename_i hunsupported
    -- the job that is asked for is not supported either before the walk
    have hany : (findJob (s.current deps.toCronHost) id').any (!isSupportedJobSpec ·) = true := by
      rw [hwalked, findJob_recomputeNextRunsForMaintenance] at hfound
      obtain ⟨job, hjob, rfl⟩ := Option.map_eq_some_iff.mp hfound
      rw [isFixed_isSupportedJobSpec.walkJob (recomputes_maintainJob {})] at hunsupported
      rw [hjob]
      exact hunsupported
    by_cases hne : id' = id
    · -- no job has the id
      subst hne
      have hnone : jobsWith id' (s.current deps.toCronHost) = [] := by
        apply eq_nil_iff_forall_not_mem.mpr
        intro job hjob
        exact (hkeeps job hjob hany).1 (mem_jobsWith.mp hjob).2
      rw [findJob_eq, hnone] at hany
      exact nomatch hany
    · unfold skipInvalidPersistedManualRun
      have hothers : jobsWith id (applyResultTo deps id' ⟨.skipped, some specError, now, now⟩
          (mode == .force) walked) = jobsWith id walked := jobsWith_applyResultTo hne ..
      have hmarked' : MarkedIn id (recomputeNextRunsForMaintenance deps { recomputeExpired := true }
          endWalkNow (applyResultTo deps id' ⟨.skipped, some specError, now, now⟩ (mode == .force)
            walked)) := by
        apply (hmarked.congr hothers).walk (recomputes_maintainJob _)
        rw [hothers, hwalked]
        intro job hjob
        have hrecomputes : Recomputes deps (maintainJob deps {}) := recomputes_maintainJob {}
        have hids := isFixed_id.walkJob hrecomputes walkNow
        unfold recomputeNextRunsForMaintenance walkSchedulableJobs at hjob
        rw [jobsWith_map hids, mem_map] at hjob
        obtain ⟨before, hbefore, rfl⟩ := hjob
        exact (hkeeps before hbefore hany).2
      apply marked_persist _ hmarked'
      rw [mapJobs_jobs, hjobs]
      rfl
  split
  · exact honce
  split
  · exact honce
  · exact honce

/-- A run is reserved for a job without a marker, which gets one. -/
theorem Marked.reserve (h : Marked s id) : Marked (reserveManualRun s id' preflightNow).1 id := by
  unfold reserveManualRun
  split
  · exact h
  rename_i job hjob
  split
  · exact h
  cases hjobs : s.jobs with
  | none => simp [hjobs, findJob] at hjob
  | some jobs =>
    have hmemory : MarkedIn id jobs := by
      simpa [hjobs] using h.memory
    have hreserved : MarkedIn id (updateJob id' (markRunning preflightNow) jobs) :=
      hmemory.updateJob fun _ _ _ => rfl
    apply marked_persist _ hreserved
    rw [mapJobs_jobs, hjobs]
    rfl

theorem not_marked_of_reserved
    (h : (reserveManualRun s id preflightNow).2 = true) : ¬ Marked s id := by
  unfold reserveManualRun at h
  split at h
  · exact nomatch h
  rename_i job hjob
  split at h
  · exact nomatch h
  rename_i hnotRunning
  intro hmarked
  exact hnotRunning (hmarked.memory job
    (mem_jobsWith.mpr ⟨mem_of_find?_eq_some hjob, findJob_id hjob⟩))

theorem Marked.finishRun (h : Marked s id) (hne : id' ≠ id) {mode : CronRunMode}
    {result : CronRunResult} {reloadNow : ℤ}
    (hkeeps : findJob (s.current deps.toCronHost) id' ≠ none →
      ∀ job ∈ jobsWith id ((s.ensureLoaded deps false true loadNow).reloaded deps.toCronHost),
        StaysMarked job walkNow) :
    Marked (finishPreparedManualRun deps s id' mode result loadNow reloadNow walkNow) id := by
  have hloaded := ensureLoaded_skip_jobs deps s loadNow
  have hstore : Marked (s.ensureLoaded deps false true loadNow) id := by
    refine ⟨?_, ?_⟩
    · rw [hloaded]
      exact h.current
    · rw [loadCronStore_ensureLoaded]
      exact h.disk
  unfold finishPreparedManualRun
  dsimp only
  rw [hloaded, Option.getD_some]
  cases hfound : findJob (s.current deps.toCronHost) id' with
  | none => exact hstore
  | some finished =>
    dsimp only
    set applied := (s.ensureLoaded deps false true loadNow).mapJobs
      (applyResultTo deps id' result (mode == .force)) with happlied
    set snapshot := if (applyJobResult deps finished result (mode == .force)).2 = true then none
      else some (applyJobResult deps finished result (mode == .force)).1
    have hothers : jobsWith id (mergeManualRunSnapshotAfterReload id' snapshot
        (applied.reloaded deps.toCronHost)) =
        jobsWith id ((s.ensureLoaded deps false true loadNow).reloaded deps.toCronHost) := by
      have hmemory : jobsWith id (applied.jobs.getD []) =
          jobsWith id ((s.ensureLoaded deps false true loadNow).jobs.getD []) := by
        rw [happlied, mapJobs_jobs, hloaded]
        exact jobsWith_applyResultTo hne ..
      rw [jobsWith_mergeManualRunSnapshotAfterReload hne]
      exact jobsWith_reloaded_congr rfl rfl hmemory
    have hwalked : MarkedIn id (recomputeNextRunsForMaintenance deps { recomputeExpired := true }
        walkNow (mergeManualRunSnapshotAfterReload id' snapshot
          (applied.reloaded deps.toCronHost))) := by
      apply (hstore.reloaded.congr hothers).walk (recomputes_maintainJob _)
      rw [hothers]
      exact hkeeps (by rw [hfound]; simp)
    apply marked_persist _ hwalked
    rw [mapJobs_jobs, ensureLoaded_force_jobs]
    rfl

theorem Marked.applyOutcomes (h : Marked s id) {outcomes : List (Str × CronRunResult)}
    (hne : ∀ outcome ∈ outcomes, outcome.1 ≠ id)
    (hkeeps : ∀ job ∈ jobsWith id (s.reloaded deps.toCronHost), StaysMarked job walkNow) :
    Marked (applyDueOutcomes deps s outcomes loadNow walkNow) id := by
  set applied := outcomes.foldl (fun jobs outcome =>
    applyResultTo deps outcome.1 outcome.2 false jobs) (s.reloaded deps.toCronHost) with happlied
  have hothers : jobsWith id applied = jobsWith id (s.reloaded deps.toCronHost) :=
    jobsWith_applyOutcomes hne _
  have hwalked : MarkedIn id (recomputeNextRunsForMaintenance deps {} walkNow applied) :=
    (h.reloaded.congr hothers).walk (recomputes_maintainJob {}) (hothers ▸ hkeeps)
  unfold applyDueOutcomes
  dsimp only
  apply marked_persist _ hwalked
  rw [mapJobs_jobs, ensureLoaded_force_jobs]
  rfl

theorem Marked.scan (h : Marked s id) {dueCheckNow : ℤ}
    (hkeeps : (s.reloaded deps.toCronHost).any (isRunnableJob · dueCheckNow) = false →
      ∀ job ∈ jobsWith id (s.reloaded deps.toCronHost), StaysMarked job dueCheckNow) :
    Marked (scanDueJobs deps s loadNow dueCheckNow now).1 id := by
  have hloaded := ensureLoaded_force_jobs deps s loadNow
  unfold scanDueJobs
  dsimp only
  rw [hloaded, Option.getD_some]
  split
  · rename_i hnone
    have hstays := hkeeps (by simpa using hnone)
    split
    · refine ⟨?_, ?_⟩
      · rw [hloaded]
        exact h.reloaded
      · rw [loadCronStore_ensureLoaded]
        exact h.disk
    · have hwalked : MarkedIn id (recomputeNextRunsForMaintenance deps { recomputeExpired := true }
          dueCheckNow (s.reloaded deps.toCronHost)) :=
        h.reloaded.walk (recomputes_maintainJob _) hstays
      apply marked_persist _ hwalked
      rw [mapJobs_jobs, hloaded]
      rfl
  · have hmark : MarkedIn id ((s.reloaded deps.toCronHost).map fun job =>
        if isRunnableJob job dueCheckNow then markRunning now job else job) := by
      refine h.reloaded.map (fun job => ?_) fun job _ hmarked => ?_
      · split <;> rfl
      · split
        · rfl
        · exact hmarked
    apply marked_persist _ hmark
    rw [mapJobs_jobs, hloaded]
    rfl

/-! ## Distinct jobs -/

def idsOf (jobs : List CronJob) : List Str := jobs.map (·.id)

/-- No two jobs have one id, in memory or on disk. -/
structure HasDistinctIds (s : CronStore) : Prop where
  memory : (idsOf (s.jobs.getD [])).Nodup
  disk : (idsOf s.configFile).Nodup

theorem idsOf_map (hid : ∀ job, (f job).id = job.id)
    (jobs : List CronJob) : idsOf (jobs.map f) = idsOf jobs := by
  unfold idsOf
  rw [map_map]
  exact map_congr_left fun job _ => hid job

theorem idsOf_walk (hfn : Recomputes deps fn) (now : ℤ)
    (jobs : List CronJob) : idsOf (walkSchedulableJobs fn now jobs) = idsOf jobs :=
  idsOf_map (isFixed_id.walkJob hfn now) jobs

theorem idsOf_updateJob (hf : ∀ job, job.id = id → (f job).id = id)
    (jobs : List CronJob) : idsOf (updateJob id f jobs) = idsOf jobs := by
  induction jobs with
  | nil => rfl
  | cons job jobs ih =>
    unfold updateJob
    split
    · rename_i hjob
      show (f job).id :: idsOf jobs = job.id :: idsOf jobs
      rw [hf job hjob, hjob]
    · exact congrArg (job.id :: ·) ih

theorem idsOf_removeJob_sublist (id : Str) (jobs : List CronJob) :
    (idsOf (removeJob id jobs)).Sublist (idsOf jobs) :=
  filter_sublist.map _

theorem idsOf_applyResultTo_sublist (id : Str) (result : CronRunResult) (preserveSchedule : Bool)
    (jobs : List CronJob) :
    (idsOf (applyResultTo deps id result preserveSchedule jobs)).Sublist (idsOf jobs) := by
  unfold applyResultTo
  split
  · exact .refl _
  split
  · exact idsOf_removeJob_sublist id jobs
  · rw [idsOf_updateJob fun job hjob => (applyJobResult_id ..).trans hjob]

theorem idsOf_applyOutcomes_sublist (outcomes : List (Str × CronRunResult)) (jobs : List CronJob) :
    (idsOf (outcomes.foldl (fun jobs outcome =>
      applyResultTo deps outcome.1 outcome.2 false jobs) jobs)).Sublist (idsOf jobs) := by
  induction outcomes generalizing jobs with
  | nil => exact .refl _
  | cons outcome outcomes ih =>
    rw [foldl_cons]
    exact (ih _).trans (idsOf_applyResultTo_sublist ..)

theorem idsOf_merge_sublist (id : Str) (snapshot : Option CronJob) (jobs : List CronJob) :
    (idsOf (mergeManualRunSnapshotAfterReload id snapshot jobs)).Sublist (idsOf jobs) := by
  unfold mergeManualRunSnapshotAfterReload
  split
  · exact idsOf_removeJob_sublist id jobs
  · rw [idsOf_updateJob]
    exact fun job hjob => hjob

theorem idsOf_reloaded (host : CronHost) (s : CronStore) :
    idsOf (s.reloaded host) = idsOf s.configFile := by
  unfold CronStore.reloaded CronStore.loadCronStore
  rw [idsOf_map (hydrate_id host _), idsOf_map]
  exact fun job => mergeStateFileEntry_id job _

namespace HasDistinctIds

theorem reloaded (h : HasDistinctIds s) (host : CronHost) : (idsOf (s.reloaded host)).Nodup := by
  rw [idsOf_reloaded]
  exact h.disk

theorem current (h : HasDistinctIds s) (host : CronHost) : (idsOf (s.current host)).Nodup := by
  have hmemory := h.memory
  unfold CronStore.current
  cases hjobs : s.jobs with
  | none => exact h.reloaded host
  | some jobs =>
    rw [hjobs] at hmemory
    exact hmemory

/-- The jobs in memory are saved. -/
theorem persist (hjobs : s.jobs = some jobs) (h : (idsOf jobs).Nodup) :
    HasDistinctIds s.persist where
  memory := by
    rw [persist_jobs, hjobs]
    exact h
  disk := by
    unfold CronStore.persist
    rw [hjobs]
    show (idsOf (jobs.map fun job => { job with state := {} })).Nodup
    rw [idsOf_map (f := fun job => { job with state := {} }) fun _ => rfl]
    exact h

/-- The jobs in memory are not saved. -/
theorem load (h : HasDistinctIds s) (hjobs : s'.jobs = some jobs)
    (hdistinct : (idsOf jobs).Nodup) (hconfig : s'.configFile = s.configFile) :
    HasDistinctIds s' where
  memory := by
    rw [hjobs]
    exact hdistinct
  disk := by
    rw [hconfig]
    exact h.disk

end HasDistinctIds

theorem configFile_ensureLoaded (forceReload skipRecompute : Bool) (now : ℤ) :
    (s.ensureLoaded deps forceReload skipRecompute now).configFile = s.configFile := by
  unfold CronStore.ensureLoaded
  split <;> rfl

/-- The service has its jobs in memory, and no two of them have one id. -/
structure IsReady (s : CronStore) : Prop extends HasDistinctIds s where
  loaded : s.jobs.isSome = true

theorem HasDistinctIds.ready_persist (hjobs : s'.jobs = some jobs)
    (h : (idsOf jobs).Nodup) : IsReady s'.persist where
  toHasDistinctIds := .persist hjobs h
  loaded := by rw [persist_jobs, hjobs]; rfl

theorem HasDistinctIds.ready_load (h : HasDistinctIds s)
    (hjobs : s'.jobs = some jobs) (hdistinct : (idsOf jobs).Nodup)
    (hconfig : s'.configFile = s.configFile) : IsReady s' where
  toHasDistinctIds := h.load hjobs hdistinct hconfig
  loaded := by rw [hjobs]; rfl

theorem idsOf_maintenance (opts : MaintenanceOptions) (now : ℤ) (jobs : List CronJob) :
    idsOf (recomputeNextRunsForMaintenance deps opts now jobs) = idsOf jobs :=
  idsOf_walk (recomputes_maintainJob opts) now jobs

namespace HasDistinctIds

theorem read (h : HasDistinctIds s) (loadNow walkNow : ℤ) :
    IsReady (ensureLoadedForRead deps s loadNow walkNow) := by
  have hloaded := ensureLoaded_skip_jobs deps s loadNow
  have hwalked : (idsOf (recomputeNextRunsForMaintenance deps {} walkNow
      (s.current deps.toCronHost))).Nodup := by
    rw [idsOf_maintenance]
    exact h.current _
  unfold ensureLoadedForRead
  dsimp only
  split
  · exact h.ready_load hloaded (h.current _) (configFile_ensureLoaded ..)
  · apply ready_persist _ hwalked
    rw [mapJobs_jobs, hloaded]
    rfl

/-- The jobs a load on demand gives, whether it recomputes them or not. -/
theorem ensureLoaded_ids (deps : CronDeps) (s : CronStore) (skipRecompute : Bool) (now : ℤ) :
    ∃ jobs, (s.ensureLoaded deps false skipRecompute now).jobs = some jobs ∧
      idsOf jobs = idsOf (s.current deps.toCronHost) := by
  refine ⟨_, ensureLoaded_jobs deps s false skipRecompute now, ?_⟩
  unfold CronStore.current
  cases s.jobs with
  | some jobs => rfl
  | none =>
    cases skipRecompute with
    | true => rfl
    | false => exact idsOf_walk recomputes_recomputeIfDueOrMissing now _

section

variable (h : HasDistinctIds s)
include h

theorem ensureLoaded (skipRecompute : Bool) (now : ℤ) :
    IsReady (s.ensureLoaded deps false skipRecompute now) := by
  obtain ⟨jobs, hjobs, hids⟩ := ensureLoaded_ids deps s skipRecompute now
  have hdistinct : (idsOf jobs).Nodup := by
    rw [hids]
    exact h.current _
  exact h.ready_load hjobs hdistinct (configFile_ensureLoaded ..)

/-- The id of a new job is a random UUID. -/
theorem add (input : CronJobCreate) (loadNow createNow walkNow : ℤ)
    (hfresh : input.id ∉ idsOf (s.current deps.toCronHost)) :
    IsReady (OpenClaw.add deps s input loadNow createNow walkNow) := by
  obtain ⟨jobs, hjobs, hids⟩ := ensureLoaded_ids deps s false loadNow
  unfold OpenClaw.add
  dsimp only
  split
  · exact h.ensureLoaded false loadNow
  rename_i job hjob
  have hnew : (idsOf (recomputeNextRuns deps walkNow (jobs ++ [job]))).Nodup := by
    unfold recomputeNextRuns
    rw [idsOf_walk recomputes_recomputeIfDueOrMissing]
    unfold idsOf at hfresh hids ⊢
    rw [map_append, hids, map_singleton, createJob_id hjob]
    exact nodup_append.mpr ⟨h.current _, by simp, by
      intro id hid other hother heq
      rw [mem_singleton.mp hother] at heq
      exact hfresh (heq ▸ hid)⟩
  apply ready_persist _ hnew
  rw [mapJobs_jobs, hjobs]
  rfl

theorem update (id : Str) (patch : CronJobPatch) (loadNow now : ℤ) :
    IsReady (OpenClaw.update deps s id patch loadNow now) := by
  have hready : IsReady (s.ensureLoaded deps false true loadNow) := h.ensureLoaded true loadNow
  have hloaded := ensureLoaded_skip_jobs deps s loadNow
  unfold OpenClaw.update
  dsimp only
  rw [hloaded, Option.getD_some]
  split
  · exact hready
  rename_i job hjob
  split
  · exact hready
  rename_i nextJob hnext
  have hupdated : (idsOf (updateJob id (fun _ => nextJob) (s.current deps.toCronHost))).Nodup := by
    rw [idsOf_updateJob fun _ _ => (patchedJob_id hnext).trans (findJob_id hjob)]
    exact h.current _
  apply ready_persist _ hupdated
  rw [mapJobs_jobs, hloaded]
  rfl

theorem remove (id : Str) (loadNow : ℤ) : IsReady (OpenClaw.remove deps s id loadNow) := by
  obtain ⟨jobs, hjobs, hids⟩ := ensureLoaded_ids deps s false loadNow
  have hremoved : (idsOf (removeJob id jobs)).Nodup := by
    refine List.Nodup.sublist (idsOf_removeJob_sublist id jobs) ?_
    rw [hids]
    exact h.current _
  unfold OpenClaw.remove
  apply ready_persist _ hremoved
  rw [mapJobs_jobs, hjobs]
  rfl

theorem preflight (id : Str) (mode : CronRunMode) (specError : Str)
    (loadNow walkNow now endWalkNow : ℤ) :
    IsReady (inspectManualRunPreflight deps s id mode specError loadNow walkNow now
      endWalkNow).1 := by
  set walked := recomputeNextRunsForMaintenance deps {} walkNow (s.current deps.toCronHost)
    with hwalked
  have hdistinct : (idsOf walked).Nodup := by
    rw [hwalked, idsOf_maintenance]
    exact h.current _
  have hjobs : ((s.ensureLoaded deps false true loadNow).mapJobs
      (recomputeNextRunsForMaintenance deps {} walkNow)).jobs = some walked := by
    rw [mapJobs_jobs, ensureLoaded_skip_jobs]
    rfl
  have honce : IsReady ((s.ensureLoaded deps false true loadNow).mapJobs
      (recomputeNextRunsForMaintenance deps {} walkNow)) :=
    h.ready_load hjobs hdistinct (configFile_ensureLoaded ..)
  unfold inspectManualRunPreflight
  dsimp only
  split
  · exact honce
  split
  · unfold skipInvalidPersistedManualRun
    have hskipped : (idsOf (recomputeNextRunsForMaintenance deps { recomputeExpired := true }
        endWalkNow (applyResultTo deps id ⟨.skipped, some specError, now, now⟩ (mode == .force)
          walked))).Nodup := by
      rw [idsOf_maintenance]
      exact hdistinct.sublist (idsOf_applyResultTo_sublist ..)
    apply ready_persist _ hskipped
    rw [mapJobs_jobs, hjobs]
    rfl
  split
  · exact honce
  split
  · exact honce
  · exact honce

theorem reserve (id : Str) (preflightNow : ℤ) :
    HasDistinctIds (reserveManualRun s id preflightNow).1 := by
  unfold reserveManualRun
  split
  · exact h
  rename_i job hjob
  split
  · exact h
  cases hjobs : s.jobs with
  | none => simp [hjobs, findJob] at hjob
  | some jobs =>
    have hmemory : (idsOf jobs).Nodup := by
      simpa [hjobs] using h.memory
    have hreserved : (idsOf (updateJob id (markRunning preflightNow) jobs)).Nodup := by
      rw [idsOf_updateJob (f := markRunning preflightNow) fun _ hid => hid]
      exact hmemory
    apply HasDistinctIds.persist _ hreserved
    rw [mapJobs_jobs, hjobs]
    rfl

theorem finishRun (id : Str) (mode : CronRunMode) (result : CronRunResult)
    (loadNow reloadNow walkNow : ℤ) :
    IsReady (finishPreparedManualRun deps s id mode result loadNow reloadNow walkNow) := by
  have hready : IsReady (s.ensureLoaded deps false true loadNow) := h.ensureLoaded true loadNow
  unfold finishPreparedManualRun
  dsimp only
  split
  · exact hready
  rename_i finished hfound
  set applied := (s.ensureLoaded deps false true loadNow).mapJobs
    (applyResultTo deps id result (mode == .force)) with happlied
  set snapshot := if (applyJobResult deps finished result (mode == .force)).2 = true then none
    else some (applyJobResult deps finished result (mode == .force)).1
  have hdistinct : (idsOf (recomputeNextRunsForMaintenance deps { recomputeExpired := true } walkNow
      (mergeManualRunSnapshotAfterReload id snapshot (applied.reloaded deps.toCronHost)))).Nodup := by
    rw [idsOf_maintenance]
    refine List.Nodup.sublist (idsOf_merge_sublist ..) ?_
    rw [idsOf_reloaded]
    exact hready.disk
  apply ready_persist _ hdistinct
  rw [mapJobs_jobs, ensureLoaded_force_jobs]
  rfl

theorem scan (loadNow dueCheckNow now : ℤ) :
    IsReady (scanDueJobs deps s loadNow dueCheckNow now).1 := by
  have hloaded := ensureLoaded_force_jobs deps s loadNow
  unfold scanDueJobs
  dsimp only
  rw [hloaded, Option.getD_some]
  split
  · split
    · exact h.ready_load hloaded (h.reloaded _) (configFile_ensureLoaded ..)
    · have hwalked : (idsOf (recomputeNextRunsForMaintenance deps { recomputeExpired := true }
          dueCheckNow (s.reloaded deps.toCronHost))).Nodup := by
        rw [idsOf_maintenance]
        exact h.reloaded _
      apply ready_persist _ hwalked
      rw [mapJobs_jobs, hloaded]
      rfl
  · have hmarked : (idsOf ((s.reloaded deps.toCronHost).map fun job =>
        if isRunnableJob job dueCheckNow then markRunning now job else job)).Nodup := by
      rw [idsOf_map]
      · exact h.reloaded _
      · intro job
        split <;> rfl
    apply ready_persist _ hmarked
    rw [mapJobs_jobs, hloaded]
    rfl

theorem applyOutcomes (outcomes : List (Str × CronRunResult))
    (loadNow walkNow : ℤ) : IsReady (applyDueOutcomes deps s outcomes loadNow walkNow) := by
  have hdistinct : (idsOf (recomputeNextRunsForMaintenance deps {} walkNow
      (outcomes.foldl (fun jobs outcome => applyResultTo deps outcome.1 outcome.2 false jobs)
        (s.reloaded deps.toCronHost)))).Nodup := by
    rw [idsOf_maintenance]
    exact (h.reloaded _).sublist (idsOf_applyOutcomes_sublist ..)
  unfold applyDueOutcomes
  dsimp only
  apply ready_persist _ hdistinct
  rw [mapJobs_jobs, ensureLoaded_force_jobs]
  rfl

end

end HasDistinctIds

/-! ## New markers -/

theorem markedIn_of_distinct (hdistinct : (idsOf jobs).Nodup) (hmem : job ∈ jobs)
    (hmarked : job.state.runningAtMs.isSome = true) : MarkedIn job.id jobs := by
  intro other hother
  obtain ⟨hotherMem, hid⟩ := mem_jobsWith.mp hother
  rw [inj_on_of_nodup_map hdistinct hotherMem hmem hid]
  exact hmarked

theorem mem_updateJob_of_find (h : findJob jobs id = some job) : f job ∈ updateJob id f jobs := by
  induction jobs with
  | nil => simp [findJob] at h
  | cons first rest ih =>
    unfold updateJob
    by_cases hfirst : first.id = id
    · rw [if_pos hfirst]
      have : first = job := by simpa [findJob, hfirst] using h
      rw [this]
      exact mem_cons_self
    · rw [if_neg hfirst]
      have hrest : findJob rest id = some job := by simpa [findJob, hfirst] using h
      exact mem_cons_of_mem _ (ih hrest)

theorem marked_of_reserved (hdistinct : HasDistinctIds s)
    (h : (reserveManualRun s id preflightNow).2 = true) :
    Marked (reserveManualRun s id preflightNow).1 id ∧
      (reserveManualRun s id preflightNow).1.jobs.isSome = true := by
  unfold reserveManualRun at h ⊢
  split at h
  · exact nomatch h
  rename_i job hjob
  split at h
  · exact nomatch h
  rename_i hnotRunning
  rw [if_neg hnotRunning]
  cases hjobs : s.jobs with
  | none => simp [hjobs, findJob] at hjob
  | some jobs =>
    have hfound : findJob jobs id = some job := by
      simpa [hjobs] using hjob
    have hmemory : (idsOf jobs).Nodup := by
      simpa [hjobs] using hdistinct.memory
    have hids : (idsOf (updateJob id (markRunning preflightNow) jobs)).Nodup := by
      rw [idsOf_updateJob (f := markRunning preflightNow) fun _ hid => hid]
      exact hmemory
    have hmarked := markedIn_of_distinct hids
      (mem_updateJob_of_find (f := markRunning preflightNow) hfound) rfl
    rw [markRunning_id, findJob_id hfound] at hmarked
    have hsaved : (s.mapJobs (updateJob id (markRunning preflightNow))).jobs =
        some (updateJob id (markRunning preflightNow) jobs) := by
      rw [mapJobs_jobs, hjobs]
      rfl
    refine ⟨marked_persist hsaved hmarked, ?_⟩
    rw [persist_jobs, hsaved]
    rfl

/-- The jobs of a tick were not marked, and are now. -/
theorem scan_spec (hdistinct : HasDistinctIds s) {dueCheckNow : ℤ}
    (hdue : job ∈ (scanDueJobs deps s loadNow dueCheckNow now).2) :
    ¬ Marked s job.id ∧ Marked (scanDueJobs deps s loadNow dueCheckNow now).1 job.id := by
  have hloaded := ensureLoaded_force_jobs deps s loadNow
  unfold scanDueJobs at hdue ⊢
  dsimp only at hdue ⊢
  rw [hloaded, Option.getD_some] at hdue ⊢
  split at hdue
  · exact absurd hdue not_mem_nil
  rename_i hsome
  rw [if_neg hsome]
  obtain ⟨hmem, hrunnable⟩ := mem_filter.mp hdue
  constructor
  · intro hmarked
    have hrunning := hmarked.reloaded job (mem_jobsWith.mpr ⟨hmem, rfl⟩)
    unfold isRunnableJob at hrunnable
    simp only [Bool.and_eq_true, Option.isNone_iff_eq_none] at hrunnable
    rw [hrunnable.1.1.2] at hrunning
    exact nomatch hrunning
  · set mark := fun job => if isRunnableJob job dueCheckNow = true then markRunning now job else job
      with hmark
    have hids : idsOf ((s.reloaded deps.toCronHost).map mark) = idsOf (s.reloaded deps.toCronHost) := by
      apply idsOf_map
      intro job
      rw [hmark]
      dsimp only
      split <;> rfl
    have hmarkJob : mark job = markRunning now job := if_pos hrunnable
    have hmarked := markedIn_of_distinct (hids ▸ hdistinct.reloaded deps.toCronHost)
      (mem_map_of_mem (f := mark) hmem) (by rw [hmarkJob]; rfl)
    rw [hmarkJob, markRunning_id] at hmarked
    apply marked_persist _ hmarked
    rw [mapJobs_jobs, hloaded]
    rfl

theorem scan_nodup (hdistinct : HasDistinctIds s) (loadNow dueCheckNow now : ℤ) :
    (idsOf (scanDueJobs deps s loadNow dueCheckNow now).2).Nodup := by
  unfold scanDueJobs
  dsimp only
  rw [ensureLoaded_force_jobs, Option.getD_some]
  split
  · exact .nil
  · exact (hdistinct.reloaded _).sublist (filter_sublist.map _)

end OpenClaw
