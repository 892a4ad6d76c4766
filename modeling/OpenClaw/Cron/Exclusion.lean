import OpenClaw.Lib.Exclusive
import OpenClaw.Lib.Run
import OpenClaw.Cron.Markers

/-!
# One execution of a job at a time

Ticks and manual runs execute jobs outside of the lock. The only thing that keeps a second
execution of a job from starting is the running marker in its state. As long as no locked
section clears the marker of a job in flight, no job has two executions.
-/

namespace OpenClaw

open Lts List Option

variable {deps : CronDeps}

/-! ## Executions -/

/-- A cron service between two locked sections. -/
structure CronRuns where
  store : CronStore
  /-- The manual runs that have passed the preflight, with the time of it. -/
  preflights : List (Str × ℤ)
  /-- The manual runs in flight. -/
  manual : List Str
  /-- The jobs of the tick in flight. A tick without jobs is over at once. -/
  tick : List Str

namespace CronRuns

def idle (store : CronStore) : CronRuns := ⟨store, [], [], []⟩

/-- The executions in flight, by the ids of their jobs. -/
def inFlight (s : CronRuns) : List Str := s.tick ++ s.manual

end CronRuns

inductive CronEvent where
  /-- A locked section. -/
  | locked (op : CronOperation)
  /-- `runDueJob` starts an execution of the tick. -/
  | started (id : Str) (startedAt : ℤ)

/-- One step of the service. The clocks may show anything. -/
inductive CronStep (deps : CronDeps) : CronRuns → CronEvent → CronRuns → Prop
  | read (s : CronRuns) (loadNow walkNow : ℤ) :
      CronStep deps s (.locked (.read loadNow walkNow))
        { s with store := ensureLoadedForRead deps s.store loadNow walkNow }
  /-- The id of a new job is a random UUID. -/
  | add (s : CronRuns) (input : CronJobCreate) (loadNow createNow walkNow : ℤ)
      (hfresh : input.id ∉ idsOf (s.store.current deps.toCronHost)) (hidle : input.id ∉ s.inFlight) :
      CronStep deps s (.locked (.add input loadNow createNow walkNow))
        { s with store := add deps s.store input loadNow createNow walkNow }
  | update (s : CronRuns) (id : Str) (patch : CronJobPatch) (loadNow nowMs : ℤ) :
      CronStep deps s (.locked (.update id patch loadNow nowMs))
        { s with store := update deps s.store id patch loadNow nowMs }
  | remove (s : CronRuns) (id : Str) (loadNow : ℤ) :
      CronStep deps s (.locked (.remove id loadNow))
        { s with store := remove deps s.store id loadNow }
  | preflight (s : CronRuns) (id : Str) (mode : CronRunMode) (specError : Str)
      (loadNow walkNow nowMs endWalkNow : ℤ) :
      CronStep deps s (.locked (.preflight id mode specError loadNow walkNow nowMs endWalkNow))
        { s with
          store := (inspectManualRunPreflight deps s.store id mode specError loadNow walkNow nowMs
            endWalkNow).1
          preflights := match (inspectManualRunPreflight deps s.store id mode specError loadNow
              walkNow nowMs endWalkNow).2 with
            | .runnable now => (id, now) :: s.preflights
            | _ => s.preflights }
  | reserve (s : CronRuns) (id : Str) (preflightNow : ℤ)
      (hpreflight : (id, preflightNow) ∈ s.preflights) :
      CronStep deps s (.locked (.reserve id preflightNow))
        { s with
          store := (reserveManualRun s.store id preflightNow).1
          preflights := s.preflights.erase (id, preflightNow)
          manual := if (reserveManualRun s.store id preflightNow).2 then id :: s.manual
            else s.manual }
  | finishRun (s : CronRuns) (id : Str) (mode : CronRunMode) (result : CronRunResult)
      (loadNow reloadNow walkNow : ℤ) (hrun : id ∈ s.manual) :
      CronStep deps s (.locked (.finishRun id mode result loadNow reloadNow walkNow))
        { s with
          store := finishPreparedManualRun deps s.store id mode result loadNow reloadNow walkNow
          manual := s.manual.erase id }
  /-- A timer that fires during a tick does nothing. -/
  | scan (s : CronRuns) (loadNow dueCheckNow nowMs : ℤ) (hrun : s.tick = []) :
      CronStep deps s (.locked (.scan loadNow dueCheckNow nowMs))
        { s with
          store := (scanDueJobs deps s.store loadNow dueCheckNow nowMs).1
          tick := idsOf (scanDueJobs deps s.store loadNow dueCheckNow nowMs).2 }
  /-- The job of the tick is still the one in memory. Otherwise nothing happens to the store. -/
  | start (s : CronRuns) (id : Str) (startedAt : ℤ) (hrun : id ∈ s.tick) :
      CronStep deps s (.started id startedAt)
        { s with store := s.store.mapJobs (updateJob id (·.setRunning (some startedAt))) }
  | applyOutcomes (s : CronRuns) (outcomes : List (Str × CronRunResult)) (loadNow walkNow : ℤ)
      (hrun : outcomes.map Prod.fst = s.tick) (hsome : s.tick ≠ []) :
      CronStep deps s (.locked (.applyOutcomes outcomes loadNow walkNow))
        { s with
          store := applyDueOutcomes deps s.store outcomes loadNow walkNow
          tick := [] }

/-- The step does not clear the marker of a job in flight, except where it ends its
execution. -/
def KeepsMarkers (deps : CronDeps) (s : CronRuns) : CronEvent → Prop
  | .started _ _ => True
  | .locked op => ∀ id ∈ s.inFlight, ¬ op.Ends id →
    ∀ job ∈ jobsWith id (op.workedOn deps s.store), op.KeepsMarker deps s.store job

/-! ## The invariant -/

/-- The jobs in flight are distinct and marked. -/
structure IsGuarded (s : CronRuns) : Prop where
  exclusive : Exclusive (Marked s.store) s.inFlight
  distinct : HasDistinctIds s.store
  loaded : s.inFlight ≠ [] → s.store.jobs.isSome = true

theorem isGuarded_idle {store : CronStore} (h : HasDistinctIds store) :
    IsGuarded (.idle store) where
  exclusive := .nil
  distinct := h
  loaded hne := absurd rfl hne

/-- A step that starts and ends nothing. -/
theorem IsGuarded.same {s t : CronRuns} (h : IsGuarded s) (hready : IsReady t.store)
    (hflight : t.inFlight = s.inFlight)
    (hkept : s.store.jobs.isSome = true → ∀ id ∈ s.inFlight, Marked s.store id →
      Marked t.store id) : IsGuarded t where
  exclusive := by
    rw [hflight]
    refine h.exclusive.keep (List.Subperm.refl _) fun id hid => ?_
    exact hkept (h.loaded (ne_nil_of_mem hid)) id hid (h.exclusive.marked id hid)
  distinct := hready.toHasDistinctIds
  loaded _ := hready.loaded

/-- A step that ends executions. -/
theorem IsGuarded.less {s t : CronRuns} (h : IsGuarded s) (hready : IsReady t.store)
    (hflight : t.inFlight.Sublist s.inFlight)
    (hkept : ∀ id ∈ t.inFlight, Marked s.store id → Marked t.store id) : IsGuarded t where
  exclusive := h.exclusive.keep hflight.subperm fun id hid =>
    hkept id hid (h.exclusive.marked id (hflight.subset hid))
  distinct := hready.toHasDistinctIds
  loaded _ := hready.loaded

theorem IsGuarded.reserve {s : CronRuns} (h : IsGuarded s) (id : Str) (preflightNow : ℤ)
    (preflights : List (Str × ℤ)) : IsGuarded { s with
      store := (reserveManualRun s.store id preflightNow).1
      preflights := preflights
      manual := if (reserveManualRun s.store id preflightNow).2 then id :: s.manual
        else s.manual } := by
  cases hreserved : (reserveManualRun s.store id preflightNow).2 with
  | false =>
    refine ⟨?_, h.distinct.reserve id preflightNow, ?_⟩
    · exact h.exclusive.keep (List.Subperm.refl _) fun other hother =>
        (h.exclusive.marked other hother).reserve
    · intro hne
      have hloaded := h.loaded hne
      unfold reserveManualRun
      split
      · exact hloaded
      split
      · exact hloaded
      · rw [CronStore.persist_jobs, CronStore.mapJobs_jobs, isSome_map]
        exact hloaded
  | true =>
    obtain ⟨hmarked, hloaded⟩ := marked_of_reserved h.distinct hreserved
    have hstarted : Exclusive (Marked (reserveManualRun s.store id preflightNow).1)
        ([id] ++ s.inFlight) := h.exclusive.start (nodup_singleton id)
      (fun other hother => by
        rw [mem_singleton.mp hother]
        exact not_marked_of_reserved hreserved)
      (fun other hother => (h.exclusive.marked other hother).reserve)
      (fun other hother => by
        rw [mem_singleton.mp hother]
        exact hmarked)
    refine ⟨hstarted.perm perm_middle, h.distinct.reserve id preflightNow, fun _ => hloaded⟩

theorem IsGuarded.scan {s : CronRuns} (h : IsGuarded s) (loadNow dueCheckNow now : ℤ)
    (hrun : s.tick = []) (hkeeps : KeepsMarkers deps s (.locked (.scan loadNow dueCheckNow now))) :
    IsGuarded { s with
      store := (scanDueJobs deps s.store loadNow dueCheckNow now).1
      tick := idsOf (scanDueJobs deps s.store loadNow dueCheckNow now).2 } := by
  have hready : IsReady (scanDueJobs deps s.store loadNow dueCheckNow now).1 :=
    h.distinct.scan loadNow dueCheckNow now
  refine ⟨?_, hready.toHasDistinctIds, fun _ => hready.loaded⟩
  have hmanual : s.inFlight = s.manual := by
    unfold CronRuns.inFlight
    rw [hrun, nil_append]
  have hexclusive := h.exclusive
  rw [hmanual] at hexclusive
  refine hexclusive.start (scan_nodup h.distinct ..) (fun id hid => ?_) (fun id hid => ?_)
    (fun id hid => ?_)
  · obtain ⟨job, hjob, rfl⟩ := mem_map.mp hid
    exact (scan_spec h.distinct hjob).1
  · refine (hexclusive.marked id hid).scan fun hnone job hjob => ?_
    exact hkeeps id (hmanual ▸ hid) (fun hends => hends) job hjob hnone
  · obtain ⟨job, hjob, rfl⟩ := mem_map.mp hid
    exact (scan_spec h.distinct hjob).2

theorem IsGuarded.start {s : CronRuns} (h : IsGuarded s) (id : Str) (startedAt : ℤ)
    (hrun : id ∈ s.tick) : IsGuarded { s with
      store := s.store.mapJobs (updateJob id (·.setRunning (some startedAt))) } := by
  have hloaded := h.loaded (ne_nil_of_mem (mem_append_left _ hrun))
  obtain ⟨jobs, hjobs⟩ := Option.isSome_iff_exists.mp hloaded
  have hmemory : (s.store.mapJobs (updateJob id (·.setRunning (some startedAt)))).jobs =
      some (updateJob id (·.setRunning (some startedAt)) jobs) := by
    rw [CronStore.mapJobs_jobs, hjobs]
    rfl
  have hdistinct : (idsOf (updateJob id (·.setRunning (some startedAt)) jobs)).Nodup := by
    have := h.distinct.memory
    rw [hjobs, getD_some] at this
    rw [idsOf_updateJob (f := (·.setRunning (some startedAt))) fun _ hid => hid]
    exact this
  refine h.same (h.distinct.ready_load hmemory hdistinct rfl) rfl fun _ other _ hmarked => ⟨?_, ?_⟩
  · rw [hmemory, getD_some]
    have hbefore := hmarked.memory
    rw [hjobs, getD_some] at hbefore
    exact hbefore.updateJob fun _ _ _ => rfl
  · exact hmarked.disk

/-- What a step preserves. -/
theorem IsGuarded.step {s t : CronRuns} {event : CronEvent} (h : IsGuarded s)
    (hstep : CronStep deps s event t) (hkeeps : KeepsMarkers deps s event) : IsGuarded t := by
  cases hstep with
  | read loadNow walkNow =>
    exact h.same (h.distinct.read loadNow walkNow) rfl fun _ id hid hmarked =>
      hmarked.read (hkeeps id hid fun hends => hends)
  | add input loadNow createNow walkNow hfresh hidle =>
    refine h.same (h.distinct.add input loadNow createNow walkNow hfresh) rfl
      fun hloaded id hid hmarked => ?_
    have hne : input.id ≠ id := fun heq => hidle (heq ▸ hid)
    exact hmarked.add hloaded hne fun hcreated job hjob =>
      hkeeps id hid (fun hends => hends) job hjob hcreated
  | update id' patch loadNow now =>
    refine h.same (h.distinct.update id' patch loadNow now) rfl fun hloaded id hid hmarked => ?_
    exact hmarked.update hloaded (hkeeps id hid fun hends => hends)
  | remove id' loadNow =>
    exact h.same (h.distinct.remove id' loadNow) rfl fun hloaded _ _ hmarked =>
      hmarked.remove hloaded
  | preflight id' mode specError loadNow walkNow now endWalkNow =>
    refine h.same (h.distinct.preflight id' mode specError loadNow walkNow now endWalkNow) rfl
      fun _ id hid hmarked => ?_
    have hkept := hkeeps id hid fun hends => hends
    exact hmarked.preflight (fun job hjob => (hkept job hjob).1) fun job hjob => (hkept job hjob).2
  | reserve id' preflightNow hpreflight => exact h.reserve id' preflightNow _
  | finishRun id' mode result loadNow reloadNow walkNow hrun =>
    -- the other executions are of other jobs
    have hdisjoint : id' ∉ s.tick := by
      intro htick
      exact disjoint_of_nodup_append h.exclusive.nodup htick hrun
    have herase : (s.tick ++ s.manual).erase id' = s.tick ++ s.manual.erase id' :=
      erase_append_right _ hdisjoint
    refine h.less (h.distinct.finishRun id' mode result loadNow reloadNow walkNow)
      (show (s.tick ++ s.manual.erase id').Sublist (s.tick ++ s.manual) from
        herase ▸ erase_sublist) fun id hid hmarked => ?_
    have hmem : id ∈ (s.tick ++ s.manual).erase id' := herase ▸ hid
    have hother := h.exclusive.nodup.mem_erase_iff.mp hmem
    have hne : id' ≠ id := fun heq => hother.1 heq.symm
    exact hmarked.finishRun hne fun hfound job hjob => hkeeps id hother.2 hne job hjob hfound
  | scan loadNow dueCheckNow now hrun => exact h.scan loadNow dueCheckNow now hrun hkeeps
  | start id' startedAt hrun => exact h.start id' startedAt hrun
  | applyOutcomes outcomes loadNow walkNow hrun hsome =>
    have hmanual : ∀ id ∈ s.manual, id ∉ s.tick := fun id hid htick =>
      disjoint_of_nodup_append h.exclusive.nodup htick hid
    refine h.less (h.distinct.applyOutcomes outcomes loadNow walkNow)
      (sublist_append_right s.tick s.manual) fun id hid hmarked => ?_
    have hother : ∀ outcome ∈ outcomes, outcome.1 ≠ id := by
      intro outcome houtcome heq
      exact hmanual id hid (hrun ▸ heq ▸ mem_map_of_mem (f := Prod.fst) houtcome)
    refine hmarked.applyOutcomes hother ?_
    apply hkeeps id (mem_append_right _ hid)
    rintro ⟨outcome, houtcome, heq⟩
    exact hother outcome houtcome heq

/-! ## Exclusion -/

/-- No job has two executions in flight, as long as no locked section clears the marker of a
job in flight. -/
theorem inFlight_nodup {store : CronStore} {events : List CronEvent} {t : CronRuns}
    (hdistinct : HasDistinctIds store)
    (h : Run (fun s event t => CronStep deps s event t ∧ KeepsMarkers deps s event)
      (.idle store) events t) : t.inFlight.Nodup :=
  (h.invariant IsGuarded (fun hs hstep => hs.step hstep.1 hstep.2)
    (isGuarded_idle hdistinct)).exclusive.nodup

/-- A job that runs every minute, as the service has it after a load. -/
def loadedStore : CronStore where
  jobs := some [dueJob]
  configFile := [{ dueJob with state := {} }]
  stateFile _ := some ⟨tryCronScheduleIdentity dueJob, dueJob.state⟩

theorem loadedStore_distinct : HasDistinctIds loadedStore := ⟨by decide, by decide⟩

/-- The start of a manual run that is forced. -/
def forceRun (now : ℤ) : List CronEvent :=
  [.locked (.preflight "job".toList .force [] now now now now),
    .locked (.reserve "job".toList now)]

def CronRuns.forced (deps : CronDeps) (s : CronRuns) (now : ℤ) : CronRuns :=
  let preflight := inspectManualRunPreflight deps s.store "job".toList .force [] now now now now
  { s with
    store := (reserveManualRun preflight.1 "job".toList now).1
    manual := if (reserveManualRun preflight.1 "job".toList now).2 then "job".toList :: s.manual
      else s.manual }

/-- A forced run starts where the job is runnable, in whatever way its steps are restricted. -/
theorem run_forceRun {allowed : CronRuns → CronEvent → Prop} {s : CronRuns} {now : ℤ}
    (hallowed : ∀ t event, t.inFlight = s.inFlight → allowed t event)
    (hrunnable : (inspectManualRunPreflight deps s.store "job".toList .force [] now now now now).2 =
      .runnable now) :
    Run (fun s event t => CronStep deps s event t ∧ allowed s event) s (forceRun now)
      (s.forced deps now) := by
  have hpreflight : CronStep deps s _ _ :=
    .preflight s "job".toList .force [] now now now now
  rw [hrunnable] at hpreflight
  have hreserve : CronStep deps _ _ _ := .reserve
    { s with
      store := (inspectManualRunPreflight deps s.store "job".toList .force [] now now now now).1
      preflights := ("job".toList, now) :: s.preflights } "job".toList now mem_cons_self
  rw [erase_cons_head] at hreserve
  exact .cons ⟨hpreflight, hallowed _ _ rfl⟩ (.single ⟨hreserve, hallowed _ _ rfl⟩)

theorem keepsMarkers_of_idle {s : CronRuns} (h : s.inFlight = []) (event : CronEvent) :
    KeepsMarkers deps s event := by
  cases event with
  | started id startedAt => exact trivial
  | locked op =>
    intro id hid
    rw [h] at hid
    exact absurd hid not_mem_nil

/-- The job of the store while it runs. -/
def runningJob : CronJob := dueJob.setRunning (some 60500)

/-- A run is listed while it is in flight. -/
theorem inFlight_nodup_listed : ∃ t,
    Run (fun s event t => CronStep (minutely none) s event t ∧ KeepsMarkers (minutely none) s event)
      (.idle loadedStore) (forceRun 60500 ++ [.locked (.read 61000 61000)]) t ∧
    t.inFlight.Nodup := by
  have hstarted : Run (fun s event t => CronStep (minutely none) s event t ∧
      KeepsMarkers (minutely none) s event) (.idle loadedStore) (forceRun 60500) _ :=
    run_forceRun (fun t event h => keepsMarkers_of_idle h event) (by decide +kernel)
  have hjobs : ((CronRuns.idle loadedStore).forced (minutely none) 60500).store.current
      (minutely none).toCronHost = [runningJob] := by
    decide +kernel
  have hkeeps : KeepsMarkers (minutely none) ((CronRuns.idle loadedStore).forced (minutely none) 60500)
      (.locked (.read 61000 61000)) := by
    intro id hid _ job hjob
    have hmem : job ∈ [runningJob] := hjobs ▸ (mem_jobsWith.mp hjob).1
    obtain rfl := mem_singleton.mp hmem
    refine ⟨by decide, fun runningAt hrunning => ?_⟩
    obtain rfl : (60500 : ℤ) = runningAt := some.inj hrunning
    decide
  have hlisted := hstarted.snoc ⟨.read _ 61000 61000, hkeeps⟩
  exact ⟨_, hlisted, inFlight_nodup loadedStore_distinct hlisted⟩

/-- After two hours the marker of the first run is taken for a stuck one. -/
theorem exists_run_twice_stuck : ∃ t, Run (CronStep (minutely none)) (.idle loadedStore)
      (forceRun 60500 ++ forceRun (60500 + stuckRunMs + 1)) t ∧
    t.inFlight = ["job".toList, "job".toList] :=
  ⟨_, ((run_forceRun (fun _ _ _ => trivial) (by decide +kernel)).append
    (run_forceRun (fun _ _ _ => trivial) (by decide +kernel))).mono And.left, by decide +kernel⟩

/-- Not every run of the service executes its jobs one at a time. -/
theorem not_inFlight_nodup : ¬ ∀ (deps : CronDeps) (store : CronStore) (events : List CronEvent)
    (t : CronRuns), HasDistinctIds store → Run (CronStep deps) (.idle store) events t →
    t.inFlight.Nodup := by
  intro hall
  obtain ⟨t, hrun, hflight⟩ := exists_run_twice_stuck
  have hnodup := hall _ _ _ t loadedStore_distinct hrun
  rw [hflight] at hnodup
  exact nomatch hnodup

end OpenClaw
