import Mathlib.Data.List.Forall2
import Mathlib.Data.List.Nodup
import OpenClaw.Cron.Files

/-!
# A save that is cut short

What a load finds after a save, and after one that has written the state file only. A job of
the config file without an entry in the new state file comes back with the state that the
config file itself gives it.
-/

namespace OpenClaw

open List Json

variable {now : Json} {job job' : JsonRecord} {store new : List JsonRecord}

/-! ## Records -/

/-- The records have the same fields. -/
def SameFields (job job' : JsonRecord) : Prop := ∀ key, Json.lookup job key = Json.lookup job' key

/-- The records have the same fields, except for those that change at run time. -/
def SameConfig (job job' : JsonRecord) : Prop :=
  ∀ key, key ≠ "state".toList → key ≠ "updatedAtMs".toList →
    Json.lookup job key = Json.lookup job' key

theorem SameConfig.trans {job'' : JsonRecord} (h : SameConfig job job') (h' : SameConfig job' job'') :
    SameConfig job job'' :=
  fun key hstate hupdated => (h key hstate hupdated).trans (h' key hstate hupdated)

variable (job)

theorem sameConfig_insert_state (value : Json) :
    SameConfig (Json.insert job "state".toList value) job :=
  fun _ hstate _ => lookup_insert_of_ne job value hstate

theorem sameConfig_insert_updatedAtMs (value : Json) :
    SameConfig (Json.insert job "updatedAtMs".toList value) job :=
  fun _ _ hupdated => lookup_insert_of_ne job value hupdated

theorem sameConfig_strippedJob : SameConfig (strippedJob job) job := by
  intro key hstate hupdated
  unfold strippedJob
  rw [lookup_append, lookup_erase_of_ne _ hupdated, lookup_erase_of_ne _ hstate,
    lookup_singleton, if_neg fun heq => hstate heq.symm, Option.or_none]

variable {job}

namespace SameConfig

section

variable (h : SameConfig job job')
include h

theorem jobKey : jobKey job = jobKey job' := by
  unfold OpenClaw.jobKey
  rw [h "id".toList (by decide) (by decide)]

theorem readString (key : Str) (hstate : key ≠ "state".toList)
    (hupdated : key ≠ "updatedAtMs".toList) : readString job key = readString job' key := by
  unfold OpenClaw.readString
  rw [h key hstate hupdated]

theorem readNumber (key : Str) (hstate : key ≠ "state".toList)
    (hupdated : key ≠ "updatedAtMs".toList) : readNumber job key = readNumber job' key := by
  unfold OpenClaw.readNumber
  rw [h key hstate hupdated]

theorem schedulePayload : schedulePayloadFromRecord job = schedulePayloadFromRecord job' := by
  have hkind : scheduleKind job = scheduleKind job' := by
    unfold scheduleKind
    rw [h.readString "kind".toList (by decide) (by decide),
      h.readString "expr".toList (by decide) (by decide),
      h.readString "cron".toList (by decide) (by decide),
      h.readString "at".toList (by decide) (by decide),
      h.readNumber "atMs".toList (by decide) (by decide),
      h.readNumber "everyMs".toList (by decide) (by decide)]
  unfold schedulePayloadFromRecord
  rw [hkind, h.readString "expr".toList (by decide) (by decide),
    h.readString "cron".toList (by decide) (by decide),
    h.readString "at".toList (by decide) (by decide),
    h.readString "tz".toList (by decide) (by decide),
    h.readNumber "atMs".toList (by decide) (by decide),
    h.readNumber "everyMs".toList (by decide) (by decide),
    h.readNumber "anchorMs".toList (by decide) (by decide),
    h.readNumber "staggerMs".toList (by decide) (by decide)]

/-- The schedule identity does not depend on what changes at run time. -/
theorem scheduleIdentity : fileScheduleIdentity job = fileScheduleIdentity job' := by
  unfold fileScheduleIdentity resolveSchedulePayload
  rw [h "schedule".toList (by decide) (by decide), h "enabled".toList (by decide) (by decide),
    h.schedulePayload]

end

end SameConfig

/-! ## Loading a job -/

variable (job)

theorem sameConfig_ensureJobStateObject : SameConfig (ensureJobStateObject job) job := by
  unfold ensureJobStateObject
  split
  · exact fun _ _ _ => rfl
  · exact sameConfig_insert_state job _

theorem sameConfig_backfill : SameConfig (backfillMissingRuntimeFields now job) job := by
  unfold backfillMissingRuntimeFields
  dsimp only
  split
  · exact sameConfig_ensureJobStateObject job
  · exact (sameConfig_insert_updatedAtMs _ _).trans (sameConfig_ensureJobStateObject job)

theorem sameConfig_mergeFileEntry (entry : Json) :
    SameConfig (mergeFileEntry now job entry) job := by
  have hinserted (updatedAtMs state : Json) : SameConfig
      (Json.insert (Json.insert job "updatedAtMs".toList updatedAtMs) "state".toList state) job :=
    (sameConfig_insert_state _ _).trans (sameConfig_insert_updatedAtMs _ _)
  unfold mergeFileEntry
  dsimp only
  split
  · split
    · exact hinserted _ _
    · exact ((sameConfig_insert_state _ _).trans (sameConfig_ensureJobStateObject _)).trans
        (hinserted _ _)
  · exact hinserted _ _

variable {job}

/-- A load changes the runtime fields of a job only. -/
theorem sameConfig_loadJob (stateFile : Option JsonRecord) (hasLegacyInlineState : Bool)
    (job : JsonRecord) : SameConfig (loadJob now stateFile hasLegacyInlineState job) job := by
  unfold loadJob
  refine (sameConfig_ensureJobStateObject _).trans ?_
  split
  · split
    · exact sameConfig_mergeFileEntry job _
    · exact sameConfig_backfill job
  · split
    · exact fun _ _ _ => rfl
    · exact sameConfig_backfill job

variable (job)

def stateOf : Option Json := Json.lookup job "state".toList

theorem stateOf_insert_updatedAtMs (value : Json) :
    stateOf (Json.insert job "updatedAtMs".toList value) = stateOf job :=
  lookup_insert_of_ne job value (by decide)

theorem stateOf_backfill :
    stateOf (backfillMissingRuntimeFields now job) = stateOf (ensureJobStateObject job) := by
  unfold backfillMissingRuntimeFields
  dsimp only
  split
  · rfl
  · exact stateOf_insert_updatedAtMs ..

variable {job}

variable {fields newJob : JsonRecord}

theorem ensureJobStateObject_of_object (h : stateOf job = some (.object fields)) :
    ensureJobStateObject job = job := by
  unfold ensureJobStateObject
  unfold stateOf at h
  rw [h]
  rfl

/-! ## The new state file -/

theorem lookup_setEntry (entries : JsonRecord) {key key' : Str} (entry : Json) (hne : key' ≠ key) :
    Json.lookup (setEntry entries key entry) key' = Json.lookup entries key' := by
  unfold setEntry
  split
  · rfl
  · exact lookup_insert_of_ne entries entry hne

theorem lookup_stateEntries_of_notMem {key : Str} (h : key ∉ store.map jobKey)
    (entries : JsonRecord) :
    Json.lookup (store.foldl (fun entries job => setEntry entries (jobKey job) (stateFileEntry job))
      entries) key = Json.lookup entries key := by
  induction store generalizing entries with
  | nil => rfl
  | cons first rest ih =>
    rw [map_cons, mem_cons, not_or] at h
    rw [foldl_cons, ih h.2, lookup_setEntry _ _ h.1]

theorem lookup_stateEntries (hnodup : (store.map jobKey).Nodup) (hjob : job ∈ store)
    (hproto : jobKey job ≠ "__proto__".toList) :
    Json.lookup (stateEntries store) (jobKey job) = some (stateFileEntry job) := by
  obtain ⟨earlier, later, rfl⟩ := append_of_mem hjob
  have hlater : jobKey job ∉ later.map jobKey := by
    rw [map_append, map_cons] at hnodup
    exact (nodup_cons.mp (nodup_append.mp hnodup).2.1).1
  unfold stateEntries
  rw [foldl_append, foldl_cons, lookup_stateEntries_of_notMem hlater]
  unfold setEntry
  rw [if_neg hproto, lookup_insert]

theorem lookup_stateEntries_proto (store : List JsonRecord) (entries : JsonRecord)
    (hnone : Json.lookup entries "__proto__".toList = none) :
    Json.lookup (store.foldl (fun entries job => setEntry entries (jobKey job) (stateFileEntry job))
      entries) "__proto__".toList = none := by
  induction store generalizing entries with
  | nil => exact hnone
  | cons first rest ih =>
    rw [foldl_cons]
    apply ih
    unfold setEntry
    split
    · exact hnone
    · rename_i hne
      rw [lookup_insert_of_ne _ _ fun heq => hne heq.symm, hnone]

/-- A store of the service: the ids are distinct, and every job has its runtime fields. -/
structure IsCronStore (store : List JsonRecord) : Prop where
  distinct : (store.map jobKey).Nodup
  updated : ∀ job ∈ store, ∃ text, Json.lookup job "updatedAtMs".toList = some (.number text) ∧
    isFiniteText text = true
  state : ∀ job ∈ store, ∃ fields, stateOf job = some (.object fields)

/-- The state that a job of the config file gets from the state file of this job. -/
def restoredState (newJob job : JsonRecord) : Option Json :=
  if (fileScheduleIdentity newJob).isSome ∧ fileScheduleIdentity newJob ≠ fileScheduleIdentity job then
    (stateOf newJob).map clearNextRun
  else stateOf newJob

theorem stateFileEntry_fields (job : JsonRecord) :
    (stateFileEntry job).get? "updatedAtMs".toList = Json.lookup job "updatedAtMs".toList ∧
      (stateFileEntry job).get? "scheduleIdentity".toList = (fileScheduleIdentity job).map .string ∧
      (stateFileEntry job).get? "state".toList = some (orEmptyObject (stateOf job)) := by
  unfold stateFileEntry Json.get? Json.entries? stateOf
  dsimp only
  rw [Option.bind_some, Option.bind_some, Option.bind_some]
  have hoptional (key key' : Str) (value : Option Json) :
      Json.lookup (optionalEntry key value) key' = if key = key' then value else none := by
    unfold optionalEntry
    cases value with
    | none => simp [Json.lookup]
    | some value => exact lookup_singleton ..
  refine ⟨?_, ?_, ?_⟩
  · rw [lookup_append, lookup_append, hoptional, hoptional, lookup_singleton]
    simp
  · rw [lookup_append, lookup_append, hoptional, hoptional, lookup_singleton]
    simp
  · rw [lookup_append, lookup_append, hoptional, hoptional, lookup_singleton]
    simp

theorem orEmptyObject_object (fields : JsonRecord) :
    orEmptyObject (some (.object fields)) = .object fields := rfl

/-- A job of the config file with the entry of a job of the store. -/
theorem mergeFileEntry_stored {text : Str} (hstate : stateOf newJob = some (.object fields))
    (hupdated : Json.lookup newJob "updatedAtMs".toList = some (.number text))
    (hfinite : isFiniteText text = true) (job : JsonRecord) :
    stateOf (mergeFileEntry now job (stateFileEntry newJob)) = restoredState newJob job ∧
      Json.lookup (mergeFileEntry now job (stateFileEntry newJob)) "updatedAtMs".toList =
        Json.lookup newJob "updatedAtMs".toList := by
  obtain ⟨hentryUpdated, hentryIdentity, hentryState⟩ := stateFileEntry_fields newJob
  have htime : resolveUpdatedAtMs now job (some (.number text)) = .number text := by
    unfold resolveUpdatedAtMs finiteNumber?
    dsimp only
    rw [if_pos hfinite]
    rfl
  unfold mergeFileEntry restoredState
  rw [hentryUpdated, hentryIdentity, hentryState, hstate, hupdated, htime]
  dsimp only [Option.map_some]
  rw [orEmptyObject_object]
  set merged := Json.insert (Json.insert job "updatedAtMs".toList (.number text)) "state".toList
    (orEmptyObject (some (.object fields))) with hmerged
  have hmergedState : stateOf merged = some (.object fields) := lookup_insert ..
  have hmergedUpdated : Json.lookup merged "updatedAtMs".toList = some (.number text) := by
    rw [hmerged, lookup_insert_of_ne _ _ (by decide), lookup_insert]
  have hidentity : fileScheduleIdentity merged = fileScheduleIdentity job :=
    ((sameConfig_insert_state _ _).trans (sameConfig_insert_updatedAtMs _ _)).scheduleIdentity
  cases hnewIdentity : fileScheduleIdentity newJob with
  | none => exact ⟨hmergedState, hmergedUpdated⟩
  | some identity =>
    dsimp only [Option.map_some]
    rw [hidentity]
    by_cases hsame : some identity = fileScheduleIdentity job
    · rw [if_pos hsame, if_neg fun hdiffers => hdiffers.2 hsame]
      exact ⟨hmergedState, hmergedUpdated⟩
    · rw [if_neg hsame, if_pos ⟨rfl, hsame⟩]
      rw [ensureJobStateObject_of_object hmergedState]
      refine ⟨?_, ?_⟩
      · show Json.lookup (Json.insert merged _ (clearNextRun (orEmptyObject (stateOf merged)))) _ = _
        rw [lookup_insert, hmergedState]
        rfl
      · rw [lookup_insert_of_ne _ _ (by decide)]
        exact hmergedUpdated

theorem restoredState_object (hstate : stateOf newJob = some (.object fields)) (job : JsonRecord) :
    ∃ fields', restoredState newJob job = some (.object fields') := by
  unfold restoredState
  rw [hstate]
  split
  · exact ⟨_, rfl⟩
  · exact ⟨fields, rfl⟩

/-- What is inherited leaves an empty state. -/
theorem mergeFileEntry_inherited (job : JsonRecord) :
    stateOf (mergeFileEntry now job (.object [])) = some (.object []) ∧
      Json.lookup (mergeFileEntry now job (.object [])) "updatedAtMs".toList =
        some (resolveUpdatedAtMs now job none) := by
  show stateOf (Json.insert (Json.insert job _ (resolveUpdatedAtMs now job none)) _ (.object [])) = _ ∧
    Json.lookup (Json.insert (Json.insert job _ (resolveUpdatedAtMs now job none)) _ (.object [])) _ = _
  refine ⟨lookup_insert .., ?_⟩
  rw [lookup_insert_of_ne _ _ (by decide), lookup_insert]

/-- The state that the config file alone gives a job. -/
def bareState (job : JsonRecord) : Option Json :=
  if jobKey job ∈ objectPrototypeKeys then some (.object []) else stateOf (ensureJobStateObject job)

theorem loadJob_some_entry {entries : JsonRecord} {entry : Json}
    (h : findEntry entries (jobKey job) = some entry) (legacy : Bool) :
    loadJob now (some entries) legacy job = ensureJobStateObject (mergeFileEntry now job entry) := by
  unfold loadJob
  dsimp only
  rw [h]

section New

variable (hnew : IsCronStore new)

include hnew

/-- A job with an entry of its own in the new state file. -/
theorem loadJob_stored (hmem : newJob ∈ new) (hkey : jobKey newJob = jobKey job)
    (hproto : jobKey job ≠ "__proto__".toList) (legacy : Bool) :
    stateOf (loadJob now (some (stateEntries new)) legacy job) = restoredState newJob job ∧
      Json.lookup (loadJob now (some (stateEntries new)) legacy job) "updatedAtMs".toList =
        Json.lookup newJob "updatedAtMs".toList := by
  obtain ⟨text, hupdated, hfinite⟩ := hnew.updated newJob hmem
  obtain ⟨fields, hstate⟩ := hnew.state newJob hmem
  have hentry : findEntry (stateEntries new) (jobKey job) = some (stateFileEntry newJob) := by
    unfold findEntry
    rw [← hkey] at hproto ⊢
    rw [lookup_stateEntries hnew.distinct hmem hproto]
    rfl
  obtain ⟨hmergedState, hmergedUpdated⟩ :
      stateOf (mergeFileEntry now job (stateFileEntry newJob)) = restoredState newJob job ∧ _ :=
    mergeFileEntry_stored hstate hupdated hfinite job
  obtain ⟨fields', hobject⟩ := restoredState_object hstate job
  rw [loadJob_some_entry hentry, ensureJobStateObject_of_object (hmergedState.trans hobject)]
  exact ⟨hmergedState, hmergedUpdated⟩

end New

/-- A job without an entry in the new state file. -/
theorem stateOf_loadJob_bare (hnone : jobKey job ∉ new.map jobKey) (legacy : Bool) :
    stateOf (loadJob now (some (stateEntries new)) legacy job) = bareState job := by
  have hlookup : Json.lookup (stateEntries new) (jobKey job) = none :=
    lookup_stateEntries_of_notMem hnone []
  unfold bareState
  by_cases hinherited : jobKey job ∈ objectPrototypeKeys
  · have hentry : findEntry (stateEntries new) (jobKey job) = some (.object []) := by
      unfold findEntry
      rw [hlookup]
      exact if_pos hinherited
    obtain ⟨hstate, _⟩ : stateOf (mergeFileEntry now job (.object [])) = _ ∧ _ :=
      mergeFileEntry_inherited job
    rw [loadJob_some_entry hentry, ensureJobStateObject_of_object hstate, if_pos hinherited, hstate]
  · have hentry : findEntry (stateEntries new) (jobKey job) = none := by
      unfold findEntry
      rw [hlookup]
      exact if_neg hinherited
    rw [if_neg hinherited]
    unfold loadJob
    dsimp only
    rw [hentry]
    dsimp only
    have hobject : isJsonObject (stateOf (ensureJobStateObject job)) = true := by
      by_cases hstate : isJsonObject (stateOf job) = true
      · have hsame : ensureJobStateObject job = job := if_pos hstate
        rw [hsame]
        exact hstate
      · have hinserted : ensureJobStateObject job = Json.insert job "state".toList (.object []) :=
          if_neg hstate
        rw [hinserted]
        unfold stateOf
        rw [lookup_insert]
        rfl
    have hbackfilled : ensureJobStateObject (backfillMissingRuntimeFields now job) =
        backfillMissingRuntimeFields now job := by
      refine if_pos ?_
      show isJsonObject (stateOf _) = true
      rw [stateOf_backfill]
      exact hobject
    rw [hbackfilled, stateOf_backfill]

/-- The key that no entry can have. -/
theorem stateOf_loadJob_proto (hproto : jobKey job = "__proto__".toList) (legacy : Bool) :
    stateOf (loadJob now (some (stateEntries new)) legacy job) = some (.object []) ∧
      Json.lookup (loadJob now (some (stateEntries new)) legacy job) "updatedAtMs".toList =
        some (resolveUpdatedAtMs now job none) := by
  have hentry : findEntry (stateEntries new) (jobKey job) = some (.object []) := by
    unfold findEntry stateEntries
    rw [hproto, lookup_stateEntries_proto new [] rfl]
    exact if_pos (by decide)
  obtain ⟨hstate, hupdated⟩ : stateOf (mergeFileEntry now job (.object [])) = _ ∧ _ :=
    mergeFileEntry_inherited job
  rw [loadJob_some_entry hentry, ensureJobStateObject_of_object hstate]
  exact ⟨hstate, hupdated⟩

/-! ## Saves -/

variable {cache : SerializedStoreCacheEntry} {files : CronFiles} {stateOnly : Bool}

theorem eq_of_not_needsWrite {file : Option FileContent} {expected : Json} {contentChanged : Bool}
    (h : serializedFileNeedsWrite file expected contentChanged = false) :
    file = some (.json expected) := by
  unfold serializedFileNeedsWrite at h
  replace h := (Bool.or_eq_false_iff.mp h).2
  split at h
  · rename_i value
    have hsame : Json.same value expected = true := by simpa using h
    rw [eq_of_same hsame]
  · exact nomatch h

variable (cache files)

/-- Returning early skips no write that is needed. -/
theorem savePlan_eq (new : List JsonRecord)
    (stateOnly : Bool) : savePlan cache files new stateOnly =
      ⟨serializedFileNeedsWrite files.state (extractStateFile new)
          (!cachedIs cache.stateJson (extractStateFile new)) || cache.needsSplitMigration,
        !stateOnly && (serializedFileNeedsWrite files.config (stripRuntimeOnlyCronFields new)
          (!cachedIs cache.configJson (stripRuntimeOnlyCronFields new)) ||
            cache.needsSplitMigration)⟩ := by
  unfold savePlan
  dsimp only
  generalize serializedFileNeedsWrite files.state _ _ = stateNeedsWrite
  cases stateOnly with
  | true => cases stateNeedsWrite <;> cases cache.needsSplitMigration <;> rfl
  | false =>
    simp only [Bool.not_false, Bool.true_and]
    generalize serializedFileNeedsWrite files.config _ _ = configNeedsWrite
    cases stateNeedsWrite <;> cases configNeedsWrite <;> cases cache.needsSplitMigration <;> rfl

/-- Whatever the cache says, the state file is the new one. -/
theorem state_saveStateFile (new : List JsonRecord) (stateOnly : Bool) :
    (saveStateFile cache files new stateOnly).state = some (.json (extractStateFile new)) := by
  unfold saveStateFile
  rw [savePlan_eq]
  dsimp only
  split
  · rfl
  · rename_i hskipped
    exact eq_of_not_needsWrite (Bool.or_eq_false_iff.mp (Bool.eq_false_iff.mpr hskipped)).1

variable {cache files}

@[simp]
theorem config_saveStateFile : (saveStateFile cache files new stateOnly).config = files.config := by
  unfold saveStateFile
  split <;> rfl

variable (cache files)

/-- After a full save, the config file is the new one as well. -/
theorem config_saveCronStore
    (new : List JsonRecord) : (saveCronStore cache files new false).config =
      some (.json (stripRuntimeOnlyCronFields new)) := by
  unfold saveCronStore
  rw [savePlan_eq]
  dsimp only
  split
  · rfl
  · rename_i hskipped
    rw [config_saveStateFile]
    have hneeded := Bool.eq_false_iff.mpr hskipped
    rw [Bool.not_false, Bool.true_and] at hneeded
    exact eq_of_not_needsWrite (Bool.or_eq_false_iff.mp hneeded).1

theorem state_saveCronStore (new : List JsonRecord) (stateOnly : Bool) :
    (saveCronStore cache files new stateOnly).state = some (.json (extractStateFile new)) := by
  have hstate := state_saveStateFile cache files new stateOnly
  unfold saveCronStore
  dsimp only
  split
  · exact hstate
  · exact hstate

theorem loadStateFile_extract (new : List JsonRecord) :
    loadStateFile (some (.json (extractStateFile new))) = some (stateEntries new) := rfl

theorem jobRecords_objects (records : List JsonRecord) :
    jobRecords (records.map .object) = some records := by
  unfold jobRecords
  have hall : (records.map Json.object).filter isTruthyJson = records.map Json.object := by
    rw [filter_eq_self]
    intro value hvalue
    obtain ⟨record, _, rfl⟩ := mem_map.mp hvalue
    rfl
  rw [hall]
  induction records with
  | nil => rfl
  | cons record rest ih =>
    rw [map_cons, mapM_cons, ih (by simp [isTruthyJson])]
    rfl

/-- A load of the files that a full save leaves. -/
theorem loadCronFiles_saveCronStore
    (new : List JsonRecord) : loadCronFiles now (saveCronStore cache files new false) =
      some (new.map fun job => loadJob now (some (stateEntries new)) false (strippedJob job)) := by
  have hconfig : configJobs (saveCronStore cache files new false).config =
      some ((new.map strippedJob).map Json.object) := by
    rw [config_saveCronStore, map_map]
    rfl
  unfold loadCronFiles
  rw [hconfig, state_saveCronStore, loadStateFile_extract, Option.bind_some, jobRecords_objects,
    Option.map_some, map_map]
  rfl

variable {cache files}

/-- A load of the files after a save that has written the state file only. -/
theorem loadCronFiles_saveStateFile (cache : SerializedStoreCacheEntry) (stateOnly : Bool)
    {jobs : List Json} {records : List JsonRecord} (hjobs : configJobs files.config = some jobs)
    (hrecords : jobRecords jobs = some records) :
    loadCronFiles now (saveStateFile cache files new stateOnly) =
      some (records.map (loadJob now (some (stateEntries new)) false)) := by
  unfold loadCronFiles
  rw [config_saveStateFile, hjobs, state_saveStateFile, loadStateFile_extract, Option.bind_some,
    hrecords]
  rfl

/-! ## Round trips and recovery -/

variable (now cache files)

/-- A load after a full save gives the jobs of the store. -/
def RoundTrips (new : List JsonRecord) : Prop :=
  ∃ loaded, loadCronFiles now (saveCronStore cache files new false) = some loaded ∧
    List.Forall₂ SameFields new loaded

/-- The job has its old state, or the new one, whose next run is cleared if the schedule is
another one. -/
def Recovered (new : List JsonRecord) (old job : JsonRecord) : Prop :=
  jobKey job = jobKey old ∧
    (stateOf job = stateOf old ∨
      ∃ newJob ∈ new, jobKey newJob = jobKey job ∧ stateOf job = restoredState newJob job)

/-- A load after a save that has not written the config file yet gives every job of the
config file, which were loaded before, its old or its new state. -/
def Recovers (new olds : List JsonRecord) : Prop :=
  ∃ loaded, loadCronFiles now (saveStateFile cache files new false) = some loaded ∧
    List.Forall₂ (Recovered new) olds loaded

variable {now cache files}

/-- A job for which there cannot be an entry has the runtime fields that a load gives it. -/
def HasDefaultFields (now : Json) (job : JsonRecord) : Prop :=
  stateOf job = some (.object []) ∧
    Json.lookup job "updatedAtMs".toList = some (resolveUpdatedAtMs now (strippedJob job) none)

/-- The jobs of the config file that the new store does not have were loaded with the state
that the config file itself gives them. -/
def KeepsOwnStates (files : CronFiles) (new olds : List JsonRecord) : Prop :=
  ∀ jobs records, configJobs files.config = some jobs → jobRecords jobs = some records →
    List.Forall₂ (fun job old => jobKey job ∉ new.map jobKey → bareState job = stateOf old)
      records olds

theorem sameFields_of_runtime {job' : JsonRecord} (hconfig : SameConfig job job')
    (hstate : stateOf job = stateOf job')
    (hupdated : Json.lookup job "updatedAtMs".toList = Json.lookup job' "updatedAtMs".toList) :
    SameFields job job' := by
  intro key
  by_cases hkeyState : key = "state".toList
  · rw [hkeyState]
    exact hstate
  by_cases hkeyUpdated : key = "updatedAtMs".toList
  · rw [hkeyUpdated]
    exact hupdated
  · exact hconfig key hkeyState hkeyUpdated

theorem roundTrips_iff (hnew : IsCronStore new) : RoundTrips now cache files new ↔
      ∀ job ∈ new, jobKey job = "__proto__".toList → HasDefaultFields now job := by
  have hloadedKey (job : JsonRecord) : jobKey (strippedJob job) = jobKey job :=
    (sameConfig_strippedJob job).jobKey
  have hloadedConfig (job : JsonRecord) :
      SameConfig job (loadJob now (some (stateEntries new)) false (strippedJob job)) := by
    intro key hstate hupdated
    exact (((sameConfig_loadJob _ _ _).trans (sameConfig_strippedJob job)) key hstate hupdated).symm
  have hjob (job : JsonRecord) (hmem : job ∈ new) :
      SameFields job (loadJob now (some (stateEntries new)) false (strippedJob job)) ↔
        (jobKey job = "__proto__".toList → HasDefaultFields now job) := by
    by_cases hproto : jobKey job = "__proto__".toList
    · have hkey : jobKey (strippedJob job) = "__proto__".toList := (hloadedKey job).trans hproto
      obtain ⟨hstate, hupdated⟩ : stateOf (loadJob now (some (stateEntries new)) false _) = _ ∧ _ :=
        stateOf_loadJob_proto hkey false
      constructor
      · intro hsame _
        exact ⟨(hsame "state".toList).trans hstate, (hsame "updatedAtMs".toList).trans hupdated⟩
      · intro hdefault
        have hfields := hdefault hproto
        exact sameFields_of_runtime (hloadedConfig job) (hfields.1.trans hstate.symm)
          (hfields.2.trans hupdated.symm)
    · obtain ⟨hstate, hupdated⟩ : stateOf (loadJob now (some (stateEntries new)) false _) = _ ∧ _ :=
        loadJob_stored hnew hmem (hloadedKey job).symm (by rwa [hloadedKey]) false
      have hrestored : restoredState job (strippedJob job) = stateOf job := by
        unfold restoredState
        rw [(sameConfig_strippedJob job).scheduleIdentity]
        exact if_neg fun hdiffers => hdiffers.2 rfl
      refine iff_of_true ?_ fun heq => absurd heq hproto
      exact sameFields_of_runtime (hloadedConfig job) (hstate.trans hrestored).symm hupdated.symm
  unfold RoundTrips
  rw [loadCronFiles_saveCronStore]
  simp only [Option.some.injEq, exists_eq_left']
  rw [forall₂_map_right_iff, forall₂_same]
  exact forall₂_congr hjob

/-- What a load after the cut finds of a job of the config file. -/
theorem recovered_iff (hnew : IsCronStore new)
    (hproto : ∀ job ∈ new, jobKey job = "__proto__".toList → stateOf job = some (.object []))
    {old : JsonRecord} (hold : jobKey job = jobKey old) :
    Recovered new old (loadJob now (some (stateEntries new)) false job) ↔
      (jobKey job ∉ new.map jobKey → bareState job = stateOf old) := by
  set loaded := loadJob now (some (stateEntries new)) false job with hloaded
  have hconfig : SameConfig loaded job := sameConfig_loadJob _ _ _
  have hkey : jobKey loaded = jobKey job := hconfig.jobKey
  by_cases hmem : jobKey job ∈ new.map jobKey
  · refine iff_of_true ⟨hkey.trans hold, .inr ?_⟩ fun hnone => absurd hmem hnone
    obtain ⟨newJob, hnewJob, heq⟩ := mem_map.mp hmem
    refine ⟨newJob, hnewJob, heq.trans hkey.symm, ?_⟩
    have hidentity : restoredState newJob loaded = restoredState newJob job := by
      unfold restoredState
      rw [hconfig.scheduleIdentity]
    rw [hidentity]
    by_cases hjobProto : jobKey job = "__proto__".toList
    · have hempty := hproto newJob hnewJob (heq.trans hjobProto)
      rw [hloaded, (stateOf_loadJob_proto hjobProto false).1]
      unfold restoredState
      rw [hempty]
      split <;> rfl
    · exact (loadJob_stored hnew hnewJob heq hjobProto false).1
  · have hstate : stateOf loaded = bareState job := stateOf_loadJob_bare hmem false
    unfold Recovered
    rw [hstate]
    constructor
    · rintro ⟨_, hsame | ⟨newJob, hnewJob, heq, _⟩⟩ _
      · exact hsame
      · rw [hkey] at heq
        exact absurd (heq ▸ mem_map_of_mem hnewJob) hmem
    · intro hsame
      exact ⟨hkey.trans hold, .inl (hsame hmem)⟩

theorem recovers_iff {olds : List JsonRecord} (hnew : IsCronStore new)
    (hproto : ∀ job ∈ new, jobKey job = "__proto__".toList → stateOf job = some (.object []))
    (holds : loadCronFiles now files = some olds) :
    Recovers now cache files new olds ↔ KeepsOwnStates files new olds := by
  unfold loadCronFiles at holds
  obtain ⟨jobs, hjobs, hloaded⟩ := Option.bind_eq_some_iff.mp holds
  obtain ⟨records, hrecords, rfl⟩ := Option.map_eq_some_iff.mp hloaded
  have hkeeps (olds : List JsonRecord) : KeepsOwnStates files new olds ↔ List.Forall₂ (fun job old =>
      jobKey job ∉ new.map jobKey → bareState job = stateOf old) records olds := by
    constructor
    · exact fun h => h jobs records hjobs hrecords
    · intro h jobs' records' hjobs' hrecords'
      obtain rfl := Option.some.inj (hjobs.symm.trans hjobs')
      obtain rfl := Option.some.inj (hrecords.symm.trans hrecords')
      exact h
  unfold Recovers
  rw [hkeeps, loadCronFiles_saveStateFile cache false hjobs hrecords]
  simp only [Option.some.injEq, exists_eq_left']
  rw [forall₂_map_left_iff, forall₂_map_right_iff, forall₂_map_right_iff,
    forall₂_same, forall₂_same]
  refine forall₂_congr fun job _ => recovered_iff hnew hproto ?_
  exact (sameConfig_loadJob _ _ job).jobKey.symm

/-- A save round-trips and can be cut short if and only if no job needs an entry that it
does not get. -/
theorem saveCronStore_crashSafe_iff {olds : List JsonRecord} (hnew : IsCronStore new)
    (holds : loadCronFiles now files = some olds) :
    RoundTrips now cache files new ∧ Recovers now cache files new olds ↔
      (∀ job ∈ new, jobKey job = "__proto__".toList → HasDefaultFields now job) ∧
        KeepsOwnStates files new olds := by
  rw [roundTrips_iff hnew]
  refine and_congr_right fun hdefault => recovers_iff hnew ?_ holds
  exact fun job hjob hproto => (hdefault job hjob hproto).1

/-- A job that is to run at a time, which is its next run. -/
def savedJob (nextRunAtMs : Str) : JsonRecord :=
  [("id".toList, .string "job"), ("enabled".toList, .bool true), ("createdAtMs".toList, .number "1"),
    ("schedule".toList, .object [("kind".toList, .string "at"), ("at".toList, .string "2030-01-01")]),
    ("updatedAtMs".toList, .number "2"),
    ("state".toList, .object [("nextRunAtMs".toList, .number nextRunAtMs)])]

/-- The files with this job. -/
def savedFiles : CronFiles where
  config := some (.json (stripRuntimeOnlyCronFields [savedJob "3"]))
  state := some (.json (extractStateFile [savedJob "3"]))

def savedFilesJob : JsonRecord :=
  loadJob (.number "9") (some (stateEntries [savedJob "3"])) false (strippedJob (savedJob "3"))

theorem loadCronFiles_savedFiles :
    loadCronFiles (.number "9") savedFiles = some [savedFilesJob] := rfl

/-- The job is saved with another next run. -/
theorem saveCronStore_crashSafe_iff_edit : RoundTrips (.number "9") {} savedFiles [savedJob "4"] ∧
      Recovers (.number "9") {} savedFiles [savedJob "4"] [savedFilesJob] := by
  have hnew : IsCronStore [savedJob "4"] := by
    refine ⟨nodup_singleton _, ?_, ?_⟩
    · intro job hjob
      rw [mem_singleton.mp hjob]
      exact ⟨"2", rfl, by decide⟩
    · intro job hjob
      rw [mem_singleton.mp hjob]
      exact ⟨_, rfl⟩
  refine (saveCronStore_crashSafe_iff hnew loadCronFiles_savedFiles).mpr ⟨?_, ?_⟩
  · intro job hjob hproto
    rw [mem_singleton.mp hjob] at hproto
    exact nomatch hproto
  · intro jobs records hjobs hrecords
    obtain rfl : [.object (strippedJob (savedJob "3"))] = jobs := Option.some.inj hjobs
    obtain rfl : [strippedJob (savedJob "3")] = records := Option.some.inj hrecords
    refine .cons (fun hnone => ?_) .nil
    exact absurd mem_cons_self hnone

/-- Removing a job loses its state before it loses the job. -/
theorem not_saveCronStore_crashSafe : ¬ ∀ (now : Json) (cache : SerializedStoreCacheEntry)
    (files : CronFiles) (new olds : List JsonRecord), IsCronStore new →
    loadCronFiles now files = some olds →
    RoundTrips now cache files new ∧ Recovers now cache files new olds := by
  intro hall
  have hempty : IsCronStore [] := by
    refine ⟨nodup_nil, ?_, ?_⟩
    · exact fun job hjob => absurd hjob not_mem_nil
    · exact fun job hjob => absurd hjob not_mem_nil
  have hrecovers := (hall _ {} _ _ _ hempty loadCronFiles_savedFiles).2
  have hkeeps := (recovers_iff hempty (fun _ hjob => absurd hjob not_mem_nil)
    loadCronFiles_savedFiles).mp hrecovers _ _ rfl rfl
  obtain ⟨hstate, _⟩ := forall₂_cons.mp hkeeps
  have hlost : some (Json.object []) =
      some (Json.object [("nextRunAtMs".toList, .number "3".toList)]) :=
    hstate not_mem_nil
  simp at hlost

end OpenClaw
