import OpenClaw.Text.Json

/-!
# The files of the cron store

`cron/store.ts` and `cron/schedule-identity.ts` on the contents of the two files. A file that
can be parsed is given by its value. What stays the same in all of a job is the config file,
what changes at run time is the state file, and the ids of the jobs join them.
-/

namespace OpenClaw

/-- A JSON object. -/
abbrev JsonRecord := List (Str × Json)

/-- The content of a file: a value, or a text that is none. -/
inductive FileContent where
  | json (value : Json)
  | corrupt

/-- The two files. -/
structure CronFiles where
  config : Option FileContent
  state : Option FileContent

/-! ## Schedule identity -/

variable (record : JsonRecord) (key : Str)

/-- `readString`. -/
def readString : Option Str :=
  match Json.lookup record key with
  | some (.string value) => if trim value = [] then none else some (trim value)
  | _ => none

/-- The number is finite. -/
def isFiniteText (text : Str) : Bool :=
  text ≠ "NaN".toList && text ≠ "Infinity".toList && text ≠ "-Infinity".toList

/-- `readNumber`, as the text of the number. -/
def readNumber : Option Str :=
  match Json.lookup record key with
  | some (.number text) => if isFiniteText text then some text else none
  | _ => none

/-- An entry of an object literal, which `JSON.stringify` leaves out if it is undefined. -/
def optionalEntry (value : Option Json) : JsonRecord :=
  (value.map (key, ·)).toList

variable (schedule : JsonRecord)

/-- The kind of a schedule. The lower case of a kind that is none of the three does not
matter. -/
def scheduleKind : Option Str :=
  let rawKind := (readString schedule "kind".toList).map (·.map Char.toLower)
  let expr := (readString schedule "expr".toList).orElse fun _ => readString schedule "cron".toList
  let at' := readString schedule "at".toList
  if rawKind = some "at".toList ∨ rawKind = some "every".toList ∨ rawKind = some "cron".toList then
    rawKind
  else if at'.isSome ∨ (readNumber schedule "atMs".toList).isSome then some "at".toList
  else if (readNumber schedule "everyMs".toList).isSome then some "every".toList
  else if expr.isSome then some "cron".toList
  else none

def schedulePayloadFromRecord : Option Json :=
  let kind := scheduleKind schedule
  if kind = some "at".toList then
    ((readString schedule "at".toList).orElse fun _ => readNumber schedule "atMs".toList).map
      fun at' => .object [("kind".toList, .string "at"), ("at".toList, .string at')]
  else if kind = some "every".toList then
    (readNumber schedule "everyMs".toList).map fun everyMs =>
      .object ([("kind".toList, .string "every"), ("everyMs".toList, .number everyMs)] ++
        optionalEntry "anchorMs" ((readNumber schedule "anchorMs".toList).map .number))
  else if kind = some "cron".toList then
    ((readString schedule "expr".toList).orElse fun _ => readString schedule "cron".toList).map
      fun expr => .object ([("kind".toList, .string "cron"), ("expr".toList, .string expr)] ++
        optionalEntry "tz" ((readString schedule "tz".toList).map .string) ++
        optionalEntry "staggerMs" ((readNumber schedule "staggerMs".toList).map .number))
  else none

variable (job : JsonRecord)

def resolveSchedulePayload : Option Json :=
  match Json.lookup job "schedule".toList with
  | some (.object schedule) => schedulePayloadFromRecord schedule
  | _ => schedulePayloadFromRecord job

/-- `tryCronScheduleIdentity`, on a job of a file. -/
def fileScheduleIdentity : Option Str :=
  (resolveSchedulePayload job).map fun schedule =>
    let enabled := match Json.lookup job "enabled".toList with
      | some (.bool enabled) => enabled
      | _ => true
    Json.stringify (.object [("version".toList, .number "1"), ("enabled".toList, .bool enabled),
      ("schedule".toList, schedule)])

/-! ## Writing -/

/-- The key under which `jobs[job.id]` looks for the job. -/
def jobKey : Str :=
  match Json.lookup job "id".toList with
  | some id => id.toJsString
  | none => "undefined"

def strippedJob : JsonRecord :=
  Json.erase (Json.erase job "state".toList) "updatedAtMs".toList ++ [("state".toList, .object [])]

/-- `{ version: 1, jobs }`. -/
def storeJson (jobs : Json) : Json :=
  .object [("version".toList, .number "1"), ("jobs".toList, jobs)]

variable (store : List JsonRecord)

def stripRuntimeOnlyCronFields : Json :=
  storeJson (.array (store.map fun job => .object (strippedJob job)))

/-- `value ?? {}`. -/
def orEmptyObject : Option Json → Json
  | some .null | none => .object []
  | some value => value

/-- The entry of a job in the state file. -/
def stateFileEntry : Json :=
  .object (optionalEntry "updatedAtMs" (Json.lookup job "updatedAtMs".toList) ++
    optionalEntry "scheduleIdentity" ((fileScheduleIdentity job).map .string) ++
    [("state".toList, orEmptyObject (Json.lookup job "state".toList))])

variable (entries : JsonRecord)

/-- `jobs[key] = entry` on an object literal. The key `__proto__` changes the prototype of
the object, which is not written to the file. -/
def setEntry (key : Str) (entry : Json) : JsonRecord :=
  if key = "__proto__".toList then entries else Json.insert entries key entry

def stateEntries : JsonRecord :=
  store.foldl (fun entries job => setEntry entries (jobKey job) (stateFileEntry job)) []

def extractStateFile : Json := storeJson (.object (stateEntries store))

structure SerializedStoreCacheEntry where
  configJson : Option Json := none
  stateJson : Option Json := none
  needsSplitMigration : Bool := false

/-- The content of the cache is this text. -/
def cachedIs (cached : Option Json) (expected : Json) : Bool := cached.any (Json.same · expected)

variable (file : Option FileContent)

def serializedFileNeedsWrite (expected : Json) (contentChanged : Bool) : Bool :=
  contentChanged || match file with
    | some (.json value) => !Json.same value expected
    | _ => true

/-- Which of the two files `saveCronStore` writes, the state file first. -/
structure SavePlan where
  writesState : Bool
  writesConfig : Bool

variable (cache : SerializedStoreCacheEntry) (files : CronFiles)

def savePlan (store : List JsonRecord) (stateOnly : Bool) : SavePlan :=
  let configJson := stripRuntimeOnlyCronFields store
  let stateJson := extractStateFile store
  let configChanged := !stateOnly && !cachedIs cache.configJson configJson
  let stateChanged := !cachedIs cache.stateJson stateJson
  let migrating := cache.needsSplitMigration
  let configNeedsWrite :=
    !stateOnly && serializedFileNeedsWrite files.config configJson configChanged
  let stateNeedsWrite := serializedFileNeedsWrite files.state stateJson stateChanged
  if if stateOnly then !stateNeedsWrite && !migrating
    else !configNeedsWrite && !stateNeedsWrite && !migrating then ⟨false, false⟩
  else ⟨stateNeedsWrite || migrating, !stateOnly && (configNeedsWrite || migrating)⟩

/-- `saveCronStore` until it has written the state file. -/
def saveStateFile (store : List JsonRecord) (stateOnly : Bool) : CronFiles :=
  if (savePlan cache files store stateOnly).writesState then
    { files with state := some (.json (extractStateFile store)) }
  else files

/-- `saveCronStore`. -/
def saveCronStore (store : List JsonRecord) (stateOnly : Bool) : CronFiles :=
  let written := saveStateFile cache files store stateOnly
  if (savePlan cache files store stateOnly).writesConfig then
    { written with config := some (.json (stripRuntimeOnlyCronFields store)) }
  else written

/-! ## Reading -/

/-- The jobs of a state file, if it is one. -/
def loadStateFile : Option JsonRecord :=
  match file with
  | some (.json (.object record)) =>
    match Json.lookup record "version".toList, Json.lookup record "jobs".toList with
    | some (.number version), some (.object jobs) => if version = "1" then some jobs else none
    | _, _ => none
  | _ => none

/-- The properties that every object inherits. -/
def objectPrototypeKeys : List Str :=
  ["constructor", "__defineGetter__", "__defineSetter__", "hasOwnProperty", "__lookupGetter__",
    "__lookupSetter__", "isPrototypeOf", "propertyIsEnumerable", "toString", "valueOf", "__proto__",
    "toLocaleString"].map String.toList

/-- `Boolean(value)`. -/
def isTruthyJson : Json → Bool
  | .null => false
  | .bool value => value
  | .number text => text ≠ "0" && text ≠ "NaN"
  | .string value => value ≠ []
  | .array _ | .object _ => true

/-- `entries[key]`, if it is truthy. What is inherited has none of the fields of an entry. -/
def findEntry (key : Str) : Option Json :=
  match Json.lookup entries key with
  | some entry => if isTruthyJson entry then some entry else none
  | none => if key ∈ objectPrototypeKeys then some (.object []) else none

/-- `typeof value === "object"` for a value that is not null. -/
def isJsonObject : Option Json → Bool
  | some (.object _) | some (.array _) => true
  | _ => false

def ensureJobStateObject : JsonRecord :=
  if isJsonObject (Json.lookup job "state".toList) then job
  else Json.insert job "state".toList (.object [])

/-- A number that may be a time. -/
def finiteNumber? : Option Json → Option Json
  | some (.number text) => if isFiniteText text then some (.number text) else none
  | _ => none

def number? : Option Json → Option Json
  | some (.number text) => some (.number text)
  | _ => none

variable (now : Json)

def resolveUpdatedAtMs (job : JsonRecord) (updatedAtMs : Option Json) : Json :=
  (((finiteNumber? updatedAtMs).orElse fun _ =>
    finiteNumber? (Json.lookup job "updatedAtMs".toList)).orElse fun _ =>
    finiteNumber? (Json.lookup job "createdAtMs".toList)).getD now

def backfillMissingRuntimeFields (job : JsonRecord) : JsonRecord :=
  let job := ensureJobStateObject job
  match number? (Json.lookup job "updatedAtMs".toList) with
  | some _ => job
  | none => Json.insert job "updatedAtMs".toList
      ((number? (Json.lookup job "createdAtMs".toList)).getD now)

/-- `job.state.nextRunAtMs = undefined`. -/
def clearNextRun (state : Json) : Json :=
  match state with
  | .object fields => .object (Json.erase fields "nextRunAtMs".toList)
  | state => state

/-- `mergeStateFileEntry`, on a job of a file. -/
def mergeFileEntry (job : JsonRecord) (entry : Json) : JsonRecord :=
  let job := Json.insert job "updatedAtMs".toList
    (resolveUpdatedAtMs now job (entry.get? "updatedAtMs".toList))
  let job := Json.insert job "state".toList (orEmptyObject (entry.get? "state".toList))
  match entry.get? "scheduleIdentity".toList with
  | some (.string identity) =>
    if some identity = fileScheduleIdentity job then job
    else
      let job := ensureJobStateObject job
      Json.insert job "state".toList
        (clearNextRun (orEmptyObject (Json.lookup job "state".toList)))
  | _ => job

/-- `hasInlineState`. -/
def hasInlineState (jobs : List Json) : Bool :=
  jobs.any fun job => match job.get? "state".toList with
    | some (.object fields) => fields ≠ []
    | some (.array items) => items.length ≠ 0
    | _ => false

/-- A job of the config file with its runtime fields. Without a state file, the inline state
is the state. -/
def loadJob (stateFile : Option JsonRecord) (hasLegacyInlineState : Bool)
    (job : JsonRecord) : JsonRecord :=
  ensureJobStateObject <|
    match stateFile with
    | some entries =>
      match findEntry entries (jobKey job) with
      | some entry => mergeFileEntry now job entry
      | none => backfillMissingRuntimeFields now job
    | none => if hasLegacyInlineState then job else backfillMissingRuntimeFields now job

/-- The jobs of the config file, with `none` where it is corrupt. -/
def configJobs : Option (List Json) :=
  match file with
  | none => some []
  | some .corrupt => none
  | some (.json (.object record)) =>
    match Json.lookup record "jobs".toList with
    | some (.array jobs) => some jobs
    | _ => some []
  | some (.json _) => some []

/-- The jobs as objects. A truthy value that is none makes the load throw. -/
def jobRecords (jobs : List Json) : Option (List JsonRecord) :=
  (jobs.filter isTruthyJson).mapM Json.entries?

/-- `loadCronStore`, with `none` where it throws. -/
def loadCronFiles (files : CronFiles) : Option (List JsonRecord) :=
  (configJobs files.config).bind fun jobs => (jobRecords jobs).map fun records =>
    let stateFile := loadStateFile files.state
    records.map (loadJob now stateFile (stateFile.isNone && hasInlineState jobs))

end OpenClaw
