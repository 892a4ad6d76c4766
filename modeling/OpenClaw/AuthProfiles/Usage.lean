import OpenClaw.AuthProfiles.UsageState

/-!
# Recording failures of auth profiles

`markAuthProfileFailure` computes the next statistics of a profile from the failure's
reason and model; for a Codex profile it first asks the usage endpoint how long the
account is blocked. `markAuthProfileBlockedUntil` records a block that is known already.
Both write under the store's lock and read the clock there.
-/

namespace OpenClaw

/-! ## Backoff -/

def calculateAuthProfileCooldownMs (errorCount : ℕ) : ℚ :=
  let normalized := max 1 errorCount
  if normalized ≤ 1 then 30000
  else if normalized ≤ 2 then 60000
  else 5 * 60000

/-- `config.auth.cooldowns`. -/
structure AuthCooldownsConfig where
  billingBackoffHours : Option JsNumber := none
  billingBackoffHoursByProvider : Option (List (Str × JsNumber)) := none
  billingMaxHours : Option JsNumber := none
  authPermanentBackoffMinutes : Option JsNumber := none
  authPermanentMaxMinutes : Option JsNumber := none
  failureWindowHours : Option JsNumber := none

structure ResolvedAuthCooldownConfig where
  billingBackoffMs : ℚ
  billingMaxMs : ℚ
  authPermanentBackoffMs : ℚ
  authPermanentMaxMs : ℚ
  failureWindowMs : ℚ

variable (value : Option JsNumber)

def resolvePositiveNumber (fallback : ℚ) : ℚ :=
  match value with
  | some (.finite q) => if 0 < q then q else fallback
  | _ => fallback

variable (host : Host)

def resolveAuthCooldownConfig (cooldowns : AuthCooldownsConfig)
    (providerId : Str) : ResolvedAuthCooldownConfig :=
  let billingOverride := cooldowns.billingBackoffHoursByProvider.bind fun map =>
    (map.find? fun (key, _) => normalizeProviderId host key = providerId).map Prod.snd
  let billingBackoffHours :=
    resolvePositiveNumber (billingOverride.or cooldowns.billingBackoffHours) 5
  let billingMaxHours := resolvePositiveNumber cooldowns.billingMaxHours 24
  let authPermanentBackoffMinutes := resolvePositiveNumber cooldowns.authPermanentBackoffMinutes 10
  let authPermanentMaxMinutes := resolvePositiveNumber cooldowns.authPermanentMaxMinutes 60
  let failureWindowHours := resolvePositiveNumber cooldowns.failureWindowHours 24
  { billingBackoffMs := billingBackoffHours * 60 * 60 * 1000
    billingMaxMs := billingMaxHours * 60 * 60 * 1000
    authPermanentBackoffMs := authPermanentBackoffMinutes * 60 * 1000
    authPermanentMaxMs := authPermanentMaxMinutes * 60 * 1000
    failureWindowMs := failureWindowHours * 60 * 60 * 1000 }

def calculateDisabledLaneBackoffMs (errorCount : ℕ) (baseMs maxMs : ℚ) : ℚ :=
  let normalized := max 1 errorCount
  let baseMs := max 60000 baseMs
  let maxMs := max baseMs maxMs
  let exponent := min (normalized - 1) 10
  let raw := baseMs * 2 ^ exponent
  min maxMs raw

/-- `DisabledFailureReason`: the reasons that disable a profile, `none` for the others. -/
inductive DisabledFailureReason where
  | billing | authPermanent
deriving DecidableEq

def disabledFailureReason? : AuthProfileFailureReason → Option DisabledFailureReason
  | .billing => some .billing
  | .authPermanent => some .authPermanent
  | _ => none

def resolveDisabledFailureBackoffMs (reason : DisabledFailureReason) (errorCount : ℕ)
    (cfgResolved : ResolvedAuthCooldownConfig) : ℚ :=
  match reason with
  | .billing =>
    calculateDisabledLaneBackoffMs errorCount cfgResolved.billingBackoffMs
      cfgResolved.billingMaxMs
  | .authPermanent =>
    calculateDisabledLaneBackoffMs errorCount cfgResolved.authPermanentBackoffMs
      cfgResolved.authPermanentMaxMs

/-! ## The next statistics -/

def keepActiveWindowOrRecompute (existingUntil : Option ℚ) (now recomputedUntil : ℚ) : ℚ :=
  match existingUntil with
  | some value => if now < value then value else recomputedUntil
  | none => recomputedUntil

variable (existing : ProfileUsageStats)

/-- Whether the counters start again: the failure window has passed, or the last window
of the profile has expired. -/
def shouldResetCounters (now : ℚ) (cfgResolved : ResolvedAuthCooldownConfig) : Bool :=
  let windowExpired := existing.lastFailureAt.any fun lastFailureAt =>
    0 < lastFailureAt && cfgResolved.failureWindowMs < now - lastFailureAt
  let previousCooldownExpired := (resolveProfileUnusableUntil existing).any fun unusableUntil =>
    unusableUntil ≤ now
  windowExpired || previousCooldownExpired

/-- `failureCounts` with one more failure of the reason. -/
def countFailure (failureCounts : AuthProfileFailureReason → Option ℕ)
    (reason : AuthProfileFailureReason) : AuthProfileFailureReason → Option ℕ :=
  fun r => if r = reason then some ((failureCounts reason).getD 0 + 1) else failureCounts r

/-- The model scope after a failure inside an active cooldown window. -/
def activeCooldownModel (cooldownModel : Option Str) (reason : AuthProfileFailureReason)
    (modelId : Option Str) : Option Str :=
  if isTruthy cooldownModel && isTruthy modelId && cooldownModel ≠ modelId then none
  else if reason = .rateLimit && !isTruthy modelId && isTruthy cooldownModel then none
  else if reason ≠ .rateLimit then none
  else cooldownModel

/-- `existingCooldownActive`. -/
def existingCooldownActive (now : ℚ) : Bool :=
  existing.cooldownUntil.any fun value => now < value

def nextCooldownModel (now : ℚ)
    (reason : AuthProfileFailureReason) (modelId : Option Str) : Option Str :=
  if existingCooldownActive existing now then
    activeCooldownModel existing.cooldownModel reason modelId
  else if reason = .rateLimit then modelId
  else none

def computeNextProfileUsageStats (now : ℚ)
    (reason : AuthProfileFailureReason) (cfgResolved : ResolvedAuthCooldownConfig)
    (modelId : Option Str) : ProfileUsageStats :=
  let reset := shouldResetCounters existing now cfgResolved
  let baseErrorCount := if reset then 0 else existing.errorCount.getD 0
  let nextErrorCount := baseErrorCount + 1
  let baseCounts := if reset then fun _ => none else existing.failureCounts.getD fun _ => none
  let failureCounts := countFailure baseCounts reason
  match disabledFailureReason? reason with
  | some disabledFailureReason =>
    let disableCount := (failureCounts reason).getD 1
    let backoffMs :=
      resolveDisabledFailureBackoffMs disabledFailureReason disableCount cfgResolved
    { existing with
      errorCount := some nextErrorCount
      failureCounts := some failureCounts
      lastFailureAt := some now
      disabledUntil :=
        some (keepActiveWindowOrRecompute existing.disabledUntil now (now + backoffMs))
      disabledReason := some reason }
  | none =>
    let backoffMs := calculateAuthProfileCooldownMs nextErrorCount
    { existing with
      errorCount := some nextErrorCount
      failureCounts := some failureCounts
      lastFailureAt := some now
      cooldownUntil :=
        some (keepActiveWindowOrRecompute existing.cooldownUntil now (now + backoffMs))
      cooldownReason := some reason
      cooldownModel := nextCooldownModel existing now reason modelId }

/-! ## The usage endpoint -/

structure WhamUsageWindow where
  usedPercent : Option JsNumber := none
  resetAt : Option JsNumber := none
  resetAfterSeconds : Option JsNumber := none

structure WhamRateLimit where
  limitReached : Option Bool := none
  primaryWindow : Option WhamUsageWindow := none
  secondaryWindow : Option WhamUsageWindow := none

/-- What `fetch` and `res.json()` give: nothing usable, an error status, or the `rate_limit`
part of the answer. -/
inductive WhamFetch where
  | failed
  | httpError (status : ℕ)
  | answer (rateLimit : Option WhamRateLimit)

structure WhamCooldownProbeResult where
  cooldownMs : ℚ
  reason : Str
  blockedUntil : Option ℚ := none
  blockedSource : Option AuthProfileBlockedSource := none

def shouldProbeWhamForFailure (provider : Option Str) (reason : AuthProfileFailureReason) : Bool :=
  normalizeProviderId host (provider.getD []) = "openai-codex".toList &&
    reason ∈ [.rateLimit, .emptyResponse, .noErrorDetails, .unclassified, .unknown]

/-- A finite positive number of the answer. -/
def positiveFinite? : Option ℚ :=
  match value with
  | some (.finite q) => if 0 < q then some q else none
  | _ => none

variable (window : Option WhamUsageWindow)

def resolveWhamResetMs (now : ℚ) : Option ℚ := do
  let window ← window
  match positiveFinite? window.resetAfterSeconds with
  | some resetAfterSeconds => some (resetAfterSeconds * 1000)
  | none =>
    match positiveFinite? window.resetAt with
    | some resetAt => some (max 0 (resetAt * 1000 - now))
    | none => none

def isWhamWindowExhausted : Bool :=
  window.any fun window =>
    match window.usedPercent with
    | some (.finite q) => 100 ≤ q
    | _ => false

def whamProbeFailed : WhamCooldownProbeResult :=
  { cooldownMs := 30000, reason := "wham_probe_failed".toList }

/-- The answer that blocks the account until a window resets. -/
def whamBlocked (reason : Str) (now : ℚ) (resetMs : Option ℚ) : WhamCooldownProbeResult :=
  match resetMs with
  | none => whamProbeFailed
  | some resetMs =>
    { cooldownMs := 15000
      blockedUntil := some (now + resetMs)
      blockedSource := some .wham
      reason := reason }

def whamRateLimitResult (rateLimit : WhamRateLimit) (now : ℚ) : WhamCooldownProbeResult :=
  if rateLimit.limitReached = some false then
    { cooldownMs := 15000, reason := "wham_burst_contention".toList }
  else
    let primaryResetMs := resolveWhamResetMs rateLimit.primaryWindow now
    let secondaryResetMs := resolveWhamResetMs rateLimit.secondaryWindow now
    if rateLimit.secondaryWindow.isNone then
      whamBlocked "wham_personal_rolling".toList now primaryResetMs
    else if isWhamWindowExhausted rateLimit.secondaryWindow then
      whamBlocked "wham_team_weekly".toList now secondaryResetMs
    else if isWhamWindowExhausted rateLimit.primaryWindow then
      whamBlocked "wham_team_rolling".toList now primaryResetMs
    else
      whamProbeFailed

/-- `probeWhamForCooldown`, with the clock read after the answer. -/
def probeWhamForCooldown (profile : AuthProfileCredential) (fetch : WhamFetch) (now : ℚ) :
    Option WhamCooldownProbeResult :=
  match profile with
  | .apiKey _ | .token _ => none
  | .oauth _ access =>
    if access = [] then none
    else
      some <|
        match fetch with
        | .failed => whamProbeFailed
        | .httpError status =>
          if status = 401 then
            { cooldownMs := 12 * 60 * 60 * 1000, reason := "wham_token_expired".toList }
          else if status = 403 then
            { cooldownMs := 24 * 60 * 60 * 1000, reason := "wham_account_dead".toList }
          else
            { cooldownMs := 5 * 60 * 1000, reason := "wham_http_error".toList }
        | .answer none => whamProbeFailed
        | .answer (some rateLimit) => whamRateLimitResult rateLimit now

/-- The end of a window that is still open, and `0` otherwise. -/
def activeUntil (until? : Option ℚ) (now : ℚ) : ℚ :=
  match until? with
  | some value => if now < value then value else 0
  | none => 0

/-- `whamResult.blockedUntil` where it counts as true. -/
def WhamCooldownProbeResult.block? (whamResult : WhamCooldownProbeResult) : Option ℚ :=
  whamResult.blockedUntil.filter (· ≠ 0)

def applyWhamCooldownResult (existing computed : ProfileUsageStats) (now : ℚ)
    (whamResult : WhamCooldownProbeResult) : ProfileUsageStats :=
  match whamResult.block? with
  | some blockedUntil =>
    { computed with
      blockedUntil := some (max (activeUntil existing.blockedUntil now) blockedUntil)
      blockedReason := some .subscriptionLimit
      blockedSource := some (whamResult.blockedSource.getD .wham)
      blockedModel := none
      cooldownUntil := none
      cooldownReason := none
      cooldownModel := none }
  | none =>
    { computed with
      cooldownUntil :=
        some (max (activeUntil existing.cooldownUntil now) (now + whamResult.cooldownMs)) }

/-! ## The events -/

variable (store : AuthProfileStore)

def updateUsageStatsEntry (profileId : Str)
    (updater : Option ProfileUsageStats → ProfileUsageStats) : AuthProfileStore :=
  { store with
    usageStats := Function.update store.usageStats profileId
      (some (updater (store.usageStats profileId))) }

/-- The arguments of `markAuthProfileFailure`, with the answer of the usage endpoint and the
clock it was read at. -/
structure FailureParams where
  profileId : Str
  reason : AuthProfileFailureReason
  modelId : Option Str
  cooldowns : AuthCooldownsConfig
  fetch : WhamFetch
  probedAt : ℕ

variable (params : FailureParams)

/-- The probe of a failure, where the code makes one. -/
def FailureParams.whamResult (host : Host)
    (profile : AuthProfileCredential) : Option WhamCooldownProbeResult :=
  if shouldProbeWhamForFailure host profile.provider params.reason then
    probeWhamForCooldown profile params.fetch params.probedAt
  else
    none

/-- The updater of `markAuthProfileFailure`. -/
def failureStats (profile : AuthProfileCredential)
    (now : ℕ) (previousStats : Option ProfileUsageStats) : ProfileUsageStats :=
  let cfgResolved := resolveAuthCooldownConfig host params.cooldowns
    (normalizeProviderId host profile.provider)
  let existing := previousStats.getD {}
  let computed :=
    computeNextProfileUsageStats existing now params.reason cfgResolved params.modelId
  match params.whamResult host profile with
  | some whamResult => applyWhamCooldownResult existing computed now whamResult
  | none => computed

def markAuthProfileFailure (now : ℕ) (params : FailureParams) : AuthProfileStore :=
  match store.profiles params.profileId with
  | none => store
  | some profile =>
    if isAuthCooldownBypassedForProvider host (some profile.provider) then store
    else updateUsageStatsEntry store params.profileId (failureStats host params profile now)

/-- The arguments of `markAuthProfileBlockedUntil`, with the clock it checks them against. -/
structure BlockParams where
  profileId : Str
  blockedUntil : JsNumber
  source : AuthProfileBlockedSource
  modelId : Option Str
  calledAt : ℕ

/-- The end of the block, where the code accepts it. -/
def BlockParams.block? (params : BlockParams) : Option ℚ :=
  match params.blockedUntil with
  | .finite blockedUntil => if blockedUntil ≤ params.calledAt then none else some blockedUntil
  | _ => none

/-- The updater of `markAuthProfileBlockedUntil`. -/
def blockedStats (params : BlockParams) (blockedUntil : ℚ) (now : ℕ)
    (previousStats : Option ProfileUsageStats) : ProfileUsageStats :=
  let previous := previousStats.getD {}
  { previous with
    blockedUntil := some (max (activeUntil previous.blockedUntil now) blockedUntil)
    blockedReason := some .subscriptionLimit
    blockedSource := some params.source
    blockedModel := params.modelId
    cooldownUntil := none
    cooldownReason := none
    cooldownModel := none
    lastFailureAt := some (now : ℚ)
    failureCounts := some
      (countFailure (previous.failureCounts.getD fun _ => none) .rateLimit) }

def markAuthProfileBlockedUntil (now : ℕ) (params : BlockParams) : AuthProfileStore :=
  match store.profiles params.profileId with
  | none => store
  | some profile =>
    if isAuthCooldownBypassedForProvider host (some profile.provider) then store
    else
      match params.block? with
      | none => store
      | some blockedUntil =>
        updateUsageStatsEntry store params.profileId (blockedStats params blockedUntil now)

def resetSuccessfulUsageStats (existing : Option ProfileUsageStats) (lastUsed : ℕ) :
    ProfileUsageStats :=
  let existing := existing.getD {}
  { existing with
    errorCount := some 0
    blockedUntil := none
    blockedReason := none
    blockedSource := none
    blockedModel := none
    cooldownUntil := none
    cooldownReason := none
    cooldownModel := none
    disabledUntil := none
    disabledReason := none
    failureCounts := none
    lastUsed := some (lastUsed : ℚ) }

/-- `markAuthProfileSuccess`. Which provider ids name one provider is in the plugins'
manifests: `resolveProviderIdForAuth`. -/
def markAuthProfileSuccess (resolveProviderIdForAuth : Str → Str) (store : AuthProfileStore)
    (lastUsed : ℕ) (provider profileId : Str) : AuthProfileStore :=
  match store.profiles profileId with
  | none => store
  | some profile =>
    if resolveProviderIdForAuth profile.provider ≠ resolveProviderIdForAuth provider then store
    else
      updateUsageStatsEntry store profileId fun existing =>
        resetSuccessfulUsageStats existing lastUsed

/-- What makes a profile less available. -/
inductive FailureEvent where
  | failure (params : FailureParams)
  | block (params : BlockParams)

def FailureEvent.profileId : FailureEvent → Str
  | failure params => params.profileId
  | block params => params.profileId

/-- What changes the usage statistics. -/
inductive UsageEvent where
  | failed (event : FailureEvent)
  | success (provider profileId : Str)
  | clearExpired

/-- What the usage code takes from the process it runs in. -/
structure UsageHost where
  host : Host
  resolveProviderIdForAuth : Str → Str

variable (deps : UsageHost)

def performFailureEvent (store : AuthProfileStore) (now : ℕ) : FailureEvent → AuthProfileStore
  | .failure params => markAuthProfileFailure deps.host store now params
  | .block params => markAuthProfileBlockedUntil deps.host store now params

def performUsageEvent (store : AuthProfileStore) (now : ℕ) : UsageEvent → AuthProfileStore
  | .failed event => performFailureEvent deps store now event
  | .success provider profileId =>
    markAuthProfileSuccess deps.resolveProviderIdForAuth store now provider profileId
  | .clearExpired => clearExpiredCooldowns store now

/-- A store and the last time its clock was read. -/
structure UsageState where
  store : AuthProfileStore
  clock : ℕ

/-- One event; the clock does not go back. -/
def usageStep (state : UsageState) (label : UsageEvent × ℕ) (state' : UsageState) : Prop :=
  state.clock ≤ label.2 ∧
    state' = ⟨performUsageEvent deps state.store label.2 label.1, label.2⟩

/-- A store without usage statistics. -/
def UsageState.start (profiles : Str → Option AuthProfileCredential) (clock : ℕ) : UsageState :=
  ⟨⟨profiles, fun _ => none⟩, clock⟩

end OpenClaw
