import Mathlib.Data.Rat.Floor
import OpenClaw.Text.Basic
import OpenClaw.Text.Number

/-!
# The usage state of auth profiles

A profile is unusable while one of three windows is open: a block (a subscription limit
with a known end), a cooldown (a transient failure, possibly of one model only) or a
disable (billing, permanent auth failures). `isProfileInCooldown` reads the three.

The clock is a number of milliseconds since the epoch. Window ends are finite numbers:
their writers check `Number.isFinite` or add finite terms to the clock, and the sums and
products are taken to be exact.
-/

namespace OpenClaw

/-! ## Profiles and their statistics -/

inductive AuthProfileFailureReason where
  | auth | authPermanent | format | overloaded | rateLimit | billing | timeout | modelNotFound
  | sessionExpired | emptyResponse | noErrorDetails | unclassified | unknown
deriving DecidableEq

inductive AuthProfileBlockedReason where
  | subscriptionLimit
deriving DecidableEq

inductive AuthProfileBlockedSource where
  | codexRateLimits | wham
deriving DecidableEq

structure ProfileUsageStats where
  lastUsed : Option ℚ := none
  blockedUntil : Option ℚ := none
  blockedReason : Option AuthProfileBlockedReason := none
  blockedSource : Option AuthProfileBlockedSource := none
  blockedModel : Option Str := none
  cooldownUntil : Option ℚ := none
  cooldownReason : Option AuthProfileFailureReason := none
  cooldownModel : Option Str := none
  disabledUntil : Option ℚ := none
  disabledReason : Option AuthProfileFailureReason := none
  errorCount : Option ℕ := none
  failureCounts : Option (AuthProfileFailureReason → Option ℕ) := none
  lastFailureAt : Option ℚ := none

/-- The credential of a profile: what the usage code reads of it. -/
inductive AuthProfileCredential where
  | apiKey (provider : Str)
  | token (provider : Str)
  | oauth (provider : Str) (access : Str)
deriving DecidableEq

def AuthProfileCredential.provider : AuthProfileCredential → Str
  | apiKey provider | token provider | oauth provider _ => provider

structure AuthProfileStore where
  profiles : Str → Option AuthProfileCredential
  usageStats : Str → Option ProfileUsageStats

/-- Whether an optional string counts as true: present and not empty. -/
def isTruthy (s : Option Str) : Bool := s.any (· ≠ [])

/-! ## Providers -/

variable (host : Host)

def normalizeProviderId (provider : Str) : Str :=
  let normalized := normalizeLowercaseStringOrEmpty host provider
  if normalized ∈ ["modelstudio".toList, "qwencloud".toList] then "qwen".toList
  else if normalized ∈ ["z.ai".toList, "z-ai".toList] then "zai".toList
  else if normalized = "opencode-zen".toList then "opencode".toList
  else if normalized = "opencode-go-auth".toList then "opencode-go".toList
  else if normalized = "anthropic-cli".toList then "claude-cli".toList
  else if normalized ∈ ["kimi".toList, "kimi-code".toList, "kimi-coding".toList] then
    "kimi".toList
  else if normalized ∈ ["moonshotai".toList, "moonshot-ai".toList] then "moonshot".toList
  else if normalized ∈ ["bedrock".toList, "aws-bedrock".toList] then "amazon-bedrock".toList
  else if normalized ∈ ["bytedance".toList, "doubao".toList] then "volcengine".toList
  else normalized

def isAuthCooldownBypassedForProvider (provider : Option Str) : Bool :=
  let normalized := normalizeProviderId host (provider.getD [])
  normalized = "openrouter".toList || normalized = "kilocode".toList

/-! ## The windows -/

variable (stats : ProfileUsageStats)

def resolveProfileUnusableUntil : Option ℚ :=
  let values := ([stats.blockedUntil, stats.cooldownUntil, stats.disabledUntil].filterMap
    id).filter (0 < ·)
  values.max?

variable (until? : Option ℚ) (now : ℚ)

def isActiveUnusableWindow : Bool :=
  until?.any fun value => 0 < value && now < value

def shouldBypassModelScopedCooldown (forModel : Option Str) : Bool :=
  isTruthy forModel && stats.cooldownReason = some .rateLimit && isTruthy stats.cooldownModel &&
    stats.cooldownModel ≠ forModel && !isActiveUnusableWindow stats.disabledUntil now

variable (store : AuthProfileStore)

def isProfileInCooldown (profileId : Str) (ts : ℚ) (forModel : Option Str) : Bool :=
  if isAuthCooldownBypassedForProvider host ((store.profiles profileId).map (·.provider)) then
    false
  else
    match store.usageStats profileId with
    | none => false
    | some stats =>
      if shouldBypassModelScopedCooldown stats ts forModel then false
      else (resolveProfileUnusableUntil stats).any fun unusableUntil => ts < unusableUntil

/-- The windows of one profile that `clearExpiredCooldowns` finds expired. -/
def windowExpired (ts : ℚ) : Bool :=
  until?.any fun value => 0 < value && value ≤ ts

def clearCooldownWindow : ProfileUsageStats :=
  { stats with cooldownUntil := none, cooldownReason := none, cooldownModel := none }

def clearBlockedWindow : ProfileUsageStats :=
  { stats with
    blockedUntil := none, blockedReason := none, blockedSource := none, blockedModel := none }

def clearDisabledWindow : ProfileUsageStats :=
  { stats with disabledUntil := none, disabledReason := none }

def clearErrorCounters : ProfileUsageStats :=
  { stats with errorCount := some 0, failureCounts := none }

/-- The body of the loop of `clearExpiredCooldowns`. -/
def clearExpiredCooldown (ts : ℚ) (stats : ProfileUsageStats) : ProfileUsageStats :=
  let cooldownExpired := windowExpired stats.cooldownUntil ts
  let blockedExpired := windowExpired stats.blockedUntil ts
  let disabledExpired := windowExpired stats.disabledUntil ts
  let cleared := if cooldownExpired then clearCooldownWindow stats else stats
  let cleared := if blockedExpired then clearBlockedWindow cleared else cleared
  let cleared := if disabledExpired then clearDisabledWindow cleared else cleared
  if (cooldownExpired || blockedExpired || disabledExpired) &&
      (resolveProfileUnusableUntil cleared).isNone then
    clearErrorCounters cleared
  else
    cleared

def clearExpiredCooldowns (ts : ℚ) : AuthProfileStore :=
  { store with
    usageStats := fun profileId => (store.usageStats profileId).map (clearExpiredCooldown ts) }

/-! ## When a window ends -/

/-- The end of a window, `0` when there is none to wait for. -/
def windowEnd : ℚ := max 0 (until?.getD 0)

/-- The end of the last of the three windows. -/
def unusableEnd : ℚ :=
  max (windowEnd stats.blockedUntil) (max (windowEnd stats.cooldownUntil)
    (windowEnd stats.disabledUntil))

@[simp]
theorem windowEnd_none : windowEnd none = 0 := by
  simp [windowEnd]

@[simp]
theorem windowEnd_some (value : ℚ) : windowEnd (some value) = max 0 value := rfl

theorem isActiveUnusableWindow_iff {now : ℚ} (hnow : 0 ≤ now) :
    isActiveUnusableWindow until? now ↔ now < windowEnd until? := by
  cases until? with
  | none =>
    have hle : ¬ now < 0 := not_lt.mpr hnow
    simp [isActiveUnusableWindow, hle]
  | some value =>
    have hpos : now < value → 0 < value := fun hlt => hnow.trans_lt hlt
    have hle : ¬ now < 0 := not_lt.mpr hnow
    simpa [isActiveUnusableWindow, hle] using hpos

/-- A bound below the greatest value is a bound below some value. -/
theorem max?_any_lt (values : List ℚ) (ts : ℚ) :
    (values.max?.any fun latest => ts < latest) ↔ ∃ value ∈ values, ts < value := by
  cases hmax : values.max? with
  | none =>
    have hnil : values = [] := List.max?_eq_none_iff.mp hmax
    simp [hnil]
  | some latest =>
    obtain ⟨hmem, hle⟩ := List.max?_eq_some_iff.mp hmax
    simp only [Option.any_some, decide_eq_true_eq]
    constructor
    · intro hlt
      exact ⟨latest, hmem, hlt⟩
    · rintro ⟨value, hvalue, hlt⟩
      exact hlt.trans_le (hle value hvalue)

/-- Before the latest end it waits for, a profile is unusable. -/
theorem resolveProfileUnusableUntil_any {ts : ℚ} (hts : 0 ≤ ts) :
    ((resolveProfileUnusableUntil stats).any fun unusableUntil => ts < unusableUntil) ↔
      ts < unusableEnd stats := by
  have hmem : ∀ until? : Option ℚ,
      ts < windowEnd until? ↔ ∃ value, until? = some value ∧ 0 < value ∧ ts < value := by
    intro until?
    rw [← isActiveUnusableWindow_iff until? hts]
    cases until? <;> simp [isActiveUnusableWindow]
  simp only [resolveProfileUnusableUntil, max?_any_lt, unusableEnd, lt_max_iff, hmem,
    List.mem_filter, List.mem_filterMap, List.mem_cons, List.not_mem_nil, decide_eq_true_eq]
  constructor
  · rintro ⟨value, ⟨⟨until?, hwindow, hsome⟩, hpos⟩, hlt⟩
    have hfound : ∃ value, until? = some value ∧ 0 < value ∧ ts < value :=
      ⟨value, hsome, hpos, hlt⟩
    rcases hwindow with rfl | rfl | rfl | hfalse
    · exact .inl hfound
    · exact .inr (.inl hfound)
    · exact .inr (.inr hfound)
    · exact hfalse.elim
  · rintro (⟨value, hsome, hpos, hlt⟩ | ⟨value, hsome, hpos, hlt⟩ | ⟨value, hsome, hpos, hlt⟩)
    · exact ⟨value, ⟨⟨_, .inl rfl, hsome⟩, hpos⟩, hlt⟩
    · exact ⟨value, ⟨⟨_, .inr (.inl rfl), hsome⟩, hpos⟩, hlt⟩
    · exact ⟨value, ⟨⟨_, .inr (.inr (.inl rfl)), hsome⟩, hpos⟩, hlt⟩

/-- The three windows and the scope of the cooldown decide whether a profile is in
cooldown. -/
theorem isProfileInCooldown_iff {host : Host} {store : AuthProfileStore} {profileId : Str}
    {stats : ProfileUsageStats} {ts : ℚ} {forModel : Option Str} (hts : 0 ≤ ts)
    (hprovider : isAuthCooldownBypassedForProvider host
      ((store.profiles profileId).map (·.provider)) = false)
    (hstats : store.usageStats profileId = some stats) :
    isProfileInCooldown host store profileId ts forModel ↔
      shouldBypassModelScopedCooldown stats ts forModel = false ∧ ts < unusableEnd stats := by
  have hwindows := resolveProfileUnusableUntil_any stats hts
  unfold isProfileInCooldown
  rw [hprovider, hstats]
  cases hbypass : shouldBypassModelScopedCooldown stats ts forModel
  · simpa [hbypass] using hwindows
  · simp [hbypass]

/-- A caller that names no model is never let through by the scope of a cooldown. -/
@[simp]
theorem shouldBypassModelScopedCooldown_none :
    shouldBypassModelScopedCooldown stats now none = false := by
  simp [shouldBypassModelScopedCooldown, isTruthy]

end OpenClaw
