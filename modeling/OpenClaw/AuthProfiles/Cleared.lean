import OpenClaw.AuthProfiles.Usage

/-!
# Clearing expired windows

`clearExpiredCooldowns` takes away what has expired. The windows that are still open stay, and a
failure that is recorded later finds the counters as it would have found them. The model scope of
an expired cooldown goes with it: until then it lets other models through, a block that is open
included.
-/

namespace OpenClaw

open List

variable {host : Host} {store : AuthProfileStore} {profileId : Str} {stats : ProfileUsageStats}
  {now t : ℚ} {forModel : Option Str}

/-! ## Windows -/

/-- A window, unless it has expired. -/
def keepOpen (until? : Option ℚ) (now : ℚ) : Option ℚ :=
  if windowExpired until? now then none else until?

theorem clearExpiredCooldown_windows (now : ℚ) (stats : ProfileUsageStats) :
    (clearExpiredCooldown now stats).blockedUntil = keepOpen stats.blockedUntil now ∧
      (clearExpiredCooldown now stats).cooldownUntil = keepOpen stats.cooldownUntil now ∧
      (clearExpiredCooldown now stats).disabledUntil = keepOpen stats.disabledUntil now := by
  unfold clearExpiredCooldown keepOpen
  dsimp only
  cases windowExpired stats.cooldownUntil now <;> cases windowExpired stats.blockedUntil now <;>
    cases windowExpired stats.disabledUntil now <;> split_ifs <;>
    exact ⟨rfl, rfl, rfl⟩

/-- The model scope goes with the cooldown. -/
theorem clearExpiredCooldown_scope (now : ℚ) (stats : ProfileUsageStats) :
    (clearExpiredCooldown now stats).cooldownReason =
        (if windowExpired stats.cooldownUntil now then none else stats.cooldownReason) ∧
      (clearExpiredCooldown now stats).cooldownModel =
        (if windowExpired stats.cooldownUntil now then none else stats.cooldownModel) ∧
      (clearExpiredCooldown now stats).lastFailureAt = stats.lastFailureAt := by
  unfold clearExpiredCooldown
  dsimp only
  cases windowExpired stats.cooldownUntil now <;> cases windowExpired stats.blockedUntil now <;>
    cases windowExpired stats.disabledUntil now <;> split_ifs <;>
    exact ⟨rfl, rfl, rfl⟩

variable {until? : Option ℚ} {value : ℚ}

theorem windowExpired_iff :
    windowExpired until? now = true ↔ ∃ value, until? = some value ∧ 0 < value ∧ value ≤ now := by
  cases until? <;> simp [windowExpired]

theorem isActiveUnusableWindow_eq_true : isActiveUnusableWindow until? t = true ↔
      ∃ value, until? = some value ∧ 0 < value ∧ t < value := by
  cases until? <;> simp [isActiveUnusableWindow]

theorem keepOpen_eq_some :
    keepOpen until? now = some value ↔ until? = some value ∧ (0 < value → now < value) := by
  unfold keepOpen
  split
  · next hexpired =>
    obtain ⟨found, hfound, hpos, hle⟩ := windowExpired_iff.mp hexpired
    constructor
    · exact fun h => nomatch h
    · rintro ⟨hsome, hopen⟩
      have heq : found = value := Option.some.inj (hfound.symm.trans hsome)
      have hlt := hopen (heq ▸ hpos)
      rw [heq] at hle
      exact absurd hle (not_le.mpr hlt)
  · next hopen =>
    constructor
    · intro hsome
      refine ⟨hsome, fun hpos => ?_⟩
      by_contra hle
      exact hopen (windowExpired_iff.mpr ⟨value, hsome, hpos, not_lt.mp hle⟩)
    · exact fun h => h.1

/-- Later than `now`, what has expired makes no difference. -/
theorem isActiveUnusableWindow_keepOpen (hle : now ≤ t) (until? : Option ℚ) :
    isActiveUnusableWindow (keepOpen until? now) t = isActiveUnusableWindow until? t := by
  rw [Bool.eq_iff_iff, isActiveUnusableWindow_eq_true, isActiveUnusableWindow_eq_true]
  constructor
  · rintro ⟨value, hsome, hpos, hlt⟩
    exact ⟨value, (keepOpen_eq_some.mp hsome).1, hpos, hlt⟩
  · rintro ⟨value, hsome, hpos, hlt⟩
    exact ⟨value, keepOpen_eq_some.mpr ⟨hsome, fun _ => hle.trans_lt hlt⟩, hpos, hlt⟩

theorem keepActiveWindowOrRecompute_keepOpen (hle : now ≤ t) (until? : Option ℚ) (recomputed : ℚ) :
    keepActiveWindowOrRecompute (keepOpen until? now) t recomputed =
      keepActiveWindowOrRecompute until? t recomputed := by
  unfold keepOpen
  split
  · next hexpired =>
    obtain ⟨value, hsome, -, hvalue⟩ := windowExpired_iff.mp hexpired
    rw [hsome]
    exact (if_neg (not_lt.mpr (hvalue.trans hle))).symm
  · rfl

/-- The windows that count. -/
def windowValues (stats : ProfileUsageStats) : List ℚ :=
  ([stats.blockedUntil, stats.cooldownUntil, stats.disabledUntil].filterMap id).filter (0 < ·)

theorem mem_windowValues :
    value ∈ windowValues stats ↔ 0 < value ∧ (stats.blockedUntil = some value ∨
      stats.cooldownUntil = some value ∨ stats.disabledUntil = some value) := by
  unfold windowValues
  simp only [mem_filter, mem_filterMap, mem_cons, not_mem_nil, decide_eq_true_eq, id_eq]
  constructor
  · rintro ⟨⟨until?, hwindow, hsome⟩, hpos⟩
    rcases hwindow with rfl | rfl | rfl | hfalse
    · exact ⟨hpos, .inl hsome⟩
    · exact ⟨hpos, .inr (.inl hsome)⟩
    · exact ⟨hpos, .inr (.inr hsome)⟩
    · exact hfalse.elim
  · rintro ⟨hpos, hsome | hsome | hsome⟩
    · exact ⟨⟨_, .inl rfl, hsome⟩, hpos⟩
    · exact ⟨⟨_, .inr (.inl rfl), hsome⟩, hpos⟩
    · exact ⟨⟨_, .inr (.inr (.inl rfl)), hsome⟩, hpos⟩

theorem mem_windowValues_clear : value ∈ windowValues (clearExpiredCooldown now stats) ↔
      value ∈ windowValues stats ∧ now < value := by
  obtain ⟨hblocked, hcooldown, hdisabled⟩ := clearExpiredCooldown_windows now stats
  rw [mem_windowValues, mem_windowValues, hblocked, hcooldown, hdisabled, keepOpen_eq_some,
    keepOpen_eq_some, keepOpen_eq_some]
  constructor
  · rintro ⟨hpos, ⟨hsome, hlt⟩ | ⟨hsome, hlt⟩ | ⟨hsome, hlt⟩⟩
    · exact ⟨⟨hpos, .inl hsome⟩, hlt hpos⟩
    · exact ⟨⟨hpos, .inr (.inl hsome)⟩, hlt hpos⟩
    · exact ⟨⟨hpos, .inr (.inr hsome)⟩, hlt hpos⟩
  · rintro ⟨⟨hpos, hsome | hsome | hsome⟩, hlt⟩
    · exact ⟨hpos, .inl ⟨hsome, fun _ => hlt⟩⟩
    · exact ⟨hpos, .inr (.inl ⟨hsome, fun _ => hlt⟩)⟩
    · exact ⟨hpos, .inr (.inr ⟨hsome, fun _ => hlt⟩)⟩

/-- Values below another one do not count for the greatest. -/
theorem max?_eq_of_dominated {few many : List ℚ} (hsub : ∀ x ∈ few, x ∈ many)
    (hdominated : ∀ x ∈ many, ∃ y ∈ few, x ≤ y) : few.max? = many.max? := by
  cases hmax : few.max? with
  | none =>
    have hnil : few = [] := max?_eq_none_iff.mp hmax
    have hnone : many = [] := by
      apply eq_nil_iff_forall_not_mem.mpr
      intro x hx
      obtain ⟨y, hy, -⟩ := hdominated x hx
      rw [hnil] at hy
      exact not_mem_nil hy
    rw [hnone]
    rfl
  | some top =>
    obtain ⟨hmem, hle⟩ := max?_eq_some_iff.mp hmax
    refine (max?_eq_some_iff.mpr ⟨hsub top hmem, fun x hx => ?_⟩).symm
    obtain ⟨y, hy, hxy⟩ := hdominated x hx
    exact hxy.trans (hle y hy)

theorem unusableUntil_any_iff :
    ((resolveProfileUnusableUntil stats).any fun unusableUntil => t < unusableUntil) = true ↔
      isActiveUnusableWindow stats.blockedUntil t = true ∨
        isActiveUnusableWindow stats.cooldownUntil t = true ∨
        isActiveUnusableWindow stats.disabledUntil t = true := by
  show ((windowValues stats).max?.any fun unusableUntil => t < unusableUntil) = true ↔ _
  rw [max?_any_lt]
  simp only [mem_windowValues, isActiveUnusableWindow_eq_true]
  constructor
  · rintro ⟨value, ⟨hpos, hsome | hsome | hsome⟩, hlt⟩
    · exact .inl ⟨value, hsome, hpos, hlt⟩
    · exact .inr (.inl ⟨value, hsome, hpos, hlt⟩)
    · exact .inr (.inr ⟨value, hsome, hpos, hlt⟩)
  · rintro (⟨value, hsome, hpos, hlt⟩ | ⟨value, hsome, hpos, hlt⟩ | ⟨value, hsome, hpos, hlt⟩)
    · exact ⟨value, ⟨hpos, .inl hsome⟩, hlt⟩
    · exact ⟨value, ⟨hpos, .inr (.inl hsome)⟩, hlt⟩
    · exact ⟨value, ⟨hpos, .inr (.inr hsome)⟩, hlt⟩

/-! ## Availability -/

/-- The scope of a cooldown that has expired still lets the model through, although a block is
open. -/
def StaleScopeHidesBlock (host : Host) (store : AuthProfileStore) (profileId : Str) (now t : ℚ)
    (forModel : Option Str) : Prop :=
  isAuthCooldownBypassedForProvider host ((store.profiles profileId).map (·.provider)) = false ∧
    ∃ stats, store.usageStats profileId = some stats ∧
      windowExpired stats.cooldownUntil now = true ∧
      shouldBypassModelScopedCooldown stats t forModel = true ∧
      isActiveUnusableWindow stats.blockedUntil t = true

theorem shouldBypassModelScopedCooldown_clear (hle : now ≤ t) :
    shouldBypassModelScopedCooldown (clearExpiredCooldown now stats) t forModel =
      (shouldBypassModelScopedCooldown stats t forModel &&
        !windowExpired stats.cooldownUntil now) := by
  obtain ⟨-, -, hdisabled⟩ := clearExpiredCooldown_windows now stats
  obtain ⟨hreason, hmodel, -⟩ := clearExpiredCooldown_scope now stats
  unfold shouldBypassModelScopedCooldown
  rw [hreason, hmodel, hdisabled, isActiveUnusableWindow_keepOpen hle]
  cases windowExpired stats.cooldownUntil now with
  | false => simp
  | true => simp

theorem unusableUntil_any_clear (hle : now ≤ t) :
    ((resolveProfileUnusableUntil (clearExpiredCooldown now stats)).any fun unusableUntil =>
      t < unusableUntil) =
      ((resolveProfileUnusableUntil stats).any fun unusableUntil => t < unusableUntil) := by
  obtain ⟨hblocked, hcooldown, hdisabled⟩ := clearExpiredCooldown_windows now stats
  rw [Bool.eq_iff_iff, unusableUntil_any_iff, unusableUntil_any_iff, hblocked, hcooldown, hdisabled,
    isActiveUnusableWindow_keepOpen hle, isActiveUnusableWindow_keepOpen hle,
    isActiveUnusableWindow_keepOpen hle]

/-- Clearing changes the answer for a model only where a stale scope hides a block. -/
theorem isProfileInCooldown_clear_iff (hle : now ≤ t) :
    isProfileInCooldown host (clearExpiredCooldowns store now) profileId t forModel =
        isProfileInCooldown host store profileId t forModel ↔
      ¬ StaleScopeHidesBlock host store profileId now t forModel := by
  unfold isProfileInCooldown StaleScopeHidesBlock clearExpiredCooldowns
  dsimp only
  cases hprovider : isAuthCooldownBypassedForProvider host
      ((store.profiles profileId).map (·.provider)) with
  | true => simp
  | false =>
    cases hstats : store.usageStats profileId with
    | none => simp
    | some stats =>
      show (if shouldBypassModelScopedCooldown (clearExpiredCooldown now stats) t forModel then false
        else _) = (if shouldBypassModelScopedCooldown stats t forModel then false else _) ↔ _
      rw [shouldBypassModelScopedCooldown_clear hle, unusableUntil_any_clear hle]
      cases hbypass : shouldBypassModelScopedCooldown stats t forModel with
      | false => simp [hbypass]
      | true =>
        cases hexpired : windowExpired stats.cooldownUntil now with
        | false => simp [hexpired]
        | true =>
          -- the cooldown has expired and no disable is open, so only a block can be
          have hcooldown : isActiveUnusableWindow stats.cooldownUntil t = false := by
            obtain ⟨value, hsome, -, hvalue⟩ := windowExpired_iff.mp hexpired
            rw [hsome]
            simp [isActiveUnusableWindow, hvalue.trans hle]
          have hdisabled : isActiveUnusableWindow stats.disabledUntil t = false := by
            unfold shouldBypassModelScopedCooldown at hbypass
            simp only [Bool.and_eq_true, Bool.not_eq_true'] at hbypass
            exact hbypass.2
          have hopen : ((resolveProfileUnusableUntil stats).any fun unusableUntil =>
              t < unusableUntil) = true ↔ _ := unusableUntil_any_iff
          rw [hcooldown, hdisabled] at hopen
          simp only [Bool.false_eq_true, or_false] at hopen
          simp [hbypass, hexpired, ← hopen]

/-! ## The next failure -/

theorem exists_windowValue_of_expired
    (h : (windowExpired stats.cooldownUntil now || windowExpired stats.blockedUntil now ||
      windowExpired stats.disabledUntil now) = false) :
    ∀ value ∈ windowValues stats, now < value := by
  intro value hmem
  rw [Bool.or_eq_false_iff, Bool.or_eq_false_iff] at h
  by_contra hle
  obtain ⟨hpos, hsome | hsome | hsome⟩ := mem_windowValues.mp hmem
  · exact Bool.false_ne_true (h.1.2.symm.trans
      (windowExpired_iff.mpr ⟨value, hsome, hpos, not_lt.mp hle⟩))
  · exact Bool.false_ne_true (h.1.1.symm.trans
      (windowExpired_iff.mpr ⟨value, hsome, hpos, not_lt.mp hle⟩))
  · exact Bool.false_ne_true (h.2.symm.trans
      (windowExpired_iff.mpr ⟨value, hsome, hpos, not_lt.mp hle⟩))

/-- The counters are reset where no window is left, and where one is left it is the last one. -/
theorem clearExpiredCooldown_counters (now : ℚ) (stats : ProfileUsageStats) :
    (resolveProfileUnusableUntil (clearExpiredCooldown now stats) = none ∧
        (∃ value ∈ windowValues stats, value ≤ now) ∧
        (clearExpiredCooldown now stats).errorCount = some 0 ∧
        (clearExpiredCooldown now stats).failureCounts = none) ∨
      (resolveProfileUnusableUntil (clearExpiredCooldown now stats) =
          resolveProfileUnusableUntil stats ∧
        (clearExpiredCooldown now stats).errorCount = stats.errorCount ∧
        (clearExpiredCooldown now stats).failureCounts = stats.failureCounts) := by
  have hsame : (∀ value ∈ windowValues stats, ∃ top ∈ windowValues (clearExpiredCooldown now stats),
      value ≤ top) → resolveProfileUnusableUntil (clearExpiredCooldown now stats) =
        resolveProfileUnusableUntil stats :=
    max?_eq_of_dominated fun value hmem => (mem_windowValues_clear.mp hmem).1
  have hcounters : ∀ cleared : ProfileUsageStats, cleared.errorCount = stats.errorCount →
      cleared.failureCounts = stats.failureCounts →
      ∀ b : Bool, (b = false ∨ (resolveProfileUnusableUntil cleared).isNone = false) →
      (if b && (resolveProfileUnusableUntil cleared).isNone then clearErrorCounters cleared
        else cleared).errorCount = stats.errorCount ∧
      (if b && (resolveProfileUnusableUntil cleared).isNone then clearErrorCounters cleared
        else cleared).failureCounts = stats.failureCounts := by
    intro cleared herrors hcounts b hb
    rw [if_neg (by rcases hb with hb | hb <;> simp [hb])]
    exact ⟨herrors, hcounts⟩
  by_cases hany : (windowExpired stats.cooldownUntil now || windowExpired stats.blockedUntil now ||
      windowExpired stats.disabledUntil now) = true
  swap
  · right
    have hfalse := Bool.eq_false_iff.mpr hany
    have hopen := exists_windowValue_of_expired hfalse
    refine ⟨hsame fun value hmem =>
      ⟨value, mem_windowValues_clear.mpr ⟨hmem, hopen value hmem⟩, le_rfl⟩, ?_⟩
    unfold clearExpiredCooldown
    dsimp only
    rw [hfalse]
    refine hcounters _ ?_ ?_ false (.inl rfl) <;> split_ifs <;> rfl
  -- the counters are looked at when the windows have been cleared
  have hresolve : ∀ cleared : ProfileUsageStats, ∀ b : Bool,
      resolveProfileUnusableUntil (if b && (resolveProfileUnusableUntil cleared).isNone then
        clearErrorCounters cleared else cleared) = resolveProfileUnusableUntil cleared := by
    intro cleared b
    split <;> rfl
  cases hleft : resolveProfileUnusableUntil (clearExpiredCooldown now stats) with
  | none =>
    left
    refine ⟨rfl, ?_, ?_⟩
    · by_contra hnone
      have hopen : ∀ value ∈ windowValues stats, now < value := by
        intro value hmem
        by_contra hle
        exact hnone ⟨value, hmem, not_lt.mp hle⟩
      have hexpired : ∀ until?, windowExpired until? now = true →
          (stats.blockedUntil = until? ∨ stats.cooldownUntil = until? ∨
            stats.disabledUntil = until?) → False := by
        intro until? h hwindow
        obtain ⟨value, rfl, hpos, hle⟩ := windowExpired_iff.mp h
        exact absurd hle (not_le.mpr (hopen value (mem_windowValues.mpr ⟨hpos, hwindow⟩)))
      rw [Bool.or_eq_true, Bool.or_eq_true] at hany
      rcases hany with (h | h) | h
      · exact hexpired _ h (.inr (.inl rfl))
      · exact hexpired _ h (.inl rfl)
      · exact hexpired _ h (.inr (.inr rfl))
    · unfold clearExpiredCooldown at hleft ⊢
      dsimp only at hleft ⊢
      rw [hresolve] at hleft
      rw [hany, hleft]
      exact ⟨rfl, rfl⟩
  | some top =>
    right
    have htop : top ∈ windowValues (clearExpiredCooldown now stats) :=
      (max?_eq_some_iff.mp hleft).1
    have hlt := (mem_windowValues_clear.mp htop).2
    refine ⟨hleft.symm.trans (hsame fun value hmem => ?_), ?_⟩
    · by_cases hvalue : now < value
      · exact ⟨value, mem_windowValues_clear.mpr ⟨hmem, hvalue⟩, le_rfl⟩
      · exact ⟨top, htop, (not_lt.mp hvalue).trans hlt.le⟩
    · unfold clearExpiredCooldown at hleft ⊢
      dsimp only at hleft ⊢
      rw [hresolve] at hleft
      refine hcounters _ ?_ ?_ _ (.inr (by rw [hleft]; rfl)) <;> split_ifs <;> rfl

variable (existing : ProfileUsageStats)

/-- The counters that a failure adds to. -/
def baseErrorCount (now : ℚ) (cfgResolved : ResolvedAuthCooldownConfig) : ℕ :=
  if shouldResetCounters existing now cfgResolved then 0 else existing.errorCount.getD 0

def baseFailureCounts (now : ℚ)
    (cfgResolved : ResolvedAuthCooldownConfig) : AuthProfileFailureReason → Option ℕ :=
  if shouldResetCounters existing now cfgResolved then fun _ => none
  else existing.failureCounts.getD fun _ => none

theorem baseCounters_clear (hle : now ≤ t) (stats : ProfileUsageStats)
    (cfgResolved : ResolvedAuthCooldownConfig) :
    baseErrorCount (clearExpiredCooldown now stats) t cfgResolved =
        baseErrorCount stats t cfgResolved ∧
      baseFailureCounts (clearExpiredCooldown now stats) t cfgResolved =
        baseFailureCounts stats t cfgResolved := by
  obtain ⟨-, -, hlast⟩ := clearExpiredCooldown_scope now stats
  rcases clearExpiredCooldown_counters now stats with
    ⟨hnone, ⟨value, hmem, -⟩, herrors, hcounts⟩ | ⟨hsame, herrors, hcounts⟩
  · -- what has expired by `now` resets the counters of the statistics not cleared
    have hreset : shouldResetCounters stats t cfgResolved = true := by
      have hnil : windowValues (clearExpiredCooldown now stats) = [] := max?_eq_none_iff.mp hnone
      have hprevious : ((resolveProfileUnusableUntil stats).any fun unusableUntil =>
          unusableUntil ≤ t) = true := by
        cases hmax : resolveProfileUnusableUntil stats with
        | none =>
          have hempty : windowValues stats = [] := max?_eq_none_iff.mp hmax
          rw [hempty] at hmem
          exact absurd hmem not_mem_nil
        | some top =>
          have htop : top ∈ windowValues stats := (max?_eq_some_iff.mp hmax).1
          have hle' : top ≤ now := by
            by_contra hlt
            have hleft := mem_windowValues_clear.mpr ⟨htop, not_le.mp hlt⟩
            rw [hnil] at hleft
            exact not_mem_nil hleft
          exact decide_eq_true (hle'.trans hle)
      unfold shouldResetCounters
      dsimp only
      rw [hprevious, Bool.or_true]
    unfold baseErrorCount baseFailureCounts
    rw [hreset, herrors, hcounts]
    constructor <;> split <;> rfl
  · have hreset : shouldResetCounters (clearExpiredCooldown now stats) t cfgResolved =
        shouldResetCounters stats t cfgResolved := by
      unfold shouldResetCounters
      rw [hlast, hsame]
    unfold baseErrorCount baseFailureCounts
    rw [hreset, herrors, hcounts]
    exact ⟨rfl, rfl⟩

/-- What is observed of the statistics from a time on. -/
structure SameOutcome (t : ℚ) (stats stats' : ProfileUsageStats) : Prop where
  errorCount : stats.errorCount = stats'.errorCount
  failureCounts : stats.failureCounts = stats'.failureCounts
  blocked : ∀ ts, t ≤ ts →
    isActiveUnusableWindow stats.blockedUntil ts = isActiveUnusableWindow stats'.blockedUntil ts
  cooldown : ∀ ts, t ≤ ts →
    isActiveUnusableWindow stats.cooldownUntil ts = isActiveUnusableWindow stats'.cooldownUntil ts
  disabled : ∀ ts, t ≤ ts →
    isActiveUnusableWindow stats.disabledUntil ts = isActiveUnusableWindow stats'.disabledUntil ts
  unusableUntil : resolveProfileUnusableUntil stats = resolveProfileUnusableUntil stats'

/-- A window that is open dominates those that have expired. -/
theorem unusableUntil_eq_of_keepOpen {stats stats' : ProfileUsageStats} {until_ : ℚ}
    (hblocked : stats.blockedUntil = keepOpen stats'.blockedUntil now)
    (hcooldown : stats.cooldownUntil = keepOpen stats'.cooldownUntil now)
    (hdisabled : stats.disabledUntil = keepOpen stats'.disabledUntil now) (hopen : now < until_)
    (hwindow : stats'.cooldownUntil = some until_ ∨ stats'.disabledUntil = some until_) :
    resolveProfileUnusableUntil stats = resolveProfileUnusableUntil stats' := by
  have hmem : ∀ value, value ∈ windowValues stats ↔ value ∈ windowValues stats' ∧ now < value := by
    intro value
    rw [mem_windowValues, mem_windowValues, hblocked, hcooldown, hdisabled, keepOpen_eq_some,
      keepOpen_eq_some, keepOpen_eq_some]
    tauto
  refine max?_eq_of_dominated (fun value h => ((hmem value).mp h).1) fun value h => ?_
  by_cases hvalue : now < value
  · exact ⟨value, (hmem value).mpr ⟨h, hvalue⟩, le_rfl⟩
  · have hle : value ≤ until_ := (not_lt.mp hvalue).trans hopen.le
    have hpos : 0 < until_ := (mem_windowValues.mp h).1.trans_le hle
    exact ⟨until_, (hmem until_).mpr ⟨mem_windowValues.mpr ⟨hpos, .inr hwindow⟩, hopen⟩, hle⟩

theorem lt_keepActiveWindowOrRecompute (until? : Option ℚ) (t : ℚ) {backoffMs : ℚ}
    (hpos : 0 < backoffMs) : t < keepActiveWindowOrRecompute until? t (t + backoffMs) := by
  unfold keepActiveWindowOrRecompute
  split
  · split
    · assumption
    · linarith
  · linarith

theorem calculateAuthProfileCooldownMs_pos (errorCount : ℕ) :
    0 < calculateAuthProfileCooldownMs errorCount := by
  unfold calculateAuthProfileCooldownMs
  dsimp only
  split_ifs <;> norm_num

theorem calculateDisabledLaneBackoffMs_pos (errorCount : ℕ) (baseMs maxMs : ℚ) :
    0 < calculateDisabledLaneBackoffMs errorCount baseMs maxMs := by
  unfold calculateDisabledLaneBackoffMs
  have hbase : 0 < max 60000 baseMs := lt_max_of_lt_left (by norm_num)
  exact lt_min (lt_max_of_lt_left hbase) (mul_pos hbase (by positivity))

theorem resolveDisabledFailureBackoffMs_pos (reason : DisabledFailureReason) (errorCount : ℕ)
    (cfgResolved : ResolvedAuthCooldownConfig) :
    0 < resolveDisabledFailureBackoffMs reason errorCount cfgResolved := by
  cases reason with
  | billing => exact calculateDisabledLaneBackoffMs_pos _ _ _
  | authPermanent => exact calculateDisabledLaneBackoffMs_pos _ _ _

theorem keepOpen_some {until_ : ℚ} (h : now < until_) : keepOpen (some until_) now = some until_ :=
  keepOpen_eq_some.mpr ⟨rfl, fun _ => h⟩

/-- A failure later on leaves the same counters, and the same windows open. -/
theorem computeNextProfileUsageStats_clear (hle : now ≤ t) (stats : ProfileUsageStats)
    (reason : AuthProfileFailureReason) (cfgResolved : ResolvedAuthCooldownConfig)
    (modelId : Option Str) : SameOutcome t
      (computeNextProfileUsageStats (clearExpiredCooldown now stats) t reason cfgResolved modelId)
      (computeNextProfileUsageStats stats t reason cfgResolved modelId) := by
  obtain ⟨hblocked, hcooldown, hdisabled⟩ := clearExpiredCooldown_windows now stats
  obtain ⟨herrors, hcounts⟩ := baseCounters_clear hle stats cfgResolved
  generalize clearExpiredCooldown now stats = cleared at *
  -- each window is the one of the statistics not cleared, unless it has expired
  have hsame : ∀ {next next' : ProfileUsageStats} {until_ : ℚ},
      next.errorCount = next'.errorCount → next.failureCounts = next'.failureCounts →
      next.blockedUntil = keepOpen next'.blockedUntil now →
      next.cooldownUntil = keepOpen next'.cooldownUntil now →
      next.disabledUntil = keepOpen next'.disabledUntil now → t < until_ →
      (next'.cooldownUntil = some until_ ∨ next'.disabledUntil = some until_) →
      SameOutcome t next next' := by
    intro next next' until_ herrors' hcounts' hb hc hd hopen hwindow
    refine ⟨herrors', hcounts', ?_, ?_, ?_,
      unusableUntil_eq_of_keepOpen hb hc hd (hle.trans_lt hopen) hwindow⟩
    · intro ts hts
      rw [hb, isActiveUnusableWindow_keepOpen (hle.trans hts)]
    · intro ts hts
      rw [hc, isActiveUnusableWindow_keepOpen (hle.trans hts)]
    · intro ts hts
      rw [hd, isActiveUnusableWindow_keepOpen (hle.trans hts)]
  have hnextErrors : ∀ existing : ProfileUsageStats,
      (if shouldResetCounters existing t cfgResolved then 0 else existing.errorCount.getD 0) =
        baseErrorCount existing t cfgResolved := fun _ => rfl
  have hnextCounts : ∀ existing : ProfileUsageStats,
      (if shouldResetCounters existing t cfgResolved then fun _ => none
        else existing.failureCounts.getD fun _ => none) =
        baseFailureCounts existing t cfgResolved := fun _ => rfl
  unfold computeNextProfileUsageStats
  dsimp only
  simp only [hnextErrors, hnextCounts, herrors, hcounts]
  cases hreason : disabledFailureReason? reason with
  | some disabledReason =>
    have hbackoff := lt_keepActiveWindowOrRecompute stats.disabledUntil t
      (resolveDisabledFailureBackoffMs_pos disabledReason
        ((countFailure (baseFailureCounts stats t cfgResolved) reason reason).getD 1) cfgResolved)
    refine hsame rfl rfl hblocked hcooldown ?_ hbackoff (.inr rfl)
    dsimp only
    rw [keepOpen_some (hle.trans_lt hbackoff), hdisabled, keepActiveWindowOrRecompute_keepOpen hle]
  | none =>
    have hbackoff := lt_keepActiveWindowOrRecompute stats.cooldownUntil t
      (calculateAuthProfileCooldownMs_pos (baseErrorCount stats t cfgResolved + 1))
    refine hsame rfl rfl hblocked ?_ hdisabled hbackoff (.inl rfl)
    dsimp only
    rw [keepOpen_some (hle.trans_lt hbackoff), hcooldown, keepActiveWindowOrRecompute_keepOpen hle]

/-- Clearing what has expired is not noticed by a later failure, nor by a later question whether
the profile is in cooldown, unless a stale scope hides a block. -/
theorem clearExpiredCooldowns_neutral_iff {host : Host} {store : AuthProfileStore} {now t : ℚ}
    (hle : now ≤ t) (profileId : Str) (forModel : Option Str) :
    (isProfileInCooldown host (clearExpiredCooldowns store now) profileId t forModel =
          isProfileInCooldown host store profileId t forModel ∧
        ∀ later, now ≤ later → ∀ reason cfgResolved modelId, SameOutcome later
            (computeNextProfileUsageStats
              (((clearExpiredCooldowns store now).usageStats profileId).getD {}) later reason
              cfgResolved modelId)
            (computeNextProfileUsageStats ((store.usageStats profileId).getD {}) later reason
              cfgResolved modelId)) ↔
      ¬ StaleScopeHidesBlock host store profileId now t forModel := by
  rw [isProfileInCooldown_clear_iff hle]
  refine ⟨fun h => h.1, fun h => ⟨h, ?_⟩⟩
  intro later hlater reason cfgResolved modelId
  show SameOutcome later (computeNextProfileUsageStats
    (((store.usageStats profileId).map (clearExpiredCooldown now)).getD {}) later reason
      cfgResolved modelId) _
  cases store.usageStats profileId with
  | none => exact ⟨rfl, rfl, fun _ _ => rfl, fun _ _ => rfl, fun _ _ => rfl, rfl⟩
  | some stats => exact computeNextProfileUsageStats_clear hlater stats reason cfgResolved modelId

/-! ## A block behind a cooldown -/

/-- A Codex profile that is blocked for a day, after a rate limit of one model. -/
def blockedCodexStore : AuthProfileStore where
  profiles := fun _ => some (.oauth "openai-codex".toList "access".toList)
  usageStats := fun _ => some
    { blockedUntil := some 86400000
      cooldownUntil := some 31000
      cooldownReason := some .rateLimit
      cooldownModel := some "gpt-5".toList
      errorCount := some 1
      lastFailureAt := some 1000 }

theorem clearExpiredCooldowns_neutral_iff_sameModel :
    isProfileInCooldown Host.asciiLinux (clearExpiredCooldowns blockedCodexStore 40000)
        "codex".toList 40000 (some "gpt-5".toList) =
      isProfileInCooldown Host.asciiLinux blockedCodexStore "codex".toList 40000
        (some "gpt-5".toList) := by
  refine ((clearExpiredCooldowns_neutral_iff le_rfl "codex".toList (some "gpt-5".toList)).mpr ?_).1
  rintro ⟨-, stats, hstats, -, hbypass, -⟩
  rw [← Option.some.inj hstats] at hbypass
  revert hbypass
  decide +kernel

/-- Another model is let through until the expired cooldown is cleared, and kept out after. -/
theorem not_clearExpiredCooldowns_neutral :
    isProfileInCooldown Host.asciiLinux blockedCodexStore "codex".toList 40000
        (some "gpt-5-mini".toList) = false ∧
      isProfileInCooldown Host.asciiLinux (clearExpiredCooldowns blockedCodexStore 40000)
        "codex".toList 40000 (some "gpt-5-mini".toList) = true := by
  decide +kernel

end OpenClaw
