import OpenClaw.AuthProfiles.Usage
import OpenClaw.Lib.Run

/-!
# What a failure does to the availability of a profile

A failure opens a window or leaves one open, so a profile that is unusable should stay so.
Two events break this. A block with a known end replaces the cooldown, which may end
later. And a rate limit of one model, recorded while a block is open, puts the scope of
that model on a window that applies to all models.
-/

namespace OpenClaw

open Option Function

/-! ## Statistics that keep a profile unusable -/

variable (stats : ProfileUsageStats)

/-- The profile is unusable for a model (or for none) at a time. -/
def Unusable (ts : ℚ) (forModel : Option Str) : Prop :=
  shouldBypassModelScopedCooldown stats ts forModel = false ∧ ts < unusableEnd stats

/-- Whatever is unusable from `now` on, stays so. -/
def KeepsUnusable (stats stats' : ProfileUsageStats) (now : ℕ) : Prop :=
  ∀ ts : ℚ, now ≤ ts → ∀ forModel, Unusable stats ts forModel → Unusable stats' ts forModel

/-- A cooldown is scoped to a model by a rate limit only. -/
def ScopedByRateLimit : Prop :=
  isTruthy stats.cooldownModel → stats.cooldownReason = some .rateLimit

/-- A block up to `blockedUntil` ends before the cooldown it replaces, and no other window
covers the difference. -/
def EndsCooldownEarly (now : ℕ) (blockedUntil : ℚ) : Prop :=
  max (now : ℚ) (max (max (windowEnd stats.blockedUntil) blockedUntil)
    (windowEnd stats.disabledUntil)) < windowEnd stats.cooldownUntil

/-- A rate limit of one model opens a cooldown while a block is open that outlasts the
disable window, and the block does not let the other models through already. -/
def ScopesBlock (now : ℕ) (reason : AuthProfileFailureReason) (modelId : Option Str) : Prop :=
  reason = .rateLimit ∧ isTruthy modelId ∧ existingCooldownActive stats now = false ∧
    max (now : ℚ) (windowEnd stats.disabledUntil) < windowEnd stats.blockedUntil ∧
    ¬ (stats.cooldownReason = some .rateLimit ∧ stats.cooldownModel = modelId)

variable {stats stats' : ProfileUsageStats} {now : ℕ} {blockedUntil : ℚ}
  {reason : AuthProfileFailureReason} {modelId : Option Str} {host : Host}
  {profile : AuthProfileCredential} {store : AuthProfileStore} {deps : UsageHost}

theorem KeepsUnusable.unusableEnd_le
    (h : KeepsUnusable stats stats' now) : unusableEnd stats ≤ max (now : ℚ) (unusableEnd stats') := by
  by_contra hlt
  rw [not_le] at hlt
  -- a caller without a model, at the end of the last new window
  have hunusable : Unusable stats (max (now : ℚ) (unusableEnd stats')) none := ⟨by simp, hlt⟩
  have hkept := h _ (le_max_left _ _) none hunusable
  exact absurd hkept.2 (not_lt.mpr (le_max_right _ _))

variable (until? : Option ℚ)

theorem activeUntil_le (now : ℕ) : activeUntil until? now ≤ windowEnd until? := by
  cases until? with
  | none => simp [activeUntil]
  | some value =>
    simp only [activeUntil]
    split_ifs
    · exact le_max_right _ _
    · exact le_max_left _ _

theorem windowEnd_le_activeUntil (now : ℕ) :
    windowEnd until? ≤ max (now : ℚ) (activeUntil until? now) := by
  have hnow : (0 : ℚ) ≤ now := Nat.cast_nonneg now
  cases until? with
  | none => simp [activeUntil]
  | some value =>
    simp only [activeUntil]
    split_ifs with hlt
    · have hpos : 0 ≤ value := hnow.trans hlt.le
      simp [hpos]
    · rw [not_lt] at hlt
      simp [hnow, hlt]

/-! ## A block -/

/-- What a block writes. -/
structure Blocks (stats stats' : ProfileUsageStats) (now : ℕ) (blockedUntil : ℚ) : Prop where
  blockedUntil : stats'.blockedUntil = some (max (activeUntil stats.blockedUntil now) blockedUntil)
  cooldownUntil : stats'.cooldownUntil = none
  cooldownReason : stats'.cooldownReason = none
  cooldownModel : stats'.cooldownModel = none
  disabledUntil : stats'.disabledUntil = stats.disabledUntil

section

variable (h : Blocks stats stats' now blockedUntil)
include h

theorem Blocks.bypass (ts : ℚ) (forModel : Option Str) :
    shouldBypassModelScopedCooldown stats' ts forModel = false := by
  simp [shouldBypassModelScopedCooldown, h.cooldownReason]

/-- From `now` on, a block makes the last window end as late as the later of the old block,
the new block and the disable window. -/
theorem Blocks.unusableEnd_eq : max (now : ℚ) (unusableEnd stats') = max (now : ℚ)
      (max (max (windowEnd stats.blockedUntil) blockedUntil) (windowEnd stats.disabledUntil)) := by
  have hnow : (0 : ℚ) ≤ now := Nat.cast_nonneg now
  have hactive := activeUntil_le stats.blockedUntil now
  have hold := windowEnd_le_activeUntil stats.blockedUntil now
  unfold unusableEnd
  rw [h.blockedUntil, h.cooldownUntil, h.disabledUntil, windowEnd_some, windowEnd_none]
  apply le_antisymm
  · simp only [max_le_iff, le_max_iff]
    grind
  · simp only [max_le_iff, le_max_iff]
    grind

theorem Blocks.keepsUnusable_iff :
    KeepsUnusable stats stats' now ↔ ¬ EndsCooldownEarly stats now blockedUntil := by
  have hend := h.unusableEnd_eq
  unfold EndsCooldownEarly
  rw [← hend, not_lt]
  constructor
  · intro hkeeps
    have hcooldown : windowEnd stats.cooldownUntil ≤ unusableEnd stats :=
      (le_max_left _ _).trans (le_max_right _ _)
    exact hcooldown.trans hkeeps.unusableEnd_le
  · intro hcooldown ts hts forModel hunusable
    have hlt : ts < max (now : ℚ) (unusableEnd stats') := by
      have hunusableEnd := hunusable.2
      unfold unusableEnd at hunusableEnd
      simp only [lt_max_iff] at hunusableEnd
      rcases hunusableEnd with hblocked | hcool | hdisabled
      · rw [hend]
        simp only [lt_max_iff]
        exact .inr (.inl (.inl hblocked))
      · exact hcool.trans_le hcooldown
      · rw [hend]
        simp only [lt_max_iff]
        exact .inr (.inr hdisabled)
    have hnotNow : ¬ ts < now := not_lt.mpr hts
    exact ⟨h.bypass ts forModel, (lt_max_iff.mp hlt).resolve_left hnotNow⟩

end

/-! ## A cooldown or a disable -/

/-- What a failure without a block writes. -/
structure Records (stats stats' : ProfileUsageStats) (now : ℕ)
    (reason : AuthProfileFailureReason) (modelId : Option Str) : Prop where
  blockedUntil : stats'.blockedUntil = stats.blockedUntil
  cooldownEnd : windowEnd stats.cooldownUntil ≤ max (now : ℚ) (windowEnd stats'.cooldownUntil)
  disabledEnd : windowEnd stats.disabledUntil ≤ max (now : ℚ) (windowEnd stats'.disabledUntil)
  disables : (disabledFailureReason? reason).isSome →
    stats'.cooldownReason = stats.cooldownReason ∧ stats'.cooldownModel = stats.cooldownModel
  coolsDown : disabledFailureReason? reason = none →
    stats'.disabledUntil = stats.disabledUntil ∧ stats'.cooldownReason = some reason ∧
      stats'.cooldownModel = nextCooldownModel stats now reason modelId

theorem windowEnd_keepActiveWindowOrRecompute (now : ℕ) (recomputed : ℚ) : windowEnd until? ≤
      max (now : ℚ) (windowEnd (some (keepActiveWindowOrRecompute until? now recomputed))) := by
  have hnow : (0 : ℚ) ≤ now := Nat.cast_nonneg now
  cases until? with
  | none => simp [hnow]
  | some value =>
    simp only [keepActiveWindowOrRecompute]
    split_ifs with hlt
    · exact le_max_right _ _
    · rw [not_lt] at hlt
      simp [hnow, hlt]

theorem records_computeNextProfileUsageStats (existing : ProfileUsageStats) (now : ℕ)
    (reason : AuthProfileFailureReason) (cfgResolved : ResolvedAuthCooldownConfig)
    (modelId : Option Str) :
    Records existing (computeNextProfileUsageStats existing now reason cfgResolved modelId) now
      reason modelId := by
  unfold computeNextProfileUsageStats
  cases hdisabled : disabledFailureReason? reason with
  | some disabledFailureReason =>
    exact
      { blockedUntil := rfl
        cooldownEnd := le_max_right _ _
        disabledEnd := windowEnd_keepActiveWindowOrRecompute _ _ _
        disables := fun _ => ⟨rfl, rfl⟩
        coolsDown := fun h => by rw [hdisabled] at h; cases h }
  | none =>
    exact
      { blockedUntil := rfl
        cooldownEnd := windowEnd_keepActiveWindowOrRecompute _ _ _
        disabledEnd := le_max_right _ _
        disables := fun h => by rw [hdisabled] at h; cases h
        coolsDown := fun _ => ⟨rfl, rfl, rfl⟩ }

/-- A probe that finds no block only moves the end of the cooldown. -/
theorem records_applyWhamCooldownResult {existing computed : ProfileUsageStats}
    {whamResult : WhamCooldownProbeResult} (h : Records existing computed now reason modelId)
    (hblock : whamResult.block? = none) :
    Records existing (applyWhamCooldownResult existing computed now whamResult) now reason
      modelId := by
  have hkept := windowEnd_le_activeUntil existing.cooldownUntil now
  have hcooldown : windowEnd existing.cooldownUntil ≤ max (now : ℚ) (windowEnd
      (some (max (activeUntil existing.cooldownUntil now) (now + whamResult.cooldownMs)))) := by
    rw [windowEnd_some]
    grind
  simp only [applyWhamCooldownResult, hblock]
  exact { h with cooldownEnd := hcooldown }

/-- Inside an active cooldown the scope stays at its model or widens. -/
theorem activeCooldownModel_eq {cooldownModel : Option Str}
    (h : isTruthy (activeCooldownModel cooldownModel reason modelId)) :
    activeCooldownModel cooldownModel reason modelId = cooldownModel := by
  have hnone : isTruthy none = false := rfl
  unfold activeCooldownModel at h ⊢
  split_ifs at h ⊢ <;> first | rfl | (rw [hnone] at h; cases h)

theorem existingCooldownActive_false_iff :
    existingCooldownActive stats now = false ↔ windowEnd stats.cooldownUntil ≤ now := by
  have hnow : (0 : ℚ) ≤ now := Nat.cast_nonneg now
  unfold existingCooldownActive
  cases stats.cooldownUntil <;> simp [hnow]

/-- The condition of the scope alone, for a caller with a model. -/
theorem shouldBypassModelScopedCooldown_eq_true {ts : ℚ} {forModel : Option Str} (hts : 0 ≤ ts) :
    shouldBypassModelScopedCooldown stats ts forModel = true ↔
      isTruthy forModel ∧ stats.cooldownReason = some .rateLimit ∧ isTruthy stats.cooldownModel ∧
        stats.cooldownModel ≠ forModel ∧ windowEnd stats.disabledUntil ≤ ts := by
  have hdisabled := isActiveUnusableWindow_iff stats.disabledUntil hts
  rw [← not_lt, ← hdisabled]
  simp [shouldBypassModelScopedCooldown, and_assoc]

/-- Some caller is kept out by a scope other than the new one. -/
theorem exists_kept_out (ts : ℚ) (hmodel : isTruthy modelId)
    (hscope : ¬ (stats.cooldownReason = some .rateLimit ∧ stats.cooldownModel = modelId)) :
    ∃ forModel, isTruthy forModel ∧ modelId ≠ forModel ∧
      shouldBypassModelScopedCooldown stats ts forModel = false := by
  by_cases hscoped : stats.cooldownReason = some .rateLimit ∧ isTruthy stats.cooldownModel
  · -- the model of the old scope
    refine ⟨stats.cooldownModel, hscoped.2, ?_, ?_⟩
    · intro heq
      exact hscope ⟨hscoped.1, heq.symm⟩
    · simp [shouldBypassModelScopedCooldown]
  · -- any other model
    refine ⟨modelId.map (· ++ ['x']), ?_, ?_, ?_⟩
    · cases modelId with
      | none => exact hmodel
      | some model => simp [isTruthy]
    · cases modelId with
      | none => cases hmodel
      | some model =>
        intro heq
        have hlength := congrArg List.length (some.inj heq)
        simp at hlength
    · rw [not_and] at hscoped
      cases hbypass : shouldBypassModelScopedCooldown stats ts (modelId.map (· ++ ['x'])) with
      | false => rfl
      | true =>
        simp only [shouldBypassModelScopedCooldown, Bool.and_eq_true, decide_eq_true_eq]
          at hbypass
        exact absurd hbypass.1.1.2 (hscoped hbypass.1.1.1.2)

theorem Records.keepsUnusable_iff
    (h : Records stats stats' now reason modelId) (hscoped : ScopedByRateLimit stats) :
    KeepsUnusable stats stats' now ↔ ¬ ScopesBlock stats now reason modelId := by
  have hnow : (0 : ℚ) ≤ now := Nat.cast_nonneg now
  constructor
  · rintro hkeeps ⟨rfl, hmodel, hinactive, hblock, hscope⟩
    obtain ⟨hdisabledUntil, hreason', hmodel'⟩ := h.coolsDown rfl
    rw [nextCooldownModel, hinactive, if_neg Bool.false_ne_true, if_pos rfl] at hmodel'
    -- the block is open and the disable window is not
    have hts : (0 : ℚ) ≤ max (now : ℚ) (windowEnd stats.disabledUntil) :=
      hnow.trans (le_max_left _ _)
    obtain ⟨forModel, hforModel, hne, hkeptOut⟩ :=
      exists_kept_out (max (now : ℚ) (windowEnd stats.disabledUntil)) hmodel hscope
    have hunusable : Unusable stats (max (now : ℚ) (windowEnd stats.disabledUntil)) forModel :=
      ⟨hkeptOut, hblock.trans_le (le_max_left _ _)⟩
    have hkept := (hkeeps _ (le_max_left _ _) forModel hunusable).1
    have hbypass : shouldBypassModelScopedCooldown stats'
        (max (now : ℚ) (windowEnd stats.disabledUntil)) forModel = true := by
      rw [shouldBypassModelScopedCooldown_eq_true hts, hmodel', hdisabledUntil]
      exact ⟨hforModel, hreason', hmodel, hne, le_max_right _ _⟩
    rw [hkept] at hbypass
    cases hbypass
  · intro hscope ts hts forModel hunusable
    have hts0 : 0 ≤ ts := hnow.trans hts
    have hnotNow : ¬ ts < now := not_lt.mpr hts
    have hend : ts < unusableEnd stats' := by
      have hunusableEnd := hunusable.2
      have hcooldown := h.cooldownEnd
      have hdisabled := h.disabledEnd
      unfold unusableEnd at hunusableEnd ⊢
      rw [h.blockedUntil]
      simp only [lt_max_iff] at hunusableEnd ⊢
      rw [le_max_iff] at hcooldown hdisabled
      grind
    refine ⟨?_, hend⟩
    rw [Bool.eq_false_iff]
    intro hbypass
    rw [shouldBypassModelScopedCooldown_eq_true hts0] at hbypass
    obtain ⟨hforModel, hreason', hmodel', hne, hdisabledEnd'⟩ := hbypass
    have hdisabledEnd : windowEnd stats.disabledUntil ≤ ts :=
      h.disabledEnd.trans (max_le hts hdisabledEnd')
    -- what lets the caller through afterwards let it through before
    have hbefore : ¬ (stats.cooldownReason = some .rateLimit ∧
        stats.cooldownModel = stats'.cooldownModel) := by
      rintro ⟨hreason, hmodel⟩
      have hbypass : shouldBypassModelScopedCooldown stats ts forModel = true := by
        rw [shouldBypassModelScopedCooldown_eq_true hts0, hmodel]
        exact ⟨hforModel, hreason, hmodel', hne, hdisabledEnd⟩
      rw [hunusable.1] at hbypass
      cases hbypass
    cases hdisables : disabledFailureReason? reason with
    | some disabledFailureReason =>
      obtain ⟨hreason, hmodel⟩ := h.disables (by rw [hdisables]; rfl)
      exact hbefore ⟨hreason ▸ hreason', hmodel.symm⟩
    | none =>
      obtain ⟨-, hreason, hmodel⟩ := h.coolsDown hdisables
      obtain rfl : reason = .rateLimit := by
        rw [hreason] at hreason'
        exact some.inj hreason'
      unfold nextCooldownModel at hmodel
      cases hactive : existingCooldownActive stats now with
      | true =>
        rw [hactive, if_pos rfl] at hmodel
        rw [hmodel] at hmodel'
        rw [activeCooldownModel_eq hmodel'] at hmodel hmodel'
        exact hbefore ⟨hscoped hmodel', hmodel.symm⟩
      | false =>
        rw [hactive, if_neg Bool.false_ne_true, if_pos rfl] at hmodel
        have hcooldownEnd := existingCooldownActive_false_iff.mp hactive
        apply hscope
        refine ⟨rfl, hmodel ▸ hmodel', hactive, ?_, hmodel ▸ hbefore⟩
        -- only the block is open
        have hunusableEnd := hunusable.2
        unfold unusableEnd at hunusableEnd
        simp only [lt_max_iff] at hunusableEnd
        rcases hunusableEnd with hblocked | hcool | hdisabled
        · exact (max_le hts hdisabledEnd).trans_lt hblocked
        · exact absurd hcool (not_lt.mpr (hcooldownEnd.trans hts))
        · exact absurd hdisabled (not_lt.mpr hdisabledEnd)

/-! ## The scope of a cooldown over a run -/

theorem nextCooldownModel_rateLimit {now : ℚ}
    (h : isTruthy (nextCooldownModel stats now reason modelId)) : reason = .rateLimit := by
  by_contra hreason
  have hnone : nextCooldownModel stats now reason modelId = none := by
    simp [nextCooldownModel, activeCooldownModel, hreason]
  rw [hnone] at h
  cases h

theorem Records.scopedByRateLimit
    (h : Records stats stats' now reason modelId) (hscoped : ScopedByRateLimit stats) :
    ScopedByRateLimit stats' := by
  intro htruthy
  cases hdisables : disabledFailureReason? reason with
  | some disabledFailureReason =>
    obtain ⟨hreason, hmodel⟩ := h.disables (by rw [hdisables]; rfl)
    rw [hmodel] at htruthy
    rw [hreason]
    exact hscoped htruthy
  | none =>
    obtain ⟨-, hreason, hmodel⟩ := h.coolsDown hdisables
    rw [hmodel] at htruthy
    rw [hreason, nextCooldownModel_rateLimit htruthy]

/-- No model is on a cooldown that was taken away. -/
theorem scopedByRateLimit_of_none (h : stats.cooldownModel = none) : ScopedByRateLimit stats := by
  intro htruthy
  rw [h] at htruthy
  cases htruthy

theorem scopedByRateLimit_clearExpiredCooldown
    (h : ScopedByRateLimit stats) (ts : ℚ) : ScopedByRateLimit (clearExpiredCooldown ts stats) := by
  have hcooldown : ScopedByRateLimit (clearCooldownWindow stats) := scopedByRateLimit_of_none rfl
  dsimp only [clearExpiredCooldown]
  split_ifs <;> first | exact h | exact hcooldown

/-- Only failures that do not disable the profile are probed. -/
theorem disabledFailureReason?_of_whamResult {params : FailureParams}
    {whamResult : WhamCooldownProbeResult} (h : params.whamResult host profile = some whamResult) :
    disabledFailureReason? params.reason = none := by
  unfold FailureParams.whamResult shouldProbeWhamForFailure at h
  cases hreason : params.reason <;> first | rfl | simp [hreason] at h

/-- What a failure writes: a block where the probe finds one, else its own window. -/
theorem failureStats_cases (host : Host) (params : FailureParams) (profile : AuthProfileCredential)
    (now : ℕ) (previousStats : Option ProfileUsageStats) :
    match (params.whamResult host profile).bind (·.block?) with
    | some blockedUntil =>
      Blocks (previousStats.getD {}) (failureStats host params profile now previousStats) now
        blockedUntil
    | none =>
      Records (previousStats.getD {}) (failureStats host params profile now previousStats) now
        params.reason params.modelId := by
  have hrecords := records_computeNextProfileUsageStats (previousStats.getD {}) now params.reason
    (resolveAuthCooldownConfig host params.cooldowns (normalizeProviderId host profile.provider))
    params.modelId
  dsimp only [failureStats]
  cases hwham : params.whamResult host profile with
  | none =>
    rw [bind_none]
    exact hrecords
  | some whamResult =>
    rw [bind_some]
    cases hblock : whamResult.block? with
    | none => exact records_applyWhamCooldownResult hrecords hblock
    | some blockedUntil =>
      have hdisables := disabledFailureReason?_of_whamResult hwham
      have hdisabledUntil := (hrecords.coolsDown hdisables).1
      simp only [applyWhamCooldownResult, hblock]
      exact ⟨rfl, rfl, rfl, rfl, hdisabledUntil⟩

/-- Every scope in the store comes from a rate limit. -/
def StoreScoped (store : AuthProfileStore) : Prop :=
  ∀ profileId stats, store.usageStats profileId = some stats → ScopedByRateLimit stats

theorem StoreScoped.getD (h : StoreScoped store) (profileId : Str) :
    ScopedByRateLimit ((store.usageStats profileId).getD {}) := by
  cases hstats : store.usageStats profileId with
  | none => exact scopedByRateLimit_of_none rfl
  | some stats => exact h profileId stats hstats

theorem storeScoped_updateUsageStatsEntry (h : StoreScoped store)
    {profileId : Str} {updater : Option ProfileUsageStats → ProfileUsageStats}
    (hupdater : ScopedByRateLimit (updater (store.usageStats profileId))) :
    StoreScoped (updateUsageStatsEntry store profileId updater) := by
  intro other stats hstats
  by_cases hother : other = profileId
  · subst hother
    simp only [updateUsageStatsEntry, update_self, some.injEq] at hstats
    exact hstats ▸ hupdater
  · simp only [updateUsageStatsEntry, update_of_ne hother] at hstats
    exact h other stats hstats

theorem scopedByRateLimit_failureStats {params : FailureParams}
    {previousStats : Option ProfileUsageStats} (h : ScopedByRateLimit (previousStats.getD {})) :
    ScopedByRateLimit (failureStats host params profile now previousStats) := by
  have hcases := failureStats_cases host params profile now previousStats
  cases hblock : (params.whamResult host profile).bind (·.block?) with
  | some blockedUntil =>
    rw [hblock] at hcases
    exact scopedByRateLimit_of_none hcases.cooldownModel
  | none =>
    rw [hblock] at hcases
    exact hcases.scopedByRateLimit h

theorem StoreScoped.performUsageEvent (h : StoreScoped store) (now : ℕ) (event : UsageEvent) :
    StoreScoped (performUsageEvent deps store now event) := by
  cases event with
  | failed event =>
    cases event with
    | failure params =>
      show StoreScoped (markAuthProfileFailure deps.host store now params)
      unfold markAuthProfileFailure
      split
      · exact h
      · split_ifs
        · exact h
        · exact storeScoped_updateUsageStatsEntry h
            (scopedByRateLimit_failureStats (h.getD params.profileId))
    | block params =>
      show StoreScoped (markAuthProfileBlockedUntil deps.host store now params)
      unfold markAuthProfileBlockedUntil
      split
      · exact h
      · split_ifs
        · exact h
        · split
          · exact h
          · exact storeScoped_updateUsageStatsEntry h (scopedByRateLimit_of_none rfl)
  | success provider profileId =>
    show StoreScoped (markAuthProfileSuccess deps.resolveProviderIdForAuth store now provider
      profileId)
    unfold markAuthProfileSuccess
    split
    · exact h
    · split_ifs
      · exact h
      · exact storeScoped_updateUsageStatsEntry h (scopedByRateLimit_of_none rfl)
  | clearExpired =>
    intro profileId stats hstats
    obtain ⟨old, hold, rfl⟩ := Option.map_eq_some_iff.mp hstats
    exact scopedByRateLimit_clearExpiredCooldown (h profileId old hold) now

theorem storeScoped_of_run {profiles : Str → Option AuthProfileCredential}
    {clock : ℕ} {labels : List (UsageEvent × ℕ)} {state : UsageState}
    (hrun : Lts.Run (usageStep deps) (.start profiles clock) labels state) :
    StoreScoped state.store := by
  apply hrun.invariant fun state : UsageState => StoreScoped state.store
  · rintro s label t hs ⟨-, rfl⟩
    exact hs.performUsageEvent label.2 label.1
  · intro profileId stats hstats
    cases hstats

/-! ## Failures and availability -/

/-- When a failure makes the profile more available. -/
def FailureEvent.Frees (host : Host) (profile : AuthProfileCredential)
    (stats : ProfileUsageStats) (now : ℕ) : FailureEvent → Prop
  | .failure params =>
    match (params.whamResult host profile).bind (·.block?) with
    | some blockedUntil => EndsCooldownEarly stats now blockedUntil
    | none => ScopesBlock stats now params.reason params.modelId
  | .block params =>
    match params.block? with
    | some blockedUntil => EndsCooldownEarly stats now blockedUntil
    | none => False

theorem isProfileInCooldown_iff_unusable {profileId : Str} {ts : ℚ} {forModel : Option Str}
    (hprofile : store.profiles profileId = some profile)
    (hprovider : isAuthCooldownBypassedForProvider host (some profile.provider) = false)
    (hts : 0 ≤ ts) : isProfileInCooldown host store profileId ts forModel ↔
      Unusable ((store.usageStats profileId).getD {}) ts forModel := by
  have hbypassed : isAuthCooldownBypassedForProvider host
      ((store.profiles profileId).map (·.provider)) = false := by
    rw [hprofile]
    exact hprovider
  cases hstats : store.usageStats profileId with
  | some stats => exact isProfileInCooldown_iff hts hbypassed hstats
  | none =>
    have hend : unusableEnd {} = 0 := by simp [unusableEnd]
    simp [isProfileInCooldown, hbypassed, hstats, Unusable, hend, hts]

/-- The statistics that a failure event leaves. -/
theorem getD_performFailureEvent (deps : UsageHost) (now : ℕ) (event : FailureEvent)
    (hprofile : store.profiles event.profileId = some profile)
    (hprovider : isAuthCooldownBypassedForProvider deps.host (some profile.provider) = false) :
    ((performFailureEvent deps store now event).usageStats event.profileId).getD {} =
      match event with
      | .failure params =>
        failureStats deps.host params profile now (store.usageStats params.profileId)
      | .block params =>
        match params.block? with
        | some blockedUntil =>
          blockedStats params blockedUntil now (store.usageStats params.profileId)
        | none => (store.usageStats params.profileId).getD {} := by
  cases event with
  | failure params =>
    have hprofile' : store.profiles params.profileId = some profile := hprofile
    simp [performFailureEvent, markAuthProfileFailure, hprofile', hprovider,
      updateUsageStatsEntry, FailureEvent.profileId]
  | block params =>
    have hprofile' : store.profiles params.profileId = some profile := hprofile
    cases hblock : params.block? <;>
      simp [performFailureEvent, markAuthProfileBlockedUntil, hprofile', hprovider, hblock,
        updateUsageStatsEntry, FailureEvent.profileId]

theorem profiles_performFailureEvent (deps : UsageHost) (store : AuthProfileStore) (now : ℕ)
    (event : FailureEvent) : (performFailureEvent deps store now event).profiles = store.profiles := by
  cases event with
  | failure params =>
    dsimp only [performFailureEvent, markAuthProfileFailure]
    split <;> [rfl; (split_ifs <;> rfl)]
  | block params =>
    dsimp only [performFailureEvent, markAuthProfileBlockedUntil]
    split <;> [rfl; (split_ifs <;> [rfl; (split <;> rfl)])]

theorem keepsUnusable_failureEvent_iff {event : FailureEvent} (hscoped : StoreScoped store)
    (hprofile : store.profiles event.profileId = some profile)
    (hprovider : isAuthCooldownBypassedForProvider deps.host (some profile.provider) = false) :
    KeepsUnusable ((store.usageStats event.profileId).getD {})
        (((performFailureEvent deps store now event).usageStats event.profileId).getD {}) now ↔
      ¬ event.Frees deps.host profile ((store.usageStats event.profileId).getD {}) now := by
  rw [getD_performFailureEvent deps now event hprofile hprovider]
  cases event with
  | failure params =>
    have hcases := failureStats_cases deps.host params profile now
      (store.usageStats params.profileId)
    have hstats := hscoped.getD params.profileId
    dsimp only [FailureEvent.Frees, FailureEvent.profileId]
    cases hblock : (params.whamResult deps.host profile).bind (·.block?) with
    | some blockedUntil =>
      rw [hblock] at hcases
      exact hcases.keepsUnusable_iff
    | none =>
      rw [hblock] at hcases
      exact hcases.keepsUnusable_iff hstats
  | block params =>
    dsimp only [FailureEvent.Frees, FailureEvent.profileId]
    cases hblock : params.block? with
    | some blockedUntil =>
      have hblocks : Blocks ((store.usageStats params.profileId).getD {})
          (blockedStats params blockedUntil now (store.usageStats params.profileId)) now
          blockedUntil := ⟨rfl, rfl, rfl, rfl, rfl⟩
      exact hblocks.keepsUnusable_iff
    | none =>
      refine iff_of_true ?_ not_false
      intro ts _ forModel hunusable
      exact hunusable

/-- A profile of a provider with cooldowns, and no other. -/
def oneProfile (profileId : Str) : Option AuthProfileCredential :=
  if profileId = "anthropic:default".toList then some (.apiKey "anthropic".toList) else none

/-- The subscription is blocked for a day. -/
def blockForADay : BlockParams :=
  { profileId := "anthropic:default".toList
    blockedUntil := .finite 86400000
    source := .codexRateLimits
    modelId := none
    calledAt := 1000 }

/-- A failure of model `opus`. -/
def failureOfOpus (reason : AuthProfileFailureReason) : FailureParams :=
  { profileId := "anthropic:default".toList
    reason := reason
    modelId := some "opus".toList
    cooldowns := {}
    fetch := .failed
    probedAt := 2000 }

def asciiUsageHost : UsageHost := ⟨Host.asciiLinux, id⟩

/-- The store a second after the block. -/
def blockedState : UsageState :=
  ⟨performUsageEvent asciiUsageHost (.start oneProfile 1000 : UsageState).store 1000
    (.failed (.block blockForADay)), 1000⟩

theorem run_blockedState : Lts.Run (usageStep asciiUsageHost) (.start oneProfile 1000)
    [(.failed (.block blockForADay), 1000)] blockedState :=
  .single ⟨le_rfl, rfl⟩

end OpenClaw
