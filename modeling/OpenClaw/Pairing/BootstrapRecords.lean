import OpenClaw.Pairing.BootstrapRuns

/-!
# The records that operations write

What an accepted request and a recorded redemption find in the file and leave in it.
-/

namespace OpenClaw

open List

variable {request : VerifyParams} {params : RedeemParams}

section

variable {keys : KeyHost} {file state : DeviceBootstrapStateFile} {nowMs : ℤ} {s : BootstrapSystem}
  {events : List BootstrapEvent} {tokenKey provided : Str} {record : DeviceBootstrapTokenRecord}

/-! ## Finding a token -/

theorem of_findToken (h : findToken state provided = some (tokenKey, record)) :
    (tokenKey, record) ∈ state ∧ record.token = provided := by
  refine ⟨mem_of_find?_eq_some h, ?_⟩
  have hverify : verifyPairingToken provided record.token = true :=
    @find?_some _ (fun entry : Str × DeviceBootstrapTokenRecord =>
      verifyPairingToken provided entry.2.token) _ _ h
  unfold verifyPairingToken at hverify
  split_ifs at hverify
  exact (of_decide_eq_true hverify).symm

theorem findToken_of_mem (h : BootstrapInv keys s events)
    {entry : Str × DeviceBootstrapTokenRecord} (hentry : entry ∈ s.file) :
    ∃ found, findToken s.file entry.1 = some found := by
  obtain ⟨htrim, hne⟩ := h.proper _ (h.issued_of_file hentry)
  have hverify : verifyPairingToken entry.1 entry.2.token = true := by
    unfold verifyPairingToken
    rw [h.token_eq entry hentry, htrim, if_neg (by rw [or_self]; exact hne)]
    exact decide_eq_true rfl
  exact Option.isSome_iff_exists.mp (find?_isSome.mpr ⟨entry, hentry, hverify⟩)

/-! ## Requests -/

/-- The record of a token that a request was accepted for. -/
def acceptedRecord (keys : KeyHost) (record : DeviceBootstrapTokenRecord) (nowMs : ℤ)
    (request : VerifyParams) : DeviceBootstrapTokenRecord :=
  { record with
    profile := some (resolvePersistedBootstrapProfile record)
    pendingProfile := some request.requestedProfile
    deviceId := some (trim request.deviceId)
    publicKey := some (normalizeBootstrapPublicKey keys request.publicKey)
    lastUsedAtMs := some nowMs }

/-- The checks that an accepted request passed. -/
structure Accepts (keys : KeyHost) (record : DeviceBootstrapTokenRecord) (request : VerifyParams) :
    Prop where
  deviceId_ne : trim request.deviceId ≠ []
  allows : bootstrapProfileAllowsRequest (resolvePersistedBootstrapProfile record)
    (trim request.role) request.scopes = true
  same_device : (record.deviceId.map trim).getD [] ≠ [] →
    record.deviceId.map trim = some (trim request.deviceId) ∧
      record.publicKey.map (normalizeBootstrapPublicKey keys) =
        some (normalizeBootstrapPublicKey keys request.publicKey)
  same_request : (record.deviceId.map trim).getD [] ≠ [] →
    ∀ p, resolvePersistedPendingProfile record = some p → p = request.requestedProfile

theorem verify_accepted (h : (verifyDeviceBootstrapToken keys file nowMs request).1 = true) :
    ∃ tokenKey record, findToken (loadState file nowMs) (trim request.token) =
        some (tokenKey, record) ∧ Accepts keys record request ∧
      (verifyDeviceBootstrapToken keys file nowMs request).2 =
        setRecord (loadState file nowMs) tokenKey (acceptedRecord keys record nowMs request) := by
  unfold verifyDeviceBootstrapToken at h ⊢
  dsimp only at h ⊢
  split at h
  · cases h
  · next hprovided =>
    rw [if_neg hprovided]
    cases hfind : findToken (loadState file nowMs) (trim request.token) with
    | none =>
      rw [hfind] at h
      cases h
    | some found =>
      obtain ⟨tokenKey, record⟩ := found
      rw [hfind] at h
      dsimp only at h ⊢
      split at h
      · cases h
      · next hempty =>
        rw [if_neg hempty]
        split at h
        · cases h
        · next hallowed =>
          rw [if_neg hallowed]
          rw [not_or, Bool.not_eq_false] at hallowed
          refine ⟨tokenKey, record, rfl, ?_⟩
          split at h
          · next hbound =>
            rw [if_pos hbound]
            split at h
            · cases h
            · next hsame =>
              rw [if_neg hsame]
              rw [not_or, not_not, not_not] at hsame
              cases hpending : resolvePersistedPendingProfile record with
              | none =>
                refine ⟨⟨(not_or.mp hempty).1, hallowed.2, fun _ => hsame, fun _ p hp => ?_⟩, rfl⟩
                rw [hpending] at hp
                cases hp
              | some pending =>
                rw [hpending] at h
                dsimp only at h ⊢
                split_ifs at h
                next hprofile =>
                rw [if_neg hprofile]
                rw [Bool.not_eq_false] at hprofile
                have heq : pending = request.requestedProfile :=
                  sameBootstrapProfile_iff.mp hprofile
                refine ⟨⟨(not_or.mp hempty).1, hallowed.2, fun _ => hsame, fun _ p hp => ?_⟩, ?_⟩
                · rw [hpending] at hp
                  rw [← Option.some.inj hp]
                  exact heq
                · rw [heq]
                  rfl
          · next hunbound =>
            rw [if_neg hunbound]
            have hnone := (not_or.mp hunbound).1
            exact ⟨⟨(not_or.mp hempty).1, hallowed.2, fun hbound => absurd hbound hnone,
              fun hbound => absurd hbound hnone⟩, rfl⟩

theorem verify_rejected (h : (verifyDeviceBootstrapToken keys file nowMs request).1 = false) :
    (verifyDeviceBootstrapToken keys file nowMs request).2 = file := by
  generalize hresult : verifyDeviceBootstrapToken keys file nowMs request = result at h ⊢
  unfold verifyDeviceBootstrapToken at hresult
  dsimp only at hresult
  -- every branch leaves the file or accepts
  split at hresult
  · rw [← hresult]
  · split at hresult
    · rw [← hresult]
    · split at hresult
      · rw [← hresult]
      · split at hresult
        · rw [← hresult]
        · split at hresult
          · split at hresult
            · rw [← hresult]
            · split at hresult
              · split at hresult
                · rw [← hresult]
                · rw [← hresult] at h
                  cases h
              · rw [← hresult] at h
                cases h
          · rw [← hresult] at h
            cases h

/-! ## Redemptions -/

/-- The record of a token that was redeemed. -/
def redeemedRecord (record : DeviceBootstrapTokenRecord) (params : RedeemParams) :
    DeviceBootstrapTokenRecord :=
  { record with
    profile := some (resolvePersistedBootstrapProfile record)
    redeemedProfile := some (redeemedWith record params)
    pendingProfile :=
      pendingAfter (redeemedWith record params) (resolvePersistedPendingProfile record) }

theorem redeem_found {params : RedeemParams}
    (hfind : findToken (loadState file nowMs) (trim params.token) = some (tokenKey, record)) :
    redeemDeviceBootstrapTokenProfile file nowMs params =
      (⟨true, bootstrapProfileSatisfiesProfile (redeemedWith record params)
          (resolvePersistedBootstrapProfile record)⟩,
        setRecord (loadState file nowMs) tokenKey (redeemedRecord record params)) := by
  have hne : trim params.token ≠ [] := by
    intro hempty
    have hverify : verifyPairingToken (trim params.token) record.token = true :=
      @find?_some _ (fun entry : Str × DeviceBootstrapTokenRecord =>
        verifyPairingToken (trim params.token) entry.2.token) _ _ hfind
    unfold verifyPairingToken at hverify
    rw [trim_trim, if_pos (Or.inl hempty)] at hverify
    cases hverify
  unfold redeemDeviceBootstrapTokenProfile
  dsimp only
  rw [if_neg hne, hfind]
  rfl

theorem redeem_not_found (hfind : findToken (loadState file nowMs) (trim params.token) = none) :
    redeemDeviceBootstrapTokenProfile file nowMs params = (⟨false, false⟩, file) := by
  unfold redeemDeviceBootstrapTokenProfile
  dsimp only
  rw [hfind, ite_self]

/-! ## The records that are written -/

theorem redemptionsOf_redeemed {token : Str} {redemption : Redemption}
    (hrecorded : redemption.recorded = true) (htoken : trim params.token = token) :
    redemptionsOf token (events ++ [.redeemed params redemption]) =
      redemptionsOf token events ++ [params] := by
  rw [redemptionsOf_append]
  have hone : redemptionsOf token [.redeemed params redemption] = [params] :=
    filterMap_cons_some (if_pos ⟨hrecorded, htoken⟩)
  rw [hone]

theorem redemptionsOf_verified (token : Str) (request : VerifyParams) (accepted : Bool) :
    redemptionsOf token (events ++ [.verified request accepted]) = redemptionsOf token events := by
  rw [redemptionsOf_append]
  exact append_nil _

/-- A record that an earlier request was accepted for is bound. -/
theorem Matches.isBound (h : Matches keys events record)
    (hmem : .verified request true ∈ events) (htoken : trim request.token = record.token) :
    (record.deviceId.map trim).getD [] ≠ [] := by
  obtain ⟨hdevice, _, hne⟩ := h.bound request hmem htoken
  rw [hdevice, Option.map_some, Option.getD_some, trim_trim]
  exact hne

/-- The device that a token is accepted for is the one that it was accepted for before. -/
theorem Matches.same_device (hkeys : keys.Laws) (h : Matches keys events record)
    {earlier : VerifyParams} (haccepts : Accepts keys record request)
    (hmem : .verified earlier true ∈ events) (htoken : trim earlier.token = record.token) :
    trim earlier.deviceId = trim request.deviceId ∧
      normalizeBootstrapPublicKey keys earlier.publicKey =
        normalizeBootstrapPublicKey keys request.publicKey := by
  obtain ⟨hdevice, hkey⟩ := haccepts.same_device (h.isBound hmem htoken)
  obtain ⟨hdevice', hkey', _⟩ := h.bound earlier hmem htoken
  rw [hdevice', Option.map_some, Option.some.injEq, trim_trim] at hdevice
  rw [hkey', Option.map_some, Option.some.injEq, normalizeBootstrapPublicKey_idem hkeys] at hkey
  exact ⟨hdevice, hkey⟩

theorem Matches.accepted (hkeys : keys.Laws) (h : Matches keys events record)
    (hrequest : trim request.token = record.token) (haccepts : Accepts keys record request) :
    Matches keys (events ++ [.verified request true]) (acceptedRecord keys record nowMs request) where
  issued := by
    obtain ⟨params, hmem, hprofile⟩ := h.issued
    exact ⟨params, mem_append_left _ hmem, congrArg some
      (resolvePersistedBootstrapProfile_of_normal hprofile (handoff_issued params).normal)⟩
  bound := by
    intro earlier hmem htoken
    rcases mem_append.mp hmem with hmem | hmem
    · obtain ⟨hdevice, hkey⟩ := h.same_device hkeys haccepts hmem htoken
      rw [hdevice, hkey]
      exact ⟨rfl, rfl, haccepts.deviceId_ne⟩
    · cases mem_singleton.mp hmem
      exact ⟨rfl, rfl, haccepts.deviceId_ne⟩
  redeemed := by
    rw [redemptionsOf_verified]
    exact h.redeemed
  normal := by
    intro p hp
    cases hp
    exact normal_normalize _
  pending := by
    intro before earlier after hsplit htoken
    rcases snoc_eq_append_cons hsplit with ⟨_, _, heq⟩ | ⟨after', rfl, hbefore⟩
    · cases heq
      exact Or.inl rfl
    · have hmem : .verified earlier true ∈ events := by
        rw [hbefore]
        exact mem_append_right _ mem_cons_self
      rcases h.pending before earlier after' hbefore htoken with hpending | hcovered
      · left
        have hresolve : resolvePersistedPendingProfile record = some earlier.requestedProfile := by
          rw [resolvePersistedPendingProfile_of_normal h.normal, hpending]
        exact congrArg some (haccepts.same_request (h.isBound hmem htoken) _ hresolve).symm
      · exact Or.inr (hcovered.snoc _)
  last := by
    intro before earlier after hsplit htoken hlast p hp
    rcases snoc_eq_append_cons hsplit with ⟨_, _, heq⟩ | ⟨after', rfl, hbefore⟩
    · cases heq
      exact (Option.some.inj hp).symm
    · exact absurd hrequest (hlast request (mem_append_right _ (mem_singleton_self _)))

/-- The profile that is written by a redemption. -/
theorem Redeemed.redeemedWith {redemptions : List RedeemParams} {p : DeviceBootstrapProfile}
    (hp : Redeemed redemptions p) (hprofile : record.redeemedProfile = some p)
    (params : RedeemParams) : Redeemed (redemptions ++ [params]) (redeemedWith record params) := by
  have hadd := hp.add params
  rw [← resolvePersistedRedeemedProfile_of_normal hprofile hp.normal] at hadd
  exact hadd

theorem Matches.redeemed_record (h : Matches keys events record)
    {redemption : Redemption} (hparams : trim params.token = record.token)
    (hrecorded : redemption.recorded = true) :
    Matches keys (events ++ [.redeemed params redemption]) (redeemedRecord record params) := by
  obtain ⟨p, hprofile, hp⟩ := h.redeemed
  have hredeemed : Redeemed (redemptionsOf record.token (events ++ [.redeemed params redemption]))
      (redeemedWith record params) := by
    rw [redemptionsOf_redeemed hrecorded hparams]
    exact hp.redeemedWith hprofile params
  have hresolve := resolvePersistedPendingProfile_of_normal h.normal
  have hpending : ∀ p, (redeemedRecord record params).pendingProfile = some p →
      record.pendingProfile = some p := by
    intro p hp
    rw [← hresolve]
    exact (Option.filter_eq_some_iff.mp hp).1
  refine ⟨?_, ?_, ⟨_, rfl, hredeemed⟩, fun p hp => h.normal p (hpending p hp), ?_, ?_⟩
  · obtain ⟨params, hmem, hprofile⟩ := h.issued
    exact ⟨params, mem_append_left _ hmem, congrArg some
      (resolvePersistedBootstrapProfile_of_normal hprofile (handoff_issued params).normal)⟩
  · intro request hmem htoken
    rcases mem_append.mp hmem with hmem | hmem
    · exact h.bound request hmem htoken
    · cases mem_singleton.mp hmem
  · intro before request after hsplit htoken
    rcases snoc_eq_append_cons hsplit with ⟨_, _, heq⟩ | ⟨after', rfl, hbefore⟩
    · cases heq
    · rcases h.pending before request after' hbefore htoken with hsome | hcovered
      · -- either the request is covered now, or it stays
        cases hsatisfies : bootstrapProfileSatisfiesProfile (redeemedWith record params)
            request.requestedProfile with
        | true =>
          refine Or.inr ⟨after', [], params, redemption, rfl, hrecorded, hparams, ?_⟩
          have hcovers := covers_of_satisfies hredeemed (handoff_requested _ _) hsatisfies
          have hhistory : before ++ [.verified request true] ++ after' = events := by
            rw [hbefore, append_assoc]
            rfl
          rw [hhistory]
          exact hcovers
        | false =>
          left
          show pendingAfter _ (resolvePersistedPendingProfile record) = _
          rw [hresolve, hsome]
          exact Option.filter_eq_some_iff.mpr ⟨rfl, by rw [hsatisfies]; rfl⟩
      · exact Or.inr (hcovered.snoc _)
  · intro before request after hsplit htoken hlast p hp
    rcases snoc_eq_append_cons hsplit with ⟨_, _, heq⟩ | ⟨after', rfl, hbefore⟩
    · cases heq
    · exact h.last before request after' hbefore htoken
        (fun other hmem => hlast other (mem_append_left _ hmem)) p (hpending p hp)

end

end OpenClaw
