import OpenClaw.Pairing.BootstrapRecords

/-!
# A token serves one device

What holds of every sequence of operations on bootstrap tokens.
-/

namespace OpenClaw

open List

/-! ## What is asked -/

/-- Said of the events of a run. -/
structure ServesOneDevice (keys : KeyHost) (events : List BootstrapEvent) : Prop where
  one_device : ∀ request other, .verified request true ∈ events → .verified other true ∈ events →
    trim request.token = trim other.token → trim request.deviceId = trim other.deviceId ∧
      normalizeBootstrapPublicKey keys request.publicKey =
        normalizeBootstrapPublicKey keys other.publicKey
  allowed : ∀ request, .verified request true ∈ events →
    ∃ params, .issued (trim request.token) params ∈ events ∧
      (resolveIssuedBootstrapProfile params).Allows request.role request.scopes
  steady : ∀ before request middle other after,
    events = before ++ .verified request true :: (middle ++ .verified other true :: after) →
      trim request.token = trim other.token →
        ¬CoveredWithin (trim request.token) (before ++ [.verified request true]) middle
          request.requestedProfile → other.requestedProfile = request.requestedProfile
  fully : ∀ before params redemption after,
    events = before ++ .redeemed params redemption :: after → redemption.fullyRedeemed = true →
      ∃ issuedWith, .issued (trim params.token) issuedWith ∈ before ∧
        Covers (redemptionsOf (trim params.token) (before ++ [.redeemed params redemption]))
          (resolveIssuedBootstrapProfile issuedWith)

/-- Redeeming what was accepted last leaves no pending request. -/
def RedeemingClears (events : List BootstrapEvent) (file : DeviceBootstrapStateFile) : Prop :=
  ∀ before request after, events = before ++ .verified request true :: after →
    (∀ other, .verified other true ∈ after → trim other.token ≠ trim request.token) →
      ∀ (nowMs : ℤ), (∃ entry ∈ loadState file nowMs, entry.1 = trim request.token) →
        (redeemDeviceBootstrapTokenProfile file nowMs
            ⟨request.token, request.role, request.scopes⟩).1.recorded = true ∧
          ∀ entry ∈ (redeemDeviceBootstrapTokenProfile file nowMs
              ⟨request.token, request.role, request.scopes⟩).2,
            entry.1 = trim request.token → entry.2.pendingProfile = none

section

variable {keys : KeyHost} {file state : DeviceBootstrapStateFile} {nowMs : ℤ} {s : BootstrapSystem}
  {events : List BootstrapEvent} {tokenKey provided : Str} {record : DeviceBootstrapTokenRecord}

/-! ## Every event -/

theorem ServesOneDevice.nil : ServesOneDevice keys [] where
  one_device := fun _ _ h => (nomatch h)
  allowed := fun _ h => (nomatch h)
  steady := by
    intro before request middle other after hsplit
    exact absurd hsplit.symm (append_ne_nil_of_right_ne_nil _ (cons_ne_nil _ _))
  fully := by
    intro before params redemption after hsplit
    exact absurd hsplit.symm (append_ne_nil_of_right_ne_nil _ (cons_ne_nil _ _))

/-- One more event, with what it has to meet itself. -/
theorem ServesOneDevice.snoc (h : ServesOneDevice keys events) {event : BootstrapEvent}
    (hdevice : ∀ request earlier, event = .verified request true →
      .verified earlier true ∈ events → trim earlier.token = trim request.token →
        trim earlier.deviceId = trim request.deviceId ∧
          normalizeBootstrapPublicKey keys earlier.publicKey =
            normalizeBootstrapPublicKey keys request.publicKey)
    (hallowed : ∀ request, event = .verified request true →
      ∃ params, .issued (trim request.token) params ∈ events ∧
        (resolveIssuedBootstrapProfile params).Allows request.role request.scopes)
    (hsteady : ∀ before earlier middle request, event = .verified request true →
      events = before ++ .verified earlier true :: middle → trim earlier.token = trim request.token →
        ¬CoveredWithin (trim earlier.token) (before ++ [.verified earlier true]) middle
          earlier.requestedProfile → request.requestedProfile = earlier.requestedProfile)
    (hfully : ∀ params redemption, event = .redeemed params redemption →
      redemption.fullyRedeemed = true → ∃ issuedWith, .issued (trim params.token) issuedWith ∈ events ∧
        Covers (redemptionsOf (trim params.token) (events ++ [event]))
          (resolveIssuedBootstrapProfile issuedWith)) :
    ServesOneDevice keys (events ++ [event]) where
  one_device := by
    intro request other hmem hmem' htoken
    rcases mem_append.mp hmem with hmem | hmem
    · rcases mem_append.mp hmem' with hmem' | hmem'
      · exact h.one_device request other hmem hmem' htoken
      · exact hdevice other request (mem_singleton.mp hmem').symm hmem htoken
    · rcases mem_append.mp hmem' with hmem' | hmem'
      · obtain ⟨hid, hkey⟩ :=
          hdevice request other (mem_singleton.mp hmem).symm hmem' htoken.symm
        exact ⟨hid.symm, hkey.symm⟩
      · have heq := (mem_singleton.mp hmem).trans (mem_singleton.mp hmem').symm
        cases heq
        exact ⟨rfl, rfl⟩
  allowed := by
    intro request hmem
    have hissued : ∃ params, .issued (trim request.token) params ∈ events ∧
        (resolveIssuedBootstrapProfile params).Allows request.role request.scopes := by
      rcases mem_append.mp hmem with hmem | hmem
      · exact h.allowed request hmem
      · exact hallowed request (mem_singleton.mp hmem).symm
    obtain ⟨params, hissued, hallows⟩ := hissued
    exact ⟨params, mem_append_left _ hissued, hallows⟩
  steady := by
    intro before request middle other after hsplit htoken hnot
    rw [← cons_append, ← append_assoc] at hsplit
    rcases snoc_eq_append_cons hsplit with ⟨_, hbefore, heq⟩ | ⟨after', rfl, hbefore⟩
    · exact hsteady before request middle other heq.symm hbefore.symm htoken hnot
    · rw [append_assoc, cons_append] at hbefore
      exact h.steady before request middle other after' hbefore htoken hnot
  fully := by
    intro before params redemption after hsplit hfull
    rcases snoc_eq_append_cons hsplit with ⟨_, rfl, heq⟩ | ⟨after', rfl, hbefore⟩
    · rw [heq]
      exact hfully params redemption heq.symm hfull
    · exact h.fully before params redemption after' hbefore hfull

/-- Events that are no accepted request and no recorded redemption. -/
theorem ServesOneDevice.quiet (h : ServesOneDevice keys events) {event : BootstrapEvent}
    (haccepted : ∀ request, event ≠ .verified request true)
    (hredeemed : ∀ params redemption, event = .redeemed params redemption →
      redemption.fullyRedeemed = false) : ServesOneDevice keys (events ++ [event]) := by
  refine h.snoc ?_ ?_ ?_ ?_
  · exact fun request _ heq => absurd heq (haccepted request)
  · exact fun request heq => absurd heq (haccepted request)
  · exact fun _ _ _ request heq => absurd heq (haccepted request)
  · intro params redemption heq hfull
    rw [hredeemed params redemption heq] at hfull
    cases hfull

/-! ## Every step -/

/-- The requests and redemptions of a step that the invariant allows. -/
theorem BootstrapInv.verified (hkeys : keys.Laws) (h : BootstrapInv keys s events)
    (hserves : ServesOneDevice keys events) (nowMs : ℤ) (request : VerifyParams) :
    BootstrapInv keys ⟨(verifyDeviceBootstrapToken keys s.file nowMs request).2, s.revoked, s.issued⟩
        (events ++ [.verified request (verifyDeviceBootstrapToken keys s.file nowMs request).1]) ∧
      ServesOneDevice keys
        (events ++ [.verified request (verifyDeviceBootstrapToken keys s.file nowMs request).1]) := by
  cases haccepted : (verifyDeviceBootstrapToken keys s.file nowMs request).1 with
  | false =>
    rw [verify_rejected haccepted]
    have hnot : ∀ token, ¬(BootstrapEvent.verified request false).concerns token :=
      fun _ hconcerns => Bool.false_ne_true hconcerns.1
    exact ⟨h.quiet hnot fun _ _ heq => (nomatch heq),
      hserves.quiet (fun _ heq => (nomatch heq)) fun _ _ heq => (nomatch heq)⟩
  | true =>
    obtain ⟨tokenKey, record, hfind, haccepts, hfile⟩ := verify_accepted haccepted
    have hloaded := h.load nowMs
    obtain ⟨hmem, htoken⟩ := of_findToken hfind
    have hkey : record.token = tokenKey := hloaded.token_eq _ hmem
    have hmatches : Matches keys events record := hloaded.inFile _ hmem
    rw [hfile]
    constructor
    · exact hloaded.update (mem_map_of_mem hmem) hkey (hmatches.accepted hkeys htoken.symm haccepts)
        (fun token hconcerns => by rw [← hconcerns.2, ← htoken, hkey]) fun _ _ heq => (nomatch heq)
    · refine hserves.snoc ?_ ?_ ?_ ?_
      · rintro _ earlier ⟨rfl⟩ hearlier hsame
        exact hmatches.same_device hkeys haccepts hearlier (hsame.trans htoken.symm)
      · rintro _ ⟨rfl⟩
        obtain ⟨params, hissued, hprofile⟩ := hmatches.issued
        rw [htoken] at hissued
        refine ⟨params, hissued, ?_⟩
        have hallows := haccepts.allows
        rw [resolvePersistedBootstrapProfile_of_normal hprofile (handoff_issued params).normal,
          bootstrapProfileAllowsRequest_iff (handoff_issued params).normal (trim_trim _)] at hallows
        refine ⟨?_, ?_⟩
        · have hrole := hallows.role_mem
          rw [trim_trim] at hrole
          exact hrole
        · have hgrants := hallows.grants
          rw [trim_trim] at hgrants
          exact hgrants
      · rintro before earlier middle _ ⟨rfl⟩ hbefore hsame hnot
        have hearlier : .verified earlier true ∈ events := by
          rw [hbefore]
          exact mem_append_right _ mem_cons_self
        have hearlierToken : trim earlier.token = record.token := hsame.trans htoken.symm
        rw [hearlierToken] at hnot
        have hpending :=
          (hmatches.pending before earlier middle hbefore hearlierToken).resolve_right hnot
        have hresolve : resolvePersistedPendingProfile record = some earlier.requestedProfile := by
          rw [resolvePersistedPendingProfile_of_normal hmatches.normal, hpending]
        exact (haccepts.same_request (hmatches.isBound hearlier hearlierToken) _ hresolve).symm
      · exact fun _ _ heq => (nomatch heq)

section

variable (h : BootstrapInv keys s events)
include h

theorem BootstrapInv.redeemed
    (hserves : ServesOneDevice keys events) (nowMs : ℤ) (params : RedeemParams) :
    BootstrapInv keys ⟨(redeemDeviceBootstrapTokenProfile s.file nowMs params).2, s.revoked, s.issued⟩
        (events ++ [.redeemed params (redeemDeviceBootstrapTokenProfile s.file nowMs params).1]) ∧
      ServesOneDevice keys
        (events ++ [.redeemed params (redeemDeviceBootstrapTokenProfile s.file nowMs params).1]) := by
  cases hfind : findToken (loadState s.file nowMs) (trim params.token) with
  | none =>
    rw [redeem_not_found hfind]
    refine ⟨h.quiet (fun _ hconcerns => Bool.false_ne_true hconcerns.1)
      fun _ _ heq => (nomatch heq), hserves.quiet (fun _ heq => (nomatch heq)) ?_⟩
    rintro _ _ ⟨rfl, rfl⟩
    rfl
  | some found =>
    obtain ⟨tokenKey, record⟩ := found
    rw [redeem_found hfind]
    have hloaded := h.load nowMs
    obtain ⟨hmem, htoken⟩ := of_findToken hfind
    have hkey : record.token = tokenKey := hloaded.token_eq _ hmem
    have hmatches : Matches keys events record := hloaded.inFile _ hmem
    constructor
    · exact hloaded.update (mem_map_of_mem hmem) hkey (hmatches.redeemed_record htoken.symm rfl)
        (fun token hconcerns => by rw [← hconcerns.2, ← htoken, hkey]) fun _ _ heq => (nomatch heq)
    · refine hserves.snoc (fun _ _ heq => (nomatch heq)) (fun _ heq => (nomatch heq))
        (fun _ _ _ _ heq => (nomatch heq)) ?_
      rintro _ redemption ⟨rfl, rfl⟩ hfull
      obtain ⟨issuedWith, hissued, hprofile⟩ := hmatches.issued
      obtain ⟨p, hredeemed, hp⟩ := hmatches.redeemed
      rw [htoken] at hissued hp
      refine ⟨issuedWith, hissued, ?_⟩
      dsimp only at hfull
      rw [resolvePersistedBootstrapProfile_of_normal hprofile (handoff_issued issuedWith).normal]
        at hfull
      rw [redemptionsOf_redeemed rfl rfl]
      exact covers_of_satisfies (hp.redeemedWith hredeemed params) (handoff_issued issuedWith) hfull

/-- A token that was never issued. -/
theorem BootstrapInv.issue (nowMs : ℤ) (params : IssueParams)
    {token : Str} (htrim : trim token = token) (hne : token ≠ []) (hfresh : token ∉ s.issued) :
    BootstrapInv keys
      ⟨issueDeviceBootstrapToken s.file nowMs params token, s.revoked, token :: s.issued⟩
      (events ++ [.issued token params]) := by
  have hloaded := h.load nowMs
  have hnokey : token ∉ (loadState s.file nowMs).map Prod.fst := by
    intro hmem
    obtain ⟨entry, hentry, rfl⟩ := mem_map.mp hmem
    exact hfresh (hloaded.issued_of_file hentry)
  have hnorevoked : token ∉ s.revoked.map (·.token) := by
    intro hmem
    obtain ⟨record, hrecord, rfl⟩ := mem_map.mp hmem
    exact hfresh (h.issued_of_revoked hrecord)
  have hnoevent : ∀ event ∈ events, ¬event.concerns token :=
    fun event hmem hconcerns => hfresh (h.known event hmem token hconcerns)
  have hnoredemption : redemptionsOf token events = [] := by
    apply filterMap_eq_nil_iff.mpr
    intro event hmem
    cases event with
    | redeemed params redemption => exact if_neg (hnoevent _ hmem)
    | issued token params => rfl
    | verified request accepted => rfl
    | revoked token => rfl
    | revokedForDevice deviceId publicKey => rfl
    | restored record => rfl
    | cleared => rfl
    | reloaded => rfl
  have hquiet : ∀ other, ¬(BootstrapEvent.issued token params).concerns other := fun _ hfalse => hfalse
  have hnosplit : ∀ before request after, events ++ [.issued token params] =
      before ++ .verified request true :: after → trim request.token = token → False := by
    intro before request after hsplit hsame
    rcases snoc_eq_append_cons hsplit with ⟨_, _, heq⟩ | ⟨after', _, hbefore⟩
    · cases heq
    · apply hnoevent (.verified request true) _ ⟨rfl, hsame⟩
      rw [hbefore]
      exact mem_append_right _ mem_cons_self
  unfold issueDeviceBootstrapToken setRecord
  rw [if_neg hnokey]
  refine ⟨?_, ?_, ?_, ?_, ?_, ?_, ?_, ?_⟩
  · intro entry hentry
    rcases mem_append.mp hentry with hentry | hentry
    · exact hloaded.token_eq entry hentry
    · rw [mem_singleton.mp hentry]
  · have hperm : ((loadState s.file nowMs).map Prod.fst ++ [token] ++ s.revoked.map (·.token)).Perm
        (token :: ((loadState s.file nowMs).map Prod.fst ++ s.revoked.map (·.token))) := by
      rw [append_assoc]
      exact perm_middle
    dsimp only
    rw [map_append]
    refine hperm.nodup_iff.mpr (nodup_cons.mpr ⟨?_, hloaded.nodup⟩)
    rw [mem_append, not_or]
    exact ⟨hnokey, hnorevoked⟩
  · intro entry hentry
    rcases mem_append.mp hentry with hentry | hentry
    · exact (hloaded.inFile entry hentry).snoc (hquiet _)
    · rw [mem_singleton.mp hentry]
      refine ⟨⟨params, mem_append_right _ (mem_singleton_self _), rfl⟩, ?_, ⟨_, rfl, ?_⟩,
        fun _ hp => (nomatch hp), ?_, fun _ _ _ _ _ _ _ hp => (nomatch hp)⟩
      · intro request hmem hsame
        rcases mem_append.mp hmem with hmem | hmem
        · exact absurd ⟨rfl, hsame⟩ (hnoevent _ hmem)
        · cases mem_singleton.mp hmem
      · rw [redemptionsOf_snoc_of_not (hquiet _), hnoredemption]
        exact redeemed_nil
      · exact fun before request after hsplit hsame => (hnosplit before request after hsplit hsame).elim
  · exact fun record hrecord => (h.inRevoked record hrecord).snoc (hquiet _)
  · intro other
    rw [mem_cons, h.issued]
    constructor
    · rintro (rfl | ⟨params', hmem⟩)
      · exact ⟨params, mem_append_right _ (mem_singleton_self _)⟩
      · exact ⟨params', mem_append_left _ hmem⟩
    · rintro ⟨params', hmem⟩
      rcases mem_append.mp hmem with hmem | hmem
      · exact Or.inr ⟨params', hmem⟩
      · cases mem_singleton.mp hmem
        exact Or.inl rfl
  · intro other hmem
    rcases mem_cons.mp hmem with rfl | hmem
    · exact ⟨htrim, hne⟩
    · exact h.proper other hmem
  · intro other params' params'' hmem hmem'
    have hold : ∀ given, .issued token given ∉ events :=
      fun given hgiven => hfresh ((h.issued token).mpr ⟨given, hgiven⟩)
    rcases mem_append.mp hmem with hmem | hmem
    · rcases mem_append.mp hmem' with hmem' | hmem'
      · exact h.unique other params' params'' hmem hmem'
      · cases mem_singleton.mp hmem'
        exact absurd hmem (hold _)
    · cases mem_singleton.mp hmem
      rcases mem_append.mp hmem' with hmem' | hmem'
      · exact absurd hmem' (hold _)
      · cases mem_singleton.mp hmem'
        rfl
  · intro event hmem other hconcerns
    rcases mem_append.mp hmem with hmem | hmem
    · exact mem_cons_of_mem _ (h.known event hmem other hconcerns)
    · rw [mem_singleton.mp hmem] at hconcerns
      exact absurd hconcerns (hquiet other)

/-- A record leaves the file for those that may be restored. -/
theorem BootstrapInv.revoke (nowMs : ℤ) (token : Str) :
    BootstrapInv keys ⟨(revokeDeviceBootstrapToken s.file nowMs token).2,
        (revokeDeviceBootstrapToken s.file nowMs token).1.toList ++ s.revoked, s.issued⟩ events := by
  unfold revokeDeviceBootstrapToken
  dsimp only
  by_cases hempty : trim token = []
  · rw [if_pos hempty]
    exact h
  · rw [if_neg hempty]
    cases hfind : findToken (loadState s.file nowMs) (trim token) with
    | none => exact h
    | some found =>
      obtain ⟨tokenKey, record⟩ := found
      dsimp only
      have hloaded := h.load nowMs
      obtain ⟨hmem, _⟩ := of_findToken hfind
      have hkey : record.token = tokenKey := hloaded.token_eq _ hmem
      have hsublist : (deleteRecord (loadState s.file nowMs) tokenKey).Sublist
          (loadState s.file nowMs) := filter_sublist
      have hrest := hloaded.sublist hsublist
      refine ⟨hrest.token_eq, ?_, hrest.inFile, ?_, h.issued, h.proper, h.unique, h.known⟩
      · have hgone : tokenKey ∉ (deleteRecord (loadState s.file nowMs) tokenKey).map Prod.fst := by
          intro hin
          obtain ⟨entry, hentry, heq⟩ := mem_map.mp hin
          exact of_decide_eq_true (mem_filter.mp hentry).2 heq
        have hnotRevoked : tokenKey ∉ s.revoked.map (·.token) := fun hin =>
          (nodup_append.mp hloaded.nodup).2.2 _ (mem_map_of_mem hmem) _ hin rfl
        have hperm : ((deleteRecord (loadState s.file nowMs) tokenKey).map Prod.fst ++
            tokenKey :: s.revoked.map (·.token)).Perm
              (tokenKey :: ((deleteRecord (loadState s.file nowMs) tokenKey).map Prod.fst ++
                s.revoked.map (·.token))) := perm_middle
        dsimp only
        rw [Option.toList_some, singleton_append, map_cons, hkey]
        refine hperm.nodup_iff.mpr (nodup_cons.mpr ⟨?_, hrest.nodup⟩)
        rw [mem_append, not_or]
        exact ⟨hgone, hnotRevoked⟩
      · intro other hother
        rcases mem_cons.mp hother with rfl | hother
        · exact hloaded.inFile _ hmem
        · exact h.inRevoked other hother

theorem BootstrapInv.revokeForDevice (nowMs : ℤ) (deviceId publicKey : Str) : BootstrapInv keys
      ⟨revokeDeviceBootstrapTokensForDevice keys s.file nowMs deviceId publicKey, s.revoked,
        s.issued⟩ events := by
  unfold revokeDeviceBootstrapTokensForDevice
  dsimp only
  split
  · exact h
  · split
    · exact (h.load nowMs).sublist filter_sublist
    · exact h

/-- The record of a token that is not in the file. -/
theorem BootstrapInv.restore (nowMs : ℤ) (hrecord : record ∈ s.revoked) :
    BootstrapInv keys ⟨restoreDeviceBootstrapToken s.file nowMs record, s.revoked.erase record, s.issued⟩
      events := by
  have hloaded := h.load nowMs
  have hnokey : record.token ∉ (loadState s.file nowMs).map Prod.fst := fun hin =>
    (nodup_append.mp hloaded.nodup).2.2 _ hin _ (mem_map_of_mem hrecord) rfl
  unfold restoreDeviceBootstrapToken setRecord
  rw [if_neg hnokey]
  refine ⟨?_, ?_, ?_, ?_, h.issued, h.proper, h.unique, h.known⟩
  · intro entry hentry
    rcases mem_append.mp hentry with hentry | hentry
    · exact hloaded.token_eq entry hentry
    · rw [mem_singleton.mp hentry]
  · have hperm : (s.revoked.map (·.token)).Perm
        (record.token :: (s.revoked.erase record).map (·.token)) :=
      (perm_cons_erase hrecord).map (·.token)
    dsimp only
    rw [map_append, append_assoc]
    exact ((hperm.append_left _).nodup_iff).mp hloaded.nodup
  · intro entry hentry
    rcases mem_append.mp hentry with hentry | hentry
    · exact hloaded.inFile entry hentry
    · rw [mem_singleton.mp hentry]
      exact h.inRevoked record hrecord
  · exact fun other hother => h.inRevoked other (mem_of_mem_erase hother)

end

/-- What a step preserves. -/
theorem BootstrapStep.preserves (hkeys : keys.Laws) {event : BootstrapEvent} {s' : BootstrapSystem}
    (hstep : BootstrapStep keys s event s') (h : BootstrapInv keys s events)
    (hserves : ServesOneDevice keys events) :
    BootstrapInv keys s' (events ++ [event]) ∧ ServesOneDevice keys (events ++ [event]) := by
  cases hstep with
  | issue nowMs params htrim hne hfresh =>
    exact ⟨h.issue nowMs params htrim hne hfresh,
      hserves.quiet (fun _ heq => (nomatch heq)) fun _ _ heq => (nomatch heq)⟩
  | verify nowMs request => exact h.verified hkeys hserves nowMs request
  | redeem nowMs params => exact h.redeemed hserves nowMs params
  | revoke nowMs token =>
    exact ⟨(h.revoke nowMs token).quiet (fun _ hfalse => hfalse) fun _ _ heq => (nomatch heq),
      hserves.quiet (fun _ heq => (nomatch heq)) fun _ _ heq => (nomatch heq)⟩
  | revokeForDevice nowMs deviceId publicKey =>
    exact ⟨(h.revokeForDevice nowMs deviceId publicKey).quiet (fun _ hfalse => hfalse)
        fun _ _ heq => (nomatch heq),
      hserves.quiet (fun _ heq => (nomatch heq)) fun _ _ heq => (nomatch heq)⟩
  | restore nowMs hrecord =>
    exact ⟨(h.restore nowMs hrecord).quiet (fun _ hfalse => hfalse) fun _ _ heq => (nomatch heq),
      hserves.quiet (fun _ heq => (nomatch heq)) fun _ _ heq => (nomatch heq)⟩
  | clear =>
    exact ⟨(h.sublist (nil_sublist _)).quiet (fun _ hfalse => hfalse) fun _ _ heq => (nomatch heq),
      hserves.quiet (fun _ heq => (nomatch heq)) fun _ _ heq => (nomatch heq)⟩
  | reload =>
    exact ⟨h.quiet (fun _ hfalse => hfalse) fun _ _ heq => (nomatch heq),
      hserves.quiet (fun _ heq => (nomatch heq)) fun _ _ heq => (nomatch heq)⟩

/-! ## Every run -/

theorem BootstrapInv.redeemingClears (h : BootstrapInv keys s events) :
    RedeemingClears events s.file := by
  rintro before request after hsplit hlast nowMs ⟨entry, hentry, hlive⟩
  have hloaded := h.load nowMs
  obtain ⟨⟨tokenKey, record⟩, hfind⟩ := findToken_of_mem hloaded hentry
  dsimp only at hfind
  rw [hlive] at hfind
  obtain ⟨hmem, htoken⟩ := of_findToken hfind
  have hkey : record.token = tokenKey := hloaded.token_eq _ hmem
  have hmatches : Matches keys events record := hloaded.inFile _ hmem
  have hpending : pendingAfter (redeemedWith record ⟨request.token, request.role, request.scopes⟩)
      (resolvePersistedPendingProfile record) = none := by
    rw [resolvePersistedPendingProfile_of_normal hmatches.normal]
    apply Option.filter_eq_none_iff.mpr
    intro p hp
    rw [hmatches.last before request after hsplit htoken.symm
      (fun other hother => by rw [htoken]; exact hlast other hother) p hp]
    have hsatisfies : bootstrapProfileSatisfiesProfile
        (redeemedWith record ⟨request.token, request.role, request.scopes⟩)
          request.requestedProfile = true := by
      apply satisfies_requested
      · exact (trim_trim request.role).symm
      · intro scope hscope
        rw [mem_resolveScopesForRole, trim_trim] at hscope
        exact mem_resolveScopesForRole.mpr hscope
    rw [hsatisfies]
    exact Bool.false_ne_true
  rw [@redeem_found s.file nowMs tokenKey record ⟨request.token, request.role, request.scopes⟩ hfind]
  refine ⟨rfl, fun written hwritten hsame => ?_⟩
  rcases (key_of_setRecord (mem_map_of_mem hmem) _).2 written hwritten with rfl | ⟨_, hne⟩
  · exact hpending
  · rw [← hkey, htoken] at hne
    exact absurd hsame hne

theorem bootstrapToken_servesOneDevice (hkeys : keys.Laws)
    (hrun : Lts.Run (BootstrapStep keys) .fresh events s) :
    ServesOneDevice keys events ∧ RedeemingClears events s.file := by
  have hinv : BootstrapInv keys s events ∧ ServesOneDevice keys events :=
    hrun.historyInvariant (fun s events => BootstrapInv keys s events ∧ ServesOneDevice keys events)
      (fun h hstep => hstep.preserves hkeys h.1 h.2) ⟨.fresh, .nil⟩
  exact ⟨hinv.2, hinv.1.redeemingClears⟩

end

/-- Keys that are one word need nothing from Node. -/
def wordKeys : KeyHost := ⟨fun _ => [], fun _ => [], fun _ => none⟩

theorem wordKeys_laws : wordKeys.Laws :=
  ⟨fun _ => ⟨[], 0, rfl, fun _ h => (nomatch h)⟩, fun _ _ => rfl⟩

def sampleRequest : VerifyParams :=
  ⟨"token-1".toList, "device-1".toList, "a2V5".toList, "node".toList, []⟩

/-- The file after a token was issued for the setup profile and presented. -/
def sampleFile : DeviceBootstrapStateFile :=
  (verifyDeviceBootstrapToken wordKeys
    (issueDeviceBootstrapToken [] 0 ⟨none, none, none⟩ "token-1".toList) 1 sampleRequest).2

theorem bootstrapToken_servesOneDevice_sample : ServesOneDevice wordKeys
        [.issued "token-1".toList ⟨none, none, none⟩, .verified sampleRequest true] ∧
      RedeemingClears [.issued "token-1".toList ⟨none, none, none⟩, .verified sampleRequest true]
        sampleFile := by
  have hissue := @BootstrapStep.issue wordKeys .fresh 0 ⟨none, none, none⟩ "token-1".toList
    (by decide) (by decide) (fun h => nomatch h)
  have hverify := @BootstrapStep.verify wordKeys
    ⟨issueDeviceBootstrapToken [] 0 ⟨none, none, none⟩ "token-1".toList, [], ["token-1".toList]⟩ 1
    sampleRequest
  have haccepted : (verifyDeviceBootstrapToken wordKeys
      (issueDeviceBootstrapToken [] 0 ⟨none, none, none⟩ "token-1".toList) 1 sampleRequest).1 =
        true := by decide +kernel
  rw [haccepted] at hverify
  exact bootstrapToken_servesOneDevice wordKeys_laws (.cons hissue (.cons hverify (.nil _)))

end OpenClaw
