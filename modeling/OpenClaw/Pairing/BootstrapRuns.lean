import OpenClaw.Lib.Run
import OpenClaw.Pairing.Covered

/-!
# Runs of bootstrap tokens

Any sequence of operations on the token file. A token comes from the random source once, and a record
is restored at most once after it was revoked, as the gateway does when its answer cannot be sent.
-/

namespace OpenClaw

open List

/-! ## Steps -/

/-- An operation with its outcome. -/
inductive BootstrapEvent where
  | issued (token : Str) (params : IssueParams)
  | verified (request : VerifyParams) (accepted : Bool)
  | redeemed (params : RedeemParams) (redemption : Redemption)
  | revoked (token : Str)
  | revokedForDevice (deviceId publicKey : Str)
  | restored (record : DeviceBootstrapTokenRecord)
  | cleared
  | reloaded

structure BootstrapSystem where
  file : DeviceBootstrapStateFile
  /-- The records that were revoked and not restored since. -/
  revoked : List DeviceBootstrapTokenRecord
  /-- The tokens that were generated. -/
  issued : List Str

/-- No token was issued. -/
def BootstrapSystem.fresh : BootstrapSystem := ⟨[], [], []⟩

/-- One operation, at any time of the clock. -/
inductive BootstrapStep (keys : KeyHost) : BootstrapSystem → BootstrapEvent → BootstrapSystem → Prop
  | issue {s : BootstrapSystem} (nowMs : ℤ) (params : IssueParams) {token : Str} :
      trim token = token → token ≠ [] → token ∉ s.issued →
      BootstrapStep keys s (.issued token params)
        ⟨issueDeviceBootstrapToken s.file nowMs params token, s.revoked, token :: s.issued⟩
  | verify {s : BootstrapSystem} (nowMs : ℤ) (request : VerifyParams) :
      BootstrapStep keys s
        (.verified request (verifyDeviceBootstrapToken keys s.file nowMs request).1)
        ⟨(verifyDeviceBootstrapToken keys s.file nowMs request).2, s.revoked, s.issued⟩
  | redeem {s : BootstrapSystem} (nowMs : ℤ) (params : RedeemParams) :
      BootstrapStep keys s (.redeemed params (redeemDeviceBootstrapTokenProfile s.file nowMs params).1)
        ⟨(redeemDeviceBootstrapTokenProfile s.file nowMs params).2, s.revoked, s.issued⟩
  | revoke {s : BootstrapSystem} (nowMs : ℤ) (token : Str) :
      BootstrapStep keys s (.revoked token)
        ⟨(revokeDeviceBootstrapToken s.file nowMs token).2,
          (revokeDeviceBootstrapToken s.file nowMs token).1.toList ++ s.revoked, s.issued⟩
  | revokeForDevice {s : BootstrapSystem} (nowMs : ℤ) (deviceId publicKey : Str) :
      BootstrapStep keys s (.revokedForDevice deviceId publicKey)
        ⟨revokeDeviceBootstrapTokensForDevice keys s.file nowMs deviceId publicKey, s.revoked,
          s.issued⟩
  | restore {s : BootstrapSystem} (nowMs : ℤ) {record : DeviceBootstrapTokenRecord} :
      record ∈ s.revoked →
      BootstrapStep keys s (.restored record)
        ⟨restoreDeviceBootstrapToken s.file nowMs record, s.revoked.erase record, s.issued⟩
  | clear {s : BootstrapSystem} : BootstrapStep keys s .cleared ⟨[], s.revoked, s.issued⟩
  | reload {s : BootstrapSystem} : BootstrapStep keys s .reloaded s

/-! ## What the events say of a token -/

/-- What the code compares of an accepted request. -/
def VerifyParams.requestedProfile (request : VerifyParams) : DeviceBootstrapProfile :=
  resolveRequestedBootstrapProfile (trim request.role) request.scopes

/-- The redemptions of a token that were recorded. -/
def redemptionsOf (token : Str) (events : List BootstrapEvent) : List RedeemParams :=
  events.filterMap fun event =>
    match event with
    | .redeemed params redemption =>
      if redemption.recorded = true ∧ trim params.token = token then some params else none
    | _ => none

/-- Accepted requests and recorded redemptions concern a token. -/
def BootstrapEvent.concerns (event : BootstrapEvent) (token : Str) : Prop :=
  match event with
  | .verified request accepted => accepted = true ∧ trim request.token = token
  | .redeemed params redemption => redemption.recorded = true ∧ trim params.token = token
  | _ => False

/-- One of the later events is a redemption of the token after which the redemptions so far cover a
profile. -/
def CoveredWithin (token : Str) (history later : List BootstrapEvent) (p : DeviceBootstrapProfile) :
    Prop :=
  ∃ (middle rest : List BootstrapEvent) (params : RedeemParams) (redemption : Redemption),
    later = middle ++ .redeemed params redemption :: rest ∧
      redemption.recorded = true ∧ trim params.token = token ∧
        Covers (redemptionsOf token (history ++ middle ++ [.redeemed params redemption])) p

section

variable {keys : KeyHost} {events history later : List BootstrapEvent} {event : BootstrapEvent}
  {token : Str} {p : DeviceBootstrapProfile}

theorem redemptionsOf_append (token : Str) (events later : List BootstrapEvent) :
    redemptionsOf token (events ++ later) = redemptionsOf token events ++ redemptionsOf token later :=
  filterMap_append

theorem redemptionsOf_snoc_of_not (h : ¬event.concerns token) :
    redemptionsOf token (events ++ [event]) = redemptionsOf token events := by
  rw [redemptionsOf_append]
  have hnone : redemptionsOf token [event] = [] := by
    cases event with
    | redeemed params redemption => exact filterMap_cons_none (if_neg h)
    | issued token params => rfl
    | verified request accepted => rfl
    | revoked token => rfl
    | revokedForDevice deviceId publicKey => rfl
    | restored record => rfl
    | cleared => rfl
    | reloaded => rfl
  rw [hnone, append_nil]

theorem CoveredWithin.snoc (h : CoveredWithin token history later p) (event : BootstrapEvent) :
    CoveredWithin token history (later ++ [event]) p := by
  obtain ⟨middle, rest, params, redemption, rfl, hrecorded, htoken, hcovers⟩ := h
  refine ⟨middle, rest ++ [event], params, redemption, ?_, hrecorded, htoken, hcovers⟩
  rw [append_assoc, cons_append]

/-- An event that is last, or one before the last. -/
theorem snoc_eq_append_cons {α : Type*} {l front back : List α} {a b : α}
    (h : l ++ [a] = front ++ b :: back) :
    (back = [] ∧ front = l ∧ b = a) ∨ ∃ back', back = back' ++ [a] ∧ l = front ++ b :: back' := by
  rcases eq_nil_or_concat back with rfl | ⟨back', c, rfl⟩
  · obtain ⟨hfront, hlast⟩ := append_inj' h rfl
    exact Or.inl ⟨rfl, hfront.symm, (singleton_inj.mp hlast).symm⟩
  · right
    rw [concat_eq_append, ← cons_append, ← append_assoc] at h
    obtain ⟨hfront, hlast⟩ := append_inj' h rfl
    rw [singleton_inj.mp hlast]
    exact ⟨back', concat_eq_append, hfront⟩

/-- A record is what the events make of its token. -/
structure Matches (keys : KeyHost) (events : List BootstrapEvent)
    (record : DeviceBootstrapTokenRecord) : Prop where
  issued : ∃ params, .issued record.token params ∈ events ∧
    record.profile = some (resolveIssuedBootstrapProfile params)
  bound : ∀ request, .verified request true ∈ events → trim request.token = record.token →
    record.deviceId = some (trim request.deviceId) ∧
      record.publicKey = some (normalizeBootstrapPublicKey keys request.publicKey) ∧
        trim request.deviceId ≠ []
  redeemed : ∃ p, record.redeemedProfile = some p ∧ Redeemed (redemptionsOf record.token events) p
  normal : ∀ p, record.pendingProfile = some p → p.Normal
  pending : ∀ before request after, events = before ++ .verified request true :: after →
    trim request.token = record.token → record.pendingProfile = some request.requestedProfile ∨
      CoveredWithin record.token (before ++ [.verified request true]) after request.requestedProfile
  last : ∀ before request after, events = before ++ .verified request true :: after →
    trim request.token = record.token →
      (∀ other, .verified other true ∈ after → trim other.token ≠ record.token) →
        ∀ p, record.pendingProfile = some p → p = request.requestedProfile

variable {record : DeviceBootstrapTokenRecord}

/-- Events that do not concern the token. -/
theorem Matches.snoc (h : Matches keys events record) (hnot : ¬event.concerns record.token) :
    Matches keys (events ++ [event]) record where
  issued := by
    obtain ⟨params, hmem, hprofile⟩ := h.issued
    exact ⟨params, mem_append_left _ hmem, hprofile⟩
  bound := by
    intro request hmem htoken
    rcases mem_append.mp hmem with hmem | hmem
    · exact h.bound request hmem htoken
    · rw [← mem_singleton.mp hmem] at hnot
      exact absurd ⟨rfl, htoken⟩ hnot
  redeemed := by
    rw [redemptionsOf_snoc_of_not hnot]
    exact h.redeemed
  normal := h.normal
  pending := by
    intro before request after hsplit htoken
    rcases snoc_eq_append_cons hsplit with ⟨_, _, rfl⟩ | ⟨after', rfl, hbefore⟩
    · exact absurd ⟨rfl, htoken⟩ hnot
    · exact (h.pending before request after' hbefore htoken).imp_right fun hcovered =>
        hcovered.snoc event
  last := by
    intro before request after hsplit htoken hlast
    rcases snoc_eq_append_cons hsplit with ⟨_, _, rfl⟩ | ⟨after', rfl, hbefore⟩
    · exact absurd ⟨rfl, htoken⟩ hnot
    · exact h.last before request after' hbefore htoken fun other hmem =>
        hlast other (mem_append_left _ hmem)

/-! ## Loading -/

theorem resolvePersistedBootstrapProfile_of_normal (h : record.profile = some p) (hp : p.Normal) :
    resolvePersistedBootstrapProfile record = p := by
  unfold resolvePersistedBootstrapProfile
  rw [h]
  exact hp

theorem resolvePersistedRedeemedProfile_of_normal (h : record.redeemedProfile = some p)
    (hp : p.Normal) : resolvePersistedRedeemedProfile record = p := by
  unfold resolvePersistedRedeemedProfile
  rw [h]
  exact hp

theorem resolvePersistedPendingProfile_of_normal
    (h : ∀ p, record.pendingProfile = some p → p.Normal) :
    resolvePersistedPendingProfile record = record.pendingProfile := by
  unfold resolvePersistedPendingProfile
  cases hpending : record.pendingProfile with
  | none => rfl
  | some p => exact congrArg some (h p hpending)

/-- Loading changes nothing that the events say. -/
theorem Matches.load (h : Matches keys events record) (htoken : trim record.token ≠ [])
    (tokenKey : Str) : Matches keys events (loadRecord tokenKey record) ∧
      (loadRecord tokenKey record).token = record.token := by
  have hsame : (loadRecord tokenKey record).token = record.token := if_pos htoken
  obtain ⟨params, hissued, hprofile⟩ := h.issued
  obtain ⟨p, hredeemed, hp⟩ := h.redeemed
  have hpending : (loadRecord tokenKey record).pendingProfile = record.pendingProfile :=
    resolvePersistedPendingProfile_of_normal h.normal
  refine ⟨⟨⟨params, ?_, ?_⟩, ?_, ⟨p, ?_, ?_⟩, ?_, ?_, ?_⟩, hsame⟩
  · rw [hsame]
    exact hissued
  · exact congrArg some (resolvePersistedBootstrapProfile_of_normal hprofile
      (handoff_issued params).normal)
  · rw [hsame]
    exact h.bound
  · exact congrArg some (resolvePersistedRedeemedProfile_of_normal hredeemed hp.normal)
  · rw [hsame]
    exact hp
  · rw [hpending]
    exact h.normal
  · rw [hsame, hpending]
    exact h.pending
  · rw [hsame, hpending]
    exact h.last

/-! ## The invariant -/

/-- Every token is in one place at most, with the record that the events make of it. -/
structure BootstrapInv (keys : KeyHost) (s : BootstrapSystem) (events : List BootstrapEvent) :
    Prop where
  token_eq : ∀ entry ∈ s.file, entry.2.token = entry.1
  nodup : (s.file.map Prod.fst ++ s.revoked.map (·.token)).Nodup
  inFile : ∀ entry ∈ s.file, Matches keys events entry.2
  inRevoked : ∀ record ∈ s.revoked, Matches keys events record
  issued : ∀ token, token ∈ s.issued ↔ ∃ params, .issued token params ∈ events
  proper : ∀ token ∈ s.issued, trim token = token ∧ token ≠ []
  unique : ∀ token params params', .issued token params ∈ events →
    .issued token params' ∈ events → params = params'
  known : ∀ event ∈ events, ∀ token, event.concerns token → token ∈ s.issued

variable {s : BootstrapSystem}

theorem BootstrapInv.fresh : BootstrapInv keys .fresh [] where
  token_eq := fun _ h => (nomatch h)
  nodup := nodup_nil
  inFile := fun _ h => (nomatch h)
  inRevoked := fun _ h => (nomatch h)
  issued := fun _ => ⟨fun h => (nomatch h), fun ⟨_, h⟩ => (nomatch h)⟩
  proper := fun _ h => (nomatch h)
  unique := fun _ _ _ h => (nomatch h)
  known := fun _ h => (nomatch h)

section

variable (h : BootstrapInv keys s events)
include h

theorem BootstrapInv.issued_of_file
    {entry : Str × DeviceBootstrapTokenRecord} (hentry : entry ∈ s.file) : entry.1 ∈ s.issued := by
  obtain ⟨params, hmem, _⟩ := (h.inFile entry hentry).issued
  rw [h.token_eq entry hentry] at hmem
  exact (h.issued _).mpr ⟨params, hmem⟩

theorem BootstrapInv.issued_of_revoked (hrecord : record ∈ s.revoked) :
    record.token ∈ s.issued := by
  obtain ⟨params, hmem, _⟩ := (h.inRevoked record hrecord).issued
  exact (h.issued _).mpr ⟨params, hmem⟩

/-- Entries may be left out of the file. -/
theorem BootstrapInv.sublist {file : DeviceBootstrapStateFile}
    (hfile : file.Sublist s.file) : BootstrapInv keys ⟨file, s.revoked, s.issued⟩ events where
  token_eq := fun entry hentry => h.token_eq entry (hfile.subset hentry)
  nodup := ((hfile.map Prod.fst).append (List.Sublist.refl _)).nodup h.nodup
  inFile := fun entry hentry => h.inFile entry (hfile.subset hentry)
  inRevoked := h.inRevoked
  issued := h.issued
  proper := h.proper
  unique := h.unique
  known := h.known

theorem BootstrapInv.load (nowMs : ℤ) :
    BootstrapInv keys ⟨loadState s.file nowMs, s.revoked, s.issued⟩ events := by
  have hloaded : ∀ entry ∈ s.file, Matches keys events (loadRecord entry.1 entry.2) ∧
      (loadRecord entry.1 entry.2).token = entry.1 := by
    intro entry hentry
    have htoken := h.token_eq entry hentry
    have hproper := h.proper _ (h.issued_of_file hentry)
    have hmatches := (h.inFile entry hentry).load
      (by rw [htoken, hproper.1]; exact hproper.2) entry.1
    exact ⟨hmatches.1, hmatches.2.trans htoken⟩
  have hall : BootstrapInv keys
      ⟨s.file.map fun entry => (entry.1, loadRecord entry.1 entry.2), s.revoked, s.issued⟩
      events := by
    refine ⟨?_, ?_, ?_, h.inRevoked, h.issued, h.proper, h.unique, h.known⟩
    · intro entry hentry
      obtain ⟨stored, hstored, rfl⟩ := mem_map.mp hentry
      exact (hloaded stored hstored).2
    · dsimp only
      rw [map_map]
      exact h.nodup
    · intro entry hentry
      obtain ⟨stored, hstored, rfl⟩ := mem_map.mp hentry
      exact (hloaded stored hstored).1
  exact hall.sublist filter_sublist

/-- Events that concern no token and issue none. -/
theorem BootstrapInv.quiet (hquiet : ∀ token, ¬event.concerns token)
    (hissue : ∀ token params, event ≠ .issued token params) :
    BootstrapInv keys s (events ++ [event]) where
  token_eq := h.token_eq
  nodup := h.nodup
  inFile := fun entry hentry => (h.inFile entry hentry).snoc (hquiet _)
  inRevoked := fun record hrecord => (h.inRevoked record hrecord).snoc (hquiet _)
  issued := by
    intro token
    rw [h.issued]
    refine exists_congr fun params => ?_
    rw [mem_append, mem_singleton, or_iff_left (hissue token params).symm]
  proper := h.proper
  unique := by
    intro token params params' hmem hmem'
    rw [mem_append, mem_singleton, or_iff_left (hissue _ _).symm] at hmem hmem'
    exact h.unique token params params' hmem hmem'
  known := by
    intro event' hmem token hconcerns
    rcases mem_append.mp hmem with hmem | hmem
    · exact h.known event' hmem token hconcerns
    · rw [mem_singleton.mp hmem] at hconcerns
      exact absurd hconcerns (hquiet token)

end

theorem key_of_setRecord {state : DeviceBootstrapStateFile} {tokenKey : Str}
    (h : tokenKey ∈ state.map Prod.fst) (record : DeviceBootstrapTokenRecord) :
    (setRecord state tokenKey record).map Prod.fst = state.map Prod.fst ∧
      ∀ entry ∈ setRecord state tokenKey record,
        entry = (tokenKey, record) ∨ entry ∈ state ∧ entry.1 ≠ tokenKey := by
  unfold setRecord
  rw [if_pos h]
  constructor
  · rw [map_map]
    apply map_congr_left
    intro entry _
    show (if entry.1 = tokenKey then (tokenKey, record) else entry).1 = entry.1
    split
    · next heq => exact heq.symm
    · rfl
  · intro entry hentry
    obtain ⟨stored, hstored, rfl⟩ := mem_map.mp hentry
    split
    · exact Or.inl rfl
    · next hne => exact Or.inr ⟨hstored, hne⟩

/-- A new record for a token of the file, after an event that concerns this token only. -/
theorem BootstrapInv.update (h : BootstrapInv keys s events) {tokenKey : Str}
    (hkey : tokenKey ∈ s.file.map Prod.fst) (htoken : record.token = tokenKey)
    (hmatches : Matches keys (events ++ [event]) record)
    (hconcerns : ∀ token, event.concerns token → token = tokenKey)
    (hissue : ∀ token params, event ≠ .issued token params) :
    BootstrapInv keys ⟨setRecord s.file tokenKey record, s.revoked, s.issued⟩ (events ++ [event]) := by
  obtain ⟨hkeys, hentries⟩ := key_of_setRecord hkey record
  obtain ⟨old, hold, rfl⟩ := mem_map.mp hkey
  refine ⟨?_, ?_, ?_, ?_, ?_, h.proper, ?_, ?_⟩
  · intro entry hentry
    rcases hentries entry hentry with rfl | ⟨hmem, _⟩
    · exact htoken
    · exact h.token_eq entry hmem
  · dsimp only
    rw [hkeys]
    exact h.nodup
  · intro entry hentry
    rcases hentries entry hentry with rfl | ⟨hmem, hne⟩
    · exact hmatches
    · refine (h.inFile entry hmem).snoc fun hevent => hne ?_
      rw [← h.token_eq entry hmem]
      exact hconcerns _ hevent
  · intro other hother
    refine (h.inRevoked other hother).snoc fun hevent => ?_
    have hdisjoint := (nodup_append.mp h.nodup).2.2 _ hkey _ (mem_map_of_mem hother)
    exact hdisjoint (hconcerns _ hevent).symm
  · intro token
    rw [h.issued]
    refine exists_congr fun params => ?_
    rw [mem_append, mem_singleton, or_iff_left (hissue token params).symm]
  · intro token params params' hmem hmem'
    rw [mem_append, mem_singleton, or_iff_left (hissue _ _).symm] at hmem hmem'
    exact h.unique token params params' hmem hmem'
  · intro event' hmem token hevent
    rcases mem_append.mp hmem with hmem | hmem
    · exact h.known event' hmem token hevent
    · rw [mem_singleton.mp hmem] at hevent
      rw [hconcerns token hevent]
      exact h.issued_of_file hold

end

end OpenClaw
