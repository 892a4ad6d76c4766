import OpenClaw.Pairing.Covered
import OpenClaw.Pairing.NodeRequests

/-!
# Device tokens

`device-pairing.ts`: an approved device gets a token for every role it asked for, and a token is
verified and rotated within the scopes that were approved for the device.
-/

namespace OpenClaw

open List

/-! ## Records -/

structure DeviceAuthToken where
  token : Str
  role : Str
  scopes : List Str
  createdAtMs : ℤ
  rotatedAtMs : Option ℤ
  revokedAtMs : Option ℤ
  lastUsedAtMs : Option ℤ

/-- `tokens`, where a missing record is an empty one. -/
abbrev DeviceTokens := Keyed DeviceAuthToken (·.role)

/-- The device id is trimmed when the request is made. -/
structure DevicePairingPendingRequest where
  requestId : Str
  deviceId : Str
  publicKey : Str
  role : Option Str
  roles : Option (List Str)
  scopes : Option (List Str)
  deviceId_trimmed : trim deviceId = deviceId

structure PairedDevice where
  deviceId : Str
  publicKey : Str
  role : Option Str
  roles : Option (List Str)
  scopes : Option (List Str)
  approvedScopes : Option (List Str)
  tokens : DeviceTokens
  createdAtMs : ℤ
  approvedAtMs : ℤ

structure DevicePairingState where
  pendingById : Keyed DevicePairingPendingRequest (·.requestId)
  pairedByDeviceId : Keyed PairedDevice (·.deviceId)

/-- `newToken()` for each role of a device; the texts are not blank. -/
structure TokenSource where
  newToken : Str → Str
  nonblank : ∀ role, trim (newToken role) ≠ []

/-! ## Lists of roles and scopes -/

/-- The trimmed entries that are not blank, in the order of a `Set`. -/
def setEntries (entries : List Str) : List Str :=
  ((entries.map trim).filter (· ≠ [])).reverse.dedup.reverse

def mergeRoles (items : List (List Str)) : Option (List Str) :=
  let roles := setEntries items.flatten
  if roles = [] then none else some roles

def mergeScopes (items : List (Option (List Str))) : Option (List Str) :=
  let lists := items.filterMap id
  if lists = [] then none else some (setEntries lists.flatten)

def DevicePairingPendingRequest.requestedRoles (pending : DevicePairingPendingRequest) : List Str :=
  (mergeRoles [pending.roles.getD [], pending.role.toList]).getD []

variable (device : PairedDevice)

def listApprovedPairedDeviceRoles : List Str :=
  (mergeRoles [device.roles.getD [], device.role.toList]).getD []

variable (role : Str)

/-- A scope of the operator for the operator, another one for another role. -/
def isRoleScoped (role scope : Str) : Bool :=
  startsWith scope operatorScopePrefix == decide (role = operatorRole)

def resolveRoleScopedDeviceTokenScopes (scopes : Option (List Str)) : List Str :=
  (normalizeDeviceAuthScopes (scopes.getD [])).filter (isRoleScoped role)

def resolveScopeOutsideRequestedRoles (requestedRoles requestedScopes : List Str) : Option Str :=
  requestedScopes.find? fun scope =>
    !requestedRoles.any fun role => roleScopesAllow role [scope] [scope]

variable (existing : Option PairedDevice)

/-- `existing?.approvedScopes ?? existing?.scopes`. -/
def PairedDevice.baseline : Option (List Str) :=
  existing.bind fun device => device.approvedScopes.or device.scopes

/-- `existing?.tokens`. -/
def PairedDevice.existingTokens : DeviceTokens :=
  (existing.map (·.tokens)).getD .empty

def resolveApprovedTokenScopes (pending : DevicePairingPendingRequest)
    (existingToken : Option DeviceAuthToken) (approvedScopes : Option (List Str))
    (existing : Option PairedDevice) : List Str :=
  let pendingScopes := resolveRoleScopedDeviceTokenScopes role pending.scopes
  if pendingScopes ≠ [] then
    let approvedBaseline := resolveRoleScopedDeviceTokenScopes role (PairedDevice.baseline existing)
    let requestedScopeDelta :=
      if existingToken.isSome ∧ approvedBaseline ≠ [] then
        pendingScopes.filter fun scope => !approvedBaseline.contains scope
      else pendingScopes
    match existingToken with
    | some token =>
      if requestedScopeDelta = [] then resolveRoleScopedDeviceTokenScopes role (some token.scopes)
      else resolveRoleScopedDeviceTokenScopes role
        (mergeScopes [some token.scopes, some requestedScopeDelta])
    | none => resolveRoleScopedDeviceTokenScopes role (mergeScopes [none, some requestedScopeDelta])
  else resolveRoleScopedDeviceTokenScopes role
    ((existingToken.map (·.scopes)).or (approvedScopes.or (PairedDevice.baseline existing)))

/-! ## Approval -/

inductive DevicePairingForbiddenReason where
  | callerScopesRequired | callerMissingScope | scopeOutsideRequestedRoles
deriving DecidableEq

inductive ApproveDevicePairingResult where
  | approved (requestId : Str) (device : PairedDevice)
  | forbidden (reason : DevicePairingForbiddenReason) (scope : Option Str)

/-- What stands against a token with these scopes. -/
def resolveCallerRefusal (callerScopes : Option (List Str)) (pending : DevicePairingPendingRequest)
    (role : Str) (nextScopes : List Str) : Option ApproveDevicePairingResult :=
  if role = operatorRole ∧ nextScopes ≠ [] then
    let callerRequiredScopes := (mergeScopes
      [some (resolveRoleScopedDeviceTokenScopes role pending.scopes), some nextScopes]).getD nextScopes
    match callerScopes with
    | none => some (.forbidden .callerScopesRequired callerRequiredScopes.head?)
    | some callerScopes =>
      (resolveMissingRequestedScope operatorRole callerRequiredScopes callerScopes).map fun scope =>
        .forbidden .callerMissingScope (some scope)
  else none

variable (source : TokenSource) (now : ℤ)

/-- The token that replaces the existing one of its role. -/
def approvedToken (role : Str) (nextScopes : List Str)
    (existingToken : Option DeviceAuthToken) : DeviceAuthToken where
  token := source.newToken role
  role := role
  scopes := nextScopes
  createdAtMs := (existingToken.map (·.createdAtMs)).getD now
  rotatedAtMs := existingToken.map fun _ => now
  revokedAtMs := none
  lastUsedAtMs := existingToken.bind (·.lastUsedAtMs)

variable (state : DevicePairingState)

def approveDevicePairing (requestId : Str) (callerScopes : Option (List Str)) :
    Option ApproveDevicePairingResult × DevicePairingState :=
  match state.pendingById.find requestId with
  | none => (none, state)
  | some pending =>
    let requestedRoles := pending.requestedRoles
    let requestedScopes := normalizeDeviceAuthScopes (pending.scopes.getD [])
    match resolveScopeOutsideRequestedRoles requestedRoles requestedScopes with
    | some scope => (some (.forbidden .scopeOutsideRequestedRoles (some scope)), state)
    | none =>
      let existing := state.pairedByDeviceId.find pending.deviceId
      let roles := mergeRoles [(existing.bind (·.roles)).getD [], (existing.bind (·.role)).toList,
        pending.roles.getD [], pending.role.toList]
      let approvedScopes := mergeScopes [PairedDevice.baseline existing, pending.scopes]
      let tokens := PairedDevice.existingTokens existing
      let nextScopes := fun role =>
        resolveApprovedTokenScopes role pending (tokens.find role) approvedScopes existing
      match requestedRoles.findSome? fun role =>
          resolveCallerRefusal callerScopes pending role (nextScopes role) with
      | some refusal => (some refusal, state)
      | none =>
        let tokens := requestedRoles.foldl (fun tokens role =>
          tokens.set (approvedToken source now role (nextScopes role) (tokens.find role))) tokens
        let device : PairedDevice :=
          { deviceId := pending.deviceId
            publicKey := pending.publicKey
            role := pending.role
            roles := roles
            scopes := approvedScopes
            approvedScopes := approvedScopes
            tokens := tokens
            createdAtMs := (existing.map (·.createdAtMs)).getD now
            approvedAtMs := now }
        (some (.approved requestId device),
          ⟨state.pendingById.erase requestId, state.pairedByDeviceId.set device⟩)

/-! ## Use -/

def resolveApprovedDeviceScopeBaseline : Option (List Str) :=
  (device.approvedScopes.or device.scopes).map normalizeDeviceAuthScopes

def scopesWithinApprovedDeviceBaseline (scopes : List Str)
    (approvedScopes : Option (List Str)) : Bool :=
  approvedScopes.any fun approvedScopes => roleScopesAllow role scopes approvedScopes

inductive VerifyDeviceTokenDenyReason where
  | deviceNotPaired | roleMissing | tokenMissing | tokenRevoked | tokenMismatch | scopeMismatch
deriving DecidableEq

inductive RotateDeviceTokenDenyReason where
  | unknownDeviceOrRole | missingApprovedScopeBaseline | scopeOutsideApprovedBaseline
  | callerMissingScope (scope : Str)
deriving DecidableEq

/-- The state with another token of a paired device. -/
def DevicePairingState.setToken (device : PairedDevice)
    (entry : DeviceAuthToken) : DevicePairingState :=
  { state with pairedByDeviceId :=
      state.pairedByDeviceId.set { device with tokens := device.tokens.set entry } }

def verifyDeviceToken (deviceId token role : Str)
    (scopes : List Str) : Except VerifyDeviceTokenDenyReason DevicePairingState :=
  match state.pairedByDeviceId.find (trim deviceId) with
  | none => .error .deviceNotPaired
  | some device =>
    match normalizeOptionalString (some role) with
    | none => .error .roleMissing
    | some role =>
      match device.tokens.find role with
      | none => .error .tokenMissing
      | some entry =>
        if entry.revokedAtMs.any (· ≠ 0) then .error .tokenRevoked
        else if !verifyPairingToken token entry.token then .error .tokenMismatch
        else if !scopesWithinApprovedDeviceBaseline role entry.scopes
            (resolveApprovedDeviceScopeBaseline device) then .error .scopeMismatch
        else if !roleScopesAllow role (normalizeDeviceAuthScopes scopes) entry.scopes then
          .error .scopeMismatch
        else .ok (state.setToken device { entry with lastUsedAtMs := some now })

def rotateDeviceToken (deviceId role : Str) (scopes callerScopes : Option (List Str)) :
    Except RotateDeviceTokenDenyReason (DeviceAuthToken × DevicePairingState) :=
  match state.pairedByDeviceId.find (trim deviceId), normalizeOptionalString (some role) with
  | some device, some role =>
    if !(listApprovedPairedDeviceRoles device).contains role then .error .unknownDeviceOrRole
    else
      let existing := device.tokens.find role
      let requestedScopes := normalizeDeviceAuthScopes
        ((scopes.or ((existing.map (·.scopes)).or device.scopes)).getD [])
      let approvedScopes := resolveApprovedDeviceScopeBaseline device
      if approvedScopes = none then .error .missingApprovedScopeBaseline
      else if !scopesWithinApprovedDeviceBaseline role requestedScopes approvedScopes then
        .error .scopeOutsideApprovedBaseline
      else
        match callerScopes.bind (resolveMissingRequestedScope role requestedScopes) with
        | some scope => .error (.callerMissingScope scope)
        | none =>
          let next := { approvedToken source now role requestedScopes existing with
            rotatedAtMs := some now }
          .ok (next, state.setToken device next)
  | _, _ => .error .unknownDeviceOrRole

/-! ## Which scopes a token gets -/

section Scopes

variable {role scope : Str} {scopes granted : List Str}

theorem mem_setEntries {entries : List Str} :
    scope ∈ setEntries entries ↔ scope ≠ [] ∧ ∃ s ∈ entries, trim s = scope := by
  unfold setEntries
  rw [mem_reverse, mem_dedup, mem_reverse, mem_filter, mem_map, decide_eq_true_eq]
  exact and_comm

theorem mem_normalizeScopeList_setEntries {entries : List Str} :
    scope ∈ normalizeScopeList (setEntries entries) ↔ scope ∈ normalizeScopeList entries := by
  rw [mem_normalizeScopeList, mem_normalizeScopeList]
  refine and_congr_right fun hne => ?_
  constructor
  · rintro ⟨s, hs, rfl⟩
    obtain ⟨-, t, ht, rfl⟩ := mem_setEntries.mp hs
    exact ⟨t, ht, (trim_trim t).symm⟩
  · rintro ⟨s, hs, rfl⟩
    exact ⟨trim s, mem_setEntries.mpr ⟨hne, s, hs, rfl⟩, trim_trim s⟩

/-- The implied scopes are the operator's. -/
theorem mem_normalizeDeviceAuthScopes_cases (h : scope ∈ normalizeDeviceAuthScopes scopes) :
    scope ∈ normalizeScopeList scopes ∨ startsWith scope operatorScopePrefix = true ∧
      (∃ s ∈ normalizeScopeList scopes, startsWith s operatorScopePrefix = true) ∧
      ∀ granted, (∀ s ∈ normalizeScopeList scopes, isRoleScoped operatorRole s = true →
        GrantsScope granted operatorRole s) → GrantsScope granted operatorRole scope := by
  have hgrants : ∀ {granted : List Str} {s : Str}, GrantsScope granted operatorRole s ↔ _ :=
    iff_of_eq (if_pos rfl)
  have hread : startsWith operatorReadScope operatorScopePrefix = true := by decide
  have hwrite : startsWith operatorWriteScope operatorScopePrefix = true := by decide
  have hadmin : ∀ granted, (∀ s ∈ normalizeScopeList scopes, isRoleScoped operatorRole s = true →
      GrantsScope granted operatorRole s) → operatorAdminScope ∈ normalizeScopeList scopes →
        operatorAdminScope ∈ granted := by
    intro granted hall hmem
    rcases (hgrants.mp (hall _ hmem (by decide))).2 with h | h | h
    · exact h
    · exact h
    · exact absurd h.1 (by decide)
  rcases mem_addImpliedScopes.mp (mem_normalizeDeviceAuthScopes.mp h) with
    hmem | ⟨rfl, hfrom⟩ | ⟨rfl, hfrom⟩
  · exact .inl hmem
  · have hsource : ∃ s ∈ normalizeScopeList scopes, startsWith s operatorScopePrefix = true :=
      hfrom.elim (fun h => ⟨_, h, by decide⟩) fun h => ⟨_, h, hwrite⟩
    refine .inr ⟨hread, hsource, fun granted hall => hgrants.mpr ⟨hread, ?_⟩⟩
    rcases hfrom with hfrom | hfrom
    · exact .inl (hadmin granted hall hfrom)
    · rcases (hgrants.mp (hall _ hfrom (by decide))).2 with h | h | h
      · exact .inl h
      · exact .inr (.inr ⟨rfl, h⟩)
      · exact absurd h.1 (by decide)
  · refine .inr ⟨hwrite, ⟨_, hfrom, by decide⟩, fun granted hall => hgrants.mpr ⟨hwrite, ?_⟩⟩
    exact .inl (hadmin granted hall hfrom)

/-- For the scopes of a role, the implied ones need no check of their own. -/
theorem grants_roleScoped_iff :
    (∀ s ∈ resolveRoleScopedDeviceTokenScopes role (some scopes), GrantsScope granted role s) ↔
      ∀ s ∈ normalizeScopeList scopes, isRoleScoped role s = true → GrantsScope granted role s := by
  unfold resolveRoleScopedDeviceTokenScopes
  constructor
  · intro h s hs hscoped
    refine h s (mem_filter.mpr ⟨?_, hscoped⟩)
    exact mem_normalizeDeviceAuthScopes.mpr (mem_addImpliedScopes.mpr (.inl hs))
  · intro h s hs
    obtain ⟨hmem, hscoped⟩ := mem_filter.mp hs
    rcases mem_normalizeDeviceAuthScopes_cases hmem with hmem | ⟨hstarts, -, hgrants⟩
    · exact h s hmem hscoped
    · have hrole : role = operatorRole := by
        unfold isRoleScoped at hscoped
        rw [hstarts] at hscoped
        simpa using hscoped
      subst hrole
      exact hgrants granted h

/-- What the scopes of a role consist of. -/
structure OfRole (role scope : Str) : Prop where
  trimmed : trim scope = scope
  nonempty : scope ≠ []
  roleScoped : isRoleScoped role scope = true

theorem ofRole_of_mem {scopes : Option (List Str)}
    (h : scope ∈ resolveRoleScopedDeviceTokenScopes role scopes) : OfRole role scope := by
  obtain ⟨hmem, hscoped⟩ := mem_filter.mp h
  have htrimmed := (isScopeList_normalizeDeviceAuthScopes _).trimmed scope hmem
  exact ⟨htrimmed.1, htrimmed.2, hscoped⟩

theorem grants_normalize (hrole : ∀ s ∈ scopes, OfRole role s)
    (hgrants : ∀ s ∈ scopes, GrantsScope granted role s) :
    ∀ s ∈ normalizeScopeList (normalizeDeviceAuthScopes scopes), GrantsScope granted role s := by
  have hown : ∀ s ∈ normalizeScopeList scopes, s ∈ scopes := by
    intro s hs
    obtain ⟨-, t, ht, rfl⟩ := mem_normalizeScopeList.mp hs
    rw [(hrole t ht).trimmed]
    exact ht
  intro s hs
  rw [(isScopeList_normalizeDeviceAuthScopes scopes).normalize_eq] at hs
  rcases mem_normalizeDeviceAuthScopes_cases hs with hmem | ⟨-, ⟨t, ht, hstarts⟩, himplied⟩
  · exact hgrants s (hown s hmem)
  · have hoperator : role = operatorRole := by
      have hscoped := (hrole t (hown t ht)).roleScoped
      unfold isRoleScoped at hscoped
      rw [hstarts] at hscoped
      simpa using hscoped
    subst hoperator
    exact himplied granted fun s hs _ => hgrants s (hown s hs)

/-- The scopes that an approval adds to those of the existing token. -/
def addedScopes (role : Str) (pending : DevicePairingPendingRequest)
    (existingToken : Option DeviceAuthToken) (approvedScopes : Option (List Str))
    (existing : Option PairedDevice) : List Str :=
  let pendingScopes := resolveRoleScopedDeviceTokenScopes role pending.scopes
  match existingToken with
  | some _ => pendingScopes.filter fun scope =>
      !(resolveRoleScopedDeviceTokenScopes role (PairedDevice.baseline existing)).contains scope
  | none =>
    if pendingScopes ≠ [] then pendingScopes
    else resolveRoleScopedDeviceTokenScopes role
      (approvedScopes.or (PairedDevice.baseline existing))

theorem grants_merged_iff {kept added : List Str} (hadded : ∀ s ∈ added, OfRole role s) :
    (∀ s ∈ resolveRoleScopedDeviceTokenScopes role (some (setEntries (kept ++ added))),
      GrantsScope granted role s) ↔
      (∀ s ∈ normalizeScopeList kept, isRoleScoped role s = true → GrantsScope granted role s) ∧
        ∀ s ∈ added, GrantsScope granted role s := by
  have hmem : ∀ s, s ∈ normalizeScopeList (kept ++ added) ↔
      s ∈ normalizeScopeList kept ∨ s ∈ normalizeScopeList added := by
    intro s
    simp only [mem_normalizeScopeList, mem_append, or_and_right, exists_or, and_or_left]
  rw [grants_roleScoped_iff]
  simp only [mem_normalizeScopeList_setEntries, hmem]
  constructor
  · intro h
    refine ⟨fun s hs => h s (.inl hs), fun s hs => h s (.inr ?_) (hadded s hs).roleScoped⟩
    exact mem_normalizeScopeList.mpr ⟨(hadded s hs).nonempty, s, hs, (hadded s hs).trimmed⟩
  · rintro ⟨hkept, hall⟩ s (hs | hs) hscoped
    · exact hkept s hs hscoped
    · obtain ⟨-, t, ht, rfl⟩ := mem_normalizeScopeList.mp hs
      rw [(hadded t ht).trimmed]
      exact hall t ht

/-- The scopes of the new token are those of the existing one and the added ones. -/
theorem grants_nextScopes_iff (pending : DevicePairingPendingRequest)
    (existingToken : Option DeviceAuthToken) (approvedScopes : Option (List Str))
    (existing : Option PairedDevice) :
    (∀ s ∈ resolveApprovedTokenScopes role pending existingToken approvedScopes existing,
      GrantsScope granted role s) ↔
      (∀ token, existingToken = some token → ∀ s ∈ normalizeScopeList token.scopes,
        isRoleScoped role s = true → GrantsScope granted role s) ∧
      ∀ s ∈ addedScopes role pending existingToken approvedScopes existing,
        GrantsScope granted role s := by
  have hpending : ∀ s ∈ resolveRoleScopedDeviceTokenScopes role pending.scopes, OfRole role s :=
    fun s hs => ofRole_of_mem hs
  unfold resolveApprovedTokenScopes addedScopes
  dsimp only
  generalize resolveRoleScopedDeviceTokenScopes role pending.scopes = pendingScopes at *
  generalize hbase : resolveRoleScopedDeviceTokenScopes role (PairedDevice.baseline existing) = base
  cases existingToken with
  | none =>
    have hnone : ∀ P : DeviceAuthToken → Prop, (∀ token, none = some token → P token) ↔ True :=
      fun P => iff_true_intro fun token h => nomatch h
    rw [hnone, true_and]
    by_cases hsome : pendingScopes ≠ []
    · have hmerge : mergeScopes [none, some pendingScopes] =
          some (setEntries ([] ++ pendingScopes)) := by
        unfold mergeScopes
        simp
      rw [if_pos hsome, if_pos hsome, if_neg (fun h => nomatch h.1), hmerge,
        grants_merged_iff hpending]
      exact and_iff_right fun s hs => nomatch hs
    · rw [if_neg hsome, if_neg hsome]
      rfl
  | some token =>
    have hkept : ∀ P : DeviceAuthToken → Prop, (∀ t, some token = some t → P t) ↔ P token :=
      fun P => ⟨fun h => h token rfl, fun h t heq => Option.some.inj heq ▸ h⟩
    have hdelta : (if (some token).isSome = true ∧ base ≠ [] then
        pendingScopes.filter fun scope => !base.contains scope else pendingScopes) =
          pendingScopes.filter fun scope => !base.contains scope := by
      by_cases hempty : base = []
      · rw [if_neg fun h => h.2 hempty, hempty]
        simp
      · exact if_pos ⟨rfl, hempty⟩
    rw [hkept, hdelta]
    by_cases hsome : pendingScopes ≠ []
    · rw [if_pos hsome]
      dsimp only
      by_cases hnone : (pendingScopes.filter fun scope => !base.contains scope) = []
      · rw [if_pos hnone, hnone, grants_roleScoped_iff]
        exact (and_iff_left fun s hs => nomatch hs).symm
      · have hmerge : ∀ delta, mergeScopes [some token.scopes, some delta] =
            some (setEntries (token.scopes ++ delta)) := by
          intro delta
          unfold mergeScopes
          simp
        rw [if_neg hnone, hmerge]
        exact grants_merged_iff fun s hs => hpending s (mem_of_mem_filter hs)
    · rw [if_neg hsome, not_not.mp hsome]
      show (∀ s ∈ resolveRoleScopedDeviceTokenScopes role (some token.scopes), _) ↔ _
      rw [grants_roleScoped_iff]
      exact (and_iff_left fun s hs => nomatch hs).symm

theorem mem_normalizeDeviceAuthScopes_mono {l l' : List Str}
    (h : ∀ s ∈ normalizeScopeList l, s ∈ normalizeScopeList l')
    (hs : scope ∈ normalizeDeviceAuthScopes l) : scope ∈ normalizeDeviceAuthScopes l' := by
  rw [mem_normalizeDeviceAuthScopes, mem_addImpliedScopes] at hs ⊢
  rcases hs with hs | ⟨rfl, hs | hs⟩ | ⟨rfl, hs⟩
  · exact .inl (h _ hs)
  · exact .inr (.inl ⟨rfl, .inl (h _ hs)⟩)
  · exact .inr (.inl ⟨rfl, .inr (h _ hs)⟩)
  · exact .inr (.inr ⟨rfl, h _ hs⟩)

theorem mem_of_mergeScopes {items : List (Option (List Str))} {merged l : List Str}
    (h : mergeScopes items = some merged) (hl : some l ∈ items) :
    ∀ s ∈ normalizeScopeList l, s ∈ normalizeScopeList merged := by
  intro s hs
  have hlist : l ∈ items.filterMap id := mem_filterMap.mpr ⟨some l, hl, rfl⟩
  unfold mergeScopes at h
  dsimp only at h
  rw [if_neg (ne_nil_of_mem hlist)] at h
  rw [← Option.some.inj h, mem_normalizeScopeList_setEntries]
  obtain ⟨hne, t, ht, heq⟩ := mem_normalizeScopeList.mp hs
  exact mem_normalizeScopeList.mpr ⟨hne, t, mem_flatten.mpr ⟨l, hlist, ht⟩, heq⟩

/-- What is added is approved, and the operator's scopes need no more than that. -/
theorem grants_added_iff {pending : DevicePairingPendingRequest}
    {existingToken : Option DeviceAuthToken} {existing : Option PairedDevice} {approved : List Str}
    (happroved : mergeScopes [PairedDevice.baseline existing, pending.scopes] = some approved) :
    (∀ s ∈ addedScopes role pending existingToken (some approved) existing,
      GrantsScope (normalizeDeviceAuthScopes approved) role s) ↔
      (role ≠ operatorRole → ∀ s ∈ addedScopes role pending existingToken (some approved) existing,
        startsWith s (role ++ ".".toList) = true) := by
  have hpending : ∀ s ∈ resolveRoleScopedDeviceTokenScopes role pending.scopes,
      s ∈ normalizeDeviceAuthScopes approved := by
    intro s hs
    have hnormal := mem_of_mem_filter hs
    cases hscopes : pending.scopes with
    | none =>
      have hnil : normalizeDeviceAuthScopes ((none : Option (List Str)).getD []) = [] := by decide
      rw [hscopes, hnil] at hnormal
      exact nomatch hnormal
    | some l =>
      rw [hscopes] at hnormal happroved
      refine mem_normalizeDeviceAuthScopes_mono (mem_of_mergeScopes happroved ?_) hnormal
      exact mem_cons_of_mem _ mem_cons_self
  have hmem : ∀ s ∈ addedScopes role pending existingToken (some approved) existing,
      s ∈ normalizeDeviceAuthScopes approved ∧ isRoleScoped role s = true := by
    intro s hs
    unfold addedScopes at hs
    cases existingToken with
    | some token =>
      have hmem := mem_of_mem_filter hs
      exact ⟨hpending s hmem, (ofRole_of_mem hmem).roleScoped⟩
    | none =>
      dsimp only at hs
      split at hs
      · exact ⟨hpending s hs, (ofRole_of_mem hs).roleScoped⟩
      · exact mem_filter.mp hs
  unfold GrantsScope
  by_cases hrole : role = operatorRole
  · refine iff_of_true (fun s hs => ?_) fun hne => absurd hrole hne
    obtain ⟨happ, hscoped⟩ := hmem s hs
    unfold isRoleScoped at hscoped
    rw [if_pos hrole]
    refine ⟨?_, .inr (.inl happ)⟩
    simpa [hrole] using hscoped
  · simp only [if_neg hrole]
    exact ⟨fun h _ s hs => (h s hs).1, fun h s hs => ⟨h hrole s hs, (hmem s hs).1⟩⟩

end Scopes

/-! ## Using a new token -/

section Use

variable {source : TokenSource} {now : ℤ} {state state' : DevicePairingState}
  {requestId role : Str} {callerScopes : Option (List Str)} {pending : DevicePairingPendingRequest}
  {device : PairedDevice}

/-- What an approval leaves behind. -/
structure Approves (source : TokenSource) (now : ℤ) (state : DevicePairingState)
    (pending : DevicePairingPendingRequest) (device : PairedDevice) (state' : DevicePairingState) :
    Prop where
  found : state'.pairedByDeviceId.find (trim pending.deviceId) = some device
  roles : ∀ role ∈ pending.requestedRoles, role ∈ listApprovedPairedDeviceRoles device
  baseline : device.approvedScopes = mergeScopes
    [PairedDevice.baseline (state.pairedByDeviceId.find pending.deviceId), pending.scopes]
  scopes : device.scopes = device.approvedScopes
  token : ∀ role ∈ pending.requestedRoles,
    let existing := state.pairedByDeviceId.find pending.deviceId
    let existingToken := (PairedDevice.existingTokens existing).find role
    device.tokens.find role = some (approvedToken source now role
      (resolveApprovedTokenScopes role pending existingToken device.approvedScopes existing)
      existingToken)

theorem find_foldl_set {roles : List Str} {f : Str → Option DeviceAuthToken → DeviceAuthToken}
    (hf : ∀ role existing, (f role existing).role = role) (hnodup : roles.Nodup)
    (tokens : DeviceTokens) (role : Str) :
    (roles.foldl (fun tokens role => tokens.set (f role (tokens.find role))) tokens).find role =
      if role ∈ roles then some (f role (tokens.find role)) else tokens.find role := by
  induction roles generalizing tokens with
  | nil => rfl
  | cons first rest ih =>
    obtain ⟨hfirst, hrest⟩ := nodup_cons.mp hnodup
    rw [foldl_cons, ih hrest]
    by_cases heq : role = first
    · rw [heq, if_neg hfirst, if_pos mem_cons_self]
      have hself := Keyed.find_set_self tokens (f first (tokens.find first))
      rwa [hf] at hself
    · have hother : (tokens.set (f first (tokens.find first))).find role = tokens.find role :=
        Keyed.find_set_of_ne tokens (by rw [hf]; exact heq)
      rw [hother]
      simp only [mem_cons, heq, false_or]

theorem mem_mergeRoles {items : List (List Str)} :
    role ∈ (mergeRoles items).getD [] ↔ role ∈ setEntries items.flatten := by
  unfold mergeRoles
  dsimp only
  split
  · next hnone => rw [hnone]; rfl
  · rfl

theorem nodup_setEntries (entries : List Str) : (setEntries entries).Nodup :=
  nodup_reverse.mpr (nodup_dedup _)

theorem resolveCallerRefusal_ne_approved {nextScopes : List Str}
    {refusal : ApproveDevicePairingResult}
    (h : resolveCallerRefusal callerScopes pending role nextScopes = some refusal) :
    refusal ≠ .approved requestId device := by
  unfold resolveCallerRefusal at h
  split_ifs at h
  cases callerScopes with
  | none =>
    rw [← Option.some.inj h]
    exact fun heq => nomatch heq
  | some callerScopes =>
    obtain ⟨scope, -, rfl⟩ := Option.map_eq_some_iff.mp h
    exact fun heq => nomatch heq

theorem approveDevicePairing_approves (hpending : state.pendingById.find requestId = some pending)
    (h : approveDevicePairing source now state requestId callerScopes =
      (some (.approved requestId device), state')) :
    Approves source now state pending device state' := by
  unfold approveDevicePairing at h
  rw [hpending] at h
  dsimp only at h
  split at h
  · exact absurd (Prod.mk.inj h).1 (by simp)
  split at h
  · next refusal hrefusal =>
    obtain ⟨role, -, hrole⟩ := exists_of_findSome?_eq_some hrefusal
    exact absurd (Option.some.inj (Prod.mk.inj h).1) (resolveCallerRefusal_ne_approved hrole)
  · obtain ⟨hresult, rfl⟩ := Prod.mk.inj h
    obtain ⟨-, rfl⟩ := ApproveDevicePairingResult.approved.inj (Option.some.inj hresult)
    have hnodup : pending.requestedRoles.Nodup := by
      unfold DevicePairingPendingRequest.requestedRoles mergeRoles
      dsimp only
      split
      · exact nodup_nil
      · exact nodup_setEntries _
    refine ⟨?_, ?_, rfl, rfl, ?_⟩
    · rw [pending.deviceId_trimmed]
      exact Keyed.find_set_self _ _
    · intro role hrole
      obtain ⟨hne, s, hs, rfl⟩ := mem_setEntries.mp (mem_mergeRoles.mp hrole)
      refine mem_mergeRoles.mpr (mem_setEntries.mpr ⟨hne, trim s, ?_, trim_trim s⟩)
      refine mem_flatten.mpr ⟨_, mem_cons_self, mem_mergeRoles.mpr ?_⟩
      refine mem_setEntries.mpr ⟨hne, s, ?_, rfl⟩
      simp only [flatten_cons, flatten_nil, mem_append] at hs ⊢
      exact .inr (.inr hs)
    · intro role hrole existing existingToken
      have hfind := find_foldl_set (f := fun role existingToken => approvedToken source now role
        (resolveApprovedTokenScopes role pending ((PairedDevice.existingTokens existing).find role)
          (mergeScopes [PairedDevice.baseline existing, pending.scopes]) existing) existingToken)
        (fun _ _ => rfl) hnodup (PairedDevice.existingTokens existing) role
      rw [if_pos hrole] at hfind
      exact hfind

variable (state pending)

/-- The condition under which the token of a role can be used: there is a list of approved scopes,
the scopes of the existing token lie within it, and what is added for a role other than the
operator carries the name of the role. -/
def TokenWorks (role : Str) : Prop :=
  let existing := state.pairedByDeviceId.find pending.deviceId
  let existingToken := (PairedDevice.existingTokens existing).find role
  ∃ approved, mergeScopes [PairedDevice.baseline existing, pending.scopes] = some approved ∧
    (∀ token, existingToken = some token → ∀ s ∈ normalizeScopeList token.scopes,
      isRoleScoped role s = true → GrantsScope (normalizeDeviceAuthScopes approved) role s) ∧
    (role ≠ operatorRole → ∀ s ∈ addedScopes role pending existingToken (some approved) existing,
      startsWith s (role ++ ".".toList) = true)

variable {state pending}

theorem resolveApprovedTokenScopes_eq {existingToken : Option DeviceAuthToken}
    {approvedScopes : Option (List Str)} {existing : Option PairedDevice} :
    ∃ scopes, resolveApprovedTokenScopes role pending existingToken approvedScopes existing =
      resolveRoleScopedDeviceTokenScopes role scopes := by
  unfold resolveApprovedTokenScopes
  dsimp only
  split
  · split
    · split
      · split
        · exact ⟨_, rfl⟩
        · exact ⟨_, rfl⟩
      · exact ⟨_, rfl⟩
    · exact ⟨_, rfl⟩
  · exact ⟨_, rfl⟩

theorem tokenWorks_iff (h : Approves source now state pending device state')
    (hrole : role ∈ pending.requestedRoles) (later : ℤ) (rotation : TokenSource) :
    ∃ entry, device.tokens.find role = some entry ∧
      ((verifyDeviceToken later state' pending.deviceId entry.token role entry.scopes).isOk = true ∧
        (rotateDeviceToken rotation later state' pending.deviceId role none none).isOk = true ↔
          TokenWorks state pending role) := by
  have hentry := h.token role hrole
  set existing := state.pairedByDeviceId.find pending.deviceId
  set existingToken := (PairedDevice.existingTokens existing).find role
  set next := resolveApprovedTokenScopes role pending existingToken device.approvedScopes existing
    with hnext
  refine ⟨_, hentry, ?_⟩
  obtain ⟨hne, s, -, hs⟩ := mem_setEntries.mp (mem_mergeRoles.mp hrole)
  have htrim : trim role = role := hs ▸ trim_trim s
  have hname : normalizeOptionalString (some role) = some role := by
    show (if trim role = [] then none else some (trim role)) = some role
    rw [htrim, if_neg hne]
  obtain ⟨scopes, hscopes⟩ : ∃ scopes, next = resolveRoleScopedDeviceTokenScopes role scopes :=
    resolveApprovedTokenScopes_eq
  have hofRole : ∀ s ∈ next, OfRole role s := fun s hs => ofRole_of_mem (hscopes ▸ hs)
  have hbase : resolveApprovedDeviceScopeBaseline device =
      device.approvedScopes.map normalizeDeviceAuthScopes := by
    unfold resolveApprovedDeviceScopeBaseline
    rw [h.scopes, Option.or_self]
  have hwithin : ∀ scopes : List Str, scopesWithinApprovedDeviceBaseline role scopes
      (resolveApprovedDeviceScopeBaseline device) = true ↔ ∃ approved,
        device.approvedScopes = some approved ∧ ∀ s ∈ normalizeScopeList scopes,
          GrantsScope (normalizeDeviceAuthScopes approved) role s := by
    intro scopes
    rw [hbase]
    cases device.approvedScopes with
    | none => simp [scopesWithinApprovedDeviceBaseline]
    | some approved =>
      have hallow : roleScopesAllow role scopes (normalizeDeviceAuthScopes approved) = true ↔ _ :=
        roleScopesAllow_iff (isScopeList_normalizeDeviceAuthScopes approved)
      rw [htrim] at hallow
      simpa [scopesWithinApprovedDeviceBaseline] using hallow
  have hown : ∀ s, s ∈ normalizeScopeList next ↔ s ∈ next := by
    intro s
    rw [mem_normalizeScopeList]
    constructor
    · rintro ⟨-, t, ht, rfl⟩
      rw [(hofRole t ht).trimmed]
      exact ht
    · exact fun hs => ⟨(hofRole s hs).nonempty, s, hs, (hofRole s hs).trimmed⟩
  have hworks : scopesWithinApprovedDeviceBaseline role next
      (resolveApprovedDeviceScopeBaseline device) = true ↔ TokenWorks state pending role := by
    rw [hwithin, h.baseline]
    unfold TokenWorks
    refine exists_congr fun approved => and_congr_right fun happroved => ?_
    rw [← grants_added_iff happroved, ← grants_nextScopes_iff, ← happroved, ← h.baseline]
    exact forall_congr' fun s => by rw [hown]
  have hrotated : scopesWithinApprovedDeviceBaseline role next
      (resolveApprovedDeviceScopeBaseline device) = true →
        scopesWithinApprovedDeviceBaseline role (normalizeDeviceAuthScopes next)
          (resolveApprovedDeviceScopeBaseline device) = true := by
    rw [hwithin, hwithin]
    rintro ⟨approved, happroved, hgrants⟩
    exact ⟨approved, happroved, grants_normalize hofRole fun s hs => hgrants s ((hown s).mpr hs)⟩
  have hself : scopesWithinApprovedDeviceBaseline role next
      (resolveApprovedDeviceScopeBaseline device) = true →
        roleScopesAllow role (normalizeDeviceAuthScopes next) next = true := by
    rw [hwithin]
    rintro ⟨approved, -, hgrants⟩
    have hlist : IsScopeList next := by
      have hnormal := isScopeList_normalizeDeviceAuthScopes (scopes.getD [])
      rw [hscopes]
      exact ⟨hnormal.nodup.filter _, fun s hs => hnormal.trimmed s (mem_of_mem_filter hs)⟩
    rw [roleScopesAllow_iff hlist, htrim]
    refine grants_normalize hofRole fun s hs => ?_
    have hgranted := hgrants s ((hown s).mpr hs)
    unfold GrantsScope at hgranted ⊢
    split at hgranted
    · next hoperator =>
      rw [if_pos hoperator]
      exact ⟨hgranted.1, .inr (.inl hs)⟩
    · next hother =>
      rw [if_neg hother]
      exact ⟨hgranted.1, hs⟩
  have hpairing : verifyPairingToken (source.newToken role) (source.newToken role) = true := by
    unfold verifyPairingToken
    rw [if_neg (by simp [source.nonblank role])]
    exact decide_eq_true rfl
  have hverify : (verifyDeviceToken later state' pending.deviceId (source.newToken role) role
      next).isOk = true ↔ scopesWithinApprovedDeviceBaseline role next
        (resolveApprovedDeviceScopeBaseline device) = true := by
    unfold verifyDeviceToken
    rw [h.found]
    dsimp only
    rw [hname]
    dsimp only
    rw [hentry]
    have hlive : (none : Option ℤ).any (fun at_ => decide (at_ ≠ 0)) ≠ true := by decide
    dsimp only [approvedToken]
    rw [if_neg hlive, hpairing, if_neg (by decide)]
    constructor
    · intro hok
      by_contra hnot
      rw [Bool.eq_false_iff.mpr hnot] at hok
      exact nomatch hok
    · intro hok
      rw [hok, hself hok]
      rfl
  have hrotate : scopesWithinApprovedDeviceBaseline role next
      (resolveApprovedDeviceScopeBaseline device) = true →
        (rotateDeviceToken rotation later state' pending.deviceId role none none).isOk = true := by
    intro hok
    have hsome : resolveApprovedDeviceScopeBaseline device ≠ none := by
      intro hnone
      rw [hnone] at hok
      exact nomatch hok
    have hlisted := contains_iff_mem.mpr (h.roles role hrole)
    unfold rotateDeviceToken
    rw [h.found, hname]
    dsimp only
    rw [hlisted, hentry, if_neg (by decide), if_neg hsome]
    show (if !scopesWithinApprovedDeviceBaseline role (normalizeDeviceAuthScopes next) _ then _
      else _ : Except _ _).isOk = true
    rw [hrotated hok]
    rfl
  show _ ∧ _ ↔ _
  rw [← hworks]
  exact ⟨fun hboth => hverify.mp hboth.1, fun hok => ⟨hverify.mpr hok, hrotate hok⟩⟩

end Use

/-- The tokens of an approved device work in exactly these cases. -/
theorem approvedTokens_work_iff (source rotation : TokenSource) (now later : ℤ)
    (state : DevicePairingState) (requestId : Str) (callerScopes : Option (List Str))
    (pending : DevicePairingPendingRequest) (device : PairedDevice)
    (hpending : state.pendingById.find requestId = some pending)
    (happroved : (approveDevicePairing source now state requestId callerScopes).1 =
      some (.approved requestId device)) :
    let state' := (approveDevicePairing source now state requestId callerScopes).2
    (∀ role ∈ pending.requestedRoles, ∃ entry, device.tokens.find role = some entry ∧
      (verifyDeviceToken later state' pending.deviceId entry.token role entry.scopes).isOk = true ∧
        (rotateDeviceToken rotation later state' pending.deviceId role none none).isOk = true) ↔
      ∀ role ∈ pending.requestedRoles, TokenWorks state pending role := by
  intro state'
  have happroves := approveDevicePairing_approves hpending (Prod.ext happroved rfl)
  refine forall_congr' fun role => forall_congr' fun hrole => ?_
  obtain ⟨entry, hentry, hworks⟩ := tokenWorks_iff happroves hrole later rotation
  rw [← hworks]
  constructor
  · rintro ⟨other, hother, hok⟩
    obtain rfl := Option.some.inj (hentry.symm.trans hother)
    exact hok
  · exact fun hok => ⟨entry, hentry, hok⟩

/-- A source for evaluation. -/
def TokenSource.constant : TokenSource := ⟨fun _ => "token".toList, fun _ => by decide⟩

def newDeviceRequest (roles scopes : List String) : DevicePairingPendingRequest where
  requestId := "request".toList
  deviceId := "device".toList
  publicKey := []
  role := none
  roles := some (roles.map String.toList)
  scopes := some (scopes.map String.toList)
  deviceId_trimmed := by decide

def askingState (pending : DevicePairingPendingRequest) : DevicePairingState :=
  ⟨Keyed.empty.set pending, .empty⟩

def ApproveDevicePairingResult.isApproved : ApproveDevicePairingResult → Bool
  | .approved requestId _ => requestId = "request".toList
  | .forbidden _ _ => false

def nodeAndOperatorRequest : DevicePairingPendingRequest :=
  newDeviceRequest ["node", "operator"] ["node.run", "operator.read"]

/-- What comes of a request, in the state in which it is the only one. -/
def approvalOf (pending : DevicePairingPendingRequest) :
    Option ApproveDevicePairingResult × DevicePairingState :=
  approveDevicePairing .constant 0 (askingState pending) "request".toList
    (some ["operator.admin".toList])

theorem approvedTokens_work_iff_nodeAndOperator :
    ∃ device, (approvalOf nodeAndOperatorRequest).1 = some (.approved "request".toList device) ∧
      ∀ role ∈ nodeAndOperatorRequest.requestedRoles,
        ∃ entry, device.tokens.find role = some entry ∧
          (verifyDeviceToken 1 (approvalOf nodeAndOperatorRequest).2 nodeAndOperatorRequest.deviceId
            entry.token role entry.scopes).isOk = true ∧
          (rotateDeviceToken .constant 1 (approvalOf nodeAndOperatorRequest).2
            nodeAndOperatorRequest.deviceId role none none).isOk = true := by
  have hisApproved : (approvalOf nodeAndOperatorRequest).1.any
      ApproveDevicePairingResult.isApproved = true := by
    decide +kernel
  obtain ⟨device, hdevice⟩ : ∃ device,
      (approvalOf nodeAndOperatorRequest).1 = some (.approved "request".toList device) := by
    cases hanswer : (approvalOf nodeAndOperatorRequest).1 with
    | none =>
      rw [hanswer] at hisApproved
      exact nomatch hisApproved
    | some answer =>
      rw [hanswer] at hisApproved
      cases answer with
      | forbidden reason scope => exact nomatch hisApproved
      | approved requestId device =>
        have hid : requestId = "request".toList := of_decide_eq_true hisApproved
        exact ⟨device, by rw [hid]⟩
  have hpending : (askingState nodeAndOperatorRequest).pendingById.find "request".toList =
      some nodeAndOperatorRequest :=
    Keyed.find_set_self (Keyed.empty : Keyed DevicePairingPendingRequest (·.requestId)) _
  refine ⟨device, hdevice, (approvedTokens_work_iff .constant .constant 0 1
    (askingState nodeAndOperatorRequest) "request".toList (some ["operator.admin".toList])
    nodeAndOperatorRequest device hpending hdevice).mpr ?_⟩
  have hroles : nodeAndOperatorRequest.requestedRoles = ["node".toList, "operator".toList] := by
    decide +kernel
  have hnone : ∀ token : DeviceAuthToken, (none : Option DeviceAuthToken) = some token → False :=
    fun token h => nomatch h
  intro role hrole
  rw [hroles, mem_cons, mem_singleton] at hrole
  rcases hrole with rfl | rfl
  · exact ⟨_, rfl, fun token h => (hnone token h).elim, fun _ => by decide +kernel⟩
  · exact ⟨_, rfl, fun token h => (hnone token h).elim, fun h => absurd rfl h⟩

/-- A request for two roles, each with a scope. -/
def nodeAndTalkRequest : DevicePairingPendingRequest :=
  newDeviceRequest ["node", "talk"] ["node.run", "talk.voice"]

/-- Each of two roles gets the scopes of both on its token, and such a token is refused. -/
theorem not_approvedTokens_work :
    (approvalOf nodeAndTalkRequest).1.any ApproveDevicePairingResult.isApproved = true ∧
      ∃ role ∈ nodeAndTalkRequest.requestedRoles,
        (((approvalOf nodeAndTalkRequest).2.pairedByDeviceId.find
          nodeAndTalkRequest.deviceId).bind (·.tokens.find role)).any (fun entry =>
            !(verifyDeviceToken 1 (approvalOf nodeAndTalkRequest).2 nodeAndTalkRequest.deviceId
              entry.token role entry.scopes).isOk &&
            !(rotateDeviceToken .constant 1 (approvalOf nodeAndTalkRequest).2
              nodeAndTalkRequest.deviceId role none none).isOk) = true := by
  refine ⟨?_, "node".toList, ?_, ?_⟩
  all_goals decide +kernel

end OpenClaw
