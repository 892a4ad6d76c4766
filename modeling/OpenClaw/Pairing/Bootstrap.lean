import OpenClaw.Pairing.Scopes

/-!
# Bootstrap tokens

`device-bootstrap.ts`: a token is issued with a profile, bound to the first device that presents it,
and redeemed role by role.
-/

namespace OpenClaw

/-! ## Public keys -/

/-- What the code takes from Node for public keys. -/
structure KeyHost where
  /-- `buffer.toString("base64")`. -/
  toBase64 : List UInt8 → Str
  /-- `Buffer.from(text, "base64")`. -/
  fromBase64 : Str → List UInt8
  /-- `crypto.createPublicKey(text).export({ type: "spki", format: "der" })`, where it succeeds. -/
  spkiOfPem : Str → Option (List UInt8)

/-- `ED25519_SPKI_PREFIX` -/
def ed25519SpkiPrefix : List UInt8 :=
  [0x30, 0x2a, 0x30, 0x05, 0x06, 0x03, 0x2b, 0x65, 0x70, 0x03, 0x21, 0x00]

section

variable (keys : KeyHost)

def base64UrlEncode (buf : List UInt8) : Str :=
  ((keys.toBase64 buf).map fun c => if c = '+' then '-' else if c = '/' then '_' else c).rdropWhile
    (· = '=')

def base64UrlDecode (text : Str) : List UInt8 :=
  let normalized := text.map fun c => if c = '-' then '+' else if c = '_' then '/' else c
  keys.fromBase64 (normalized ++ List.replicate ((4 - jsLength normalized % 4) % 4) '=')

def derivePublicKeyRaw (publicKeyPem : Str) : Option (List UInt8) :=
  (keys.spkiOfPem publicKeyPem).map fun spki =>
    if spki.length = ed25519SpkiPrefix.length + 32 ∧ ed25519SpkiPrefix <+: spki then
      spki.drop ed25519SpkiPrefix.length
    else spki

def normalizeDevicePublicKeyBase64Url (publicKey : Str) : Option Str :=
  if "BEGIN".toList <:+: publicKey then
    (derivePublicKeyRaw keys publicKey).map (base64UrlEncode keys)
  else
    let raw := base64UrlDecode keys publicKey
    if raw = [] then none else some (base64UrlEncode keys raw)

def normalizeBootstrapPublicKey (publicKey : Str) : Str :=
  let trimmed := trim publicKey
  if trimmed = [] then []
  else if "BEGIN".toList <:+: trimmed ∨ trimmed.any (fun c => c = '+' || c = '/' || c = '=') then
    (normalizeDevicePublicKeyBase64Url keys trimmed).getD trimmed
  else trimmed

end

/-! ## Records -/

structure DeviceBootstrapTokenRecord where
  token : Str
  ts : ℤ
  deviceId : Option Str
  publicKey : Option Str
  profile : Option DeviceBootstrapProfile
  redeemedProfile : Option DeviceBootstrapProfile
  pendingProfile : Option DeviceBootstrapProfile
  roles : Option (List Str)
  scopes : Option (List Str)
  issuedAtMs : ℤ
  lastUsedAtMs : Option ℤ
deriving DecidableEq

/-- The records under their token keys. -/
abbrev DeviceBootstrapStateFile := List (Str × DeviceBootstrapTokenRecord)

/-- `DEVICE_BOOTSTRAP_TOKEN_TTL_MS` -/
def deviceBootstrapTokenTtlMs : ℤ := 10 * 60 * 1000

variable (record : DeviceBootstrapTokenRecord)

def resolvePersistedBootstrapProfile : DeviceBootstrapProfile :=
  normalizeDeviceBootstrapProfile
    ((record.profile.map (·.input)).getD ⟨record.roles, record.scopes⟩)

def resolvePersistedRedeemedProfile : DeviceBootstrapProfile :=
  normalizeDeviceBootstrapProfile ((record.redeemedProfile.map (·.input)).getD ⟨none, none⟩)

def resolvePersistedPendingProfile : Option DeviceBootstrapProfile :=
  record.pendingProfile.map fun pending => normalizeDeviceBootstrapProfile pending.input

/-- The record that `loadState` makes of a stored one. -/
def loadRecord (tokenKey : Str) (record : DeviceBootstrapTokenRecord) :
    DeviceBootstrapTokenRecord where
  token := if trim record.token ≠ [] then record.token else tokenKey
  ts := record.ts
  deviceId := record.deviceId
  publicKey := record.publicKey
  profile := some (resolvePersistedBootstrapProfile record)
  redeemedProfile := some (resolvePersistedRedeemedProfile record)
  pendingProfile := resolvePersistedPendingProfile record
  roles := none
  scopes := none
  issuedAtMs := record.issuedAtMs
  lastUsedAtMs := record.lastUsedAtMs

variable (file : DeviceBootstrapStateFile) (nowMs : ℤ)

/-- With `pruneExpiredPending`. -/
def loadState : DeviceBootstrapStateFile :=
  (file.map fun entry => (entry.1, loadRecord entry.1 entry.2)).filter fun entry =>
    ¬deviceBootstrapTokenTtlMs < nowMs - entry.2.ts

variable (state : DeviceBootstrapStateFile)

/-- `state[tokenKey] = record` -/
def setRecord (tokenKey : Str) (record : DeviceBootstrapTokenRecord) : DeviceBootstrapStateFile :=
  if tokenKey ∈ state.map (·.1) then
    state.map fun entry => if entry.1 = tokenKey then (tokenKey, record) else entry
  else state ++ [(tokenKey, record)]

/-- `delete state[tokenKey]` -/
def deleteRecord (tokenKey : Str) : DeviceBootstrapStateFile :=
  state.filter (·.1 ≠ tokenKey)

def verifyPairingToken (provided expected : Str) : Bool :=
  if trim provided = [] ∨ trim expected = [] then false else decide (provided = expected)

def findToken (providedToken : Str) : Option (Str × DeviceBootstrapTokenRecord) :=
  state.find? fun entry => verifyPairingToken providedToken entry.2.token

/-! ## Profiles of requests -/

structure IssueParams where
  profile : Option DeviceBootstrapProfileInput
  roles : Option (List Str)
  scopes : Option (List Str)

variable (params : IssueParams)

def resolveIssuedBootstrapProfileInput : Option DeviceBootstrapProfileInput :=
  match params.profile with
  | some profile => some profile
  | none =>
    if params.roles.isSome ∨ params.scopes.isSome then some ⟨params.roles, params.scopes⟩ else none

def resolveIssuedBootstrapProfile : DeviceBootstrapProfile :=
  match resolveIssuedBootstrapProfileInput params with
  | some profile => normalizeDeviceBootstrapHandoffProfile profile
  | none => pairingSetupBootstrapProfile

def resolveRequestedBootstrapProfile (role : Str) (scopes : List Str) : DeviceBootstrapProfile :=
  normalizeDeviceBootstrapProfile
    ⟨some [role], some (resolveBootstrapProfileScopesForRole role scopes)⟩

def sameBootstrapProfile (left right : DeviceBootstrapProfile) : Bool :=
  if left.roles.length ≠ right.roles.length ∨ left.scopes.length ≠ right.scopes.length then false
  else
    (left.roles.zip right.roles).all (fun pair => pair.1 = pair.2) &&
      (left.scopes.zip right.scopes).all (fun pair => pair.1 = pair.2)

def bootstrapProfileAllowsRequest (allowedProfile : DeviceBootstrapProfile) (requestedRole : Str)
    (requestedScopes : List Str) : Bool :=
  decide (requestedRole ∈ allowedProfile.roles) &&
    roleScopesAllow requestedRole requestedScopes allowedProfile.scopes

def bootstrapProfileSatisfiesProfile (actualProfile requiredProfile : DeviceBootstrapProfile) :
    Bool :=
  requiredProfile.roles.all fun requiredRole =>
    decide (requiredRole ∈ actualProfile.roles) &&
      let requiredScopes := resolveBootstrapProfileScopesForRole requiredRole requiredProfile.scopes
      (requiredScopes.isEmpty ||
        bootstrapProfileAllowsRequest actualProfile requiredRole requiredScopes)

/-! ## Operations

Each runs under the lock: it reads the file and answers with the file that it leaves. -/

def issueDeviceBootstrapToken (token : Str) : DeviceBootstrapStateFile :=
  setRecord (loadState file nowMs) token
    { token := token, ts := nowMs, deviceId := none, publicKey := none,
      profile := some (resolveIssuedBootstrapProfile params),
      redeemedProfile := some (normalizeDeviceBootstrapProfile ⟨none, none⟩),
      pendingProfile := none, roles := none, scopes := none, issuedAtMs := nowMs,
      lastUsedAtMs := none }

def revokeDeviceBootstrapToken (token : Str) :
    Option DeviceBootstrapTokenRecord × DeviceBootstrapStateFile :=
  if trim token = [] then (none, file)
  else
    let state := loadState file nowMs
    match findToken state (trim token) with
    | none => (none, file)
    | some (tokenKey, record) => (some record, deleteRecord state tokenKey)

def revokeDeviceBootstrapTokensForDevice (keys : KeyHost) (file : DeviceBootstrapStateFile)
    (nowMs : ℤ) (deviceId publicKey : Str) : DeviceBootstrapStateFile :=
  let key := normalizeBootstrapPublicKey keys publicKey
  if trim deviceId = [] ∨ key = [] then file
  else
    let state := loadState file nowMs
    let kept := state.filter fun entry =>
      ¬(entry.2.deviceId.map trim = some (trim deviceId) ∧
        entry.2.publicKey.map (normalizeBootstrapPublicKey keys) = some key)
    if kept.length < state.length then kept else file

def restoreDeviceBootstrapToken (record : DeviceBootstrapTokenRecord) : DeviceBootstrapStateFile :=
  setRecord (loadState file nowMs) record.token record

structure RedeemParams where
  token : Str
  role : Str
  scopes : List Str

structure Redemption where
  recorded : Bool
  fullyRedeemed : Bool
deriving DecidableEq

/-- What redeeming makes of the profile redeemed so far. -/
def redeemedWith (params : RedeemParams) : DeviceBootstrapProfile :=
  normalizeDeviceBootstrapProfile
    ⟨some ((resolvePersistedRedeemedProfile record).roles ++ [params.role]),
      some ((resolvePersistedRedeemedProfile record).scopes ++
        resolveBootstrapProfileScopesForRole params.role params.scopes)⟩

/-- `nextPendingProfile` -/
def pendingAfter (redeemedProfile : DeviceBootstrapProfile)
    (pendingProfile : Option DeviceBootstrapProfile) : Option DeviceBootstrapProfile :=
  pendingProfile.filter fun pending => !bootstrapProfileSatisfiesProfile redeemedProfile pending

def redeemDeviceBootstrapTokenProfile
    (params : RedeemParams) : Redemption × DeviceBootstrapStateFile :=
  if trim params.token = [] then (⟨false, false⟩, file)
  else
    let state := loadState file nowMs
    match findToken state (trim params.token) with
    | none => (⟨false, false⟩, file)
    | some (tokenKey, record) =>
      let issuedProfile := resolvePersistedBootstrapProfile record
      let redeemedProfile := redeemedWith record params
      let nextRecord :=
        { record with
          profile := some issuedProfile
          redeemedProfile := some redeemedProfile
          pendingProfile := pendingAfter redeemedProfile (resolvePersistedPendingProfile record) }
      (⟨true, bootstrapProfileSatisfiesProfile redeemedProfile issuedProfile⟩,
        setRecord state tokenKey nextRecord)

structure VerifyParams where
  token : Str
  deviceId : Str
  publicKey : Str
  role : Str
  scopes : List Str

/-- Whether the request is accepted; the reason is `bootstrap_token_invalid` where it is not. -/
def verifyDeviceBootstrapToken (keys : KeyHost) (file : DeviceBootstrapStateFile) (nowMs : ℤ)
    (params : VerifyParams) : Bool × DeviceBootstrapStateFile :=
  let state := loadState file nowMs
  if trim params.token = [] then (false, file)
  else
    match findToken state (trim params.token) with
    | none => (false, file)
    | some (tokenKey, record) =>
      let deviceId := trim params.deviceId
      let publicKey := normalizeBootstrapPublicKey keys params.publicKey
      let role := trim params.role
      if deviceId = [] ∨ publicKey = [] ∨ role = [] then (false, file)
      else
        let allowedProfile := resolvePersistedBootstrapProfile record
        if allowedProfile.roles = [] ∨
            bootstrapProfileAllowsRequest allowedProfile role params.scopes = false then
          (false, file)
        else
          let requestedProfile := resolveRequestedBootstrapProfile role params.scopes
          let boundDeviceId := record.deviceId.map trim
          let boundPublicKey := record.publicKey.map (normalizeBootstrapPublicKey keys)
          let bind := fun pendingProfile : DeviceBootstrapProfile =>
            setRecord state tokenKey
              { record with
                profile := some allowedProfile
                pendingProfile := some pendingProfile
                deviceId := some deviceId
                publicKey := some publicKey
                lastUsedAtMs := some nowMs }
          if boundDeviceId.getD [] ≠ [] ∨ boundPublicKey.getD [] ≠ [] then
            if boundDeviceId ≠ some deviceId ∨ boundPublicKey ≠ some publicKey then (false, file)
            else
              match resolvePersistedPendingProfile record with
              | some pendingProfile =>
                if sameBootstrapProfile pendingProfile requestedProfile = false then (false, file)
                else (true, bind pendingProfile)
              | none => (true, bind requestedProfile)
          else (true, bind requestedProfile)

end OpenClaw
