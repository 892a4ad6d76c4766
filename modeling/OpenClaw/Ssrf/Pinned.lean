import OpenClaw.Ssrf.Ip

/-!
# Pinned lookups

`createPinnedLookup`, `resolvePinnedHostnameWithPolicy` and `resolvePinnedDispatcherLookup`.
-/

namespace OpenClaw

/-! ## The policy checks

The checks of `ssrf.ts` before and after a lookup. -/

structure SsrFPolicy where
  allowPrivateNetwork : Bool
  dangerouslyAllowPrivateNetwork : Bool
  allowRfc2544BenchmarkRange : Bool
  allowIpv6UniqueLocalRange : Bool
  allowedHostnames : List Str
  hostnameAllowlist : List Str

/-- What is thrown: `SsrFBlockedError` where `blocked` is set. -/
structure SsrFError where
  blocked : Bool
  message : Str
deriving DecidableEq

variable (policy : Option SsrFPolicy)

section

variable (host : Host) (lib : Ipaddr)

def normalizeHostname (hostname : Str) : Str :=
  let lowered := normalizeLowercaseStringOrEmpty host hostname
  let normalized := if endsWith lowered ".".toList then lowered.dropLast else lowered
  if startsWith normalized "[".toList ∧ endsWith normalized "]".toList then
    (normalized.drop 1).dropLast
  else normalized

/-! ## Names -/

/-- `BLOCKED_HOSTNAMES` -/
def blockedHostnames : List Str :=
  ["localhost".toList, "localhost.localdomain".toList, "metadata.google.internal".toList]

variable (values : List Str)

def normalizeHostnameSet : List Str :=
  (values.map (normalizeHostname host)).filter (· ≠ [])

def normalizeHostnameAllowlist : List Str :=
  ((values.map (normalizeHostname host)).filter fun value =>
    value ≠ "*".toList && value ≠ "*.".toList && 0 < value.length).dedup

def isPrivateNetworkAllowedByPolicy : Bool :=
  (policy.map fun p => p.dangerouslyAllowPrivateNetwork || p.allowPrivateNetwork).getD false

def shouldSkipPrivateNetworkChecks (hostname : Str) (policy : Option SsrFPolicy) : Bool :=
  isPrivateNetworkAllowedByPolicy policy ||
    decide (hostname ∈ normalizeHostnameSet host ((policy.map (·.allowedHostnames)).getD []))

def resolveIpv4SpecialUseBlockOptions : Ipv4SpecialUseBlockOptions :=
  ⟨(policy.map (·.allowRfc2544BenchmarkRange)).getD false⟩

def resolveIpv6SpecialUseBlockOptions : Ipv6SpecialUseBlockOptions :=
  ⟨(policy.map (·.allowIpv6UniqueLocalRange)).getD false⟩

def isHostnameAllowedByPattern (hostname pattern : Str) : Bool :=
  if startsWith pattern "*.".toList then
    let suffix := pattern.drop 2
    if suffix = [] ∨ hostname = suffix then false else endsWith hostname ('.' :: suffix)
  else hostname = pattern

def matchesHostnameAllowlist (hostname : Str) (allowlist : List Str) : Bool :=
  if allowlist = [] then true else allowlist.any (isHostnameAllowedByPattern hostname)

def isBlockedHostnameNormalized (normalized : Str) : Bool :=
  decide (normalized ∈ blockedHostnames) || endsWith normalized ".localhost".toList ||
    endsWith normalized ".local".toList || endsWith normalized ".internal".toList

/-! ## Addresses -/

/-- `/^[0-9]+$/.test(part) || /^0x/i.test(part)` on a part that is not empty. -/
def isIpv4ishPart (part : Str) : Bool :=
  part.all Char.isDigit || startsWith part "0x".toList || startsWith part "0X".toList

def looksLikeUnsupportedIpv4Literal (address : Str) : Bool :=
  let parts := address.splitOn '.'
  if 4 < parts.length then false
  else if parts.any List.isEmpty then true
  else parts.all isIpv4ishPart

def isPrivateIpAddress (address : Str) (policy : Option SsrFPolicy) : Bool :=
  let normalized := normalizeHostname host address
  if normalized = [] then false
  else
    let blockOptions := resolveIpv4SpecialUseBlockOptions policy
    match parseCanonicalIpAddress lib normalized with
    | some (.ipv4 strictIp) => isBlockedSpecialUseIpv4Address lib strictIp blockOptions
    | some (.ipv6 strictIp) =>
      if isBlockedSpecialUseIpv6Address lib strictIp (resolveIpv6SpecialUseBlockOptions policy) then
        true
      else
        match extractEmbeddedIpv4FromIpv6 lib strictIp with
        | some embeddedIpv4 => isBlockedSpecialUseIpv4Address lib embeddedIpv4 blockOptions
        | none => false
    | none =>
      if ':' ∈ normalized ∧ parseLooseIpAddress lib normalized = none then true
      else if !isCanonicalDottedDecimalIPv4 lib normalized && isLegacyIpv4Literal lib normalized then
        true
      else looksLikeUnsupportedIpv4Literal normalized

def isBlockedHostnameOrIp (hostname : Str) (policy : Option SsrFPolicy) : Bool :=
  let normalized := normalizeHostname host hostname
  if normalized = [] then false
  else isBlockedHostnameNormalized normalized || isPrivateIpAddress host lib normalized policy

/-! ## Before and after the lookup -/

/-- `assertAllowedHostOrIpOrThrow` -/
def assertAllowedHostOrIp (hostnameOrIp : Str) (policy : Option SsrFPolicy) :
    Except SsrFError Unit :=
  if isBlockedHostnameOrIp host lib hostnameOrIp policy then
    .error ⟨true, "Blocked hostname or private/internal/special-use IP address".toList⟩
  else .ok ()

structure HostnamePolicyChecks where
  normalized : Str
  skipPrivateNetworkChecks : Bool

def resolveHostnamePolicyChecks (hostname : Str) (policy : Option SsrFPolicy) :
    Except SsrFError HostnamePolicyChecks :=
  let normalized := normalizeHostname host hostname
  if normalized = [] then .error ⟨false, "Invalid hostname".toList⟩
  else
    let hostnameAllowlist :=
      normalizeHostnameAllowlist host ((policy.map (·.hostnameAllowlist)).getD [])
    let skipPrivateNetworkChecks := shouldSkipPrivateNetworkChecks host normalized policy
    if matchesHostnameAllowlist normalized hostnameAllowlist = false then
      .error ⟨true, "Blocked hostname (not in allowlist): ".toList ++ hostname⟩
    else if skipPrivateNetworkChecks then .ok ⟨normalized, skipPrivateNetworkChecks⟩
    else do
      assertAllowedHostOrIp host lib normalized policy
      .ok ⟨normalized, skipPrivateNetworkChecks⟩

structure LookupAddress where
  address : Str
  family : ℕ
deriving DecidableEq

/-- `assertAllowedResolvedAddressesOrThrow` -/
def assertAllowedResolvedAddresses (results : List LookupAddress) (policy : Option SsrFPolicy) :
    Except SsrFError Unit :=
  if results.any fun entry => isBlockedHostnameOrIp host lib entry.address policy then
    .error ⟨true, "Blocked: resolves to private/internal/special-use IP address".toList⟩
  else .ok ()

end

/-! ## The lookup -/

/-- A lookup for a host. It has a record, since it is not created without an address. -/
structure PinnedLookup where
  normalizedHost : Str
  records : List LookupAddress
  records_ne_nil : records ≠ []
deriving DecidableEq

/-- The second argument of a call. -/
inductive LookupOptions where
  /-- Left out, or the callback stands there. -/
  | omitted
  | family (requested : ℕ)
  | object (all : Bool) (requested : Option ℕ)

structure LookupCall where
  host : Str
  options : LookupOptions
  hasCallback : Bool

/-- What the callback gets. -/
inductive LookupReply where
  | nothing
  /-- The call is passed on to the fallback, and from there to the resolver of the system. -/
  | fallback
  | all (records : List LookupAddress)
  | one (record : LookupAddress)

def LookupReply.records : LookupReply → List LookupAddress
  | .all records => records
  | .one record => [record]
  | _ => []

def LookupOptions.requestedFamily : LookupOptions → ℕ
  | .omitted => 0
  | .family requested => requested
  | .object _ requested => requested.getD 0

def LookupOptions.all : LookupOptions → Bool
  | .object all _ => all
  | _ => false

def lookupRecord (address : Str) : LookupAddress := ⟨address, if ':' ∈ address then 6 else 4⟩

def PinnedLookup.automaticRecords (l : PinnedLookup) : List LookupAddress :=
  let ipv4Records := l.records.filter (·.family = 4)
  if 0 < ipv4Records.length then ipv4Records else l.records

def PinnedLookup.usable (l : PinnedLookup) (requestedFamily : ℕ) : List LookupAddress :=
  let candidates :=
    if requestedFamily = 4 ∨ requestedFamily = 6 then
      l.records.filter (·.family = requestedFamily)
    else l.automaticRecords
  if 0 < candidates.length then candidates else l.automaticRecords

/-- One call, with `index` before and after it. -/
def PinnedLookup.call (host : Host) (l : PinnedLookup) (index : ℕ) (c : LookupCall) :
    LookupReply × ℕ :=
  if c.hasCallback = false then (.nothing, index)
  else
    let normalized := normalizeHostname host c.host
    if normalized = [] ∨ normalized ≠ l.normalizedHost then (.fallback, index)
    else
      let usable := l.usable c.options.requestedFamily
      if c.options.all then (.all usable, index)
      else
        match usable[index % usable.length]? with
        | some chosen => (.one chosen, index + 1)
        | none => (.nothing, index)

/-- The replies to a sequence of calls. -/
def PinnedLookup.replies (host : Host) (l : PinnedLookup) : ℕ → List LookupCall → List LookupReply
  | _, [] => []
  | index, c :: calls =>
    (l.call host index c).1 :: l.replies host (l.call host index c).2 calls

section

variable (host : Host) (lib : Ipaddr)

def createPinnedLookup (hostname : Str) (addresses : List Str) : Except SsrFError PinnedLookup :=
  if h : addresses = [] then
    .error ⟨false, "Pinned lookup requires at least one address for ".toList ++ hostname⟩
  else .ok ⟨normalizeHostname host hostname, addresses.map lookupRecord, by simpa using h⟩

/-! ## Resolving -/

structure PinnedHostname where
  hostname : Str
  addresses : List Str
  lookup : PinnedLookup
deriving DecidableEq

structure PinnedHostnameOverride where
  hostname : Str
  addresses : List Str

/-- The sets and lists of `dedupeAndPreferIpv4`. -/
structure DedupedAddresses where
  seen : List Str
  ipv4 : List Str
  otherFamilies : List Str

/-- The body of its loop. -/
def DedupedAddresses.add (d : DedupedAddresses) (entry : LookupAddress) : DedupedAddresses :=
  if entry.address ∈ d.seen then d
  else if entry.family = 4 then
    { d with seen := entry.address :: d.seen, ipv4 := d.ipv4 ++ [entry.address] }
  else
    { d with seen := entry.address :: d.seen, otherFamilies := d.otherFamilies ++ [entry.address] }

def dedupeAndPreferIpv4 (results : List LookupAddress) : List Str :=
  let deduped := results.foldl DedupedAddresses.add ⟨[], [], []⟩
  deduped.ipv4 ++ deduped.otherFamilies

/-- The lookup function answers with `results`. -/
def resolvePinnedHostnameWithPolicy (hostname : Str) (policy : Option SsrFPolicy)
    (results : List LookupAddress) : Except SsrFError PinnedHostname := do
  let checks ← resolveHostnamePolicyChecks host lib hostname policy
  if results = [] then
    .error ⟨false, "Unable to resolve hostname: ".toList ++ hostname⟩
  else
    if checks.skipPrivateNetworkChecks = false then
      assertAllowedResolvedAddresses host lib results policy
    let addresses := dedupeAndPreferIpv4 results
    if addresses = [] then
      .error ⟨false, "Unable to resolve hostname: ".toList ++ hostname⟩
    else
      let lookup ← createPinnedLookup host checks.normalized addresses
      .ok ⟨checks.normalized, addresses, lookup⟩

def resolvePinnedDispatcherLookup (pinned : PinnedHostname)
    (override : Option PinnedHostnameOverride) (policy : Option SsrFPolicy) :
    Except SsrFError PinnedLookup :=
  match override with
  | none => .ok pinned.lookup
  | some override =>
    let normalizedOverrideHost := normalizeHostname host override.hostname
    if normalizedOverrideHost = [] ∨ normalizedOverrideHost ≠ pinned.hostname then
      .error ⟨false, "Pinned dispatcher override hostname mismatch: expected ".toList ++
        pinned.hostname ++ ", got ".toList ++ override.hostname⟩
    else do
      if shouldSkipPrivateNetworkChecks host pinned.hostname policy = false then
        assertAllowedResolvedAddresses host lib (override.addresses.map lookupRecord) policy
      createPinnedLookup host pinned.hostname override.addresses

end

end OpenClaw
