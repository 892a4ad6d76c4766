import OpenClaw.Lib.Buckets
import OpenClaw.Routing.SessionKey

/-!
# Bindings and their index

A binding sends the messages that match it to an agent. The bindings of one channel and
account are kept in the order of the configuration, and sorted into buckets: by peer, by
kind of peer, by guild, by team, by account and by channel. A binding is in the first bucket
that takes it.
-/

namespace OpenClaw

/-! ## Configurations -/

structure BindingPeer where
  kind : Option Str
  id : Option Str
deriving DecidableEq

structure BindingMatch where
  channel : Option Str := none
  accountId : Option Str := none
  peer : Option BindingPeer := none
  guildId : Option Str := none
  teamId : Option Str := none
  roles : Option (List Str) := none
deriving DecidableEq

/-- `AgentBinding`, with `session.dmScope`. -/
structure AgentBinding where
  isAcp : Bool := false
  agentId : Str
  bindingMatch : BindingMatch
  dmScope : Option DmScope := none
deriving DecidableEq

structure AgentEntry where
  id : Option Str
  isDefault : Bool := false
deriving DecidableEq

structure SessionConfig where
  dmScope : Option DmScope := none
  identityLinks : Option IdentityLinks := none
deriving DecidableEq

def listRouteBindings (bindings : List AgentBinding) : List AgentBinding :=
  bindings.filter fun binding => !binding.isAcp

section

variable (host : RouteHost)

/-! ## Agents -/

variable (agents : List AgentEntry)

def resolveDefaultAgentId : Str :=
  match agents with
  | [] => "main".toList
  | first :: _ =>
    let chosen := ((agents.find? (·.isDefault)).getD first).id
    normalizeAgentId host (some (orElse (trim (chosen.getD [])) "main".toList))

structure AgentLookup where
  byNormalizedId : List (Str × Str)
  fallbackDefaultAgentId : Str

/-- `resolveAgentLookupCache`, without its cache. -/
def buildAgentLookup : AgentLookup where
  byNormalizedId :=
    (agents.filterMap fun agent => agent.id.bind fun id => nonEmptyText? (trim id)).map
      fun rawId => (normalizeAgentId host (some rawId), normalizeAgentId host (some rawId))
  fallbackDefaultAgentId := normalizeAgentId host (some (resolveDefaultAgentId host agents))

def pickFirstExistingAgentId (lookup : AgentLookup) (agentId : Str) : Str :=
  let trimmed := trim agentId
  if trimmed = [] then lookup.fallbackDefaultAgentId
  else if lookup.byNormalizedId = [] then normalizeAgentId host (some trimmed)
  else
    let normalized := normalizeAgentId host (some trimmed)
    -- an agent id that is set twice is set to the same value
    match lookup.byNormalizedId.find? fun entry => entry.1 = normalized with
    | some entry => orElse entry.2 lookup.fallbackDefaultAgentId
    | none => lookup.fallbackDefaultAgentId

/-! ## Normalised bindings -/

inductive NormalizedPeerConstraint where
  | none
  | invalid
  | wildcardKind (kind : ChatType)
  | valid (kind : ChatType) (id : Str)
deriving DecidableEq

structure NormalizedBindingMatch where
  accountPattern : Str
  peer : NormalizedPeerConstraint
  guildId : Option Str
  teamId : Option Str
  roles : Option (List Str)
deriving DecidableEq

/-- A binding, what it matches, and its place among the bindings. -/
structure EvaluatedBinding where
  binding : AgentBinding
  normalized : NormalizedBindingMatch
  order : ℕ
deriving DecidableEq

def normalizeChatType (raw : Option Str) : Option ChatType :=
  let value := normalizeToken host (raw.getD [])
  if value = "direct".toList ∨ value = "dm".toList then some .direct
  else if value = "group".toList then some .group
  else if value = "channel".toList then some .channel
  else none

/-- `normalizeRouteBindingId`, for texts and missing values. -/
def normalizeRouteBindingId (value : Option Str) : Str := trim (value.getD [])

def normalizeRouteBindingRoles (value : Option (List Str)) : Option (List Str) :=
  value.filter fun roles => roles ≠ []

def normalizePeerConstraint (peer : Option BindingPeer) : NormalizedPeerConstraint :=
  match peer with
  | none => .none
  | some peer =>
    let id := normalizeRouteBindingId peer.id
    match normalizeChatType host peer.kind with
    | none => .invalid
    | some kind =>
      if id = [] then .invalid else if id = "*".toList then .wildcardKind kind else .valid kind id

def normalizeBindingMatch (bindingMatch : BindingMatch) : NormalizedBindingMatch where
  accountPattern := trim (bindingMatch.accountId.getD [])
  peer := normalizePeerConstraint host bindingMatch.peer
  guildId := nonEmptyText? (normalizeRouteBindingId bindingMatch.guildId)
  teamId := nonEmptyText? (normalizeRouteBindingId bindingMatch.teamId)
  roles := normalizeRouteBindingRoles bindingMatch.roles

def resolveAccountPatternKey (accountPattern : Str) : Str :=
  if trim accountPattern = [] then "default".toList
  else normalizeAccountId host (some accountPattern)

/-- The channel that a binding is for, or none. -/
def EvaluatedBinding.channel (evaluated : EvaluatedBinding) : Str :=
  normalizeToken host (evaluated.binding.bindingMatch.channel.getD [])

variable (bindings : List AgentBinding)

/-- The bindings that are for a channel, in order. -/
def evaluatedBindings : List EvaluatedBinding :=
  ((listRouteBindings bindings).filter fun binding =>
    normalizeToken host (binding.bindingMatch.channel.getD []) ≠ []).zipIdx.map
      fun (binding, order) => ⟨binding, normalizeBindingMatch host binding.bindingMatch, order⟩

/-- `EvaluatedBindingsByChannel`, for all channels. -/
structure EvaluatedBindingsByChannel where
  byAccount : Str × Str → List EvaluatedBinding
  byAnyAccount : Str → List EvaluatedBinding

/-- `*` is any account. -/
def anyAccount : Str := "*".toList

def buildEvaluatedBindingsByChannel : EvaluatedBindingsByChannel where
  byAccount := Buckets.collect (fun evaluated =>
    if evaluated.normalized.accountPattern = anyAccount then []
    else
      [(evaluated.channel host, resolveAccountPatternKey host evaluated.normalized.accountPattern)])
    (evaluatedBindings host bindings)
  byAnyAccount := Buckets.collect (fun evaluated =>
    if evaluated.normalized.accountPattern = anyAccount then [evaluated.channel host] else [])
    (evaluatedBindings host bindings)

end

def mergeEvaluatedBindingsInSourceOrder (accountScoped anyAccount : List EvaluatedBinding) :
    List EvaluatedBinding :=
  if accountScoped = [] then anyAccount
  else if anyAccount = [] then accountScoped
  else accountScoped.merge anyAccount fun a b => a.order ≤ b.order

/-! ## The index -/

def peerLookupKeys (kind : ChatType) (id : Str) : List Str :=
  match kind with
  | .group => ["group:".toList ++ id, "channel:".toList ++ id]
  | .channel => ["channel:".toList ++ id, "group:".toList ++ id]
  | .direct => ["direct:".toList ++ id]

/-- The first bucket that takes a binding, with its keys there. -/
inductive IndexBucket where
  | peer (keys : List Str)
  | peerWildcard
  | guildWithRoles (guildId : Str)
  | guild (guildId : Str)
  | team (teamId : Str)
  | account
  | channel
deriving DecidableEq

namespace IndexBucket

def peerKeys : IndexBucket → List Str
  | peer keys => keys
  | _ => []

def guildWithRolesKeys : IndexBucket → List Str
  | guildWithRoles guildId => [guildId]
  | _ => []

def guildKeys : IndexBucket → List Str
  | guild guildId => [guildId]
  | _ => []

def teamKeys : IndexBucket → List Str
  | team teamId => [teamId]
  | _ => []

end IndexBucket

variable (normalized : NormalizedBindingMatch)

/-- The body of the loop of `buildEvaluatedBindingsIndex`. -/
def indexBucket : IndexBucket :=
  match normalized.peer with
  | .valid kind id => .peer (peerLookupKeys kind id)
  | .wildcardKind _ => .peerWildcard
  | _ =>
    match normalized.guildId, normalized.roles, normalized.teamId with
    | some guildId, some _, _ => .guildWithRoles guildId
    | some guildId, none, _ => .guild guildId
    | none, _, some teamId => .team teamId
    | none, _, none => if normalized.accountPattern ≠ anyAccount then .account else .channel

structure EvaluatedBindingsIndex where
  byPeer : Str → List EvaluatedBinding
  byPeerWildcard : List EvaluatedBinding
  byGuildWithRoles : Str → List EvaluatedBinding
  byGuild : Str → List EvaluatedBinding
  byTeam : Str → List EvaluatedBinding
  byAccount : List EvaluatedBinding
  byChannel : List EvaluatedBinding

def EvaluatedBinding.bucket (evaluated : EvaluatedBinding) : IndexBucket :=
  indexBucket evaluated.normalized

def buildEvaluatedBindingsIndex (bindings : List EvaluatedBinding) : EvaluatedBindingsIndex where
  byPeer := Buckets.collect (·.bucket.peerKeys) bindings
  byPeerWildcard := bindings.filter (·.bucket = .peerWildcard)
  byGuildWithRoles := Buckets.collect (·.bucket.guildWithRolesKeys) bindings
  byGuild := Buckets.collect (·.bucket.guildKeys) bindings
  byTeam := Buckets.collect (·.bucket.teamKeys) bindings
  byAccount := bindings.filter (·.bucket = .account)
  byChannel := bindings.filter (·.bucket = .channel)

def collectPeerIndexedBindings (index : EvaluatedBindingsIndex) (peer : Option RoutePeer) :
    List EvaluatedBinding :=
  match peer with
  | none => []
  | some peer => Buckets.takeNew ((peerLookupKeys peer.kind peer.id).flatMap index.byPeer)

/-! ## Matching -/

def peerKindMatches (bindingKind scopeKind : ChatType) : Bool :=
  bindingKind = scopeKind || (bindingKind = .group && scopeKind = .channel) ||
    (bindingKind = .channel && scopeKind = .group)

structure BindingScope where
  peer : Option RoutePeer
  guildId : Str
  teamId : Str
  groupSpace : Option Str := none
  memberRoleIds : List Str

def scopeIdMatches (constraint : Option Str) (exact groupSpace : Str) : Bool :=
  match constraint with
  | none => true
  | some constraint => constraint = [] || constraint = exact || constraint = groupSpace

variable (scope : BindingScope)

def routeBindingScopeMatches : Bool :=
  let guildId := normalizeRouteBindingId (some scope.guildId)
  let teamId := normalizeRouteBindingId (some scope.teamId)
  let groupSpace := normalizeRouteBindingId scope.groupSpace
  scopeIdMatches normalized.guildId guildId groupSpace &&
    scopeIdMatches normalized.teamId teamId groupSpace &&
    match normalizeRouteBindingRoles normalized.roles with
    | none => true
    | some roles => roles.any (scope.memberRoleIds.contains ·)

def matchesBindingScope : Bool :=
  (match normalized.peer with
    | .invalid => false
    | .valid kind id => scope.peer.any fun peer => peerKindMatches kind peer.kind && peer.id = id
    | .wildcardKind kind => scope.peer.any fun peer => peerKindMatches kind peer.kind
    | .none => true) && routeBindingScopeMatches normalized scope

end OpenClaw
