import OpenClaw.Lib.Memo
import OpenClaw.Routing.Binding
import OpenClaw.Text.Order

/-!
# The router

A message is routed by the first tier that has a matching binding. The router keeps three
caches for each configuration object: the bindings of a channel and account with their
index, the agents, and the routes that it gave, under a key that is put together from the
message. A cache is used while the parts of the configuration that it was built from are
the same objects.
-/

namespace OpenClaw

/-! ## Questions -/

structure ResolveAgentRouteInput where
  channel : Str
  accountId : Option Str := none
  peer : Option RoutePeer := none
  parentPeer : Option RoutePeer := none
  guildId : Option Str := none
  teamId : Option Str := none
  memberRoleIds : List Str := []

/-- The input as the router reads it. -/
structure RouteQuestion where
  channel : Str
  accountId : Str
  peer : Option RoutePeer
  parentPeer : Option RoutePeer
  guildId : Str
  teamId : Str
  memberRoleIds : List Str
deriving DecidableEq

def normalizeRoutePeer (peer : RoutePeer) : RoutePeer :=
  { peer with id := normalizeRouteBindingId (some peer.id) }

def ResolveAgentRouteInput.question (host : RouteHost) (input : ResolveAgentRouteInput) :
    RouteQuestion where
  channel := normalizeToken host input.channel
  accountId := normalizeAccountId host input.accountId
  peer := input.peer.map normalizeRoutePeer
  parentPeer := input.parentPeer.map normalizeRoutePeer
  guildId := normalizeRouteBindingId input.guildId
  teamId := normalizeRouteBindingId input.teamId
  memberRoleIds := input.memberRoleIds

/-! ## Tiers -/

inductive RouteTier where
  | peer | peerParent | peerWildcard | guildRoles | guild | team | account | channel
deriving DecidableEq

def routeTiers : List RouteTier :=
  [.peer, .peerParent, .peerWildcard, .guildRoles, .guild, .team, .account, .channel]

namespace RouteTier

variable (q : RouteQuestion)

def enabled : RouteTier → Bool
  | peer => q.peer.isSome
  | peerParent => (q.parentPeer.filter (·.id ≠ [])).isSome
  | peerWildcard => q.peer.isSome
  | guildRoles => q.guildId ≠ [] && q.memberRoleIds ≠ []
  | guild => q.guildId ≠ []
  | team => q.teamId ≠ []
  | account => true
  | channel => true

def scopePeer : RouteTier → Option RoutePeer
  | peerParent => q.parentPeer.filter (·.id ≠ [])
  | _ => q.peer

def candidates (index : EvaluatedBindingsIndex) : RouteTier → List EvaluatedBinding
  | peer => collectPeerIndexedBindings index q.peer
  | peerParent => collectPeerIndexedBindings index q.parentPeer
  | peerWildcard => index.byPeerWildcard
  | guildRoles => if q.guildId = [] then [] else index.byGuildWithRoles q.guildId
  | guild => if q.guildId = [] then [] else index.byGuild q.guildId
  | team => if q.teamId = [] then [] else index.byTeam q.teamId
  | account => index.byAccount
  | channel => index.byChannel

def predicate (normalized : NormalizedBindingMatch) : RouteTier → Bool
  | peer => match normalized.peer with | .valid _ _ => true | _ => false
  | peerParent => match normalized.peer with | .valid _ _ => true | _ => false
  | peerWildcard => match normalized.peer with | .wildcardKind _ => true | _ => false
  | guildRoles => normalized.guildId.isSome && normalized.roles.isSome
  | guild => normalized.guildId.isSome && !normalized.roles.isSome
  | team => normalized.teamId.isSome
  | account => normalized.accountPattern ≠ anyAccount
  | channel => normalized.accountPattern = anyAccount

/-- Whether a tier takes a binding. -/
def takes (tier : RouteTier) (evaluated : EvaluatedBinding) : Bool :=
  tier.predicate evaluated.normalized &&
    matchesBindingScope evaluated.normalized
      { peer := tier.scopePeer q
        guildId := q.guildId
        teamId := q.teamId
        memberRoleIds := q.memberRoleIds }

end RouteTier

/-- The first binding that a tier takes, of the first tier that takes one. -/
def matchBinding (q : RouteQuestion) (candidates : RouteTier → List EvaluatedBinding) :
    Option (RouteTier × EvaluatedBinding) :=
  routeTiers.findSome? fun tier =>
    if tier.enabled q then ((candidates tier).find? (tier.takes q)).map (tier, ·) else none

/-! ## Routes -/

inductive LastRoutePolicy where
  | main | session
deriving DecidableEq

/-- A route; no tier stands for `default`. -/
structure ResolvedAgentRoute where
  agentId : Str
  channel : Str
  accountId : Str
  sessionKey : Str
  mainSessionKey : Str
  lastRoutePolicy : LastRoutePolicy
  matchedBy : Option RouteTier
deriving DecidableEq

def deriveLastRoutePolicy (sessionKey mainSessionKey : Str) : LastRoutePolicy :=
  if sessionKey = mainSessionKey then .main else .session

section

variable (host : RouteHost)

def chooseRoute (session : SessionConfig) (lookup : AgentLookup) (q : RouteQuestion)
    (agentId : Str) (matchedBy : Option RouteTier) (sessionOverride : Option DmScope) :
    ResolvedAgentRoute :=
  let resolvedAgentId := pickFirstExistingAgentId host lookup agentId
  let effectiveDmScope := sessionOverride.getD (session.dmScope.getD .main)
  let sessionKey := normalizeToken host
    (buildAgentSessionKey host resolvedAgentId q.channel (some q.accountId) q.peer
      (some effectiveDmScope) session.identityLinks)
  let mainSessionKey := normalizeToken host
    (buildAgentMainSessionKey host resolvedAgentId (some "main".toList))
  { agentId := resolvedAgentId
    channel := q.channel
    accountId := q.accountId
    sessionKey := sessionKey
    mainSessionKey := mainSessionKey
    lastRoutePolicy := deriveLastRoutePolicy sessionKey mainSessionKey
    matchedBy := matchedBy }

/-- The tiers over their candidates, and the default agent after them. -/
def routeOver (agents : List AgentEntry) (session : SessionConfig) (lookup : AgentLookup)
    (q : RouteQuestion) (candidates : RouteTier → List EvaluatedBinding) : ResolvedAgentRoute :=
  match matchBinding q candidates with
  | some (tier, matched) =>
    chooseRoute host session lookup q matched.binding.agentId (some tier) matched.binding.dmScope
  | none => chooseRoute host session lookup q (resolveDefaultAgentId host agents) none none

end

/-! ## Cache keys -/

def DmScope.text : DmScope → Str
  | main => "main".toList
  | perPeer => "per-peer".toList
  | perChannelPeer => "per-channel-peer".toList
  | perAccountChannelPeer => "per-account-channel-peer".toList

def formatRouteCachePeer (peer : Option RoutePeer) : Str :=
  match peer with
  | none => "-".toList
  | some peer => if peer.id = [] then "-".toList else peer.kind.text ++ ":".toList ++ peer.id

def formatRoleIdsCacheKey (roleIds : List Str) : Str :=
  match roleIds with
  | [] => "-".toList
  | [only] => only
  | [first, second] =>
    if stringLe first second then first ++ ",".toList ++ second else second ++ ",".toList ++ first
  | roleIds => joinWith ",".toList (roleIds.insertionSort stringLe)

def buildResolvedRouteCacheKey (q : RouteQuestion) (dmScope : DmScope) : Str :=
  joinWith "\t".toList
    [q.channel, q.accountId, formatRouteCachePeer q.peer, formatRouteCachePeer q.parentPeer,
      orElse q.guildId "-".toList, orElse q.teamId "-".toList, formatRoleIdsCacheKey q.memberRoleIds,
      dmScope.text]

/-! ## Configuration objects and caches -/

/-- A configuration object and the objects that it holds at the time. -/
structure ConfigRef where
  cfg : ℕ
  bindings : ℕ
  agents : ℕ
  session : ℕ
deriving DecidableEq

/-- What the objects hold. They are never mutated, so this does not change. -/
structure ConfigHeap where
  bindings : ℕ → List AgentBinding
  agents : ℕ → List AgentEntry
  session : ℕ → SessionConfig

structure EvaluatedBindingsCache where
  bindingsRef : ℕ
  byChannel : EvaluatedBindingsByChannel
  byChannelAccount : Memo Str (List EvaluatedBinding)
  byChannelAccountIndex : Memo Str EvaluatedBindingsIndex

structure AgentLookupCache where
  agentsRef : ℕ
  lookup : AgentLookup

structure ResolvedRouteCache where
  bindingsRef : ℕ
  agentsRef : ℕ
  sessionRef : ℕ
  byKey : Memo Str ResolvedAgentRoute

/-- The caches, by configuration object. -/
structure RouteCaches where
  evaluated : ℕ → Option EvaluatedBindingsCache
  agentLookup : ℕ → Option AgentLookupCache
  resolved : ℕ → Option ResolvedRouteCache

def RouteCaches.empty : RouteCaches := ⟨fun _ => none, fun _ => none, fun _ => none⟩

def maxEvaluatedBindingsCacheKeys : ℕ := 2000

def maxResolvedRouteCacheKeys : ℕ := 4000

section

variable (host : RouteHost) (heap : ConfigHeap) (cfg : ConfigRef)

variable (channel accountId : Str)

def evaluatedCacheKey : Str := channel ++ "\t".toList ++ accountId

variable (caches : RouteCaches)

/-- The cache of `cfg.bindings`, built where it is missing or stale. -/
def evaluatedBindingsCache : EvaluatedBindingsCache :=
  match (caches.evaluated cfg.cfg).filter (·.bindingsRef = cfg.bindings) with
  | some existing => existing
  | none =>
    { bindingsRef := cfg.bindings
      byChannel := buildEvaluatedBindingsByChannel host (heap.bindings cfg.bindings)
      byChannelAccount := .empty
      byChannelAccountIndex := .empty }

/-- Both maps of a cache with one more entry; they are cleared when the first has too many. -/
def EvaluatedBindingsCache.store (cache : EvaluatedBindingsCache) (cacheKey : Str)
    (evaluated : List EvaluatedBinding) : EvaluatedBindingsCache :=
  let index := buildEvaluatedBindingsIndex evaluated
  let grown := Keyed.set cache.byChannelAccount (cacheKey, evaluated)
  if maxEvaluatedBindingsCacheKeys < grown.entries.length then
    { cache with
      byChannelAccount := Keyed.set .empty (cacheKey, evaluated)
      byChannelAccountIndex := Keyed.set .empty (cacheKey, index) }
  else
    { cache with
      byChannelAccount := grown
      byChannelAccountIndex := Keyed.set cache.byChannelAccountIndex (cacheKey, index) }

def getEvaluatedBindingsForChannelAccount : List EvaluatedBinding × RouteCaches :=
  let cache := evaluatedBindingsCache host heap cfg caches
  let cacheKey := evaluatedCacheKey channel accountId
  match Memo.get cache.byChannelAccount cacheKey with
  | some hit =>
    (hit, { caches with evaluated := Function.update caches.evaluated cfg.cfg (some cache) })
  | none =>
    let evaluated := mergeEvaluatedBindingsInSourceOrder
      (cache.byChannel.byAccount (channel, accountId)) (cache.byChannel.byAnyAccount channel)
    (evaluated, { caches with
      evaluated := Function.update caches.evaluated cfg.cfg (some (cache.store cacheKey evaluated)) })

def getEvaluatedBindingIndexForChannelAccount : EvaluatedBindingsIndex × RouteCaches :=
  let (bindings, caches) := getEvaluatedBindingsForChannelAccount host heap cfg channel accountId caches
  let cacheKey := evaluatedCacheKey channel accountId
  match (caches.evaluated cfg.cfg).bind fun existing => Memo.get existing.byChannelAccountIndex cacheKey with
  | some indexed => (indexed, caches)
  | none =>
    let built := buildEvaluatedBindingsIndex bindings
    (built, { caches with
      evaluated := Function.update caches.evaluated cfg.cfg ((caches.evaluated cfg.cfg).map
        fun existing => { existing with
          byChannelAccountIndex := Keyed.set existing.byChannelAccountIndex (cacheKey, built) }) })

def resolveAgentLookupCache : AgentLookup × RouteCaches :=
  match (caches.agentLookup cfg.cfg).filter (·.agentsRef = cfg.agents) with
  | some existing => (existing.lookup, caches)
  | none =>
    let lookup := buildAgentLookup host (heap.agents cfg.agents)
    (lookup, { caches with
      agentLookup := Function.update caches.agentLookup cfg.cfg (some ⟨cfg.agents, lookup⟩) })

/-- `resolveRouteCacheForConfig`. -/
def resolvedRouteCache : ResolvedRouteCache :=
  match (caches.resolved cfg.cfg).filter fun existing =>
      existing.bindingsRef = cfg.bindings && existing.agentsRef = cfg.agents &&
        existing.sessionRef = cfg.session with
  | some existing => existing
  | none => ⟨cfg.bindings, cfg.agents, cfg.session, .empty⟩

/-- The part of `resolveAgentRoute` that does not look for a cached route. -/
def computeRoute (q : RouteQuestion) (caches : RouteCaches) : ResolvedAgentRoute × RouteCaches :=
  let (_, caches) := getEvaluatedBindingsForChannelAccount host heap cfg q.channel q.accountId caches
  let (index, caches) :=
    getEvaluatedBindingIndexForChannelAccount host heap cfg q.channel q.accountId caches
  let (lookup, caches) := resolveAgentLookupCache host heap cfg caches
  (routeOver host (heap.agents cfg.agents) (heap.session cfg.session) lookup q
    fun tier => tier.candidates q index, caches)

/-- One call: the configuration, the input, and whether `shouldLogVerbose()`. -/
structure RouteQuery where
  cfg : ConfigRef
  input : ResolveAgentRouteInput
  verbose : Bool := false

variable (query : RouteQuery)

def RouteQuery.usesRouteCache : Bool :=
  !query.verbose && (heap.session query.cfg.session).identityLinks.isNone

def RouteQuery.cacheKey : Str :=
  buildResolvedRouteCacheKey (query.input.question host)
    ((heap.session query.cfg.session).dmScope.getD .main)

def resolveAgentRoute (caches : RouteCaches) : ResolvedAgentRoute × RouteCaches :=
  let q := query.input.question host
  if query.usesRouteCache heap then
    let routeCache := resolvedRouteCache query.cfg caches
    let caches := { caches with
      resolved := Function.update caches.resolved query.cfg.cfg (some routeCache) }
    match Memo.get routeCache.byKey (query.cacheKey host heap) with
    | some cachedRoute => (cachedRoute, caches)
    | none =>
      let (route, caches) := computeRoute host heap query.cfg q caches
      (route, { caches with
        resolved := Function.update caches.resolved query.cfg.cfg (some { routeCache with
          byKey := routeCache.byKey.remember maxResolvedRouteCacheKeys (query.cacheKey host heap)
            route }) })
  else computeRoute host heap query.cfg q caches

/-- The routes of a sequence of calls. -/
def resolveAgentRoutes : List RouteQuery → RouteCaches → List ResolvedAgentRoute
  | [], _ => []
  | query :: queries, caches =>
    let (route, caches) := resolveAgentRoute host heap query caches
    route :: resolveAgentRoutes queries caches

end

end OpenClaw
