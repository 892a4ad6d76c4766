import OpenClaw.Followup.Route

/-!
# Session keys

The key of a session is put together from the agent, the channel, the account and the peer
of a message. How much of that a direct chat has in its key is the scope of direct chats; a
group or a channel always has its channel, its kind and its id.
-/

namespace OpenClaw

/-! ## Parameters -/

inductive ChatType where
  | direct | group | channel
deriving DecidableEq

def ChatType.text : ChatType → Str
  | direct => "direct".toList
  | group => "group".toList
  | channel => "channel".toList

theorem colon_notMem_kind (kind : ChatType) : ':' ∉ kind.text := by
  cases kind <;> decide

theorem kindText_injective {kind kind' : ChatType} (h : kind.text = kind'.text) : kind = kind' := by
  cases kind <;> cases kind' <;> first | rfl | exact nomatch h

/-- `session.dmScope`. -/
inductive DmScope where
  | main | perPeer | perChannelPeer | perAccountChannelPeer
deriving DecidableEq

structure RoutePeer where
  kind : ChatType
  id : Str
deriving DecidableEq

/-- `session.identityLinks`, in the order of `Object.entries`. -/
abbrev IdentityLinks := List (Str × List Str)

/-! ## Normal forms -/

section

variable (host : RouteHost)

def normalizeToken (value : Str) : Str := normalizeLowercaseStringOrEmpty host.toHost value

/-- `value || fallback`. -/
def orElse (value fallback : Str) : Str := if value = [] then fallback else value

variable (value : Option Str)

/-- `normalizeAgentId`; its three replacements are those of account ids. -/
def normalizeAgentId : Str :=
  let trimmed := trim (value.getD [])
  if trimmed = [] then "main".toList
  else if isValidAccountId trimmed then normalizeToken host trimmed
  else orElse (canonicalizeAccountId host trimmed) "main".toList

/-- `normalizeAccountId`. Its cache is keyed by the trimmed value, so it answers the same. -/
def normalizeAccountId : Str :=
  (normalizeOptionalAccountId host value).getD "default".toList

def normalizeMainKey : Str :=
  orElse (normalizeToken host (value.getD [])) "main".toList

/-! ## Keys -/

def buildAgentMainSessionKey (agentId : Str) (mainKey : Option Str) : Str :=
  "agent:".toList ++ normalizeAgentId host (some agentId) ++ ":".toList ++
    normalizeMainKey host mainKey

def resolveLinkedPeerId (identityLinks : Option IdentityLinks) (channel peerId : Str) :
    Option Str :=
  identityLinks.bind fun identityLinks =>
    let peerId := trim peerId
    if peerId = [] then none
    else
      let channel := normalizeToken host channel
      let scopedCandidate :=
        if channel = [] then [] else [normalizeToken host (channel ++ ":".toList ++ peerId)]
      let candidates := normalizeToken host peerId :: scopedCandidate
      (identityLinks.find? fun link =>
        trim link.1 ≠ [] && link.2.any fun id =>
          normalizeToken host id ≠ [] && candidates.contains (normalizeToken host id)).map
        fun link => trim link.1

structure PeerSessionParams where
  agentId : Str
  mainKey : Option Str
  channel : Str
  accountId : Option Str
  peerKind : Option ChatType
  peerId : Option Str
  identityLinks : Option IdentityLinks
  dmScope : Option DmScope

/-- The key of a direct chat with a peer, below the agent; `none` where the chat is part of
the main session. -/
def directPeerKey (dmScope : DmScope) (channel peerId : Str) (accountId : Option Str) :
    Option Str :=
  let channel := orElse (normalizeToken host channel) "unknown".toList
  match dmScope with
  | .perAccountChannelPeer =>
    if peerId = [] then none
    else some (channel ++ ":".toList ++ normalizeAccountId host accountId ++ ":direct:".toList ++
      peerId)
  | .perChannelPeer => if peerId = [] then none else some (channel ++ ":direct:".toList ++ peerId)
  | .perPeer => if peerId = [] then none else some ("direct:".toList ++ peerId)
  | .main => none

def buildAgentPeerSessionKey (params : PeerSessionParams) : Str :=
  let agent := "agent:".toList ++ normalizeAgentId host (some params.agentId) ++ ":".toList
  match params.peerKind.getD .direct with
  | .direct =>
    let dmScope := params.dmScope.getD .main
    let peerId := trim (params.peerId.getD [])
    let linkedPeerId :=
      if dmScope = .main then none
      else resolveLinkedPeerId host params.identityLinks params.channel peerId
    let peerId := normalizeToken host (linkedPeerId.getD peerId)
    match directPeerKey host dmScope params.channel peerId params.accountId with
    | some key => agent ++ key
    | none => buildAgentMainSessionKey host params.agentId params.mainKey
  | kind =>
    let channel := orElse (normalizeToken host params.channel) "unknown".toList
    let peerId := orElse (normalizeToken host (params.peerId.getD [])) "unknown".toList
    agent ++ channel ++ ":".toList ++ kind.text ++ ":".toList ++ peerId

/-- `buildAgentSessionKey` of the router. -/
def buildAgentSessionKey (agentId channel : Str) (accountId : Option Str) (peer : Option RoutePeer)
    (dmScope : Option DmScope) (identityLinks : Option IdentityLinks) : Str :=
  buildAgentPeerSessionKey host
    { agentId := agentId
      mainKey := some "main".toList
      channel := orElse (normalizeToken host channel) "unknown".toList
      accountId := accountId
      peerKind := some ((peer.map (·.kind)).getD .direct)
      peerId := peer.map fun peer => orElse (trim peer.id) "unknown".toList
      dmScope := dmScope
      identityLinks := identityLinks }

end

end OpenClaw
