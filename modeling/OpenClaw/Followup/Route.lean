import OpenClaw.Text.Json
import OpenClaw.Text.Number

/-!
# Follow-up runs, their routes and their authorizations

A queued message carries the fields by which the reply is routed and the fields by which
the agent is authorized. Before messages are collected into one prompt, their routes are
compared by compact keys and their authorizations by the text of a tuple.

Of the run context only what is read here is kept. The registered channels and the texts
of numbers are the process's, and nothing is assumed about them.
-/

namespace OpenClaw

/-- What the routing functions take from the running process. -/
structure RouteHost extends Host where
  /-- `normalizeChatChannelId(id) !== null || normalizeChannelId(id) !== null`. -/
  isKnownChannel : Str → Bool
  /-- `String(n)` of a finite number. -/
  numberToString : ℚ → Str

/-- A process that knows one channel, for evaluation. -/
def RouteHost.telegramOnly : RouteHost where
  toHost := .asciiLinux
  isKnownChannel := (· = "telegram".toList)
  numberToString q := (Int.repr q.floor).toList

/-! ## Follow-up runs -/

/-- `string | number` as a thread id. -/
inductive RouteThreadId where
  | text (value : Str)
  | number (value : JsNumber)
deriving DecidableEq

structure ExecOverrides where
  host : Option Str
  security : Option Str
  ask : Option Str
  node : Option Str
deriving DecidableEq

structure BashElevated where
  enabled : Bool
  allowed : Bool
  defaultLevel : Str
deriving DecidableEq

/-- `FollowupRun["run"]`. -/
structure FollowupContext where
  senderId : Option Str
  senderName : Option Str
  senderUsername : Option Str
  senderE164 : Option Str
  senderIsOwner : Option Bool
  execOverrides : Option ExecOverrides
  bashElevated : Option BashElevated
deriving DecidableEq

structure FollowupImage where
  data : Str
  mimeType : Str
deriving DecidableEq

inductive PromptImageOrderEntry where
  | inline | offloaded
deriving DecidableEq

structure OriginRoutingMetadata where
  originatingChannel : Option Str
  originatingTo : Option Str
  originatingAccountId : Option Str
  originatingThreadId : Option RouteThreadId
deriving DecidableEq

structure FollowupRun extends OriginRoutingMetadata where
  prompt : Str
  messageId : Option Str
  summaryLine : Option Str
  images : Option (List FollowupImage)
  imageOrder : Option (List PromptImageOrderEntry)
  run : FollowupContext
deriving DecidableEq

/-- A text message without a route from this sender, for evaluation. -/
def FollowupRun.text (prompt sender : String) : FollowupRun where
  originatingChannel := none
  originatingTo := none
  originatingAccountId := none
  originatingThreadId := none
  prompt := prompt.toList
  messageId := none
  summaryLine := none
  images := none
  imageOrder := none
  run := ⟨some sender.toList, none, none, none, none, none, none⟩

/-- The same from a telegram chat, for evaluation. -/
def FollowupRun.telegram (prompt sender chat : String) : FollowupRun :=
  { FollowupRun.text prompt sender with
    originatingChannel := some "telegram".toList
    originatingTo := some chat.toList }

/-- A message of a queue; `id` is its identity as an object. -/
structure QueuedRun where
  id : ℕ
  followup : FollowupRun
deriving DecidableEq

/-! ## Account ids -/

/-- The class `[a-z0-9_-]`. -/
def isAccountIdChar (c : Char) : Bool :=
  ('a' ≤ c && c ≤ 'z') || ('0' ≤ c && c ≤ '9') || c = '_' || c = '-'

/-- `VALID_ID_RE.test(value)`. -/
def isValidAccountId (value : Str) : Bool :=
  match value with
  | [] => false
  | c :: rest =>
    isAccountIdChar c.toLower && c != '_' && c != '-' && rest.length ≤ 63 &&
      rest.all fun c => isAccountIdChar c.toLower

/-- `value.replace(INVALID_CHARS_RE, "-")`; the flag says that the unit before was replaced. -/
def replaceInvalidChars : Bool → Str → Str
  | _, [] => []
  | inRun, c :: rest =>
    if isAccountIdChar c then c :: replaceInvalidChars false rest
    else if inRun then replaceInvalidChars true rest
    else '-' :: replaceInvalidChars true rest

variable (host : RouteHost)

def canonicalizeAccountId (value : Str) : Str :=
  let normalized := normalizeLowercaseStringOrEmpty host.toHost value
  if isValidAccountId value then normalized
  else (((replaceInvalidChars false normalized).dropWhile (· = '-')).rdropWhile (· = '-')).take 64

def normalizeOptionalAccountId (value : Option Str) : Option Str :=
  (normalizeNonEmptyString value).bind fun trimmed =>
    let canonical := canonicalizeAccountId host trimmed
    if canonical = [] ∨ isBlockedObjectKey canonical then none else some canonical

/-! ## Channel routes -/

/-- `Math.trunc`. -/
def truncate (q : ℚ) : ℚ := if 0 ≤ q then q.floor else q.ceil

/-- `normalizeRouteThreadId`. -/
def normalizeRouteThreadId : Option RouteThreadId → Option RouteThreadId
  | some (.number (.finite q)) => some (.number (.finite (truncate q)))
  | some (.text value) => (normalizeNonEmptyString (some value)).map .text
  | _ => none

def stringifyRouteThreadId (value : Option RouteThreadId) : Option Str :=
  (normalizeRouteThreadId value).map fun
    | .text value => value
    | .number (.finite q) => host.numberToString q
    -- not a value that `normalizeRouteThreadId` returns
    | .number _ => []

/-- `ChannelRouteRef`, with the target's `to` and the thread's `id`. -/
structure ChannelRouteRef where
  channel : Option Str
  accountId : Option Str
  targetTo : Option Str
  threadId : Option RouteThreadId
deriving DecidableEq

variable (input : OriginRoutingMetadata)

def normalizeChannelRouteRef : Option ChannelRouteRef :=
  let channel := normalizeLowercaseStringOrEmpty host.toHost (input.originatingChannel.getD [])
  let accountId := normalizeOptionalAccountId host input.originatingAccountId
  let targetTo := normalizeNonEmptyString input.originatingTo
  let threadId := normalizeRouteThreadId input.originatingThreadId
  if channel = [] ∧ targetTo = none ∧ accountId = none ∧ threadId = none then none
  else some ⟨if channel = [] then none else some channel, accountId, targetTo, threadId⟩

/-- The four texts that the keys of a route are made of. -/
def ChannelRouteRef.parts (route : ChannelRouteRef) : List Str :=
  [route.channel.getD [], route.targetTo.getD [], route.accountId.getD [],
    (stringifyRouteThreadId host route.threadId).getD []]

def channelRouteDedupeKey : Str :=
  (Json.ofStrings (((normalizeChannelRouteRef host input).map (·.parts host)).getD
    [[], [], [], []])).stringify

def channelRouteCompactKey : Option Str :=
  (normalizeChannelRouteRef host input).bind fun normalized =>
    if normalized.channel = none ∨ normalized.targetTo = none then none
    else some (joinWith "|" (normalized.parts host))

/-- `followupRouteIdentityKey`. -/
def followupRouteIdentityKey (run : FollowupRun) : Str :=
  channelRouteDedupeKey host run.toOriginRoutingMetadata

/-! ## Routes of queued messages -/

/-- A string that counts as true. -/
def truthyString (value : Option Str) : Option Str := value.filter (· ≠ [])

/-- `threadId != null && threadId !== ""`. -/
def presentThreadId (value : Option RouteThreadId) : Option RouteThreadId :=
  value.filter (· ≠ .text [])

/-- One iteration of the loop of `resolveOriginRoutingMetadata`. -/
def OriginRoutingMetadata.fill (metadata item : OriginRoutingMetadata) : OriginRoutingMetadata where
  originatingChannel := metadata.originatingChannel.or (truthyString item.originatingChannel)
  originatingTo := metadata.originatingTo.or (truthyString item.originatingTo)
  originatingAccountId := metadata.originatingAccountId.or (truthyString item.originatingAccountId)
  originatingThreadId := metadata.originatingThreadId.or (presentThreadId item.originatingThreadId)

/-- The condition of its `break`. -/
def OriginRoutingMetadata.isComplete (metadata : OriginRoutingMetadata) : Bool :=
  metadata.originatingChannel.isSome && metadata.originatingTo.isSome &&
    metadata.originatingAccountId.isSome && metadata.originatingThreadId.isSome

def fillFrom (metadata : OriginRoutingMetadata) : List QueuedRun → OriginRoutingMetadata
  | [] => metadata
  | item :: rest =>
    let filled := metadata.fill item.followup.toOriginRoutingMetadata
    if filled.isComplete then filled else fillFrom filled rest

variable (items : List QueuedRun)

def resolveOriginRoutingMetadata : OriginRoutingMetadata :=
  fillFrom ⟨none, none, none, none⟩ items

def isRoutableChannel (channel : Option Str) : Bool :=
  (truthyString channel).any fun channel =>
    decide (channel ≠ "webchat".toList) && host.isKnownChannel channel

/-- `{ cross?: true; key?: string }`. -/
inductive CrossChannelKey where
  /-- No origin fields. -/
  | unkeyed
  | cross
  | key (key : Str)
deriving DecidableEq

/-- None of the origin fields of a message counts as present. -/
def OriginRoutingMetadata.isBlank : Bool :=
  (truthyString input.originatingChannel).isNone && (truthyString input.originatingTo).isNone &&
    (truthyString input.originatingAccountId).isNone &&
    (presentThreadId input.originatingThreadId).isNone

def resolveCrossChannelKey : CrossChannelKey :=
  if input.isBlank then .unkeyed
  else if !isRoutableChannel host input.originatingChannel ||
      (truthyString input.originatingTo).isNone then .cross
  else
    match channelRouteCompactKey host input with
    | some key => .key key
    | none => .cross

def QueuedRun.crossChannelKey (item : QueuedRun) : CrossChannelKey :=
  resolveCrossChannelKey host item.followup.toOriginRoutingMetadata

/-- The loop of `hasCrossChannelItems`, with the set of the keys so far. -/
def crossChannelLoop (keys : List Str) (hasUnkeyed : Bool) : List CrossChannelKey → Bool
  | [] =>
    if keys.length = 0 then false
    else if hasUnkeyed then true
    else decide (1 < keys.length)
  | .cross :: _ => true
  | .unkeyed :: rest => crossChannelLoop keys true rest
  | .key key :: rest => crossChannelLoop (keys.insert key) hasUnkeyed rest

def hasCrossChannelItems : Bool :=
  crossChannelLoop [] false (items.map (·.crossChannelKey host))

/-! ## Authorizations -/

def resolveFollowupAuthorizationKey (run : FollowupContext) : Str :=
  (Json.array [
    .string (run.senderId.getD []),
    .string (run.senderE164.getD []),
    .bool (run.senderIsOwner = some true),
    .string ((run.execOverrides.bind (·.host)).getD []),
    .string ((run.execOverrides.bind (·.security)).getD []),
    .string ((run.execOverrides.bind (·.ask)).getD []),
    .string ((run.execOverrides.bind (·.node)).getD []),
    .bool (run.bashElevated.any (·.enabled)),
    .bool (run.bashElevated.any (·.allowed)),
    .string ((run.bashElevated.map (·.defaultLevel)).getD [])]).stringify

def QueuedRun.authorizationKey (item : QueuedRun) : Str :=
  resolveFollowupAuthorizationKey item.followup.run

/-- The loop of `splitCollectItemsByAuthorization`. -/
def splitLoop (groups : List (List QueuedRun)) (currentGroup : List QueuedRun)
    (currentKey : Option Str) : List QueuedRun → List (List QueuedRun)
  | [] => if currentGroup = [] then groups else groups ++ [currentGroup]
  | item :: rest =>
    let itemKey := item.authorizationKey
    if currentGroup = [] ∨ currentKey = some itemKey then
      splitLoop groups (currentGroup ++ [item]) (some itemKey) rest
    else splitLoop (groups ++ [currentGroup]) [item] (some itemKey) rest

def splitCollectItemsByAuthorization : List (List QueuedRun) :=
  if items.length ≤ 1 then
    if items.length = 0 then [] else [items]
  else splitLoop [] [] none items

end OpenClaw
