import OpenClaw.ToolCallIds.Ids
import OpenClaw.Transcript.Messages

/-!
# The resolver of ids

`createOccurrenceAwareResolver` and `sanitizeToolCallIdsForCloudCodeAssist`. The closures share
one state, which is passed on from call to call.
-/

namespace OpenClaw

/-! ## Turns whose calls are replayed as they are

`collectReplaySafeThinkingToolIds` of `tool-call-id.ts`, with the checks of `tool-call-shared.ts`. -/

open Json

/-! ## Names and attachments -/

variable (host : Host)

def normalizeAllowedToolNames (allowedToolNames : Option (List Str)) : Option (List Str) :=
  allowedToolNames.bind fun names =>
    let normalized := (names.filter fun name => trim name ≠ []).map
      (normalizeLowercaseStringOrEmpty host ∘ trim)
    if normalized = [] then none else some normalized

/-- `/^[A-Za-z0-9_:.-]+$/` on a text that is not empty. -/
def isToolCallName (name : Str) : Bool :=
  name.all fun c => c.isAlphanum || c = '_' || c = ':' || c = '.' || c = '-'

def isAllowedToolCallName (name : Option Str) (allowedToolNames : Option (List Str)) : Bool :=
  match name with
  | none => false
  | some name =>
    let trimmed := trim name
    if trimmed = [] then false
    else if 64 < jsLength trimmed || !isToolCallName trimmed then false
    else
      match allowedToolNames with
      | none => true
      | some allowed => normalizeLowercaseStringOrEmpty host trimmed ∈ allowed

def isRedactedSessionsSpawnAttachment (item : Json) : Bool :=
  match item with
  | .object attachment =>
    stringField? item "content".toList = some "__OPENCLAW_REDACTED__".toList &&
      attachment.all fun entry =>
        entry.1 = "content".toList ||
          (entry.1 ∈ ["name".toList, "encoding".toList, "mimeType".toList] &&
            match entry.2 with
            | .string value => !(trim value).isEmpty
            | _ => false)
  | _ => false

variable (block : Json)

def hasUnredactedSessionsSpawnAttachments (host : Host) (block : Json) : Bool :=
  let rawName := ((stringField? block "name".toList).map trim).getD []
  normalizeLowercaseStringOrEmpty host rawName = "sessions_spawn".toList &&
    ["arguments".toList, "input".toList].any fun key =>
      match (block.get? key).bind (Json.get? · "attachments".toList) with
      | some (.array attachments) => attachments.any (!isRedactedSessionsSpawnAttachment ·)
      | _ => false

/-! ## Turns -/

def isThinkingLikeBlock : Bool :=
  stringField? block "type".toList = some "thinking".toList ||
    stringField? block "type".toList = some "redacted_thinking".toList

/-- A field that is there and not `null`. -/
def hasValue (key : Str) : Bool :=
  match block.get? key with
  | none | some .null => false
  | some _ => true

def hasToolCallInput : Bool :=
  hasValue block "input".toList || hasValue block "arguments".toList

def toolCallNeedsReplayMutation (host : Host) (block : Json) : Bool :=
  match stringField? block "name".toList with
  | some rawName => rawName ≠ [] && rawName ≠ trim rawName ||
      hasUnredactedSessionsSpawnAttachments host block
  | none => hasUnredactedSessionsSpawnAttachments host block

def isToolCallBlock : Bool :=
  ((stringField? block "type".toList).map fun type => decide (type ∈ toolCallTypes)).getD false

/-- The loop over the blocks. -/
def areReplaySafe (host : Host) (allowedToolNames : Option (List Str)) :
    Bool → Bool → List Str → List Json → Bool
  | sawThinking, sawToolCall, _, [] => sawThinking && sawToolCall
  | sawThinking, sawToolCall, seen, block :: rest =>
    if isThinkingLikeBlock block then areReplaySafe host allowedToolNames true sawToolCall seen rest
    else if isToolCallBlock block then
      let toolCallId := ((stringField? block "id".toList).map trim).getD []
      if !hasToolCallInput block || toolCallId = [] || toolCallId ∈ seen ||
          !isAllowedToolCallName host (stringField? block "name".toList) allowedToolNames ||
          toolCallNeedsReplayMutation host block then
        false
      else areReplaySafe host allowedToolNames sawThinking true (seen ++ [toolCallId]) rest
    else areReplaySafe host allowedToolNames sawThinking sawToolCall seen rest

variable (message : Json)

def isReplaySafeThinkingAssistantMessage (host : Host) (message : Json)
    (allowedToolNames : Option (List Str)) : Bool :=
  match message.get? "content".toList with
  | some (.array content) => areReplaySafe host allowedToolNames false false [] content
  | _ => false

/-- The raw ids of the calls of a message. -/
def toolCallIds : List Str :=
  (extractToolCallsFromAssistant message).map (·.id)

/-- From a message on, the reserved ids and the indexes of the preserved turns. -/
def collectReplaySafeFrom (host : Host) (allowedToolNames : Option (List Str)) :
    ℕ → List Str → List Json → List Str × List ℕ
  | _, reserved, [] => (reserved, [])
  | index, reserved, message :: rest =>
    if isAssistant message && isReplaySafeThinkingAssistantMessage host message allowedToolNames &&
        !(toolCallIds message).any (· ∈ reserved) then
      let (reservedIds, preservedIndexes) :=
        collectReplaySafeFrom host allowedToolNames (index + 1) (reserved ++ toolCallIds message) rest
      (reservedIds, index :: preservedIndexes)
    else collectReplaySafeFrom host allowedToolNames (index + 1) reserved rest

def collectReplaySafeThinkingToolIds (messages : List Json)
    (allowedToolNames : Option (List Str)) : List Str × List ℕ :=
  collectReplaySafeFrom host allowedToolNames 0 [] messages

/-! ## The resolver of ids -/

/-- What the closures share. -/
structure ToolIdResolver where
  used : List Str
  assistantOccurrences : Str → ℕ
  orphanToolResultOccurrences : Str → ℕ
  /-- No entry is the empty list. -/
  pendingByRawId : Str → List Str
  /-- How often `Date.now()` was read. -/
  clockReads : ℕ

def ToolIdResolver.init (reservedIds : List Str) : ToolIdResolver :=
  ⟨reservedIds, fun _ => 0, fun _ => 0, fun _ => [], 0⟩

structure ToolIdSanitizeOptions where
  preserveNativeAnthropicToolUseIds : Bool
  preserveReplaySafeThinkingToolCallIds : Bool
  allowedToolNames : Option (List Str)

section

variable (host : ToolIdHost) (mode : ToolCallIdMode) (options : ToolIdSanitizeOptions)

variable (r : ToolIdResolver)

/-- `makeUniqueToolId`, and the id is in use from now on. -/
def ToolIdResolver.allocate (seed : Str) : Str × ToolIdResolver :=
  match firstFreeToolId host mode seed r.used with
  | some next => (next, { r with used := next :: r.used })
  | none =>
    let next := clockToolId host mode seed (host.dateNow r.clockReads)
    (next, { r with used := next :: r.used, clockReads := r.clockReads + 1 })

variable (id : Str) (occurrence : ℕ)

/-- An id that is kept, where that is asked for. -/
def keepsNativeAnthropicId : Bool :=
  options.preserveNativeAnthropicToolUseIds && isNativeAnthropicToolUseId id &&
    occurrence = 1 && id ∉ r.used

/-- `occurrence === 1 ? id : `${id}:${occurrence}`` -/
def occurrenceSeed : Str :=
  if occurrence = 1 then id else id ++ ':' :: decimal occurrence

def ToolIdResolver.allocatePreservingNativeAnthropicId : Str × ToolIdResolver :=
  if keepsNativeAnthropicId options r id occurrence then (id, { r with used := id :: r.used })
  else r.allocate host mode (occurrenceSeed id occurrence)

def ToolIdResolver.pushPending (id next : Str) : ToolIdResolver :=
  { r with
    pendingByRawId := Function.update r.pendingByRawId id (r.pendingByRawId id ++ [next]) }

def ToolIdResolver.resolveAssistantId : Str × ToolIdResolver :=
  let occurrence := r.assistantOccurrences id + 1
  let counted :=
    { r with assistantOccurrences := Function.update r.assistantOccurrences id occurrence }
  let (next, allocated) :=
    counted.allocatePreservingNativeAnthropicId host mode options id occurrence
  (next, allocated.pushPending id next)

/-- `${id}:tool_result:${occurrence}` -/
def orphanSeed : Str :=
  id ++ (":tool_result:".toList ++ decimal occurrence)

def ToolIdResolver.resolveToolResultId : Str × ToolIdResolver :=
  match r.pendingByRawId id with
  | next :: pending =>
    (next, { r with pendingByRawId := Function.update r.pendingByRawId id pending })
  | [] =>
    let occurrence := r.orphanToolResultOccurrences id + 1
    let counted :=
      { r with
        orphanToolResultOccurrences :=
          Function.update r.orphanToolResultOccurrences id occurrence }
    if keepsNativeAnthropicId options counted id occurrence then
      (id, { counted with used := id :: counted.used })
    else counted.allocate host mode (orphanSeed id occurrence)

def ToolIdResolver.preserveAssistantId : ToolIdResolver :=
  { r with used := id :: r.used }.pushPending id id

/-! ## Rewriting messages -/

/-- `content.map`, with whether a block changed. -/
def rewriteToolCallBlocks (r : ToolIdResolver) : List Json → List Json × Bool × ToolIdResolver
  | [] => ([], false, r)
  | block :: rest =>
    match toolCallOfBlock? block with
    | none =>
      let (blocks, changed, after) := rewriteToolCallBlocks r rest
      (block :: blocks, changed, after)
    | some call =>
      let (nextId, resolved) := r.resolveAssistantId host mode options call.id
      let (blocks, changed, after) := rewriteToolCallBlocks resolved rest
      if nextId = call.id then (block :: blocks, changed, after)
      else (withStringField block "id".toList nextId :: blocks, true, after)

/-- `{ ...message, content: blocks }`. -/
def withContent (blocks : List Json) : Json :=
  match message with
  | .object entries => .object (insert entries "content".toList (.array blocks))
  | _ => .object [("content".toList, .array blocks)]

/-- `none` where the message is returned as it is. -/
def rewriteAssistantToolCallIds (message : Json) : Option Json × ToolIdResolver :=
  match message.get? "content".toList with
  | some (.array content) =>
    let (next, changed, after) := rewriteToolCallBlocks host mode options r content
    (if changed then some (withContent message next) else none, after)
  | _ => (none, r)

/-- A string field that is not empty. -/
def idField? (key : Str) : Option Str :=
  (stringField? message key).filter (· ≠ [])

/-- `...(id && { [key]: id })` -/
def withIdField (key : Str) (id : Option Str) : Json :=
  match id with
  | some id => withStringField message key id
  | none => message

def resolveIdField (id : Option Str) : Option Str × ToolIdResolver :=
  match id with
  | none => (none, r)
  | some id =>
    let (next, after) := r.resolveToolResultId host mode options id
    (some next, after)

/-- One id that both fields share is resolved once. -/
def resolveIdFields (toolCallId toolUseId : Option Str) :
    Option Str × Option Str × ToolIdResolver :=
  if toolCallId.isSome ∧ toolCallId = toolUseId then
    let (shared, after) := resolveIdField host mode options r toolCallId
    (shared, shared, after)
  else
    let (nextToolCallId, between) := resolveIdField host mode options r toolCallId
    let (nextToolUseId, after) := resolveIdField host mode options between toolUseId
    (nextToolCallId, nextToolUseId, after)

/-- `none` where the message is returned as it is. -/
def rewriteToolResultIds (message : Json) : Option Json × ToolIdResolver :=
  let toolCallId := idField? message "toolCallId".toList
  let toolUseId := idField? message "toolUseId".toList
  let (nextToolCallId, nextToolUseId, after) :=
    resolveIdFields host mode options r toolCallId toolUseId
  if nextToolCallId = toolCallId ∧ nextToolUseId = toolUseId then (none, after)
  else
    (some (withIdField (withIdField message "toolCallId".toList nextToolCallId) "toolUseId".toList
      nextToolUseId), after)

/-! ## All messages -/

structure ToolIdSanitizing where
  resolver : ToolIdResolver
  out : List Json
  changed : Bool

/-- The callback of `messages.map`. -/
def sanitizeMessage (preservedIndexes : List ℕ) (s : ToolIdSanitizing) (msg : Json) :
    ToolIdSanitizing :=
  if isAssistant msg then
    if s.out.length ∈ preservedIndexes then
      { s with
        resolver := (toolCallIds msg).foldl ToolIdResolver.preserveAssistantId s.resolver
        out := s.out ++ [msg] }
    else
      let (next, after) := rewriteAssistantToolCallIds host mode options s.resolver msg
      ⟨after, s.out ++ [next.getD msg], s.changed || next.isSome⟩
  else if isToolResult msg then
    let (next, after) := rewriteToolResultIds host mode options s.resolver msg
    ⟨after, s.out ++ [next.getD msg], s.changed || next.isSome⟩
  else { s with out := s.out ++ [msg] }

variable (messages : List Json)

def replaySafeThinking : List Str × List ℕ :=
  if options.preserveReplaySafeThinkingToolCallIds then
    collectReplaySafeThinkingToolIds host.toHost messages
      (normalizeAllowedToolNames host.toHost options.allowedToolNames)
  else ([], [])

def sanitizeRun : ToolIdSanitizing :=
  let kept := replaySafeThinking host options messages
  messages.foldl (sanitizeMessage host mode options kept.2) ⟨.init kept.1, [], false⟩

def sanitizeToolCallIdsForCloudCodeAssist : List Json :=
  let run := sanitizeRun host mode options messages
  if run.changed then run.out else messages

end

end OpenClaw
