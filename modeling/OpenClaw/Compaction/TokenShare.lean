import Mathlib.Algebra.Order.Floor.Semiring
import Mathlib.Data.Rat.Floor
import Mathlib.Tactic.Linarith
import OpenClaw.Transcript.Turns

/-!
# Splitting a history by token share

`splitMessagesByTokenShare` of `compaction.ts`. The estimate of a single message comes from the
agent package; it is a parameter here, and so may be any rational number.
-/

namespace OpenClaw

open Json

/-! ## Estimates -/

def openclawRuntimeContextCustomType : Str := "openclaw.runtime-context".toList

def isOpenClawRuntimeContextCustomMessage (message : Json) : Bool :=
  messageRole message = some "custom".toList &&
    stringField? message "customType".toList = some openclawRuntimeContextCustomType

variable (messages : List Json)

def stripRuntimeContextCustomMessages : List Json :=
  messages.filter fun message => !isOpenClawRuntimeContextCustomMessage message

/-- What `stripToolResultDetails` does with a message. -/
def withoutToolResultDetails (msg : Json) : Json :=
  match msg with
  | .object entries => if isToolResult msg then .object (erase entries "details".toList) else msg
  | _ => msg

def stripToolResultDetails : List Json :=
  messages.map withoutToolResultDetails

section

variable (estimateTokens : Json → ℚ)

def estimateMessagesTokens (messages : List Json) : ℚ :=
  let safe := stripToolResultDetails (stripRuntimeContextCustomMessages messages)
  safe.foldl (fun sum message => sum + estimateTokens message) 0

def estimateCompactionMessageTokens (message : Json) : ℚ :=
  estimateMessagesTokens estimateTokens [message]

/-! ## The split -/

def defaultParts : ℚ := 2

def normalizeParts (parts : ℚ) (messageCount : ℕ) : ℕ :=
  if parts ≤ 1 then 1 else min (max 1 ⌊parts⌋₊) (max 1 messageCount)

structure TokenShareSplit where
  chunks : List (List Json)
  current : List Json
  currentTokens : ℚ
  pendingToolCallIds : List Str
  pendingChunkStartIndex : Option ℕ

def TokenShareSplit.init : TokenShareSplit := ⟨[], [], 0, [], none⟩

variable (normalizedParts : ℕ) (split : TokenShareSplit)

def splitCurrentAtPendingBoundary : TokenShareSplit :=
  match split.pendingChunkStartIndex with
  | none => split
  | some index =>
    if index = 0 ∨ normalizedParts - 1 ≤ split.chunks.length then split
    else
      let current := split.current.drop index
      { split with
        chunks := split.chunks ++ [split.current.take index]
        current := current
        currentTokens :=
          current.foldl (fun sum msg => sum + estimateCompactionMessageTokens estimateTokens msg) 0
        pendingChunkStartIndex := some 0 }

variable (targetTokens : ℚ)

/-- A new chunk begins with the message where it would not fit. -/
def beginChunk (targetTokens messageTokens : ℚ) (split : TokenShareSplit) : TokenShareSplit :=
  if split.pendingToolCallIds = [] ∧ split.chunks.length < normalizedParts - 1 ∧
      split.current ≠ [] ∧ targetTokens < split.currentTokens + messageTokens then
    { split with
      chunks := split.chunks ++ [split.current]
      current := []
      currentTokens := 0
      pendingChunkStartIndex := none }
  else split

def pushMessage (messageTokens : ℚ) (split : TokenShareSplit) (message : Json) : TokenShareSplit :=
  { split with
    current := split.current ++ [message]
    currentTokens := split.currentTokens + messageTokens }

/-- A result that names no call ends the waiting for the others. -/
def answerPending (toolResult : Json) : TokenShareSplit :=
  match extractToolResultId toolResult with
  | none =>
    { split with
      pendingToolCallIds := []
      pendingChunkStartIndex := none }
  | some resultId =>
    { split with pendingToolCallIds := split.pendingToolCallIds.filter (· ≠ resultId) }

/-- Which calls are pending behind the message, which is the last one of `current`. -/
def trackPending (split : TokenShareSplit) (message : Json) : TokenShareSplit :=
  if isAssistant message then
    let toolCalls := extractToolCallsFromAssistant message
    let keepsPending := !stoppedWithError message && !toolCalls.isEmpty
    { split with
      pendingToolCallIds := if keepsPending then toolCalls.map (·.id) else []
      pendingChunkStartIndex := if keepsPending then some (split.current.length - 1) else none }
  else if isToolResult message ∧ split.pendingToolCallIds ≠ [] then
    let split := answerPending split message
    if split.pendingToolCallIds = [] ∧ split.chunks.length < normalizedParts - 1 ∧
        targetTokens < split.currentTokens then
      { splitCurrentAtPendingBoundary estimateTokens normalizedParts split with
        pendingChunkStartIndex := none }
    else split
  else split

def splitStep (split : TokenShareSplit) (message : Json) : TokenShareSplit :=
  let messageTokens := estimateCompactionMessageTokens estimateTokens message
  let split := beginChunk normalizedParts targetTokens messageTokens split
  let split := pushMessage messageTokens split message
  trackPending estimateTokens normalizedParts targetTokens split message

/-- What follows the loop. -/
def finishSplit (split : TokenShareSplit) : List (List Json) :=
  let split :=
    if split.pendingToolCallIds ≠ [] ∧ targetTokens < split.currentTokens then
      splitCurrentAtPendingBoundary estimateTokens normalizedParts split
    else split
  if split.current ≠ [] then split.chunks ++ [split.current] else split.chunks

def splitMessagesByTokenShare (messages : List Json) (parts : ℚ) : List (List Json) :=
  if messages = [] then []
  else
    let normalizedParts := normalizeParts parts messages.length
    if normalizedParts ≤ 1 then [messages]
    else
      let totalTokens := estimateMessagesTokens estimateTokens messages
      let targetTokens := totalTokens / normalizedParts
      finishSplit estimateTokens normalizedParts targetTokens
        (messages.foldl (splitStep estimateTokens normalizedParts targetTokens) .init)

end

end OpenClaw
