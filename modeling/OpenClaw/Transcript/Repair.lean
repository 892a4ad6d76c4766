import OpenClaw.Transcript.Messages

/-!
# Repairing the pairing of tool calls and results

`repairToolUseResultPairing` of `session-transcript-repair.ts`. The outer loop goes on where the
inner one stopped, at the next turn with tool calls; it is written with as many steps as there
are messages.
-/

namespace OpenClaw

open Json

inductive ErroredAssistantResultPolicy where
  | preserve
  | drop
deriving DecidableEq

structure ToolUseResultPairingOptions where
  erroredAssistantResultPolicy : ErroredAssistantResultPolicy
  missingToolResultText : Option Str

/-! ## Results -/

def defaultMissingToolResultText : Str :=
  ("[openclaw] missing tool result in session history; inserted synthetic error result for " ++
    "transcript repair.").toList

variable (timestamp : Str)

/-- The synthetic result of a call, at the given time. -/
def makeMissingToolResult (text : Option Str) (call : ToolCallLike) : Json :=
  .object [("role".toList, .string "toolResult".toList),
    ("toolCallId".toList, .string call.id),
    ("toolName".toList, .string (call.name.getD "unknown".toList)),
    ("content".toList, .array [.object [("type".toList, .string "text".toList),
      ("text".toList, .string (text.getD defaultMissingToolResultText))]]),
    ("isError".toList, .bool true),
    ("timestamp".toList, .number timestamp)]

/-- The name that replaces the one of a result, where one does. -/
def replacedToolName (toolName fallbackName : Option Str) : Option Str :=
  match normalizeOptionalString toolName with
  | some normalized => if toolName = some normalized then none else some normalized
  | none =>
    match normalizeOptionalString fallbackName with
    | some normalizedFallback => some normalizedFallback
    | none => if toolName.isSome then some "unknown".toList else none

def normalizeToolResultName (message : Json) (fallbackName : Option Str) : Json :=
  match replacedToolName (stringField? message "toolName".toList) fallbackName with
  | some name => withStringField message "toolName".toList name
  | none => message

/-! ## The loops -/

structure ToolUseRepair where
  out : List Json
  added : List Json
  seenToolResultIds : List Str
  droppedDuplicateCount : Nat
  droppedOrphanCount : Nat
  moved : Bool
  changed : Bool

def ToolUseRepair.init : ToolUseRepair := ⟨[], [], [], 0, 0, false, false⟩

variable (report : ToolUseRepair)

def ToolUseRepair.push (msgs : List Json) : ToolUseRepair :=
  { report with out := report.out ++ msgs }

def pushToolResult (msg : Json) : ToolUseRepair :=
  match extractToolResultId msg with
  | none => report.push [msg]
  | some id =>
    if id ∈ report.seenToolResultIds then
      { report with
        droppedDuplicateCount := report.droppedDuplicateCount + 1
        changed := true }
    else
      { report.push [msg] with seenToolResultIds := id :: report.seenToolResultIds }

/-- `toolCallNamesById.get(id)`: a later call of the same id replaces the name. -/
def toolCallName? (toolCalls : List ToolCallLike) (id : Str) : Option Str :=
  (toolCalls.reverse.find? fun call => call.id = id && call.name.isSome).bind (·.name)

/-- What the inner loop keeps. -/
structure ToolResultSpan where
  spanResultsById : List (Str × Json)
  remainder : List Json
  droppedDuplicateCount : Nat
  droppedOrphanCount : Nat
  changed : Bool

/-- A tool result between the turn and the next one. -/
def ToolResultSpan.addResult (span : ToolResultSpan) (toolCalls : List ToolCallLike)
    (seenToolResultIds : List Str) (toolResult : Json) : ToolResultSpan :=
  match (extractToolResultId toolResult).filter fun id => id ∈ toolCalls.map (·.id) with
  | none =>
    { span with
      droppedOrphanCount := span.droppedOrphanCount + 1
      changed := true }
  | some id =>
    if id ∈ seenToolResultIds then
      { span with
        droppedDuplicateCount := span.droppedDuplicateCount + 1
        changed := true }
    else
      let name := toolCallName? toolCalls id
      { span with
        spanResultsById :=
          if (lookup span.spanResultsById id).isSome then span.spanResultsById
          else span.spanResultsById ++ [(id, normalizeToolResultName toolResult name)]
        changed := span.changed ||
          (replacedToolName (stringField? toolResult "toolName".toList) name).isSome }

/-- The inner loop, with the messages from the next turn on. -/
def scanSpan (toolCalls : List ToolCallLike) (seenToolResultIds : List Str) :
    ToolResultSpan → List Json → ToolResultSpan × List Json
  | span, [] => (span, [])
  | span, next :: rest =>
    if assistantHasToolCalls next then (span, next :: rest)
    else if isToolResult next then
      scanSpan toolCalls seenToolResultIds (span.addResult toolCalls seenToolResultIds next) rest
    else
      scanSpan toolCalls seenToolResultIds { span with remainder := span.remainder ++ [next] } rest

def stoppedWithError (assistant : Json) : Bool :=
  stringField? assistant "stopReason".toList = some "error".toList ||
    stringField? assistant "stopReason".toList = some "aborted".toList

/-- What follows the inner loop for a turn that did not fail. -/
def pushAnswers (timestamp : Str) (options : ToolUseResultPairingOptions)
    (spanResultsById : List (Str × Json)) : ToolUseRepair → List ToolCallLike → ToolUseRepair
  | report, [] => report
  | report, call :: calls =>
    match lookup spanResultsById call.id with
    | some existing =>
      pushAnswers timestamp options spanResultsById (pushToolResult report existing) calls
    | none =>
      let missing := makeMissingToolResult timestamp options.missingToolResultText call
      let report :=
        { report with
          added := report.added ++ [missing]
          changed := true }
      pushAnswers timestamp options spanResultsById (pushToolResult report missing) calls

/-- For a turn that failed, only the real results. -/
def pushRetained (spanResultsById : List (Str × Json)) :
    ToolUseRepair → List ToolCallLike → ToolUseRepair
  | report, [] => report
  | report, call :: calls =>
    match lookup spanResultsById call.id with
    | some result => pushRetained spanResultsById (pushToolResult report result) calls
    | none => pushRetained spanResultsById report calls

variable (options : ToolUseResultPairingOptions)

/-- A turn with tool calls, behind the inner loop. -/
def repairTurn (report : ToolUseRepair)
    (assistant : Json) (span : ToolResultSpan) : ToolUseRepair :=
  let toolCalls := extractToolCallsFromAssistant assistant
  let report :=
    { report with
      droppedDuplicateCount := report.droppedDuplicateCount + span.droppedDuplicateCount
      droppedOrphanCount := report.droppedOrphanCount + span.droppedOrphanCount
      changed := report.changed || span.changed }
  if stoppedWithError assistant then
    match options.erroredAssistantResultPolicy with
    | .preserve =>
      (pushRetained span.spanResultsById (report.push [assistant]) toolCalls).push span.remainder
    | .drop => { report with changed := true }.push span.remainder
  else
    let late := !span.spanResultsById.isEmpty && !span.remainder.isEmpty
    let report :=
      { report with
        moved := report.moved || late
        changed := report.changed || late }
    (pushAnswers timestamp options span.spanResultsById (report.push [assistant]) toolCalls).push
      span.remainder

def repairLoop (timestamp : Str) (options : ToolUseResultPairingOptions) :
    Nat → ToolUseRepair → List Json → ToolUseRepair
  | 0, report, _ => report
  | _, report, [] => report
  | fuel + 1, report, msg :: rest =>
    if assistantHasToolCalls msg then
      let (span, rest') := scanSpan (extractToolCallsFromAssistant msg) report.seenToolResultIds
        ⟨[], [], 0, 0, false⟩ rest
      repairLoop timestamp options fuel (repairTurn timestamp options report msg span) rest'
    else if isToolResult msg then
      repairLoop timestamp options fuel
        { report with
          droppedOrphanCount := report.droppedOrphanCount + 1
          changed := true }
        rest
    else repairLoop timestamp options fuel (report.push [msg]) rest

structure ToolUseRepairReport where
  messages : List Json
  added : List Json
  droppedDuplicateCount : Nat
  droppedOrphanCount : Nat
  moved : Bool

def repairToolUseResultPairing (messages : List Json) : ToolUseRepairReport :=
  let report := repairLoop timestamp options messages.length .init messages
  let changedOrMoved := report.changed || report.moved
  { messages := if changedOrMoved then report.out else messages
    added := report.added
    droppedDuplicateCount := report.droppedDuplicateCount
    droppedOrphanCount := report.droppedOrphanCount
    moved := changedOrMoved }

end OpenClaw
