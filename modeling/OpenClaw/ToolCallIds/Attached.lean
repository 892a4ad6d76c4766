import OpenClaw.Lib.Ledger
import OpenClaw.ToolCallIds.Rewritten

/-!
# Results and the calls they belong to

What it means that sanitized ids keep results attached to their calls. Which of the open calls a
result belongs to is left open: the first one of all, or the first one of the latest turn.
-/

namespace OpenClaw

open Json List

/-! ## Calls and their results -/

/-- A call: the message it is in, its place there, and its raw id. -/
structure CallRef where
  turn : ℕ
  index : ℕ
  id : Str
deriving DecidableEq

def callRefs (turn : ℕ) (message : Json) : List CallRef :=
  (toolCallIds message).zipIdx.map fun call => ⟨turn, call.2, call.1⟩

variable (messages : List Json)

/-- The id that a list of messages gives to a call. -/
def callIdAt (ref : CallRef) : Option Str :=
  (messages[ref.turn]?).bind fun message => (toolCallIds message)[ref.index]?

/-- The calls that are not answered, and the call that each message answers. -/
structure Attribution where
  unanswered : List CallRef
  owners : List (Option CallRef)

variable (pick : Str → List CallRef → Option CallRef)

def attributeMessage (a : Attribution) (message : Json) : Attribution :=
  if isAssistant message then
    ⟨a.unanswered ++ callRefs a.owners.length message, a.owners ++ [none]⟩
  else if isToolResult message then
    match (extractToolResultId message).bind (pick · a.unanswered) with
    | some ref => ⟨a.unanswered.erase ref, a.owners ++ [some ref]⟩
    | none => ⟨a.unanswered, a.owners ++ [none]⟩
  else ⟨a.unanswered, a.owners ++ [none]⟩

/-- For each message the call that it answers. -/
def answeredCalls (messages : List Json) : List (Option CallRef) :=
  (messages.foldl (attributeMessage pick) ⟨[], []⟩).owners

/-- The first open call with the id. -/
def earliestCall (id : Str) (unanswered : List CallRef) : Option CallRef :=
  Ledger.oldest CallRef.id id unanswered

/-- The first open call with the id in the latest turn that has one. -/
def latestTurnCall (id : Str) (unanswered : List CallRef) : Option CallRef :=
  let calls := Ledger.ofKey CallRef.id id unanswered
  calls.find? fun ref => calls.all fun other => other.turn ≤ ref.turn

/-! ## The ids of a list of messages -/

/-- The ids of all calls. -/
def assistantCallIds : List Str :=
  messages.flatMap fun message => if isAssistant message then toolCallIds message else []

/-- From a message on, the ids of the calls that are kept with their turns. -/
def keptFrom (kept : List ℕ) : ℕ → List Json → List Str
  | _, [] => []
  | index, message :: rest =>
    (if index ∈ kept then toolCallIds message else []) ++ keptFrom kept (index + 1) rest

/-- From a message on, the raw ids of the calls that are resolved. -/
def resolvedFrom (kept : List ℕ) : ℕ → List Json → List Str
  | _, [] => []
  | index, message :: rest =>
    (if isAssistant message ∧ index ∉ kept then toolCallIds message else []) ++
      resolvedFrom kept (index + 1) rest

/-- The text that the id of a call is made from: its raw id, with a number from the second
occurrence on. -/
def callSeed (kept : List ℕ) (messages : List Json) (ref : CallRef) : Str :=
  occurrenceSeed ref.id ((resolvedFrom kept 0 (messages.take ref.turn) ++
    (toolCallIds (messages[ref.turn]?.getD .null)).take ref.index).count ref.id + 1)

section

variable (host : ToolIdHost) (mode : ToolCallIdMode) (options : ToolIdSanitizeOptions)

/-- An id that is kept on purpose: its turn is replayed as it is, or it has the native form. -/
def KeptOnPurpose (kept : List ℕ) (ref : CallRef) (id : Str) : Prop :=
  id = ref.id ∧ (ref.turn ∈ kept ∨
    options.preserveNativeAnthropicToolUseIds = true ∧ isNativeAnthropicToolUseId ref.id = true)

/-- The output keeps each result attached to its call. `excused` are the ids of which it is not
asked that they are valid. -/
structure KeepsResultsAttached (pick : Str → List CallRef → Option CallRef)
    (excused : CallRef → Str → Prop) (messages out : List Json) : Prop where
  /-- Nothing but ids changes. -/
  same : List.Forall₂ SameButIds messages out
  calls_nodup : (assistantCallIds out).Nodup
  calls_valid : ∀ (turn : ℕ) (message : Json), messages[turn]? = some message →
    isAssistant message = true → ∀ ref ∈ callRefs turn message, ∃ id, callIdAt out ref = some id ∧
      (KeptOnPurpose options (replaySafeThinking host options messages).2 ref id ∨
        id.length ≤ maxToolIdLen ∧
          (isValidCloudCodeAssistToolId id mode = true ∨ excused ref id))
  attached : ∀ (index : ℕ) (ref : CallRef),
    (answeredCalls pick messages)[index]? = some (some ref) →
      ∃ id message, callIdAt out ref = some id ∧ out[index]? = some message ∧
        ∀ given, given ∈ resultIds message ↔ given = id
  orphans : ∀ (index : ℕ) (message : Json), out[index]? = some message →
    isToolResult message = true → (answeredCalls pick messages)[index]? = some none →
      ∀ given ∈ resultIds message, given ∉ assistantCallIds out

/-- An id made from a text in the native form that had to be changed. -/
def ChangedNativeId (messages : List Json) (ref : CallRef) (id : Str) : Prop :=
  let seed := callSeed (replaySafeThinking host options messages).2 messages ref
  mode = .strict ∧ isNativeKimiToolCallId seed = true ∧ id ≠ seed

end

/-! ## Looking up calls -/

theorem callIdAt_append {messages : List Json} {ref : CallRef} {id : Str}
    (h : callIdAt messages ref = some id) (more : List Json) :
    callIdAt (messages ++ more) ref = some id := by
  unfold callIdAt at h ⊢
  cases hmessage : messages[ref.turn]? with
  | none =>
    rw [hmessage] at h
    cases h
  | some message =>
    have hlt := (List.getElem?_eq_some_iff.mp hmessage).1
    rw [getElem?_append_left hlt]
    exact h

theorem mem_callRefs {turn : ℕ} {message : Json} {ref : CallRef} : ref ∈ callRefs turn message ↔
      ref.turn = turn ∧ (toolCallIds message)[ref.index]? = some ref.id := by
  unfold callRefs
  rw [mem_map]
  constructor
  · rintro ⟨⟨id, index⟩, hmem, rfl⟩
    exact ⟨rfl, mem_zipIdx_iff_getElem?.mp hmem⟩
  · rintro ⟨rfl, hid⟩
    exact ⟨(ref.id, ref.index), mem_zipIdx_iff_getElem?.mpr hid, rfl⟩

@[simp]
theorem assistantCallIds_append (messages more : List Json) :
    assistantCallIds (messages ++ more) = assistantCallIds messages ++ assistantCallIds more :=
  flatMap_append

theorem resolvedFrom_append (kept : List ℕ) (index : ℕ) (messages more : List Json) :
    resolvedFrom kept index (messages ++ more) =
      resolvedFrom kept index messages ++ resolvedFrom kept (index + messages.length) more := by
  induction messages generalizing index with
  | nil => rfl
  | cons message messages ih =>
    rw [cons_append, resolvedFrom, ih, resolvedFrom, append_assoc, length_cons]
    have hindex : index + 1 + messages.length = index + (messages.length + 1) := by omega
    rw [hindex]

end OpenClaw
