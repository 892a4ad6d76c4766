import OpenClaw.Transcript.Repair

/-!
# What the repair rebuilds

A transcript is what comes before the first turn with tool calls, and then turns, each with the
messages up to the next one. The loop rebuilds it turn by turn; from one turn to the next it only
carries which ids have been answered.
-/

namespace OpenClaw

open Json List Option

/-- A turn with tool calls and the messages up to the next one. -/
structure ToolTurn where
  assistant : Json
  span : List Json

def splitTurns : List Json → List Json × List ToolTurn
  | [] => ([], [])
  | msg :: rest =>
    if assistantHasToolCalls msg then ([], ⟨msg, (splitTurns rest).1⟩ :: (splitTurns rest).2)
    else (msg :: (splitTurns rest).1, (splitTurns rest).2)

/-- What is no tool result. -/
def others (msgs : List Json) : List Json := msgs.filter fun msg => !isToolResult msg

/-- The first real result for an id. -/
def firstResult? (span : List Json) (id : Str) : Option Json :=
  span.find? fun msg => isToolResult msg && extractToolResultId msg = some id

namespace ToolTurn

variable (turn : ToolTurn)

def calls : List ToolCallLike := extractToolCallsFromAssistant turn.assistant

def Failed : Prop := stoppedWithError turn.assistant = true

instance (turn : ToolTurn) : Decidable turn.Failed := inferInstanceAs (Decidable (_ = true))

/-- The turn is left out. -/
def Dropped (options : ToolUseResultPairingOptions) : Prop :=
  turn.Failed ∧ options.erroredAssistantResultPolicy = .drop

instance (turn : ToolTurn) (options : ToolUseResultPairingOptions) :
    Decidable (turn.Dropped options) := inferInstanceAs (Decidable (_ ∧ _))

/-- The real result of a call, under the name it is kept with. -/
def realResult? (call : ToolCallLike) : Option Json :=
  (firstResult? turn.span call.id).map (normalizeToolResultName · call.name)

end ToolTurn

variable {timestamp : Str} {options : ToolUseResultPairingOptions} {turn : ToolTurn}
  {messages span : List Json} {seen : List Str}

/-! ## Splitting -/

variable (messages)

theorem splitTurns_fst :
    (splitTurns messages).1 = messages.takeWhile fun msg => !assistantHasToolCalls msg := by
  induction messages with
  | nil => rfl
  | cons msg rest ih =>
    rw [splitTurns, takeWhile_cons]
    cases h : assistantHasToolCalls msg with
    | true => simp
    | false => simp [ih]

theorem splitTurns_dropWhile :
    splitTurns (messages.dropWhile fun msg => !assistantHasToolCalls msg) =
      ([], (splitTurns messages).2) := by
  induction messages with
  | nil => rfl
  | cons msg rest ih =>
    rw [dropWhile_cons]
    cases h : assistantHasToolCalls msg with
    | true => simp [splitTurns, h]
    | false => simp [splitTurns, h, ih]

/-- Putting the parts together again. -/
def joinTurns (turns : List ToolTurn) : List Json :=
  turns.flatMap fun turn => turn.assistant :: turn.span

theorem append_joinTurns_splitTurns :
    (splitTurns messages).1 ++ joinTurns (splitTurns messages).2 = messages := by
  induction messages with
  | nil => rfl
  | cons msg rest ih =>
    rw [splitTurns]
    split_ifs
    · show msg :: ((splitTurns rest).1 ++ joinTurns (splitTurns rest).2) = _
      rw [ih]
    · rw [cons_append, ih]

variable {messages}

/-- A turn that `splitTurns` finds. -/
def ToolTurn.WellPlaced (turn : ToolTurn) : Prop :=
  assistantHasToolCalls turn.assistant = true ∧
    ∀ msg ∈ turn.span, assistantHasToolCalls msg = false

theorem not_assistantHasToolCalls_of_mem_splitTurns {msg : Json}
    (h : msg ∈ (splitTurns messages).1) : assistantHasToolCalls msg = false := by
  rw [splitTurns_fst] at h
  have hnot := mem_takeWhile_imp h
  simpa using hnot

theorem wellPlaced_of_mem_splitTurns (h : turn ∈ (splitTurns messages).2) : turn.WellPlaced := by
  induction messages with
  | nil => cases h
  | cons msg rest ih =>
    rw [splitTurns] at h
    split_ifs at h with hcalls
    · rcases mem_cons.mp h with rfl | hrest
      · exact ⟨hcalls, fun _ => not_assistantHasToolCalls_of_mem_splitTurns⟩
      · exact ih hrest
    · exact ih h

/-- There is one way to split. -/
theorem splitTurns_append_joinTurns {before : List Json} {turns : List ToolTurn}
    (hbefore : ∀ msg ∈ before, assistantHasToolCalls msg = false)
    (hturns : ∀ turn ∈ turns, turn.WellPlaced) :
    splitTurns (before ++ joinTurns turns) = (before, turns) := by
  induction before with
  | cons msg before ih =>
    rw [forall_mem_cons] at hbefore
    rw [cons_append, splitTurns, ih hbefore.2, hbefore.1]
    rfl
  | nil =>
    induction turns with
    | nil => rfl
    | cons turn turns ih =>
      rw [forall_mem_cons] at hturns
      obtain ⟨hassistant, hspan⟩ := hturns.1
      have hrest : splitTurns (turn.span ++ joinTurns turns) = (turn.span, turns) := by
        clear hassistant
        generalize turn.span = span at hspan
        induction span with
        | nil => exact ih hturns.2
        | cons msg span ihspan =>
          rw [forall_mem_cons] at hspan
          rw [cons_append, splitTurns, ihspan hspan.2, hspan.1]
          rfl
      show splitTurns (turn.assistant :: (turn.span ++ joinTurns turns)) = _
      rw [splitTurns, if_pos hassistant, hrest]

/-! ## Ids and names -/

variable {call : ToolCallLike} {message : Json} {calls : List ToolCallLike} {id : Str}

theorem extractToolResultId_makeMissingToolResult (h : call.id ≠ [])
    (timestamp : Str) (text : Option Str) :
    extractToolResultId (makeMissingToolResult timestamp text call) = some call.id := by
  have hid : stringField? (makeMissingToolResult timestamp text call) "toolCallId".toList =
      some call.id := rfl
  rw [extractToolResultId, hid, filter_some, if_pos (decide_eq_true h), some_or]

theorem isToolResult_makeMissingToolResult (timestamp : Str) (text : Option Str)
    (call : ToolCallLike) : isToolResult (makeMissingToolResult timestamp text call) = true := rfl

theorem isToolResult_withStringField_toolName (h : isToolResult message = true)
    (name : Str) : isToolResult (withStringField message "toolName".toList name) = true := by
  have hobject : message.isObject = true := isObject_of_stringField? (of_decide_eq_true h)
  rw [isToolResult, messageRole, stringField?_withStringField_of_ne hobject (by decide)]
  exact h

theorem isToolResult_normalizeToolResultName (h : isToolResult message = true)
    (name : Option Str) : isToolResult (normalizeToolResultName message name) = true := by
  unfold normalizeToolResultName
  split
  · exact isToolResult_withStringField_toolName h _
  · exact h

theorem extractToolResultId_normalizeToolResultName
    (h : isToolResult message = true) (name : Option Str) :
    extractToolResultId (normalizeToolResultName message name) = extractToolResultId message := by
  have hobject : message.isObject = true := isObject_of_stringField? (of_decide_eq_true h)
  unfold normalizeToolResultName
  split
  · rw [extractToolResultId, stringField?_withStringField_of_ne hobject (by decide),
      stringField?_withStringField_of_ne hobject (by decide), extractToolResultId]
  · rfl

theorem ne_nil_of_mem_extractToolCalls {assistant : Json}
    (h : call ∈ extractToolCallsFromAssistant assistant) : call.id ≠ [] := by
  unfold extractToolCallsFromAssistant at h
  split at h
  · obtain ⟨block, _, hblock⟩ := mem_filterMap.mp h
    unfold toolCallOfBlock? at hblock
    split at hblock
    · split_ifs at hblock with hid
      cases hblock
      exact hid.1
    · cases hblock
  · cases h

/-- With distinct ids, a call has its own name. -/
theorem toolCallName?_of_mem (hnodup : (calls.map (·.id)).Nodup) (h : call ∈ calls) :
    toolCallName? calls call.id = call.name := by
  unfold toolCallName?
  cases hfind : calls.reverse.find? fun other => other.id = call.id && other.name.isSome with
  | some other =>
    have hmem := mem_reverse.mp (mem_of_find?_eq_some hfind)
    have hid : other.id = call.id := by
      have hother := find?_some hfind
      rw [Bool.and_eq_true, decide_eq_true_eq] at hother
      exact hother.1
    rw [inj_on_of_nodup_map hnodup hmem h hid]
    rfl
  | none =>
    have hnot := find?_eq_none.mp hfind call (mem_reverse.mpr h)
    cases hname : call.name with
    | none => rfl
    | some name => simp [hname] at hnot

theorem firstResult?_cons (next : Json) (span : List Json) (id : Str) :
    firstResult? (next :: span) id =
      if isToolResult next = true ∧ extractToolResultId next = some id then some next
      else firstResult? span id := by
  unfold firstResult?
  rw [find?_cons]
  by_cases hnext : isToolResult next = true ∧ extractToolResultId next = some id
  · simp [hnext]
  · rw [if_neg hnext]
    cases hresult : isToolResult next with
    | false => simp
    | true =>
      rw [hresult] at hnext
      simp only [true_and] at hnext
      simp [hnext]

theorem firstResult?_spec {result : Json} (h : firstResult? span id = some result) :
    isToolResult result = true ∧ extractToolResultId result = some id := by
  have hresult := find?_some h
  rwa [Bool.and_eq_true, decide_eq_true_eq] at hresult

theorem ToolTurn.realResult?_spec {result : Json} (h : turn.realResult? call = some result) :
    isToolResult result = true ∧ extractToolResultId result = some call.id := by
  obtain ⟨message, hmessage, rfl⟩ := Option.map_eq_some_iff.mp h
  obtain ⟨hresult, hid⟩ := firstResult?_spec hmessage
  exact ⟨isToolResult_normalizeToolResultName hresult call.name,
    (extractToolResultId_normalizeToolResultName hresult call.name).trans hid⟩

/-! ## The inner loop -/

variable (calls)

/-- One message of the span. -/
def spanStep (seen : List Str) (scan : ToolResultSpan) (next : Json) : ToolResultSpan :=
  if isToolResult next then scan.addResult calls seen next
  else { scan with remainder := scan.remainder ++ [next] }

theorem scanSpan_eq (scan : ToolResultSpan) (rest : List Json) :
    scanSpan calls seen scan rest = ((splitTurns rest).1.foldl (spanStep calls seen) scan,
        rest.dropWhile fun msg => !assistantHasToolCalls msg) := by
  induction rest generalizing scan with
  | nil => rfl
  | cons next rest ih =>
    rw [scanSpan, splitTurns, dropWhile_cons]
    cases hcalls : assistantHasToolCalls next with
    | true => simp
    | false =>
      simp only [Bool.false_eq_true, if_false, Bool.not_false, if_true, foldl_cons]
      rw [spanStep]
      split_ifs with hresult
      · exact ih _
      · exact ih _

theorem addResult_remainder (scan : ToolResultSpan) (next : Json) :
    (scan.addResult calls seen next).remainder = scan.remainder := by
  unfold ToolResultSpan.addResult
  split
  · rfl
  · split_ifs <;> rfl

theorem remainder_foldl_spanStep (scan : ToolResultSpan)
    (span : List Json) : (span.foldl (spanStep calls seen) scan).remainder =
      scan.remainder ++ others span := by
  induction span generalizing scan with
  | nil => simp [others]
  | cons next span ih =>
    rw [foldl_cons, ih, spanStep, others, others, filter_cons]
    cases isToolResult next with
    | true =>
      rw [if_pos rfl, addResult_remainder]
      rfl
    | false => simp

/-- The id under which a result is kept. -/
def answeredId? (toolResult : Json) : Option Str :=
  (extractToolResultId toolResult).filter fun id => id ∈ calls.map (·.id)

/-- The result makes the repair rebuild the transcript. -/
def flagsResult (seen : List Str) (toolResult : Json) : Bool :=
  match answeredId? calls toolResult with
  | none => true
  | some id => decide (id ∈ seen) || (replacedToolName
      (stringField? toolResult "toolName".toList) (toolCallName? calls id)).isSome

theorem addResult_changed (scan : ToolResultSpan) (next : Json) :
    (scan.addResult calls seen next).changed = (scan.changed || flagsResult calls seen next) := by
  cases hanswered : answeredId? calls next with
  | none =>
    unfold ToolResultSpan.addResult flagsResult
    rw [hanswered]
    rw [answeredId?] at hanswered
    rw [hanswered]
    exact (Bool.or_true _).symm
  | some id =>
    unfold ToolResultSpan.addResult flagsResult
    rw [hanswered]
    rw [answeredId?] at hanswered
    rw [hanswered]
    dsimp only
    split_ifs with hseen <;> simp [hseen]

theorem changed_foldl_spanStep (scan : ToolResultSpan)
    (span : List Json) : (span.foldl (spanStep calls seen) scan).changed =
      (scan.changed || span.any fun msg => isToolResult msg && flagsResult calls seen msg) := by
  induction span generalizing scan with
  | nil => simp
  | cons next span ih =>
    rw [foldl_cons, ih, spanStep, any_cons]
    cases isToolResult next with
    | true => rw [if_pos rfl, addResult_changed, Bool.true_and, Bool.or_assoc]
    | false => simp

variable {calls}

theorem lookup_addResult {scan : ToolResultSpan} {next : Json}
    (hid : id ∈ calls.map (·.id)) (hseen : id ∉ seen) :
    lookup (scan.addResult calls seen next).spanResultsById id = (lookup scan.spanResultsById id).or
        (if extractToolResultId next = some id
          then some (normalizeToolResultName next (toolCallName? calls id)) else none) := by
  unfold ToolResultSpan.addResult
  split
  · rename_i hnone
    have hne : extractToolResultId next ≠ some id := by
      intro heq
      rw [heq, filter_some, if_pos (decide_eq_true hid)] at hnone
      cases hnone
    rw [if_neg hne, or_none]
  · rename_i id' hsome
    obtain ⟨hnext, _⟩ := Option.filter_eq_some_iff.mp hsome
    by_cases hid' : id' = id
    · subst hid'
      rw [if_neg hseen, if_pos hnext]
      cases hlookup : lookup scan.spanResultsById id' with
      | some result => simp [hlookup]
      | none => simp [hlookup, lookup_append, lookup_singleton]
    · have hne : extractToolResultId next ≠ some id := by
        rw [hnext]
        exact fun heq => hid' (some.inj heq)
      rw [if_neg hne, or_none]
      split_ifs
      · rfl
      · rfl
      · simp [lookup_append, lookup_singleton, hid']

theorem lookup_foldl_spanStep
    (hid : id ∈ calls.map (·.id)) (hseen : id ∉ seen) (scan : ToolResultSpan) (span : List Json) :
    lookup (span.foldl (spanStep calls seen) scan).spanResultsById id =
      (lookup scan.spanResultsById id).or
        ((firstResult? span id).map (normalizeToolResultName · (toolCallName? calls id))) := by
  induction span generalizing scan with
  | nil => simp [firstResult?]
  | cons next span ih =>
    rw [foldl_cons, ih, spanStep, firstResult?_cons]
    cases hresult : isToolResult next with
    | false => simp
    | true =>
      rw [if_pos rfl, lookup_addResult hid hseen]
      by_cases hnext : extractToolResultId next = some id
      · rw [if_pos hnext, if_pos ⟨rfl, hnext⟩]
        cases lookup scan.spanResultsById id <;> simp
      · rw [if_neg hnext, if_neg fun h => hnext h.2, or_none]

theorem lookup_foldl_spanStep_seen (hseen : id ∈ seen)
    (scan : ToolResultSpan) (span : List Json) (h : lookup scan.spanResultsById id = none) :
    lookup (span.foldl (spanStep calls seen) scan).spanResultsById id = none := by
  induction span generalizing scan with
  | nil => exact h
  | cons next span ih =>
    rw [foldl_cons]
    apply ih
    rw [spanStep]
    split_ifs
    · unfold ToolResultSpan.addResult
      split
      · exact h
      · rename_i id' _
        by_cases hid' : id' = id
        · rw [hid', if_pos hseen]
          exact h
        · split_ifs
          · exact h
          · exact h
          · simp [lookup_append, lookup_singleton, hid', h]
    · exact h

end OpenClaw
