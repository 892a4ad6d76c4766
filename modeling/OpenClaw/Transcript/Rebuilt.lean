import OpenClaw.Transcript.Turns

/-!
# The loop rebuilds the turns

Each turn is followed by its answers, one for each call that has not been answered under the same
id before, and then by the other messages of its span.
-/

namespace OpenClaw

open Json List

variable {timestamp : Str} {options : ToolUseResultPairingOptions} {turn : ToolTurn}
  {seen : List Str}

/-! ## Answers -/

variable (timestamp options)

/-- What belongs behind the turn: for each call its real result, or a synthetic one where the turn
did not fail. -/
def ToolTurn.answers (turn : ToolTurn) : List (Str × Json) :=
  if turn.Failed then turn.calls.filterMap fun call => (turn.realResult? call).map (call.id, ·)
  else turn.calls.map fun call => (call.id, (turn.realResult? call).getD
    (makeMissingToolResult timestamp options.missingToolResultText call))

/-- The answers for ids without an earlier answer. -/
def freshAnswers (seen : List Str) (answers : List (Str × Json)) : List (Str × Json) :=
  answers.filter fun answer => answer.1 ∉ seen

/-- The messages for a turn. -/
def ToolTurn.rebuilt (seen : List Str) (turn : ToolTurn) : List Json :=
  if turn.Dropped options then others turn.span
  else turn.assistant :: ((freshAnswers seen (turn.answers timestamp options)).map (·.2) ++
    others turn.span)

variable {timestamp options}

variable (options)

/-- The ids that have an answer behind the turn. -/
def ToolTurn.answeredIds (turn : ToolTurn) : List Str :=
  if turn.Dropped options then []
  else if turn.Failed then
    (turn.calls.filter fun call => (turn.realResult? call).isSome).map (·.id)
  else turn.calls.map (·.id)

/-- The turn makes the repair rebuild the transcript. -/
def ToolTurn.flags (seen : List Str) (turn : ToolTurn) : Bool :=
  (turn.span.any fun msg => isToolResult msg && flagsResult turn.calls seen msg) ||
    if turn.Failed then decide (options.erroredAssistantResultPolicy = .drop)
    else (turn.calls.any fun call => (turn.realResult? call).isNone || decide (call.id ∈ seen)) ||
      !(others turn.span).isEmpty

variable {options}

/-- Ids that are distinct within the turn. -/
def ToolTurn.DistinctIds (turn : ToolTurn) : Prop := (turn.calls.map (·.id)).Nodup

/-! ## Pushing results -/

variable {report : ToolUseRepair} {msg : Json} {id : Str}

theorem pushToolResult_of_mem
    (hid : extractToolResultId msg = some id) (hseen : id ∈ report.seenToolResultIds) :
    pushToolResult report msg =
      { report with
        droppedDuplicateCount := report.droppedDuplicateCount + 1
        changed := true } := by
  rw [pushToolResult, hid]
  exact if_pos hseen

theorem pushToolResult_of_notMem
    (hid : extractToolResultId msg = some id) (hseen : id ∉ report.seenToolResultIds) :
    pushToolResult report msg =
      { report.push [msg] with seenToolResultIds := id :: report.seenToolResultIds } := by
  rw [pushToolResult, hid]
  exact if_neg hseen

theorem freshAnswers_cons_of_notMem {answers : List (Str × Json)}
    (h : id ∉ answers.map (·.1)) : freshAnswers (id :: seen) answers = freshAnswers seen answers := by
  apply filter_congr
  intro answer hanswer
  have hne : answer.1 ≠ id := fun heq => h (heq ▸ mem_map_of_mem hanswer)
  simp [hne]

/-- What pushing results for distinct ids does. -/
structure Pushed (report report' : ToolUseRepair) (answers : List (Str × Json)) : Prop where
  out : report'.out = report.out ++ (freshAnswers report.seenToolResultIds answers).map (·.2)
  seen : ∀ id, id ∈ report'.seenToolResultIds ↔
    id ∈ report.seenToolResultIds ∨ id ∈ answers.map (·.1)
  moved : report'.moved = report.moved

theorem Pushed.nil (report : ToolUseRepair) : Pushed report report [] :=
  ⟨by simp [freshAnswers], by simp, rfl⟩

theorem Pushed.cons {report report' : ToolUseRepair} {id : Str} {msg : Json}
    {answers : List (Str × Json)} (hid : extractToolResultId msg = some id)
    (hnot : id ∉ answers.map (·.1)) (h : Pushed (pushToolResult report msg) report' answers) :
    Pushed report report' ((id, msg) :: answers) := by
  by_cases hseen : id ∈ report.seenToolResultIds
  · rw [pushToolResult_of_mem hid hseen] at h
    refine ⟨?_, fun id' => ?_, h.moved⟩
    · rw [h.out, freshAnswers, freshAnswers, filter_cons]
      simp [hseen]
    · rw [h.seen, map_cons, mem_cons]
      constructor
      · rintro (hmem | hmem)
        · exact .inl hmem
        · exact .inr (.inr hmem)
      · rintro (hmem | rfl | hmem)
        · exact .inl hmem
        · exact .inl hseen
        · exact .inr hmem
  · rw [pushToolResult_of_notMem hid hseen] at h
    refine ⟨?_, fun id' => ?_, h.moved⟩
    · rw [h.out]
      show (report.out ++ [msg]) ++ (freshAnswers (id :: report.seenToolResultIds) answers).map _ = _
      rw [freshAnswers_cons_of_notMem hnot, freshAnswers, freshAnswers, filter_cons]
      simp [hseen]
    · rw [h.seen, map_cons]
      show id' ∈ id :: report.seenToolResultIds ∨ _ ↔ _
      simp only [mem_cons]
      tauto

/-- The same report up to its counts and flags pushes the same. -/
theorem Pushed.congr_left {report₁ report' : ToolUseRepair} {answers : List (Str × Json)}
    (h : Pushed report₁ report' answers) (hout : report₁.out = report.out)
    (hseen : report₁.seenToolResultIds = report.seenToolResultIds)
    (hmoved : report₁.moved = report.moved) : Pushed report report' answers := by
  constructor
  · rw [h.out, hout, hseen]
  · intro id
    rw [h.seen, hseen]
  · rw [h.moved, hmoved]

section

variable {results : List (Str × Json)} {calls : List ToolCallLike}

variable (timestamp options results)

/-- What `pushAnswers` pushes for a call. -/
def pushedAnswer (call : ToolCallLike) : Str × Json :=
  (call.id, (lookup results call.id).getD
    (makeMissingToolResult timestamp options.missingToolResultText call))

variable {timestamp options results}

theorem pushAnswers_cons (report : ToolUseRepair) (call : ToolCallLike) :
    ∃ report₁ : ToolUseRepair, report₁.out = report.out ∧
      report₁.seenToolResultIds = report.seenToolResultIds ∧ report₁.moved = report.moved ∧
      report₁.changed = (report.changed || (lookup results call.id).isNone) ∧
      pushAnswers timestamp options results report (call :: calls) =
        pushAnswers timestamp options results
          (pushToolResult report₁ (pushedAnswer timestamp options results call).2) calls := by
  rw [pushAnswers, pushedAnswer]
  cases lookup results call.id with
  | some existing => exact ⟨report, rfl, rfl, rfl, by simp, rfl⟩
  | none => exact ⟨{ report with
      added := report.added ++ [makeMissingToolResult timestamp options.missingToolResultText call]
      changed := true }, rfl, rfl, rfl, by simp, rfl⟩

theorem pushed_pushAnswers (hnodup : (calls.map (·.id)).Nodup)
    (hid : ∀ call ∈ calls, extractToolResultId (pushedAnswer timestamp options results call).2 =
      some call.id) (report : ToolUseRepair) :
    Pushed report (pushAnswers timestamp options results report calls)
      (calls.map (pushedAnswer timestamp options results)) := by
  induction calls generalizing report with
  | nil => exact .nil report
  | cons call calls ih =>
    rw [map_cons, nodup_cons] at hnodup
    rw [forall_mem_cons] at hid
    obtain ⟨report₁, hout, hseen, hmoved, _, heq⟩ :=
      @pushAnswers_cons timestamp options results calls report call
    rw [heq, map_cons]
    have hnot : call.id ∉ (calls.map (pushedAnswer timestamp options results)).map (·.1) := by
      rw [map_map]
      exact hnodup.1
    exact (Pushed.cons hid.1 hnot (ih hnodup.2 hid.2 _)).congr_left hout hseen hmoved

theorem changed_pushToolResult {report : ToolUseRepair} {msg : Json} {id : Str}
    (hid : extractToolResultId msg = some id) : (pushToolResult report msg).changed =
      (report.changed || decide (id ∈ report.seenToolResultIds)) := by
  by_cases hseen : id ∈ report.seenToolResultIds
  · rw [pushToolResult_of_mem hid hseen]
    simp [hseen]
  · rw [pushToolResult_of_notMem hid hseen]
    simp [hseen, ToolUseRepair.push]

theorem mem_seen_pushToolResult {id' : Str} (hid : extractToolResultId msg = some id) :
    id' ∈ (pushToolResult report msg).seenToolResultIds ↔
      id' = id ∨ id' ∈ report.seenToolResultIds := by
  by_cases hseen : id ∈ report.seenToolResultIds
  · rw [pushToolResult_of_mem hid hseen]
    constructor
    · exact .inr
    · rintro (rfl | hmem)
      · exact hseen
      · exact hmem
  · rw [pushToolResult_of_notMem hid hseen]
    exact mem_cons

theorem changed_pushAnswers (hnodup : (calls.map (·.id)).Nodup)
    (hid : ∀ call ∈ calls, extractToolResultId (pushedAnswer timestamp options results call).2 =
      some call.id) (report : ToolUseRepair) :
    (pushAnswers timestamp options results report calls).changed = (report.changed ||
      calls.any fun call => (lookup results call.id).isNone ||
        decide (call.id ∈ report.seenToolResultIds)) := by
  induction calls generalizing report with
  | nil => simp [pushAnswers]
  | cons call calls ih =>
    rw [map_cons, nodup_cons] at hnodup
    rw [forall_mem_cons] at hid
    obtain ⟨report₁, _, hseen, _, hchanged, heq⟩ :=
      @pushAnswers_cons timestamp options results calls report call
    have hrest : (calls.any fun other => (lookup results other.id).isNone || decide
        (other.id ∈ (pushToolResult report₁
          (pushedAnswer timestamp options results call).2).seenToolResultIds)) =
        calls.any fun other => (lookup results other.id).isNone ||
          decide (other.id ∈ report.seenToolResultIds) := by
      rw [Bool.eq_iff_iff, any_eq_true, any_eq_true]
      apply exists_congr
      intro other
      apply and_congr_right
      intro hother
      have hne : other.id ≠ call.id := fun heq => hnodup.1 (heq ▸ mem_map_of_mem hother)
      simp only [mem_seen_pushToolResult hid.1, hne, false_or, hseen]
    rw [heq, ih hnodup.2 hid.2, changed_pushToolResult hid.1, hchanged, hseen, hrest, any_cons]
    simp only [Bool.or_assoc]

theorem pushed_pushRetained (hnodup : (calls.map (·.id)).Nodup)
    (hid : ∀ call ∈ calls, ∀ result, lookup results call.id = some result →
      extractToolResultId result = some call.id) (report : ToolUseRepair) :
    Pushed report (pushRetained results report calls)
      (calls.filterMap fun call => (lookup results call.id).map (call.id, ·)) := by
  induction calls generalizing report with
  | nil => exact .nil report
  | cons call calls ih =>
    rw [map_cons, nodup_cons] at hnodup
    rw [forall_mem_cons] at hid
    rw [pushRetained, filterMap_cons]
    cases hlookup : lookup results call.id with
    | none => exact ih hnodup.2 hid.2 report
    | some result =>
      refine Pushed.cons (hid.1 result hlookup) ?_ (ih hnodup.2 hid.2 _)
      intro hmem
      obtain ⟨answer, hanswer, heq⟩ := mem_map.mp hmem
      obtain ⟨other, hother, hsome⟩ := mem_filterMap.mp hanswer
      obtain ⟨_, _, rfl⟩ := Option.map_eq_some_iff.mp hsome
      exact hnodup.1 (heq ▸ mem_map_of_mem hother)

theorem changed_pushRetained (hnodup : (calls.map (·.id)).Nodup)
    (hid : ∀ call ∈ calls, ∀ result, lookup results call.id = some result →
      extractToolResultId result = some call.id) (report : ToolUseRepair)
    (hseen : ∀ call ∈ calls, call.id ∈ report.seenToolResultIds → lookup results call.id = none) :
    (pushRetained results report calls).changed = report.changed := by
  induction calls generalizing report with
  | nil => rfl
  | cons call calls ih =>
    rw [map_cons, nodup_cons] at hnodup
    rw [forall_mem_cons] at hid hseen
    rw [pushRetained]
    cases hlookup : lookup results call.id with
    | none => exact ih hnodup.2 hid.2 report hseen.2
    | some result =>
      have hfresh : call.id ∉ report.seenToolResultIds := by
        intro hmem
        rw [hseen.1 hmem] at hlookup
        cases hlookup
      dsimp only
      rw [ih hnodup.2 hid.2, changed_pushToolResult (hid.1 result hlookup), decide_eq_false hfresh,
        Bool.or_false]
      intro other hother hmem
      have hne : other.id ≠ call.id := fun heq => hnodup.1 (heq ▸ mem_map_of_mem hother)
      rcases (mem_seen_pushToolResult (hid.1 result hlookup)).mp hmem with heq | hmem
      · exact absurd heq hne
      · exact hseen.2 other hother hmem

end

end OpenClaw
