import OpenClaw.Transcript.Rebuilt

/-!
# Which transcripts the repair repairs

A repaired transcript keeps what is no tool result in its order, except for failed turns that are
left out, and has behind each turn the first real result of each call, or a synthetic one, and no
other. Repairing it again changes nothing.
-/

namespace OpenClaw

open Json List ToolTurn

variable {timestamp : Str} {options : ToolUseResultPairingOptions} {turn : ToolTurn}
  {turns : List ToolTurn} {messages : List Json} {seen seen' : List Str}

/-! ## A turn -/

variable (turn seen)

/-- What the inner loop leaves for a turn. -/
def ToolTurn.scan : ToolResultSpan :=
  turn.span.foldl (spanStep turn.calls seen) ⟨[], [], 0, 0, false⟩

theorem ToolTurn.remainder_scan : (turn.scan seen).remainder = others turn.span := by
  rw [scan, remainder_foldl_spanStep, nil_append]

theorem ToolTurn.changed_scan : (turn.scan seen).changed =
    turn.span.any fun msg => isToolResult msg && flagsResult turn.calls seen msg := by
  rw [scan, changed_foldl_spanStep, Bool.false_or]

variable {turn seen}

theorem ToolTurn.lookup_scan (hnodup : turn.DistinctIds) {call : ToolCallLike}
    (hcall : call ∈ turn.calls) : lookup (turn.scan seen).spanResultsById call.id =
      if call.id ∈ seen then none else turn.realResult? call := by
  split_ifs with hseen
  · exact lookup_foldl_spanStep_seen hseen _ _ rfl
  · rw [scan, lookup_foldl_spanStep (mem_map_of_mem hcall) hseen, toolCallName?_of_mem hnodup hcall]
    rfl

theorem ToolTurn.extractToolResultId_lookup_scan (hnodup : turn.DistinctIds) {call : ToolCallLike}
    (hcall : call ∈ turn.calls) {result : Json}
    (h : lookup (turn.scan seen).spanResultsById call.id = some result) :
    extractToolResultId result = some call.id := by
  rw [lookup_scan hnodup hcall] at h
  split_ifs at h
  exact (realResult?_spec h).2

theorem ToolTurn.extractToolResultId_pushedAnswer (hnodup : turn.DistinctIds)
    {call : ToolCallLike} (hcall : call ∈ turn.calls) : extractToolResultId
      (pushedAnswer timestamp options (turn.scan seen).spanResultsById call).2 = some call.id := by
  unfold pushedAnswer
  cases h : lookup (turn.scan seen).spanResultsById call.id with
  | some result => exact extractToolResultId_lookup_scan hnodup hcall h
  | none => exact extractToolResultId_makeMissingToolResult (ne_nil_of_mem_extractToolCalls hcall) _ _

/-- What the loop does with a report, for messages that are rebuilt as `msgs`. -/
structure Rebuilds (report report' : ToolUseRepair) (msgs : List Json) (ids : List Str)
    (flag : Bool) : Prop where
  out : report'.out = report.out ++ msgs
  seen : ∀ id, id ∈ report'.seenToolResultIds ↔ id ∈ report.seenToolResultIds ∨ id ∈ ids
  changed : report'.changed = (report.changed || flag)
  moved : (report.moved = true → report.changed = true) →
    report'.moved = true → report'.changed = true

theorem ToolTurn.freshAnswers_pushed (hnodup : turn.DistinctIds) (hfailed : ¬turn.Failed) :
    freshAnswers seen (turn.calls.map (pushedAnswer timestamp options
      (turn.scan seen).spanResultsById)) =
      freshAnswers seen (turn.answers timestamp options) := by
  rw [answers, if_neg hfailed, freshAnswers, freshAnswers, filter_map, filter_map]
  apply map_congr_left
  intro call hcall
  obtain ⟨hcall, hfresh⟩ := mem_filter.mp hcall
  have hnot : call.id ∉ seen := of_decide_eq_true hfresh
  rw [pushedAnswer, lookup_scan hnodup hcall, if_neg hnot]

theorem ToolTurn.freshAnswers_retained (hnodup : turn.DistinctIds) (hfailed : turn.Failed) :
    freshAnswers seen (turn.calls.filterMap fun call =>
      (lookup (turn.scan seen).spanResultsById call.id).map (call.id, ·)) =
      freshAnswers seen (turn.answers timestamp options) := by
  rw [answers, if_pos hfailed, freshAnswers, freshAnswers, filter_filterMap, filter_filterMap]
  apply filterMap_congr
  intro call hcall
  rw [lookup_scan hnodup hcall]
  split_ifs with hseen
  · cases turn.realResult? call with
    | none => rfl
    | some result =>
      rw [Option.map_some, Option.filter_some]
      simp [hseen]
  · rfl

theorem ToolTurn.any_pushed (hnodup : turn.DistinctIds) :
    (turn.calls.any fun call => (lookup (turn.scan seen).spanResultsById call.id).isNone ||
      decide (call.id ∈ seen)) =
      turn.calls.any fun call => (turn.realResult? call).isNone || decide (call.id ∈ seen) := by
  rw [Bool.eq_iff_iff, any_eq_true, any_eq_true]
  apply exists_congr
  intro call
  apply and_congr_right
  intro hcall
  rw [lookup_scan hnodup hcall]
  by_cases hseen : call.id ∈ seen
  · simp [hseen]
  · rw [if_neg hseen]

/-- Behind the real results of all calls, any other message makes them late. -/
theorem ToolTurn.late_scan_or (turn : ToolTurn) (hcalls : turn.calls ≠ []) (seen : List Str) :
    ((!(turn.scan seen).spanResultsById.isEmpty && !(others turn.span).isEmpty) ||
      turn.calls.any fun call => (lookup (turn.scan seen).spanResultsById call.id).isNone ||
        decide (call.id ∈ seen)) =
    ((turn.calls.any fun call => (lookup (turn.scan seen).spanResultsById call.id).isNone ||
      decide (call.id ∈ seen)) || !(others turn.span).isEmpty) := by
  cases hany : turn.calls.any fun call =>
      (lookup (turn.scan seen).spanResultsById call.id).isNone || decide (call.id ∈ seen) with
  | true => rw [Bool.or_true, Bool.true_or]
  | false =>
    obtain ⟨call, hcall⟩ := exists_mem_of_ne_nil _ hcalls
    have hcall' := any_eq_false.mp hany call hcall
    cases hresults : (turn.scan seen).spanResultsById with
    | cons result results => simp
    | nil =>
      rw [hresults] at hcall'
      exact absurd rfl hcall'

theorem extractToolCalls_ne_nil {assistant : Json} (h : assistantHasToolCalls assistant = true) :
    extractToolCallsFromAssistant assistant ≠ [] := by
  intro hnil
  rw [assistantHasToolCalls, hnil] at h
  simp at h

theorem ToolTurn.mem_retained (hnodup : turn.DistinctIds) (id : Str) :
    id ∈ seen ∨ id ∈ (turn.calls.filterMap fun call =>
      (lookup (turn.scan seen).spanResultsById call.id).map (call.id, ·)).map (·.1) ↔
    id ∈ seen ∨
      id ∈ (turn.calls.filter fun call => (turn.realResult? call).isSome).map (·.id) := by
  apply or_congr_right'
  intro hseen
  simp only [mem_map, mem_filterMap, mem_filter, Option.map_eq_some_iff]
  constructor
  · rintro ⟨_, ⟨call, hcall, result, hresult, rfl⟩, rfl⟩
    rw [lookup_scan hnodup hcall, if_neg hseen] at hresult
    exact ⟨call, ⟨hcall, hresult ▸ rfl⟩, rfl⟩
  · rintro ⟨call, ⟨hcall, hsome⟩, rfl⟩
    obtain ⟨result, hresult⟩ := Option.isSome_iff_exists.mp hsome
    refine ⟨(call.id, result), ⟨call, hcall, result, ?_, rfl⟩, rfl⟩
    rw [lookup_scan hnodup hcall, if_neg hseen, hresult]

/-- The ids of what is pushed for a turn that did not fail. -/
theorem map_fst_pushedAnswer (results : List (Str × Json)) (calls : List ToolCallLike) :
    (calls.map (pushedAnswer timestamp options results)).map (·.1) = calls.map (·.id) := by
  rw [map_map]
  rfl

theorem rebuilds_of_pushed {report report₁ report₂ : ToolUseRepair} {answers : List (Str × Json)}
    {flag : Bool} {ids : List Str} (h : Pushed (report₁.push [turn.assistant]) report₂ answers)
    (hout : report₁.out = report.out) (hseen : report₁.seenToolResultIds = report.seenToolResultIds)
    (hanswers : freshAnswers report.seenToolResultIds answers =
      freshAnswers report.seenToolResultIds (turn.answers timestamp options))
    (hdropped : ¬turn.Dropped options)
    (hids : ∀ id, id ∈ report.seenToolResultIds ∨ id ∈ answers.map (·.1) ↔
      id ∈ report.seenToolResultIds ∨ id ∈ ids)
    (hchanged : report₂.changed = (report.changed || flag))
    (hmoved : (report.moved = true → report.changed = true) →
      report₁.moved = true → report₂.changed = true) :
    Rebuilds report (report₂.push (others turn.span))
      (turn.rebuilt timestamp options report.seenToolResultIds) ids flag where
  out := by
    show report₂.out ++ _ = _
    rw [h.out, ToolTurn.rebuilt, if_neg hdropped, ← hanswers, ← hseen, ← hout]
    simp [ToolUseRepair.push]
  seen id := by
    show id ∈ report₂.seenToolResultIds ↔ _
    rw [h.seen]
    show id ∈ report₁.seenToolResultIds ∨ _ ↔ _
    rw [hseen, hids]
  changed := hchanged
  moved hreport hmoved' := hmoved hreport (h.moved ▸ hmoved')

/-- One turn of the outer loop. -/
theorem rebuilds_repairTurn (hcalls : assistantHasToolCalls turn.assistant = true)
    (hnodup : turn.DistinctIds) (report : ToolUseRepair) : Rebuilds report
      (repairTurn timestamp options report turn.assistant (turn.scan report.seenToolResultIds))
      (turn.rebuilt timestamp options report.seenToolResultIds) (turn.answeredIds options)
      (turn.flags options report.seenToolResultIds) := by
  set scan := turn.scan report.seenToolResultIds with hscan
  have hchangedScan := turn.changed_scan report.seenToolResultIds
  rw [← hscan] at hchangedScan
  unfold repairTurn
  dsimp only
  rw [show scan.remainder = others turn.span from turn.remainder_scan _,
    show extractToolCallsFromAssistant turn.assistant = turn.calls from rfl]
  by_cases hfailed : turn.Failed
  · rw [if_pos (show stoppedWithError turn.assistant = true from hfailed)]
    cases hpolicy : options.erroredAssistantResultPolicy with
    | drop =>
      have hdropped : turn.Dropped options := ⟨hfailed, hpolicy⟩
      refine ⟨?_, fun id => ?_, ?_, fun _ _ => rfl⟩
      · rw [ToolTurn.rebuilt, if_pos hdropped]
        rfl
      · rw [ToolTurn.answeredIds, if_pos hdropped]
        simp [ToolUseRepair.push]
      · rw [ToolTurn.flags, if_pos hfailed, hpolicy]
        simp [ToolUseRepair.push]
    | preserve =>
      have hdropped : ¬turn.Dropped options := fun h => by
        rw [h.2] at hpolicy
        cases hpolicy
      have hid : ∀ call ∈ turn.calls, ∀ result, lookup scan.spanResultsById call.id = some result →
          extractToolResultId result = some call.id :=
        fun call hcall result => extractToolResultId_lookup_scan hnodup hcall
      have hnone : ∀ call ∈ turn.calls, call.id ∈ report.seenToolResultIds →
          lookup scan.spanResultsById call.id = none := fun call hcall hmem => by
        rw [lookup_scan hnodup hcall, if_pos hmem]
      refine rebuilds_of_pushed (pushed_pushRetained hnodup hid _) (by rfl) (by rfl)
        (freshAnswers_retained hnodup hfailed) hdropped ?_ ?_ ?_
      · intro id
        rw [ToolTurn.answeredIds, if_neg hdropped, if_pos hfailed]
        exact mem_retained hnodup id
      · rw [changed_pushRetained hnodup hid _ (by exact hnone), ToolTurn.flags, if_pos hfailed, hpolicy]
        show (report.changed || scan.changed) = _
        rw [hchangedScan]
        simp
      · intro hreport hmoved
        rw [changed_pushRetained hnodup hid _ (by exact hnone)]
        show (report.changed || scan.changed) = true
        rw [hreport hmoved, Bool.true_or]
  · rw [if_neg (show ¬stoppedWithError turn.assistant = true from hfailed)]
    have hdropped : ¬turn.Dropped options := fun h => hfailed h.1
    have hid : ∀ call ∈ turn.calls, extractToolResultId (pushedAnswer timestamp options
        scan.spanResultsById call).2 = some call.id :=
      fun call => extractToolResultId_pushedAnswer hnodup
    have hlate := turn.late_scan_or (extractToolCalls_ne_nil hcalls) report.seenToolResultIds
    rw [← hscan] at hlate
    refine rebuilds_of_pushed (pushed_pushAnswers hnodup hid _) (by rfl) (by rfl)
      (freshAnswers_pushed hnodup hfailed) hdropped ?_ ?_ ?_
    · intro id
      rw [map_fst_pushedAnswer, ToolTurn.answeredIds, if_neg hdropped, if_neg hfailed]
    · rw [changed_pushAnswers hnodup hid, ToolTurn.flags, if_neg hfailed]
      show (report.changed || scan.changed || (!scan.spanResultsById.isEmpty &&
        !(others turn.span).isEmpty) || turn.calls.any fun call =>
          (lookup scan.spanResultsById call.id).isNone ||
            decide (call.id ∈ report.seenToolResultIds)) = _
      rw [hchangedScan, Bool.or_assoc, hlate, any_pushed hnodup]
      simp only [Bool.or_assoc]
    · intro hreport hmoved
      rw [changed_pushAnswers hnodup hid]
      show (report.changed || scan.changed || (!scan.spanResultsById.isEmpty &&
        !(others turn.span).isEmpty) || _) = true
      have hmoved : (report.moved || (!scan.spanResultsById.isEmpty &&
        !(others turn.span).isEmpty)) = true := hmoved
      rw [Bool.or_eq_true] at hmoved
      rcases hmoved with hmoved | hlate
      · rw [hreport hmoved, Bool.true_or, Bool.true_or, Bool.true_or]
      · rw [hlate, Bool.or_true, Bool.true_or]

/-! ## The outer loop -/

/-- What the turns become one after the other. -/
def rebuiltFrom (timestamp : Str) (options : ToolUseResultPairingOptions) :
    List Str → List ToolTurn → List Json
  | _, [] => []
  | seen, turn :: turns =>
    turn.rebuilt timestamp options seen ++
      rebuiltFrom timestamp options (seen ++ turn.answeredIds options) turns

def flagsFrom (options : ToolUseResultPairingOptions) : List Str → List ToolTurn → Bool
  | _, [] => false
  | seen, turn :: turns =>
    turn.flags options seen || flagsFrom options (seen ++ turn.answeredIds options) turns

theorem ToolTurn.rebuilt_congr (h : ∀ id, id ∈ seen ↔ id ∈ seen') (turn : ToolTurn) :
    turn.rebuilt timestamp options seen = turn.rebuilt timestamp options seen' := by
  rw [rebuilt, rebuilt, freshAnswers, freshAnswers]
  simp only [h]

theorem ToolTurn.flags_congr (h : ∀ id, id ∈ seen ↔ id ∈ seen') (turn : ToolTurn) :
    turn.flags options seen = turn.flags options seen' := by
  simp only [flags, flagsResult, h]

theorem Rebuilds.trans {report report₁ report₂ : ToolUseRepair} {msgs msgs₁ : List Json}
    {ids ids₁ : List Str} {flag flag₁ : Bool} (h : Rebuilds report report₁ msgs ids flag)
    (h₁ : Rebuilds report₁ report₂ msgs₁ ids₁ flag₁) :
    Rebuilds report report₂ (msgs ++ msgs₁) (ids ++ ids₁) (flag || flag₁) where
  out := by rw [h₁.out, h.out, append_assoc]
  seen id := by rw [h₁.seen, h.seen, mem_append, or_assoc]
  changed := by rw [h₁.changed, h.changed, Bool.or_assoc]
  moved hreport := h₁.moved (h.moved hreport)

theorem Rebuilds.refl (report : ToolUseRepair) : Rebuilds report report [] [] false :=
  ⟨by simp, by simp, by simp, id⟩

theorem rebuilds_repairLoop (hnodup : ∀ turn ∈ (splitTurns messages).2, turn.DistinctIds)
    {fuel : ℕ} (hfuel : messages.length ≤ fuel) {report : ToolUseRepair}
    (hseen : ∀ id, id ∈ report.seenToolResultIds ↔ id ∈ seen) :
    Rebuilds report (repairLoop timestamp options fuel report messages)
      (others (splitTurns messages).1 ++ rebuiltFrom timestamp options seen (splitTurns messages).2)
      ((splitTurns messages).2.flatMap (·.answeredIds options))
      ((splitTurns messages).1.any isToolResult ||
        flagsFrom options seen (splitTurns messages).2) := by
  induction fuel generalizing messages report seen with
  | zero =>
    have hnil : messages = [] := length_eq_zero_iff.mp (Nat.le_zero.mp hfuel)
    subst hnil
    exact .refl report
  | succ fuel ih =>
    cases messages with
    | nil => exact .refl report
    | cons msg rest =>
      have hrest : rest.length ≤ fuel := Nat.le_of_succ_le_succ hfuel
      rw [repairLoop]
      by_cases hcalls : assistantHasToolCalls msg = true
      · -- the inner loop takes the messages up to the next turn
        have hsplit : splitTurns (msg :: rest) =
            ([], ⟨msg, (splitTurns rest).1⟩ :: (splitTurns rest).2) := by
          rw [splitTurns, if_pos hcalls]
        rw [hsplit, forall_mem_cons] at hnodup
        rw [if_pos hcalls, scanSpan_eq, hsplit]
        set turn : ToolTurn := ⟨msg, (splitTurns rest).1⟩
        have hturn := @rebuilds_repairTurn timestamp options turn hcalls hnodup.1 report
        rw [rebuilt_congr hseen, flags_congr hseen] at hturn
        have hdrop := splitTurns_dropWhile rest
        refine hturn.trans ?_
        have hseen' : ∀ id, id ∈ (repairTurn timestamp options report msg
            (turn.scan report.seenToolResultIds)).seenToolResultIds ↔
            id ∈ seen ++ turn.answeredIds options := fun id => by
          rw [hturn.seen, hseen, mem_append]
        rw [show (splitTurns rest).2 =
          (splitTurns (rest.dropWhile fun msg => !assistantHasToolCalls msg)).2 from
            congrArg (·.2) hdrop.symm] at hnodup ⊢
        have hloop := ih hnodup.2 ((length_dropWhile_le _ _).trans hrest) hseen'
        rw [show (splitTurns (rest.dropWhile fun msg => !assistantHasToolCalls msg)).1 = [] from
          congrArg (·.1) hdrop] at hloop
        exact hloop
      · have hcalls := Bool.eq_false_iff.mpr hcalls
        have hsplit : splitTurns (msg :: rest) =
            (msg :: (splitTurns rest).1, (splitTurns rest).2) := by
          rw [splitTurns, hcalls]
          rfl
        rw [hsplit] at hnodup ⊢
        rw [hcalls, if_neg Bool.false_ne_true, others, filter_cons, any_cons, Bool.or_assoc]
        cases hresult : isToolResult msg with
        | true =>
          set report₁ : ToolUseRepair :=
            { report with
              droppedOrphanCount := report.droppedOrphanCount + 1
              changed := true }
          have horphan : Rebuilds report report₁ [] [] true :=
            ⟨by simp [report₁], by simp [report₁], by simp [report₁], fun _ _ => rfl⟩
          have hseen' : ∀ id, id ∈ report₁.seenToolResultIds ↔ id ∈ seen := hseen
          exact horphan.trans (ih hnodup hrest hseen')
        | false =>
          have hpush : Rebuilds report (report.push [msg]) [msg] [] false :=
            ⟨rfl, by simp [ToolUseRepair.push], by simp [ToolUseRepair.push], id⟩
          rw [if_neg Bool.false_ne_true]
          exact hpush.trans (ih hnodup hrest (by exact hseen))

end OpenClaw
