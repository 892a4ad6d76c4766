import OpenClaw.Transcript.Repaired

/-!
# What the repair keeps

The repair for any transcript, where calls of a turn may share an id. Of the answers to a turn,
the first one for each id that has not been answered yet is kept.
-/

namespace OpenClaw

open Json List ToolTurn

variable {timestamp : Str} {options : ToolUseResultPairingOptions} {turn : ToolTurn}
  {turns : List ToolTurn} {messages : List Json} {seen seen' : List Str}

/-! ## First answers -/

/-- What is left of answers when each id is answered once. -/
def firstAnswers : List Str → List (Str × Json) → List (Str × Json)
  | _, [] => []
  | seen, answer :: answers =>
    if answer.1 ∈ seen then firstAnswers seen answers
    else answer :: firstAnswers (answer.1 :: seen) answers

variable (seen)

theorem firstAnswers_sublist (answers : List (Str × Json)) :
    (firstAnswers seen answers).Sublist answers := by
  induction answers generalizing seen with
  | nil => exact List.Sublist.refl _
  | cons answer answers ih =>
    rw [firstAnswers]
    split_ifs
    · exact (ih seen).cons _
    · exact (ih _).cons_cons _

theorem mem_map_fst_firstAnswers (answers : List (Str × Json)) (id : Str) :
    id ∈ (firstAnswers seen answers).map (·.1) ↔ id ∈ answers.map (·.1) ∧ id ∉ seen := by
  induction answers generalizing seen with
  | nil => simp [firstAnswers]
  | cons answer answers ih =>
    rw [firstAnswers]
    by_cases hseen : answer.1 ∈ seen
    · rw [if_pos hseen, ih, map_cons, mem_cons]
      constructor
      · intro h
        exact ⟨.inr h.1, h.2⟩
      · rintro ⟨rfl | hmem, hnot⟩
        · exact absurd hseen hnot
        · exact ⟨hmem, hnot⟩
    · rw [if_neg hseen, map_cons, mem_cons, ih, map_cons, mem_cons, mem_cons, not_or]
      by_cases heq : id = answer.1
      · subst heq
        simp [hseen]
      · simp [heq]

theorem nodup_map_fst_firstAnswers (answers : List (Str × Json)) :
    ((firstAnswers seen answers).map (·.1)).Nodup := by
  induction answers generalizing seen with
  | nil => exact nodup_nil
  | cons answer answers ih =>
    rw [firstAnswers]
    split_ifs
    · exact ih seen
    · rw [map_cons, nodup_cons]
      refine ⟨fun hmem => ?_, ih _⟩
      rw [mem_map_fst_firstAnswers] at hmem
      exact hmem.2 mem_cons_self

variable {seen}

theorem firstAnswers_congr (h : ∀ id, id ∈ seen ↔ id ∈ seen') (answers : List (Str × Json)) :
    firstAnswers seen answers = firstAnswers seen' answers := by
  induction answers generalizing seen seen' with
  | nil => rfl
  | cons answer answers ih =>
    rw [firstAnswers, firstAnswers, ih h, @ih (answer.1 :: seen) (answer.1 :: seen') (by simp [h])]
    simp only [h]

/-! ## Pushing -/

/-- What pushing answers one after the other does. -/
structure PushedOnce (report report' : ToolUseRepair) (answers : List (Str × Json)) : Prop where
  out : report'.out = report.out ++ (firstAnswers report.seenToolResultIds answers).map (·.2)
  seen : ∀ id, id ∈ report'.seenToolResultIds ↔
    id ∈ report.seenToolResultIds ∨ id ∈ answers.map (·.1)
  orphans : report'.droppedOrphanCount = report.droppedOrphanCount
  unchanged : report'.changed = false → report.changed = false

theorem PushedOnce.nil (report : ToolUseRepair) : PushedOnce report report [] :=
  ⟨by simp [firstAnswers], by simp, rfl, id⟩

theorem PushedOnce.cons {report report' : ToolUseRepair} {id : Str} {msg : Json}
    {answers : List (Str × Json)} (hid : extractToolResultId msg = some id)
    (h : PushedOnce (pushToolResult report msg) report' answers) :
    PushedOnce report report' ((id, msg) :: answers) := by
  have hmem := fun id' => (h.seen id').trans (or_congr_left (mem_seen_pushToolResult hid))
  have hunchanged := @changed_pushToolResult report msg id hid
  refine ⟨?_, fun id' => ?_, ?_, fun hchanged => ?_⟩
  · rw [h.out, firstAnswers]
    by_cases hseen : id ∈ report.seenToolResultIds
    · rw [pushToolResult_of_mem hid hseen, if_pos hseen]
    · rw [pushToolResult_of_notMem hid hseen, if_neg hseen]
      simp [ToolUseRepair.push]
  · rw [hmem, map_cons, mem_cons]
    tauto
  · rw [h.orphans]
    by_cases hseen : id ∈ report.seenToolResultIds
    · rw [pushToolResult_of_mem hid hseen]
    · rw [pushToolResult_of_notMem hid hseen]
      rfl
  · rw [h.unchanged hchanged] at hunchanged
    exact (Bool.or_eq_false_iff.mp hunchanged.symm).1

section

variable {results : List (Str × Json)} {calls : List ToolCallLike}

/-- The answers to the calls of a turn that did not fail; without a change all are real. -/
theorem pushedOnce_pushAnswers (hid : ∀ call ∈ calls, extractToolResultId
    (pushedAnswer timestamp options results call).2 = some call.id) (report : ToolUseRepair) :
    PushedOnce report (pushAnswers timestamp options results report calls)
      (calls.map (pushedAnswer timestamp options results)) ∧
    ((pushAnswers timestamp options results report calls).changed = false →
      ∀ call ∈ calls, (lookup results call.id).isSome = true) := by
  induction calls generalizing report with
  | nil => exact ⟨.nil report, by simp⟩
  | cons call calls ih =>
    rw [forall_mem_cons] at hid
    rw [pushAnswers, map_cons]
    unfold pushedAnswer at hid ⊢
    cases hlookup : lookup results call.id with
    | some existing =>
      rw [hlookup] at hid
      obtain ⟨hpushed, hreal⟩ := ih hid.2 (pushToolResult report existing)
      refine ⟨PushedOnce.cons hid.1 hpushed, fun hchanged => ?_⟩
      rw [forall_mem_cons]
      exact ⟨by rw [hlookup]; rfl, hreal hchanged⟩
    | none =>
      rw [hlookup] at hid
      dsimp only
      set missing := makeMissingToolResult timestamp options.missingToolResultText call
      set report₁ : ToolUseRepair :=
        { report with
          added := report.added ++ [missing]
          changed := true } with hreport₁
      obtain ⟨hpushed, -⟩ := ih hid.2 (pushToolResult report₁ missing)
      have hcons : PushedOnce report₁ _ ((call.id, missing) :: _) := PushedOnce.cons hid.1 hpushed
      have hchanged : ∀ {p : Prop}, (pushAnswers timestamp options results
          (pushToolResult report₁ missing) calls).changed = false → p := by
        intro p hfalse
        have htrue := hcons.unchanged hfalse
        rw [hreport₁] at htrue
        cases htrue
      exact ⟨⟨hcons.out, hcons.seen, hcons.orphans, hchanged⟩, hchanged⟩

theorem pushedOnce_pushRetained (hid : ∀ call ∈ calls, ∀ result,
    lookup results call.id = some result → extractToolResultId result = some call.id)
    (report : ToolUseRepair) : PushedOnce report (pushRetained results report calls)
      (calls.filterMap fun call => (lookup results call.id).map (call.id, ·)) := by
  induction calls generalizing report with
  | nil => exact .nil report
  | cons call calls ih =>
    rw [forall_mem_cons] at hid
    rw [pushRetained, filterMap_cons]
    cases hlookup : lookup results call.id with
    | none => exact ih hid.2 report
    | some result => exact PushedOnce.cons (hid.1 result hlookup) (ih hid.2 _)

end

/-! ## The inner loop -/

theorem scan_congr (h : ∀ id, id ∈ seen ↔ id ∈ seen') (turn : ToolTurn) :
    turn.scan seen = turn.scan seen' := by
  have hstep : spanStep turn.calls seen = spanStep turn.calls seen' := by
    funext scan next
    simp only [spanStep, ToolResultSpan.addResult, h]
  rw [ToolTurn.scan, ToolTurn.scan, hstep]

/-- What the results that are kept for a turn have in common. -/
structure SpanResults (calls : List ToolCallLike) (seen : List Str) (span : List Json)
    (results : List (Str × Json)) : Prop where
  nodup : (results.map (·.1)).Nodup
  result : ∀ answer ∈ results, answer.1 ∈ calls.map (·.id) ∧ answer.1 ∉ seen ∧
    ∃ msg ∈ span, isToolResult msg = true ∧ extractToolResultId msg = some answer.1 ∧
      ∃ name, answer.2 = normalizeToolResultName msg name

theorem SpanResults.isToolResult {calls : List ToolCallLike} {span : List Json}
    {results : List (Str × Json)} (h : SpanResults calls seen span results) {answer : Str × Json}
    (hanswer : answer ∈ results) :
    isToolResult answer.2 = true ∧ extractToolResultId answer.2 = some answer.1 := by
  obtain ⟨-, -, msg, -, hresult, hid, name, heq⟩ := h.result answer hanswer
  rw [heq]
  exact ⟨isToolResult_normalizeToolResultName hresult name,
    (extractToolResultId_normalizeToolResultName hresult name).trans hid⟩

theorem mem_of_lookup {results : List (Str × Json)} {id : Str} {msg : Json}
    (h : lookup results id = some msg) : (id, msg) ∈ results := by
  induction results with
  | nil => cases h
  | cons result results ih =>
    rw [lookup_cons] at h
    split_ifs at h with heq
    · rw [← heq, ← Option.some.inj h]
      exact mem_cons_self
    · exact mem_cons_of_mem _ (ih h)

theorem spanResults_spanStep {calls : List ToolCallLike} {span : List Json} {scan : ToolResultSpan}
    (h : SpanResults calls seen span scan.spanResultsById) (next : Json) :
    SpanResults calls seen (span ++ [next]) (spanStep calls seen scan next).spanResultsById := by
  have hkeep : SpanResults calls seen (span ++ [next]) scan.spanResultsById := by
    refine ⟨h.nodup, fun answer hanswer => ?_⟩
    obtain ⟨hid, hseen, msg, hmsg, hrest⟩ := h.result answer hanswer
    exact ⟨hid, hseen, msg, mem_append_left _ hmsg, hrest⟩
  rw [spanStep]
  split_ifs with hresult
  · unfold ToolResultSpan.addResult
    split
    · exact hkeep
    · rename_i id hid
      obtain ⟨hnext, hcall⟩ := Option.filter_eq_some_iff.mp hid
      have hcall : id ∈ calls.map (·.id) := of_decide_eq_true hcall
      split_ifs with hseen hlookup
      · exact hkeep
      · exact hkeep
      · -- the first result for the id
        have hnone : lookup scan.spanResultsById id = none := by
          rwa [Bool.not_eq_true, Option.isSome_eq_false_iff, Option.isNone_iff_eq_none] at hlookup
        refine ⟨?_, fun answer hanswer => ?_⟩
        · rw [map_append, map_singleton, nodup_append]
          refine ⟨hkeep.nodup, nodup_singleton _, ?_⟩
          intro a ha b hb heq
          rw [heq, mem_singleton.mp hb] at ha
          exact lookup_eq_none_iff.mp hnone ha
        · rcases mem_append.mp hanswer with hanswer | hanswer
          · exact hkeep.result answer hanswer
          · rw [mem_singleton.mp hanswer]
            exact ⟨hcall, hseen, next, by simp, hresult, hnext, _, rfl⟩
  · exact hkeep

theorem spanResults_foldl {calls : List ToolCallLike} {before span : List Json}
    {scan : ToolResultSpan} (h : SpanResults calls seen before scan.spanResultsById) :
    SpanResults calls seen (before ++ span)
      (span.foldl (spanStep calls seen) scan).spanResultsById := by
  induction span generalizing before scan with
  | nil =>
    rw [append_nil]
    exact h
  | cons next span ih =>
    have hstep := ih (spanResults_spanStep h next)
    rw [append_assoc, singleton_append] at hstep
    exact hstep

variable (turn)

theorem ToolTurn.spanResults_scan (seen : List Str) :
    SpanResults turn.calls seen turn.span (turn.scan seen).spanResultsById := by
  have hnil : SpanResults turn.calls seen [] (ToolResultSpan.mk [] [] 0 0 false).spanResultsById :=
    ⟨nodup_nil, fun _ h => nomatch h⟩
  exact spanResults_foldl hnil

/-- The results of a turn's span that answer none of its calls. -/
def ToolTurn.orphans : List Json :=
  turn.span.filter fun msg => isToolResult msg && (answeredId? turn.calls msg).isNone

theorem orphans_foldl (calls : List ToolCallLike) (scan : ToolResultSpan) (span : List Json) :
    (span.foldl (spanStep calls seen) scan).droppedOrphanCount = scan.droppedOrphanCount +
      (span.filter fun msg => isToolResult msg && (answeredId? calls msg).isNone).length := by
  induction span generalizing scan with
  | nil => rfl
  | cons next span ih =>
    rw [foldl_cons, ih, spanStep, filter_cons]
    cases hresult : isToolResult next with
    | false => simp
    | true =>
      rw [if_pos rfl, Bool.true_and]
      cases hanswered : answeredId? calls next with
      | none =>
        have hcount : (scan.addResult calls seen next).droppedOrphanCount =
            scan.droppedOrphanCount + 1 := by
          rw [answeredId?] at hanswered
          rw [ToolResultSpan.addResult, hanswered]
        rw [hcount, if_pos (by rfl), length_cons]
        omega
      | some id =>
        have hcount : (scan.addResult calls seen next).droppedOrphanCount =
            scan.droppedOrphanCount := by
          rw [answeredId?] at hanswered
          rw [ToolResultSpan.addResult, hanswered]
          dsimp only
          split_ifs <;> rfl
        rw [hcount, if_neg (by simp)]

theorem ToolTurn.orphans_scan (seen : List Str) :
    (turn.scan seen).droppedOrphanCount = turn.orphans.length := by
  rw [scan, orphans_foldl, Nat.zero_add]
  rfl

variable {turn}

theorem ToolTurn.orphans_of_unchanged (h : (turn.scan seen).changed = false) :
    turn.orphans = [] := by
  rw [changed_scan, any_eq_false] at h
  rw [orphans, filter_eq_nil_iff]
  intro msg hmsg horphan
  rw [Bool.and_eq_true, Option.isNone_iff_eq_none] at horphan
  apply h msg hmsg
  rw [horphan.1, flagsResult, horphan.2]
  rfl

/-! ## A turn -/

variable (timestamp options seen)

/-- The answers to a turn, in the order of its calls. -/
def ToolTurn.pushed (turn : ToolTurn) : List (Str × Json) :=
  if turn.Failed then turn.calls.filterMap fun call =>
    (lookup (turn.scan seen).spanResultsById call.id).map (call.id, ·)
  else turn.calls.map (pushedAnswer timestamp options (turn.scan seen).spanResultsById)

def ToolTurn.keptAnswers (turn : ToolTurn) : List (Str × Json) :=
  firstAnswers seen (turn.pushed timestamp options seen)

/-- The turn behind the repair. -/
def ToolTurn.kept (turn : ToolTurn) : ToolTurn :=
  ⟨turn.assistant, (turn.keptAnswers timestamp options seen).map (·.2) ++ others turn.span⟩

variable {timestamp options seen}

theorem ToolTurn.keptAnswers_congr (h : ∀ id, id ∈ seen ↔ id ∈ seen') (turn : ToolTurn) :
    turn.keptAnswers timestamp options seen = turn.keptAnswers timestamp options seen' := by
  rw [keptAnswers, keptAnswers, firstAnswers_congr h, pushed, pushed, scan_congr h]

theorem ToolTurn.extractToolResultId_of_lookup_scan {id : Str} {result : Json}
    (h : lookup (turn.scan seen).spanResultsById id = some result) :
    isToolResult result = true ∧ extractToolResultId result = some id :=
  (turn.spanResults_scan seen).isToolResult (mem_of_lookup h)

/-- An answer is a tool result for one of the calls. -/
theorem ToolTurn.pushed_spec {answer : Str × Json}
    (h : answer ∈ turn.pushed timestamp options seen) :
    isToolResult answer.2 = true ∧ extractToolResultId answer.2 = some answer.1 ∧
      answer.1 ∈ turn.calls.map (·.id) := by
  rw [pushed] at h
  split_ifs at h
  · obtain ⟨call, hcall, hanswer⟩ := mem_filterMap.mp h
    obtain ⟨result, hlookup, rfl⟩ := Option.map_eq_some_iff.mp hanswer
    have hspec := extractToolResultId_of_lookup_scan hlookup
    exact ⟨hspec.1, hspec.2, mem_map_of_mem hcall⟩
  · obtain ⟨call, hcall, rfl⟩ := mem_map.mp h
    rw [pushedAnswer]
    refine ⟨?_, ?_, mem_map_of_mem hcall⟩
    · cases hlookup : lookup (turn.scan seen).spanResultsById call.id with
      | some result => exact (extractToolResultId_of_lookup_scan hlookup).1
      | none => exact isToolResult_makeMissingToolResult _ _ _
    · cases hlookup : lookup (turn.scan seen).spanResultsById call.id with
      | some result => exact (extractToolResultId_of_lookup_scan hlookup).2
      | none =>
        have hne := ne_nil_of_mem_extractToolCalls hcall
        exact extractToolResultId_makeMissingToolResult hne _ _

/-- What the outer loop does with a turn. -/
structure KeepsTurn (timestamp : Str) (options : ToolUseResultPairingOptions)
    (report report' : ToolUseRepair) (turn : ToolTurn) : Prop where
  out : report'.out = report.out ++ turn.assistant ::
    (turn.kept timestamp options report.seenToolResultIds).span
  seen : ∀ id, id ∈ report'.seenToolResultIds ↔ id ∈ report.seenToolResultIds ∨
    id ∈ (turn.keptAnswers timestamp options report.seenToolResultIds).map (·.1)
  orphans : report'.droppedOrphanCount = report.droppedOrphanCount + turn.orphans.length
  unchanged : report'.changed = false → report.changed = false ∧ turn.orphans = [] ∧
    (¬turn.Failed → others turn.span = [] ∧ ∀ call ∈ turn.calls,
      (lookup (turn.scan report.seenToolResultIds).spanResultsById call.id).isSome = true)

theorem keepsTurn_of_pushedOnce {report report₁ report₂ : ToolUseRepair}
    (h : PushedOnce (report₁.push [turn.assistant]) report₂
      (turn.pushed timestamp options report.seenToolResultIds))
    (hout : report₁.out = report.out) (hseen : report₁.seenToolResultIds = report.seenToolResultIds)
    (horphans : report₁.droppedOrphanCount = report.droppedOrphanCount + turn.orphans.length)
    (hunchanged : report₂.changed = false → report.changed = false ∧ turn.orphans = [] ∧
      (¬turn.Failed → others turn.span = [] ∧ ∀ call ∈ turn.calls,
        (lookup (turn.scan report.seenToolResultIds).spanResultsById call.id).isSome = true)) :
    KeepsTurn timestamp options report (report₂.push (others turn.span)) turn where
  out := by
    show report₂.out ++ _ = _
    rw [h.out]
    show report₁.out ++ [turn.assistant] ++ (firstAnswers report₁.seenToolResultIds _).map _ ++ _ = _
    rw [hout, hseen, ToolTurn.kept, ToolTurn.keptAnswers]
    simp
  seen id := by
    show id ∈ report₂.seenToolResultIds ↔ _
    rw [h.seen, ToolTurn.keptAnswers, mem_map_fst_firstAnswers]
    show id ∈ report₁.seenToolResultIds ∨ _ ↔ _
    rw [hseen]
    tauto
  orphans := by
    show report₂.droppedOrphanCount = _
    rw [h.orphans]
    exact horphans
  unchanged := hunchanged

theorem keepsTurn_repairTurn (hpolicy : options.erroredAssistantResultPolicy = .preserve)
    (hassistant : assistantHasToolCalls turn.assistant = true) (report : ToolUseRepair) : KeepsTurn timestamp options report
      (repairTurn timestamp options report turn.assistant (turn.scan report.seenToolResultIds))
      turn := by
  set scan := turn.scan report.seenToolResultIds with hscan
  have horphans : report.droppedOrphanCount + scan.droppedOrphanCount =
      report.droppedOrphanCount + turn.orphans.length := by rw [hscan, turn.orphans_scan]
  unfold repairTurn
  dsimp only
  rw [show scan.remainder = others turn.span from turn.remainder_scan _,
    show extractToolCallsFromAssistant turn.assistant = turn.calls from rfl]
  by_cases hfailed : turn.Failed
  · rw [if_pos (show stoppedWithError turn.assistant = true from hfailed), hpolicy]
    set report₁ : ToolUseRepair :=
      { report with
        droppedDuplicateCount := report.droppedDuplicateCount + scan.droppedDuplicateCount
        droppedOrphanCount := report.droppedOrphanCount + scan.droppedOrphanCount
        changed := report.changed || scan.changed } with hreport₁
    have hid : ∀ call ∈ turn.calls, ∀ result, lookup scan.spanResultsById call.id = some result →
        extractToolResultId result = some call.id :=
      fun _ _ _ hlookup => (extractToolResultId_of_lookup_scan hlookup).2
    have hpushed := pushedOnce_pushRetained hid (report₁.push [turn.assistant])
    have heq : turn.pushed timestamp options report.seenToolResultIds =
        turn.calls.filterMap fun call =>
          (lookup scan.spanResultsById call.id).map (call.id, ·) := if_pos hfailed
    rw [← heq] at hpushed
    apply keepsTurn_of_pushedOnce hpushed (by rfl) (by rfl) horphans
    intro hchanged
    have hbefore : (report.changed || scan.changed) = false := hpushed.unchanged hchanged
    rw [Bool.or_eq_false_iff] at hbefore
    exact ⟨hbefore.1, turn.orphans_of_unchanged hbefore.2, fun hnot => absurd hfailed hnot⟩
  · rw [if_neg (show ¬stoppedWithError turn.assistant = true from hfailed)]
    set late := !scan.spanResultsById.isEmpty && !(others turn.span).isEmpty with hlate
    set report₁ : ToolUseRepair :=
      { report with
        droppedDuplicateCount := report.droppedDuplicateCount + scan.droppedDuplicateCount
        droppedOrphanCount := report.droppedOrphanCount + scan.droppedOrphanCount
        moved := report.moved || late
        changed := report.changed || scan.changed || late } with hreport₁
    have hid : ∀ call ∈ turn.calls, extractToolResultId (pushedAnswer timestamp options
        scan.spanResultsById call).2 = some call.id := by
      intro call hcall
      have hmem : pushedAnswer timestamp options scan.spanResultsById call ∈
          turn.pushed timestamp options report.seenToolResultIds := by
        rw [ToolTurn.pushed, if_neg hfailed]
        exact mem_map_of_mem hcall
      exact (pushed_spec hmem).2.1
    obtain ⟨hpushed, hreal⟩ := pushedOnce_pushAnswers hid (report₁.push [turn.assistant])
    have heq : turn.pushed timestamp options report.seenToolResultIds =
        turn.calls.map (pushedAnswer timestamp options scan.spanResultsById) := if_neg hfailed
    rw [← heq] at hpushed
    apply keepsTurn_of_pushedOnce hpushed (by rfl) (by rfl) horphans
    intro hchanged
    have hbefore : (report.changed || scan.changed || late) = false := hpushed.unchanged hchanged
    rw [Bool.or_eq_false_iff, Bool.or_eq_false_iff] at hbefore
    refine ⟨hbefore.1.1, turn.orphans_of_unchanged hbefore.1.2, fun _ => ⟨?_, hreal hchanged⟩⟩
    -- some call has a real result, so another message would make it late
    obtain ⟨call, hcall⟩ := exists_mem_of_ne_nil _ (extractToolCalls_ne_nil hassistant)
    obtain ⟨result, hresult⟩ := Option.isSome_iff_exists.mp (hreal hchanged call hcall)
    have hne : scan.spanResultsById.isEmpty = false :=
      isEmpty_eq_false_iff.mpr (ne_nil_of_mem (mem_of_lookup hresult))
    have hnotLate := hbefore.2
    rw [hlate, hne, Bool.not_false, Bool.true_and, Bool.not_eq_false'] at hnotLate
    exact List.isEmpty_iff.mp hnotLate

/-! ## The outer loop -/

def keptTurns (timestamp : Str) (options : ToolUseResultPairingOptions) :
    List Str → List ToolTurn → List ToolTurn
  | _, [] => []
  | seen, turn :: turns => turn.kept timestamp options seen :: keptTurns timestamp options
      (seen ++ (turn.keptAnswers timestamp options seen).map (·.1)) turns

theorem keptTurns_congr (h : ∀ id, id ∈ seen ↔ id ∈ seen') (turns : List ToolTurn) :
    keptTurns timestamp options seen turns = keptTurns timestamp options seen' turns := by
  induction turns generalizing seen seen' with
  | nil => rfl
  | cons turn turns ih =>
    rw [keptTurns, keptTurns, ToolTurn.kept, ToolTurn.kept, keptAnswers_congr h]
    congr 1
    apply ih
    intro id
    rw [mem_append, mem_append, h]

/-- All calls of the turn have a real result, and nothing else is in its span. -/
def ToolTurn.Settled (turn : ToolTurn) : Prop :=
  turn.orphans = [] ∧ (¬turn.Failed → others turn.span = [] ∧ ∀ call ∈ turn.calls,
    ∃ msg ∈ turn.span, isToolResult msg = true ∧ extractToolResultId msg = some call.id)

theorem ToolTurn.exists_of_lookup_scan {id : Str}
    (h : (lookup (turn.scan seen).spanResultsById id).isSome = true) :
    ∃ msg ∈ turn.span, isToolResult msg = true ∧ extractToolResultId msg = some id := by
  obtain ⟨result, hresult⟩ := Option.isSome_iff_exists.mp h
  obtain ⟨-, -, msg, hmsg, htool, hid, -⟩ :=
    (turn.spanResults_scan seen).result _ (mem_of_lookup hresult)
  exact ⟨msg, hmsg, htool, hid⟩

/-- What the outer loop does with a transcript. -/
structure KeepsTurns (timestamp : Str) (options : ToolUseResultPairingOptions)
    (report report' : ToolUseRepair) (before : List Json) (turns : List ToolTurn) : Prop where
  out : report'.out = report.out ++ (others before ++
    joinTurns (keptTurns timestamp options report.seenToolResultIds turns))
  orphans : report'.droppedOrphanCount = report.droppedOrphanCount +
    (before.countP isToolResult + (turns.map (·.orphans.length)).sum)
  unchanged : report'.changed = false → report.changed = false ∧
    before.countP isToolResult = 0 ∧ ∀ turn ∈ turns, turn.Settled

theorem keepsTurns_repairLoop (hpolicy : options.erroredAssistantResultPolicy = .preserve)
    {fuel : ℕ} (hfuel : messages.length ≤ fuel) (report : ToolUseRepair) :
    KeepsTurns timestamp options report (repairLoop timestamp options fuel report messages)
      (splitTurns messages).1 (splitTurns messages).2 := by
  induction fuel generalizing messages report with
  | zero =>
    have hnil : messages = [] := length_eq_zero_iff.mp (Nat.le_zero.mp hfuel)
    subst hnil
    exact ⟨(append_nil _).symm, rfl, fun h => ⟨h, rfl, fun _ hmem => nomatch hmem⟩⟩
  | succ fuel ih =>
    cases messages with
    | nil => exact ⟨(append_nil _).symm, rfl, fun h => ⟨h, rfl, fun _ hmem => nomatch hmem⟩⟩
    | cons msg rest =>
      have hrest : rest.length ≤ fuel := Nat.le_of_succ_le_succ hfuel
      rw [repairLoop]
      by_cases hcalls : assistantHasToolCalls msg = true
      · -- the inner loop takes the messages up to the next turn
        have hsplit : splitTurns (msg :: rest) =
            ([], ⟨msg, (splitTurns rest).1⟩ :: (splitTurns rest).2) := by
          rw [splitTurns, if_pos hcalls]
        rw [if_pos hcalls, scanSpan_eq, hsplit]
        set turn : ToolTurn := ⟨msg, (splitTurns rest).1⟩
        have hturn := @keepsTurn_repairTurn timestamp options turn hpolicy hcalls report
        set report₁ := repairTurn timestamp options report msg (turn.scan report.seenToolResultIds)
        have hdrop := splitTurns_dropWhile rest
        have hlength : (rest.dropWhile fun msg => !assistantHasToolCalls msg).length ≤ fuel :=
          (length_dropWhile_le _ _).trans hrest
        have hloop := ih hlength report₁
        rw [hdrop] at hloop
        have hseen : keptTurns timestamp options report₁.seenToolResultIds (splitTurns rest).2 =
            keptTurns timestamp options (report.seenToolResultIds ++
              (turn.keptAnswers timestamp options report.seenToolResultIds).map (·.1))
              (splitTurns rest).2 := by
          apply keptTurns_congr
          intro id
          rw [hturn.seen, mem_append]
        refine ⟨?_, ?_, fun hchanged => ?_⟩
        · show (repairLoop timestamp options fuel report₁ _).out = _
          rw [hloop.out, hturn.out, hseen]
          simp [keptTurns, joinTurns, others, ToolTurn.kept]
        · show (repairLoop timestamp options fuel report₁ _).droppedOrphanCount = _
          rw [hloop.orphans, hturn.orphans]
          simp only [countP_nil, map_cons, sum_cons]
          omega
        · obtain ⟨hchanged₁, -, hturns⟩ := hloop.unchanged hchanged
          obtain ⟨hbefore, horphans, hanswered⟩ := hturn.unchanged hchanged₁
          refine ⟨hbefore, rfl, forall_mem_cons.mpr ⟨⟨horphans, fun hfailed => ?_⟩, hturns⟩⟩
          obtain ⟨hothers, hlookup⟩ := hanswered hfailed
          exact ⟨hothers, fun call hcall => exists_of_lookup_scan (hlookup call hcall)⟩
      · have hcalls := Bool.eq_false_iff.mpr hcalls
        have hsplit : splitTurns (msg :: rest) =
            (msg :: (splitTurns rest).1, (splitTurns rest).2) := by
          rw [splitTurns, hcalls]
          rfl
        rw [hsplit, hcalls, if_neg Bool.false_ne_true]
        cases hresult : isToolResult msg with
        | true =>
          set report₁ : ToolUseRepair :=
            { report with
              droppedOrphanCount := report.droppedOrphanCount + 1
              changed := true } with hreport₁
          have hloop := ih hrest report₁
          rw [if_pos rfl]
          refine ⟨?_, ?_, fun hchanged => ?_⟩
          · rw [hloop.out, others, others, filter_cons]
            simp [hresult, hreport₁]
          · rw [hloop.orphans, countP_cons, if_pos hresult, hreport₁]
            dsimp only
            omega
          · have htrue := (hloop.unchanged hchanged).1
            rw [hreport₁] at htrue
            cases htrue
        | false =>
          have hloop := ih hrest (report.push [msg])
          rw [if_neg Bool.false_ne_true]
          refine ⟨?_, ?_, fun hchanged => ?_⟩
          · rw [hloop.out, others, others, filter_cons]
            simp [hresult, ToolUseRepair.push]
          · rw [hloop.orphans, countP_cons, if_neg (by rw [hresult]; exact Bool.false_ne_true)]
            rfl
          · obtain ⟨hbefore, hnone, hturns⟩ := hloop.unchanged hchanged
            refine ⟨hbefore, ?_, hturns⟩
            rw [countP_cons, if_neg (by rw [hresult]; exact Bool.false_ne_true), hnone]

end OpenClaw
