import OpenClaw.Lib.LeavesOut
import OpenClaw.Transcript.Kept
import OpenClaw.Transcript.Pairing

/-!
# Pairs of calls and results

What the repair makes of any transcript: which messages it keeps, which results it leaves out,
and how calls and results are paired behind it.
-/

namespace OpenClaw

open Json List ToolTurn LeavesOut

variable {timestamp : Str} {options : ToolUseResultPairingOptions} {turn : ToolTurn}
  {turns : List ToolTurn} {messages messages' : List Json} {seen seen' : List Str}

/-- No result without its call, and no call without an answer, be it the one to an earlier call
with its id. The results stand directly behind their turn. -/
structure Paired (messages : List Json) : Prop where
  before : ∀ msg ∈ (splitTurns messages).1, isToolResult msg = false
  placed : ∀ turn ∈ (splitTurns messages).2, ¬turn.Failed →
    ∃ results, turn.span = results ++ others turn.span
  called : ∀ turn ∈ (splitTurns messages).2, ∀ msg ∈ turn.span, isToolResult msg = true →
    ∃ call ∈ turn.calls, extractToolResultId msg = some call.id
  answered : ∀ earlier turn later, (splitTurns messages).2 = earlier ++ turn :: later →
    ¬turn.Failed → ∀ call ∈ turn.calls, ∃ turn' ∈ earlier ++ [turn], ∃ msg ∈ turn'.span,
      isToolResult msg = true ∧ extractToolResultId msg = some call.id

/-- In its span a turn that did not fail has a result for each call. -/
def ToolTurn.Answered (turn : ToolTurn) : Prop :=
  ¬turn.Failed → ∀ call ∈ turn.calls, ∃ msg ∈ turn.span,
    isToolResult msg = true ∧ extractToolResultId msg = some call.id

variable (messages)

def AnsweredInTurn : Prop :=
  ∀ turn ∈ (splitTurns messages).2, turn.Answered

/-- The results stand before the next message of the assistant. -/
def ToolTurn.AnsweredSoon (turn : ToolTurn) : Prop :=
  ¬turn.Failed → ∀ call ∈ turn.calls, ∃ msg ∈ turn.span.takeWhile fun msg => !isAssistant msg,
    isToolResult msg = true ∧ extractToolResultId msg = some call.id

def AnsweredBeforeNextAssistant : Prop :=
  ∀ turn ∈ (splitTurns messages).2, turn.AnsweredSoon

theorem ToolTurn.AnsweredSoon.answered (h : turn.AnsweredSoon) : turn.Answered := by
  intro hfailed call hcall
  obtain ⟨msg, hmsg, hanswer⟩ := h hfailed call hcall
  exact ⟨msg, (takeWhile_sublist _).subset hmsg, hanswer⟩

def toolResultIds : List Str :=
  (messages.filter isToolResult).filterMap extractToolResultId

/-- No two tool results have one id. -/
def DistinctResultIds : Prop := (toolResultIds messages).Nodup

variable {messages}

/-- The message under another tool name. -/
def Renamed (msg msg' : Json) : Prop :=
  msg' = msg ∨ isToolResult msg = true ∧ ∃ name, msg' = withStringField msg "toolName".toList name

/-! ## Renaming -/

theorem insert_insert (entries : List (Str × Json)) (key : Str) (value value' : Json) :
    insert (insert entries key value) key value' = insert entries key value' := by
  have hany : (insert entries key value).any (·.1 = key) = true := by
    have hsome : (lookup (insert entries key value) key).isSome = true := by
      rw [lookup_insert]
      rfl
    obtain ⟨entry, hentry, hkey⟩ := mem_map.mp (lookup_isSome_iff.mp hsome)
    exact any_eq_true.mpr ⟨entry, hentry, decide_eq_true hkey⟩
  rw [Json.insert, if_pos hany, Json.insert, Json.insert]
  split_ifs with hold
  · rw [map_map]
    apply map_congr_left
    intro entry _
    by_cases hkey : entry.1 = key <;> simp [hkey]
  · rw [map_append]
    congr 1
    · conv_rhs => rw [← map_id entries]
      apply map_congr_left
      intro entry hentry
      have hne : entry.1 ≠ key := by
        intro hkey
        exact hold (any_eq_true.mpr ⟨entry, hentry, decide_eq_true hkey⟩)
      rw [if_neg hne, id]
    · simp

theorem renamed_refl (msg : Json) : Renamed msg msg := .inl rfl

theorem Renamed.isToolResult_eq {msg msg' : Json} (h : Renamed msg msg') :
    isToolResult msg' = isToolResult msg := by
  rcases h with rfl | ⟨hresult, name, rfl⟩
  · rfl
  · rw [hresult, isToolResult_withStringField_toolName hresult]

theorem Renamed.extractToolResultId_eq {msg msg' : Json} (h : Renamed msg msg') :
    extractToolResultId msg' = extractToolResultId msg := by
  rcases h with rfl | ⟨hresult, name, rfl⟩
  · rfl
  · have hobject : msg.isObject = true := isObject_of_stringField? (of_decide_eq_true hresult)
    rw [extractToolResultId, stringField?_withStringField_of_ne hobject (by decide),
      stringField?_withStringField_of_ne hobject (by decide), extractToolResultId]

theorem Renamed.trans {msg msg' msg'' : Json} (h : Renamed msg msg') (h' : Renamed msg' msg'') :
    Renamed msg msg'' := by
  rcases h with rfl | ⟨hresult, name, rfl⟩
  · exact h'
  · rcases h' with rfl | ⟨-, name', rfl⟩
    · exact .inr ⟨hresult, name, rfl⟩
    · refine .inr ⟨hresult, name', ?_⟩
      obtain ⟨entries, rfl⟩ :=
        isObject_iff.mp (isObject_of_stringField? (of_decide_eq_true hresult))
      show Json.object (insert (insert entries _ _) _ _) = Json.object (insert entries _ _)
      rw [insert_insert]

theorem renamed_normalizeToolResultName {msg : Json} (h : isToolResult msg = true)
    (name : Option Str) : Renamed msg (normalizeToolResultName msg name) := by
  unfold normalizeToolResultName
  split
  · exact .inr ⟨h, _, rfl⟩
  · exact .inl rfl

/-! ## Ids of results -/

theorem toolResultIds_append (messages messages' : List Json) :
    toolResultIds (messages ++ messages') = toolResultIds messages ++ toolResultIds messages' := by
  rw [toolResultIds, filter_append, filterMap_append]
  rfl

theorem mem_toolResultIds {id : Str} : id ∈ toolResultIds messages ↔
    ∃ msg ∈ messages, isToolResult msg = true ∧ extractToolResultId msg = some id := by
  simp only [toolResultIds, mem_filterMap, mem_filter, and_assoc]

theorem toolResultIds_perm (h : messages.Perm messages') :
    (toolResultIds messages).Perm (toolResultIds messages') :=
  (h.filter _).filterMap _

theorem toolResultIds_renamed (h : List.Forall₂ Renamed messages messages') :
    toolResultIds messages' = toolResultIds messages := by
  induction h with
  | nil => rfl
  | cons hmsg _ ih =>
    rw [toolResultIds, toolResultIds] at ih ⊢
    rw [filter_cons, filter_cons, hmsg.isToolResult_eq]
    split_ifs
    · rw [filterMap_cons, filterMap_cons, hmsg.extractToolResultId_eq, ih]
    · exact ih

/-- The ids stay distinct where messages are left out. -/
theorem DistinctResultIds.of_leavesOut {n : ℕ} (h : DistinctResultIds messages)
    (hleaves : LeavesOut Renamed messages messages' n) : DistinctResultIds messages' := by
  obtain ⟨kept, gone, hperm, hkept, -⟩ := hleaves
  have hnodup := (toolResultIds_perm hperm).nodup_iff.mp h
  rw [toolResultIds_append] at hnodup
  rw [DistinctResultIds, toolResultIds_renamed hkept]
  exact hnodup.of_append_left

/-! ## A turn whose calls are answered -/

theorem nodup_of_nodup_map_fst {answers : List (Str × Json)} (h : (answers.map (·.1)).Nodup) :
    answers.Nodup := List.Nodup.of_map _ h

theorem ToolTurn.mem_of_mem_pushed (hanswered : turn.Failed ∨ ∀ call ∈ turn.calls,
    (lookup (turn.scan seen).spanResultsById call.id).isSome = true) {answer : Str × Json}
    (h : answer ∈ turn.pushed timestamp options seen) :
    answer ∈ (turn.scan seen).spanResultsById := by
  rw [pushed] at h
  split_ifs at h with hfailed
  · obtain ⟨call, -, hanswer⟩ := mem_filterMap.mp h
    obtain ⟨result, hlookup, rfl⟩ := Option.map_eq_some_iff.mp hanswer
    exact mem_of_lookup hlookup
  · obtain ⟨call, hcall, rfl⟩ := mem_map.mp h
    have hsome := hanswered.resolve_left hfailed call hcall
    obtain ⟨result, hlookup⟩ := Option.isSome_iff_exists.mp hsome
    rw [pushedAnswer, hlookup]
    exact mem_of_lookup hlookup

theorem ToolTurn.mem_map_fst_pushed {answer : Str × Json}
    (h : answer ∈ (turn.scan seen).spanResultsById) :
    answer.1 ∈ (turn.pushed timestamp options seen).map (·.1) := by
  have hspec := turn.spanResults_scan seen
  obtain ⟨call, hcall, heq⟩ := mem_map.mp (hspec.result answer h).1
  have hlookup := lookup_of_mem hspec.nodup h
  rw [pushed]
  split_ifs
  · refine mem_map.mpr ⟨answer, mem_filterMap.mpr ⟨call, hcall, ?_⟩, rfl⟩
    rw [heq, hlookup]
    rfl
  · rw [map_fst_pushedAnswer]
    exact heq ▸ mem_map_of_mem hcall

/-- Where no answer is made up, the results of the span are kept, in the order of the calls. -/
theorem ToolTurn.perm_keptAnswers (hanswered : turn.Failed ∨ ∀ call ∈ turn.calls,
    (lookup (turn.scan seen).spanResultsById call.id).isSome = true) :
    (turn.keptAnswers timestamp options seen).Perm (turn.scan seen).spanResultsById := by
  have hspec := turn.spanResults_scan seen
  have hkept : ∀ answer ∈ turn.keptAnswers timestamp options seen,
      answer ∈ (turn.scan seen).spanResultsById := by
    intro answer hanswer
    exact mem_of_mem_pushed hanswered ((firstAnswers_sublist _ _).subset hanswer)
  have hnodup : (turn.keptAnswers timestamp options seen).Nodup :=
    nodup_of_nodup_map_fst (nodup_map_fst_firstAnswers _ _)
  rw [perm_ext_iff_of_nodup hnodup (nodup_of_nodup_map_fst hspec.nodup)]
  intro answer
  constructor
  · exact hkept answer
  · intro hanswer
    have hid : answer.1 ∈ (turn.keptAnswers timestamp options seen).map (·.1) :=
      (mem_map_fst_firstAnswers _ _ _).mpr
        ⟨mem_map_fst_pushed hanswer, (hspec.result answer hanswer).2.1⟩
    obtain ⟨answer', hanswer', heq⟩ := mem_map.mp hid
    have hsame : answer' = answer :=
      inj_on_of_nodup_map hspec.nodup (hkept answer' hanswer') hanswer heq
    rw [← hsame]
    exact hanswer'

variable (calls : List ToolCallLike) (span : List Json)

/-- The results of a span for the calls, with their ids. -/
def realResults : List (Str × Json) :=
  (span.filter isToolResult).filterMap fun msg => (answeredId? calls msg).map fun id =>
    (id, normalizeToolResultName msg (toolCallName? calls id))

theorem realResults_cons (next : Json) (span : List Json) :
    realResults calls (next :: span) = (if isToolResult next then
      ((answeredId? calls next).map fun id =>
        (id, normalizeToolResultName next (toolCallName? calls id))).toList else []) ++
      realResults calls span := by
  rw [realResults, filter_cons]
  split_ifs
  · rw [filterMap_cons]
    cases answeredId? calls next <;> rfl
  · rfl

/-- Distinct results for ids that have not been answered are all kept. -/
theorem spanResultsById_foldl {calls : List ToolCallLike} (scan : ToolResultSpan) (span : List Json)
    (hnodup : ((scan.spanResultsById ++ realResults calls span).map (·.1)).Nodup)
    (hseen : ∀ answer ∈ realResults calls span, answer.1 ∉ seen) :
    (span.foldl (spanStep calls seen) scan).spanResultsById =
      scan.spanResultsById ++ realResults calls span := by
  induction span generalizing scan with
  | nil => exact (append_nil _).symm
  | cons next span ih =>
    rw [realResults_cons] at hnodup hseen ⊢
    rw [foldl_cons, spanStep]
    cases hresult : isToolResult next with
    | false =>
      rw [hresult] at hnodup hseen
      exact ih _ hnodup hseen
    | true =>
      rw [hresult] at hnodup hseen
      rw [if_pos rfl, if_pos rfl] at *
      cases hanswered : answeredId? calls next with
      | none =>
        rw [hanswered] at hnodup hseen
        have hstep : (scan.addResult calls seen next).spanResultsById = scan.spanResultsById := by
          rw [answeredId?] at hanswered
          rw [ToolResultSpan.addResult, hanswered]
        rw [ih _ (by rw [hstep]; exact hnodup) hseen, hstep]
        rfl
      | some id =>
        rw [hanswered] at hnodup hseen
        rw [Option.map_some, Option.toList_some] at hnodup hseen ⊢
        set answer := (id, normalizeToolResultName next (toolCallName? calls id)) with hanswer
        have hstep : (scan.addResult calls seen next).spanResultsById =
            scan.spanResultsById ++ [answer] := by
          have hfresh : id ∉ seen := hseen answer mem_cons_self
          have hnone : lookup scan.spanResultsById id = none := by
            rw [lookup_eq_none_iff]
            intro hmem
            rw [map_append, nodup_append] at hnodup
            exact hnodup.2.2 id hmem id (by simp [hanswer]) rfl
          rw [answeredId?] at hanswered
          rw [ToolResultSpan.addResult, hanswered]
          dsimp only
          rw [if_neg hfresh, hnone]
          rfl
        have hrest : ∀ answer' ∈ realResults calls span, answer'.1 ∉ seen :=
          fun answer' hmem => hseen answer' (mem_cons_of_mem _ hmem)
        have hnodup' : (((scan.addResult calls seen next).spanResultsById ++
            realResults calls span).map (·.1)).Nodup := by
          rw [hstep, append_assoc]
          exact hnodup
        rw [ih _ hnodup' hrest, hstep, append_assoc]

theorem map_fst_realResults_sublist :
    ((realResults calls span).map (·.1)).Sublist (toolResultIds span) := by
  rw [realResults, toolResultIds]
  induction span.filter isToolResult with
  | nil => exact List.Sublist.refl _
  | cons next results ih =>
    rw [filterMap_cons, filterMap_cons, answeredId?]
    cases hid : extractToolResultId next with
    | none => exact ih
    | some id =>
      rw [Option.filter_some]
      split_ifs
      · exact ih.cons_cons _
      · exact ih.cons _

/-- The messages of a span are its real results, its other messages and the orphans. -/
theorem leavesOut_realResults :
    LeavesOut Renamed span ((realResults calls span).map (·.2) ++ others span)
      (span.filter fun msg => isToolResult msg && (answeredId? calls msg).isNone).length := by
  induction span with
  | nil => exact refl renamed_refl []
  | cons next span ih =>
    rw [realResults_cons, others, filter_cons, filter_cons]
    cases hresult : isToolResult next with
    | false =>
      have hcons := (refl renamed_refl [next]).append ih
      rw [Nat.zero_add] at hcons
      apply hcons.perm_right
      show (next :: ((realResults calls span).map (·.2) ++ others span)).Perm
        ((realResults calls span).map (·.2) ++ next :: others span)
      exact perm_middle.symm
    | true =>
      cases hanswered : answeredId? calls next with
      | none =>
        have hcons := (nil Renamed [next]).append ih
        rw [length_singleton, Nat.add_comm] at hcons
        exact hcons
      | some id =>
        have hcons := (of_forall₂ (List.Forall₂.cons
          (renamed_normalizeToolResultName hresult (toolCallName? calls id)) .nil)).append ih
        rw [Nat.zero_add] at hcons
        exact hcons

/-- Distinct results that no earlier turn has: what the turn keeps of them. -/
structure KeepsAll (timestamp : Str) (options : ToolUseResultPairingOptions) (seen : List Str)
    (turn : ToolTurn) : Prop where
  leaves : LeavesOut Renamed turn.span (turn.kept timestamp options seen).span turn.orphans.length
  ids : ∀ id ∈ (turn.keptAnswers timestamp options seen).map (·.1), id ∈ toolResultIds turn.span
  answered : ¬turn.Failed → ∀ call ∈ turn.calls,
    call.id ∈ (turn.keptAnswers timestamp options seen).map (·.1)

theorem ToolTurn.keepsAll (hanswered : turn.Answered) (hnodup : DistinctResultIds turn.span)
    (hseen : ∀ id ∈ toolResultIds turn.span, id ∉ seen) : KeepsAll timestamp options seen turn := by
  have hsublist := map_fst_realResults_sublist turn.calls turn.span
  have hscan : (turn.scan seen).spanResultsById = realResults turn.calls turn.span := by
    apply spanResultsById_foldl
    · exact hsublist.nodup hnodup
    · intro answer hanswer
      exact hseen _ (hsublist.subset (mem_map_of_mem hanswer))
  have hreal : turn.Failed ∨ ∀ call ∈ turn.calls,
      (lookup (turn.scan seen).spanResultsById call.id).isSome = true := by
    by_cases hfailed : turn.Failed
    · exact .inl hfailed
    · right
      intro call hcall
      obtain ⟨msg, hmsg, hresult, hid⟩ := hanswered hfailed call hcall
      have hanswer : answeredId? turn.calls msg = some call.id := by
        rw [answeredId?, hid, Option.filter_some, if_pos (decide_eq_true (mem_map_of_mem hcall))]
      have hmem : (call.id, normalizeToolResultName msg (toolCallName? turn.calls call.id)) ∈
          realResults turn.calls turn.span := by
        refine mem_filterMap.mpr ⟨msg, mem_filter.mpr ⟨hmsg, hresult⟩, ?_⟩
        rw [hanswer]
        rfl
      rw [hscan, lookup_isSome_iff]
      exact mem_map_of_mem hmem
  have hperm : (turn.keptAnswers timestamp options seen).Perm (realResults turn.calls turn.span) := by
    rw [← hscan]
    exact perm_keptAnswers hreal
  refine ⟨?_, fun id hid => ?_, fun hfailed call hcall => ?_⟩
  · apply (leavesOut_realResults turn.calls turn.span).perm_right
    exact (hperm.symm.map _).append_right _
  · exact hsublist.subset ((hperm.map _).subset hid)
  · rw [ToolTurn.keptAnswers, mem_map_fst_firstAnswers]
    obtain ⟨msg, hmsg, hresult, hid⟩ := hanswered hfailed call hcall
    refine ⟨?_, hseen _ (mem_toolResultIds.mpr ⟨msg, hmsg, hresult, hid⟩)⟩
    rw [ToolTurn.pushed, if_neg hfailed, map_fst_pushedAnswer]
    exact mem_map_of_mem hcall

/-- The results that are kept stand directly behind their turn. -/
theorem ToolTurn.answeredSoon_kept (h : KeepsAll timestamp options seen turn) :
    (turn.kept timestamp options seen).AnsweredSoon := by
  intro hfailed call hcall
  obtain ⟨answer, hanswer, hid⟩ := mem_map.mp (h.answered hfailed call hcall)
  have hspec : ∀ answer ∈ turn.keptAnswers timestamp options seen, isToolResult answer.2 = true ∧
      extractToolResultId answer.2 = some answer.1 ∧ answer.1 ∈ turn.calls.map (·.id) :=
    fun _ hmem => pushed_spec ((firstAnswers_sublist _ _).subset hmem)
  refine ⟨answer.2, ?_, (hspec answer hanswer).1, ?_⟩
  · have hresults : ∀ msg ∈ (turn.keptAnswers timestamp options seen).map (·.2),
        (!isAssistant msg) = true := by
      intro msg hmsg
      obtain ⟨answer', hanswer', rfl⟩ := mem_map.mp hmsg
      cases hassistant : isAssistant answer'.2 with
      | false => rfl
      | true =>
        have hnot := not_isToolResult_of_isAssistant hassistant
        rw [(hspec answer' hanswer').1] at hnot
        cases hnot
    rw [ToolTurn.kept, takeWhile_append_of_pos hresults]
    exact mem_append_left _ (mem_map_of_mem hanswer)
  · rw [(hspec answer hanswer).2.1, hid]

/-! ## All turns -/

theorem ToolTurn.wellPlaced_kept (h : turn.WellPlaced) :
    (turn.kept timestamp options seen).WellPlaced := by
  refine ⟨h.1, fun msg hmsg => ?_⟩
  rcases mem_append.mp hmsg with hmsg | hmsg
  · obtain ⟨answer, hanswer, rfl⟩ := mem_map.mp hmsg
    have hspec := pushed_spec ((firstAnswers_sublist _ _).subset hanswer)
    exact not_assistantHasToolCalls_of_isToolResult hspec.1
  · exact h.2 msg (mem_filter.mp hmsg).1

theorem wellPlaced_keptTurns (h : ∀ turn ∈ turns, turn.WellPlaced) (seen : List Str) :
    ∀ turn ∈ keptTurns timestamp options seen turns, turn.WellPlaced := by
  induction turns generalizing seen with
  | nil =>
    intro turn hturn
    cases hturn
  | cons turn turns ih =>
    rw [forall_mem_cons] at h
    rw [keptTurns, forall_mem_cons]
    exact ⟨wellPlaced_kept h.1, ih h.2 _⟩

/-- With answered calls and distinct results, only the orphans are left out. -/
theorem leavesOut_keptTurns (hanswered : ∀ turn ∈ turns, turn.Answered)
    (hnodup : DistinctResultIds (joinTurns turns))
    (hseen : ∀ id ∈ toolResultIds (joinTurns turns), id ∉ seen) :
    LeavesOut Renamed (joinTurns turns) (joinTurns (keptTurns timestamp options seen turns))
      (turns.map (·.orphans.length)).sum ∧
    ∀ turn ∈ keptTurns timestamp options seen turns, turn.AnsweredSoon := by
  induction turns generalizing seen with
  | nil => exact ⟨refl renamed_refl [], fun _ h => nomatch h⟩
  | cons turn turns ih =>
    rw [forall_mem_cons] at hanswered
    have hjoin : joinTurns (turn :: turns) = [turn.assistant] ++ (turn.span ++ joinTurns turns) := by
      simp [joinTurns]
    rw [hjoin, DistinctResultIds, toolResultIds_append, toolResultIds_append] at hnodup
    rw [hjoin, toolResultIds_append, toolResultIds_append] at hseen
    have hspanIds := hnodup.of_append_right
    rw [nodup_append] at hspanIds
    have hkeeps : KeepsAll timestamp options seen turn := by
      apply keepsAll hanswered.1 hspanIds.1
      intro id hid
      exact hseen id (mem_append_right _ (mem_append_left _ hid))
    have hrest := @ih (seen ++ (turn.keptAnswers timestamp options seen).map (·.1)) hanswered.2
      hspanIds.2.1 (by
        intro id hid hmem
        rcases mem_append.mp hmem with hmem | hmem
        · exact hseen id (mem_append_right _ (mem_append_right _ hid)) hmem
        · exact hspanIds.2.2 id (hkeeps.ids id hmem) id hid rfl)
    rw [keptTurns, forall_mem_cons]
    refine ⟨?_, answeredSoon_kept hkeeps, hrest.2⟩
    have hturn := (refl renamed_refl [turn.assistant]).append
      (hkeeps.leaves.append hrest.1)
    rw [Nat.zero_add] at hturn
    rw [hjoin, map_cons, sum_cons]
    have hkept : joinTurns (turn.kept timestamp options seen :: keptTurns timestamp options
        (seen ++ (turn.keptAnswers timestamp options seen).map (·.1)) turns) =
        [turn.assistant] ++ ((turn.kept timestamp options seen).span ++
          joinTurns (keptTurns timestamp options
            (seen ++ (turn.keptAnswers timestamp options seen).map (·.1)) turns)) := by
      simp [joinTurns, ToolTurn.kept]
    rw [hkept]
    exact hturn

/-- An answer that is kept stands in the span of its turn. -/
theorem ToolTurn.exists_mem_span_kept {id : Str}
    (h : id ∈ (turn.keptAnswers timestamp options seen).map (·.1)) :
    ∃ msg ∈ (turn.kept timestamp options seen).span,
      isToolResult msg = true ∧ extractToolResultId msg = some id := by
  obtain ⟨answer, hanswer, rfl⟩ := mem_map.mp h
  have hspec := pushed_spec ((firstAnswers_sublist _ _).subset hanswer)
  exact ⟨answer.2, mem_append_left _ (mem_map_of_mem hanswer), hspec.1, hspec.2.1⟩

theorem answered_keptTurns (turns : List ToolTurn) (seen : List Str) (earlier : List ToolTurn)
    (later : List ToolTurn) (hsplit : keptTurns timestamp options seen turns =
      earlier ++ turn :: later) (hfailed : ¬turn.Failed) (call : ToolCallLike)
    (hcall : call ∈ turn.calls) : call.id ∈ seen ∨ ∃ turn' ∈ earlier ++ [turn], ∃ msg ∈ turn'.span,
      isToolResult msg = true ∧ extractToolResultId msg = some call.id := by
  induction turns generalizing seen earlier with
  | nil => simp [keptTurns] at hsplit
  | cons first turns ih =>
    rw [keptTurns] at hsplit
    cases earlier with
    | nil =>
      obtain ⟨rfl, -⟩ := cons_eq_cons.mp hsplit
      by_cases hseen : call.id ∈ seen
      · exact .inl hseen
      · right
        have hpushed : call.id ∈ (first.pushed timestamp options seen).map (·.1) := by
          rw [ToolTurn.pushed, if_neg (show ¬first.Failed from hfailed), map_fst_pushedAnswer]
          exact mem_map_of_mem hcall
        have hkept := (mem_map_fst_firstAnswers seen _ _).mpr ⟨hpushed, hseen⟩
        exact ⟨_, mem_singleton_self _, exists_mem_span_kept hkept⟩
    | cons first' earlier =>
      obtain ⟨rfl, hrest⟩ := cons_eq_cons.mp hsplit
      rcases ih _ earlier hrest with hseen | ⟨turn', hturn', hmsg⟩
      · rcases mem_append.mp hseen with hseen | hkept
        · exact .inl hseen
        · exact .inr ⟨_, mem_cons_self, exists_mem_span_kept hkept⟩
      · exact .inr ⟨turn', mem_cons_of_mem _ hturn', hmsg⟩

/-- The kept answers to a turn are tool results. -/
theorem ToolTurn.others_keptAnswers (turn : ToolTurn) :
    others ((turn.keptAnswers timestamp options seen).map (·.2)) = [] := by
  apply others_eq_nil
  intro msg hmsg
  obtain ⟨answer, hanswer, rfl⟩ := mem_map.mp hmsg
  exact (pushed_spec ((firstAnswers_sublist _ _).subset hanswer)).1

theorem ToolTurn.others_kept (turn : ToolTurn) :
    others (turn.kept timestamp options seen).span = others turn.span := by
  rw [kept, others_append, others_keptAnswers, others_others, nil_append]

variable (turns seen)

theorem placed_keptTurns : ∀ turn ∈ keptTurns timestamp options seen turns,
      ∃ results, turn.span = results ++ others turn.span := by
  induction turns generalizing seen with
  | nil =>
    intro turn hturn
    cases hturn
  | cons first turns ih =>
    rw [keptTurns, forall_mem_cons]
    refine ⟨⟨(first.keptAnswers timestamp options seen).map (·.2), ?_⟩, ih _⟩
    rw [first.others_kept]
    rfl

theorem called_keptTurns :
    ∀ turn ∈ keptTurns timestamp options seen turns, ∀ msg ∈ turn.span, isToolResult msg = true →
      ∃ call ∈ turn.calls, extractToolResultId msg = some call.id := by
  induction turns generalizing seen with
  | nil =>
    intro turn hturn
    cases hturn
  | cons first turns ih =>
    rw [keptTurns, forall_mem_cons]
    refine ⟨fun msg hmsg hresult => ?_, ih _⟩
    rcases mem_append.mp hmsg with hmsg | hmsg
    · obtain ⟨answer, hanswer, rfl⟩ := mem_map.mp hmsg
      have hspec := pushed_spec ((firstAnswers_sublist _ _).subset hanswer)
      obtain ⟨call, hcall, hid⟩ := mem_map.mp hspec.2.2
      exact ⟨call, hcall, by rw [hspec.2.1, hid]⟩
    · rw [not_isToolResult_of_mem_others hmsg] at hresult
      cases hresult

variable {turns seen}

theorem others_joinTurns_keptTurns (hassistants : ∀ turn ∈ turns, turn.WellPlaced)
    (seen : List Str) : others (joinTurns (keptTurns timestamp options seen turns)) =
      others (joinTurns turns) := by
  induction turns generalizing seen with
  | nil => rfl
  | cons turn turns ih =>
    rw [forall_mem_cons] at hassistants
    have hjoin : ∀ (first : ToolTurn) (rest : List ToolTurn), joinTurns (first :: rest) =
        first.assistant :: (first.span ++ joinTurns rest) := by
      intro first rest
      simp [joinTurns]
    rw [keptTurns, hjoin, hjoin, ← singleton_append, ← @singleton_append _ turn.assistant,
      others_append, others_append, others_append, others_append, turn.others_kept,
      ih hassistants.2]
    rfl

/-! ## The repair -/

theorem splitTurns_kept (messages : List Json) : splitTurns (others (splitTurns messages).1 ++
    joinTurns (keptTurns timestamp options [] (splitTurns messages).2)) =
      (others (splitTurns messages).1, keptTurns timestamp options [] (splitTurns messages).2) := by
  apply splitTurns_append_joinTurns
  · intro msg hmsg
    exact not_assistantHasToolCalls_of_mem_splitTurns (mem_filter.mp hmsg).1
  · exact wellPlaced_keptTurns (fun _ => wellPlaced_of_mem_splitTurns) []

section

variable (hpolicy : options.erroredAssistantResultPolicy = .preserve)

include hpolicy

theorem repair_droppedOrphanCount (messages : List Json) :
    (repairToolUseResultPairing timestamp options messages).droppedOrphanCount =
      (splitTurns messages).1.countP isToolResult +
        ((splitTurns messages).2.map (·.orphans.length)).sum := by
  have hloop := @keepsTurns_repairLoop timestamp options messages hpolicy _ le_rfl .init
  have horphans := hloop.orphans
  rw [show ToolUseRepair.init.droppedOrphanCount = 0 from rfl, Nat.zero_add] at horphans
  exact horphans

/-- Either the transcript is rebuilt, or nothing in it is out of place. -/
theorem repair_messages (messages : List Json) :
    (repairToolUseResultPairing timestamp options messages).messages =
      others (splitTurns messages).1 ++
        joinTurns (keptTurns timestamp options [] (splitTurns messages).2) ∨
    (repairToolUseResultPairing timestamp options messages).messages = messages ∧
      (splitTurns messages).1.countP isToolResult = 0 ∧
        ∀ turn ∈ (splitTurns messages).2, turn.Settled := by
  have hloop := @keepsTurns_repairLoop timestamp options messages hpolicy _ le_rfl .init
  rw [repairToolUseResultPairing]
  dsimp only
  split_ifs with hchanged
  · exact .inl hloop.out
  · right
    rw [Bool.not_eq_true, Bool.or_eq_false_iff] at hchanged
    exact ⟨rfl, (hloop.unchanged hchanged.1).2⟩

theorem others_repair (messages : List Json) :
    others (repairToolUseResultPairing timestamp options messages).messages = others messages := by
  rcases @repair_messages timestamp options hpolicy messages with heq | ⟨heq, -⟩
  · conv_rhs => rw [← append_joinTurns_splitTurns messages]
    rw [heq, others_append, others_append, others_others,
      others_joinTurns_keptTurns (fun _ => wellPlaced_of_mem_splitTurns)]
  · rw [heq]

theorem paired_repair (messages : List Json) :
    Paired (repairToolUseResultPairing timestamp options messages).messages := by
  rcases @repair_messages timestamp options hpolicy messages with heq | ⟨heq, hbefore, hsettled⟩
  · rw [heq]
    have hsplit := @splitTurns_kept timestamp options messages
    refine ⟨?_, ?_, ?_, ?_⟩
    · rw [hsplit]
      exact fun _ => not_isToolResult_of_mem_others
    · rw [hsplit]
      exact fun turn hturn _ => placed_keptTurns _ [] turn hturn
    · rw [hsplit]
      exact called_keptTurns _ []
    · rw [hsplit]
      intro earlier turn later hturns hfailed call hcall
      have hanswered := answered_keptTurns _ [] earlier later hturns hfailed call hcall
      exact hanswered.resolve_left not_mem_nil
  · rw [heq]
    refine ⟨?_, ?_, ?_, ?_⟩
    · intro msg hmsg
      exact Bool.eq_false_iff.mpr (countP_eq_zero.mp hbefore msg hmsg)
    · intro turn hturn hfailed
      have hothers := ((hsettled turn hturn).2 hfailed).1
      exact ⟨turn.span, by rw [hothers, append_nil]⟩
    · intro turn hturn msg hmsg hresult
      have horphan := (hsettled turn hturn).1
      rw [ToolTurn.orphans, filter_eq_nil_iff] at horphan
      have hnot := horphan msg hmsg
      rw [hresult, Bool.true_and, Bool.not_eq_true, Option.isNone_eq_false_iff,
        Option.isSome_iff_exists] at hnot
      obtain ⟨id, hid⟩ := hnot
      obtain ⟨hmsgId, hcall⟩ := Option.filter_eq_some_iff.mp hid
      obtain ⟨call, hcall, heq⟩ := mem_map.mp (of_decide_eq_true hcall)
      exact ⟨call, hcall, by rw [hmsgId, heq]⟩
    · intro earlier turn later hturns hfailed call hcall
      have hturn : turn ∈ (splitTurns messages).2 := by
        rw [hturns]
        simp
      obtain ⟨msg, hmsg⟩ := ((hsettled turn hturn).2 hfailed).2 call hcall
      exact ⟨turn, by simp, msg, hmsg⟩

/-- With answered calls and distinct results the repair leaves out the orphans and nothing else,
and makes up nothing. -/
theorem leavesOut_repair (hanswered : AnsweredInTurn messages)
    (hdistinct : DistinctResultIds messages) :
    LeavesOut Renamed messages (repairToolUseResultPairing timestamp options messages).messages
      (repairToolUseResultPairing timestamp options messages).droppedOrphanCount ∧
    AnsweredInTurn (repairToolUseResultPairing timestamp options messages).messages := by
  rw [@repair_droppedOrphanCount timestamp options hpolicy]
  rcases @repair_messages timestamp options hpolicy messages with heq | ⟨heq, hbefore, hsettled⟩
  · rw [heq, AnsweredInTurn, @splitTurns_kept timestamp options]
    have hids := hdistinct
    rw [← append_joinTurns_splitTurns messages, DistinctResultIds, toolResultIds_append] at hids
    have hturns := @leavesOut_keptTurns timestamp options _ [] hanswered hids.of_append_right
      (fun _ _ => not_mem_nil)
    have hothers : LeavesOut Renamed (splitTurns messages).1 (others (splitTurns messages).1)
        ((splitTurns messages).1.countP isToolResult) := by
      refine ⟨others (splitTurns messages).1, (splitTurns messages).1.filter isToolResult, ?_,
        forall₂_same.mpr fun msg _ => renamed_refl msg, countP_eq_length_filter.symm⟩
      have hperm := filter_append_perm isToolResult (splitTurns messages).1
      exact (perm_append_comm.trans hperm).symm
    refine ⟨?_, fun turn hturn => (hturns.2 turn hturn).answered⟩
    have hall := hothers.append hturns.1
    rw [append_joinTurns_splitTurns] at hall
    exact hall
  · rw [heq, hbefore]
    refine ⟨?_, hanswered⟩
    have hzero : ((splitTurns messages).2.map (·.orphans.length)).sum = 0 := by
      rw [List.sum_eq_zero_iff_forall_eq_nat]
      intro n hn
      obtain ⟨turn, hturn, rfl⟩ := mem_map.mp hn
      rw [(hsettled turn hturn).1]
      rfl
    rw [hzero]
    exact refl renamed_refl messages

theorem answeredSoon_repair (hanswered : AnsweredBeforeNextAssistant messages)
    (hdistinct : DistinctResultIds messages) : AnsweredBeforeNextAssistant
      (repairToolUseResultPairing timestamp options messages).messages := by
  rcases @repair_messages timestamp options hpolicy messages with heq | ⟨heq, -⟩
  · rw [heq, AnsweredBeforeNextAssistant, @splitTurns_kept timestamp options]
    have hids := hdistinct
    rw [← append_joinTurns_splitTurns messages, DistinctResultIds, toolResultIds_append] at hids
    have hturns := @leavesOut_keptTurns timestamp options _ []
      (fun turn hturn => (hanswered turn hturn).answered) hids.of_append_right
      (fun _ _ => not_mem_nil)
    exact hturns.2
  · rw [heq]
    exact hanswered

end

end OpenClaw
