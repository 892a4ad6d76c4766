import OpenClaw.Transcript.Pairing

/-!
# Reading a repaired transcript again

What is left out joins the turn before it. Every other turn has its answers right behind it, and
they are the real results that the next repair finds.
-/

namespace OpenClaw

open Json Option

variable {timestamp timestamp' : Str} {options : ToolUseResultPairingOptions} {turn : ToolTurn}
  {turns : List ToolTurn} {tail : List Json}

/-! ## Lists of answers -/

theorem lookup_filterMap {calls : List ToolCallLike} (hnodup : (calls.map (·.id)).Nodup)
    (answer? : ToolCallLike → Option Json) {call : ToolCallLike} (hcall : call ∈ calls) :
    lookup (calls.filterMap fun call => (answer? call).map (call.id, ·)) call.id =
      answer? call := by
  cases hanswer : answer? call with
  | some answer =>
    have hfst : ((calls.filterMap fun call => (answer? call).map (call.id, ·)).map
        Prod.fst).Nodup := by
      rw [List.map_filterMap]
      refine List.Nodup.sublist ?_ hnodup
      clear hnodup hcall
      induction calls with
      | nil => exact List.Sublist.refl []
      | cons call calls ih =>
        rw [List.filterMap_cons, List.map_cons]
        cases answer? call with
        | none => exact List.Sublist.cons _ ih
        | some answer => exact List.Sublist.cons_cons _ ih
    exact lookup_of_mem hfst (List.mem_filterMap.mpr ⟨call, hcall, by rw [hanswer]; rfl⟩)
  | none =>
    rw [lookup_eq_none_iff]
    intro hmem
    obtain ⟨entry, hentry, hid⟩ := List.mem_map.mp hmem
    obtain ⟨other, hother, hsome⟩ := List.mem_filterMap.mp hentry
    obtain ⟨result, hresult, rfl⟩ := Option.map_eq_some_iff.mp hsome
    rw [List.inj_on_of_nodup_map hnodup hother hcall hid, hanswer] at hresult
    cases hresult

/-- Answers for the same calls are the same only one by one. -/
theorem eq_of_filterMap_eq {calls : List ToolCallLike} {answer? answer'? : ToolCallLike → Option Json}
    (hsome : ∀ call, (answer? call).isSome = (answer'? call).isSome)
    (h : calls.filterMap answer? = calls.filterMap answer'?) :
    ∀ call ∈ calls, answer? call = answer'? call := by
  induction calls with
  | nil => exact fun _ hcall => nomatch hcall
  | cons call calls ih =>
    rw [List.filterMap_cons, List.filterMap_cons] at h
    have hcall := hsome call
    rw [List.forall_mem_cons]
    cases hanswer : answer? call with
    | none =>
      rw [hanswer] at h hcall
      have hnone : answer'? call = none := Option.isNone_iff_eq_none.mp (by
        rw [← not_isSome, ← hcall]
        rfl)
      rw [hnone] at h ⊢
      exact ⟨rfl, ih h⟩
    | some answer =>
      rw [hanswer] at h hcall
      obtain ⟨answer', hanswer'⟩ := Option.isSome_iff_exists.mp hcall.symm
      rw [hanswer'] at h ⊢
      obtain ⟨rfl, hrest⟩ := List.cons_eq_cons.mp h
      exact ⟨rfl, ih hrest⟩

theorem firstResult?_map_snd_append {answers : List (Str × Json)}
    (h : ∀ answer ∈ answers, isToolResult answer.2 = true ∧
      extractToolResultId answer.2 = some answer.1)
    (htail : ∀ msg ∈ tail, isToolResult msg = false) (id : Str) :
    firstResult? (answers.map (·.2) ++ tail) id = lookup answers id := by
  induction answers with
  | nil =>
    apply List.find?_eq_none.mpr
    intro msg hmsg
    rw [htail msg hmsg, Bool.false_and]
    exact Bool.false_ne_true
  | cons answer answers ih =>
    rw [List.forall_mem_cons] at h
    rw [List.map_cons, List.cons_append, firstResult?_cons, ih h.2, h.1.2]
    unfold lookup
    rw [List.find?_cons]
    by_cases hid : answer.1 = id
    · simp [hid, h.1.1]
    · simp [hid]

/-! ## The answers once more -/

namespace ToolTurn

variable (timestamp options turn)

/-- What answers a call. -/
def answer? (call : ToolCallLike) : Option Json :=
  if turn.Failed then turn.realResult? call
  else some ((turn.realResult? call).getD
    (makeMissingToolResult timestamp options.missingToolResultText call))

theorem answers_eq : turn.answers timestamp options = turn.calls.filterMap fun call =>
      (turn.answer? timestamp options call).map (call.id, ·) := by
  unfold answers answer?
  split_ifs
  · rfl
  · rw [← List.filterMap_eq_map]
    rfl

theorem results_eq : turn.results timestamp options =
      turn.calls.filterMap (turn.answer? timestamp options) := by
  rw [results, answers_eq, List.map_filterMap]
  apply List.filterMap_congr
  intro call _
  cases turn.answer? timestamp options call <;> rfl

/-- The turn as a repaired transcript has it. -/
def settled (tail : List Json) : ToolTurn :=
  ⟨turn.assistant, turn.results timestamp options ++ tail⟩

variable {timestamp options turn}

section

variable (hnodup : turn.DistinctIds) (htail : ∀ msg ∈ tail, isToolResult msg = false)
include hnodup htail

theorem realResult?_settled {call : ToolCallLike}
    (hcall : call ∈ turn.calls) : (turn.settled timestamp options tail).realResult? call =
      (turn.answer? timestamp options call).map (normalizeToolResultName · call.name) := by
  show (firstResult? (turn.results timestamp options ++ tail) call.id).map _ = _
  rw [results, firstResult?_map_snd_append (fun _ => answer_spec) htail, answers_eq,
    lookup_filterMap hnodup _ hcall]

theorem answer?_settled {call : ToolCallLike} (hcall : call ∈ turn.calls) :
    (turn.settled timestamp options tail).answer? timestamp' options call =
      (turn.answer? timestamp options call).map (normalizeToolResultName · call.name) := by
  rw [answer?, realResult?_settled hnodup htail hcall]
  by_cases hfailed : turn.Failed
  · rw [if_pos (show (turn.settled timestamp options tail).Failed from hfailed)]
  · rw [if_neg (show ¬(turn.settled timestamp options tail).Failed from hfailed), answer?,
      if_neg hfailed]
    rfl

theorem results_settled : (turn.settled timestamp options tail).results timestamp' options =
      turn.calls.filterMap fun call =>
        (turn.answer? timestamp options call).map (normalizeToolResultName · call.name) := by
  rw [results_eq]
  exact List.filterMap_congr fun call hcall => answer?_settled hnodup htail hcall

end

/-- Synthetic results for the turn get a name that is kept. -/
def KeepsNames (turn : ToolTurn) : Prop :=
  ¬turn.Failed → ∀ call ∈ turn.calls, turn.realResult? call = none →
    normalizeOptionalString call.name = call.name

theorem normalize_answer?_iff (call : ToolCallLike) :
    (turn.answer? timestamp options call).map (normalizeToolResultName · call.name) =
        turn.answer? timestamp options call ↔
      (¬turn.Failed → turn.realResult? call = none →
        normalizeOptionalString call.name = call.name) := by
  have hreal : ∀ result, turn.realResult? call = some result →
      normalizeToolResultName result call.name = result := by
    intro result hresult
    obtain ⟨message, hmessage, rfl⟩ := Option.map_eq_some_iff.mp hresult
    exact normalizeToolResultName_idem (firstResult?_spec hmessage).1 call.name
  unfold answer?
  cases hresult : turn.realResult? call with
  | some result => split_ifs <;> simp [hreal result hresult]
  | none =>
    split_ifs with hfailed
    · simp [hfailed]
    · simp [hfailed, normalizeToolResultName_makeMissingToolResult_iff]

/-- A repaired turn answers its calls with the same results exactly if the names are kept. -/
theorem results_settled_eq_iff (hnodup : turn.DistinctIds)
    (htail : ∀ msg ∈ tail, isToolResult msg = false) :
    (turn.settled timestamp options tail).results timestamp' options =
      turn.results timestamp options ↔ turn.KeepsNames := by
  rw [results_settled hnodup htail, results_eq]
  constructor
  · intro h hfailed call hcall
    exact (normalize_answer?_iff call).mp
      (eq_of_filterMap_eq (fun call => by rw [isSome_map]) h call hcall) hfailed
  · intro h
    apply List.filterMap_congr
    intro call hcall
    exact (normalize_answer?_iff call).mpr fun hfailed => h hfailed call hcall

theorem answeredIds_settled (hnodup : turn.DistinctIds) (hdropped : ¬turn.Dropped options)
    (htail : ∀ msg ∈ tail, isToolResult msg = false) :
    (turn.settled timestamp options tail).answeredIds options = turn.answeredIds options := by
  rw [answeredIds, answeredIds, if_neg hdropped,
    if_neg (show ¬(turn.settled timestamp options tail).Dropped options from hdropped)]
  by_cases hfailed : turn.Failed
  · rw [if_pos hfailed, if_pos (show (turn.settled timestamp options tail).Failed from hfailed)]
    congr 1
    apply List.filter_congr
    intro call hcall
    rw [realResult?_settled hnodup htail hcall, isSome_map, answer?, if_pos hfailed]
  · rw [if_neg hfailed, if_neg (show ¬(turn.settled timestamp options tail).Failed from hfailed)]
    rfl

theorem others_span_settled (htail : ∀ msg ∈ tail, isToolResult msg = false) :
    others (turn.settled timestamp options tail).span = tail := by
  show others (turn.results timestamp options ++ tail) = tail
  rw [others_append, others_eq_nil fun msg => isToolResult_of_mem_results, others_eq_self htail,
    List.nil_append]

/-- Where nothing in it makes a repair necessary, its names are kept. -/
theorem keepsNames_of_not_flags_settled (hnodup : turn.DistinctIds)
    (h : (turn.settled timestamp options tail).flags options [] = false) : turn.KeepsNames := by
  intro hfailed call hcall hnone
  have hanswer : turn.answer? timestamp options call =
      some (makeMissingToolResult timestamp options.missingToolResultText call) := by
    rw [answer?, if_neg hfailed, hnone]
    rfl
  have hmem : makeMissingToolResult timestamp options.missingToolResultText call ∈
      (turn.settled timestamp options tail).span := by
    apply List.mem_append_left
    rw [results_eq]
    exact List.mem_filterMap.mpr ⟨call, hcall, hanswer⟩
  have hflag := List.any_eq_false.mp (Bool.or_eq_false_iff.mp h).1 _ hmem
  have hid := extractToolResultId_makeMissingToolResult (ne_nil_of_mem_extractToolCalls hcall)
    timestamp options.missingToolResultText
  have hanswered : answeredId? turn.calls
      (makeMissingToolResult timestamp options.missingToolResultText call) = some call.id :=
    Option.filter_eq_some_iff.mpr ⟨hid, decide_eq_true (List.mem_map_of_mem hcall)⟩
  rw [isToolResult_makeMissingToolResult, show (turn.settled timestamp options tail).calls =
    turn.calls from rfl, flagsResult, hanswered] at hflag
  dsimp only at hflag
  rw [toolCallName?_of_mem hnodup hcall] at hflag
  refine (@normalizeToolResultName_makeMissingToolResult_iff timestamp
    options.missingToolResultText call).mp ?_
  rw [normalizeToolResultName]
  split
  · rename_i name hname
    rw [hname] at hflag
    simp at hflag
  · rfl

end ToolTurn

end OpenClaw
