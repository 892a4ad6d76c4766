import OpenClaw.Transcript.Repaired

/-!
# Which transcripts the repair repairs

A repaired transcript keeps what is no tool result in its order, except for failed turns that are
left out, and has behind each turn the first real result of each call, or a synthetic one, and no
other. Repairing it again changes nothing.
-/

namespace OpenClaw

open Json List ToolTurn

variable {timestamp timestamp' : Str} {options : ToolUseResultPairingOptions} {turn : ToolTurn}
  {turns : List ToolTurn} {messages : List Json} {seen : List Str}

/-! ## Names of results -/

theorem normalizeOptionalString_replacedToolName {toolName fallbackName : Option Str} {name : Str}
    (h : replacedToolName toolName fallbackName = some name) :
    normalizeOptionalString (some name) = some name := by
  unfold replacedToolName at h
  split at h
  · rename_i normalized hnormalized
    split_ifs at h
    cases h
    rw [← hnormalized, normalizeOptionalString_idem]
  · split at h
    · rename_i hfallback
      cases h
      rw [← hfallback, normalizeOptionalString_idem]
    · split_ifs at h
      cases h
      decide

theorem replacedToolName_eq_none_iff (name : Str) (fallbackName : Option Str) :
    replacedToolName (some name) fallbackName = none ↔
      normalizeOptionalString (some name) = some name := by
  unfold replacedToolName
  cases hnormalized : normalizeOptionalString (some name) with
  | some normalized =>
    constructor
    · intro h
      by_contra hne
      dsimp only at h
      rw [if_neg (Ne.symm hne)] at h
      cases h
    · intro h
      exact if_pos h.symm
  | none =>
    constructor
    · intro h
      dsimp only at h
      split at h <;> simp at h
    · intro h
      cases h

theorem normalizeToolResultName_idem {message : Json} (h : isToolResult message = true)
    (fallbackName : Option Str) :
    normalizeToolResultName (normalizeToolResultName message fallbackName) fallbackName =
      normalizeToolResultName message fallbackName := by
  have hobject : message.isObject = true := isObject_of_stringField? (of_decide_eq_true h)
  cases hname : replacedToolName (stringField? message "toolName".toList) fallbackName with
  | none =>
    have hsame : normalizeToolResultName message fallbackName = message := by
      rw [normalizeToolResultName, hname]
    rw [hsame, hsame]
  | some name =>
    have hnamed : normalizeToolResultName message fallbackName =
        withStringField message "toolName".toList name := by
      rw [normalizeToolResultName, hname]
    rw [hnamed, normalizeToolResultName, stringField?_withStringField hobject,
      (replacedToolName_eq_none_iff name fallbackName).mpr
        (normalizeOptionalString_replacedToolName hname)]

theorem normalizeToolResultName_eq_self_iff {message : Json} {name : Str}
    (h : stringField? message "toolName".toList = some name) (fallbackName : Option Str) :
    normalizeToolResultName message fallbackName = message ↔
      normalizeOptionalString (some name) = some name := by
  rw [← replacedToolName_eq_none_iff name fallbackName]
  constructor
  · intro hsame
    cases hreplaced : replacedToolName (some name) fallbackName with
    | none => rfl
    | some name' =>
      rw [normalizeToolResultName, h, hreplaced] at hsame
      have hname := congrArg (stringField? · "toolName".toList) hsame
      simp only [stringField?_withStringField (isObject_of_stringField? h), h,
        Option.some.injEq] at hname
      rw [← hname] at hreplaced
      rw [(replacedToolName_eq_none_iff name' fallbackName).mpr
        (normalizeOptionalString_replacedToolName hreplaced)] at hreplaced
      cases hreplaced
  · intro hnone
    rw [normalizeToolResultName, h, hnone]

/-- A synthetic result keeps its name when it is read again. -/
theorem normalizeToolResultName_makeMissingToolResult_iff (text : Option Str)
    (call : ToolCallLike) :
    normalizeToolResultName (makeMissingToolResult timestamp text call) call.name =
        makeMissingToolResult timestamp text call ↔
      normalizeOptionalString call.name = call.name := by
  have hname : stringField? (makeMissingToolResult timestamp text call) "toolName".toList =
      some (call.name.getD "unknown".toList) := rfl
  rw [normalizeToolResultName_eq_self_iff hname]
  cases call.name with
  | none => decide
  | some name => rfl

/-! ## Answers of a turn -/

theorem others_append (msgs msgs' : List Json) : others (msgs ++ msgs') = others msgs ++ others msgs' :=
  filter_append ..

theorem others_eq_self {msgs : List Json} (h : ∀ msg ∈ msgs, isToolResult msg = false) :
    others msgs = msgs := by
  apply filter_eq_self.mpr
  intro msg hmsg
  rw [h msg hmsg]
  rfl

theorem others_eq_nil {msgs : List Json} (h : ∀ msg ∈ msgs, isToolResult msg = true) :
    others msgs = [] := by
  apply filter_eq_nil_iff.mpr
  intro msg hmsg
  rw [h msg hmsg]
  decide

theorem not_isToolResult_of_mem_others {msgs : List Json} {msg : Json} (h : msg ∈ others msgs) :
    isToolResult msg = false := by
  have hnot := (mem_filter.mp h).2
  simpa using hnot

theorem others_others (msgs : List Json) : others (others msgs) = others msgs :=
  others_eq_self fun _ => not_isToolResult_of_mem_others

/-- What a repaired transcript has behind the turn for its calls. -/
def ToolTurn.results (timestamp : Str) (options : ToolUseResultPairingOptions) (turn : ToolTurn) :
    List Json :=
  (turn.answers timestamp options).map (·.2)

theorem ToolTurn.answer_spec {answer : Str × Json} (h : answer ∈ turn.answers timestamp options) :
    isToolResult answer.2 = true ∧ extractToolResultId answer.2 = some answer.1 := by
  unfold answers at h
  split_ifs at h
  · obtain ⟨call, _, hsome⟩ := mem_filterMap.mp h
    obtain ⟨result, hresult, rfl⟩ := Option.map_eq_some_iff.mp hsome
    exact realResult?_spec hresult
  · obtain ⟨call, hcall, rfl⟩ := mem_map.mp h
    cases hresult : turn.realResult? call with
    | some result => exact realResult?_spec hresult
    | none =>
      exact ⟨rfl, extractToolResultId_makeMissingToolResult
        (ne_nil_of_mem_extractToolCalls hcall) _ _⟩

theorem ToolTurn.isToolResult_of_mem_results {msg : Json}
    (h : msg ∈ turn.results timestamp options) : isToolResult msg = true := by
  obtain ⟨answer, hanswer, rfl⟩ := mem_map.mp h
  exact (answer_spec hanswer).1

theorem ToolTurn.map_extractToolResultId_results (timestamp : Str)
    (options : ToolUseResultPairingOptions) (turn : ToolTurn) :
    (turn.results timestamp options).map extractToolResultId =
      (turn.answers timestamp options).map fun answer => some answer.1 := by
  rw [results, map_map]
  exact map_congr_left fun answer hanswer => (answer_spec hanswer).2

theorem ToolTurn.map_fst_answers (hdropped : ¬turn.Dropped options) :
    (turn.answers timestamp options).map (·.1) = turn.answeredIds options := by
  rw [answeredIds, if_neg hdropped, answers]
  split_ifs
  · generalize turn.calls = calls
    induction calls with
    | nil => rfl
    | cons call calls ih =>
      rw [filterMap_cons, filter_cons]
      cases turn.realResult? call with
      | none => simpa using ih
      | some result => simpa using ih
  · rw [map_map]
    rfl

theorem ToolTurn.nodup_answeredIds (hnodup : turn.DistinctIds) :
    (turn.answeredIds options).Nodup := by
  unfold answeredIds
  split_ifs
  · exact nodup_nil
  · exact hnodup.sublist (filter_sublist.map _)
  · exact hnodup

theorem ToolTurn.nodup_map_extractToolResultId_results (hnodup : turn.DistinctIds)
    (hdropped : ¬turn.Dropped options) :
    ((turn.results timestamp options).map extractToolResultId).Nodup := by
  have hids := @nodup_answeredIds options turn hnodup
  rw [← @map_fst_answers timestamp options turn hdropped] at hids
  rw [map_extractToolResultId_results]
  have hsome := hids.map (Option.some_injective _)
  rwa [map_map] at hsome

/-! ## What the repair returns -/

/-- What takes the place of a turn. -/
def ToolTurn.repaired (timestamp : Str) (options : ToolUseResultPairingOptions) (turn : ToolTurn) :
    List Json :=
  if turn.Dropped options then others turn.span
  else turn.assistant :: (turn.results timestamp options ++ others turn.span)

variable (options turns)

/-- No id is answered by more than one turn. -/
def FreshIds : Prop :=
  (turns.flatMap (·.answeredIds options)).Nodup

variable {options turns}

theorem ToolTurn.rebuilt_of_fresh (h : ∀ id ∈ turn.answeredIds options, id ∉ seen) :
    turn.rebuilt timestamp options seen = turn.repaired timestamp options := by
  rw [rebuilt, repaired]
  split_ifs with hdropped
  · rfl
  · rw [freshAnswers, filter_eq_self.mpr, results]
    intro answer hanswer
    rw [← @map_fst_answers timestamp options turn hdropped] at h
    exact decide_eq_true (h answer.1 (mem_map_of_mem hanswer))

theorem rebuiltFrom_of_fresh (h : (seen ++ turns.flatMap (·.answeredIds options)).Nodup) :
    rebuiltFrom timestamp options seen turns =
      turns.flatMap (·.repaired timestamp options) := by
  induction turns generalizing seen with
  | nil => rfl
  | cons turn turns ih =>
    rw [flatMap_cons, ← append_assoc] at h
    have hfresh : ∀ id ∈ turn.answeredIds options, id ∉ seen := fun id hid hseen =>
      disjoint_of_nodup_append (h.sublist (sublist_append_left ..)) hseen hid
    rw [rebuiltFrom, rebuilt_of_fresh hfresh, ih h, flatMap_cons]

theorem ToolTurn.mem_answeredIds (hdropped : ¬turn.Dropped options) {msg : Json} {id : Str}
    (hmem : msg ∈ turn.span) (hresult : isToolResult msg = true)
    (hid : answeredId? turn.calls msg = some id) : id ∈ turn.answeredIds options := by
  obtain ⟨hmsg, hcalls⟩ := Option.filter_eq_some_iff.mp hid
  rw [answeredIds, if_neg hdropped]
  split_ifs
  · obtain ⟨call, hcall, rfl⟩ := mem_map.mp (of_decide_eq_true hcalls)
    refine mem_map_of_mem (mem_filter.mpr ⟨hcall, ?_⟩)
    rw [realResult?, Option.isSome_map, firstResult?, find?_isSome]
    exact ⟨msg, hmem, by simp [hresult, hmsg]⟩
  · exact of_decide_eq_true hcalls

/-- The answers of the turns before decide nothing where they are for other ids. -/
theorem ToolTurn.flags_of_fresh (h : ∀ id ∈ turn.answeredIds options, id ∉ seen) :
    turn.flags options seen = turn.flags options [] := by
  by_cases hdropped : turn.Dropped options
  · rw [flags, flags, if_pos hdropped.1, if_pos hdropped.1, hdropped.2]
    simp
  · have hspan : (turn.span.any fun msg => isToolResult msg && flagsResult turn.calls seen msg) =
        turn.span.any fun msg => isToolResult msg && flagsResult turn.calls [] msg := by
      rw [Bool.eq_iff_iff, any_eq_true, any_eq_true]
      apply exists_congr
      intro msg
      apply and_congr_right
      intro hmem
      cases hresult : isToolResult msg with
      | false => rfl
      | true =>
        unfold flagsResult
        cases hid : answeredId? turn.calls msg with
        | none => rfl
        | some id => simp [h id (mem_answeredIds hdropped hmem hresult hid)]
    rw [flags, flags, hspan]
    by_cases hfailed : turn.Failed
    · rw [if_pos hfailed, if_pos hfailed]
    · rw [if_neg hfailed, if_neg hfailed]
      have hids : turn.answeredIds options = turn.calls.map (·.id) := by
        rw [answeredIds, if_neg hdropped, if_neg hfailed]
      have hcalls : (turn.calls.any fun call => (turn.realResult? call).isNone ||
          decide (call.id ∈ seen)) = turn.calls.any fun call =>
            (turn.realResult? call).isNone || decide (call.id ∈ []) := by
        rw [Bool.eq_iff_iff, any_eq_true, any_eq_true]
        apply exists_congr
        intro call
        apply and_congr_right
        intro hcall
        have hnot : call.id ∉ seen := h call.id (hids ▸ mem_map_of_mem hcall)
        simp [hnot]
      rw [hcalls]

theorem flagsFrom_of_fresh (h : (seen ++ turns.flatMap (·.answeredIds options)).Nodup) :
    flagsFrom options seen turns = turns.any (·.flags options []) := by
  induction turns generalizing seen with
  | nil => rfl
  | cons turn turns ih =>
    rw [flatMap_cons, ← append_assoc] at h
    have hfresh : ∀ id ∈ turn.answeredIds options, id ∉ seen := fun id hid hseen =>
      disjoint_of_nodup_append (h.sublist (sublist_append_left ..)) hseen hid
    rw [flagsFrom, flags_of_fresh hfresh, ih h, any_cons]

/-- A turn that makes no repair necessary answers no id again. -/
theorem ToolTurn.fresh_of_not_flags (h : turn.flags options seen = false) :
    ¬turn.Dropped options ∧ ∀ id ∈ turn.answeredIds options, id ∉ seen := by
  obtain ⟨hspan, hrest⟩ := Bool.or_eq_false_iff.mp h
  have hdropped : ¬turn.Dropped options := by
    intro hdropped
    rw [if_pos hdropped.1, hdropped.2] at hrest
    cases hrest
  refine ⟨hdropped, fun id hid hseen => ?_⟩
  rw [answeredIds, if_neg hdropped] at hid
  by_cases hfailed : turn.Failed
  · rw [if_pos hfailed] at hid
    obtain ⟨call, hcall, rfl⟩ := mem_map.mp hid
    obtain ⟨hcall, hsome⟩ := mem_filter.mp hcall
    rw [realResult?, Option.isSome_map] at hsome
    obtain ⟨msg, hmsg⟩ := Option.isSome_iff_exists.mp hsome
    obtain ⟨hresult, hmsgId⟩ := firstResult?_spec hmsg
    have hflag := any_eq_false.mp hspan msg (mem_of_find?_eq_some hmsg)
    have hanswered : answeredId? turn.calls msg = some call.id :=
      Option.filter_eq_some_iff.mpr ⟨hmsgId, decide_eq_true (mem_map_of_mem hcall)⟩
    rw [hresult, flagsResult, hanswered] at hflag
    simp [hseen] at hflag
  · rw [if_neg hfailed] at hid hrest
    obtain ⟨call, hcall, rfl⟩ := mem_map.mp hid
    have hcall' := any_eq_false.mp (Bool.or_eq_false_iff.mp hrest).1 call hcall
    simp [hseen] at hcall'

theorem fresh_of_not_flagsFrom (hturns : ∀ turn ∈ turns, turn.DistinctIds) (hseen : seen.Nodup)
    (h : flagsFrom options seen turns = false) :
    (seen ++ turns.flatMap (·.answeredIds options)).Nodup := by
  induction turns generalizing seen with
  | nil => simpa using hseen
  | cons turn turns ih =>
    rw [forall_mem_cons] at hturns
    obtain ⟨hturn, hrest⟩ := Bool.or_eq_false_iff.mp h
    obtain ⟨_, hfresh⟩ := fresh_of_not_flags hturn
    rw [flatMap_cons, ← append_assoc]
    refine ih hturns.2 (hseen.append (nodup_answeredIds hturns.1) ?_) hrest
    exact fun id hid hid' => hfresh id hid' hid

/-! ## Counting the results -/

theorem countP_others (msgs : List Json) : (others msgs).countP isToolResult = 0 := by
  apply countP_eq_zero.mpr
  intro msg hmsg
  rw [not_isToolResult_of_mem_others hmsg]
  exact Bool.false_ne_true

theorem ToolTurn.countP_rebuilt (hassistant : isAssistant turn.assistant = true) :
    (turn.rebuilt timestamp options seen).countP isToolResult =
      ((turn.answeredIds options).filter fun id => id ∉ seen).length := by
  rw [rebuilt]
  split_ifs with hdropped
  · rw [countP_others, answeredIds, if_pos hdropped]
    rfl
  · rw [← @map_fst_answers timestamp options turn hdropped, filter_map, length_map,
      countP_cons, not_isToolResult_of_isAssistant hassistant, countP_append,
      countP_others, countP_eq_length.mpr]
    · simp [freshAnswers, Function.comp_def]
    · intro msg hmsg
      obtain ⟨answer, hanswer, rfl⟩ := mem_map.mp hmsg
      exact (answer_spec (mem_filter.mp hanswer).1).1

theorem countP_rebuiltFrom_le (hassistant : ∀ turn ∈ turns, isAssistant turn.assistant = true) :
    (rebuiltFrom timestamp options seen turns).countP isToolResult ≤
      (turns.flatMap (·.answeredIds options)).length := by
  induction turns generalizing seen with
  | nil => exact Nat.le_refl 0
  | cons turn turns ih =>
    rw [forall_mem_cons] at hassistant
    rw [rebuiltFrom, countP_append, countP_rebuilt hassistant.1, flatMap_cons,
      length_append]
    exact Nat.add_le_add (length_filter_le _ _) (ih hassistant.2)

/-- Where no result is left out, every id is answered by one turn. -/
theorem fresh_of_countP_rebuiltFrom (hturns : ∀ turn ∈ turns, turn.DistinctIds)
    (hassistant : ∀ turn ∈ turns, isAssistant turn.assistant = true) (hseen : seen.Nodup)
    (h : (rebuiltFrom timestamp options seen turns).countP isToolResult =
      (turns.flatMap (·.answeredIds options)).length) :
    (seen ++ turns.flatMap (·.answeredIds options)).Nodup := by
  induction turns generalizing seen with
  | nil => simpa using hseen
  | cons turn turns ih =>
    rw [forall_mem_cons] at hturns hassistant
    rw [rebuiltFrom, countP_append, countP_rebuilt hassistant.1, flatMap_cons,
      length_append] at h
    have hle := length_filter_le (fun id => decide (id ∉ seen)) (turn.answeredIds options)
    have hrest := @countP_rebuiltFrom_le timestamp options turns
      (seen ++ turn.answeredIds options) hassistant.2
    have hall := length_filter_eq_length_iff.mp (Nat.le_antisymm hle (by omega))
    rw [flatMap_cons, ← append_assoc]
    refine ih hturns.2 hassistant.2
      (hseen.append (nodup_answeredIds hturns.1) ?_) (by omega)
    exact fun id hid hid' => of_decide_eq_true (hall id hid') hid

end OpenClaw
