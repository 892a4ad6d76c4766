import OpenClaw.Transcript.Settled

/-!
# When the repair yields a valid history

The repair returns what it rebuilt only where something it looks at made that necessary, drops a
result whose id an earlier turn has used, and reads its own synthetic results like any other.
-/

namespace OpenClaw

open Json List ToolTurn

variable {timestamp timestamp' : Str} {options : ToolUseResultPairingOptions} {turn : ToolTurn}
  {turns : List ToolTurn} {messages : List Json}

/-! ## The property -/

variable (timestamp options)

/-- What stands in the place of a turn: the turn with one result for each call, the first real one
or else a synthetic one, or with the real ones where it failed, and then the other messages up to
the next turn. Only a failed turn may be left out. -/
def RepairedTurn (turn : ToolTurn) (piece : List Json) : Prop :=
  if turn.Dropped options then piece = others turn.span
  else ∃ results, results.Perm (turn.results timestamp options) ∧
    piece = turn.assistant :: (results ++ others turn.span)

def IsRepairOf (messages repaired : List Json) : Prop :=
  ∃ pieces, List.Forall₂ (RepairedTurn timestamp options) (splitTurns messages).2 pieces ∧
    repaired = others (splitTurns messages).1 ++ pieces.flatten

/-- The repair returns a repaired transcript, and repairing that again changes nothing. -/
def RepairsPairing (messages : List Json) : Prop :=
  IsRepairOf timestamp options messages
      (repairToolUseResultPairing timestamp options messages).messages ∧
    ∀ timestamp', (repairToolUseResultPairing timestamp' options
        (repairToolUseResultPairing timestamp options messages).messages).messages =
      (repairToolUseResultPairing timestamp options messages).messages

variable {timestamp options}

/-! ## The condition -/

/-- The span has no second result of a call, and no result behind another message. -/
def ToolTurn.Tidy (turn : ToolTurn) : Prop :=
  ((turn.span.filter isToolResult).map extractToolResultId).Nodup ∧
    turn.span = turn.span.filter isToolResult ++ others turn.span

/-- Something makes the repair return what it rebuilt: a result before all turns, or in a turn a
foreign result, a name to normalize, a missing result, a message behind a turn that did not fail,
or a failed turn to leave out. -/
def NeedsRepair (options : ToolUseResultPairingOptions) (messages : List Json) : Prop :=
  (splitTurns messages).1.any isToolResult = true ∨
    ∃ turn ∈ (splitTurns messages).2, turn.flags options [] = true

/-! ## What is returned -/

def DistinctCallIds (messages : List Json) : Prop :=
  ∀ turn ∈ (splitTurns messages).2, turn.DistinctIds

theorem repairToolUseResultPairing_messages (hturns : DistinctCallIds messages) :
    (repairToolUseResultPairing timestamp options messages).messages =
      if (splitTurns messages).1.any isToolResult ||
          flagsFrom options [] (splitTurns messages).2 then
        others (splitTurns messages).1 ++ rebuiltFrom timestamp options [] (splitTurns messages).2
      else messages := by
  have hloop : Rebuilds .init (repairLoop timestamp options messages.length .init messages) _ _ _ :=
    rebuilds_repairLoop hturns (Nat.le_refl _) fun _ => Iff.rfl
  have hmoved := hloop.moved fun h => nomatch h
  have hor : ∀ changed moved : Bool, (moved = true → changed = true) →
      (changed || moved) = changed := by decide
  unfold repairToolUseResultPairing
  dsimp only
  rw [hor _ _ hmoved, hloop.changed, hloop.out]
  rfl

theorem flagsFrom_eq_true_iff (hfresh : FreshIds options turns) :
    flagsFrom options [] turns = true ↔ ∃ turn ∈ turns, turn.flags options [] = true := by
  rw [flagsFrom_of_fresh (by rwa [nil_append]), any_eq_true]

section

variable (hturns : DistinctCallIds messages) (hfresh : FreshIds options (splitTurns messages).2)
include hturns hfresh

theorem messages_of_needsRepair (hneeds : NeedsRepair options messages) :
    (repairToolUseResultPairing timestamp options messages).messages =
      others (splitTurns messages).1 ++
        (splitTurns messages).2.flatMap (·.repaired timestamp options) := by
  rw [repairToolUseResultPairing_messages hturns, if_pos, rebuiltFrom_of_fresh
    (by rwa [nil_append])]
  rw [Bool.or_eq_true, flagsFrom_eq_true_iff hfresh]
  exact hneeds

theorem messages_of_not_needsRepair (hneeds : ¬NeedsRepair options messages) :
    (repairToolUseResultPairing timestamp options messages).messages = messages := by
  rw [repairToolUseResultPairing_messages hturns, if_neg]
  rw [Bool.or_eq_true, flagsFrom_eq_true_iff hfresh]
  exact hneeds

end

theorem isAssistant_of_mem_splitTurns (h : turn ∈ (splitTurns messages).2) :
    isAssistant turn.assistant = true :=
  (Bool.and_eq_true_iff.mp (wellPlaced_of_mem_splitTurns h).1).1

/-! ## Ids are answered once -/

theorem countP_of_forall₂_repairedTurn {pieces : List (List Json)}
    (hassistant : ∀ turn ∈ turns, isAssistant turn.assistant = true)
    (h : List.Forall₂ (RepairedTurn timestamp options) turns pieces) :
    pieces.flatten.countP isToolResult = (turns.flatMap (·.answeredIds options)).length := by
  induction h with
  | nil => rfl
  | @cons turn piece turns pieces hpiece _ ih =>
    rw [forall_mem_cons] at hassistant
    rw [flatten_cons, countP_append, ih hassistant.2, flatMap_cons,
      length_append, Nat.add_right_cancel_iff]
    unfold RepairedTurn at hpiece
    split_ifs at hpiece with hdropped
    · rw [hpiece, countP_others, ToolTurn.answeredIds, if_pos hdropped]
      rfl
    · obtain ⟨results, hperm, rfl⟩ := hpiece
      rw [countP_cons, not_isToolResult_of_isAssistant hassistant.1, countP_append,
        countP_others, hperm.countP_eq, countP_eq_length.mpr fun msg =>
          isToolResult_of_mem_results, ToolTurn.results,
        ← @ToolTurn.map_fst_answers timestamp options turn hdropped]
      simp

theorem freshIds_of_isRepairOf (hturns : DistinctCallIds messages)
    (h : IsRepairOf timestamp options messages
      (repairToolUseResultPairing timestamp options messages).messages) :
    FreshIds options (splitTurns messages).2 := by
  rw [repairToolUseResultPairing_messages hturns] at h
  have hassistant : ∀ turn ∈ (splitTurns messages).2, isAssistant turn.assistant = true :=
    fun turn => isAssistant_of_mem_splitTurns
  split_ifs at h with hchanged
  · -- a result that is left out is missed in the count
    obtain ⟨pieces, hpieces, heq⟩ := h
    have hcount := countP_of_forall₂_repairedTurn hassistant hpieces
    rw [← append_cancel_left heq] at hcount
    have hnodup := fresh_of_countP_rebuiltFrom hturns hassistant nodup_nil hcount
    rwa [nil_append] at hnodup
  · rw [Bool.or_eq_true, not_or] at hchanged
    have hnodup := fresh_of_not_flagsFrom hturns nodup_nil (Bool.eq_false_iff.mpr hchanged.2)
    rwa [nil_append] at hnodup

/-! ## What was rebuilt -/

variable (timestamp options)

theorem ToolTurn.repairedTurn_repaired
    (turn : ToolTurn) : RepairedTurn timestamp options turn (turn.repaired timestamp options) := by
  unfold RepairedTurn repaired
  split_ifs
  · rfl
  · exact ⟨_, List.Perm.refl _, rfl⟩

theorem isRepairOf_rebuilt (messages : List Json) : IsRepairOf timestamp options messages
      (others (splitTurns messages).1 ++
        (splitTurns messages).2.flatMap (·.repaired timestamp options)) := by
  refine ⟨(splitTurns messages).2.map (·.repaired timestamp options), ?_, rfl⟩
  rw [forall₂_map_right_iff, forall₂_same]
  exact fun turn _ => turn.repairedTurn_repaired timestamp options

variable {timestamp options}

/-! ## Repairing it again -/

/-- The turns of a repaired transcript, and what stands before them: a turn that is left out leaves
its other messages to the turn before it. -/
def regroup (timestamp : Str) (options : ToolUseResultPairingOptions) :
    List ToolTurn → List Json × List ToolTurn
  | [] => ([], [])
  | turn :: turns =>
    let rest := regroup timestamp options turns
    if turn.Dropped options then (others turn.span ++ rest.1, rest.2)
    else ([], turn.settled timestamp options (others turn.span ++ rest.1) :: rest.2)

theorem regroup_of_dropped (h : turn.Dropped options) (turns : List ToolTurn) :
    regroup timestamp options (turn :: turns) = (others turn.span ++
      (regroup timestamp options turns).1, (regroup timestamp options turns).2) := if_pos h

theorem regroup_of_not_dropped (h : ¬turn.Dropped options) (turns : List ToolTurn) :
    regroup timestamp options (turn :: turns) = ([], turn.settled timestamp options
      (others turn.span ++ (regroup timestamp options turns).1) ::
        (regroup timestamp options turns).2) := if_neg h

variable (timestamp options turns)

theorem flatMap_repaired : turns.flatMap (·.repaired timestamp options) =
      (regroup timestamp options turns).1 ++ joinTurns (regroup timestamp options turns).2 := by
  induction turns with
  | nil => rfl
  | cons turn turns ih =>
    rw [flatMap_cons, ih, ToolTurn.repaired]
    by_cases hdropped : turn.Dropped options
    · rw [if_pos hdropped, regroup_of_dropped hdropped, append_assoc]
    · rw [if_neg hdropped, regroup_of_not_dropped hdropped]
      simp [joinTurns, ToolTurn.settled]

variable {timestamp options turns}

/-- A message that ends no span and is no result. -/
def IsOther (msg : Json) : Prop := isToolResult msg = false ∧ assistantHasToolCalls msg = false

variable {msg : Json} {turn' : ToolTurn}

theorem isOther_of_mem_others {msgs : List Json}
    (h : ∀ msg ∈ msgs, assistantHasToolCalls msg = false) (hmsg : msg ∈ others msgs) :
    IsOther msg :=
  ⟨not_isToolResult_of_mem_others hmsg, h msg (mem_of_mem_filter hmsg)⟩

section

variable (hturns : ∀ turn ∈ turns, turn.WellPlaced)
include hturns

theorem isOther_of_mem_regroup_fst
    (h : msg ∈ (regroup timestamp options turns).1) : IsOther msg := by
  induction turns with
  | nil => cases h
  | cons turn turns ih =>
    rw [forall_mem_cons] at hturns
    by_cases hdropped : turn.Dropped options
    · rw [regroup_of_dropped hdropped] at h
      rcases mem_append.mp h with h | h
      · exact isOther_of_mem_others hturns.1.2 h
      · exact ih hturns.2 h
    · rw [regroup_of_not_dropped hdropped] at h
      cases h

/-- Each turn of the repaired transcript is one that was kept. -/
theorem exists_of_mem_regroup_snd (h : turn' ∈ (regroup timestamp options turns).2) :
    ∃ turn ∈ turns, ¬turn.Dropped options ∧ ∃ tail, (∀ msg ∈ tail, IsOther msg) ∧
      turn' = turn.settled timestamp options tail := by
  induction turns with
  | nil => cases h
  | cons turn turns ih =>
    rw [forall_mem_cons] at hturns
    by_cases hdropped : turn.Dropped options
    · rw [regroup_of_dropped hdropped] at h
      obtain ⟨other, hmem, hother⟩ := ih hturns.2 h
      exact ⟨other, mem_cons_of_mem _ hmem, hother⟩
    · rw [regroup_of_not_dropped hdropped] at h
      rcases mem_cons.mp h with rfl | h
      · refine ⟨turn, mem_cons_self, hdropped, _, ?_, rfl⟩
        intro msg hmsg
        rcases mem_append.mp hmsg with hmsg | hmsg
        · exact isOther_of_mem_others hturns.1.2 hmsg
        · exact isOther_of_mem_regroup_fst hturns.2 hmsg
      · obtain ⟨other, hmem, hother⟩ := ih hturns.2 h
        exact ⟨other, mem_cons_of_mem _ hmem, hother⟩

/-- And each turn that was kept is one of them. -/
theorem exists_settled_mem_regroup
    (h : turn ∈ turns) (hdropped : ¬turn.Dropped options) : ∃ tail, (∀ msg ∈ tail, IsOther msg) ∧
      turn.settled timestamp options tail ∈ (regroup timestamp options turns).2 := by
  induction turns with
  | nil => cases h
  | cons first turns ih =>
    rw [forall_mem_cons] at hturns
    rcases mem_cons.mp h with rfl | h
    · rw [regroup_of_not_dropped hdropped]
      refine ⟨_, ?_, mem_cons_self⟩
      intro msg hmsg
      rcases mem_append.mp hmsg with hmsg | hmsg
      · exact isOther_of_mem_others hturns.1.2 hmsg
      · exact isOther_of_mem_regroup_fst hturns.2 hmsg
    · obtain ⟨tail, htail, hmem⟩ := ih hturns.2 h
      by_cases hfirst : first.Dropped options
      · rw [regroup_of_dropped hfirst]
        exact ⟨tail, htail, hmem⟩
      · rw [regroup_of_not_dropped hfirst]
        exact ⟨tail, htail, mem_cons_of_mem _ hmem⟩

end

theorem not_assistantHasToolCalls_of_mem_results
    (h : msg ∈ turn.results timestamp options) : assistantHasToolCalls msg = false :=
  not_assistantHasToolCalls_of_isToolResult (isToolResult_of_mem_results h)

section

variable (hturns : ∀ turn ∈ turns, turn.WellPlaced)
include hturns

theorem wellPlaced_of_mem_regroup
    (h : turn' ∈ (regroup timestamp options turns).2) : turn'.WellPlaced := by
  obtain ⟨turn, hturn, _, tail, htail, rfl⟩ := exists_of_mem_regroup_snd hturns h
  refine ⟨(hturns turn hturn).1, ?_⟩
  intro msg hmsg
  rcases mem_append.mp hmsg with hmsg | hmsg
  · exact not_assistantHasToolCalls_of_mem_results hmsg
  · exact (htail msg hmsg).2

theorem distinctIds_of_mem_regroup (hids : ∀ turn ∈ turns, turn.DistinctIds)
    (h : turn' ∈ (regroup timestamp options turns).2) : turn'.DistinctIds := by
  obtain ⟨turn, hturn, _, tail, _, rfl⟩ := exists_of_mem_regroup_snd hturns h
  exact hids turn hturn

theorem freshIds_regroup (hids : ∀ turn ∈ turns, turn.DistinctIds) :
    (regroup timestamp options turns).2.flatMap (·.answeredIds options) =
      turns.flatMap (·.answeredIds options) := by
  induction turns with
  | nil => rfl
  | cons turn turns ih =>
    rw [forall_mem_cons] at hids
    have hplaced := forall_mem_cons.mp hturns
    rw [flatMap_cons]
    by_cases hdropped : turn.Dropped options
    · rw [regroup_of_dropped hdropped, ih hplaced.2 hids.2, ToolTurn.answeredIds, if_pos hdropped,
        nil_append]
    · rw [regroup_of_not_dropped hdropped, flatMap_cons, ih hplaced.2 hids.2,
        answeredIds_settled hids.1 hdropped]
      intro msg hmsg
      rcases mem_append.mp hmsg with hmsg | hmsg
      · exact not_isToolResult_of_mem_others hmsg
      · exact (isOther_of_mem_regroup_fst hplaced.2 hmsg).1

end

variable (timestamp options)

variable (messages)

/-- What the repair rebuilds where no id is answered twice. -/
def rebuiltMessages : List Json :=
  others (splitTurns messages).1 ++ (splitTurns messages).2.flatMap (·.repaired timestamp options)

theorem wellPlaced_splitTurns :
    ∀ turn ∈ (splitTurns messages).2, turn.WellPlaced := fun _ => wellPlaced_of_mem_splitTurns

theorem splitTurns_rebuiltMessages : splitTurns (rebuiltMessages timestamp options messages) =
      (others (splitTurns messages).1 ++ (regroup timestamp options (splitTurns messages).2).1,
        (regroup timestamp options (splitTurns messages).2).2) := by
  rw [rebuiltMessages, flatMap_repaired, ← append_assoc]
  apply splitTurns_append_joinTurns
  · intro msg hmsg
    rcases mem_append.mp hmsg with hmsg | hmsg
    · exact not_assistantHasToolCalls_of_mem_splitTurns (mem_of_mem_filter hmsg)
    · exact (isOther_of_mem_regroup_fst (wellPlaced_splitTurns messages) hmsg).2
  · exact fun turn' => wellPlaced_of_mem_regroup (wellPlaced_splitTurns messages)

variable {messages}

variable {timestamp options}

/-- Rebuilding a repaired transcript gives the same one exactly if all names are kept. -/
theorem flatMap_repaired_regroup_iff (hturns : ∀ turn ∈ turns, turn.WellPlaced)
    (hids : ∀ turn ∈ turns, turn.DistinctIds) :
    (regroup timestamp options turns).2.flatMap (·.repaired timestamp' options) =
        joinTurns (regroup timestamp options turns).2 ↔
      ∀ turn ∈ turns, turn.KeepsNames := by
  set turns' := (regroup timestamp options turns).2 with hturns'
  have hrepaired : turns'.flatMap (·.repaired timestamp' options) =
      joinTurns (turns'.map fun turn => turn.settled timestamp' options (others turn.span)) := by
    rw [joinTurns, flatMap_map]
    apply flatMap_congr
    intro turn' hturn'
    obtain ⟨turn, _, hdropped, tail, _, rfl⟩ := exists_of_mem_regroup_snd hturns hturn'
    rw [ToolTurn.repaired, if_neg (by exact hdropped)]
    rfl
  have hplaced : ∀ turn' ∈ turns', turn'.WellPlaced :=
    fun turn' => wellPlaced_of_mem_regroup hturns
  have hplaced' : ∀ turn' ∈ turns'.map fun turn =>
      turn.settled timestamp' options (others turn.span), turn'.WellPlaced := by
    intro turn'' hturn''
    obtain ⟨turn', hturn', rfl⟩ := mem_map.mp hturn''
    refine ⟨(hplaced turn' hturn').1, ?_⟩
    intro msg hmsg
    rcases mem_append.mp hmsg with hmsg | hmsg
    · exact not_assistantHasToolCalls_of_mem_results hmsg
    · exact (hplaced turn' hturn').2 msg (mem_of_mem_filter hmsg)
  -- the lists are equal exactly if their turns are, and a turn exactly if its results are
  have heq : joinTurns (turns'.map fun turn => turn.settled timestamp' options
      (others turn.span)) = joinTurns turns' ↔
      ∀ turn' ∈ turns', turn'.settled timestamp' options (others turn'.span) = turn' := by
    constructor
    · intro h
      have hsplit := congrArg splitTurns h
      rw [← nil_append (joinTurns (List.map _ _)), ← nil_append (joinTurns turns'),
        splitTurns_append_joinTurns (forall_mem_nil _) hplaced',
        splitTurns_append_joinTurns (forall_mem_nil _) hplaced] at hsplit
      have hmap := (Prod.mk.inj hsplit).2.trans (map_id' turns').symm
      exact map_inj_left.mp hmap
    · intro h
      rw [map_congr_left h, map_id']
  rw [hrepaired, heq]
  have hsettled : ∀ turn ∈ turns, ∀ tail : List Json, (∀ msg ∈ tail, IsOther msg) →
      ((turn.settled timestamp options tail).settled timestamp' options
        (others (turn.settled timestamp options tail).span) =
          turn.settled timestamp options tail ↔ turn.KeepsNames) := by
    intro turn hturn tail htail
    have htail' : ∀ msg ∈ tail, isToolResult msg = false := fun msg hmsg => (htail msg hmsg).1
    rw [others_span_settled htail',
      ← results_settled_eq_iff (hids turn hturn) htail']
    constructor
    · intro h
      have hspan := congrArg ToolTurn.span h
      exact append_cancel_right hspan
    · intro h
      rw [ToolTurn.settled, h]
      rfl
  constructor
  · intro h turn hturn hfailed
    obtain ⟨tail, htail, hmem⟩ :=
      exists_settled_mem_regroup hturns hturn fun hdropped => hfailed hdropped.1
    exact (hsettled turn hturn tail htail).mp (h _ hmem) hfailed
  · intro h turn' hturn'
    obtain ⟨turn, hturn, _, tail, htail, rfl⟩ := exists_of_mem_regroup_snd hturns hturn'
    exact (hsettled turn hturn tail htail).mpr (h turn hturn)

theorem repair_rebuiltMessages_iff (hturns : DistinctCallIds messages)
    (hfresh : FreshIds options (splitTurns messages).2) :
    (repairToolUseResultPairing timestamp' options
        (rebuiltMessages timestamp options messages)).messages =
      rebuiltMessages timestamp options messages ↔
    ∀ turn ∈ (splitTurns messages).2, turn.KeepsNames := by
  have hplaced := wellPlaced_splitTurns messages
  have hsplit := splitTurns_rebuiltMessages timestamp options messages
  have hturns' : DistinctCallIds (rebuiltMessages timestamp options messages) := by
    intro turn' hturn'
    rw [hsplit] at hturn'
    exact distinctIds_of_mem_regroup hplaced hturns hturn'
  have hfresh' : FreshIds options
      (splitTurns (rebuiltMessages timestamp options messages)).2 := by
    rw [hsplit, FreshIds, freshIds_regroup hplaced hturns]
    exact hfresh
  by_cases hneeds : NeedsRepair options (rebuiltMessages timestamp options messages)
  · have hbefore : others (others (splitTurns messages).1 ++
        (regroup timestamp options (splitTurns messages).2).1) =
        others (splitTurns messages).1 ++
          (regroup timestamp options (splitTurns messages).2).1 := by
      apply others_eq_self
      intro msg hmsg
      rcases mem_append.mp hmsg with hmsg | hmsg
      · exact not_isToolResult_of_mem_others hmsg
      · exact (isOther_of_mem_regroup_fst hplaced hmsg).1
    have hjoin : rebuiltMessages timestamp options messages =
        others (splitTurns messages).1 ++ (regroup timestamp options (splitTurns messages).2).1 ++
          joinTurns (regroup timestamp options (splitTurns messages).2).2 := by
      rw [rebuiltMessages, flatMap_repaired, append_assoc]
    rw [messages_of_needsRepair hturns' hfresh' hneeds, hsplit, hbefore, hjoin,
      append_cancel_left_eq]
    exact flatMap_repaired_regroup_iff hplaced hturns
  · rw [messages_of_not_needsRepair hturns' hfresh' hneeds]
    refine iff_of_true rfl fun turn hturn hfailed => ?_
    obtain ⟨tail, _, hmem⟩ := @exists_settled_mem_regroup timestamp options turn _ hplaced hturn
      fun hdropped => hfailed hdropped.1
    have hflags : (turn.settled timestamp options tail).flags options [] = false := by
      apply Bool.eq_false_iff.mpr
      intro hflags
      apply hneeds
      right
      rw [hsplit]
      exact ⟨_, hmem, hflags⟩
    exact keepsNames_of_not_flags_settled (hturns turn hturn) hflags hfailed

/-! ## What is returned as it came -/

/-- What a result that is not flagged stands for. -/
theorem realResult?_of_mem_span (hnodup : turn.DistinctIds)
    (hflags : turn.flags options [] = false) {call : ToolCallLike}
    (hcall : call ∈ turn.calls) (h : firstResult? turn.span call.id = some msg) :
    turn.realResult? call = some msg := by
  have hresult := (firstResult?_spec h).1
  have hflag := any_eq_false.mp (Bool.or_eq_false_iff.mp hflags).1 msg
    (mem_of_find?_eq_some h)
  have hanswered : answeredId? turn.calls msg = some call.id :=
    Option.filter_eq_some_iff.mpr ⟨(firstResult?_spec h).2, decide_eq_true (mem_map_of_mem hcall)⟩
  rw [hresult, flagsResult, hanswered] at hflag
  dsimp only at hflag
  rw [toolCallName?_of_mem hnodup hcall] at hflag
  rw [ToolTurn.realResult?, h, Option.map_some, normalizeToolResultName]
  split
  · rename_i name hname
    rw [hname] at hflag
    simp at hflag
  · rfl

theorem exists_call_of_mem_span (hflags : turn.flags options [] = false)
    (hmem : msg ∈ turn.span) (hresult : isToolResult msg = true) :
    ∃ call ∈ turn.calls, extractToolResultId msg = some call.id := by
  have hflag := any_eq_false.mp (Bool.or_eq_false_iff.mp hflags).1 msg hmem
  rw [hresult, flagsResult] at hflag
  cases hid : answeredId? turn.calls msg with
  | none =>
    rw [hid] at hflag
    exact absurd rfl hflag
  | some id =>
    obtain ⟨hmsg, hcalls⟩ := Option.filter_eq_some_iff.mp hid
    obtain ⟨call, hcall, rfl⟩ := mem_map.mp (of_decide_eq_true hcalls)
    exact ⟨call, hcall, hmsg⟩

/-- In a tidy turn that is not flagged, the results are the answers. -/
theorem perm_results_of_tidy (hnodup : turn.DistinctIds)
    (hflags : turn.flags options [] = false) (htidy : turn.Tidy) :
    (turn.span.filter isToolResult).Perm (turn.results timestamp options) := by
  have hdropped := (fresh_of_not_flags hflags).1
  apply (perm_ext_iff_of_nodup htidy.1.of_map
    (nodup_map_extractToolResultId_results hnodup hdropped).of_map).mpr
  intro msg
  rw [mem_filter, results_eq, mem_filterMap]
  constructor
  · rintro ⟨hmem, hresult⟩
    obtain ⟨call, hcall, hid⟩ := exists_call_of_mem_span hflags hmem hresult
    obtain ⟨first, hfirst⟩ : ∃ first, firstResult? turn.span call.id = some first := by
      rw [← Option.isSome_iff_exists, firstResult?, find?_isSome]
      exact ⟨msg, hmem, by simp [hresult, hid]⟩
    obtain ⟨hfirstResult, hfirstId⟩ := firstResult?_spec hfirst
    have hfirstMem := mem_of_find?_eq_some hfirst
    -- there is no second one under the same id
    have hsame : first = msg := inj_on_of_nodup_map htidy.1
      (mem_filter.mpr ⟨hfirstMem, hfirstResult⟩) (mem_filter.mpr ⟨hmem, hresult⟩)
      (hfirstId.trans hid.symm)
    rw [hsame] at hfirst
    have hreal := realResult?_of_mem_span hnodup hflags hcall hfirst
    refine ⟨call, hcall, ?_⟩
    rw [ToolTurn.answer?, hreal]
    split_ifs <;> rfl
  · rintro ⟨call, hcall, hanswer⟩
    have hreal : turn.realResult? call = some msg := by
      by_cases hfailed : turn.Failed
      · rwa [ToolTurn.answer?, if_pos hfailed] at hanswer
      · rw [ToolTurn.answer?, if_neg hfailed] at hanswer
        have hrest := (Bool.or_eq_false_iff.mp hflags).2
        rw [if_neg hfailed] at hrest
        have hcall' := any_eq_false.mp (Bool.or_eq_false_iff.mp hrest).1 call hcall
        cases hresult : turn.realResult? call with
        | none =>
          rw [hresult] at hcall'
          exact absurd rfl hcall'
        | some result =>
          rw [hresult] at hanswer
          exact hanswer
    obtain ⟨first, hfirst, _⟩ := Option.map_eq_some_iff.mp hreal
    rw [realResult?_of_mem_span hnodup hflags hcall hfirst, Option.some.injEq] at hreal
    rw [← hreal]
    exact ⟨mem_of_find?_eq_some hfirst, (firstResult?_spec hfirst).1⟩

theorem tidy_of_span_eq (hnodup : turn.DistinctIds) (hdropped : ¬turn.Dropped options)
    {results : List Json} (hperm : results.Perm (turn.results timestamp options))
    (hspan : turn.span = results ++ others turn.span) : turn.Tidy := by
  have hresults : ∀ msg ∈ results, isToolResult msg = true := fun msg hmsg =>
    isToolResult_of_mem_results (hperm.mem_iff.mp hmsg)
  have hfilter : turn.span.filter isToolResult = results := by
    rw [hspan, filter_append, filter_eq_self.mpr hresults, filter_eq_nil_iff.mpr,
      append_nil]
    intro msg hmsg
    rw [not_isToolResult_of_mem_others hmsg]
    exact Bool.false_ne_true
  constructor
  · rw [hfilter]
    exact (hperm.map _).nodup_iff.mpr
      (nodup_map_extractToolResultId_results hnodup hdropped)
  · rwa [hfilter]

/-- The turns that the pieces stand for. -/
theorem exists_turns_of_repairedTurns {pieces : List (List Json)}
    (h : List.Forall₂ (RepairedTurn timestamp options) turns pieces)
    (hdropped : ∀ turn ∈ turns, ¬turn.Dropped options) (hturns : ∀ turn ∈ turns, turn.WellPlaced) :
    ∃ turns', pieces.flatten = joinTurns turns' ∧ (∀ turn ∈ turns', turn.WellPlaced) ∧
      List.Forall₂ (fun turn turn' => ∃ results : List Json,
        results.Perm (turn.results timestamp options) ∧
          turn'.span = results ++ others turn.span) turns turns' := by
  induction h with
  | nil => exact ⟨[], rfl, forall_mem_nil _, .nil⟩
  | @cons turn piece turns pieces hpiece _ ih =>
    rw [forall_mem_cons] at hdropped hturns
    obtain ⟨turns', hflatten, hplaced, hforall⟩ := ih hdropped.2 hturns.2
    rw [RepairedTurn, if_neg hdropped.1] at hpiece
    obtain ⟨results, hperm, rfl⟩ := hpiece
    refine ⟨⟨turn.assistant, results ++ others turn.span⟩ :: turns', ?_, ?_,
      .cons ⟨results, hperm, rfl⟩ hforall⟩
    · rw [flatten_cons, hflatten]
      rfl
    · rw [forall_mem_cons]
      refine ⟨⟨hturns.1.1, ?_⟩, hplaced⟩
      intro msg hmsg
      rcases mem_append.mp hmsg with hmsg | hmsg
      · exact not_assistantHasToolCalls_of_mem_results (hperm.mem_iff.mp hmsg)
      · exact hturns.1.2 msg (mem_of_mem_filter hmsg)

theorem isRepairOf_self_iff (hturns : DistinctCallIds messages)
    (hbefore : (splitTurns messages).1.any isToolResult = false)
    (hflags : ∀ turn ∈ (splitTurns messages).2, turn.flags options [] = false) :
    IsRepairOf timestamp options messages messages ↔
      ∀ turn ∈ (splitTurns messages).2, turn.Tidy := by
  have hothers : others (splitTurns messages).1 = (splitTurns messages).1 :=
    others_eq_self fun msg hmsg => Bool.eq_false_iff.mpr (any_eq_false.mp hbefore msg hmsg)
  have hdropped : ∀ turn ∈ (splitTurns messages).2, ¬turn.Dropped options :=
    fun turn hturn => (fresh_of_not_flags (hflags turn hturn)).1
  have hplaced := wellPlaced_splitTurns messages
  constructor
  · rintro ⟨pieces, hpieces, heq⟩
    obtain ⟨turns', hflatten, hplaced', hforall⟩ :=
      exists_turns_of_repairedTurns hpieces hdropped hplaced
    -- there is one way to split the transcript
    have hsplit : (splitTurns messages).2 = turns' := by
      rw [hothers, hflatten] at heq
      rw [heq, splitTurns_append_joinTurns
        (fun _ => not_assistantHasToolCalls_of_mem_splitTurns) hplaced']
    rw [← hsplit, forall₂_same] at hforall
    intro turn hturn
    obtain ⟨results, hperm, hspan⟩ := hforall turn hturn
    exact tidy_of_span_eq (hturns turn hturn) (hdropped turn hturn) hperm hspan
  · intro htidy
    refine ⟨(splitTurns messages).2.map fun turn => turn.assistant :: turn.span, ?_, ?_⟩
    · rw [forall₂_map_right_iff, forall₂_same]
      intro turn hturn
      rw [RepairedTurn, if_neg (hdropped turn hturn)]
      refine ⟨_, perm_results_of_tidy (hturns turn hturn) (hflags turn hturn)
        (htidy turn hturn), ?_⟩
      rw [← (htidy turn hturn).2]
    · rw [hothers]
      exact (append_joinTurns_splitTurns messages).symm

/-! ## The repair as a whole -/

theorem keepsNames_of_not_flags (h : turn.flags options [] = false) : turn.KeepsNames := by
  intro hfailed call hcall hnone
  have hrest := (Bool.or_eq_false_iff.mp h).2
  rw [if_neg hfailed] at hrest
  have hcall' := any_eq_false.mp (Bool.or_eq_false_iff.mp hrest).1 call hcall
  rw [hnone] at hcall'
  exact absurd rfl hcall'

/-- The repair does its work exactly if no id is answered by two turns, synthetic results get
names that are kept, and a transcript that gives no other cause for a repair has no second result
of a call and no result behind another message. -/
theorem repairsPairing_iff (hturns : DistinctCallIds messages) :
    RepairsPairing timestamp options messages ↔ FreshIds options (splitTurns messages).2 ∧
        (∀ turn ∈ (splitTurns messages).2, turn.KeepsNames) ∧
          (NeedsRepair options messages ∨ ∀ turn ∈ (splitTurns messages).2, turn.Tidy) := by
  by_cases hneeds : NeedsRepair options messages
  · constructor
    · rintro ⟨hrepair, hagain⟩
      have hfresh := freshIds_of_isRepairOf hturns hrepair
      have hmessages := @messages_of_needsRepair timestamp options messages hturns hfresh hneeds
      rw [hmessages] at hagain
      exact ⟨hfresh, (repair_rebuiltMessages_iff hturns hfresh).mp (hagain timestamp), .inl hneeds⟩
    · rintro ⟨hfresh, hnames, _⟩
      have hmessages := @messages_of_needsRepair timestamp options messages hturns hfresh hneeds
      rw [RepairsPairing, hmessages]
      exact ⟨isRepairOf_rebuilt timestamp options messages, fun timestamp' =>
        (repair_rebuiltMessages_iff hturns hfresh).mpr hnames⟩
  · have hbefore : (splitTurns messages).1.any isToolResult = false :=
      Bool.eq_false_iff.mpr fun h => hneeds (.inl h)
    have hflags : ∀ turn ∈ (splitTurns messages).2, turn.flags options [] = false :=
      fun turn hturn => Bool.eq_false_iff.mpr fun h => hneeds (.inr ⟨turn, hturn, h⟩)
    have hself := @isRepairOf_self_iff timestamp options messages hturns hbefore hflags
    constructor
    · rintro ⟨hrepair, _⟩
      have hfresh := freshIds_of_isRepairOf hturns hrepair
      rw [messages_of_not_needsRepair hturns hfresh hneeds] at hrepair
      exact ⟨hfresh, fun turn hturn => keepsNames_of_not_flags (hflags turn hturn),
        .inr (hself.mp hrepair)⟩
    · rintro ⟨hfresh, _, hneeds' | htidy⟩
      · exact absurd hneeds' hneeds
      · have hsame : ∀ timestamp,
            (repairToolUseResultPairing timestamp options messages).messages = messages :=
          fun _ => messages_of_not_needsRepair hturns hfresh hneeds
        rw [RepairsPairing, hsame]
        exact ⟨hself.mpr htidy, hsame⟩

/-- An assistant message with one tool call. -/
def sampleTurn (id : String) : Json :=
  .object [("role".toList, .string "assistant".toList), ("content".toList,
    .array [.object [("type".toList, .string "toolCall".toList), ("id".toList, .string id.toList),
      ("name".toList, .string "read".toList)]])]

def sampleResult (id text : String) : Json :=
  .object [("role".toList, .string "toolResult".toList), ("toolCallId".toList, .string id.toList),
    ("toolName".toList, .string "read".toList), ("content".toList, .string text.toList)]

def sampleOptions : ToolUseResultPairingOptions := ⟨.preserve, none⟩

/-- The result of the first call comes late, the one of the second is missing. -/
theorem repairsPairing_iff_late : RepairsPairing [] sampleOptions
        [sampleTurn "call_1", .string "hi".toList, sampleResult "call_1" "a", sampleTurn "call_2"] ↔
      FreshIds sampleOptions (splitTurns [sampleTurn "call_1", .string "hi".toList,
        sampleResult "call_1" "a", sampleTurn "call_2"]).2 ∧
      (∀ turn ∈ (splitTurns [sampleTurn "call_1", .string "hi".toList,
        sampleResult "call_1" "a", sampleTurn "call_2"]).2, turn.KeepsNames) ∧
      (NeedsRepair sampleOptions [sampleTurn "call_1", .string "hi".toList,
          sampleResult "call_1" "a", sampleTurn "call_2"] ∨
        ∀ turn ∈ (splitTurns [sampleTurn "call_1", .string "hi".toList,
          sampleResult "call_1" "a", sampleTurn "call_2"]).2, turn.Tidy) := by
  apply repairsPairing_iff
  intro turn hturn
  have hids : ∀ turn ∈ (splitTurns [sampleTurn "call_1", .string "hi".toList,
      sampleResult "call_1" "a", sampleTurn "call_2"]).2, (turn.calls.map (·.id)).Nodup := by
    decide +kernel
  exact hids turn hturn

/-- A second result right behind the first one stays where nothing else is to be repaired. -/
theorem exists_not_repairsPairing : ∃ timestamp options messages, DistinctCallIds messages ∧
    ¬RepairsPairing timestamp options messages := by
  refine ⟨[], sampleOptions, [sampleTurn "call_1", sampleResult "call_1" "first",
    sampleResult "call_1" "second"], ?_, ?_⟩
  · intro turn hturn
    have hids : ∀ turn ∈ (splitTurns [sampleTurn "call_1", sampleResult "call_1" "first",
        sampleResult "call_1" "second"]).2, (turn.calls.map (·.id)).Nodup := by
      decide +kernel
    exact hids turn hturn
  · rintro ⟨⟨pieces, hpieces, heq⟩, _⟩
    have hcount := countP_of_forall₂_repairedTurn
      (fun turn => isAssistant_of_mem_splitTurns) hpieces
    have hmessages := congrArg (List.countP isToolResult) heq
    rw [countP_append, countP_others, hcount] at hmessages
    revert hmessages
    decide +kernel

end OpenClaw
