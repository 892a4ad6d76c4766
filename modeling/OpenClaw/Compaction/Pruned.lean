import OpenClaw.Compaction.Boundaries

/-!
# What pruning keeps

From one round to the next the history stays what was left of the input: its messages that are no
tool results, in order behind the dropped ones, and of its results those that still have their
call.
-/

namespace OpenClaw

open List Bool

/-! ## Pruning a history

`pruneHistoryForContextShare` of `compaction.ts`. The loop is written with a number of rounds
that it may take; without one left it has no result. Each repair has its own time. -/

inductive PruneMode where
  | share
  | handoff
deriving DecidableEq

structure PruneParams where
  messages : List Json
  maxContextTokens : ℚ
  maxHistoryShare : Option ℚ
  parts : Option ℚ
  mode : Option PruneMode

variable (params : PruneParams)

def PruneParams.budgetTokens : ℤ :=
  let defaultShare : ℚ := if params.mode = some .handoff then 1 / 5 else 1 / 2
  let maxHistoryShare := params.maxHistoryShare.getD defaultShare
  max 1 ⌊params.maxContextTokens * maxHistoryShare⌋

structure PruneState where
  keptMessages : List Json
  allDroppedMessages : List Json
  droppedChunks : ℕ
  droppedMessages : ℕ
  droppedTokens : ℚ

/-- The repair is called without options. -/
def pruneRepairOptions : ToolUseResultPairingOptions := ⟨.preserve, none⟩

section

variable (estimateTokens : Json → ℚ) (budgetTokens : ℤ) (parts : ℕ)

/-- A round of the loop, where there is one. -/
def pruneRound (timestamp : Str) (state : PruneState) : Option PruneState :=
  if state.keptMessages = [] ∨
      estimateMessagesTokens estimateTokens state.keptMessages ≤ budgetTokens then none
  else
    match splitMessagesByTokenShare estimateTokens state.keptMessages parts with
    | dropped :: chunk :: chunks =>
      let flatRest := (chunk :: chunks).flatten
      let repairReport := repairToolUseResultPairing timestamp pruneRepairOptions flatRest
      let orphanedCount := repairReport.droppedOrphanCount
      some
        { keptMessages := repairReport.messages
          allDroppedMessages := state.allDroppedMessages ++ dropped
          droppedChunks := state.droppedChunks + 1
          droppedMessages := state.droppedMessages + (dropped.length + orphanedCount)
          droppedTokens := state.droppedTokens + estimateMessagesTokens estimateTokens dropped }
    | _ => none

def pruneLoop (timestamps : ℕ → Str) : ℕ → PruneState → Option PruneState
  | 0, _ => none
  | fuel + 1, state =>
    match pruneRound estimateTokens budgetTokens parts (timestamps state.droppedChunks) state with
    | some state' => pruneLoop timestamps fuel state'
    | none => some state

end

structure PruneResult where
  messages : List Json
  droppedMessagesList : List Json
  droppedChunks : ℕ
  droppedMessages : ℕ
  droppedTokens : ℚ
  keptTokens : ℚ
  budgetTokens : ℤ

def pruneHistoryForContextShare (estimateTokens : Json → ℚ) (timestamps : ℕ → Str) (fuel : ℕ)
    (params : PruneParams) : Option PruneResult :=
  let budgetTokens := params.budgetTokens
  let parts := normalizeParts (params.parts.getD defaultParts) params.messages.length
  (pruneLoop estimateTokens budgetTokens parts timestamps fuel ⟨params.messages, [], 0, 0, 0⟩).map
    fun state =>
      { messages := state.keptMessages
        droppedMessagesList := state.allDroppedMessages
        droppedChunks := state.droppedChunks
        droppedMessages := state.droppedMessages
        droppedTokens := state.droppedTokens
        keptTokens := estimateMessagesTokens estimateTokens state.keptMessages
        budgetTokens := budgetTokens }

/-! ## What pruning keeps -/

variable {estimateTokens : Json → ℚ} {budgetTokens : ℤ} {parts : ℕ} {timestamp : Str}
  {timestamps : ℕ → Str} {messages messages' : List Json} {state state' : PruneState}

/-! ## The end of a history -/

theorem mem_splitTurns_of_append {turn : ToolTurn} (before : List Json)
    (h : turn ∈ (splitTurns messages).2) : turn ∈ (splitTurns (before ++ messages)).2 := by
  induction before with
  | nil => exact h
  | cons msg before ih =>
    rw [cons_append, splitTurns]
    split_ifs
    · exact mem_cons_of_mem _ ih
    · exact ih

theorem DistinctResultIds.of_append (h : DistinctResultIds (messages ++ messages')) :
    DistinctResultIds messages' := by
  rw [DistinctResultIds, toolResultIds_append] at h
  exact h.of_append_right

theorem Paired.head_not_isToolResult {msg : Json} (h : Paired (msg :: messages)) :
    isToolResult msg = false := by
  cases hcalls : assistantHasToolCalls msg with
  | true =>
    rw [assistantHasToolCalls, and_eq_true] at hcalls
    exact not_isToolResult_of_isAssistant hcalls.1
  | false =>
    apply h.before
    rw [splitTurns, hcalls]
    exact mem_cons_self

/-! ## A round -/

/-- What a round does. -/
structure Prunes (timestamp : Str) (state state' : PruneState) : Prop where
  step : ∃ dropped rest, state.keptMessages = dropped ++ rest ∧ dropped ≠ [] ∧ rest ≠ [] ∧
    state'.keptMessages =
      (repairToolUseResultPairing timestamp pruneRepairOptions rest).messages ∧
    state'.allDroppedMessages = state.allDroppedMessages ++ dropped ∧
    state'.droppedMessages = state.droppedMessages + (dropped.length +
      (repairToolUseResultPairing timestamp pruneRepairOptions rest).droppedOrphanCount)

theorem prunes_of_pruneRound
    (h : pruneRound estimateTokens budgetTokens parts timestamp state = some state') :
    Prunes timestamp state state' := by
  unfold pruneRound at h
  split_ifs at h
  have hpieces := pieces_splitMessagesByTokenShare estimateTokens state.keptMessages parts
  split at h
  · rename_i dropped chunk chunks hchunks
    rw [hchunks] at hpieces
    have hchunk : chunk ≠ [] := hpieces.chunk chunk (mem_cons_of_mem _ mem_cons_self)
    refine ⟨dropped, (chunk :: chunks).flatten, ?_, hpieces.chunk dropped mem_cons_self, ?_, ?_⟩
    · rw [← hpieces.flatten]
      rfl
    · rw [flatten_cons]
      exact append_ne_nil_of_left_ne_nil hchunk _
    · rw [← Option.some.inj h]
      exact ⟨rfl, rfl, rfl⟩
  · cases h

/-- What pruning has made of the input so far. -/
structure PruneInv (input : List Json) (state : PruneState) : Prop where
  others : others (state.allDroppedMessages ++ state.keptMessages) = others input
  paired : state.allDroppedMessages ≠ [] → Paired state.keptMessages
  untouched : state.allDroppedMessages = [] → state.keptMessages = input
  length : state.allDroppedMessages ≠ [] → 2 ≤ input.length
  accounts : AnsweredInTurn input → DistinctResultIds input →
    LeavesOut Renamed input state.keptMessages state.droppedMessages ∧
      AnsweredInTurn state.keptMessages
  soon : AnsweredBeforeNextAssistant input → DistinctResultIds input →
    AnsweredBeforeNextAssistant state.keptMessages ∧ DistinctResultIds state.keptMessages

theorem pruneInv_init (input : List Json) : PruneInv input ⟨input, [], 0, 0, 0⟩ where
  others := rfl
  paired h := absurd rfl h
  untouched _ := rfl
  length h := absurd rfl h
  accounts hanswered _ := ⟨LeavesOut.refl renamed_refl input, hanswered⟩
  soon hanswered hdistinct := ⟨hanswered, hdistinct⟩

theorem PruneInv.prunes {input : List Json} (h : PruneInv input state)
    (hstep : Prunes timestamp state state') : PruneInv input state' := by
  obtain ⟨dropped, rest, hkept, hne, hrest, hkept', hdropped', hcount⟩ := hstep.step
  have hpolicy : pruneRepairOptions.erroredAssistantResultPolicy = .preserve := rfl
  refine ⟨?_, fun _ => ?_, fun hnil => ?_, fun _ => ?_, fun hanswered hdistinct => ?_,
    fun hanswered hdistinct => ?_⟩
  · rw [hkept', hdropped', others_append, others_repair hpolicy, ← others_append, append_assoc,
      ← hkept]
    exact h.others
  · rw [hkept']
    exact paired_repair hpolicy rest
  · rw [hdropped'] at hnil
    exact absurd (append_eq_nil_iff.mp hnil).2 hne
  · by_cases hfirst : state.allDroppedMessages = []
    · rw [← h.untouched hfirst, hkept, length_append]
      have hdropped := length_pos_iff.mpr hne
      have hkeeps := length_pos_iff.mpr hrest
      omega
    · exact h.length hfirst
  · obtain ⟨hleaves, hanswered'⟩ := h.accounts hanswered hdistinct
    have hdistinct' := hdistinct.of_leavesOut hleaves
    rw [hkept] at hleaves hanswered' hdistinct'
    have hrestTurns : AnsweredInTurn rest :=
      fun turn hturn => hanswered' turn (mem_splitTurns_of_append dropped hturn)
    have hrepair := @leavesOut_repair timestamp _ _ hpolicy hrestTurns hdistinct'.of_append
    -- the chunk is dropped, and then the orphans of the rest
    have hchunk : LeavesOut Renamed (dropped ++ rest) rest dropped.length := by
      have happend := (LeavesOut.nil Renamed dropped).append (LeavesOut.refl renamed_refl rest)
      rw [Nat.add_zero] at happend
      exact happend
    have htrans : ∀ a b c, Renamed a b → Renamed b c → Renamed a c := fun _ _ _ => Renamed.trans
    have hall := hleaves.trans htrans (hchunk.trans htrans hrepair.1)
    rw [hkept', hcount]
    exact ⟨hall, hrepair.2⟩
  · obtain ⟨hanswered', hdistinct'⟩ := h.soon hanswered hdistinct
    rw [hkept] at hanswered' hdistinct'
    have hsoon : AnsweredBeforeNextAssistant rest :=
      fun turn hturn => hanswered' turn (mem_splitTurns_of_append dropped hturn)
    have hrestIds := hdistinct'.of_append
    have hinTurn : AnsweredInTurn rest := fun turn hturn => (hsoon turn hturn).answered
    rw [hkept']
    exact ⟨answeredSoon_repair hpolicy hsoon hrestIds,
      hrestIds.of_leavesOut (leavesOut_repair hpolicy hinTurn hrestIds).1⟩

/-! ## Termination -/

/-- How many rounds may still follow. Behind the first one the history begins with a message that
is no tool result, so each round takes one of these away, whatever the repair adds. -/
def PruneState.rank (state : PruneState) : ℕ :=
  (others state.keptMessages).length + (if state.allDroppedMessages = [] then 2 else 1)

theorem Prunes.rank_lt {input : List Json} (hinv : PruneInv input state)
    (h : Prunes timestamp state state') : state'.rank < state.rank := by
  obtain ⟨dropped, rest, hkept, hne, -, hkept', hdropped', -⟩ := h.step
  have hpolicy : pruneRepairOptions.erroredAssistantResultPolicy = .preserve := rfl
  have hne' : state'.allDroppedMessages ≠ [] := by
    rw [hdropped']
    exact append_ne_nil_of_right_ne_nil _ hne
  have hothers : (others state.keptMessages).length =
      (others dropped).length + (others state'.keptMessages).length := by
    rw [hkept', others_repair hpolicy, hkept, others_append, length_append]
  rw [PruneState.rank, PruneState.rank, if_neg hne', hothers]
  split_ifs with hfirst
  · omega
  · have hpaired := hinv.paired hfirst
    obtain ⟨msg, dropped', rfl⟩ := exists_cons_of_ne_nil hne
    rw [hkept, cons_append] at hpaired
    have hpos : 0 < (others (msg :: dropped')).length := by
      rw [others, filter_cons, hpaired.head_not_isToolResult]
      exact Nat.succ_pos _
    omega

/-- The loop ends, always in the same state. -/
theorem exists_pruneLoop {input : List Json} (hinv : PruneInv input state) :
    ∃ final, (∀ fuel, state.rank ≤ fuel →
        pruneLoop estimateTokens budgetTokens parts timestamps fuel state = some final) ∧
      PruneInv input final ∧
      pruneRound estimateTokens budgetTokens parts (timestamps final.droppedChunks) final = none := by
  generalize hrank : state.rank = rank
  induction rank using Nat.strong_induction_on generalizing state with
  | h rank ih =>
    subst hrank
    have hpos : 0 < state.rank := by
      rw [PruneState.rank]
      split_ifs <;> omega
    cases hround : pruneRound estimateTokens budgetTokens parts
        (timestamps state.droppedChunks) state with
    | none =>
      refine ⟨state, fun fuel hfuel => ?_, hinv, hround⟩
      obtain ⟨fuel, rfl⟩ : ∃ n, fuel = n + 1 := ⟨fuel - 1, by omega⟩
      rw [pruneLoop, hround]
    | some state' =>
      have hprunes := prunes_of_pruneRound hround
      have hlt := hprunes.rank_lt hinv
      obtain ⟨final, hfinal, hrest⟩ := ih state'.rank hlt (hinv.prunes hprunes) rfl
      refine ⟨final, fun fuel hfuel => ?_, hrest⟩
      obtain ⟨fuel, rfl⟩ : ∃ n, fuel = n + 1 := ⟨fuel - 1, by omega⟩
      rw [pruneLoop, hround]
      exact hfinal fuel (by omega)

/-! ## The budget -/

theorem two_le_normalizeParts {share : ℚ} {count : ℕ} (hshare : 2 ≤ share) (hcount : 2 ≤ count) :
    2 ≤ normalizeParts share count := by
  have hfloor : 2 ≤ ⌊share⌋₊ := Nat.le_floor hshare
  rw [normalizeParts, if_neg (by linarith)]
  omega

/-- Where the loop ends above the budget, the history is one message or one exchange. -/
theorem isExchange_of_pruneRound (hparts : 2 ≤ state.keptMessages.length → 2 ≤ parts)
    (hbudget : 0 ≤ budgetTokens) (hanswered : AnsweredBeforeNextAssistant state.keptMessages)
    (h : pruneRound estimateTokens budgetTokens parts timestamp state = none) :
    estimateMessagesTokens estimateTokens state.keptMessages ≤ budgetTokens ∨
      state.keptMessages.length = 1 ∨ IsExchange state.keptMessages := by
  have hbudget' : (0 : ℚ) ≤ budgetTokens := by exact_mod_cast hbudget
  by_cases hle : estimateMessagesTokens estimateTokens state.keptMessages ≤ budgetTokens
  · exact .inl hle
  · right
    have hne : state.keptMessages ≠ [] := by
      intro hnil
      rw [hnil] at hle
      exact hle hbudget'
    have hpos := length_pos_iff.mpr hne
    by_cases hlength : state.keptMessages.length = 1
    · exact .inl hlength
    · right
      have hlength : 2 ≤ state.keptMessages.length := by omega
      have htwo : (2 : ℚ) ≤ (parts : ℚ) := by exact_mod_cast hparts hlength
      have hnormalized := two_le_normalizeParts htwo hlength
      have hpieces : (splitMessagesByTokenShare estimateTokens state.keptMessages parts).length ≤
          1 := by
        rw [pruneRound, if_neg (not_or.mpr ⟨hne, hle⟩)] at h
        split at h
        · cases h
        · rename_i hone
          match hchunks : splitMessagesByTokenShare estimateTokens state.keptMessages parts with
          | [] => exact Nat.zero_le _
          | [_] => exact le_rfl
          | dropped :: chunk :: chunks => exact absurd hchunks (hone dropped chunk chunks)
      rw [splitMessagesByTokenShare, if_neg hne] at hpieces
      dsimp only at hpieces
      rw [if_neg (by omega)] at hpieces
      refine isExchange_of_onePiece hnormalized hlength ?_ hanswered hpieces
      have htotal : 0 < estimateMessagesTokens estimateTokens state.keptMessages := by linarith
      apply div_lt_self htotal
      exact_mod_cast hnormalized

/-- A turn that did not fail, with nothing but its results. -/
def IsTurnWithResults (messages : List Json) : Prop :=
  ∃ turn results, messages = turn :: results ∧ assistantHasToolCalls turn = true ∧
    stoppedWithError turn = false ∧ ∀ msg ∈ results, isToolResult msg = true ∧
      ∃ call ∈ extractToolCallsFromAssistant turn, extractToolResultId msg = some call.id

theorem Paired.isTurnWithResults (h : Paired messages) (hexchange : IsExchange messages) :
    IsTurnWithResults messages := by
  obtain ⟨turn, after, last, rfl, hcalls, hsucceeded, hafter, hlast, -⟩ := hexchange
  have hspan : ∀ msg ∈ after ++ [last], assistantHasToolCalls msg = false := by
    intro msg hmsg
    rcases mem_append.mp hmsg with hmsg | hmsg
    · rw [assistantHasToolCalls, hafter msg hmsg, Bool.false_and]
    · rw [mem_singleton.mp hmsg]
      exact not_assistantHasToolCalls_of_isToolResult hlast
  have hturns : (⟨turn, after ++ [last]⟩ : ToolTurn) ∈
      (splitTurns (turn :: (after ++ [last]))).2 := by
    have hmem := mem_splitTurns_append [] hcalls (after ++ [last])
    have hall : (splitTurns (after ++ [last])).1 = after ++ [last] := by
      rw [splitTurns_fst, takeWhile_eq_self_iff]
      intro msg hmsg
      rw [hspan msg hmsg]
      rfl
    rw [hall] at hmem
    exact hmem
  -- the last message is a result, so nothing stands behind the results
  obtain ⟨results, hplaced⟩ := h.placed _ hturns (by
    rw [ToolTurn.Failed, hsucceeded]
    exact Bool.false_ne_true)
  have hothers : others (after ++ [last]) = [] := by
    by_contra hne
    have hlastOther : last ∈ others (after ++ [last]) := by
      have heq := congrArg List.getLast? hplaced
      rw [getLast?_append_of_ne_nil _ hne, getLast?_append_of_ne_nil _ (by simp),
        getLast?_singleton] at heq
      exact mem_of_getLast? heq.symm
    rw [not_isToolResult_of_mem_others hlastOther] at hlast
    cases hlast
  refine ⟨turn, after ++ [last], rfl, hcalls, hsucceeded, fun msg hmsg => ?_⟩
  have hresult : isToolResult msg = true := by
    rw [others, filter_eq_nil_iff] at hothers
    have hnot := hothers msg hmsg
    rwa [not_eq_true, not_eq_false'] at hnot
  exact ⟨hresult, h.called _ hturns msg hmsg hresult⟩

/-! ## The result -/

/-- What a caller of `pruneHistoryForContextShare` can rely on. -/
structure PrunesHistory (params : PruneParams) (result : PruneResult) : Prop where
  /-- No message is lost that is no tool result. -/
  others : others (result.droppedMessagesList ++ result.messages) = others params.messages
  paired : result.droppedMessagesList ≠ [] → Paired result.messages
  /-- The dropped messages are the ones of the input that are no longer there. -/
  accounts : AnsweredInTurn params.messages → DistinctResultIds params.messages →
    LeavesOut Renamed params.messages result.messages result.droppedMessages
  budget : AnsweredBeforeNextAssistant params.messages → DistinctResultIds params.messages →
    result.keptTokens ≤ result.budgetTokens ∨ result.messages.length = 1 ∨
      IsTurnWithResults result.messages ∨
        result.droppedMessagesList = [] ∧ IsExchange result.messages

theorem budgetTokens_pos : 0 < params.budgetTokens :=
  lt_of_lt_of_le Int.zero_lt_one (le_max_left _ _)

/-- Pruning ends, loses nothing but tool results without their calls, and stays in its budget
unless a single exchange is left. -/
theorem pruneHistoryForContextShare_prunesHistory (estimateTokens : Json → ℚ)
    (timestamps : ℕ → Str) (params : PruneParams) (hparts : 2 ≤ params.parts.getD defaultParts) :
    ∃ result, (∀ fuel, params.messages.length + 2 ≤ fuel →
        pruneHistoryForContextShare estimateTokens timestamps fuel params = some result) ∧
      PrunesHistory params result := by
  set parts := normalizeParts (params.parts.getD defaultParts) params.messages.length with hpartsEq
  obtain ⟨final, hloop, hinv, hround⟩ := @exists_pruneLoop estimateTokens params.budgetTokens parts
    timestamps _ _ (pruneInv_init params.messages)
  have hrank : (⟨params.messages, [], 0, 0, 0⟩ : PruneState).rank ≤ params.messages.length + 2 := by
    rw [PruneState.rank, if_pos rfl]
    exact Nat.add_le_add_right (length_filter_le _ _) 2
  refine ⟨⟨final.keptMessages, final.allDroppedMessages, final.droppedChunks, final.droppedMessages,
    final.droppedTokens, estimateMessagesTokens estimateTokens final.keptMessages,
    params.budgetTokens⟩, fun fuel hfuel => ?_, hinv.others, hinv.paired,
    fun hanswered hdistinct => (hinv.accounts hanswered hdistinct).1,
    fun hanswered hdistinct => ?_⟩
  · rw [pruneHistoryForContextShare, ← hpartsEq, hloop fuel (hrank.trans hfuel)]
    rfl
  · have hkeptParts : 2 ≤ final.keptMessages.length → 2 ≤ parts := by
      intro hlength
      apply two_le_normalizeParts hparts
      by_cases hfirst : final.allDroppedMessages = []
      · rw [← hinv.untouched hfirst]
        exact hlength
      · exact hinv.length hfirst
    have hbudget := isExchange_of_pruneRound hkeptParts (budgetTokens_pos params).le
      (hinv.soon hanswered hdistinct).1 hround
    rcases hbudget with hle | hone | hexchange
    · exact .inl hle
    · exact .inr (.inl hone)
    · by_cases hfirst : final.allDroppedMessages = []
      · exact .inr (.inr (.inr ⟨hfirst, hexchange⟩))
      · exact .inr (.inr (.inl ((hinv.paired hfirst).isTurnWithResults hexchange)))

def pruneSample (role : String) (fields : List (Str × Json)) : Json :=
  .object (("role".toList, .string role.toList) :: fields)

def pruneSampleTurn : Json :=
  pruneSample "assistant" [("content".toList, .array [.object
    [("type".toList, .string "toolCall".toList), ("id".toList, .string "call_1".toList)]])]

def pruneSampleResult : Json :=
  pruneSample "toolResult" [("toolCallId".toList, .string "call_1".toList)]

def pruneSampleParams (maxContextTokens : ℚ) (messages : List Json) : PruneParams :=
  ⟨messages, maxContextTokens, none, none, none⟩

/-- A history of five messages of 30 tokens each, for a budget of 50 tokens. -/
theorem pruneHistoryForContextShare_prunesHistory_users :
    ∃ result, (∀ fuel, 7 ≤ fuel → pruneHistoryForContextShare (fun _ => 30) (fun _ => ['0']) fuel
        (pruneSampleParams 100 (List.replicate 5 (pruneSample "user" []))) = some result) ∧
      PrunesHistory (pruneSampleParams 100 (List.replicate 5 (pruneSample "user" []))) result :=
  pruneHistoryForContextShare_prunesHistory (fun _ => 30) (fun _ => ['0'])
    (pruneSampleParams 100 (List.replicate 5 (pruneSample "user" []))) (le_of_eq rfl)

/-- A message of the user between the call and its result. -/
def interruptedExchange : List Json :=
  [pruneSampleTurn, pruneSample "user" [], pruneSampleResult]

theorem answeredBeforeNextAssistant_interruptedExchange :
    AnsweredBeforeNextAssistant interruptedExchange := by
  have hsplit : (splitTurns interruptedExchange).2 =
      [⟨pruneSampleTurn, [pruneSample "user" [], pruneSampleResult]⟩] := rfl
  intro turn hturn _ call hcall
  rw [hsplit, mem_singleton] at hturn
  subst hturn
  have hcalls : extractToolCallsFromAssistant pruneSampleTurn = [⟨"call_1".toList, none⟩] := rfl
  rw [ToolTurn.calls, hcalls, mem_singleton] at hcall
  subst hcall
  exact ⟨pruneSampleResult, mem_cons_of_mem _ mem_cons_self, rfl, rfl⟩

/-- Two results of one call, and a message behind them. -/
def doubledResult : List Json :=
  [pruneSample "user" [], pruneSample "user" [], pruneSampleTurn, pruneSampleResult,
    pruneSampleResult, pruneSample "user" []]

/-- An interrupted exchange stays above the budget in one piece, and a second result of a call is
neither kept nor counted. -/
theorem exists_not_prunesAsSingleTurn :
    (∃ params result, params.parts = none ∧ AnsweredBeforeNextAssistant params.messages ∧
      pruneHistoryForContextShare (fun _ => 15) (fun _ => ['0']) 10 params = some result ∧
      ¬(result.keptTokens ≤ result.budgetTokens ∨ result.messages.length = 1 ∨
        IsTurnWithResults result.messages)) ∧
    ∃ params result, params.parts = none ∧
      pruneHistoryForContextShare (fun _ => 15) (fun _ => ['0']) 10 params = some result ∧
      ¬LeavesOut Renamed params.messages result.messages result.droppedMessages := by
  constructor
  · have hrun : (pruneHistoryForContextShare (fun _ => 15) (fun _ => ['0']) 10
        (pruneSampleParams 50 interruptedExchange)).any (fun result =>
          decide (¬result.keptTokens ≤ result.budgetTokens) &&
            decide (result.messages.length = 3) &&
            (result.messages.drop 1).any fun msg => !isToolResult msg) = true := by
      decide +kernel
    obtain ⟨result, hresult, hprops⟩ := (Option.any_eq_true _ _).mp hrun
    rw [and_eq_true, and_eq_true] at hprops
    refine ⟨_, result, rfl, answeredBeforeNextAssistant_interruptedExchange, hresult, ?_⟩
    rintro (hle | hone | ⟨turn, results, hmessages, -, -, hresults⟩)
    · exact of_decide_eq_true hprops.1.1 hle
    · have hthree := of_decide_eq_true hprops.1.2
      omega
    · obtain ⟨msg, hmsg, hother⟩ := any_eq_true.mp hprops.2
      rw [hmessages] at hmsg
      have htool := (hresults msg hmsg).1
      rw [htool] at hother
      cases hother
  · have hrun : (pruneHistoryForContextShare (fun _ => 15) (fun _ => ['0']) 10
        (pruneSampleParams 100 doubledResult)).any (fun result =>
          decide (result.messages.length + result.droppedMessages = 5)) = true := by
      decide +kernel
    obtain ⟨result, hresult, hcount⟩ := (Option.any_eq_true _ _).mp hrun
    refine ⟨_, result, rfl, hresult, fun hleaves => ?_⟩
    have hlength : 6 = result.messages.length + result.droppedMessages := hleaves.length_eq
    have hfive := of_decide_eq_true hcount
    omega

end OpenClaw
