import OpenClaw.ToolCallIds.Kept

/-!
# The ids of a sanitized list

The invariant of the pass over the messages, what each kind of message does to it, and what it says
of the whole list. It is stated for the results as the resolver attaches them: to the first open
call with their id.
-/

namespace OpenClaw

open Json List Option Function Ledger

section

variable (host : ToolIdHost) (mode : ToolCallIdMode) (options : ToolIdSanitizeOptions)
  (kept : List ℕ)

/-- The ids a call may carry. -/
def FineId (messages : List Json) (ref : CallRef) (id : Str) : Prop :=
  KeptOnPurpose options kept ref id ∨
    id.length ≤ maxToolIdLen ∧ (isValidCloudCodeAssistToolId id mode = true ∨
      mode = .strict ∧ isNativeKimiToolCallId (callSeed kept messages ref) = true ∧
        id ≠ callSeed kept messages ref)

/-- The state after some of the messages, with those that follow. -/
structure Sanitized (messages processed rest : List Json) (s : ToolIdSanitizing)
    (a : Attribution) : Prop where
  split : messages = processed ++ rest
  owners_length : a.owners.length = processed.length
  unchanged : s.changed = false → s.out = processed
  same : List.Forall₂ SameButIds processed s.out
  nodup : (assistantCallIds s.out ++ keptFrom kept processed.length rest).Nodup
  used : ∀ id ∈ assistantCallIds s.out ++ keptFrom kept processed.length rest,
    id ∈ s.resolver.used
  pending : ∀ id, (s.resolver.pendingByRawId id).map some =
    (Ledger.ofKey CallRef.id id a.unanswered).map (callIdAt s.out)
  occurrences : ∀ id, s.resolver.assistantOccurrences id = (resolvedFrom kept 0 processed).count id
  calls : ∀ (turn : ℕ) (message : Json), processed[turn]? = some message →
    isAssistant message = true → ∀ ref ∈ callRefs turn message,
      ∃ id, callIdAt s.out ref = some id ∧ FineId mode options kept messages ref id
  attached : ∀ (index : ℕ) (ref : CallRef), a.owners[index]? = some (some ref) →
    ∃ id message, callIdAt s.out ref = some id ∧ s.out[index]? = some message ∧
      ∀ given, given ∈ resultIds message ↔ given = id
  orphans : ∀ (index : ℕ) (message : Json), s.out[index]? = some message →
    isToolResult message = true → a.owners[index]? = some none → ∀ given ∈ resultIds message,
      given ∈ s.resolver.used ∧
        given ∉ assistantCallIds s.out ++ keptFrom kept processed.length rest

end

variable {ref : CallRef} {id : Str} {m' : Json}

section

variable {host : ToolIdHost} {mode : ToolCallIdMode} {options : ToolIdSanitizeOptions}
  {kept : List ℕ} {messages processed rest : List Json} {m : Json} {s : ToolIdSanitizing}
  {a : Attribution}

section

variable (h : Sanitized mode options kept messages processed rest s a)
include h

theorem Sanitized.out_length : s.out.length = processed.length := h.same.length_eq.symm

/-- A call that waits for its result is in the output. -/
theorem Sanitized.exists_callIdAt
    (href : ref ∈ a.unanswered) : ∃ id, callIdAt s.out ref = some id := by
  have hmem : callIdAt s.out ref ∈
      (Ledger.ofKey CallRef.id ref.id a.unanswered).map (callIdAt s.out) :=
    mem_map_of_mem (mem_filter.mpr ⟨href, decide_eq_true rfl⟩)
  rw [← h.pending] at hmem
  obtain ⟨id, _, hid⟩ := mem_map.mp hmem
  exact ⟨id, hid.symm⟩

theorem callIdAt_append_of_unanswered (more : List Json)
    {refs : List CallRef} (hrefs : refs ⊆ a.unanswered) :
    refs.map (callIdAt (s.out ++ more)) = refs.map (callIdAt s.out) := by
  apply map_congr_left
  intro ref href
  obtain ⟨id, hid⟩ := h.exists_callIdAt (hrefs href)
  rw [hid, callIdAt_append hid]

end

theorem getElem?_concat_cases {α : Type*} {l : List α} {x y : α} {i : ℕ}
    (h : (l ++ [x])[i]? = some y) : l[i]? = some y ∨ i = l.length ∧ x = y := by
  by_cases hlt : i < l.length
  · rw [getElem?_append_left hlt] at h
    exact Or.inl h
  · rw [getElem?_append_right (by omega)] at h
    have hzero : i - l.length = 0 := by
      by_contra hne
      rw [getElem?_eq_none (by rw [length_singleton]; omega)] at h
      cases h
    rw [hzero] at h
    exact Or.inr ⟨by omega, some.inj h⟩

section

variable (h : Sanitized mode options kept messages processed (m :: rest) s a)
include h

/-- One more message, with what is new about it. -/
theorem Sanitized.push
    {s' : ToolIdSanitizing} {a' : Attribution} (m' : Json) (owner : Option CallRef)
    (hout : s'.out = s.out ++ [m']) (howners : a'.owners = a.owners ++ [owner])
    (hsame : SameButIds m m') (hunchanged : s'.changed = false → s.changed = false ∧ m' = m)
    (hnodup : (assistantCallIds s.out ++ (assistantCallIds [m'] ++
      keptFrom kept (processed.length + 1) rest)).Nodup)
    (hused : ∀ id ∈ assistantCallIds [m'] ++ keptFrom kept (processed.length + 1) rest,
      id ∈ s'.resolver.used)
    (hkeepUsed : ∀ id ∈ s.resolver.used, id ∈ s'.resolver.used) (hold : ∀ id ∈ s.resolver.used,
      id ∉ assistantCallIds s.out ++ keptFrom kept processed.length (m :: rest) →
        id ∉ assistantCallIds [m'] ++ keptFrom kept (processed.length + 1) rest)
    (hpending : ∀ id, (s'.resolver.pendingByRawId id).map some =
      (Ledger.ofKey CallRef.id id a'.unanswered).map (callIdAt (s.out ++ [m'])))
    (hoccurrences : ∀ id, s'.resolver.assistantOccurrences id =
      s.resolver.assistantOccurrences id + (resolvedFrom kept processed.length [m]).count id)
    (hcalls : isAssistant m = true → ∀ ref ∈ callRefs processed.length m,
      ∃ id, callIdAt (s.out ++ [m']) ref = some id ∧ FineId mode options kept messages ref id)
    (hattached : ∀ ref, owner = some ref → ∃ id, callIdAt (s.out ++ [m']) ref = some id ∧
      ∀ given, given ∈ resultIds m' ↔ given = id)
    (horphans : isToolResult m' = true → owner = none → ∀ given ∈ resultIds m',
      given ∈ s'.resolver.used ∧ given ∉ assistantCallIds s.out ++ (assistantCallIds [m'] ++
        keptFrom kept (processed.length + 1) rest)) :
    Sanitized mode options kept messages (processed ++ [m]) rest s' a' where
  split := by rw [h.split, append_assoc, singleton_append]
  owners_length := by
    rw [howners, length_append, length_append, h.owners_length, length_singleton, length_singleton]
  unchanged := by
    intro hchanged
    obtain ⟨hbefore, hm⟩ := hunchanged hchanged
    rw [hout, h.unchanged hbefore, hm]
  same := by
    rw [hout]
    exact rel_append h.same (.cons hsame .nil)
  nodup := by
    rw [hout, assistantCallIds_append, length_append, append_assoc]
    exact hnodup
  used := by
    intro id hid
    rw [hout, assistantCallIds_append, length_append, append_assoc] at hid
    rcases mem_append.mp hid with hid | hid
    · exact hkeepUsed id (h.used id (mem_append_left _ hid))
    · exact hused id hid
  pending := by
    rw [hout]
    exact hpending
  occurrences := by
    intro id
    rw [hoccurrences, h.occurrences, resolvedFrom_append, count_append, Nat.zero_add]
  calls := by
    intro turn message hmessage hassistant ref href
    rw [hout]
    rcases getElem?_concat_cases hmessage with hmessage | ⟨rfl, rfl⟩
    · obtain ⟨id, hid, hfine⟩ := h.calls turn message hmessage hassistant ref href
      exact ⟨id, callIdAt_append hid _, hfine⟩
    · exact hcalls hassistant ref href
  attached := by
    intro index ref howner
    rw [howners] at howner
    rw [hout]
    rcases getElem?_concat_cases howner with howner | ⟨hindex, howner⟩
    · obtain ⟨id, message, hid, hmessage, hgiven⟩ := h.attached index ref howner
      have hlt := (List.getElem?_eq_some_iff.mp hmessage).1
      refine ⟨id, message, callIdAt_append hid _, ?_, hgiven⟩
      rw [getElem?_append_left hlt]
      exact hmessage
    · obtain ⟨id, hid, hgiven⟩ := hattached ref howner
      refine ⟨id, m', hid, ?_, hgiven⟩
      rw [hindex, h.owners_length, ← h.out_length, getElem?_concat_length]
  orphans := by
    intro index message hmessage hresult howner given hgiven
    rw [hout] at hmessage ⊢
    rw [howners] at howner
    rw [assistantCallIds_append, length_append, append_assoc]
    rcases getElem?_concat_cases hmessage with hmessage | ⟨hindex, hm⟩
    · have hlt := (List.getElem?_eq_some_iff.mp hmessage).1
      rw [h.out_length, ← h.owners_length] at hlt
      rw [getElem?_append_left hlt] at howner
      obtain ⟨hin, hnot⟩ := h.orphans index message hmessage hresult howner given hgiven
      refine ⟨hkeepUsed given hin, ?_⟩
      intro hmem
      rcases mem_append.mp hmem with hmem | hmem
      · exact hnot (mem_append_left _ hmem)
      · exact hold given hin hnot hmem
    · subst hm
      have hnone : owner = none := by
        rw [hindex, h.out_length, ← h.owners_length, getElem?_concat_length] at howner
        exact some.inj howner
      exact horphans hresult hnone given hgiven

/-! ## Messages that are no calls -/

theorem Sanitized.nodup_rest :
    (assistantCallIds s.out ++ keptFrom kept (processed.length + 1) rest).Nodup :=
  h.nodup.sublist ((List.Sublist.refl _).append (sublist_append_right _ _))

theorem Sanitized.used_rest :
    ∀ id ∈ keptFrom kept (processed.length + 1) rest, id ∈ s.resolver.used :=
  fun id hid => h.used id (mem_append_right _ (mem_append_right _ hid))

end

theorem not_mem_rest
    (h : id ∉ assistantCallIds s.out ++ keptFrom kept processed.length (m :: rest)) :
    id ∉ keptFrom kept (processed.length + 1) rest :=
  fun hid => h (mem_append_right _ (mem_append_right _ hid))

theorem assistantCallIds_of_not (h : isAssistant m = false) : assistantCallIds [m] = [] := by
  unfold assistantCallIds
  rw [flatMap_singleton, h]
  rfl

theorem assistantCallIds_of_isAssistant (h : isAssistant m = true) :
    assistantCallIds [m] = toolCallIds m := by
  unfold assistantCallIds
  rw [flatMap_singleton, h]
  rfl

theorem resolvedFrom_of_not (h : isAssistant m = false) (index : ℕ) :
    resolvedFrom kept index [m] = [] := by
  rw [resolvedFrom, if_neg (by rw [h]; exact fun hand => Bool.false_ne_true hand.1)]
  rfl

/-- A message that is passed on, or answered without the resolver's queues being looked at. -/
theorem Sanitized.push_other (h : Sanitized mode options kept messages processed (m :: rest) s a)
    (hassistant : isAssistant m = false) (hids : isToolResult m = true → resultIds m = []) :
    Sanitized mode options kept messages (processed ++ [m]) rest
      ⟨s.resolver, s.out ++ [m], s.changed⟩ ⟨a.unanswered, a.owners ++ [none]⟩ := by
  have hnone := assistantCallIds_of_not hassistant
  refine h.push m none rfl rfl .same (fun hchanged => ⟨hchanged, rfl⟩) ?_ ?_
    (fun _ hid => hid) ?_ ?_ ?_ ?_ (fun _ howner => nomatch howner) ?_
  · rw [hnone]
    exact h.nodup_rest
  · rw [hnone]
    exact h.used_rest
  · intro id _ hnot
    rw [hnone]
    exact not_mem_rest hnot
  · intro id
    rw [h.pending]
    exact (callIdAt_append_of_unanswered h _ (fun _ => mem_of_mem_filter)).symm
  · intro id
    rw [resolvedFrom_of_not hassistant]
    rfl
  · intro htrue
    rw [hassistant] at htrue
    cases htrue
  · intro hresult _ given hgiven
    rw [hids hresult] at hgiven
    cases hgiven

/-! ## Results -/

theorem ne_nil_of_callIdAt {out : List Json} (h : callIdAt out ref = some id) : id ≠ [] := by
  unfold callIdAt at h
  cases hmessage : out[ref.turn]? with
  | none =>
    rw [hmessage] at h
    cases h
  | some message =>
    rw [hmessage] at h
    exact ne_nil_of_mem_toolCallIds (mem_of_getElem? h)

theorem not_isAssistant_of_isToolResult (h : isToolResult m = true) : isAssistant m = false := by
  cases hassistant : isAssistant m with
  | false => rfl
  | true =>
    rw [not_isToolResult_of_isAssistant hassistant] at h
    cases h

theorem SameButIds.isAssistant_eq (h : SameButIds m m') : isAssistant m' = isAssistant m := by
  unfold isAssistant
  rw [h.messageRole_eq]

/-- The queue of a raw id and the first open call with it. -/
theorem Sanitized.earliestCall_of_pending
    (h : Sanitized mode options kept messages processed rest s a) {next : Str}
    {pending : List Str} (hpending : s.resolver.pendingByRawId id = next :: pending) :
    ∃ ref, earliestCall id a.unanswered = some ref ∧ callIdAt s.out ref = some next ∧
      pending.map some =
        (Ledger.ofKey CallRef.id id (a.unanswered.erase ref)).map (callIdAt s.out) := by
  have hqueue := h.pending id
  rw [hpending, map_cons] at hqueue
  cases holdest : earliestCall id a.unanswered with
  | none =>
    rw [oldest_eq_none_iff.mp holdest] at hqueue
    cases hqueue
  | some ref =>
    rw [ofKey_of_oldest holdest, map_cons] at hqueue
    have hparts := cons_eq_cons.mp hqueue
    exact ⟨ref, rfl, hparts.1.symm, hparts.2⟩

theorem Sanitized.earliestCall_of_orphan
    (h : Sanitized mode options kept messages processed rest s a)
    (hpending : s.resolver.pendingByRawId id = []) : earliestCall id a.unanswered = none := by
  have hqueue := h.pending id
  rw [hpending] at hqueue
  exact oldest_eq_none_iff.mpr (map_eq_nil_iff.mp hqueue.symm)

theorem resultIds_of_no_id (h : extractToolResultId m = none) :
    resultIds m = [] ∧ rewriteToolResultIds host mode options s.resolver m = (none, s.resolver) := by
  rw [extractToolResultId_eq, or_eq_none_iff] at h
  constructor
  · unfold resultIds
    rw [h.1, h.2]
    rfl
  · unfold rewriteToolResultIds
    rw [h.1, h.2]
    rfl

theorem Sanitized.push_result (h : Sanitized mode options kept messages processed (m :: rest) s a)
    (hresult : isToolResult m = true) (hagree : ResultIdsAgree m)
    (hclock : (sanitizeMessage host mode options kept s m).resolver.clockReads = 0) :
    Sanitized mode options kept messages (processed ++ [m]) rest
      (sanitizeMessage host mode options kept s m) (attributeMessage earliestCall a m) := by
  have hassistant := not_isAssistant_of_isToolResult hresult
  have hstep : sanitizeMessage host mode options kept s m =
      ⟨(rewriteToolResultIds host mode options s.resolver m).2,
        s.out ++ [(rewriteToolResultIds host mode options s.resolver m).1.getD m],
        s.changed || (rewriteToolResultIds host mode options s.resolver m).1.isSome⟩ := by
    unfold sanitizeMessage
    rw [hassistant, if_neg Bool.false_ne_true, hresult, if_pos rfl]
  cases hid : extractToolResultId m with
  | none =>
    obtain ⟨hnoIds, hrewrite⟩ := @resultIds_of_no_id host mode options m s hid
    have hattribute : attributeMessage earliestCall a m = ⟨a.unanswered, a.owners ++ [none]⟩ := by
      unfold attributeMessage
      rw [hassistant, if_neg Bool.false_ne_true, hresult, if_pos rfl, hid]
      rfl
    rw [hstep, hrewrite, hattribute]
    have hpush := h.push_other hassistant fun _ => hnoIds
    show Sanitized mode options kept messages _ rest ⟨s.resolver, s.out ++ [m], s.changed || false⟩ _
    rw [Bool.or_false]
    exact hpush
  | some id =>
    have hunchanged : ∀ s' : ToolIdSanitizing, s' = sanitizeMessage host mode options kept s m →
        s'.changed = false → s.changed = false ∧
          (rewriteToolResultIds host mode options s.resolver m).1.getD m = m := by
      intro s' hs' hchanged
      rw [hs', hstep] at hchanged
      obtain ⟨hbefore, hnone⟩ := Bool.or_eq_false_iff.mp hchanged
      refine ⟨hbefore, ?_⟩
      rw [isSome_eq_false_iff, isNone_iff_eq_none] at hnone
      rw [hnone]
      rfl
    cases hqueue : s.resolver.pendingByRawId id with
    | cons next pending =>
      have hresolve := @resolveToolResultId_of_pending host mode options s.resolver id next pending
        hqueue
      obtain ⟨ref, hearliest, href, hrest⟩ := h.earliestCall_of_pending hqueue
      have hattribute : attributeMessage earliestCall a m =
          ⟨a.unanswered.erase ref, a.owners ++ [some ref]⟩ := by
        unfold attributeMessage
        rw [hassistant, if_neg Bool.false_ne_true, hresult, if_pos rfl, hid, bind_some, hearliest]
      have hne : (s.resolver.resolveToolResultId host mode options id).1 ≠ [] := by
        rw [hresolve]
        exact ne_nil_of_callIdAt href
      obtain ⟨hafter, hgiven, hsame⟩ := rewriteToolResultIds_spec hresult hid hagree hne
      have hnone := assistantCallIds_of_not (hsame.isAssistant_eq.trans hassistant)
      have hresolver : (sanitizeMessage host mode options kept s m).resolver =
          { s.resolver with
            pendingByRawId := Function.update s.resolver.pendingByRawId id pending } := by
        rw [hstep, hafter, hresolve]
      refine h.push _ (some ref) (by rw [hstep]) (by rw [hattribute]) hsame
        (hunchanged _ rfl) ?_ ?_ ?_ ?_ ?_ ?_ ?_ ?_ ?_
      · rw [hnone]
        exact h.nodup_rest
      · rw [hnone, hresolver]
        exact h.used_rest
      · rw [hresolver]
        exact fun _ hin => hin
      · intro other _ hnot
        rw [hnone]
        exact not_mem_rest hnot
      · intro other
        have hsubset : Ledger.ofKey CallRef.id other (a.unanswered.erase ref) ⊆ a.unanswered :=
          fun _ hmem => mem_of_mem_erase (mem_of_mem_filter hmem)
        rw [hresolver, hattribute, callIdAt_append_of_unanswered h _ hsubset]
        dsimp only
        by_cases hother : id = other
        · subst hother
          rw [update_self]
          exact hrest
        · have hkey : ref.id ≠ other := by
            rw [key_of_oldest hearliest]
            exact hother
          rw [update_of_ne (Ne.symm hother), ofKey_erase_of_ne hkey]
          exact h.pending other
      · intro other
        rw [hresolver, resolvedFrom_of_not hassistant]
        rfl
      · intro htrue
        rw [hassistant] at htrue
        cases htrue
      · intro ref' hsome
        rw [← some.inj hsome]
        rw [hresolve] at hgiven
        exact ⟨next, callIdAt_append href _, hgiven⟩
      · exact fun _ hnot => nomatch hnot
    | nil =>
      have hclockResolve : (s.resolver.resolveToolResultId host mode options id).2.clockReads = 0 := by
        have hafter : (rewriteToolResultIds host mode options s.resolver m).2 =
            (s.resolver.resolveToolResultId host mode options id).2 := by
          rw [rewriteToolResultIds_eq hid hagree]
        rw [← hafter]
        rw [hstep] at hclock
        exact hclock
      obtain ⟨next, orphans, hresolve, hunused, hne⟩ :=
        resolveToolResultId_of_orphan hqueue hclockResolve
      have hearliest := h.earliestCall_of_orphan hqueue
      have hattribute : attributeMessage earliestCall a m = ⟨a.unanswered, a.owners ++ [none]⟩ := by
        unfold attributeMessage
        rw [hassistant, if_neg Bool.false_ne_true, hresult, if_pos rfl, hid, bind_some, hearliest]
      have hne' : (s.resolver.resolveToolResultId host mode options id).1 ≠ [] := by
        rw [hresolve]
        exact hne
      obtain ⟨hafter, hgiven, hsame⟩ := rewriteToolResultIds_spec hresult hid hagree hne'
      have hnone := assistantCallIds_of_not (hsame.isAssistant_eq.trans hassistant)
      have hresolver : (sanitizeMessage host mode options kept s m).resolver =
          { s.resolver with
            used := next :: s.resolver.used
            orphanToolResultOccurrences := orphans } := by
        rw [hstep, hafter, hresolve]
      refine h.push _ none (by rw [hstep]) (by rw [hattribute]) hsame
        (hunchanged _ rfl) ?_ ?_ ?_ ?_ ?_ ?_ ?_ ?_ ?_
      · rw [hnone]
        exact h.nodup_rest
      · rw [hnone, hresolver]
        exact fun other hin => mem_cons_of_mem _ (h.used_rest other hin)
      · rw [hresolver]
        exact fun _ hin => mem_cons_of_mem _ hin
      · intro other _ hnot
        rw [hnone]
        exact not_mem_rest hnot
      · intro other
        have hsubset : Ledger.ofKey CallRef.id other a.unanswered ⊆ a.unanswered :=
          fun _ => mem_of_mem_filter
        rw [hresolver, hattribute, callIdAt_append_of_unanswered h _ hsubset]
        exact h.pending other
      · intro other
        rw [hresolver, resolvedFrom_of_not hassistant]
        rfl
      · intro htrue
        rw [hassistant] at htrue
        cases htrue
      · exact fun _ hsome => nomatch hsome
      · intro _ _ given hmem
        rw [hresolve] at hgiven
        rw [(hgiven given).mp hmem, hresolver, hnone]
        refine ⟨mem_cons_self, ?_⟩
        intro hin
        rcases mem_append.mp hin with hin | hin
        · exact hunused (h.used next (mem_append_left _ hin))
        · exact hunused (h.used_rest next hin)

/-! ## Calls -/

/-- The queue of a raw id among the calls of one message. -/
theorem map_ofKey_zipIdx {ids nexts : List Str} (hlength : nexts.length = ids.length)
    (turn first : ℕ) (f : ℕ → Option Str) (hf : ∀ index, f (first + index) = nexts[index]?)
    (id : Str) : (Ledger.ofKey CallRef.id id
        ((ids.zipIdx first).map fun call => (⟨turn, call.2, call.1⟩ : CallRef))).map
        (fun ref => f ref.index) =
      (((ids.zip nexts).filter (·.1 = id)).map (·.2)).map some := by
  induction ids generalizing nexts first with
  | nil => rfl
  | cons first' ids ih =>
    cases nexts with
    | nil => cases hlength
    | cons next nexts =>
      have hhead : f first = some next := hf 0
      have htail : ∀ index, f (first + 1 + index) = nexts[index]? := by
        intro index
        have hshift := hf (index + 1)
        rw [getElem?_cons_succ] at hshift
        rw [← hshift]
        congr 1
        omega
      have hrest := ih (Nat.succ_injective hlength) (first + 1) htail
      rw [zipIdx_cons, map_cons, zip_cons_cons]
      unfold Ledger.ofKey at hrest ⊢
      by_cases hid : first' = id
      · rw [filter_cons, filter_cons]
        dsimp only
        rw [decide_eq_true hid, if_pos rfl, if_pos rfl, map_cons, map_cons, map_cons, hrest]
        exact congrArg (· :: _) hhead
      · rw [filter_cons, filter_cons]
        dsimp only
        rw [decide_eq_false hid, if_neg Bool.false_ne_true, if_neg Bool.false_ne_true]
        exact hrest

theorem callIdAt_last {out : List Json} (href : ref.turn = out.length) :
    callIdAt (out ++ [m']) ref = (toolCallIds m')[ref.index]? := by
  unfold callIdAt
  rw [href, getElem?_concat_length, bind_some]

theorem turn_of_mem_callRefs {turn : ℕ} (h : ref ∈ callRefs turn m) :
    ref.turn = turn := (mem_callRefs.mp h).1

/-- The calls of the next message wait behind the ones that wait already. -/
theorem Sanitized.pending_append (h : Sanitized mode options kept messages processed rest s a)
    (hlength : (toolCallIds m').length = (toolCallIds m).length) (id : Str) :
    (Ledger.ofKey CallRef.id id (a.unanswered ++ callRefs processed.length m)).map
        (callIdAt (s.out ++ [m'])) =
      (s.resolver.pendingByRawId id ++
        (((toolCallIds m).zip (toolCallIds m')).filter (·.1 = id)).map (·.2)).map some := by
  have hsubset : Ledger.ofKey CallRef.id id a.unanswered ⊆ a.unanswered :=
    fun _ => mem_of_mem_filter
  rw [ofKey_append, map_append, map_append,
    callIdAt_append_of_unanswered h _ hsubset, h.pending]
  congr 1
  rw [← map_ofKey_zipIdx hlength processed.length 0 (fun index => (toolCallIds m')[index]?)
    (fun index => by rw [Nat.zero_add]) id]
  apply map_congr_left
  intro ref href
  apply callIdAt_last
  rw [h.out_length]
  exact turn_of_mem_callRefs (mem_of_mem_filter href)

theorem attributeMessage_assistant (pick : Str → List CallRef → Option CallRef)
    (h : isAssistant m = true) : attributeMessage pick a m =
      ⟨a.unanswered ++ callRefs a.owners.length m, a.owners ++ [none]⟩ := if_pos h

/-- The closure for a kept turn. -/
theorem foldl_preserveAssistantId (ids : List Str) (r : ToolIdResolver) :
    (∀ id, id ∈ (ids.foldl ToolIdResolver.preserveAssistantId r).used ↔ id ∈ ids ∨ id ∈ r.used) ∧
      (∀ id, (ids.foldl ToolIdResolver.preserveAssistantId r).pendingByRawId id =
        r.pendingByRawId id ++ ((ids.zip ids).filter (·.1 = id)).map (·.2)) ∧
      (ids.foldl ToolIdResolver.preserveAssistantId r).assistantOccurrences =
        r.assistantOccurrences ∧
      (ids.foldl ToolIdResolver.preserveAssistantId r).clockReads = r.clockReads := by
  induction ids generalizing r with
  | nil =>
    refine ⟨fun id => ⟨Or.inr, fun h => h.resolve_left not_mem_nil⟩, fun id => ?_, rfl, rfl⟩
    exact (append_nil _).symm
  | cons first ids ih =>
    obtain ⟨hused, hpending, hoccurrences, hclock⟩ := ih (r.preserveAssistantId first)
    rw [foldl_cons]
    refine ⟨?_, ?_, hoccurrences, hclock⟩
    · intro id
      rw [hused]
      show id ∈ ids ∨ id ∈ first :: r.used ↔ _
      rw [mem_cons, mem_cons]
      tauto
    · intro id
      rw [hpending, zip_cons_cons]
      show Function.update r.pendingByRawId first (r.pendingByRawId first ++ [first]) id ++ _ = _
      by_cases hid : first = id
      · subst hid
        rw [update_self, filter_cons, decide_eq_true rfl, if_pos rfl, map_cons, append_assoc]
        rfl
      · rw [update_of_ne (Ne.symm hid), filter_cons_of_neg (by simpa using hid)]

section

variable (h : Sanitized mode options kept messages processed (m :: rest) s a)
include h

/-- A kept turn. -/
theorem Sanitized.push_kept (hassistant : isAssistant m = true) (hkept : processed.length ∈ kept) :
    Sanitized mode options kept messages (processed ++ [m]) rest
      (sanitizeMessage host mode options kept s m) (attributeMessage earliestCall a m) := by
  have hstep : sanitizeMessage host mode options kept s m =
      ⟨(toolCallIds m).foldl ToolIdResolver.preserveAssistantId s.resolver, s.out ++ [m],
        s.changed⟩ := by
    unfold sanitizeMessage
    rw [if_pos hassistant, h.out_length, if_pos hkept]
  obtain ⟨hused, hpending, hoccurrences, _⟩ := foldl_preserveAssistantId (toolCallIds m) s.resolver
  have hids := assistantCallIds_of_isAssistant hassistant
  have hkeptFrom : keptFrom kept processed.length (m :: rest) =
      toolCallIds m ++ keptFrom kept (processed.length + 1) rest := by
    rw [keptFrom, if_pos hkept]
  rw [hstep]
  refine h.push m none rfl
    (congrArg Attribution.owners (attributeMessage_assistant _ hassistant)) .same
    (fun hchanged => ⟨hchanged, rfl⟩) ?_ ?_ ?_ ?_ ?_ ?_ ?_ (fun _ hsome => by cases hsome) ?_
  · rw [hids, ← hkeptFrom]
    exact h.nodup
  · intro id hid
    rw [hids, ← hkeptFrom] at hid
    exact (hused id).mpr (Or.inr (h.used id (mem_append_right _ hid)))
  · exact fun id hid => (hused id).mpr (Or.inr hid)
  · intro id _ hnot
    rw [hids, ← hkeptFrom]
    exact fun hid => hnot (mem_append_right _ hid)
  · intro id
    rw [attributeMessage_assistant _ hassistant, hpending, h.owners_length]
    exact (h.pending_append rfl id).symm
  · intro id
    have hnone : resolvedFrom kept processed.length [m] = [] := by
      rw [resolvedFrom, if_neg fun hand => hand.2 hkept]
      rfl
    rw [hoccurrences, hnone]
    rfl
  · intro _ ref href
    obtain ⟨hturn, hid⟩ := mem_callRefs.mp href
    refine ⟨ref.id, ?_, Or.inl ⟨rfl, Or.inl (hturn ▸ hkept)⟩⟩
    rw [callIdAt_last (hturn.trans h.out_length.symm)]
    exact hid
  · intro hresult
    rw [not_isToolResult_of_isAssistant hassistant] at hresult
    cases hresult

/-- The ids given to the calls of a turn. -/
theorem fineId_of_givenId (href : ref ∈ callRefs processed.length m) {next : Str}
    (hgiven : GivenId host mode options ref.id (s.resolver.assistantOccurrences ref.id +
      (((toolCallIds m).take ref.index).count ref.id + 1)) next) :
    FineId mode options kept messages ref next := by
  have hturn := turn_of_mem_callRefs href
  have hseed : callSeed kept messages ref = occurrenceSeed ref.id
      (s.resolver.assistantOccurrences ref.id +
        (((toolCallIds m).take ref.index).count ref.id + 1)) := by
    unfold callSeed
    rw [hturn, h.split, take_left, getElem?_append_right (le_refl _), Nat.sub_self,
      getElem?_cons_zero, getD_some, count_append, h.occurrences, Nat.add_assoc]
  rcases hgiven with htried | ⟨hoption, hnative, rfl⟩
  · right
    rw [hseed]
    exact ⟨length_le_of_triedId htried, valid_of_triedId htried⟩
  · exact Or.inl ⟨rfl, Or.inr ⟨hoption, hnative⟩⟩

/-- A turn whose calls get ids. -/
theorem Sanitized.push_resolved
    (hassistant : isAssistant m = true) (hkept : processed.length ∉ kept)
    (hclock : (resolveIds host mode options s.resolver (toolCallIds m)).2.clockReads = 0) :
    Sanitized mode options kept messages (processed ++ [m]) rest
      (sanitizeMessage host mode options kept s m) (attributeMessage earliestCall a m) := by
  have hstep : sanitizeMessage host mode options kept s m =
      ⟨(rewriteAssistantToolCallIds host mode options s.resolver m).2,
        s.out ++ [(rewriteAssistantToolCallIds host mode options s.resolver m).1.getD m],
        s.changed || (rewriteAssistantToolCallIds host mode options s.resolver m).1.isSome⟩ := by
    unfold sanitizeMessage
    rw [if_pos hassistant, h.out_length, if_neg hkept]
  obtain ⟨hafter, hids, hsame⟩ := rewriteAssistantToolCallIds_spec hassistant hclock
  have hresolved := resolveIds_spec hclock
  have hcallIds := assistantCallIds_of_isAssistant (hsame.isAssistant_eq.trans hassistant)
  have hkeptFrom : keptFrom kept processed.length (m :: rest) =
      keptFrom kept (processed.length + 1) rest := by
    rw [keptFrom, if_neg hkept]
    rfl
  have hresolver : (sanitizeMessage host mode options kept s m).resolver =
      (resolveIds host mode options s.resolver (toolCallIds m)).2 := by
    rw [hstep, hafter]
  refine h.push _ none (by rw [hstep])
    (congrArg Attribution.owners (attributeMessage_assistant _ hassistant)) hsame ?_ ?_ ?_ ?_ ?_ ?_
    ?_ ?_ (fun _ hsome => by cases hsome) ?_
  · intro hchanged
    rw [hstep] at hchanged
    obtain ⟨hbefore, hnone⟩ := Bool.or_eq_false_iff.mp hchanged
    rw [isSome_eq_false_iff, isNone_iff_eq_none] at hnone
    rw [hnone]
    exact ⟨hbefore, rfl⟩
  · -- the new ids are not in use, and everything else is
    have hold := h.nodup
    rw [hkeptFrom] at hold
    have hin := h.used
    rw [hkeptFrom] at hin
    obtain ⟨hout, hkeep, hdisjoint⟩ := nodup_append.mp hold
    rw [hcallIds, hids, nodup_append, nodup_append]
    refine ⟨hout, ⟨hresolved.nodup, hkeep, ?_⟩, ?_⟩
    · rintro id hid _ hmem rfl
      exact hresolved.not_used id hid (hin id (mem_append_right _ hmem))
    · rintro id hid other hmem rfl
      rcases mem_append.mp hmem with hmem | hmem
      · exact hresolved.not_used id hmem (hin id (mem_append_left _ hid))
      · exact hdisjoint id hid id hmem rfl
  · intro id hid
    rw [hresolver, hresolved.used]
    rw [hcallIds, hids] at hid
    rcases mem_append.mp hid with hid | hid
    · exact Or.inl hid
    · exact Or.inr (h.used_rest id hid)
  · intro id hid
    rw [hresolver, hresolved.used]
    exact Or.inr hid
  · intro id hin hnot hmem
    rw [hcallIds, hids] at hmem
    rcases mem_append.mp hmem with hmem | hmem
    · exact hresolved.not_used id hmem hin
    · exact not_mem_rest hnot hmem
  · intro id
    rw [hresolver, attributeMessage_assistant _ hassistant, h.owners_length]
    dsimp only
    rw [h.pending_append (by rw [hids, hresolved.length_eq]) id, hids]
    exact congrArg (List.map some) (hresolved.pending id)
  · intro id
    have hall : resolvedFrom kept processed.length [m] = toolCallIds m := by
      rw [resolvedFrom, if_pos ⟨hassistant, hkept⟩]
      exact append_nil _
    rw [hresolver, hresolved.occurrences, hall]
  · intro _ ref href
    obtain ⟨hturn, hid⟩ := mem_callRefs.mp href
    have hlt : ref.index < (toolCallIds m).length := (List.getElem?_eq_some_iff.mp hid).1
    have hlt' : ref.index < (resolveIds host mode options s.resolver (toolCallIds m)).1.length := by
      rw [hresolved.length_eq]
      exact hlt
    have hnext := getElem?_eq_getElem hlt'
    refine ⟨_, ?_, fineId_of_givenId h href (hresolved.given _ _ _ hid hnext)⟩
    rw [callIdAt_last (hturn.trans h.out_length.symm), hids]
    exact hnext
  · intro hresult
    rw [not_isToolResult_of_isAssistant (hsame.isAssistant_eq.trans hassistant)] at hresult
    cases hresult

end

end

end OpenClaw
