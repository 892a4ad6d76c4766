import OpenClaw.ToolCallIds.Resolver

/-!
# What the resolver gives

One call of a closure gives an id that is not in use, unless it is one that waits for its result.
The clock is left aside: where it is read, all tries were in use.
-/

namespace OpenClaw

open Json List Function

section

variable {host : ToolIdHost} {mode : ToolCallIdMode} {options : ToolIdSanitizeOptions}
  {r : ToolIdResolver}

/-! ## One id -/

variable (id : Str)

variable (host mode options)

/-- The ids that a call can be given. -/
def GivenId (id : Str) (occurrence : ℕ) (next : Str) : Prop :=
  TriedId host (occurrenceSeed id occurrence) mode next ∨
    options.preserveNativeAnthropicToolUseIds = true ∧ isNativeAnthropicToolUseId id = true ∧
      next = id

variable {host mode options}

theorem allocate_spec {seed : Str} (hclock : (r.allocate host mode seed).2.clockReads = 0) :
    ∃ next, r.allocate host mode seed = (next, { r with used := next :: r.used }) ∧
      TriedId host seed mode next ∧ next ∉ r.used := by
  cases hfree : firstFreeToolId host mode seed r.used with
  | some next =>
    have htried := triedId_of_firstFreeToolId hfree
    refine ⟨next, ?_, htried⟩
    unfold ToolIdResolver.allocate
    rw [hfree]
  | none =>
    unfold ToolIdResolver.allocate at hclock
    rw [hfree] at hclock
    cases hclock

theorem allocatePreserving_spec {id : Str} {occurrence : ℕ}
    (hclock : (r.allocatePreservingNativeAnthropicId host mode options id occurrence).2.clockReads
      = 0) :
    ∃ next, r.allocatePreservingNativeAnthropicId host mode options id occurrence =
        (next, { r with used := next :: r.used }) ∧
      GivenId host mode options id occurrence next ∧ next ∉ r.used := by
  cases hkeep : keepsNativeAnthropicId options r id occurrence with
  | true =>
    have heq : r.allocatePreservingNativeAnthropicId host mode options id occurrence =
        (id, { r with used := id :: r.used }) := if_pos hkeep
    have hparts := hkeep
    unfold keepsNativeAnthropicId at hparts
    simp only [Bool.and_eq_true, decide_eq_true_eq] at hparts
    exact ⟨id, heq, Or.inr ⟨hparts.1.1.1, hparts.1.1.2, rfl⟩, hparts.2⟩
  | false =>
    have heq : r.allocatePreservingNativeAnthropicId host mode options id occurrence =
        r.allocate host mode (occurrenceSeed id occurrence) :=
      if_neg (by rw [hkeep]; exact Bool.false_ne_true)
    rw [heq] at hclock ⊢
    obtain ⟨next, hnext, htried, hunused⟩ := allocate_spec hclock
    exact ⟨next, hnext, Or.inl htried, hunused⟩

/-- A call of an assistant. -/
theorem resolveAssistantId_spec {id : Str}
    (hclock : (r.resolveAssistantId host mode options id).2.clockReads = 0) :
    ∃ next, r.resolveAssistantId host mode options id = (next, ⟨next :: r.used,
          Function.update r.assistantOccurrences id (r.assistantOccurrences id + 1),
          r.orphanToolResultOccurrences,
          Function.update r.pendingByRawId id (r.pendingByRawId id ++ [next]), r.clockReads⟩) ∧
      GivenId host mode options id (r.assistantOccurrences id + 1) next ∧ next ∉ r.used := by
  have hspec := @allocatePreserving_spec host mode options
    { r with
      assistantOccurrences :=
        Function.update r.assistantOccurrences id (r.assistantOccurrences id + 1) }
    id (r.assistantOccurrences id + 1) hclock
  obtain ⟨next, heq, hgiven, hunused⟩ := hspec
  refine ⟨next, ?_, hgiven, hunused⟩
  unfold ToolIdResolver.resolveAssistantId
  dsimp only
  rw [heq]
  rfl

/-- A result whose call waits for it. -/
theorem resolveToolResultId_of_pending {id next : Str} {pending : List Str}
    (h : r.pendingByRawId id = next :: pending) : r.resolveToolResultId host mode options id =
      (next, { r with pendingByRawId := Function.update r.pendingByRawId id pending }) := by
  unfold ToolIdResolver.resolveToolResultId
  rw [h]

theorem ne_nil_of_isNativeAnthropic {id : Str} (h : isNativeAnthropicToolUseId id = true) :
    id ≠ [] := by
  rintro rfl
  cases h

theorem ne_nil_of_givenId {id next : Str} {occurrence : ℕ}
    (h : GivenId host mode options id occurrence next) : next ≠ [] := by
  rcases h with htried | ⟨_, hnative, rfl⟩
  · exact ne_nil_of_triedId htried
  · exact ne_nil_of_isNativeAnthropic hnative

/-- A result without a call. -/
theorem resolveToolResultId_of_orphan {id : Str} (h : r.pendingByRawId id = [])
    (hclock : (r.resolveToolResultId host mode options id).2.clockReads = 0) :
    ∃ next orphans, r.resolveToolResultId host mode options id =
        (next, { r with
          used := next :: r.used
          orphanToolResultOccurrences := orphans }) ∧ next ∉ r.used ∧ next ≠ [] := by
  let counted : ToolIdResolver :=
    { r with
      orphanToolResultOccurrences := Function.update r.orphanToolResultOccurrences id
        (r.orphanToolResultOccurrences id + 1) }
  have horphan : r.resolveToolResultId host mode options id =
      if keepsNativeAnthropicId options counted id (r.orphanToolResultOccurrences id + 1) then
        (id, { counted with used := id :: counted.used })
      else counted.allocate host mode (orphanSeed id (r.orphanToolResultOccurrences id + 1)) := by
    unfold ToolIdResolver.resolveToolResultId
    rw [h]
  rw [horphan] at hclock ⊢
  cases hkeep : keepsNativeAnthropicId options counted id
      (r.orphanToolResultOccurrences id + 1) with
  | true =>
    have hparts := hkeep
    unfold keepsNativeAnthropicId at hparts
    simp only [Bool.and_eq_true, decide_eq_true_eq] at hparts
    exact ⟨id, counted.orphanToolResultOccurrences, rfl, hparts.2,
      ne_nil_of_isNativeAnthropic hparts.1.1.2⟩
  | false =>
    rw [hkeep] at hclock
    obtain ⟨next, heq, htried, hunused⟩ := allocate_spec hclock
    exact ⟨next, counted.orphanToolResultOccurrences, heq, hunused, ne_nil_of_triedId htried⟩

/-! ## The calls of a message -/

/-- The closure on one id after the other. -/
def resolveIds (host : ToolIdHost) (mode : ToolCallIdMode) (options : ToolIdSanitizeOptions)
    (r : ToolIdResolver) : List Str → List Str × ToolIdResolver
  | [] => ([], r)
  | id :: ids =>
    let (next, resolved) := r.resolveAssistantId host mode options id
    let (nexts, after) := resolveIds host mode options resolved ids
    (next :: nexts, after)

/-- The clock is not set back. -/
theorem clockReads_allocate_le (seed : Str) :
    r.clockReads ≤ (r.allocate host mode seed).2.clockReads := by
  unfold ToolIdResolver.allocate
  split
  · exact le_refl _
  · exact Nat.le_succ _

theorem clockReads_resolveAssistantId_le :
    r.clockReads ≤ (r.resolveAssistantId host mode options id).2.clockReads := by
  unfold ToolIdResolver.resolveAssistantId ToolIdResolver.allocatePreservingNativeAnthropicId
  dsimp only
  split
  · exact le_refl _
  · exact clockReads_allocate_le (r :=
      { r with
        assistantOccurrences :=
          Function.update r.assistantOccurrences id (r.assistantOccurrences id + 1) }) _

theorem clockReads_resolveToolResultId_le :
    r.clockReads ≤ (r.resolveToolResultId host mode options id).2.clockReads := by
  unfold ToolIdResolver.resolveToolResultId
  split
  · exact le_refl _
  · dsimp only
    split
    · exact le_refl _
    · exact clockReads_allocate_le (r :=
        { r with
          orphanToolResultOccurrences := Function.update r.orphanToolResultOccurrences id
            (r.orphanToolResultOccurrences id + 1) }) _

theorem clockReads_resolveIds_le (ids : List Str) :
    r.clockReads ≤ (resolveIds host mode options r ids).2.clockReads := by
  induction ids generalizing r with
  | nil => exact le_refl _
  | cons id ids ih =>
    exact le_trans (clockReads_resolveAssistantId_le id) ih

theorem resolveIds_cons (ids : List Str) : resolveIds host mode options r (id :: ids) =
      ((r.resolveAssistantId host mode options id).1 ::
        (resolveIds host mode options (r.resolveAssistantId host mode options id).2 ids).1,
      (resolveIds host mode options (r.resolveAssistantId host mode options id).2 ids).2) := rfl

/-- The ids given to the calls of a message: they are new, each is one its call can be given, and
each waits in the queue of its raw id. -/
structure ResolvedIds (host : ToolIdHost) (mode : ToolCallIdMode) (options : ToolIdSanitizeOptions)
    (r : ToolIdResolver) (ids nexts : List Str) (after : ToolIdResolver) : Prop where
  length_eq : nexts.length = ids.length
  nodup : nexts.Nodup
  not_used : ∀ next ∈ nexts, next ∉ r.used
  used : ∀ id, id ∈ after.used ↔ id ∈ nexts ∨ id ∈ r.used
  pending : ∀ id, after.pendingByRawId id =
    r.pendingByRawId id ++ ((ids.zip nexts).filter (·.1 = id)).map (·.2)
  occurrences : ∀ id, after.assistantOccurrences id = r.assistantOccurrences id + ids.count id
  given : ∀ (index : ℕ) (id next : Str), ids[index]? = some id → nexts[index]? = some next →
    GivenId host mode options id (r.assistantOccurrences id + ((ids.take index).count id + 1)) next

theorem resolvedIds_nil : ResolvedIds host mode options r [] [] r where
  length_eq := rfl
  nodup := nodup_nil
  not_used := fun _ h => nomatch h
  used := fun _ => ⟨Or.inr, fun h => h.resolve_left not_mem_nil⟩
  pending := fun _ => (append_nil _).symm
  occurrences := fun _ => rfl
  given := fun _ _ _ h => nomatch h

theorem ResolvedIds.cons {id next : Str} {ids nexts : List Str} {after : ToolIdResolver}
    (hgiven : GivenId host mode options id (r.assistantOccurrences id + 1) next)
    (hunused : next ∉ r.used) (h : ResolvedIds host mode options
      ⟨next :: r.used, Function.update r.assistantOccurrences id (r.assistantOccurrences id + 1),
        r.orphanToolResultOccurrences,
        Function.update r.pendingByRawId id (r.pendingByRawId id ++ [next]), r.clockReads⟩
      ids nexts after) :
    ResolvedIds host mode options r (id :: ids) (next :: nexts) after where
  length_eq := congrArg (· + 1) h.length_eq
  nodup := nodup_cons.mpr ⟨fun hmem => h.not_used next hmem mem_cons_self, h.nodup⟩
  not_used := by
    intro other hother
    rcases mem_cons.mp hother with rfl | hother
    · exact hunused
    · exact fun hold => h.not_used other hother (mem_cons_of_mem _ hold)
  used := by
    intro other
    rw [h.used, mem_cons, mem_cons]
    tauto
  pending := by
    intro other
    rw [h.pending, zip_cons_cons, filter_cons]
    dsimp only
    by_cases hother : id = other
    · subst hother
      rw [update_self, decide_eq_true rfl, if_pos rfl, map_cons, append_assoc]
      rfl
    · rw [update_of_ne (Ne.symm hother),
        if_neg (by rw [decide_eq_false hother]; exact Bool.false_ne_true)]
  occurrences := by
    intro other
    rw [h.occurrences, count_cons]
    dsimp only
    by_cases hother : id = other
    · subst hother
      rw [update_self, if_pos (beq_self_eq_true _)]
      omega
    · rw [update_of_ne (Ne.symm hother), if_neg (by simpa using hother)]
      omega
  given := by
    intro index other given hid hgivenAt
    cases index with
    | zero =>
      rw [getElem?_cons_zero] at hid hgivenAt
      rw [← Option.some.inj hid, ← Option.some.inj hgivenAt]
      exact hgiven
    | succ index =>
      rw [getElem?_cons_succ] at hid hgivenAt
      have hat := h.given index other given hid hgivenAt
      dsimp only at hat
      rw [take_succ_cons, count_cons]
      by_cases hother : id = other
      · subst hother
        rw [update_self] at hat
        rw [if_pos (beq_self_eq_true _)]
        have hsum : r.assistantOccurrences id + (List.count id (ids.take index) + 1 + 1) =
            r.assistantOccurrences id + 1 + (List.count id (ids.take index) + 1) := by omega
        rw [hsum]
        exact hat
      · rw [update_of_ne (Ne.symm hother)] at hat
        rw [if_neg (by simpa using hother)]
        exact hat

theorem resolveIds_spec {ids : List Str}
    (hclock : (resolveIds host mode options r ids).2.clockReads = 0) :
    ResolvedIds host mode options r ids (resolveIds host mode options r ids).1
      (resolveIds host mode options r ids).2 := by
  induction ids generalizing r with
  | nil => exact resolvedIds_nil
  | cons id ids ih =>
    rw [resolveIds_cons] at hclock ⊢
    dsimp only at hclock ⊢
    have hfirst : (r.resolveAssistantId host mode options id).2.clockReads = 0 := by
      have hle := @clockReads_resolveIds_le host mode options
        (r.resolveAssistantId host mode options id).2 ids
      omega
    obtain ⟨next, heq, hgiven, hunused⟩ := resolveAssistantId_spec hfirst
    have hrest := ih hclock
    rw [heq] at hrest ⊢
    exact hrest.cons hgiven hunused

end

end OpenClaw
