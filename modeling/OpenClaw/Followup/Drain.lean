import OpenClaw.Followup.Queue

/-!
# What a drain does between two waits

The cases of each part of `scheduleFollowupDrain`, what it leaves as it was, and the queue
that is in the map when the drain has come to its next wait.
-/

namespace OpenClaw

open List Option

/-! ## The split by authorization -/

variable (items : List QueuedRun)

theorem flatten_splitLoop (groups : List (List QueuedRun))
    (currentGroup : List QueuedRun) (currentKey : Option Str) :
    (splitLoop groups currentGroup currentKey items).flatten =
      groups.flatten ++ currentGroup ++ items := by
  induction items generalizing groups currentGroup currentKey with
  | nil =>
    rw [splitLoop]
    split
    · next hempty => simp [hempty]
    · simp
  | cons item rest ih =>
    simp only [splitLoop]
    split
    · rw [ih]
      simp
    · rw [ih]
      simp

theorem flatten_splitCollectItemsByAuthorization :
    (splitCollectItemsByAuthorization items).flatten = items := by
  unfold splitCollectItemsByAuthorization
  split
  · split
    · next hempty => rw [length_eq_zero_iff.mp hempty, flatten_nil]
    · simp
  · simpa using flatten_splitLoop items [] [] none

theorem nil_notMem_splitLoop {groups : List (List QueuedRun)}
    (currentGroup : List QueuedRun) (currentKey : Option Str) (h : [] ∉ groups) :
    [] ∉ splitLoop groups currentGroup currentKey items := by
  induction items generalizing groups currentGroup currentKey with
  | nil =>
    rw [splitLoop]
    split
    · exact h
    · next hne => simpa [h] using Ne.symm hne
  | cons item rest ih =>
    simp only [splitLoop]
    split
    · exact ih _ _ h
    · next hboth =>
      refine ih _ _ ?_
      rw [not_or] at hboth
      simpa [h] using Ne.symm hboth.1

/-- A group has a message. -/
theorem ne_nil_of_mem_split {items group : List QueuedRun}
    (h : group ∈ splitCollectItemsByAuthorization items) : group ≠ [] := by
  rintro rfl
  unfold splitCollectItemsByAuthorization at h
  split at h
  · split at h
    · simp at h
    · next hne =>
      rw [mem_singleton] at h
      exact hne (h ▸ rfl)
  · exact nil_notMem_splitLoop items [] none (by simp) h

theorem split_eq_nil_iff {items : List QueuedRun} :
    splitCollectItemsByAuthorization items = [] ↔ items = [] := by
  constructor
  · intro h
    rw [← flatten_splitCollectItemsByAuthorization items, h, flatten_nil]
  · rintro rfl
    rfl

/-- There are no more groups than messages. -/
theorem length_le_length_flatten {groups : List (List QueuedRun)} (h : [] ∉ groups) :
    groups.length ≤ groups.flatten.length := by
  induction groups with
  | nil => simp
  | cons group rest ih =>
    simp only [mem_cons, not_or] at h
    have hpos : 0 < group.length := length_pos_iff.mpr (Ne.symm h.1)
    have hrest := ih h.2
    simp only [length_cons, flatten_cons, length_append]
    omega

namespace FollowupQueueState

variable {q : FollowupQueueState} {d : FollowupDrain} {force : Bool}

/-! ## Fields -/

variable (phase : DrainPhase)

@[simp] theorem waitIn_items : (q.waitIn phase force).items = q.items := rfl
@[simp] theorem waitIn_drain : (q.waitIn phase force).drain = some ⟨phase, force⟩ := rfl
@[simp] theorem waitIn_dropped : (q.waitIn phase force).dropped = q.dropped := rfl
@[simp] theorem leaveLoop_items : q.leaveLoop.items = q.items := rfl
@[simp] theorem leaveLoop_drain : q.leaveLoop.drain = none := rfl
@[simp] theorem leaveLoop_dropped : q.leaveLoop.dropped = q.dropped := rfl
@[simp] theorem clearQueueSummaryState_items : q.clearQueueSummaryState.items = q.items := rfl
@[simp] theorem clearQueueSummaryState_dropped : q.clearQueueSummaryState.dropped = [] := rfl
theorem hasWork_iff : q.hasWork = true ↔ q.items ≠ [] ∨ q.dropped ≠ [] := by
  simp [hasWork]

theorem hasWork_eq_false_iff : q.hasWork = false ↔ q.items = [] ∧ q.dropped = [] := by
  simp [hasWork]

theorem preview_eq_none_iff :
    previewQueueSummaryPrompt q = none ↔ q.dropPolicy ≠ .summarize ∨ q.dropped = [] := by
  unfold previewQueueSummaryPrompt
  split
  · next h => simpa [length_eq_zero_iff] using h
  · next h => simpa [length_eq_zero_iff] using h

theorem preview_isSome_iff :
    (previewQueueSummaryPrompt q).isSome = true ↔ q.dropPolicy = .summarize ∧ q.dropped ≠ [] := by
  rw [← not_iff_not, Bool.not_eq_true, isSome_eq_false_iff, isNone_iff_eq_none, preview_eq_none_iff]
  tauto

theorem preview_eq_some {prompt : Str} (h : previewQueueSummaryPrompt q = some prompt) :
    q.dropPolicy = .summarize ∧ q.dropped ≠ [] :=
  preview_isSome_iff.mp (by rw [h]; rfl)

/-! ## The cases -/

theorem loopHead_cases (q : FollowupQueueState) (force : Bool) :
    (q.hasWork = true ∧ q.loopHead force = q.waitIn .debouncing force) ∨
      (q.items = [] ∧ q.dropped = [] ∧ q.loopHead force = q.leaveLoop) := by
  unfold loopHead
  split
  · next h => exact .inl ⟨h, rfl⟩
  · next h =>
    have hidle := hasWork_eq_false_iff.mp (by simpa using h)
    exact .inr ⟨hidle.1, hidle.2, rfl⟩

/-- What follows on the debounce: the collect mode copies the items next or takes one of
them, the other modes take one of them with or without the summary. -/
inductive AfterDebounce (host : RouteHost) (q : FollowupQueueState) :
    FollowupQueueState × List FollowupCall → Prop
  | skipped (hmode : q.mode = .collect) (hone : hasCrossChannelItems host q.items = false) :
      AfterDebounce host q (q.waitIn .skipped false, [])
  | collectNone (hmode : q.mode = .collect) (hitems : q.items = []) (force : Bool) :
      AfterDebounce host q (q.waitIn (.noItem .collect) force, [])
  | collectNext (hmode : q.mode = .collect) (item : QueuedRun) (rest : List QueuedRun)
      (hitems : q.items = item :: rest) (force : Bool) :
      AfterDebounce host q (q.waitIn (.runningNext .collect) force, [.single item])
  | summaryNone (hmode : q.mode ≠ .collect) (prompt : Str)
      (hprompt : previewQueueSummaryPrompt q = some prompt) (hitems : q.items = [])
      (force : Bool) : AfterDebounce host q (q.waitIn (.noItem .summary) force, [])
  | summaryNext (hmode : q.mode ≠ .collect) (prompt : Str) (run : FollowupContext)
      (hprompt : previewQueueSummaryPrompt q = some prompt) (item : QueuedRun)
      (rest : List QueuedRun) (hitems : q.items = item :: rest) (force : Bool) :
      AfterDebounce host q
        (q.waitIn (.runningNext .summary) force, [.summaryAlong q prompt run item])
  | noRun (prompt : Str) (hprompt : previewQueueSummaryPrompt q = some prompt)
      (hrun : q.lastRun = none) : AfterDebounce host q (q.leaveLoop, [])
  | plainNone (hmode : q.mode ≠ .collect) (hprompt : previewQueueSummaryPrompt q = none)
      (hitems : q.items = []) (force : Bool) :
      AfterDebounce host q (q.waitIn (.noItem .plain) force, [])
  | plainNext (hmode : q.mode ≠ .collect) (hprompt : previewQueueSummaryPrompt q = none)
      (item : QueuedRun) (rest : List QueuedRun) (hitems : q.items = item :: rest)
      (force : Bool) : AfterDebounce host q (q.waitIn (.runningNext .plain) force, [.single item])

theorem afterDebounce_cases (host : RouteHost) (q : FollowupQueueState) (force : Bool) :
    AfterDebounce host q (q.afterDebounce host force) := by
  unfold afterDebounce drainNextQueueItem
  split
  · next hmode =>
    dsimp only
    split
    · next hskip =>
      rw [Bool.and_eq_true, Bool.not_eq_true', Bool.not_eq_true'] at hskip
      rw [hskip.1]
      exact .skipped hmode hskip.2
    · split
      · next hitems => exact .collectNone hmode hitems _
      · next item rest hitems => exact .collectNext hmode item rest hitems _
  · next hmode =>
    split
    · next prompt hprompt =>
      split
      · next run _ =>
        split
        · next hitems => exact .summaryNone hmode prompt hprompt hitems _
        · next item rest hitems => exact .summaryNext hmode prompt run hprompt item rest hitems _
      · next hrun => exact .noRun prompt hprompt hrun
    · next hprompt =>
      split
      · next hitems => exact .plainNone hmode hprompt hitems _
      · next item rest hitems => exact .plainNext hmode hprompt item rest hitems _

theorem runSummary_cases (q : FollowupQueueState) (force : Bool) (items : List QueuedRun) :
    (∃ prompt run, previewQueueSummaryPrompt q = some prompt ∧ q.runSummary force items =
          (q.waitIn .runningSummary force, [.summaryOnly q prompt run items])) ∨
      ((previewQueueSummaryPrompt q = none ∨ q.lastRun = none) ∧
        q.runSummary force items = (q.leaveLoop, [])) := by
  unfold runSummary
  split
  · next prompt run hprompt hrun => exact .inl ⟨prompt, run, hprompt, rfl⟩
  · next hnone =>
    refine .inr ⟨?_, rfl⟩
    cases hprompt : previewQueueSummaryPrompt q with
    | none => exact .inl rfl
    | some prompt =>
      cases hrun : q.lastRun with
      | none => exact .inr rfl
      | some run => exact absurd hrun (hnone prompt run hprompt)

/-- A group that has a message is started with the run of its last one. -/
theorem startGroup_of_ne_nil (force : Bool) {group : List QueuedRun} (rest : List (List QueuedRun))
    (pendingSummary : Option Str) (h : group ≠ []) : q.startGroup force group rest pendingSummary =
      (q.waitIn (.runningGroup group.length rest pendingSummary.isSome) force,
        [.collected q group (group.getLast h).followup.run pendingSummary]) := by
  unfold startGroup
  rw [getLast?_eq_some_getLast h]
  rfl

theorem afterSkipped_cases (q : FollowupQueueState) (force : Bool) :
    (q.items = [] ∧ q.afterSkipped force = q.runSummary force []) ∨
      ∃ group rest, splitCollectItemsByAuthorization q.items = group :: rest ∧ ∃ hne : group ≠ [],
        q.afterSkipped force =
          (q.waitIn (.runningGroup group.length rest (previewQueueSummaryPrompt q).isSome) force,
            [.collected q group (group.getLast hne).followup.run (previewQueueSummaryPrompt q)]) := by
  unfold afterSkipped
  split
  · next hsplit => exact .inl ⟨split_eq_nil_iff.mp hsplit, rfl⟩
  · next group rest hsplit =>
    have hne : group ≠ [] := ne_nil_of_mem_split (hsplit ▸ mem_cons_self)
    exact .inr ⟨group, rest, hsplit, hne, startGroup_of_ne_nil force rest _ hne⟩

variable (size : ℕ) (pendingSummary : Bool)

/-- The queue behind the call of a group. -/
def spliced (q : FollowupQueueState) (size : ℕ) (pendingSummary : Bool) : FollowupQueueState :=
  if pendingSummary then { q with items := q.items.drop size }.clearQueueSummaryState
  else { q with items := q.items.drop size }

@[simp] theorem spliced_items : (q.spliced size pendingSummary).items = q.items.drop size := by
  unfold spliced
  split <;> rfl

@[simp] theorem spliced_dropped :
    (q.spliced size pendingSummary).dropped = if pendingSummary then [] else q.dropped := by
  unfold spliced
  split <;> rfl

@[simp] theorem spliced_mode : (q.spliced size pendingSummary).mode = q.mode := by
  unfold spliced
  split <;> rfl

@[simp] theorem spliced_dropPolicy : (q.spliced size pendingSummary).dropPolicy = q.dropPolicy := by
  unfold spliced
  split <;> rfl

@[simp] theorem spliced_lastRun : (q.spliced size pendingSummary).lastRun = q.lastRun := by
  unfold spliced
  split <;> rfl

theorem afterGroup_nil : q.afterGroup force size [] pendingSummary =
      ((q.spliced size pendingSummary).loopHead force, []) := rfl

theorem afterGroup_cons (group : List QueuedRun) (rest : List (List QueuedRun))
    (pendingSummary : Bool) : q.afterGroup force size (group :: rest) pendingSummary =
      (q.spliced size pendingSummary).startGroup force group rest none := rfl

/-! ## The queue in the map -/

/-- What is in the map when the drain of this queue has come to its next wait, or has left
the loop and run its `finally`. -/
def rearm (q : FollowupQueueState) : Option FollowupQueueState :=
  if q.drain.isSome then some q
  else if q.hasWork then some (q.loopHead false)
  else none

theorem rearm_waitIn : (q.waitIn phase force).rearm = some (q.waitIn phase force) := rfl

theorem rearm_leaveLoop : q.leaveLoop.rearm =
    if q.hasWork then some (q.waitIn .debouncing false) else none := by
  unfold rearm
  rw [leaveLoop_drain, if_neg (by simp)]
  change (if q.hasWork then some (q.leaveLoop.loopHead false) else none) = _
  split
  · next hwork =>
    have hhead : q.leaveLoop.loopHead false = q.leaveLoop.waitIn .debouncing false := if_pos hwork
    rw [hhead]
    rfl
  · rfl

theorem rearm_loopHead (force : Bool) : (q.loopHead force).rearm =
    if q.hasWork then some (q.waitIn .debouncing force) else none := by
  unfold loopHead
  split
  · next hwork => rw [rearm_waitIn]
  · next hwork => rw [rearm_leaveLoop, if_neg hwork]

end FollowupQueueState

namespace FollowupQueues

open FollowupQueueState

variable {host : RouteHost} {w w' : FollowupQueues} {q : FollowupQueueState}

variable (w q)

@[simp] theorem settle_queue : (w.settle q).queue = q.rearm := by
  unfold settle rearm
  split
  · rfl
  · split <;> rfl

@[simp] theorem settle_removed : (w.settle q).removed = w.removed := by
  unfold settle
  split
  · rfl
  · split <;> rfl

@[simp] theorem settle_nextId : (w.settle q).nextId = w.nextId := by
  unfold settle
  split
  · rfl
  · split <;> rfl

variable {w q}

variable {events : List FollowupEvent} {outcome : AwaitOutcome}

/-- A step does what `perform` says. -/
theorem step_unique {action : FollowupAction}
    {next : FollowupQueues × List FollowupEvent} (hperform : w.perform host action = some next)
    (h : w.Step host (action, events) w') : w' = next.1 ∧ events = next.2 := by
  have heq := some.inj (hperform.symm.trans h)
  exact ⟨(congrArg Prod.fst heq).symm, (congrArg Prod.snd heq).symm⟩

/-- A step of the drain of the queue in the map. -/
theorem step_drain_iff : w.Step host (.drain outcome, events) w' ↔
      ∃ q next, w.queue = some q ∧ q.resume host outcome = some next ∧
        w' = w.settle next.1 ∧ events = next.2.map (.called true) := by
  unfold Step perform
  rw [map_eq_some_iff]
  simp only [bind_eq_some_iff, Prod.mk.injEq]
  constructor
  · rintro ⟨next, ⟨q, hq, hnext⟩, rfl, rfl⟩
    exact ⟨q, next, hq, hnext, rfl, rfl⟩
  · rintro ⟨q, next, hq, hnext, rfl, rfl⟩
    exact ⟨next, ⟨q, hq, hnext⟩, rfl, rfl⟩

/-- A step of the drain of a removed queue. -/
theorem step_drainRemoved_iff {index : ℕ} : w.Step host (.drainRemoved index outcome, events) w' ↔
      ∃ q next, w.removed[index]? = some q ∧ q.resume host outcome = some next ∧
        w' = w.settleRemoved index next.1 ∧ events = next.2.map (.called false) := by
  unfold Step perform
  rw [map_eq_some_iff]
  simp only [bind_eq_some_iff, Prod.mk.injEq]
  constructor
  · rintro ⟨next, ⟨q, hq, hnext⟩, rfl, rfl⟩
    exact ⟨q, next, hq, hnext, rfl, rfl⟩
  · rintro ⟨q, next, hq, hnext, rfl, rfl⟩
    exact ⟨next, ⟨q, hq, hnext⟩, rfl, rfl⟩

/-! ## Runs of given actions -/

/-- The run of these actions, where each of them is possible. -/
def replay (host : RouteHost) (w : FollowupQueues) :
    List FollowupAction → Option (FollowupQueues × List (FollowupAction × List FollowupEvent))
  | [] => some (w, [])
  | action :: rest =>
    (w.perform host action).bind fun next =>
      (replay host next.1 rest).map fun last => (last.1, (action, next.2) :: last.2)

theorem run_of_replay (host : RouteHost) (w : FollowupQueues) (actions : List FollowupAction)
    (last : FollowupQueues × List (FollowupAction × List FollowupEvent))
    (h : replay host w actions = some last) : Lts.Run (Step host) w last.2 last.1 := by
  induction actions generalizing w last with
  | nil =>
    rw [replay, some.injEq] at h
    exact h ▸ .nil w
  | cons action rest ih =>
    rw [replay, bind_eq_some_iff] at h
    obtain ⟨next, hnext, hlast⟩ := h
    obtain ⟨last', hrest, rfl⟩ := Option.map_eq_some_iff.mp hlast
    exact .cons hnext (ih _ _ hrest)

end FollowupQueues

theorem FollowupQueueState.resume_resolved {host : RouteHost} {q : FollowupQueueState}
    {d : FollowupDrain} (hdrain : q.drain = some d) :
    q.resume host .resolved = some (q.proceed host d) := by
  rw [resume, hdrain]
  rfl

theorem FollowupQueueState.resume_rejected {host : RouteHost} {q : FollowupQueueState}
    {d : FollowupDrain} (hdrain : q.drain = some d) :
    q.resume host .rejected = if d.phase.isRunning then some (q.leaveLoop, []) else none := by
  rw [resume, hdrain]
  rfl

theorem FollowupQueueState.drain_of_resume {host : RouteHost} {q : FollowupQueueState}
    {next : FollowupQueueState × List FollowupCall}
    (h : q.resume host outcome = some next) : ∃ d, q.drain = some d := by
  unfold resume at h
  obtain ⟨d, hd, _⟩ := Option.bind_eq_some_iff.mp h
  exact ⟨d, hd⟩

end OpenClaw
