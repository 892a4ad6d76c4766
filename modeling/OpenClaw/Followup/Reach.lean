import OpenClaw.Followup.Drain

/-!
# What drains leave as it is

A drain only takes messages off the front of its queue and clears its summary, so that the
settings are those of the last enqueue, a queue with work has a last run, and a queue that a
clear has emptied stays empty.
-/

namespace OpenClaw

open Lts List Option

namespace FollowupQueueState

variable {host : RouteHost} {q q' : FollowupQueueState} {d : FollowupDrain}

/-! ## What a drain leaves as it is -/

/-- The second queue is the first with messages taken off the front and its summary perhaps
cleared. -/
structure Consumes (q q' : FollowupQueueState) : Prop where
  mode : q'.mode = q.mode
  dropPolicy : q'.dropPolicy = q.dropPolicy
  lastRun : q'.lastRun = q.lastRun
  items : q'.items <:+ q.items
  dropped : q'.dropped = q.dropped ∨ q'.dropped = []

theorem Consumes.refl (q : FollowupQueueState) : Consumes q q :=
  ⟨rfl, rfl, rfl, suffix_rfl, .inl rfl⟩

section

variable (h : Consumes q q')
include h

theorem Consumes.waitIn (phase : DrainPhase) (force : Bool) :
    Consumes q (q'.waitIn phase force) := ⟨h.mode, h.dropPolicy, h.lastRun, h.items, h.dropped⟩

theorem Consumes.leaveLoop : Consumes q q'.leaveLoop :=
  ⟨h.mode, h.dropPolicy, h.lastRun, h.items, h.dropped⟩

theorem Consumes.loopHead (force : Bool) : Consumes q (q'.loopHead force) := by
  rcases loopHead_cases q' force with ⟨_, heq⟩ | ⟨_, _, heq⟩
  · exact heq ▸ h.waitIn _ _
  · exact heq ▸ h.leaveLoop

theorem Consumes.clearQueueSummaryState : Consumes q q'.clearQueueSummaryState :=
  ⟨h.mode, h.dropPolicy, h.lastRun, h.items, .inr rfl⟩

theorem Consumes.runSummary (force : Bool) (items : List QueuedRun) :
    Consumes q (q'.runSummary force items).1 := by
  rcases runSummary_cases q' force items with ⟨_, _, _, heq⟩ | ⟨_, heq⟩
  · exact heq ▸ h.waitIn _ _
  · exact heq ▸ h.leaveLoop

theorem Consumes.startGroup (force : Bool) (group : List QueuedRun)
    (rest : List (List QueuedRun)) (pendingSummary : Option Str) :
    Consumes q (q'.startGroup force group rest pendingSummary).1 := by
  unfold FollowupQueueState.startGroup
  split
  · exact h.waitIn _ _
  · exact h.loopHead _

end

theorem consumes_spliced (q : FollowupQueueState) (size : ℕ) (pendingSummary : Bool) :
    Consumes q (q.spliced size pendingSummary) := by
  refine ⟨spliced_mode _ _, spliced_dropPolicy _ _, spliced_lastRun _ _, ?_, ?_⟩
  · rw [spliced_items]
    exact drop_suffix _ _
  · rw [spliced_dropped]
    cases pendingSummary with
    | true => exact .inr rfl
    | false => exact .inl rfl

variable (host q d)

theorem consumes_proceed : Consumes q (q.proceed host d).1 := by
  have hrefl := Consumes.refl q
  obtain ⟨phase, force⟩ := d
  cases phase with
  | debouncing =>
    have hcases := afterDebounce_cases host q force
    change Consumes q (q.afterDebounce host force).1
    generalize q.afterDebounce host force = next at hcases ⊢
    cases hcases <;> first | exact hrefl.waitIn _ _ | exact hrefl.leaveLoop
  | skipped =>
    change Consumes q (q.afterSkipped force).1
    rcases afterSkipped_cases q force with ⟨_, heq⟩ | ⟨_, _, _, _, heq⟩
    · exact heq ▸ hrefl.runSummary _ _
    · exact heq ▸ hrefl.waitIn _ _
  | runningNext use =>
    exact ⟨rfl, rfl, rfl, tail_suffix _, .inl rfl⟩
  | shifted use =>
    cases use with
    | summary => exact hrefl.clearQueueSummaryState.loopHead _
    | collect => exact hrefl.loopHead _
    | plain => exact hrefl.loopHead _
  | noItem use =>
    cases use with
    | collect => exact hrefl.runSummary _ _
    | summary => exact hrefl.leaveLoop
    | plain => exact hrefl.leaveLoop
  | runningSummary => exact hrefl.clearQueueSummaryState.loopHead _
  | runningGroup size rest pendingSummary =>
    have hspliced := consumes_spliced q size pendingSummary
    cases rest with
    | nil => exact hspliced.loopHead _
    | cons group rest => exact hspliced.startGroup _ _ _ _

variable {host q d}

theorem consumes_resume {outcome : AwaitOutcome} {next : FollowupQueueState × List FollowupCall}
    (h : q.resume host outcome = some next) : Consumes q next.1 := by
  obtain ⟨d, hd⟩ := drain_of_resume h
  cases outcome with
  | resolved =>
    rw [resume_resolved hd, some.injEq] at h
    exact h ▸ consumes_proceed host q d
  | rejected =>
    rw [resume_rejected hd] at h
    split_ifs at h
    rw [some.injEq] at h
    exact h ▸ (Consumes.refl q).leaveLoop

theorem Consumes.rearm (h : Consumes q q') {q'' : FollowupQueueState}
    (hrearm : q'.rearm = some q'') : Consumes q q'' := by
  unfold FollowupQueueState.rearm at hrearm
  split at hrearm
  · rw [some.injEq] at hrearm
    exact hrearm ▸ h
  · split_ifs at hrearm
    rw [some.injEq] at hrearm
    exact hrearm ▸ h.loopHead false

theorem Consumes.hasWork (h : Consumes q q') (hwork : q.hasWork = false) : q'.hasWork = false := by
  rw [hasWork_eq_false_iff] at hwork ⊢
  have hitems := h.items
  rw [hwork.1, suffix_nil] at hitems
  refine ⟨hitems, ?_⟩
  rcases h.dropped with hsame | hnone
  · rw [hsame, hwork.2]
  · exact hnone

theorem rearm_drain (h : q.rearm = some q') : ∃ d, q'.drain = some d := by
  unfold rearm at h
  split at h
  · next hdrain =>
    rw [some.injEq] at h
    exact h ▸ Option.isSome_iff_exists.mp hdrain
  · split_ifs at h
    next hwork =>
    rw [some.injEq] at h
    rcases loopHead_cases q false with ⟨_, heq⟩ | ⟨hitems, hdropped, _⟩
    · exact ⟨_, by rw [← h, heq, waitIn_drain]⟩
    · rw [hasWork_iff] at hwork
      exact absurd hwork (by simp [hitems, hdropped])

/-! ## A queue without work -/

theorem loopHead_of_idle (h : q.hasWork = false) (force : Bool) : q.loopHead force = q.leaveLoop :=
  if_neg (by simp [h])

theorem runSummary_of_idle (h : q.hasWork = false) (force : Bool) (items : List QueuedRun) :
    q.runSummary force items = (q.leaveLoop, []) := by
  rcases runSummary_cases q force items with ⟨_, _, hprompt, _⟩ | ⟨_, heq⟩
  · exact absurd (hasWork_eq_false_iff.mp h).2 (preview_eq_some hprompt).2
  · exact heq

theorem afterSkipped_of_idle (h : q.hasWork = false) (force : Bool) :
    q.afterSkipped force = (q.leaveLoop, []) := by
  rcases afterSkipped_cases q force with ⟨_, heq⟩ | ⟨group, rest, hsplit, _, _⟩
  · rw [heq, runSummary_of_idle h]
  · rw [split_eq_nil_iff.mpr (hasWork_eq_false_iff.mp h).1] at hsplit
    exact nomatch hsplit

/-- Behind the debounce it makes no call. -/
theorem afterDebounce_of_idle (host : RouteHost) (h : q.hasWork = false) (force : Bool) :
    (q.afterDebounce host force).2 = [] ∧ ((q.afterDebounce host force).1 = q.leaveLoop ∨
        ∃ phase force', (phase = .skipped ∨ ∃ use, phase = .noItem use) ∧
          (q.afterDebounce host force).1 = q.waitIn phase force') := by
  have hitems := (hasWork_eq_false_iff.mp h).1
  have hcases := afterDebounce_cases host q force
  generalize q.afterDebounce host force = next at hcases ⊢
  cases hcases with
  | collectNext _ item rest hnext | summaryNext _ _ _ _ item rest hnext
  | plainNext _ _ item rest hnext =>
    rw [hitems] at hnext
    exact nomatch hnext
  | skipped => exact ⟨rfl, .inr ⟨_, _, .inl rfl, rfl⟩⟩
  | collectNone | summaryNone | plainNone => exact ⟨rfl, .inr ⟨_, _, .inr ⟨_, rfl⟩, rfl⟩⟩
  | noRun => exact ⟨rfl, .inl rfl⟩

/-! ## A queue that has work remembers a run -/

/-- The queue has a last run, unless it has no work and no drain. -/
def Grounded (q : FollowupQueueState) : Prop :=
  q.lastRun.isSome = true ∨ (q.hasWork = false ∧ q.drain = none)

theorem Grounded.isSome (h : Grounded q) (hdrain : q.drain = some d) : q.lastRun.isSome = true := by
  rcases h with hrun | ⟨_, hnone⟩
  · exact hrun
  · rw [hdrain] at hnone
    exact nomatch hnone

theorem Grounded.loopHead_rearm (h : Grounded q) (force : Bool)
    {q'' : FollowupQueueState} (hrearm : (q.loopHead force).rearm = some q'') : Grounded q'' := by
  rcases h with hrun | ⟨hwork, _⟩
  · have hconsumes := ((Consumes.refl q).loopHead force).rearm hrearm
    exact .inl (hconsumes.lastRun ▸ hrun)
  · rw [rearm_loopHead, if_neg (by simp [hwork])] at hrearm
    exact nomatch hrearm
end FollowupQueueState

namespace FollowupQueues

open FollowupQueueState

variable {host : RouteHost} {w w' : FollowupQueues} {q : FollowupQueueState}
  {label : FollowupAction × List FollowupEvent}
  {labels : List (FollowupAction × List FollowupEvent)}

/-- What holds of the queues at any time. -/
structure Sane (w : FollowupQueues) : Prop where
  grounded : ∀ q, w.queue = some q → Grounded q
  removed : ∀ q ∈ w.removed, q.hasWork = false

theorem sane_initial : Sane initial :=
  ⟨fun _ h => absurd h (by simp [initial]), fun _ h => absurd h (by simp [initial])⟩

theorem Sane.scheduleFollowupDrain (h : Sane w) : Sane w.scheduleFollowupDrain := by
  unfold FollowupQueues.scheduleFollowupDrain
  split
  · exact h
  · next q hq =>
    split
    · exact h
    · refine ⟨fun q' hq' => ?_, ?_⟩
      · rw [settle_queue] at hq'
        exact (h.grounded q hq).loopHead_rearm false hq'
      · rw [settle_removed]
        exact h.removed

theorem Sane.kickFollowupDrainIfIdle (h : Sane w) : Sane w.kickFollowupDrainIfIdle := by
  unfold FollowupQueues.kickFollowupDrainIfIdle
  split
  · exact h.scheduleFollowupDrain
  · exact h

theorem grounded_getFollowupQueue (h : Sane w) (settings : QueueSettings) :
    Grounded (w.getFollowupQueue settings) := by
  unfold getFollowupQueue
  cases hq : w.queue with
  | none => exact .inr ⟨rfl, rfl⟩
  | some q =>
    have hgrounded := h.grounded q hq
    exact hgrounded

theorem Sane.enqueueFollowupRun (h : Sane w) (host : RouteHost) (call : EnqueueCall) :
    Sane (w.enqueueFollowupRun host call).1 := by
  have hkept : ∀ (q : FollowupQueueState) (hasCallback : Bool) (nextId : ℕ), Grounded q →
      Sane { w with queue := some q, hasCallback := hasCallback, nextId := nextId } := by
    intro q hasCallback nextId hq
    exact ⟨fun q' hq' => some.inj hq' ▸ hq, h.removed⟩
  unfold FollowupQueues.enqueueFollowupRun
  dsimp only
  split
  · exact hkept _ _ _ (grounded_getFollowupQueue h _)
  · split
    · exact hkept _ _ _ (.inl rfl)
    · -- the queue that the message was pushed on has the message's run
      have hpushed : ∀ (queue : FollowupQueueState) (items : List QueuedRun),
          queue.lastRun.isSome = true →
          Grounded { queue.dropFront with items := items } := by
        intro queue items hrun
        left
        unfold dropFront
        dsimp only
        split <;> exact hrun
      have haccepted := fun queue items hrun => hkept _ (w.hasCallback || call.hasRunFollowup)
        (w.nextId + 1) (hpushed queue items hrun)
      split
      · exact (haccepted _ _ rfl).kickFollowupDrainIfIdle
      · exact haccepted _ _ rfl

theorem Sane.clearFollowupQueue (h : Sane w) : Sane w.clearFollowupQueue.1 := by
  unfold FollowupQueues.clearFollowupQueue
  split
  · exact h
  · next q hq =>
    refine ⟨fun q' hq' => absurd hq' (by simp), fun q' hq' => ?_⟩
    dsimp only at hq'
    split at hq'
    · rcases mem_append.mp hq' with hold | hnew
      · exact h.removed q' hold
      · rw [mem_singleton] at hnew
        exact hnew ▸ rfl
    · exact h.removed q' hq'

theorem settleRemoved_of_idle (w : FollowupQueues) (index : ℕ) (hwork : q.hasWork = false) :
    w.settleRemoved index q = if q.drain.isSome then { w with removed := w.removed.set index q }
      else { w with removed := w.removed.eraseIdx index } := by
  unfold settleRemoved
  rw [hwork]
  split <;> rfl

theorem Sane.step (h : Sane w) (hstep : w.Step host label w') : Sane w' := by
  obtain ⟨action, events⟩ := label
  cases action with
  | enqueue call =>
    obtain ⟨rfl, _⟩ := step_unique rfl hstep
    exact h.enqueueFollowupRun host call
  | schedule =>
    obtain ⟨rfl, _⟩ := step_unique rfl hstep
    exact h.scheduleFollowupDrain
  | clearQueue =>
    obtain ⟨rfl, _⟩ := step_unique rfl hstep
    exact h.clearFollowupQueue
  | clearSession =>
    obtain ⟨rfl, _⟩ := step_unique rfl hstep
    have hcleared := h.clearFollowupQueue
    exact ⟨hcleared.grounded, hcleared.removed⟩
  | drain outcome =>
    obtain ⟨q, next, hq, hnext, rfl, _⟩ := step_drain_iff.mp hstep
    obtain ⟨d, hd⟩ := drain_of_resume hnext
    refine ⟨fun q' hq' => ?_, ?_⟩
    · rw [settle_queue] at hq'
      have hconsumes := (consumes_resume hnext).rearm hq'
      exact .inl (hconsumes.lastRun ▸ (h.grounded q hq).isSome hd)
    · rw [settle_removed]
      exact h.removed
  | drainRemoved index outcome =>
    obtain ⟨q, next, hq, hnext, rfl, _⟩ := step_drainRemoved_iff.mp hstep
    have hwork := (consumes_resume hnext).hasWork (h.removed q (mem_of_getElem? hq))
    rw [settleRemoved_of_idle w index hwork]
    split
    · refine ⟨h.grounded, fun q' hq' => ?_⟩
      rcases mem_or_eq_of_mem_set hq' with hold | hnew
      · exact h.removed q' hold
      · exact hnew ▸ hwork
    · exact ⟨h.grounded, fun q' hq' => h.removed q' (mem_of_mem_eraseIdx hq')⟩

theorem sane_of_run (h : Run (Step host) initial labels w) : Sane w :=
  h.invariant Sane (fun hinv hstep => hinv.step hstep) sane_initial
end FollowupQueues

end OpenClaw
