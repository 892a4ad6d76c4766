import Mathlib.Tactic.Linarith
import OpenClaw.Heartbeat.Wake

/-!
# No wake waits without a timer

A wake is owed a timer from the moment it is asked for until a batch takes the pending wakes.
As long as a handler is registered, every function that touches the timer leaves one behind
that is due soon enough for all that are owed one.
-/

namespace OpenClaw

open Lts List Option

/-- The time at which a wake was put among the pending ones, and the delay it came with. -/
def WakeEvent.asks : WakeEvent → Option (ℕ × ℚ)
  | requested _ _ time delay => some (time, delay)
  | requeued _ _ time => some (time, HeartbeatWake.defaultRetryMs)
  | _ => none

/-- Since a wake was asked for at this time no batch took the pending ones, and the bound is
none smaller than its delay, the retry delay and the delays of timers that were armed again. -/
def Owed (events : List WakeEvent) (time : ℕ) (bound : ℚ) : Prop :=
  ∃ before asked after delay, events = before ++ asked :: after ∧
    asked.asks = some (time, delay) ∧ delay ≤ bound ∧ HeartbeatWake.defaultRetryMs ≤ bound ∧
    ∀ event ∈ after, (∀ batch, event ≠ .taken batch) ∧
      ∀ delay', event = .rearmed delay' → delay' ≤ bound

variable {events new : List WakeEvent}

theorem owed_append {time : ℕ} {bound : ℚ} (h : Owed (events ++ new) time bound) :
    (Owed events time bound ∧ ∀ event ∈ new, (∀ batch, event ≠ .taken batch) ∧
      ∀ delay', event = .rearmed delay' → delay' ≤ bound) ∨
    ∃ asked ∈ new, ∃ delay, asked.asks = some (time, delay) ∧ delay ≤ bound ∧
      HeartbeatWake.defaultRetryMs ≤ bound := by
  obtain ⟨before, asked, after, delay, heq, hasks, hdelay, hretry, hafter⟩ := h
  rcases append_eq_append_iff.mp heq with ⟨middle, hbefore, hnew⟩ | ⟨middle, hevents, hrest⟩
  · refine .inr ⟨asked, ?_, delay, hasks, hdelay, hretry⟩
    rw [hnew]
    exact mem_append_right _ mem_cons_self
  · cases middle with
    | nil =>
      refine .inr ⟨asked, ?_, delay, hasks, hdelay, hretry⟩
      rw [nil_append] at hrest
      rw [← hrest]
      exact mem_cons_self
    | cons first middle =>
      rw [cons_append, List.cons.injEq] at hrest
      obtain ⟨rfl, rfl⟩ := hrest
      refine .inl ⟨⟨before, asked, middle, delay, hevents, hasks, hdelay, hretry, ?_⟩, ?_⟩
      · exact fun event hevent => hafter event (mem_append_left _ hevent)
      · exact fun event hevent => hafter event (mem_append_right _ hevent)

theorem Owed.retry_le {time : ℕ} {bound : ℚ}
    (h : Owed events time bound) : HeartbeatWake.defaultRetryMs ≤ bound := by
  obtain ⟨_, _, _, _, _, _, _, hretry, _⟩ := h
  exact hretry

/-- Events that ask for nothing leave what is owed as it is, or less. -/
theorem owed_of_append_silent {time : ℕ} {bound : ℚ}
    (h : Owed (events ++ new) time bound) (hnew : ∀ event ∈ new, event.asks = none) :
    Owed events time bound ∧ ∀ event ∈ new, (∀ batch, event ≠ .taken batch) ∧
      ∀ delay', event = .rearmed delay' → delay' ≤ bound := by
  rcases owed_append h with hold | ⟨asked, hasked, delay, hasks, _⟩
  · exact hold
  · rw [hnew asked hasked] at hasks
    cases hasks

namespace HeartbeatWake

variable {s : HeartbeatWake} {time : ℕ} {bound delay : ℚ} {coalesceMs : JsNumber}
  {kind : WakeTimerKind}

/-! ## The timer and the clock -/

/-- No timer was armed in the future, and retry timers have the retry delay. -/
structure Clocked (s : HeartbeatWake) : Prop where
  armed : ∀ timer, s.timer = some timer → timer.armedAt ≤ s.now
  retry : ∀ timer, s.timer = some timer → timer.kind = .retry → timer.delay = defaultRetryMs

/-- A timer is armed, and it is due at most `bound` after the later of `time` and its arming. -/
def Covers (s : HeartbeatWake) (time : ℕ) (bound : ℚ) : Prop :=
  ∃ timer, s.timer = some timer ∧ timer.dueAt ≤ max (time : ℚ) timer.armedAt + bound

theorem armedAt_new (now : ℕ) (delay : ℚ) (kind : WakeTimerKind) :
    WakeTimer.armedAt ⟨now + delay, kind, delay⟩ = now := by
  show (now : ℚ) + delay - delay = now
  ring

theorem Clocked.schedule (h : Clocked s)
    (hkind : kind = .retry → scheduleDelay coalesceMs = defaultRetryMs) :
    Clocked (s.schedule coalesceMs kind) := by
  obtain ⟨_, _, heq, _⟩ | ⟨_, heq⟩ := schedule_cases s coalesceMs kind
  · rw [heq]
    exact h
  · rw [heq]
    constructor
    · intro timer htimer
      cases htimer
      exact (armedAt_new s.now _ kind).le
    · intro timer htimer hretry
      cases htimer
      exact hkind hretry

/-- Rescheduling keeps what the timer covers: a new timer is due before the old one. -/
theorem Covers.schedule (h : Covers s time bound) (hclock : Clocked s) :
    Covers (s.schedule coalesceMs kind) time bound := by
  obtain ⟨_, _, heq, _⟩ | ⟨hsooner, heq⟩ := schedule_cases s coalesceMs kind
  · rw [heq]
    exact h
  · obtain ⟨timer, htimer, hdue⟩ := h
    rw [heq]
    refine ⟨_, rfl, ?_⟩
    rw [armedAt_new]
    have hold := hsooner timer htimer
    have harmed := max_le_max_left (time : ℚ) (hclock.armed timer htimer)
    show (s.now : ℚ) + scheduleDelay coalesceMs ≤ max (time : ℚ) s.now + bound
    linarith

/-- What is asked for now is covered once `schedule` ran with its delay. -/
theorem covers_schedule (hclock : Clocked s) (hdelay : scheduleDelay coalesceMs ≤ bound)
    (hretry : defaultRetryMs ≤ bound) : Covers (s.schedule coalesceMs kind) s.now bound := by
  obtain ⟨timer, htimer, heq, hkept⟩ | ⟨_, heq⟩ := schedule_cases s coalesceMs kind
  · rw [heq]
    refine ⟨timer, htimer, ?_⟩
    have harmed := le_max_right (s.now : ℚ) timer.armedAt
    have hnow := le_max_left (s.now : ℚ) timer.armedAt
    rcases hkept with hkind | hdue
    · -- a retry timer is due one retry delay after its arming
      have hlength : timer.dueAt - timer.armedAt = timer.delay := by
        show timer.dueAt - (timer.dueAt - timer.delay) = timer.delay
        ring
      have hdefault := hclock.retry timer htimer hkind
      linarith
    · linarith
  · rw [heq]
    refine ⟨_, rfl, ?_⟩
    have hnow := le_max_left (s.now : ℚ) (WakeTimer.armedAt
      ⟨s.now + scheduleDelay coalesceMs, kind, scheduleDelay coalesceMs⟩)
    show (s.now : ℚ) + scheduleDelay coalesceMs ≤ _
    linarith

/-- A timer that is armed when there is none covers everything with its delay. -/
theorem covers_schedule_of_none (hnone : s.timer = none)
    (hdelay : scheduleDelay coalesceMs ≤ bound) : Covers (s.schedule coalesceMs kind) time bound := by
  obtain ⟨timer, htimer, _⟩ | ⟨_, heq⟩ := schedule_cases s coalesceMs kind
  · rw [hnone] at htimer
    cases htimer
  · rw [heq]
    refine ⟨_, rfl, ?_⟩
    rw [armedAt_new]
    have hnow := le_max_right (time : ℚ) s.now
    show (s.now : ℚ) + scheduleDelay coalesceMs ≤ max (time : ℚ) s.now + bound
    linarith

theorem scheduleDelay_finite_le (hdelay : delay ≤ bound) (hretry : defaultRetryMs ≤ bound) :
    scheduleDelay (.finite delay) ≤ bound := by
  have hpos : (0 : ℚ) ≤ bound := le_trans (by decide) hretry
  exact max_le hpos hdelay

/-! ## What every function keeps -/

/-- A step of a function: handler and clock stay, no pending wake is dropped, and the timer is
there for all for which it was. -/
structure Retains (s s' : HeartbeatWake) : Prop where
  handler : s'.handler = s.handler
  now : s'.now = s.now
  pending : s.pendingWakes.entries ≠ [] → s'.pendingWakes.entries ≠ []
  timer : s.timer.isSome = true → s'.timer.isSome = true
  clocked : Clocked s → Clocked s'
  covers : ∀ time bound, Clocked s → Covers s time bound → Covers s' time bound

variable {s' s'' : HeartbeatWake}

theorem Retains.refl (s : HeartbeatWake) : Retains s s :=
  ⟨rfl, rfl, id, id, id, fun _ _ _ => id⟩

theorem Retains.trans (h : Retains s s') (h' : Retains s' s'') : Retains s s'' where
  handler := h'.handler.trans h.handler
  now := h'.now.trans h.now
  pending hpending := h'.pending (h.pending hpending)
  timer htimer := h'.timer (h.timer htimer)
  clocked hclock := h'.clocked (h.clocked hclock)
  covers time bound hclock hcovers :=
    h'.covers time bound (h.clocked hclock) (h.covers time bound hclock hcovers)

theorem isSome_timer_schedule (s : HeartbeatWake) (coalesceMs : JsNumber) (kind : WakeTimerKind) :
    (s.schedule coalesceMs kind).timer.isSome = true := by
  obtain ⟨timer, heq⟩ := schedule_eq s coalesceMs kind
  rw [heq]
  rfl

theorem keeps_schedule (s : HeartbeatWake)
    (hkind : kind = .retry → scheduleDelay coalesceMs = defaultRetryMs) :
    Retains s (s.schedule coalesceMs kind) := by
  obtain ⟨timer, heq⟩ := schedule_eq s coalesceMs kind
  refine ⟨?_, ?_, ?_, fun _ => isSome_timer_schedule s coalesceMs kind,
    fun hclock => hclock.schedule hkind, fun _ _ hclock hcovers => hcovers.schedule hclock⟩
  · rw [heq]
  · rw [heq]
  · rw [heq]
    exact id

variable (s)

theorem keeps_finish (delay : ℚ) : Retains s (s.finish delay) := by
  have hidle : Retains s { s with running := false } :=
    ⟨rfl, rfl, id, id, fun h => ⟨h.armed, h.retry⟩, fun _ _ _ h => h⟩
  unfold finish
  dsimp only
  split_ifs
  · exact hidle.trans (keeps_schedule _ fun hkind => by cases hkind)
  · exact hidle

theorem pending_queue (next : PendingWakeReason) :
    (s.queuePendingWakeReason next).pendingWakes.entries ≠ [] := by
  obtain ⟨wake, hmem, _⟩ := pends_queue (s := s) next
  exact ne_nil_of_mem hmem

theorem keeps_queue (next : PendingWakeReason) : Retains s (s.queuePendingWakeReason next) := by
  obtain ⟨pendingWakes, heq⟩ := queue_eq s next
  have hpending := pending_queue s next
  rw [heq] at hpending ⊢
  exact ⟨rfl, rfl, fun _ => hpending, id, fun h => ⟨h.armed, h.retry⟩, fun _ _ _ h => h⟩

theorem keeps_requeueAll (wakes : List PendingWakeReason) : Retains s (wakes.foldl requeue s) := by
  induction wakes generalizing s with
  | nil => exact .refl s
  | cons wake wakes ih => exact (keeps_queue s _).trans (ih _)

theorem keeps_batches (batches : Keyed WakeBatch WakeBatch.id) :
    Retains s { s with batches := batches } :=
  ⟨rfl, rfl, id, id, fun h => ⟨h.armed, h.retry⟩, fun _ _ _ h => h⟩

theorem keeps_proceed (batch : WakeBatch) : Retains s (s.proceed batch).1 := by
  obtain ⟨next, _, _, _, _, heq⟩ | ⟨_, heq⟩ := proceed_cases s batch
  · rw [heq]
    exact keeps_batches s (s.batches.set next)
  · rw [heq]
    exact (keeps_batches s _).trans (keeps_finish _ _)

theorem scheduleDelay_retry : scheduleDelay (.finite defaultRetryMs) = defaultRetryMs := by
  decide

theorem keeps_schedule_retry : Retains s (s.schedule (.finite defaultRetryMs) .retry) :=
  keeps_schedule s fun _ => scheduleDelay_retry

theorem keeps_requestHeartbeat (opts : HeartbeatRequest) : Retains s (s.requestHeartbeat opts).1 :=
  (keeps_queue s _).trans (keeps_schedule _ fun hkind => by cases hkind)

/-- What is given back is behind a `schedule` with the retry delay. -/
theorem keeps_requeue (wake : PendingWakeReason) :
    Retains s ((s.requeue wake).schedule (.finite defaultRetryMs) .retry) :=
  (keeps_queue s _).trans (keeps_schedule_retry _)

theorem keeps_returns (batch : WakeBatch) (res : HeartbeatRunResult) :
    Retains s (s.returns batch res).1 := by
  unfold returns
  dsimp only
  split_ifs
  · exact (keeps_requeue s _).trans (keeps_proceed _ batch)
  · exact keeps_proceed s batch

theorem keeps_throws (batch : WakeBatch) : Retains s (s.throws batch).1 :=
  (keeps_requeueAll s _).trans <| (keeps_schedule_retry _).trans <|
    (keeps_batches _ _).trans (keeps_finish _ _)

variable {s}

end HeartbeatWake

namespace WakeTrace

open HeartbeatWake

variable {t t' : WakeTrace} {action : Action} {actions : List Action}

/-! ## Every run -/

/-- A registered handler with pending wakes has a timer, which covers all that is owed one. -/
structure Punctual (t : WakeTrace) : Prop where
  clocked : Clocked t.state
  pending : ∀ time bound, Owed t.events time bound → t.state.pendingWakes.entries ≠ []
  armed : t.state.handler.isSome = true → t.state.pendingWakes.entries ≠ [] →
    t.state.timer.isSome = true
  covers : t.state.handler.isSome = true → ∀ time bound, Owed t.events time bound →
    Covers t.state time bound

/-- A step of functions that keep what there is, and cover what they are asked for. -/
theorem Punctual.keeps (h : Punctual t) {s' : HeartbeatWake}
    (hkeeps : Retains t.state s') (htaken : s'.pendingWakes.entries ≠ [] →
      t.state.pendingWakes.entries ≠ [] ∨ s'.timer.isSome = true)
    (hnew : ∀ asked ∈ new, ∀ time delay, asked.asks = some (time, delay) →
      s'.pendingWakes.entries ≠ [] ∧ ∀ bound, delay ≤ bound → defaultRetryMs ≤ bound →
        Covers s' time bound) : Punctual ⟨s', t.events ++ new⟩ where
  clocked := hkeeps.clocked h.clocked
  pending time bound howed := by
    rcases owed_append howed with ⟨hold, _⟩ | ⟨asked, hasked, delay, hasks, _, _⟩
    · exact hkeeps.pending (h.pending time bound hold)
    · exact (hnew asked hasked time delay hasks).1
  armed hhandler hpending := by
    rcases htaken hpending with hbefore | htimer
    · have hregistered : t.state.handler.isSome = true := hkeeps.handler ▸ hhandler
      exact hkeeps.timer (h.armed hregistered hbefore)
    · exact htimer
  covers hhandler time bound howed := by
    rcases owed_append howed with ⟨hold, _⟩ | ⟨asked, hasked, delay, hasks, hdelay, hretry⟩
    · have hregistered : t.state.handler.isSome = true := hkeeps.handler ▸ hhandler
      exact hkeeps.covers time bound h.clocked (h.covers hregistered time bound hold)
    · exact (hnew asked hasked time delay hasks).2 bound hdelay hretry

theorem punctual_start : Punctual start where
  clocked := ⟨fun _ htimer => (by cases htimer), fun _ htimer => (by cases htimer)⟩
  pending time bound howed := by
    obtain ⟨before, asked, after, _, heq, _⟩ := howed
    cases before <;> cases heq
  armed hhandler := by cases hhandler
  covers hhandler := by cases hhandler

theorem Punctual.requestHeartbeat (h : Punctual t) (opts : HeartbeatRequest) :
    Punctual ⟨(t.state.requestHeartbeat opts).1,
      t.events ++ (t.state.requestHeartbeat opts).2⟩ := by
  apply h.keeps (keeps_requestHeartbeat t.state opts)
  · intro _
    exact .inr (isSome_timer_schedule _ _ _)
  · intro asked hasked time delay hasks
    rw [mem_singleton.mp hasked] at hasks
    cases hasks
    have hqueued := keeps_queue t.state (nextWake opts.source opts.intent opts.reason opts.agentId
      opts.sessionKey opts.heartbeat t.state.now)
    constructor
    · exact (keeps_schedule _ fun hkind => by cases hkind).pending (pending_queue _ _)
    · intro bound hdelay hretry
      have hcovers : Covers (t.state.requestHeartbeat opts).1 _ bound :=
        covers_schedule (hqueued.clocked h.clocked) hdelay hretry
      rw [hqueued.now] at hcovers
      exact hcovers

/-- Registering a handler starts a timer for whatever is pending. -/
theorem Punctual.setHeartbeatWakeHandler (h : Punctual t) (next : Option ℕ) :
    Punctual ⟨(t.state.setHeartbeatWakeHandler next).1,
      t.events ++ (t.state.setHeartbeatWakeHandler next).2⟩ := by
  cases next with
  | none =>
    refine ⟨⟨h.clocked.armed, h.clocked.retry⟩, ?_, fun hhandler => (by cases hhandler),
      fun hhandler => (by cases hhandler)⟩
    intro time bound howed
    exact h.pending time bound (owed_of_append_silent howed fun _ hmem => by cases hmem).1
  | some handler =>
    have hsilent : ∀ event ∈ [WakeEvent.registered handler], event.asks = none := by
      intro event hmem
      rw [mem_singleton.mp hmem]
      rfl
    set cleared : HeartbeatWake :=
      { t.state with
        handlerGeneration := t.state.handlerGeneration + 1
        handler := some handler
        timer := none
        running := false
        scheduled := false } with hcleared
    have hclock : Clocked cleared :=
      ⟨fun _ htimer => (by cases htimer), fun _ htimer => (by cases htimer)⟩
    have hset : (t.state.setHeartbeatWakeHandler (some handler)).1 =
        if cleared.pendingWakes.entries ≠ [] then
          cleared.schedule (.finite defaultCoalesceMs) .normal else cleared := rfl
    by_cases hpending : cleared.pendingWakes.entries ≠ []
    · rw [if_pos hpending] at hset
      rw [hset]
      have hkeeps : Retains cleared (cleared.schedule (.finite defaultCoalesceMs) .normal) :=
        keeps_schedule cleared fun hkind => by cases hkind
      refine ⟨hkeeps.clocked hclock, fun _ _ _ => hkeeps.pending hpending,
        fun _ _ => isSome_timer_schedule _ _ _, fun _ time bound howed => ?_⟩
      have hretry := howed.retry_le
      have hcoalesce : defaultCoalesceMs ≤ bound := le_trans (by decide) hretry
      exact covers_schedule_of_none rfl (scheduleDelay_finite_le hcoalesce hretry)
    · rw [if_neg hpending] at hset
      rw [hset]
      have hnone : ∀ time bound, ¬ Owed (t.events ++ [.registered handler]) time bound :=
        fun time bound howed =>
          hpending (h.pending time bound (owed_of_append_silent howed hsilent).1)
      exact ⟨hclock, fun time bound howed => absurd howed (hnone time bound),
        fun _ hne => absurd hne hpending, fun _ time bound howed => absurd howed (hnone time bound)⟩

theorem Punctual.dispose (h : Punctual t) (generation : ℕ) (next : Option ℕ) :
    Punctual ⟨t.state.dispose generation next, t.events ++ []⟩ := by
  rw [append_nil]
  unfold HeartbeatWake.dispose
  split_ifs
  · exact h
  · exact h
  · exact ⟨⟨h.clocked.armed, h.clocked.retry⟩, h.pending, fun hhandler => (by cases hhandler),
      fun hhandler => (by cases hhandler)⟩

/-- Without a handler the timer goes away; while a batch is running it is armed again; and a
batch takes all that is owed a timer. -/
theorem Punctual.fire (h : Punctual t) (timer : WakeTimer) (htimer : t.state.timer = some timer) :
    Punctual ⟨(t.state.fire timer).1, t.events ++ (t.state.fire timer).2⟩ := by
  have htaken : ∀ {new time bound}, .taken t.state.nextBatch ∈ new →
      (∀ event ∈ new, event.asks = none) → ¬ Owed (t.events ++ new) time bound := by
    intro new time bound hmem hsilent howed
    exact ((owed_of_append_silent howed hsilent).2 _ hmem).1 _ rfl
  rcases fire_cases t.state timer with ⟨hnone, heq⟩ | ⟨_, _, heq⟩ | ⟨_, _, heq⟩ |
    ⟨_, next, _, _, _, _, heq⟩
  · rw [heq, append_nil]
    refine ⟨⟨fun _ htimer => (by cases htimer), fun _ htimer => (by cases htimer)⟩, h.pending,
      fun hhandler => ?_, fun hhandler => ?_⟩ <;>
    · have hsome : t.state.handler.isSome = true := hhandler
      rw [hnone] at hsome
      cases hsome
  · rw [heq]
    set waiting : HeartbeatWake := { t.state with timer := none, scheduled := true } with hwaiting
    have hclock : Clocked waiting :=
      ⟨fun _ htimer => (by cases htimer), fun _ htimer => (by cases htimer)⟩
    have hkind : timer.kind = .retry → scheduleDelay (.finite timer.delay) = defaultRetryMs := by
      intro hretry
      rw [h.clocked.retry timer htimer hretry]
      exact scheduleDelay_retry
    have hkeeps := keeps_schedule waiting hkind
    have hsilent : ∀ event ∈ [WakeEvent.rearmed timer.delay], event.asks = none := by
      intro event hmem
      rw [mem_singleton.mp hmem]
      rfl
    refine ⟨hkeeps.clocked hclock, fun time bound howed => ?_,
      fun _ _ => isSome_timer_schedule _ _ _, fun _ time bound howed => ?_⟩
    · exact hkeeps.pending (h.pending time bound (owed_of_append_silent howed hsilent).1)
    · obtain ⟨hold, hnew⟩ := owed_of_append_silent howed hsilent
      have hdelay := (hnew _ mem_cons_self).2 _ rfl
      exact covers_schedule_of_none rfl (scheduleDelay_finite_le hdelay hold.retry_le)
  · rw [heq]
    have hnone : ∀ time bound, ¬ Owed (t.events ++ [.taken t.state.nextBatch]) time bound := by
      intro time bound
      apply htaken mem_cons_self
      intro event hmem
      rw [mem_singleton.mp hmem]
      rfl
    exact ⟨⟨fun _ htimer => (by cases htimer), fun _ htimer => (by cases htimer)⟩,
      fun time bound howed => absurd howed (hnone time bound), fun _ hne => absurd rfl hne,
      fun _ time bound howed => absurd howed (hnone time bound)⟩
  · rw [heq]
    have hnone : ∀ time bound, ¬ Owed (t.events ++ [.taken t.state.nextBatch,
        .called t.state.nextBatch next.pendingWake.targetKey next.pendingWake.priority])
        time bound := by
      intro time bound
      apply htaken mem_cons_self
      intro event hmem
      rcases mem_cons.mp hmem with rfl | hmem
      · rfl
      · rw [mem_singleton.mp hmem]
        rfl
    exact ⟨⟨fun _ htimer => (by cases htimer), fun _ htimer => (by cases htimer)⟩,
      fun time bound howed => absurd howed (hnone time bound), fun _ hne => absurd rfl hne,
      fun _ time bound howed => absurd howed (hnone time bound)⟩

/-- What is covered once wakes were given back: everything that is asked for at that moment. -/
theorem covers_givenBack {s s' : HeartbeatWake} (hclock : Clocked s)
    (hkeeps : Retains (s.schedule (.finite defaultRetryMs) .retry) s') {bound : ℚ}
    (hretry : defaultRetryMs ≤ bound) : Covers s' s.now bound := by
  have hscheduled : Covers (s.schedule (.finite defaultRetryMs) .retry) s.now bound :=
    covers_schedule hclock (scheduleDelay_retry.trans_le hretry) hretry
  exact hkeeps.covers _ _ ((keeps_schedule_retry s).clocked hclock) hscheduled

theorem Punctual.returns (h : Punctual t) (batch : WakeBatch) (res : HeartbeatRunResult) :
    Punctual ⟨(t.state.returns batch res).1, t.events ++ (t.state.returns batch res).2⟩ := by
  have hkeeps := keeps_returns t.state batch res
  by_cases hres : res.isRetryable = true
  · have heq : t.state.returns batch res = _ := if_pos hres
    set queued := t.state.requeue batch.pendingWake with hqueued
    have hqueue : Retains t.state queued := keeps_queue _ _
    have hproceed := keeps_proceed (queued.schedule (.finite defaultRetryMs) .retry) batch
    rw [heq] at hkeeps ⊢
    apply h.keeps hkeeps
    · intro _
      exact .inr (hproceed.timer (isSome_timer_schedule _ _ _))
    · intro asked hasked time delay hasks
      rcases mem_cons.mp hasked with rfl | hasked
      · cases hasks
      rcases mem_cons.mp hasked with rfl | hasked
      · cases hasks
        refine ⟨?_, fun bound _ hretry => ?_⟩
        · exact ((keeps_schedule_retry queued).trans hproceed).pending (pending_queue _ _)
        · have hcovers := covers_givenBack (hqueue.clocked h.clocked) hproceed hretry
          rw [hqueue.now] at hcovers
          exact hcovers
      · rw [proceed_events] at hasked
        obtain ⟨_, _, rfl⟩ := mem_map.mp hasked
        cases hasks
  · have heq : t.state.returns batch res = _ := if_neg hres
    rw [heq] at hkeeps ⊢
    apply h.keeps hkeeps
    · intro hpending
      refine .inl ?_
      rcases proceed_cases t.state batch with ⟨_, _, _, _, _, hproceed⟩ | ⟨_, hproceed⟩
      · rw [hproceed] at hpending
        exact hpending
      · obtain ⟨_, hfinish⟩ :=
          finish_eq { t.state with batches := t.state.batches.erase batch.id } batch.delay
        rw [hproceed, hfinish] at hpending
        exact hpending
    · intro asked hasked time delay hasks
      rcases mem_cons.mp hasked with rfl | hasked
      · cases hasks
      · rw [proceed_events] at hasked
        obtain ⟨_, _, rfl⟩ := mem_map.mp hasked
        cases hasks

theorem Punctual.throws (h : Punctual t) (batch : WakeBatch) :
    Punctual ⟨(t.state.throws batch).1, t.events ++ (t.state.throws batch).2⟩ := by
  set queued := batch.pendingBatch.foldl requeue t.state with hqueued
  have hqueue : Retains t.state queued := keeps_requeueAll _ _
  have hpending : queued.pendingWakes.entries ≠ [] := by
    have hmem : batch.pendingWake ∈ batch.pendingBatch :=
      mem_append_right _ mem_cons_self
    obtain ⟨wake, hwake, _⟩ := pends_requeueAll (s := t.state) hmem
    exact ne_nil_of_mem hwake
  have hrest : Retains (queued.schedule (.finite defaultRetryMs) .retry) (t.state.throws batch).1 :=
    (keeps_batches _ _).trans (keeps_finish _ _)
  apply h.keeps (keeps_throws t.state batch)
  · intro _
    exact .inr (hrest.timer (isSome_timer_schedule _ _ _))
  · intro asked hasked time delay hasks
    rcases mem_cons.mp hasked with rfl | hasked
    · cases hasks
    · obtain ⟨wake, _, rfl⟩ := mem_map.mp hasked
      cases hasks
      refine ⟨((keeps_schedule_retry queued).trans hrest).pending hpending,
        fun bound _ hretry => ?_⟩
      have hcovers := covers_givenBack (hqueue.clocked h.clocked) hrest hretry
      rw [hqueue.now] at hcovers
      exact hcovers

theorem Punctual.step (h : Punctual t) (hstep : t.Step action t') : Punctual t' := by
  obtain ⟨next, hperform, rfl⟩ := Option.map_eq_some_iff.mp hstep
  cases action with
  | pass ms =>
    have heq := some.inj hperform
    rw [← heq, append_nil]
    refine ⟨⟨fun timer htimer => ?_, h.clocked.retry⟩, h.pending, h.armed, h.covers⟩
    have harmed := h.clocked.armed timer htimer
    have hlater : (t.state.now : ℚ) ≤ ((t.state.now + ms : ℕ) : ℚ) := by
      exact_mod_cast Nat.le_add_right _ _
    exact harmed.trans hlater
  | requestHeartbeat opts =>
    have heq := some.inj hperform
    rw [← heq]
    exact h.requestHeartbeat opts
  | setHeartbeatWakeHandler handler =>
    have heq := some.inj hperform
    rw [← heq]
    exact h.setHeartbeatWakeHandler handler
  | dispose generation handler =>
    have heq := some.inj hperform
    rw [← heq]
    exact h.dispose generation handler
  | fire =>
    obtain ⟨timer, htimer, heq⟩ := Option.map_eq_some_iff.mp hperform
    rw [← heq]
    exact h.fire timer htimer
  | returns id res =>
    obtain ⟨batch, _, heq⟩ := Option.map_eq_some_iff.mp hperform
    rw [← heq]
    exact h.returns batch res
  | throws id =>
    obtain ⟨batch, _, heq⟩ := Option.map_eq_some_iff.mp hperform
    rw [← heq]
    exact h.throws batch

/-- Every reachable state is punctual. -/
theorem punctual_run (h : Run Step start actions t) : Punctual t :=
  h.invariant Punctual Punctual.step punctual_start

end WakeTrace

end OpenClaw
