import OpenClaw.Heartbeat.Armed

/-!
# Every request is answered by a call

From the request on there is a wake for its target with at least its priority: among the
pending wakes, or in a batch that has not come to it yet. It leaves the batch by the handler
call, or goes back to the pending ones.
-/

namespace OpenClaw

open Lts List Option Bool Keyed

/-- The handler is called for the target, with at least this priority. -/
def Calls (events : List WakeEvent) (key : Str) (priority : ℕ) : Prop :=
  ∃ batch priority', .called batch key priority' ∈ events ∧ priority ≤ priority'

namespace HeartbeatWake

variable {s s' : HeartbeatWake} {key : Str} {priority : ℕ} {action : Action}
  {next : HeartbeatWake × List WakeEvent}

variable (s key priority)

/-- A batch holds a wake for the target that it has not come to yet. -/
def Awaits : Prop :=
  ∃ batch ∈ s.batches.entries, ∃ wake ∈ batch.left,
    wake.targetKey = key ∧ priority ≤ wake.priority

/-- A wake for the target is on its way to the handler. -/
def InHand : Prop :=
  s.Pends key priority ∨ s.Awaits key priority

variable {s key priority}

/-- Batches are numbered as they start. -/
def Numbered (s : HeartbeatWake) : Prop := ∀ batch ∈ s.batches.entries, batch.id < s.nextBatch

/-! ## What one step does -/

theorem schedule_pends (h : s.Pends key priority) (coalesceMs : JsNumber) (kind : WakeTimerKind) :
    (s.schedule coalesceMs kind).Pends key priority := by
  obtain ⟨timer, heq⟩ := schedule_eq s coalesceMs kind
  rw [heq]
  exact h

theorem finish_inHand (h : s.InHand key priority) (delay : ℚ) :
    (s.finish delay).InHand key priority := by
  obtain ⟨timer, heq⟩ := finish_eq s delay
  rw [heq]
  exact h

/-- The loop of a batch hands over the next wake of the batch and no other. -/
theorem proceed_inHand {batch : WakeBatch} (hbatch : batch ∈ s.batches.entries)
    (h : s.InHand key priority) :
    (s.proceed batch).1.InHand key priority ∨ Calls (s.proceed batch).2 key priority := by
  obtain ⟨next, hid, _, _, hleft, heq⟩ | ⟨hleft, heq⟩ := proceed_cases s batch
  · rw [heq]
    rcases h with hpends | ⟨other, hother, wake, hwake, hkey, hle⟩
    · exact .inl (.inl hpends)
    · by_cases hsame : other.id = batch.id
      · have hbatches : other = batch := inj_on_of_nodup_map s.batches.nodup hother hbatch hsame
        rw [hbatches, hleft] at hwake
        rcases mem_cons.mp hwake with rfl | hrest
        · exact .inr ⟨batch.id, _, hkey ▸ mem_singleton_self _, hle⟩
        · exact .inl (.inr ⟨next, mem_set.mpr (.inl rfl), wake, hrest, hkey, hle⟩)
      · have hkept : other ∈ (s.batches.set next).entries :=
          mem_set.mpr (.inr ⟨hother, hid ▸ hsame⟩)
        exact .inl (.inr ⟨other, hkept, wake, hwake, hkey, hle⟩)
  · rw [heq]
    refine .inl (finish_inHand ?_ _)
    rcases h with hpends | ⟨other, hother, wake, hwake, hkey, hle⟩
    · exact .inl hpends
    · refine .inr ⟨other, mem_filter.mpr ⟨hother, ?_⟩, wake, hwake, hkey, hle⟩
      rw [decide_eq_true_eq]
      intro hsame
      have hbatches : other = batch := inj_on_of_nodup_map s.batches.nodup hother hbatch hsame
      rw [hbatches, hleft] at hwake
      cases hwake

theorem returns_inHand {batch : WakeBatch} (hbatch : batch ∈ s.batches.entries)
    (h : s.InHand key priority) (res : HeartbeatRunResult) :
    (s.returns batch res).1.InHand key priority ∨ Calls (s.returns batch res).2 key priority := by
  unfold returns
  dsimp only
  split_ifs
  · set queued := (s.requeue batch.pendingWake).schedule (.finite defaultRetryMs) .retry
      with hqueued
    obtain ⟨pendingWakes, hrequeue⟩ := requeue_eq s batch.pendingWake
    obtain ⟨timer, hschedule⟩ :=
      schedule_eq (s.requeue batch.pendingWake) (.finite defaultRetryMs) .retry
    have hbatches : queued.batches = s.batches := by
      rw [hqueued, hschedule, hrequeue]
    have hinHand : queued.InHand key priority := by
      rcases h with hpends | hawaits
      · exact .inl (schedule_pends (hpends.queue _) _ _)
      · refine .inr ?_
        unfold Awaits
        rw [hbatches]
        exact hawaits
    have hproceed := proceed_inHand (s := queued) (hbatches ▸ hbatch) hinHand
    refine hproceed.imp_right fun ⟨id, priority', hmem, hle⟩ => ⟨id, priority', ?_, hle⟩
    exact mem_cons_of_mem _ (mem_cons_of_mem _ hmem)
  · have hproceed := proceed_inHand hbatch h
    refine hproceed.imp_right fun ⟨id, priority', hmem, hle⟩ => ⟨id, priority', ?_, hle⟩
    exact mem_cons_of_mem _ hmem

/-- A batch that ends by an exception gives back all of its wakes. -/
theorem throws_inHand {batch : WakeBatch} (hbatch : batch ∈ s.batches.entries)
    (h : s.InHand key priority) : (s.throws batch).1.InHand key priority := by
  unfold throws
  dsimp only
  apply finish_inHand
  obtain ⟨pendingWakes, hrequeue⟩ := requeueAll_eq s batch.pendingBatch
  obtain ⟨timer, hschedule⟩ :=
    schedule_eq (batch.pendingBatch.foldl requeue s) (.finite defaultRetryMs) .retry
  rcases h with hpends | ⟨other, hother, wake, hwake, hkey, hle⟩
  · exact .inl (schedule_pends (hpends.requeueAll _) _ _)
  · by_cases hsame : other.id = batch.id
    · have hbatches : other = batch := inj_on_of_nodup_map s.batches.nodup hother hbatch hsame
      rw [hbatches] at hwake
      have hmem : wake ∈ batch.pendingBatch := mem_append_right _ (mem_cons_of_mem _ hwake)
      obtain ⟨given, hgiven, hkey', hle'⟩ := pends_requeueAll (s := s) hmem
      exact .inl (schedule_pends ⟨given, hgiven, hkey'.trans hkey, hle.trans hle'⟩ _ _)
    · refine .inr ⟨other, mem_filter.mpr ⟨?_, ?_⟩, wake, hwake, hkey, hle⟩
      · rw [hschedule, hrequeue]
        exact hother
      · rw [decide_eq_true_eq]
        exact hsame

/-- A batch takes the pending wakes, and calls the handler for the first of them. -/
theorem fire_inHand (hnumbered : Numbered s) (h : s.InHand key priority) (timer : WakeTimer) :
    (s.fire timer).1.InHand key priority ∨ Calls (s.fire timer).2 key priority := by
  rcases fire_cases s timer with ⟨_, heq⟩ | ⟨_, _, heq⟩ | ⟨_, hpending, heq⟩ |
    ⟨_, batch, hid, _, _, hpending, heq⟩
  · rw [heq]
    exact .inl h
  · obtain ⟨timer', hschedule⟩ := schedule_eq { s with timer := none, scheduled := true }
      (.finite timer.delay) timer.kind
    rw [heq]
    show (schedule _ _ _).InHand key priority ∨ _
    rw [hschedule]
    exact .inl h
  · rw [heq]
    rcases h with ⟨wake, hwake, _⟩ | hawaits
    · rw [hpending] at hwake
      cases hwake
    · exact .inl (.inr hawaits)
  · rw [heq]
    rcases h with ⟨wake, hwake, hkey, hle⟩ | ⟨other, hother, wake, hwake, hkey, hle⟩
    · rw [hpending] at hwake
      rcases mem_cons.mp hwake with rfl | hrest
      · exact .inr ⟨s.nextBatch, _, hkey ▸ mem_cons_of_mem _ (mem_singleton_self _), hle⟩
      · exact .inl (.inr ⟨batch, mem_set.mpr (.inl rfl), wake, hrest, hkey, hle⟩)
    · have hne : other.id ≠ batch.id := by
        have hlt := hnumbered other hother
        omega
      exact .inl (.inr ⟨other, mem_set.mpr (.inr ⟨hother, hne⟩), wake, hwake, hkey, hle⟩)

theorem requestHeartbeat_inHand (h : s.InHand key priority) (opts : HeartbeatRequest) :
    (s.requestHeartbeat opts).1.InHand key priority := by
  rcases h with hpends | hawaits
  · exact .inl (schedule_pends (hpends.queue _) _ _)
  · obtain ⟨_, _, heq⟩ := requestHeartbeat_eq s opts
    rw [heq]
    exact .inr hawaits

theorem InHand.congr (h : s.InHand key priority) (hpending : s'.pendingWakes = s.pendingWakes)
    (hbatches : s'.batches = s.batches) : s'.InHand key priority := by
  unfold InHand Pends Awaits
  rw [hpending, hbatches]
  exact h

/-- A wake leaves the pending ones and the batches by a handler call only. -/
theorem InHand.step (h : s.InHand key priority) (hnumbered : Numbered s)
    (hperform : s.perform action = some next) :
    next.1.InHand key priority ∨ Calls next.2 key priority := by
  cases action with
  | pass ms =>
    have heq := some.inj hperform
    rw [← heq]
    exact .inl h
  | requestHeartbeat opts =>
    have heq := some.inj hperform
    rw [← heq]
    exact .inl (requestHeartbeat_inHand h opts)
  | setHeartbeatWakeHandler handler =>
    have heq := some.inj hperform
    obtain ⟨hpending, hbatches, _⟩ := setHeartbeatWakeHandler_eq s handler
    rw [← heq]
    exact .inl (h.congr hpending hbatches)
  | dispose generation handler =>
    have heq := some.inj hperform
    obtain ⟨hpending, hbatches, _⟩ := dispose_eq s generation handler
    rw [← heq]
    exact .inl (h.congr hpending hbatches)
  | fire =>
    obtain ⟨timer, _, heq⟩ := Option.map_eq_some_iff.mp hperform
    rw [← heq]
    exact fire_inHand hnumbered h timer
  | returns id res =>
    obtain ⟨batch, hbatch, heq⟩ := Option.map_eq_some_iff.mp hperform
    rw [← heq]
    exact returns_inHand (mem_of_find hbatch) h res
  | throws id =>
    obtain ⟨batch, hbatch, heq⟩ := Option.map_eq_some_iff.mp hperform
    rw [← heq]
    exact .inl (throws_inHand (mem_of_find hbatch) h)

/-! ## The numbers of the batches -/

theorem Numbered.set (h : Numbered s) {batch : WakeBatch} (hbatch : batch.id < s.nextBatch) :
    ∀ other ∈ (s.batches.set batch).entries, other.id < s.nextBatch := by
  intro other hother
  rcases mem_set.mp hother with rfl | ⟨hmem, _⟩
  · exact hbatch
  · exact h other hmem

theorem Numbered.erase (h : Numbered s) (id : ℕ) :
    ∀ other ∈ (s.batches.erase id).entries, other.id < s.nextBatch :=
  fun other hother => h other (mem_of_mem_filter hother)

theorem Numbered.step (h : Numbered s) (hperform : s.perform action = some next) :
    Numbered next.1 := by
  unfold Numbered
  cases action with
  | pass ms =>
    have heq := some.inj hperform
    rw [← heq]
    exact h
  | requestHeartbeat opts =>
    have heq := some.inj hperform
    obtain ⟨_, _, hrequest⟩ := requestHeartbeat_eq s opts
    rw [← heq, hrequest]
    exact h
  | setHeartbeatWakeHandler handler =>
    have heq := some.inj hperform
    obtain ⟨_, hbatches, hnext⟩ := setHeartbeatWakeHandler_eq s handler
    rw [← heq, hbatches, hnext]
    exact h
  | dispose generation handler =>
    have heq := some.inj hperform
    obtain ⟨_, hbatches, hnext⟩ := dispose_eq s generation handler
    rw [← heq, hbatches, hnext]
    exact h
  | fire =>
    obtain ⟨timer, _, heq⟩ := Option.map_eq_some_iff.mp hperform
    rw [← heq]
    rcases fire_cases s timer with ⟨_, hfire⟩ | ⟨_, _, hfire⟩ | ⟨_, _, hfire⟩ |
      ⟨_, batch, hid, _, _, _, hfire⟩
    · rw [hfire]
      exact h
    · obtain ⟨_, hschedule⟩ := schedule_eq { s with timer := none, scheduled := true }
        (.finite timer.delay) timer.kind
      rw [hfire]
      dsimp only
      rw [hschedule]
      exact h
    · rw [hfire]
      exact fun batch hbatch => (h batch hbatch).trans (Nat.lt_succ_self _)
    · rw [hfire]
      intro other hother
      show other.id < s.nextBatch + 1
      rcases mem_set.mp hother with rfl | ⟨hmem, _⟩
      · omega
      · exact (h other hmem).trans (Nat.lt_succ_self _)
  | returns id res =>
    obtain ⟨batch, hbatch, heq⟩ := Option.map_eq_some_iff.mp hperform
    obtain ⟨_, hnext, hcases⟩ := returns_cases s batch res
    rw [← heq, hnext]
    rcases hcases with ⟨rest, hid, _, _, _, hbatches, _⟩ | ⟨_, hbatches, _⟩
    · rw [hbatches]
      exact h.set (hid ▸ h batch (mem_of_find hbatch))
    · rw [hbatches]
      exact h.erase batch.id
  | throws id =>
    obtain ⟨batch, hbatch, heq⟩ := Option.map_eq_some_iff.mp hperform
    obtain ⟨_, hnext, hbatches, _⟩ := throws_eq s batch
    rw [← heq, hnext, hbatches]
    exact h.erase batch.id

end HeartbeatWake

namespace WakeTrace

open HeartbeatWake

variable {t t' : WakeTrace} {action : Action} {actions : List Action}

/-! ## Every run -/

/-- Every request is in hand until a call answers it. -/
structure Answered (t : WakeTrace) : Prop where
  numbered : Numbered t.state
  inHand : ∀ before after key priority time delay,
    t.events = before ++ .requested key priority time delay :: after →
      t.state.InHand key priority ∨ Calls after key priority

/-- A request is seen in the step in which it is queued. -/
theorem pends_of_requested {s : HeartbeatWake} {next : HeartbeatWake × List WakeEvent}
    {key : Str} {priority time : ℕ} {delay : ℚ} (hperform : s.perform action = some next)
    (hmem : .requested key priority time delay ∈ next.2) : next.1.Pends key priority := by
  cases action with
  | requestHeartbeat opts =>
    have heq := some.inj hperform
    rw [← heq] at hmem ⊢
    obtain ⟨rfl, rfl, _, _⟩ := WakeEvent.requested.inj (mem_singleton.mp hmem)
    exact schedule_pends (pends_queue _) _ _
  | pass ms =>
    have heq := some.inj hperform
    rw [← heq] at hmem
    cases hmem
  | setHeartbeatWakeHandler handler =>
    have heq := some.inj hperform
    rw [← heq] at hmem
    cases handler with
    | none => cases hmem
    | some handler => cases mem_singleton.mp hmem
  | dispose generation handler =>
    have heq := some.inj hperform
    rw [← heq] at hmem
    cases hmem
  | fire =>
    obtain ⟨timer, _, heq⟩ := Option.map_eq_some_iff.mp hperform
    rw [← heq] at hmem
    rcases fire_cases s timer with ⟨_, hfire⟩ | ⟨_, _, hfire⟩ | ⟨_, _, hfire⟩ |
      ⟨_, batch, _, _, _, _, hfire⟩ <;> rw [hfire] at hmem <;> simp at hmem
  | returns id res =>
    obtain ⟨batch, _, heq⟩ := Option.map_eq_some_iff.mp hperform
    rw [← heq, returns_events] at hmem
    split_ifs at hmem <;> simp at hmem
  | throws id =>
    obtain ⟨batch, _, heq⟩ := Option.map_eq_some_iff.mp hperform
    rw [← heq] at hmem
    simp [throws] at hmem

theorem Answered.step (h : Answered t) (hstep : t.Step action t') : Answered t' := by
  obtain ⟨next, hperform, rfl⟩ := Option.map_eq_some_iff.mp hstep
  refine ⟨h.numbered.step hperform, fun before after key priority time delay heq => ?_⟩
  dsimp only at heq
  rcases append_eq_append_iff.mp heq with ⟨middle, hbefore, hnew⟩ | ⟨middle, hevents, hrest⟩
  · have hmem : .requested key priority time delay ∈ next.2 := by
      rw [hnew]
      exact mem_append_right _ mem_cons_self
    exact .inl (.inl (pends_of_requested hperform hmem))
  · cases middle with
    | nil =>
      have hmem : .requested key priority time delay ∈ next.2 := by
        rw [nil_append] at hrest
        rw [← hrest]
        exact mem_cons_self
      exact .inl (.inl (pends_of_requested hperform hmem))
    | cons first middle =>
      rw [cons_append, List.cons.injEq] at hrest
      obtain ⟨rfl, rfl⟩ := hrest
      rcases h.inHand before middle key priority time delay hevents with hinHand | hcalled
      · refine (hinHand.step h.numbered hperform).imp_right ?_
        rintro ⟨batch, priority', hmem, hle⟩
        exact ⟨batch, priority', mem_append_right _ hmem, hle⟩
      · obtain ⟨batch, priority', hmem, hle⟩ := hcalled
        exact .inr ⟨batch, priority', mem_append_left _ hmem, hle⟩

theorem answered_run (h : Run Step start actions t) : Answered t := by
  refine h.invariant Answered Answered.step ⟨fun _ hbatch => (by cases hbatch), ?_⟩
  intro before after key priority time delay heq
  cases before <;> cases heq

/-- With a handler and pending wakes a timer is armed. For every wake that was asked for since
the last batch it is due within the delay it came with, the retry delay or that of a timer which
was armed again during a batch, counted from the later of the asking and the arming. And from
every request on, its target is pending or waits in a batch with at least its priority, or a
call with at least its priority was made. -/
theorem wakes_armed_and_answered (h : Run Step start actions t) :
    (t.state.handler.isSome = true → t.state.pendingWakes.entries ≠ [] →
      ∃ timer, t.state.timer = some timer ∧ ∀ time bound, Owed t.events time bound →
        timer.dueAt ≤ max (time : ℚ) timer.armedAt + bound) ∧
    ∀ before after key priority time delay,
      t.events = before ++ .requested key priority time delay :: after →
        t.state.InHand key priority ∨ Calls after key priority := by
  have hpunctual := punctual_run h
  refine ⟨fun hhandler hpending => ?_, (answered_run h).inHand⟩
  obtain ⟨timer, htimer⟩ := Option.isSome_iff_exists.mp (hpunctual.armed hhandler hpending)
  refine ⟨timer, htimer, fun time bound howed => ?_⟩
  obtain ⟨timer', htimer', hdue⟩ := hpunctual.covers hhandler time bound howed
  rw [htimer] at htimer'
  rw [some.inj htimer']
  exact hdue

/-- An event for an agent, with the delay to coalesce it with others. -/
def eventFor (agentId : String) (coalesceMs : ℚ) : HeartbeatRequest :=
  ⟨.other, .event, none, some (.finite coalesceMs), some agentId.toList, none, none⟩

/-- The first request keeps its timer, which is due before the second one would be. -/
def keptTimer : List Action :=
  [.setHeartbeatWakeHandler (some 0), .requestHeartbeat (eventFor "x" 5000), .pass 4900,
    .requestHeartbeat (eventFor "y" 200)]

/-- The timer of `a` fires while the batch of `x` is still running, and `b` has to wait for it
a second time. -/
def rearmedTimer : List Action :=
  [.setHeartbeatWakeHandler (some 0), .requestHeartbeat (eventFor "x" 5000), .pass 5000, .fire,
    .requestHeartbeat (eventFor "a" 5000), .pass 4000, .requestHeartbeat (eventFor "b" 2000),
    .pass 1000, .fire, .pass 1, .returns 0 .ran]

/-- The batch has called the handler for `x`, and not yet for `y`. -/
def waitingBatch : List Action :=
  [.setHeartbeatWakeHandler (some 0), .requestHeartbeat (eventFor "x" 250),
    .requestHeartbeat (eventFor "y" 250), .pass 250, .fire]

theorem wakes_armed_and_answered_kept : ∃ t, Run Step start keptTimer t ∧
    (t.state.pendingWakes.entries.length = 2 ∧ t.state.timer = some ⟨5000, .normal, 5000⟩) ∧
    (∀ time bound, Owed t.events time bound →
      (5000 : ℚ) ≤ max (time : ℚ) 0 + bound) := by
  have hrun : (performAll (fun _ _ => true) start keptTimer).any (fun t =>
      t.state.pendingWakes.entries.length = 2 && t.state.handler.isSome &&
        t.state.timer = some ⟨5000, .normal, 5000⟩) = true := by
    decide +kernel
  obtain ⟨t, hperform, hfacts⟩ := (Option.any_eq_true _ _).mp hrun
  simp only [and_eq_true, decide_eq_true_eq] at hfacts
  have hrun := (run_of_performAll hperform).mono And.left
  have hpending : t.state.pendingWakes.entries ≠ [] := by
    intro hnil
    have hlength := hfacts.1.1
    rw [hnil] at hlength
    cases hlength
  obtain ⟨timer, htimer, hdue⟩ := (wakes_armed_and_answered hrun).1 hfacts.1.2 hpending
  rw [hfacts.2] at htimer
  cases htimer
  refine ⟨t, hrun, ⟨hfacts.1.1, hfacts.2⟩, fun time bound howed => ?_⟩
  have hbound := hdue time bound howed
  rw [show WakeTimer.armedAt ⟨5000, .normal, 5000⟩ = 0 by decide +kernel] at hbound
  exact hbound

/-- No batch is running, a handler is registered, and a wake for the target is pending that was
asked for at this time with this delay. -/
def Waits (t : WakeTrace) (key : Str) (time : ℕ) (delay : ℚ) : Prop :=
  t.state.handler.isSome = true ∧ t.state.batches.entries.length = 0 ∧
    .requested key 2 time delay ∈ t.events ∧ key ∈ t.state.pendingWakes.entries.map (·.targetKey)

instance (t : WakeTrace) (key : Str) (time : ℕ) (delay : ℚ) : Decidable (Waits t key time delay) :=
  inferInstanceAs (Decidable (_ ∧ _ ∧ _ ∧ _))

/-- A kept timer may be due later after its arming than the smallest delay and the retry delay,
and one that was armed again also later after the request; and a target leaves the pending wakes
before the call when its batch has others to call first. -/
theorem exists_late_timer : (∃ t, Run Step start keptTimer t ∧ Waits t "y::".toList 4900 200 ∧
      t.state.timer.any (fun timer =>
        max 200 defaultRetryMs < timer.dueAt - timer.armedAt) = true) ∧
    (∃ t, Run Step start rearmedTimer t ∧ Waits t "b::".toList 9000 2000 ∧
      t.state.timer.any (fun timer =>
        max 9000 timer.armedAt + max 2000 defaultRetryMs < timer.dueAt) = true) ∧
    ∃ t, Run Step start waitingBatch t ∧ .requested "y::".toList 2 0 250 ∈ t.events ∧
      "y::".toList ∉ t.state.pendingWakes.entries.map (·.targetKey) ∧
      t.events.any (·.callsFor "y::".toList) = false := by
  have hkept : (performAll (fun _ _ => true) start keptTimer).any (fun t =>
      decide (Waits t "y::".toList 4900 200) && t.state.timer.any (fun timer =>
        max 200 defaultRetryMs < timer.dueAt - timer.armedAt)) = true := by
    decide +kernel
  have hrearmed : (performAll (fun _ _ => true) start rearmedTimer).any (fun t =>
      decide (Waits t "b::".toList 9000 2000) && t.state.timer.any (fun timer =>
        max 9000 timer.armedAt + max 2000 defaultRetryMs < timer.dueAt)) = true := by
    decide +kernel
  have hwaiting : (performAll (fun _ _ => true) start waitingBatch).any (fun t =>
      (.requested "y::".toList 2 0 250 ∈ t.events : Bool) &&
        ("y::".toList ∉ t.state.pendingWakes.entries.map (·.targetKey) : Bool) &&
        !t.events.any (·.callsFor "y::".toList)) = true := by
    decide +kernel
  obtain ⟨t, hperform, ht⟩ := (Option.any_eq_true _ _).mp hkept
  obtain ⟨u, hperform', hu⟩ := (Option.any_eq_true _ _).mp hrearmed
  obtain ⟨v, hperform'', hv⟩ := (Option.any_eq_true _ _).mp hwaiting
  rw [and_eq_true, decide_eq_true_eq] at ht hu
  simp only [and_eq_true, decide_eq_true_eq, not_eq_true'] at hv
  exact ⟨⟨t, (run_of_performAll hperform).mono And.left, ht⟩,
    ⟨u, (run_of_performAll hperform').mono And.left, hu⟩,
    v, (run_of_performAll hperform'').mono And.left, hv.1.1, hv.1.2, hv.2⟩

end WakeTrace

end OpenClaw
