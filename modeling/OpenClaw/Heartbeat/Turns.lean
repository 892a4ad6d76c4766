import OpenClaw.Heartbeat.Answered

/-!
# One wake at a time, and only when asked

A batch is superseded when a handler is registered while it is in flight. The flag `running`
speaks of the batches that are not superseded, and there is one of these at most; a target
whose call returned `ran` is in none of their remaining wakes, nor pending, until it is
requested again.
-/

namespace OpenClaw

open Lts List Keyed

/-! ## What was seen since a batch began -/

/-- An event of this kind was seen after the batch took the pending wakes. -/
def sinceTaken (batch : ℕ) (p : WakeEvent → Bool) : List WakeEvent → Bool
  | [] => false
  | event :: events => (event = .taken batch && events.any p) || sinceTaken batch p events

variable {batch : ℕ} {p : WakeEvent → Bool} {events new : List WakeEvent} {key : Str}

theorem sinceTaken_append :
    sinceTaken batch p (events ++ new) = true ↔ sinceTaken batch p events = true ∨
      (.taken batch ∈ events ∧ ∃ event ∈ new, p event = true) ∨
      sinceTaken batch p new = true := by
  induction events with
  | nil => simp [sinceTaken]
  | cons first events ih =>
    simp only [cons_append, sinceTaken, Bool.or_eq_true, Bool.and_eq_true,
      decide_eq_true_eq, any_append, any_eq_true, ih, mem_cons]
    constructor
    · rintro (⟨rfl, hold | hnew⟩ | hrest)
      · exact .inl (.inl ⟨rfl, hold⟩)
      · exact .inr (.inl ⟨.inl rfl, hnew⟩)
      · rcases hrest with hold | ⟨hmem, hnew⟩ | hlast
        · exact .inl (.inr hold)
        · exact .inr (.inl ⟨.inr hmem, hnew⟩)
        · exact .inr (.inr hlast)
    · rintro ((⟨rfl, hold⟩ | hold) | ⟨hmem, hnew⟩ | hlast)
      · exact .inl ⟨rfl, .inl hold⟩
      · exact .inr (.inl hold)
      · rcases hmem with hfirst | hmem
        · exact .inl ⟨hfirst.symm, .inr hnew⟩
        · exact .inr (.inr (.inl ⟨hmem, hnew⟩))
      · exact .inr (.inr (.inr hlast))

theorem sinceTaken_mono (h : sinceTaken batch p events = true) :
    sinceTaken batch p (events ++ new) = true :=
  sinceTaken_append.mpr (.inl h)

theorem exists_of_sinceTaken (h : sinceTaken batch p events = true) :
    .taken batch ∈ events ∧ ∃ event ∈ events, p event = true := by
  induction events with
  | nil => cases h
  | cons first events ih =>
    rw [sinceTaken, Bool.or_eq_true, Bool.and_eq_true, decide_eq_true_eq, any_eq_true] at h
    rcases h with ⟨rfl, event, hmem, hp⟩ | hrest
    · exact ⟨mem_cons_self, event, mem_cons_of_mem _ hmem, hp⟩
    · obtain ⟨htaken, event, hmem, hp⟩ := ih hrest
      exact ⟨mem_cons_of_mem _ htaken, event, mem_cons_of_mem _ hmem, hp⟩

/-- Events of another kind change nothing. -/
theorem sinceTaken_append_of_quiet (hquiet : ∀ event ∈ new, p event = false) :
    sinceTaken batch p (events ++ new) = sinceTaken batch p events := by
  rw [Bool.eq_iff_iff, sinceTaken_append]
  constructor
  · rintro (hold | ⟨_, event, hmem, hp⟩ | hlast)
    · exact hold
    · rw [hquiet event hmem] at hp
      cases hp
    · obtain ⟨_, event, hmem, hp⟩ := exists_of_sinceTaken hlast
      rw [hquiet event hmem] at hp
      cases hp
  · exact .inl

variable (events)

/-- The target was requested again after the batch took its wake. -/
def RequestedSince (batch : ℕ) (key : Str) : Prop :=
  sinceTaken batch (·.requests key) events = true

/-- A handler was registered after the batch began. -/
def Superseded (batch : ℕ) : Prop :=
  sinceTaken batch (·.registers) events = true

/-- A call for the target returned `ran`, and the target was not requested again. -/
def Served (key : Str) : Prop :=
  ∃ batch, .returned batch key .ran ∈ events ∧ ¬ RequestedSince events batch key

variable {events}

instance (events : List WakeEvent) (batch : ℕ) (key : Str) :
    Decidable (RequestedSince events batch key) := inferInstanceAs (Decidable (_ = true))

instance (events : List WakeEvent) (batch : ℕ) : Decidable (Superseded events batch) :=
  inferInstanceAs (Decidable (_ = true))

/-- The handler is called again for a target that was run only after a new request. -/
def CalledOnlyIfRequested (events : List WakeEvent) : Prop :=
  ∀ before after batch batch' key priority,
    events = before ++ .called batch' key priority :: after →
      .returned batch key .ran ∈ before → RequestedSince before batch key

/-- A step that calls the handler for targets that are not served. -/
theorem CalledOnlyIfRequested.append (h : CalledOnlyIfRequested events)
    (hnew : ∀ before after batch' key priority, new = before ++ .called batch' key priority :: after →
      ¬ Served (events ++ before) key) : CalledOnlyIfRequested (events ++ new) := by
  intro before after batch batch' key priority heq hran
  rcases append_eq_append_iff.mp heq with ⟨middle, hbefore, hnewEq⟩ | ⟨middle, hevents, hrest⟩
  · by_contra hnot
    refine hnew middle after batch' key priority hnewEq ⟨batch, ?_, ?_⟩
    · rw [← hbefore]
      exact hran
    · rw [← hbefore]
      exact hnot
  · cases middle with
    | nil =>
      rw [append_nil] at hevents
      by_contra hnot
      refine hnew [] after batch' key priority hrest.symm ⟨batch, ?_, ?_⟩
      · rw [append_nil, hevents]
        exact hran
      · rw [append_nil, hevents]
        exact hnot
    | cons first middle =>
      rw [cons_append, List.cons.injEq] at hrest
      obtain ⟨rfl, _⟩ := hrest
      exact h before middle batch batch' key priority hevents hran

theorem Served.of_append (h : Served (events ++ new) key) :
    Served events key ∨ ∃ batch, .returned batch key .ran ∈ new ∧
      ¬ RequestedSince (events ++ new) batch key := by
  obtain ⟨batch, hmem, hnot⟩ := h
  rcases mem_append.mp hmem with hold | hnew
  · exact .inl ⟨batch, hold, fun hsince => hnot (sinceTaken_mono hsince)⟩
  · exact .inr ⟨batch, hnew, hnot⟩

/-! ## Targets of a batch -/

namespace WakeBatch

/-- The batch is past its call for the target. -/
def Did (batch : WakeBatch) (key : Str) : Prop :=
  key ∈ batch.done.map PendingWakeReason.targetKey

/-- The batch is at its call for the target, or not there yet. -/
def Will (batch : WakeBatch) (key : Str) : Prop :=
  key ∈ (batch.pendingWake :: batch.left).map PendingWakeReason.targetKey

theorem not_did_of_will {batch : WakeBatch} (h : batch.Will key) : ¬ batch.Did key := by
  intro hdid
  have hnodup := batch.nodup
  rw [map_append] at hnodup
  exact (nodup_append.mp hnodup).2.2 key hdid key h rfl

theorem will_pendingWake (batch : WakeBatch) : batch.Will batch.pendingWake.targetKey :=
  mem_cons_self

theorem mem_pendingBatch {batch : WakeBatch} {wake : PendingWakeReason}
    (h : wake ∈ batch.pendingBatch) : batch.Did wake.targetKey ∨ batch.Will wake.targetKey := by
  rcases mem_append.mp h with hdone | hrest
  · exact .inl (mem_map_of_mem hdone)
  · exact .inr (mem_map_of_mem hrest)

variable {batch next : WakeBatch} (hdone : next.done = batch.done ++ [batch.pendingWake])
  (hleft : batch.left = next.pendingWake :: next.left)

include hdone in
theorem did_next : next.Did key ↔ batch.Did key ∨ key = batch.pendingWake.targetKey := by
  unfold Did
  rw [hdone, map_append, mem_append]
  simp

include hleft in
theorem will_next (h : next.Will key) : batch.Will key ∧ key ≠ batch.pendingWake.targetKey := by
  have hmem : key ∈ batch.left.map PendingWakeReason.targetKey := by
    rw [hleft]
    exact h
  refine ⟨mem_cons_of_mem _ hmem, fun heq => ?_⟩
  have hnodup := batch.nodup
  rw [map_append] at hnodup
  have hrest := (nodup_append.mp hnodup).2.1
  rw [map_cons, nodup_cons] at hrest
  exact hrest.1 (heq ▸ hmem)

end WakeBatch

namespace WakeTrace

open HeartbeatWake

variable {t t' : WakeTrace} {s' : HeartbeatWake} {action : Action} {actions : List Action}

/-! ## What the flag speaks of -/

/-- One batch in flight is not superseded at most, and `running` is set for it; superseded ones
call other handlers than the registered one. -/
structure Flagged (t : WakeTrace) : Prop where
  numbered : Numbered t.state
  taken : ∀ batch, .taken batch ∈ t.events → batch < t.state.nextBatch
  begun : ∀ batch ∈ t.state.batches.entries, .taken batch.id ∈ t.events
  alone : ∀ batch ∈ t.state.batches.entries, ∀ batch' ∈ t.state.batches.entries,
    ¬ Superseded t.events batch.id → ¬ Superseded t.events batch'.id → batch.id = batch'.id
  running : ∀ batch ∈ t.state.batches.entries, ¬ Superseded t.events batch.id →
    t.state.running = true
  stale : ∀ batch ∈ t.state.batches.entries, Superseded t.events batch.id →
    t.state.handler ≠ some batch.active

theorem superseded_append (hnew : ∀ event ∈ new, event.registers = false) (batch : ℕ) :
    Superseded (events ++ new) batch ↔ Superseded events batch := by
  unfold Superseded
  rw [sinceTaken_append_of_quiet hnew]

/-- A step in which no batch begins and no handler is registered. -/
theorem Flagged.frame (h : Flagged t) (hnext : s'.nextBatch = t.state.nextBatch)
    (horigin : ∀ batch ∈ s'.batches.entries, ∃ old ∈ t.state.batches.entries,
      old.id = batch.id ∧ old.active = batch.active)
    (hrunning : ∀ batch ∈ s'.batches.entries, ¬ Superseded t.events batch.id → s'.running = true)
    (hhandler : s'.handler = t.state.handler ∨ s'.handler = none)
    (hnew : ∀ event ∈ new, event.registers = false ∧ ∀ batch, event ≠ .taken batch) :
    Flagged ⟨s', t.events ++ new⟩ where
  numbered batch hbatch := by
    obtain ⟨old, hold, hid, _⟩ := horigin batch hbatch
    have hlt := h.numbered old hold
    show batch.id < s'.nextBatch
    omega
  taken batch hmem := by
    rcases mem_append.mp hmem with hold | hlast
    · exact (h.taken batch hold).trans_eq hnext.symm
    · exact absurd rfl ((hnew _ hlast).2 batch)
  begun batch hbatch := by
    obtain ⟨old, hold, hid, _⟩ := horigin batch hbatch
    exact mem_append_left _ (hid ▸ h.begun old hold)
  alone batch hbatch batch' hbatch' hfresh hfresh' := by
    obtain ⟨old, hold, hid, _⟩ := horigin batch hbatch
    obtain ⟨old', hold', hid', _⟩ := horigin batch' hbatch'
    rw [superseded_append fun event hmem => (hnew event hmem).1, ← hid] at hfresh
    rw [superseded_append fun event hmem => (hnew event hmem).1, ← hid'] at hfresh'
    rw [← hid, ← hid']
    exact h.alone old hold old' hold' hfresh hfresh'
  running batch hbatch hfresh := by
    rw [superseded_append fun event hmem => (hnew event hmem).1] at hfresh
    exact hrunning batch hbatch hfresh
  stale batch hbatch hsuperseded := by
    obtain ⟨old, hold, hid, hactive⟩ := horigin batch hbatch
    rw [superseded_append fun event hmem => (hnew event hmem).1, ← hid] at hsuperseded
    have hstale := h.stale old hold hsuperseded
    rw [← hactive]
    rcases hhandler with hsame | hnone
    · show s'.handler ≠ some old.active
      rw [hsame]
      exact hstale
    · show s'.handler ≠ some old.active
      rw [hnone]
      exact fun heq => by cases heq

theorem Flagged.keep (h : Flagged t) (hbatches : s'.batches = t.state.batches)
    (hnext : s'.nextBatch = t.state.nextBatch) (hrunning : s'.running = t.state.running)
    (hhandler : s'.handler = t.state.handler ∨ s'.handler = none)
    (hnew : ∀ event ∈ new, event.registers = false ∧ ∀ batch, event ≠ .taken batch) :
    Flagged ⟨s', t.events ++ new⟩ := by
  refine h.frame hnext ?_ ?_ hhandler hnew
  · rw [hbatches]
    exact fun batch hbatch => ⟨batch, hbatch, rfl, rfl⟩
  · rw [hbatches, hrunning]
    exact h.running

/-- The steps that the statement below is about. A handler is registered when no batch in flight
calls it; a superseded batch goes on only to end, with a result that asks for no retry and while
all batches in flight are superseded; and a call throws only in a batch that is not superseded
and has run no target that was not requested again. -/
def Careful (t : WakeTrace) : Action → Prop
  | .setHeartbeatWakeHandler (some handler) =>
    ∀ batch ∈ t.state.batches.entries, batch.active ≠ handler
  | .returns id res => Superseded t.events id → res.isRetryable = false ∧
    ∀ batch ∈ t.state.batches.entries, Superseded t.events batch.id ∧
      (batch.id = id → batch.left = [])
  | .throws id => ¬ Superseded t.events id ∧ ∀ batch ∈ t.state.batches.entries, batch.id = id →
    ∀ wake ∈ batch.done, .returned id wake.targetKey .ran ∈ t.events →
      RequestedSince t.events id wake.targetKey
  | _ => True

instance : (t : WakeTrace) → (action : Action) → Decidable (Careful t action)
  | t, .setHeartbeatWakeHandler (some handler) =>
    inferInstanceAs (Decidable (∀ batch ∈ t.state.batches.entries, batch.active ≠ handler))
  | t, .returns id res => inferInstanceAs (Decidable (Superseded t.events id →
      res.isRetryable = false ∧ ∀ batch ∈ t.state.batches.entries,
        Superseded t.events batch.id ∧ (batch.id = id → batch.left = [])))
  | t, .throws id => inferInstanceAs (Decidable (¬ Superseded t.events id ∧
      ∀ batch ∈ t.state.batches.entries, batch.id = id → ∀ wake ∈ batch.done,
        .returned id wake.targetKey .ran ∈ t.events →
          RequestedSince t.events id wake.targetKey))
  | _, .pass _ => isTrue trivial
  | _, .requestHeartbeat _ => isTrue trivial
  | _, .setHeartbeatWakeHandler none => isTrue trivial
  | _, .dispose _ _ => isTrue trivial
  | _, .fire => isTrue trivial

variable (s : HeartbeatWake) (inFlight : WakeBatch)

theorem quiet_returns (res : HeartbeatRunResult) :
    ∀ event ∈ (s.returns inFlight res).2, event.registers = false ∧
      ∀ batch, event ≠ .taken batch := by
  intro event hmem
  rw [returns_events] at hmem
  rcases mem_cons.mp hmem with rfl | hrest
  · exact ⟨rfl, fun batch hne => by cases hne⟩
  rcases mem_append.mp hrest with hrequeued | hcalled
  · split_ifs at hrequeued
    · rw [mem_singleton.mp hrequeued]
      exact ⟨rfl, fun batch hne => by cases hne⟩
    · cases hrequeued
  · obtain ⟨wake, _, rfl⟩ := mem_map.mp hcalled
    exact ⟨rfl, fun batch hne => by cases hne⟩

theorem quiet_throws : ∀ event ∈ (s.throws inFlight).2, event.registers = false ∧
      ∀ batch, event ≠ .taken batch := by
  intro event hmem
  rcases mem_cons.mp hmem with rfl | hrest
  · exact ⟨rfl, fun batch hne => by cases hne⟩
  · obtain ⟨wake, _, rfl⟩ := mem_map.mp hrest
    exact ⟨rfl, fun batch hne => by cases hne⟩

theorem Flagged.setHeartbeatWakeHandler (h : Flagged t) (handler : Option ℕ)
    (hcareful : Careful t (.setHeartbeatWakeHandler handler)) :
    Flagged ⟨(t.state.setHeartbeatWakeHandler handler).1,
      t.events ++ (t.state.setHeartbeatWakeHandler handler).2⟩ := by
  obtain ⟨_, hbatches, hnext⟩ := setHeartbeatWakeHandler_eq t.state handler
  cases handler with
  | none => exact h.keep hbatches hnext rfl (.inr rfl) fun _ hmem => by cases hmem
  | some handler =>
    have hhandler := setHeartbeatWakeHandler_handler t.state (some handler)
    have hsuperseded : ∀ batch ∈ t.state.batches.entries,
        Superseded (t.events ++ [.registered handler]) batch.id := fun batch hbatch =>
      sinceTaken_append.mpr (.inr (.inl ⟨h.begun batch hbatch, _, mem_singleton_self _, rfl⟩))
    constructor
    · unfold Numbered
      dsimp only
      rw [hbatches, hnext]
      exact h.numbered
    · intro batch hmem
      dsimp only
      rw [hnext]
      rcases mem_append.mp hmem with hold | hlast
      · exact h.taken batch hold
      · cases mem_singleton.mp hlast
    · dsimp only
      rw [hbatches]
      exact fun batch hbatch => mem_append_left _ (h.begun batch hbatch)
    · dsimp only
      rw [hbatches]
      exact fun batch hbatch _ _ hfresh => absurd (hsuperseded batch hbatch) hfresh
    · dsimp only
      rw [hbatches]
      exact fun batch hbatch hfresh => absurd (hsuperseded batch hbatch) hfresh
    · dsimp only
      rw [hbatches, hhandler]
      exact fun batch hbatch _ heq => hcareful batch hbatch (Option.some.inj heq).symm

/-- The number of the next batch was not seen yet. -/
theorem Flagged.notMem (h : Flagged t) : .taken t.state.nextBatch ∉ t.events := by
  intro hmem
  have hlt := h.taken _ hmem
  omega

/-- A batch takes the pending wakes while all batches in flight are superseded. -/
theorem Flagged.takes (h : Flagged t) (hidle : t.state.running = false)
    (hhandler : s'.handler = t.state.handler) (hnext : s'.nextBatch = t.state.nextBatch + 1)
    (hbatches : ∀ batch ∈ s'.batches.entries, batch ∈ t.state.batches.entries ∨
      batch.id = t.state.nextBatch ∧ s'.running = true)
    (htaken : .taken t.state.nextBatch ∈ new) (hnew : ∀ event ∈ new, event.registers = false ∧
      ∀ batch, event = .taken batch → batch = t.state.nextBatch) :
    Flagged ⟨s', t.events ++ new⟩ := by
  have hquiet : ∀ batch, Superseded (t.events ++ new) batch ↔ Superseded t.events batch :=
    superseded_append fun event hmem => (hnew event hmem).1
  have hold : ∀ batch ∈ t.state.batches.entries, Superseded t.events batch.id := by
    intro batch hbatch
    by_contra hfresh
    rw [h.running batch hbatch hfresh] at hidle
    cases hidle
  constructor
  · intro batch hbatch
    show batch.id < s'.nextBatch
    rcases hbatches batch hbatch with hmem | ⟨hid, _⟩
    · have hlt := h.numbered batch hmem
      omega
    · omega
  · intro batch hmem
    show batch < s'.nextBatch
    rcases mem_append.mp hmem with hbefore | hlast
    · have hlt := h.taken batch hbefore
      omega
    · have heq := (hnew _ hlast).2 batch rfl
      omega
  · intro batch hbatch
    rcases hbatches batch hbatch with hmem | ⟨hid, _⟩
    · exact mem_append_left _ (h.begun batch hmem)
    · rw [hid]
      exact mem_append_right _ htaken
  · intro batch hbatch batch' hbatch' hfresh hfresh'
    rw [hquiet] at hfresh hfresh'
    rcases hbatches batch hbatch with hmem | ⟨hid, _⟩
    · exact absurd (hold batch hmem) hfresh
    · rcases hbatches batch' hbatch' with hmem' | ⟨hid', _⟩
      · exact absurd (hold batch' hmem') hfresh'
      · exact hid.trans hid'.symm
  · intro batch hbatch hfresh
    rw [hquiet] at hfresh
    rcases hbatches batch hbatch with hmem | ⟨_, hrunning⟩
    · exact absurd (hold batch hmem) hfresh
    · exact hrunning
  · intro batch hbatch hsuperseded
    rw [hquiet] at hsuperseded
    show s'.handler ≠ some batch.active
    rw [hhandler]
    rcases hbatches batch hbatch with hmem | ⟨hid, _⟩
    · exact h.stale batch hmem hsuperseded
    · rw [hid] at hsuperseded
      exact absurd (exists_of_sinceTaken hsuperseded).1 h.notMem

theorem Flagged.fire (h : Flagged t) (timer : WakeTimer) :
    Flagged ⟨(t.state.fire timer).1, t.events ++ (t.state.fire timer).2⟩ := by
  rcases fire_cases t.state timer with ⟨_, heq⟩ | ⟨_, _, heq⟩ | ⟨hidle, _, heq⟩ |
    ⟨hidle, inFlight, hid, hactive, _, _, heq⟩
  · rw [heq]
    exact h.keep rfl rfl rfl (.inl rfl) fun _ hmem => by cases hmem
  · obtain ⟨_, hschedule⟩ := schedule_eq { t.state with timer := none, scheduled := true }
      (.finite timer.delay) timer.kind
    rw [heq]
    dsimp only
    rw [hschedule]
    refine h.keep rfl rfl rfl (.inl rfl) fun event hmem => ?_
    rw [mem_singleton.mp hmem]
    exact ⟨rfl, fun batch hne => by cases hne⟩
  · rw [heq]
    refine h.takes hidle rfl rfl (fun _ hbatch => .inl hbatch) mem_cons_self fun event hmem => ?_
    rw [mem_singleton.mp hmem]
    exact ⟨rfl, fun batch hid => (WakeEvent.taken.inj hid).symm⟩
  · rw [heq]
    refine h.takes hidle rfl rfl (fun batch hbatch => ?_) mem_cons_self fun event hmem => ?_
    · rcases mem_set.mp hbatch with rfl | ⟨hmem, _⟩
      · exact .inr ⟨hid, rfl⟩
      · exact .inl hmem
    · rcases mem_cons.mp hmem with rfl | hlast
      · exact ⟨rfl, fun batch hid => (WakeEvent.taken.inj hid).symm⟩
      · rw [mem_singleton.mp hlast]
        exact ⟨rfl, fun batch hne => by cases hne⟩

/-- When a batch ends, all that stay in flight are superseded: the others of a batch that is not,
and by assumption those of one that is. -/
theorem Flagged.superseded_of_ends (h : Flagged t) {ended batch : WakeBatch}
    (hended : ended ∈ t.state.batches.entries)
    (hstale : Superseded t.events ended.id → ∀ other ∈ t.state.batches.entries,
      Superseded t.events other.id)
    (hbatch : batch ∈ (t.state.batches.erase ended.id).entries) : Superseded t.events batch.id := by
  have hmem := mem_filter.mp hbatch
  have hne : batch.id ≠ ended.id := by simpa using hmem.2
  by_cases hsuperseded : Superseded t.events ended.id
  · exact hstale hsuperseded batch hmem.1
  · by_contra hfresh
    exact hne (h.alone batch hmem.1 ended hended hfresh hsuperseded)

variable {inFlight : WakeBatch} {res : HeartbeatRunResult} {s : HeartbeatWake}

/-- The batch of a call goes on, or it ends and clears the flag. -/
theorem Flagged.returns (h : Flagged t) (hbatch : inFlight ∈ t.state.batches.entries)
    (hcareful : Careful t (.returns inFlight.id res)) :
    Flagged ⟨(t.state.returns inFlight res).1, t.events ++ (t.state.returns inFlight res).2⟩ := by
  obtain ⟨hhandler, hnext, hcases⟩ := returns_cases t.state inFlight res
  refine h.frame hnext ?_ ?_ (.inl hhandler) (quiet_returns _ _ _)
  · intro batch hmem
    rcases hcases with ⟨next, hid, hactive, _, _, hbatches, _⟩ | ⟨_, hbatches, _⟩
    · rw [hbatches] at hmem
      rcases mem_set.mp hmem with rfl | ⟨hold, _⟩
      · exact ⟨inFlight, hbatch, hid.symm, hactive.symm⟩
      · exact ⟨batch, hold, rfl, rfl⟩
    · rw [hbatches] at hmem
      exact ⟨batch, mem_of_mem_filter hmem, rfl, rfl⟩
  · intro batch hmem hfresh
    rcases hcases with ⟨next, hid, _, _, _, hbatches, hrunning⟩ | ⟨_, hbatches, _⟩
    · rw [hrunning]
      rw [hbatches] at hmem
      rcases mem_set.mp hmem with rfl | ⟨hold, _⟩
      · exact h.running inFlight hbatch (hid ▸ hfresh)
      · exact h.running batch hold hfresh
    · -- whichever batch ends, no other one is left that the flag speaks of
      rw [hbatches] at hmem
      exact absurd (h.superseded_of_ends hbatch (fun hsuperseded other hother =>
        ((hcareful hsuperseded).2 other hother).1) hmem) hfresh

theorem Flagged.throws (h : Flagged t)
    (hbatch : inFlight ∈ t.state.batches.entries) (hcareful : Careful t (.throws inFlight.id)) :
    Flagged ⟨(t.state.throws inFlight).1, t.events ++ (t.state.throws inFlight).2⟩ := by
  obtain ⟨hhandler, hnext, hbatches, _⟩ := throws_eq t.state inFlight
  refine h.frame hnext ?_ ?_ (.inl hhandler) (quiet_throws _ _)
  · intro batch hmem
    rw [hbatches] at hmem
    exact ⟨batch, mem_of_mem_filter hmem, rfl, rfl⟩
  · intro batch hmem hfresh
    rw [hbatches] at hmem
    exact absurd (h.superseded_of_ends hbatch (fun hsuperseded =>
      absurd hsuperseded hcareful.1) hmem) hfresh

theorem Flagged.step (h : Flagged t) (hstep : t.Step action t') (hcareful : Careful t action) :
    Flagged t' := by
  obtain ⟨next, hperform, rfl⟩ := Option.map_eq_some_iff.mp hstep
  cases action with
  | pass ms =>
    have heq := Option.some.inj hperform
    rw [← heq]
    exact h.keep rfl rfl rfl (.inl rfl) fun _ hmem => by cases hmem
  | requestHeartbeat opts =>
    have heq := Option.some.inj hperform
    obtain ⟨_, _, hrequest⟩ := requestHeartbeat_eq t.state opts
    rw [← heq]
    refine h.keep ?_ ?_ ?_ (.inl ?_) fun event hmem => ?_
    · rw [hrequest]
    · rw [hrequest]
    · rw [hrequest]
    · rw [hrequest]
    · rw [mem_singleton.mp hmem]
      exact ⟨rfl, fun batch hne => by cases hne⟩
  | setHeartbeatWakeHandler handler =>
    have heq := Option.some.inj hperform
    rw [← heq]
    exact h.setHeartbeatWakeHandler handler hcareful
  | dispose generation handler =>
    have heq := Option.some.inj hperform
    obtain ⟨_, hbatches, hnext⟩ := dispose_eq t.state generation handler
    obtain ⟨hrunning, hhandler⟩ := dispose_handler t.state generation handler
    rw [← heq]
    exact h.keep hbatches hnext hrunning hhandler fun _ hmem => by cases hmem
  | fire =>
    obtain ⟨timer, _, heq⟩ := Option.map_eq_some_iff.mp hperform
    rw [← heq]
    exact h.fire timer
  | returns id res =>
    obtain ⟨inFlight, hfind, heq⟩ := Option.map_eq_some_iff.mp hperform
    rw [← key_of_find hfind] at hcareful
    rw [← heq]
    exact h.returns (mem_of_find hfind) hcareful
  | throws id =>
    obtain ⟨inFlight, hfind, heq⟩ := Option.map_eq_some_iff.mp hperform
    rw [← key_of_find hfind] at hcareful
    rw [← heq]
    exact h.throws (mem_of_find hfind) hcareful

/-! ## What a served target is not in -/

/-- Whatever is pending or in a later batch was requested since a batch began, or given back by
it; and a served target is not pending, nor ahead in a batch that is not superseded. -/
structure Paired (t : WakeTrace) : Prop where
  ranBegun : ∀ id key, .returned id key .ran ∈ t.events → .taken id ∈ t.events
  pendingSince : ∀ batch ∈ t.state.batches.entries, ∀ key, t.state.Pends key 0 →
    RequestedSince t.events batch.id key ∨ batch.Did key
  inFlightSince : ∀ batch ∈ t.state.batches.entries, ∀ batch' ∈ t.state.batches.entries,
    Superseded t.events batch.id → ¬ Superseded t.events batch'.id →
      ∀ key, batch'.Did key ∨ batch'.Will key →
        RequestedSince t.events batch.id key ∨ batch.Did key
  servedPending : ∀ key, Served t.events key → ¬ t.state.Pends key 0
  servedAhead : ∀ batch ∈ t.state.batches.entries, ¬ Superseded t.events batch.id →
    ∀ key, Served t.events key → ¬ batch.Will key
  servedDone : ∀ batch ∈ t.state.batches.entries, ¬ Superseded t.events batch.id →
    ∀ key, batch.Did key → ∀ id, .returned id key .ran ∈ t.events →
      RequestedSince t.events id key ∨ id = batch.id
  only : CalledOnlyIfRequested t.events

/-- A step in which no batch begins. -/
theorem Paired.frame (h : Paired t)
    (horigin : ∀ batch ∈ s'.batches.entries, ∃ old ∈ t.state.batches.entries,
      old.id = batch.id ∧ (∀ key, old.Did key → batch.Did key) ∧
        (∀ key, batch.Will key → old.Will key) ∧
        ∀ key, batch.Did key → old.Did key ∨ old.Will key ∧
          (¬ Superseded t.events batch.id → ¬ Served t.events key))
    (hsuperseded : ∀ batch ∈ s'.batches.entries, ∀ batch' ∈ s'.batches.entries,
      Superseded (t.events ++ new) batch.id → ¬ Superseded (t.events ++ new) batch'.id →
        Superseded t.events batch.id)
    (hpends : ∀ key, s'.Pends key 0 → t.state.Pends key 0 ∨
      ¬ Served (t.events ++ new) key ∧ ∀ batch ∈ s'.batches.entries,
        RequestedSince (t.events ++ new) batch.id key ∨ batch.Did key)
    (hran : ∀ id key, .returned id key .ran ∈ new → .taken id ∈ t.events ∧
      (¬ RequestedSince (t.events ++ new) id key → ¬ s'.Pends key 0) ∧
      ∀ batch ∈ s'.batches.entries, ¬ Superseded t.events batch.id →
        ¬ batch.Will key ∧ (batch.Did key → id = batch.id))
    (hcalled : ∀ before after id key priority, new = before ++ .called id key priority :: after →
      ¬ Served (t.events ++ before) key) : Paired ⟨s', t.events ++ new⟩ where
  ranBegun id key hmem := by
    rcases mem_append.mp hmem with hold | hlast
    · exact mem_append_left _ (h.ranBegun id key hold)
    · exact mem_append_left _ (hran id key hlast).1
  pendingSince batch hbatch key hkey := by
    rcases hpends key hkey with hbefore | ⟨_, hall⟩
    · obtain ⟨old, hold, hid, hdid, _⟩ := horigin batch hbatch
      rw [← hid]
      exact (h.pendingSince old hold key hbefore).imp sinceTaken_mono (hdid key)
    · exact hall batch hbatch
  inFlightSince batch hbatch batch' hbatch' hstale hfresh key hkey := by
    have hstale' := hsuperseded batch hbatch batch' hbatch' hstale hfresh
    have hfresh' : ¬ Superseded t.events batch'.id := fun hsup => hfresh (sinceTaken_mono hsup)
    obtain ⟨old, hold, hid, hdid, _⟩ := horigin batch hbatch
    obtain ⟨old', hold', hid', _, hwill', hdid'⟩ := horigin batch' hbatch'
    have hkey' : old'.Did key ∨ old'.Will key := by
      rcases hkey with hdone | hahead
      · exact (hdid' key hdone).imp_right And.left
      · exact .inr (hwill' key hahead)
    rw [← hid] at hstale' ⊢
    rw [← hid'] at hfresh'
    exact (h.inFlightSince old hold old' hold' hstale' hfresh' key hkey').imp
      sinceTaken_mono (hdid key)
  servedPending key hserved hkey := by
    rcases hpends key hkey with hbefore | ⟨hnot, _⟩
    · rcases hserved.of_append with hold | ⟨id, hlast, hnot⟩
      · exact h.servedPending key hold hbefore
      · exact (hran id key hlast).2.1 hnot hkey
    · exact hnot hserved
  servedAhead batch hbatch hfresh key hserved hahead := by
    have hfresh' : ¬ Superseded t.events batch.id := fun hsup => hfresh (sinceTaken_mono hsup)
    rcases hserved.of_append with hold | ⟨id, hlast, _⟩
    · obtain ⟨old, hmem, hid, _, hwill, _⟩ := horigin batch hbatch
      exact h.servedAhead old hmem (hid ▸ hfresh') key hold (hwill key hahead)
    · exact ((hran id key hlast).2.2 batch hbatch hfresh').1 hahead
  servedDone batch hbatch hfresh key hdone id hmem := by
    have hfresh' : ¬ Superseded t.events batch.id := fun hsup => hfresh (sinceTaken_mono hsup)
    rcases mem_append.mp hmem with hold | hlast
    · obtain ⟨old, holdmem, hid, _, _, hdid⟩ := horigin batch hbatch
      rcases hdid key hdone with hbefore | ⟨_, hnot⟩
      · rw [← hid]
        exact (h.servedDone old holdmem (hid ▸ hfresh') key hbefore id hold).imp_left
          sinceTaken_mono
      · refine .inl (sinceTaken_mono ?_)
        by_contra hsince
        exact hnot hfresh' ⟨id, hold, hsince⟩
    · exact .inr (((hran id key hlast).2.2 batch hbatch hfresh').2 hdone)
  only := h.only.append hcalled

/-- A step that leaves the batches alone, takes no wake back and calls no handler. -/
theorem Paired.keep (h : Paired t) (hbatches : s'.batches = t.state.batches)
    (hsuperseded : ∀ batch ∈ s'.batches.entries, ∀ batch' ∈ s'.batches.entries,
      Superseded (t.events ++ new) batch.id → ¬ Superseded (t.events ++ new) batch'.id →
        Superseded t.events batch.id)
    (hpends : ∀ key, s'.Pends key 0 → t.state.Pends key 0 ∨
      ¬ Served (t.events ++ new) key ∧ ∀ batch ∈ s'.batches.entries,
        RequestedSince (t.events ++ new) batch.id key ∨ batch.Did key)
    (hnew : ∀ event ∈ new, (∀ id key res, event ≠ .returned id key res) ∧
      ∀ id key priority, event ≠ .called id key priority) : Paired ⟨s', t.events ++ new⟩ := by
  refine h.frame ?_ hsuperseded hpends ?_ ?_
  · rw [hbatches]
    exact fun batch hbatch => ⟨batch, hbatch, rfl, fun _ => id, fun _ => id, fun _ => .inl⟩
  · exact fun id key hmem => absurd rfl ((hnew _ hmem).1 id key .ran)
  · intro before after id key priority heq
    have hmem : .called id key priority ∈ new := by
      rw [heq]
      exact mem_append_right _ mem_cons_self
    exact absurd rfl ((hnew _ hmem).2 id key priority)

theorem superseded_of_quiet (hnew : ∀ event ∈ new, event.registers = false) :
    ∀ batch ∈ s'.batches.entries, ∀ batch' ∈ s'.batches.entries,
      Superseded (events ++ new) batch.id → ¬ Superseded (events ++ new) batch'.id →
        Superseded events batch.id :=
  fun batch _ _ _ hstale _ => (superseded_append hnew batch.id).mp hstale

section

variable (h : Paired t) (hflagged : Flagged t)
include h hflagged

theorem Paired.requestHeartbeat (opts : HeartbeatRequest) :
    Paired ⟨(t.state.requestHeartbeat opts).1,
      t.events ++ (t.state.requestHeartbeat opts).2⟩ := by
  obtain ⟨_, _, hrequest⟩ := requestHeartbeat_eq t.state opts
  have hbatches : (t.state.requestHeartbeat opts).1.batches = t.state.batches := by
    rw [hrequest]
  have hsince : ∀ id, .taken id ∈ t.events →
      RequestedSince (t.events ++ (t.state.requestHeartbeat opts).2) id
        (getWakeTargetKey (normalizeWakeTarget opts.agentId)
          (normalizeWakeTarget opts.sessionKey)) := fun id htaken =>
    sinceTaken_append.mpr (.inr (.inl ⟨htaken, _, mem_singleton_self _, decide_eq_true rfl⟩))
  refine h.keep hbatches (superseded_of_quiet fun event hmem => ?_) (fun key hkey => ?_)
    fun event hmem => ?_
  · rw [mem_singleton.mp hmem]
    rfl
  · refine (pends_of_requestHeartbeat hkey).imp_right fun hnamed => ?_
    rw [hnamed, hbatches]
    refine ⟨fun ⟨id, hran, hnot⟩ => ?_, fun batch hbatch =>
      .inl (hsince batch.id (hflagged.begun batch hbatch))⟩
    rcases mem_append.mp hran with hold | hlast
    · exact hnot (hsince id (h.ranBegun id _ hold))
    · cases mem_singleton.mp hlast
  · rw [mem_singleton.mp hmem]
    exact ⟨fun _ _ _ hne => (by cases hne), fun _ _ _ hne => (by cases hne)⟩

theorem Paired.setHeartbeatWakeHandler (handler : Option ℕ) :
    Paired ⟨(t.state.setHeartbeatWakeHandler handler).1,
      t.events ++ (t.state.setHeartbeatWakeHandler handler).2⟩ := by
  obtain ⟨hpending, hbatches, _⟩ := setHeartbeatWakeHandler_eq t.state handler
  refine h.keep hbatches ?_ (fun key hkey => .inl ((pends_congr hpending).mp hkey)) ?_
  · cases handler with
    | none => exact superseded_of_quiet fun _ hmem => by cases hmem
    | some handler =>
      intro batch _ batch' hbatch' _ hfresh
      rw [hbatches] at hbatch'
      refine absurd (sinceTaken_append.mpr (.inr (.inl ⟨hflagged.begun batch' hbatch', ?_⟩))) hfresh
      exact ⟨_, mem_singleton_self _, rfl⟩
  · intro event hmem
    cases handler with
    | none => cases hmem
    | some handler =>
      rw [mem_singleton.mp hmem]
      exact ⟨fun _ _ _ hne => (by cases hne), fun _ _ _ hne => (by cases hne)⟩

/-- The wakes that a batch takes are served targets no more than the pending ones were. -/
theorem Paired.takes (hidle : t.state.running = false) (hid : inFlight.id = t.state.nextBatch)
    (hdone : inFlight.done = [])
    (hpending : t.state.pendingWakes.entries = inFlight.pendingWake :: inFlight.left)
    (hnone : s'.pendingWakes.entries = [])
    (hbatches : s'.batches = t.state.batches.set inFlight) (priority : ℕ) :
    Paired ⟨s', t.events ++ [.taken t.state.nextBatch,
      .called t.state.nextBatch inFlight.pendingWake.targetKey priority]⟩ := by
  set new : List WakeEvent := [.taken t.state.nextBatch,
    .called t.state.nextBatch inFlight.pendingWake.targetKey priority] with hnew
  have hquiet : ∀ event ∈ new, event.registers = false := by
    intro event hmem
    rcases mem_cons.mp hmem with rfl | hlast
    · rfl
    · rw [mem_singleton.mp hlast]
      rfl
  have hnotRan : ∀ id key, WakeEvent.returned id key .ran ∉ new := by
    intro id key hmem
    rcases mem_cons.mp hmem with heq | hlast
    · cases heq
    · cases mem_singleton.mp hlast
  have hserved : ∀ key, Served (t.events ++ new) key → Served t.events key := by
    intro key hafter
    rcases hafter.of_append with hold | ⟨id, hmem, _⟩
    · exact hold
    · exact absurd hmem (hnotRan id key)
  have hwill : ∀ key, inFlight.Will key → t.state.Pends key 0 := by
    intro key hkey
    obtain ⟨wake, hmem, hwake⟩ := mem_map.mp hkey
    exact ⟨wake, hpending ▸ hmem, hwake, Nat.zero_le _⟩
  have hdid : ∀ key, ¬ inFlight.Did key := by
    intro key hkey
    unfold WakeBatch.Did at hkey
    rw [hdone] at hkey
    cases hkey
  have hempty : ∀ key, ¬ s'.Pends key 0 := by
    rintro key ⟨wake, hmem, _⟩
    rw [hnone] at hmem
    cases hmem
  have hstale : ∀ batch ∈ t.state.batches.entries, Superseded t.events batch.id := by
    intro batch hbatch
    by_contra hfresh
    rw [hflagged.running batch hbatch hfresh] at hidle
    cases hidle
  have hcases : ∀ batch ∈ s'.batches.entries,
      batch = inFlight ∨ batch ∈ t.state.batches.entries := by
    intro batch hbatch
    rw [hbatches] at hbatch
    exact (mem_set.mp hbatch).imp_right And.left
  have hfreshNew : ¬ Superseded (t.events ++ new) inFlight.id := by
    rw [superseded_append hquiet, hid]
    exact fun hsup => hflagged.notMem (exists_of_sinceTaken hsup).1
  constructor
  · intro id key hmem
    rcases mem_append.mp hmem with hold | hlast
    · exact mem_append_left _ (h.ranBegun id key hold)
    · exact absurd hlast (hnotRan id key)
  · exact fun batch _ key hkey => absurd hkey (hempty key)
  · intro batch hbatch batch' hbatch' hsuperseded hfresh key hkey
    rw [superseded_append hquiet] at hsuperseded hfresh
    have hold : batch ∈ t.state.batches.entries := by
      rcases hcases batch hbatch with rfl | hold
      · exact absurd ((superseded_append hquiet _).mpr hsuperseded) hfreshNew
      · exact hold
    have hlast : batch' = inFlight := by
      rcases hcases batch' hbatch' with heq | hold'
      · exact heq
      · exact absurd (hstale batch' hold') hfresh
    rw [hlast] at hkey
    have hkey' : inFlight.Will key := hkey.resolve_left (hdid key)
    exact (h.pendingSince batch hold key (hwill key hkey')).imp_left sinceTaken_mono
  · exact fun key _ => hempty key
  · intro batch hbatch hfresh key hkey
    rw [superseded_append hquiet] at hfresh
    rcases hcases batch hbatch with rfl | hold
    · exact fun hahead => h.servedPending key (hserved key hkey) (hwill key hahead)
    · exact absurd (hstale batch hold) hfresh
  · intro batch hbatch hfresh key hkey
    rw [superseded_append hquiet] at hfresh
    rcases hcases batch hbatch with rfl | hold
    · exact absurd hkey (hdid key)
    · exact absurd (hstale batch hold) hfresh
  · refine h.only.append fun before after id key priority' heq hkey => ?_
    have hmem : .called id key priority' ∈ new := by
      rw [heq]
      exact mem_append_right _ mem_cons_self
    rcases mem_cons.mp hmem with hfirst | hlast
    · cases hfirst
    · obtain ⟨_, rfl, _⟩ := WakeEvent.called.inj (mem_singleton.mp hlast)
      refine h.servedPending _ ?_ (hwill _ inFlight.will_pendingWake)
      rcases hkey.of_append with hold | ⟨id', hran, _⟩
      · exact hold
      · refine absurd ?_ (hnotRan id' inFlight.pendingWake.targetKey)
        rw [heq]
        exact mem_append_left _ hran

theorem Paired.fire (timer : WakeTimer) :
    Paired ⟨(t.state.fire timer).1, t.events ++ (t.state.fire timer).2⟩ := by
  rcases fire_cases t.state timer with ⟨_, heq⟩ | ⟨_, _, heq⟩ | ⟨_, hpending, heq⟩ |
    ⟨hidle, inFlight, hid, _, hdone, hpending, heq⟩
  · rw [heq]
    exact h.keep rfl (superseded_of_quiet fun _ hmem => (by cases hmem)) (fun _ => .inl)
      fun _ hmem => by cases hmem
  · obtain ⟨_, hschedule⟩ := schedule_eq { t.state with timer := none, scheduled := true }
      (.finite timer.delay) timer.kind
    rw [heq]
    dsimp only
    rw [hschedule]
    refine h.keep rfl (superseded_of_quiet fun event hmem => ?_) (fun _ => .inl)
      fun event hmem => ?_
    · rw [mem_singleton.mp hmem]
      rfl
    · rw [mem_singleton.mp hmem]
      exact ⟨fun _ _ _ hne => (by cases hne), fun _ _ _ hne => (by cases hne)⟩
  · rw [heq]
    refine h.keep rfl (superseded_of_quiet fun event hmem => ?_) (fun key hkey => ?_)
      fun event hmem => ?_
    · rw [mem_singleton.mp hmem]
      rfl
    · obtain ⟨_, hmem, _⟩ := hkey
      cases hmem
    · rw [mem_singleton.mp hmem]
      exact ⟨fun _ _ _ hne => (by cases hne), fun _ _ _ hne => (by cases hne)⟩
  · rw [heq]
    exact h.takes hflagged hidle hid hdone hpending rfl rfl _

end

/-- What a result makes a run target: the target of its own call. -/
theorem returned_of_mem_returns {res' : HeartbeatRunResult} {id : ℕ}
    (h : .returned id key res' ∈ (s.returns inFlight res).2) :
    id = inFlight.id ∧ key = inFlight.pendingWake.targetKey ∧ res' = res := by
  rw [returns_events] at h
  rcases mem_cons.mp h with heq | hrest
  · obtain ⟨rfl, rfl, rfl⟩ := WakeEvent.returned.inj heq
    exact ⟨rfl, rfl, rfl⟩
  rcases mem_append.mp hrest with hrequeued | hcalled
  · split_ifs at hrequeued
    · cases mem_singleton.mp hrequeued
    · cases hrequeued
  · obtain ⟨_, _, heq⟩ := mem_map.mp hcalled
    cases heq

theorem called_of_mem_returns {id priority : ℕ}
    (h : .called id key priority ∈ (s.returns inFlight res).2) :
    ∃ wake ∈ inFlight.left, wake.targetKey = key := by
  rw [returns_events] at h
  rcases mem_cons.mp h with heq | hrest
  · cases heq
  rcases mem_append.mp hrest with hrequeued | hcalled
  · split_ifs at hrequeued
    · cases mem_singleton.mp hrequeued
    · cases hrequeued
  · obtain ⟨wake, hwake, heq⟩ := mem_map.mp hcalled
    obtain ⟨_, rfl, _⟩ := WakeEvent.called.inj heq
    exact ⟨wake, mem_of_mem_head? (by simpa using hwake), rfl⟩

/-- Behind a result the batches in flight are the old ones, the one of the call a wake further
on or gone. -/
theorem origin_of_returns {batch : WakeBatch}
    (h : batch ∈ (s.returns inFlight res).1.batches.entries) :
    (batch ∈ s.batches.entries ∧ batch.id ≠ inFlight.id) ∨
      batch.id = inFlight.id ∧ inFlight.left ≠ [] ∧
        (∀ key, batch.Did key ↔ inFlight.Did key ∨ key = inFlight.pendingWake.targetKey) ∧
        ∀ key, batch.Will key → inFlight.Will key ∧ key ≠ inFlight.pendingWake.targetKey := by
  obtain ⟨_, _, ⟨next, hid, _, hdone, hleft, hbatches, _⟩ | ⟨_, hbatches, _⟩⟩ :=
    returns_cases s inFlight res
  · rw [hbatches] at h
    rcases mem_set.mp h with rfl | ⟨hold, hne⟩
    · refine .inr ⟨hid, ?_, fun _ => WakeBatch.did_next hdone, fun _ => WakeBatch.will_next hleft⟩
      rw [hleft]
      exact cons_ne_nil _ _
    · exact .inl ⟨hold, hid ▸ hne⟩
  · rw [hbatches] at h
    have hmem := mem_filter.mp h
    exact .inl ⟨hmem.1, by simpa using hmem.2⟩

theorem Paired.returns (h : Paired t) (hflagged : Flagged t)
    (hinFlight : inFlight ∈ t.state.batches.entries)
    (hcareful : Careful t (.returns inFlight.id res)) :
    Paired ⟨(t.state.returns inFlight res).1, t.events ++ (t.state.returns inFlight res).2⟩ := by
  set target := inFlight.pendingWake.targetKey with htarget
  -- the other batches are superseded, whether the batch of the call is or not
  have hothers : ∀ batch ∈ t.state.batches.entries, batch.id ≠ inFlight.id →
      Superseded t.events batch.id := by
    intro batch hbatch hne
    by_cases hstale : Superseded t.events inFlight.id
    · exact ((hcareful hstale).2 batch hbatch).1
    · by_contra hfresh
      exact hne (hflagged.alone batch hbatch inFlight hinFlight hfresh hstale)
  have hgoes : inFlight.left ≠ [] → ¬ Superseded t.events inFlight.id :=
    fun hleft hstale => hleft (((hcareful hstale).2 inFlight hinFlight).2 rfl)
  have hunserved : ¬ Superseded t.events inFlight.id → ¬ Served t.events target :=
    fun hfresh hserved => h.servedAhead inFlight hinFlight hfresh target hserved
      inFlight.will_pendingWake
  apply h.frame
  · intro batch hbatch
    rcases origin_of_returns hbatch with ⟨hold, _⟩ | ⟨hid, _, hdid, hwill⟩
    · exact ⟨batch, hold, rfl, fun _ => id, fun _ => id, fun _ => .inl⟩
    · refine ⟨inFlight, hinFlight, hid.symm, fun key hkey => (hdid key).mpr (.inl hkey),
        fun key hkey => (hwill key hkey).1, fun key hkey => ?_⟩
      refine ((hdid key).mp hkey).imp_right fun heq => ?_
      rw [heq, hid]
      exact ⟨inFlight.will_pendingWake, hunserved⟩
  · exact superseded_of_quiet fun event hmem => (quiet_returns _ _ _ event hmem).1
  · intro key hkey
    refine (pends_of_returns hkey).imp_right ?_
    rintro ⟨hretry, rfl⟩
    have hfresh : ¬ Superseded t.events inFlight.id := by
      intro hstale
      rw [(hcareful hstale).1] at hretry
      cases hretry
    constructor
    · intro hserved
      rcases hserved.of_append with hold | ⟨id, hmem, _⟩
      · exact hunserved hfresh hold
      · rw [← (returned_of_mem_returns hmem).2.2] at hretry
        cases hretry
    · intro batch hbatch
      rcases origin_of_returns hbatch with ⟨hold, hne⟩ | ⟨hid, _, hdid, _⟩
      · exact (h.inFlightSince batch hold inFlight hinFlight (hothers batch hold hne) hfresh target
          (.inr inFlight.will_pendingWake)).imp_left sinceTaken_mono
      · exact .inr ((hdid target).mpr (.inr rfl))
  · intro id key hmem
    obtain ⟨rfl, rfl, hres⟩ := returned_of_mem_returns hmem
    refine ⟨hflagged.begun inFlight hinFlight, fun hnot hkey => ?_, fun batch hbatch hfresh => ?_⟩
    · rcases pends_of_returns hkey with hbefore | ⟨hretry, _⟩
      · rcases h.pendingSince inFlight hinFlight _ hbefore with hsince | hdid
        · exact hnot (sinceTaken_mono hsince)
        · exact WakeBatch.not_did_of_will inFlight.will_pendingWake hdid
      · rw [← hres] at hretry
        cases hretry
    · rcases origin_of_returns hbatch with ⟨hold, hne⟩ | ⟨hid, _, _, hwill⟩
      · exact absurd (hothers batch hold hne) hfresh
      · exact ⟨fun hahead => (hwill _ hahead).2 rfl, fun _ => hid.symm⟩
  · intro before after id key priority heq hserved
    have hmem : .called id key priority ∈ (t.state.returns inFlight res).2 := by
      rw [heq]
      exact mem_append_right _ mem_cons_self
    obtain ⟨wake, hwake, rfl⟩ := called_of_mem_returns hmem
    have hahead : inFlight.Will wake.targetKey := mem_cons_of_mem _ (mem_map_of_mem hwake)
    rcases hserved.of_append with hold | ⟨id', hran, _⟩
    · exact h.servedAhead inFlight hinFlight (hgoes (ne_nil_of_mem hwake)) _ hold hahead
    · have hran' : .returned id' wake.targetKey .ran ∈ (t.state.returns inFlight res).2 := by
        rw [heq]
        exact mem_append_left _ hran
      have hsame := (returned_of_mem_returns hran').2.1
      have hnodup := (nodup_append.mp (map_append ▸ inFlight.nodup)).2.1
      rw [map_cons, nodup_cons] at hnodup
      exact hnodup.1 (hsame ▸ mem_map_of_mem hwake)

theorem Paired.throws (h : Paired t) (hflagged : Flagged t)
    (hinFlight : inFlight ∈ t.state.batches.entries) (hcareful : Careful t (.throws inFlight.id)) :
    Paired ⟨(t.state.throws inFlight).1, t.events ++ (t.state.throws inFlight).2⟩ := by
  obtain ⟨_, _, hbatches, _⟩ := throws_eq t.state inFlight
  obtain ⟨hfresh, hran⟩ := hcareful
  have hold : ∀ batch ∈ (t.state.throws inFlight).1.batches.entries,
      batch ∈ t.state.batches.entries ∧ batch.id ≠ inFlight.id := by
    intro batch hbatch
    rw [hbatches] at hbatch
    have hmem := mem_filter.mp hbatch
    exact ⟨hmem.1, by simpa using hmem.2⟩
  have hnotReturned : ∀ id key res, .returned id key res ∉ (t.state.throws inFlight).2 := by
    intro id key res hmem
    rcases mem_cons.mp hmem with heq | hrest
    · cases heq
    · obtain ⟨_, _, heq⟩ := mem_map.mp hrest
      cases heq
  apply h.frame
  · exact fun batch hbatch =>
      ⟨batch, (hold batch hbatch).1, rfl, fun _ => id, fun _ => id, fun _ => .inl⟩
  · exact superseded_of_quiet fun event hmem => (quiet_throws _ _ event hmem).1
  · intro key hkey
    refine (pends_of_throws hkey).imp_right ?_
    rintro ⟨wake, hwake, rfl⟩
    have hcases := WakeBatch.mem_pendingBatch hwake
    constructor
    · -- what the batch has run was requested again, and the rest of it is not served
      intro hserved
      have hbefore : Served t.events wake.targetKey := by
        rcases hserved.of_append with hbefore | ⟨id, hmem, _⟩
        · exact hbefore
        · exact absurd hmem (hnotReturned id _ _)
      rcases hcases with hdid | hahead
      · obtain ⟨id, hmem, hnot⟩ := hbefore
        rcases h.servedDone inFlight hinFlight hfresh _ hdid id hmem with hsince | rfl
        · exact hnot hsince
        · obtain ⟨done, hdone, hsame⟩ := mem_map.mp hdid
          rw [← hsame] at hmem hnot
          exact hnot (hran inFlight hinFlight rfl done hdone hmem)
      · exact h.servedAhead inFlight hinFlight hfresh _ hbefore hahead
    · intro batch hbatch
      obtain ⟨hmem, hne⟩ := hold batch hbatch
      have hstale : Superseded t.events batch.id := by
        by_contra hother
        exact hne (hflagged.alone batch hmem inFlight hinFlight hother hfresh)
      exact (h.inFlightSince batch hmem inFlight hinFlight hstale hfresh _ hcases).imp_left
        sinceTaken_mono
  · exact fun id key hmem => absurd hmem (hnotReturned id key .ran)
  · intro before after id key priority heq
    have hmem : .called id key priority ∈ (t.state.throws inFlight).2 := by
      rw [heq]
      exact mem_append_right _ mem_cons_self
    rcases mem_cons.mp hmem with heq | hrest
    · cases heq
    · obtain ⟨_, _, heq⟩ := mem_map.mp hrest
      cases heq

theorem Paired.step (h : Paired t) (hflagged : Flagged t) (hstep : t.Step action t')
    (hcareful : Careful t action) : Paired t' := by
  obtain ⟨next, hperform, rfl⟩ := Option.map_eq_some_iff.mp hstep
  cases action with
  | pass ms =>
    have heq := Option.some.inj hperform
    rw [← heq]
    exact h.keep rfl (superseded_of_quiet fun _ hmem => (by cases hmem)) (fun _ => .inl)
      fun _ hmem => by cases hmem
  | requestHeartbeat opts =>
    have heq := Option.some.inj hperform
    rw [← heq]
    exact h.requestHeartbeat hflagged opts
  | setHeartbeatWakeHandler handler =>
    have heq := Option.some.inj hperform
    rw [← heq]
    exact h.setHeartbeatWakeHandler hflagged handler
  | dispose generation handler =>
    have heq := Option.some.inj hperform
    obtain ⟨hpending, hbatches, _⟩ := dispose_eq t.state generation handler
    rw [← heq]
    exact h.keep hbatches (superseded_of_quiet fun _ hmem => (by cases hmem))
      (fun _ hkey => .inl ((pends_congr hpending).mp hkey)) fun _ hmem => by cases hmem
  | fire =>
    obtain ⟨timer, _, heq⟩ := Option.map_eq_some_iff.mp hperform
    rw [← heq]
    exact h.fire hflagged timer
  | returns id res =>
    obtain ⟨inFlight, hfind, heq⟩ := Option.map_eq_some_iff.mp hperform
    rw [← key_of_find hfind] at hcareful
    rw [← heq]
    exact h.returns hflagged (mem_of_find hfind) hcareful
  | throws id =>
    obtain ⟨inFlight, hfind, heq⟩ := Option.map_eq_some_iff.mp hperform
    rw [← key_of_find hfind] at hcareful
    rw [← heq]
    exact h.throws hflagged (mem_of_find hfind) hcareful

/-! ## Every run -/

/-- A step that takes a little care. -/
def CarefulStep (t : WakeTrace) (action : Action) (t' : WakeTrace) : Prop :=
  t.Step action t' ∧ Careful t action

theorem flagged_start : Flagged start := by
  constructor
  · exact fun _ hbatch => by cases hbatch
  · exact fun _ hmem => by cases hmem
  · exact fun _ hbatch => by cases hbatch
  · exact fun _ hbatch => by cases hbatch
  · exact fun _ hbatch => by cases hbatch
  · exact fun _ hbatch => by cases hbatch

theorem paired_start : Paired start := by
  have hserved : ∀ key, ¬ Served start.events key := by
    rintro key ⟨_, hmem, _⟩
    cases hmem
  constructor
  · exact fun _ _ hmem => by cases hmem
  · exact fun _ hbatch => by cases hbatch
  · exact fun _ hbatch => by cases hbatch
  · exact fun key hkey => absurd hkey (hserved key)
  · exact fun _ hbatch => by cases hbatch
  · exact fun _ hbatch => by cases hbatch
  · intro before after batch batch' key priority heq
    cases before <;> cases heq

theorem run_turns (h : Run CarefulStep start actions t) : Flagged t ∧ Paired t :=
  h.invariant (fun t => Flagged t ∧ Paired t)
    (fun ⟨hflagged, hpaired⟩ ⟨hstep, hcareful⟩ =>
      ⟨hflagged.step hstep hcareful, hpaired.step hflagged hstep hcareful⟩)
    ⟨flagged_start, paired_start⟩

/-- The current handler has one call in flight at most. -/
def OneCall (t : WakeTrace) : Prop :=
  ∀ handler, t.state.handler = some handler →
    ∀ batch ∈ t.state.batches.entries, ∀ batch' ∈ t.state.batches.entries,
      batch.active = handler → batch'.active = handler → batch = batch'

/-- In a run of careful steps the current handler has one call in flight at most, and after a
call returned `ran` for a target the handler is called for it again only after a new request. -/
theorem one_call_when_asked (h : Run CarefulStep start actions t) :
    OneCall t ∧ CalledOnlyIfRequested t.events := by
  obtain ⟨hflagged, hpaired⟩ := run_turns h
  refine ⟨fun handler hhandler batch hbatch batch' hbatch' hactive hactive' => ?_, hpaired.only⟩
  have hfresh : ∀ other ∈ t.state.batches.entries, other.active = handler →
      ¬ Superseded t.events other.id := by
    intro other hother hcurrent hstale
    exact hflagged.stale other hother hstale (hcurrent ▸ hhandler)
  have hid := hflagged.alone batch hbatch batch' hbatch' (hfresh batch hbatch hactive)
    (hfresh batch' hbatch' hactive')
  exact inj_on_of_nodup_map t.state.batches.nodup hbatch hbatch' hid

/-- The call for `y` throws after that for `x` ran, but `x` was requested again; a new handler takes
over while the retry is running. -/
def takenOver : List Action :=
  [.setHeartbeatWakeHandler (some 0), .requestHeartbeat (eventFor "x" 0),
    .requestHeartbeat (eventFor "y" 0), .fire, .returns 0 .ran,
    .requestHeartbeat (eventFor "x" 0), .throws 0, .pass 1000, .fire,
    .setHeartbeatWakeHandler (some 1), .requestHeartbeat (eventFor "z" 0), .fire]

theorem one_call_when_asked_takenOver : ∃ t, Run CarefulStep start takenOver t ∧
    t.state.batches.entries.length = 2 ∧ OneCall t ∧ CalledOnlyIfRequested t.events := by
  have hresult : (performAll (fun t action => decide (Careful t action)) start takenOver).any
      (fun t => t.state.batches.entries.length = 2) = true := by
    decide +kernel
  obtain ⟨t, hperform, hlength⟩ := (Option.any_eq_true _ _).mp hresult
  have hrun : Run CarefulStep start takenOver t := (run_of_performAll hperform).mono
    fun ⟨hstep, hallowed⟩ => ⟨hstep, of_decide_eq_true hallowed⟩
  exact ⟨t, hrun, of_decide_eq_true hlength, one_call_when_asked hrun⟩

/-- The batch of the first handler ends while one of the second is in flight, and clears the
flag for both. -/
def clearedFlag : List Action :=
  [.setHeartbeatWakeHandler (some 0), .requestHeartbeat (eventFor "x" 0), .fire,
    .setHeartbeatWakeHandler (some 1), .requestHeartbeat (eventFor "x" 0), .fire,
    .returns 0 .ran, .requestHeartbeat (eventFor "y" 0), .fire]

/-- The call for `y` throws, and the batch gives back `x` too, which it has run. -/
def givenBack : List Action :=
  [.setHeartbeatWakeHandler (some 0), .requestHeartbeat (eventFor "x" 0),
    .requestHeartbeat (eventFor "y" 0), .fire, .returns 0 .ran, .throws 0, .pass 1000, .fire]

/-- The second handler has two calls in flight; and the handler is called again for `x`, which was
requested once. -/
theorem exists_two_calls : (∃ t, Run Step start clearedFlag t ∧ ¬ OneCall t) ∧
    ∃ t, Run Step start givenBack t ∧ ¬ CalledOnlyIfRequested t.events := by
  have hcleared : (performAll (fun _ _ => true) start clearedFlag).any (fun t =>
      t.state.handler = some 1 && t.state.batches.entries.map WakeBatch.id = [1, 2] &&
        t.state.batches.entries.all fun batch => batch.active = 1) = true := by
    decide +kernel
  have hgiven : (performAll (fun _ _ => true) start givenBack).any (fun t =>
      t.events.getLast? = some (.called 1 "x::".toList 2) &&
        .returned 0 "x::".toList .ran ∈ t.events.dropLast &&
        decide ¬ RequestedSince t.events.dropLast 0 "x::".toList) = true := by
    decide +kernel
  obtain ⟨t, hperform, ht⟩ := (Option.any_eq_true _ _).mp hcleared
  obtain ⟨u, hperform', hu⟩ := (Option.any_eq_true _ _).mp hgiven
  simp only [Bool.and_eq_true, decide_eq_true_eq, all_eq_true] at ht hu
  refine ⟨⟨t, (run_of_performAll hperform).mono And.left, fun hone => ?_⟩,
    u, (run_of_performAll hperform').mono And.left, fun honly => ?_⟩
  · obtain ⟨⟨hhandler, hids⟩, hactive⟩ := ht
    obtain ⟨first, second, hentries⟩ : ∃ first second, t.state.batches.entries = [first, second] := by
      have hlength := congrArg List.length hids
      rw [length_map] at hlength
      exact length_eq_two.mp hlength
    rw [hentries] at hids hactive
    have hfirst : first ∈ t.state.batches.entries := by
      rw [hentries]
      exact mem_cons_self
    have hsecond : second ∈ t.state.batches.entries := by
      rw [hentries]
      exact mem_cons_of_mem _ mem_cons_self
    have hsame := hone 1 hhandler first hfirst second hsecond (hactive first mem_cons_self)
      (hactive second (mem_cons_of_mem _ mem_cons_self))
    rw [hsame] at hids
    simp only [map_cons, List.cons.injEq] at hids
    omega
  · obtain ⟨⟨hlast, hran⟩, hnot⟩ := hu
    have hevents := dropLast_append_getLast? _ (Option.mem_def.mpr hlast)
    exact hnot (honly _ [] 0 1 _ 2 hevents.symm hran)

end WakeTrace

end OpenClaw
