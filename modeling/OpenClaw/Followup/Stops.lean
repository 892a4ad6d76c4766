import OpenClaw.Followup.Spin

/-!
# When a drain stops

Left alone, a drain calls `runFollowup` after a bounded number of steps and removes its queue
in the end, unless it comes to the head of its loop with dropped messages that no branch
will summarize.
-/

namespace OpenClaw

open Lts Option

namespace FollowupQueues

open FollowupQueueState

variable {host : RouteHost} {w w' : FollowupQueues} {q : FollowupQueueState}
  {labels : List (FollowupAction × List FollowupEvent)}

/-! ## A drain that is left alone -/

variable (host w)

/-- A step of the drain of the queue in the map. -/
def OwnStep (label : FollowupAction × List FollowupEvent) (w' : FollowupQueues) : Prop :=
  w.Step host label w' ∧ ∃ outcome, label.1 = .drain outcome

/-- One in which `runFollowup` is not called. -/
def QuietStep (label : FollowupAction × List FollowupEvent) (w' : FollowupQueues) : Prop :=
  w.OwnStep host label w' ∧ label.2 = []

/-- One in which what the drain waited for resolves. -/
def ResolvedStep (label : FollowupAction × List FollowupEvent) (w' : FollowupQueues) : Prop :=
  w.Step host label w' ∧ label.1 = .drain .resolved

variable {host w}

/-- What is to be expected of the drains when nothing else happens. -/
structure DrainStops (host : RouteHost) (w : FollowupQueues) : Prop where
  /-- There is a bound on the steps up to the next call of `runFollowup`. -/
  answers : ∃ bound, ∀ labels w', Run (QuietStep host) w labels w' → labels.length ≤ bound
  /-- There is a bound on the steps of a drain whose calls all resolve. -/
  ends : ∃ bound, ∀ labels w', Run (ResolvedStep host) w labels w' → labels.length ≤ bound
  /-- A drain that has no step left has removed its queue from the map. -/
  deletes : ∀ labels w', Run (OwnStep host) w labels w' →
    w'.queue = none ∨ ∃ label w'', w'.ResolvedStep host label w''
  /-- The drains of the queues that a clear removed end too. -/
  removed : ∀ q ∈ w.removed, ∃ bound, ∀ labels q',
    Run (FollowupQueueState.LoopStep host) q labels q' → labels.length ≤ bound

/-- The queue in the map has a drain, which fulfils a condition on its phase. -/
def DrainingWith (p : FollowupQueueState → DrainPhase → Prop) (w : FollowupQueues) : Prop :=
  ∃ q d, w.queue = some q ∧ q.drain = some d ∧ q.lastRun.isSome = true ∧ p q d.phase

theorem resolvedStep_iff {label : FollowupAction × List FollowupEvent} :
    w.ResolvedStep host label w' ↔ ∃ q d, w.queue = some q ∧ q.drain = some d ∧
      w' = w.settle (q.proceed host d).1 ∧
      label = (.drain .resolved, (q.proceed host d).2.map (.called true)) := by
  obtain ⟨action, events⟩ := label
  constructor
  · rintro ⟨hstep, haction⟩
    change action = .drain .resolved at haction
    rw [haction] at hstep
    obtain ⟨q, next, hq, hnext, hw', hevents⟩ := step_drain_iff.mp hstep
    obtain ⟨d, hd⟩ := drain_of_resume hnext
    rw [resume_resolved hd, some.injEq] at hnext
    exact ⟨q, d, hq, hd, hnext ▸ hw', by rw [haction, hevents, hnext]⟩
  · rintro ⟨q, d, hq, hd, rfl, hlabel⟩
    rw [hlabel]
    exact ⟨step_drain_iff.mpr ⟨q, _, hq, resume_resolved hd, rfl, rfl⟩, rfl⟩

theorem resolvedStep_proceed (host : RouteHost) {d : FollowupDrain} (hq : w.queue = some q)
    (hd : q.drain = some d) :
    w.ResolvedStep host (.drain .resolved, (q.proceed host d).2.map (.called true))
      (w.settle (q.proceed host d).1) :=
  resolvedStep_iff.mpr ⟨q, d, hq, hd, rfl, rfl⟩

/-- A bound on the steps from this state on, by the phase of the drain. -/
def stepsLeft (bound : FollowupQueueState → DrainPhase → ℕ) (w : FollowupQueues) : ℕ :=
  match w.queue with
  | none => 0
  | some q =>
    match q.drain with
    | none => 0
    | some d => bound q d.phase

theorem stepsLeft_of_draining {bound : FollowupQueueState → DrainPhase → ℕ} {d : FollowupDrain}
    (hq : w.queue = some q) (hd : q.drain = some d) : w.stepsLeft bound = bound q d.phase := by
  simp only [stepsLeft, hq, hd]

theorem bounded_of_not_spins {labels : List (FollowupAction × List FollowupEvent)}
    (hw : DrainingWith (fun q phase => ¬ q.Spins phase) w)
    (hrun : Run (ResolvedStep host) w labels w') : labels.length ≤ w.stepsLeft stepBound := by
  refine hrun.length_le (fun w => w.queue = none ∨ DrainingWith (fun q phase => ¬ q.Spins phase) w)
    _ ?_ (.inr hw)
  intro w label w' hinv hstep
  obtain ⟨q, d, hq, hd, rfl, _⟩ := resolvedStep_iff.mp hstep
  rcases hinv with hnone | ⟨q', d', hq', hd', hrun, hspins⟩
  · rw [hnone] at hq
    exact nomatch hq
  · rw [hq, some.injEq] at hq'
    subst hq'
    rw [hd, some.injEq] at hd'
    subst hd'
    rw [stepsLeft_of_draining hq hd]
    have hshrinks := shrinks_proceed host hrun hspins
    cases hrearm : (q.proceed host d).1.rearm with
    | none =>
      refine ⟨.inl (by rw [settle_queue, hrearm]), ?_⟩
      simp only [stepsLeft, settle_queue, hrearm]
      exact stepBound_pos q d.phase
    | some q' =>
      obtain ⟨d', hd', hspins', hlt⟩ := hshrinks q' hrearm
      have hlast := ((consumes_proceed host q d).rearm hrearm).lastRun
      have hqueue : (w.settle (q.proceed host d).1).queue = some q' := by
        rw [settle_queue, hrearm]
      refine ⟨.inr ⟨q', d', hqueue, hd', hlast ▸ hrun, hspins'⟩, ?_⟩
      rw [stepsLeft_of_draining hqueue hd']
      exact hlt

theorem bounded_of_answers {labels : List (FollowupAction × List FollowupEvent)}
    (hw : DrainingWith Answers w) (hrun : Run (QuietStep host) w labels w') :
    labels.length ≤ w.stepsLeft quietBound := by
  refine hrun.length_le (fun w => w.queue = none ∨ DrainingWith Answers w) _ ?_ (.inr hw)
  rintro w ⟨action, events⟩ w' hinv ⟨⟨hstep, outcome, haction⟩, hquiet⟩
  change action = .drain outcome at haction
  subst haction
  obtain ⟨q, next, hq, hnext, rfl, hevents⟩ := step_drain_iff.mp hstep
  obtain ⟨d, hd⟩ := drain_of_resume hnext
  have hcalls : next.2 = [] := by
    change events = [] at hquiet
    rw [hquiet] at hevents
    exact List.map_eq_nil_iff.mp hevents.symm
  rcases hinv with hnone | ⟨q', d', hq', hd', hrun, hanswers⟩
  · rw [hnone] at hq
    exact nomatch hq
  · rw [hq, some.injEq] at hq'
    subst hq'
    rw [hd, some.injEq] at hd'
    subst hd'
    rw [stepsLeft_of_draining hq hd]
    have hhurries := hurries_resume hrun hd hanswers hnext hcalls
    cases hrearm : next.1.rearm with
    | none =>
      refine ⟨.inl (by rw [settle_queue, hrearm]), ?_⟩
      simp only [stepsLeft, settle_queue, hrearm]
      exact quietBound_pos q d.phase
    | some q' =>
      obtain ⟨d', hd', hanswers', hlt⟩ := hhurries q' hrearm
      have hlast := ((consumes_resume hnext).rearm hrearm).lastRun
      have hqueue : (w.settle next.1).queue = some q' := by rw [settle_queue, hrearm]
      refine ⟨.inr ⟨q', d', hqueue, hd', hlast ▸ hrun, hanswers'⟩, ?_⟩
      rw [stepsLeft_of_draining hqueue hd']
      exact hlt

/-- From a drain that spins there are runs of every length. -/
theorem unbounded_of_spins (host : RouteHost) (hw : DrainingWith Spins w) (n : ℕ) :
    ∃ labels w', Run (ResolvedStep host) w labels w' ∧ labels.length = n := by
  refine Run.exists_of_length (DrainingWith Spins) ?_ n hw
  rintro w ⟨q, d, hq, hd, hrun, hspins⟩
  obtain ⟨q', d', hrearm, hd', hspins', _⟩ := keeps_proceed host hrun hspins
  have hlast := ((consumes_proceed host q d).rearm hrearm).lastRun
  refine ⟨_, _, resolvedStep_proceed host hq hd, q', d', ?_, hd', hlast ▸ hrun, hspins'⟩
  rw [settle_queue, hrearm]

/-- From a drain that spins without messages, and without a call in progress, there are runs
of every length in which nothing is called. -/
theorem unbounded_of_mute (host : RouteHost)
    (hw : DrainingWith (fun q phase => q.Spins phase ∧ q.items = [] ∧ phase.isRunning = false) w)
    (n : ℕ) : ∃ labels w', Run (QuietStep host) w labels w' ∧ labels.length = n := by
  refine Run.exists_of_length
    (DrainingWith fun q phase => q.Spins phase ∧ q.items = [] ∧ phase.isRunning = false) ?_ n hw
  rintro w ⟨q, d, hq, hd, hrun, hspins, hitems, hphase⟩
  obtain ⟨q', d', hrearm, hd', hspins', hquiet⟩ := keeps_proceed host hrun hspins
  obtain ⟨hcalls, hitems', hphase'⟩ := hquiet ⟨hitems, hphase⟩
  have hlast := ((consumes_proceed host q d).rearm hrearm).lastRun
  have hstep := resolvedStep_proceed host hq hd
  refine ⟨_, _, ⟨⟨hstep.1, .resolved, hstep.2⟩, ?_⟩, q', d', ?_, hd', hlast ▸ hrun, hspins', hitems',
    hphase'⟩
  · rw [hcalls]
    rfl
  · rw [settle_queue, hrearm]

/-- A drain that is there stays there until it removes its queue. -/
theorem draining_of_ownRun {labels : List (FollowupAction × List FollowupEvent)}
    (hrun : Run (OwnStep host) w labels w') (hw : ∀ q, w.queue = some q → ∃ d, q.drain = some d) :
    ∀ q, w'.queue = some q → ∃ d, q.drain = some d := by
  refine hrun.invariant (fun w => ∀ q, w.queue = some q → ∃ d, q.drain = some d) ?_ hw
  rintro w ⟨action, events⟩ w' _ ⟨hstep, outcome, haction⟩ q' hq'
  change action = .drain outcome at haction
  subst haction
  obtain ⟨q, next, hq, hnext, rfl, _⟩ := step_drain_iff.mp hstep
  rw [settle_queue] at hq'
  exact rearm_drain hq'

/-- When the drain of a reachable queue stops: unless it comes to the head of its loop with
dropped messages that no branch summarizes, also by the failure of the call in progress. -/
theorem drainStops_iff (host : RouteHost) {d : FollowupDrain}
    (hrun : Run (Step host) initial labels w) (hq : w.queue = some q) (hd : q.drain = some d) :
    DrainStops host w ↔ ¬ q.Spins d.phase ∧
        ¬ (d.phase.isRunning = true ∧ q.items = [] ∧ q.Spins .debouncing) := by
  have hsane := sane_of_run hrun
  have hlast := (hsane.grounded q hq).isSome hd
  constructor
  · intro hstops
    constructor
    · intro hspins
      obtain ⟨bound, hbound⟩ := hstops.ends
      obtain ⟨labels, w', hlong, hlength⟩ :=
        unbounded_of_spins host ⟨q, d, hq, hd, hlast, hspins⟩ (bound + 1)
      have hle := hbound labels w' hlong
      omega
    · rintro ⟨hrunning, hitems, hspins⟩
      obtain ⟨bound, hbound⟩ := hstops.answers
      -- the call in progress fails, and the drain starts again without messages
      have hwork : q.hasWork = true := hasWork_iff.mpr (.inr hspins.1)
      have hresume : q.resume host .rejected = some (q.leaveLoop, []) := by
        rw [resume_rejected hd, if_pos hrunning]
      have hfail : w.Step host (.drain .rejected, []) (w.settle q.leaveLoop) :=
        step_drain_iff.mpr ⟨q, _, hq, hresume, rfl, rfl⟩
      have hqueue : (w.settle q.leaveLoop).queue = some (q.waitIn .debouncing false) := by
        rw [settle_queue, rearm_leaveLoop, if_pos hwork]
      obtain ⟨labels, w', hlong, hlength⟩ := unbounded_of_mute host
        ⟨q.waitIn .debouncing false, _, hqueue, rfl, hlast, hspins, hitems, rfl⟩ bound
      have hle := hbound _ w' (.cons ⟨⟨hfail, _, rfl⟩, rfl⟩ hlong)
      rw [List.length_cons] at hle
      omega
  · rintro ⟨hspins, hfails⟩
    refine ⟨⟨w.stepsLeft quietBound, fun labels w' hquiet => ?_⟩,
      ⟨w.stepsLeft stepBound, fun labels w' hresolved => ?_⟩, fun labels w' hown => ?_,
      fun q hq => ⟨q.emptyBound, fun labels q' hloop => ?_⟩⟩
    · exact bounded_of_answers ⟨q, d, hq, hd, hlast, fun hboth => hspins hboth.2, hfails⟩ hquiet
    · exact bounded_of_not_spins ⟨q, d, hq, hd, hlast, hspins⟩ hresolved
    · cases hq' : w'.queue with
      | none => exact .inl rfl
      | some q' =>
        obtain ⟨d', hd'⟩ := draining_of_ownRun hown
          (fun q'' hq'' => ⟨d, (some.inj (hq.symm.trans hq'')) ▸ hd⟩) q' hq'
        exact .inr ⟨_, _, resolvedStep_proceed host hq' hd'⟩
    · exact removed_bounded host (hsane.removed q hq) hloop

/-- A drain that was started by one message stops. -/
theorem drainStops_iff_one : DrainStops .telegramOnly
      ⟨some ⟨[⟨0, .text "a" "x"⟩], some ⟨.debouncing, false⟩, .followup, 1, .summarize, [], [],
        some (FollowupRun.text "a" "x").run⟩, [], true, 1⟩ :=
  (drainStops_iff .telegramOnly (run_of_replay .telegramOnly initial
      [.enqueue (.plain (.text "a" "x") ⟨.followup, some (.finite 1), none⟩)]
      (_, [(.enqueue (.plain (.text "a" "x") ⟨.followup, some (.finite 1), none⟩),
        [.dropped [] .summarize, .accepted ⟨0, .text "a" "x"⟩])]) (by decide +kernel))
    rfl rfl).mpr (by decide +kernel)

/-- A message that overflows the queue while the only message of the queue is running, outside
of the collect mode. -/
def overflowWhileRunning : List FollowupAction :=
  [.enqueue (.plain (.text "a" "x") ⟨.followup, some (.finite 1), none⟩), .drain .resolved,
    .enqueue (.plain (.text "b" "x") ⟨.followup, some (.finite 1), none⟩)]

theorem not_drainStops :
    ¬ ∀ (host : RouteHost) (labels : List (FollowupAction × List FollowupEvent))
      (w : FollowupQueues) (q : FollowupQueueState) (d : FollowupDrain),
      Run (Step host) initial labels w → w.queue = some q → q.drain = some d →
        DrainStops host w := by
  intro hall
  have hspins : ((replay .telegramOnly initial overflowWhileRunning).any fun last =>
      last.1.queue.any fun q => q.drain.any fun d =>
        q.lastRun.isSome && decide (q.Spins d.phase)) = true := by decide +kernel
  obtain ⟨last, hlast, hqueue⟩ := (Option.any_eq_true _ _).mp hspins
  obtain ⟨q, hq, hdrain⟩ := (Option.any_eq_true _ _).mp hqueue
  obtain ⟨d, hd, hboth⟩ := (Option.any_eq_true _ _).mp hdrain
  rw [Bool.and_eq_true, decide_eq_true_eq] at hboth
  have hstops := hall .telegramOnly last.2 last.1 q d (run_of_replay _ _ _ _ hlast) hq hd
  obtain ⟨bound, hbound⟩ := hstops.ends
  obtain ⟨labels, w', hlong, hlength⟩ := unbounded_of_spins .telegramOnly
    ⟨q, d, hq, hd, hboth.1, hboth.2⟩ (bound + 1)
  have hle := hbound labels w' hlong
  omega

end FollowupQueues

end OpenClaw
