import OpenClaw.Followup.Groups
import OpenClaw.Followup.Account

/-!
# Collected messages keep to one authorization and one route

The items are tested for one route before the drain waits for `drainCollectQueueStep`, and
they are copied after that. What comes in between is collected with the others if it has their
authorization. A run in which no such message comes in, and no message whose compact key is
that of a waiting message with another route, collects only what belongs together.
-/

namespace OpenClaw

open Lts List Option

variable {host : RouteHost}

/-! ## Groups -/

/-- The messages of a call have the authorization of its run and one route, and its originating
fields are those of that route. -/
structure FollowupCall.KeepsApart (host : RouteHost) (call : FollowupCall) : Prop where
  authorization : ∀ m ∈ call.messages,
    m.authorizationKey = resolveFollowupAuthorizationKey call.argument.run
  route : ∃ key, key ≠ .cross ∧ (∀ m ∈ call.messages, m.crossChannelKey host = key) ∧
    resolveCrossChannelKey host call.argument.toOriginRoutingMetadata = key

/-- A call with more than one message keeps to one authorization and one route. -/
def FollowupCall.CollectsApart (host : RouteHost) (call : FollowupCall) : Prop :=
  1 < call.messages.length → call.KeepsApart host

/-- The messages of a group belong together, if it has more than one. -/
structure Uniform (host : RouteHost) (group : List QueuedRun) : Prop where
  authorization : SameAuthorization group
  route : 1 < group.length → SameKey host group
  faithful : FaithfulKeys host group

variable {group items : List QueuedRun}

theorem collectsApart_of_uniform {q : FollowupQueueState}
    (hne : group ≠ []) (h : Uniform host group) (summary : Option Str) :
    (FollowupCall.collected q group (group.getLast hne).followup.run summary).CollectsApart host := by
  intro hmany
  obtain ⟨key, hcross, hkey⟩ := h.route hmany
  refine ⟨fun m hm => h.authorization m hm _ (getLast_mem hne), key, hcross, hkey, ?_⟩
  exact crossChannelKey_resolve hne hcross hkey h.faithful

theorem collectsApart_of_length {call : FollowupCall} (h : call.messages.length ≤ 1) :
    call.CollectsApart host := fun hmany => absurd hmany (by omega)

/-! ## Neighbours -/

/-- If the messages are collected together, they have one route. -/
def Mixable (host : RouteHost) (m m' : QueuedRun) : Prop :=
  m.authorizationKey = m'.authorizationKey →
    m.crossChannelKey host = m'.crossChannelKey host ∧ m'.crossChannelKey host ≠ .cross

theorem isChain_mixable_of_sameKey (h : SameKey host items) : items.IsChain (Mixable host) := by
  obtain ⟨key, hcross, hkey⟩ := h
  induction items with
  | nil => exact .nil
  | cons m rest ih =>
    cases rest with
    | nil => exact .singleton m
    | cons m' rest =>
      have hm := hkey m mem_cons_self
      have hm' := hkey m' (mem_cons_of_mem _ mem_cons_self)
      refine .cons_cons (fun _ => ⟨hm.trans hm'.symm, hm' ▸ hcross⟩) ?_
      exact ih fun x hx => hkey x (mem_cons_of_mem _ hx)

/-- Neighbours that do not mix and have one authorization all have the route of the first. -/
theorem key_eq_of_isChain {first : QueuedRun} {rest : List QueuedRun}
    (hchain : (first :: rest).IsChain (Mixable host)) (hsame : SameAuthorization (first :: rest)) :
    ∀ m ∈ rest, m.crossChannelKey host = first.crossChannelKey host ∧
      first.crossChannelKey host ≠ .cross := by
  induction rest generalizing first with
  | nil => simp
  | cons m rest ih =>
    rw [isChain_cons_cons] at hchain
    have hmem : m ∈ first :: m :: rest := mem_cons_of_mem _ mem_cons_self
    obtain ⟨hkey, hcross⟩ := hchain.1 (hsame first mem_cons_self m hmem)
    have htail : SameAuthorization (m :: rest) := fun x hx y hy =>
      hsame x (mem_cons_of_mem _ hx) y (mem_cons_of_mem _ hy)
    intro x hx
    rcases mem_cons.mp hx with rfl | hin
    · exact ⟨hkey.symm, hkey ▸ hcross⟩
    · obtain ⟨hx', _⟩ := ih hchain.2 htail x hin
      exact ⟨hx'.trans hkey.symm, hkey ▸ hcross⟩

theorem FaithfulKeys.subset {items' : List QueuedRun} (h : FaithfulKeys host items)
    (hsub : items' ⊆ items) : FaithfulKeys host items' :=
  fun m hm m' hm' key hkey hkey' => h m (hsub hm) m' (hsub hm') key hkey hkey'

/-- The groups of messages that mix with their neighbours belong together. -/
theorem uniform_of_mem_split
    (hchain : items.IsChain (Mixable host)) (hfaithful : FaithfulKeys host items)
    (h : group ∈ splitCollectItemsByAuthorization items) : Uniform host group := by
  have hsame := sameAuthorization_split h
  have hinfix : group <:+: items := by
    rw [← flatten_splitCollectItemsByAuthorization items]
    exact infix_of_mem_flatten h
  refine ⟨hsame, fun hmany => ?_, hfaithful.subset hinfix.subset⟩
  cases group with
  | nil => exact nomatch hmany
  | cons first rest =>
    have hinner := List.IsChain.infix hchain hinfix
    have hkeys := key_eq_of_isChain hinner hsame
    cases rest with
    | nil => exact nomatch hmany
    | cons second rest =>
      refine ⟨_, (hkeys second mem_cons_self).2, fun m hm => ?_⟩
      rcases mem_cons.mp hm with rfl | hin
      · rfl
      · exact (hkeys m hin).1

/-! ## Queues -/

namespace FollowupQueueState

variable {q q' : FollowupQueueState} {d : FollowupDrain} {force : Bool}

/-- What a drain may collect from this queue belongs together. -/
structure Sorted (host : RouteHost) (q : FollowupQueueState) : Prop where
  faithful : FaithfulKeys host q.items
  copied : ∀ force, q.drain = some ⟨.skipped, force⟩ → q.items.IsChain (Mixable host)
  groups : ∀ size rest pendingSummary force,
    q.drain = some ⟨.runningGroup size rest pendingSummary, force⟩ →
      ∀ group ∈ rest, Uniform host group

theorem sorted_of_phase {phase : DrainPhase} (hfaithful : FaithfulKeys host q.items)
    (hdrain : q.drain = some ⟨phase, force⟩) (hskipped : phase ≠ .skipped)
    (hgroups : ∀ size rest pendingSummary, phase ≠ .runningGroup size rest pendingSummary) :
    Sorted host q := by
  refine ⟨hfaithful, fun force' h => ?_, fun size rest pendingSummary force' h => ?_⟩
  · rw [hdrain, some.injEq, FollowupDrain.mk.injEq] at h
    exact absurd h.1 hskipped
  · rw [hdrain, some.injEq, FollowupDrain.mk.injEq] at h
    exact absurd h.1 (hgroups _ _ _)

theorem sorted_leaveLoop (hfaithful : FaithfulKeys host q.items) : Sorted host q.leaveLoop :=
  ⟨hfaithful, fun _ h => absurd h (by simp), fun _ _ _ _ h => absurd h (by simp)⟩

theorem sorted_loopHead (hfaithful : FaithfulKeys host q.items) (force : Bool) :
    Sorted host (q.loopHead force) := by
  rcases loopHead_cases q force with ⟨_, heq⟩ | ⟨_, _, heq⟩
  · rw [heq]
    exact sorted_of_phase hfaithful (waitIn_drain .debouncing) (by simp) (by simp)
  · exact heq ▸ sorted_leaveLoop hfaithful

theorem Sorted.rearm (h : Sorted host q) (hrearm : q.rearm = some q') : Sorted host q' := by
  unfold FollowupQueueState.rearm at hrearm
  split at hrearm
  · exact some.inj hrearm ▸ h
  · split_ifs at hrearm
    exact some.inj hrearm ▸ sorted_loopHead h.faithful false

/-! ### A step of a drain -/

/-- The next queue is sorted, and the calls keep to one authorization and one route. -/
structure StaysApart (host : RouteHost) (next : FollowupQueueState × List FollowupCall) :
    Prop where
  sorted : Sorted host next.1
  calls : ∀ call ∈ next.2, call.CollectsApart host

section

variable (hfaithful : FaithfulKeys host q.items)
include hfaithful

theorem staysApart_waitIn {phase : DrainPhase} {calls : List FollowupCall} (hskipped : phase ≠ .skipped)
    (hgroups : ∀ size rest pendingSummary, phase ≠ .runningGroup size rest pendingSummary)
    (hcalls : ∀ call ∈ calls, call.messages.length ≤ 1) :
    StaysApart host (q.waitIn phase force, calls) :=
  ⟨sorted_of_phase hfaithful (waitIn_drain phase) hskipped hgroups,
    fun call hcall => collectsApart_of_length (hcalls call hcall)⟩

theorem staysApart_loopHead : StaysApart host (q.loopHead force, []) :=
  ⟨sorted_loopHead hfaithful force, by simp⟩

theorem staysApart_leaveLoop : StaysApart host (q.leaveLoop, []) :=
  ⟨sorted_leaveLoop hfaithful, by simp⟩

theorem staysApart_runSummary (items : List QueuedRun) :
    StaysApart host (q.runSummary force items) := by
  rcases runSummary_cases q force items with ⟨_, _, _, heq⟩ | ⟨_, heq⟩
  · rw [heq]
    exact staysApart_waitIn hfaithful (by simp) (by simp) (by simp [FollowupCall.summaryOnly])
  · exact heq ▸ staysApart_leaveLoop hfaithful

theorem staysApart_startGroup {rest : List (List QueuedRun)} (hgroup : Uniform host group)
    (hrest : ∀ group ∈ rest, Uniform host group) (summary : Option Str) :
    StaysApart host (q.startGroup force group rest summary) := by
  have hsorted : ∀ size pendingSummary,
      Sorted host (q.waitIn (.runningGroup size rest pendingSummary) force) := by
    intro size pendingSummary
    refine ⟨hfaithful, fun _ h => absurd h (by simp), fun _ rest' _ _ h => ?_⟩
    rw [waitIn_drain, some.injEq, FollowupDrain.mk.injEq, DrainPhase.runningGroup.injEq] at h
    exact h.1.2.1 ▸ hrest
  by_cases hne : group = []
  · subst hne
    unfold startGroup
    split
    · refine ⟨hsorted _ _, fun call hcall => collectsApart_of_length ?_⟩
      rw [mem_singleton] at hcall
      exact hcall ▸ Nat.zero_le 1
    · exact staysApart_loopHead hfaithful
  · rw [startGroup_of_ne_nil force rest summary hne]
    refine ⟨hsorted _ _, fun call hcall => ?_⟩
    rw [mem_singleton] at hcall
    exact hcall ▸ collectsApart_of_uniform hne hgroup summary

end

theorem staysApart_proceed (host : RouteHost) (hdrain : q.drain = some d) (h : Sorted host q) :
    StaysApart host (q.proceed host d) := by
  obtain ⟨phase, force⟩ := d
  have hfaithful := h.faithful
  cases phase with
  | debouncing =>
    have hcases := afterDebounce_cases host q force
    change StaysApart host (q.afterDebounce host force)
    generalize q.afterDebounce host force = next at hcases ⊢
    cases hcases with
    | skipped hmode hone =>
      refine ⟨⟨hfaithful, fun _ _ => ?_, fun _ _ _ _ hd => absurd hd (by simp)⟩, by simp⟩
      exact isChain_mixable_of_sameKey (sameKey_of_not_cross hone)
    | noRun => exact staysApart_leaveLoop hfaithful
    | collectNone | summaryNone | plainNone =>
      exact staysApart_waitIn hfaithful (by simp) (by simp) (by simp)
    | collectNext | plainNext =>
      exact staysApart_waitIn hfaithful (by simp) (by simp) (by simp [FollowupCall.single])
    | summaryNext =>
      exact staysApart_waitIn hfaithful (by simp) (by simp) (by simp [FollowupCall.summaryAlong])
  | skipped =>
    change StaysApart host (q.afterSkipped force)
    unfold afterSkipped
    have huniform : ∀ group ∈ splitCollectItemsByAuthorization q.items, Uniform host group :=
      fun group hgroup => uniform_of_mem_split (h.copied force hdrain) hfaithful hgroup
    split
    · exact staysApart_runSummary hfaithful []
    · next group rest hsplit =>
      rw [hsplit] at huniform
      exact staysApart_startGroup hfaithful (huniform group mem_cons_self)
        (fun g hg => huniform g (mem_cons_of_mem _ hg)) _
  | runningNext use =>
    exact staysApart_waitIn (q := { q with items := q.items.tail })
      (hfaithful.subset (tail_subset _)) (by simp) (by simp) (by simp)
  | shifted use =>
    cases use with
    | summary => exact staysApart_loopHead (q := q.clearQueueSummaryState) hfaithful
    | collect => exact staysApart_loopHead hfaithful
    | plain => exact staysApart_loopHead hfaithful
  | noItem use =>
    cases use with
    | collect => exact staysApart_runSummary hfaithful _
    | summary => exact staysApart_leaveLoop hfaithful
    | plain => exact staysApart_leaveLoop hfaithful
  | runningSummary => exact staysApart_loopHead (q := q.clearQueueSummaryState) hfaithful
  | runningGroup size rest pendingSummary =>
    have hspliced : FaithfulKeys host (q.spliced size pendingSummary).items := by
      rw [spliced_items]
      exact hfaithful.subset (drop_subset _ _)
    have hgroups := h.groups size rest pendingSummary force hdrain
    cases rest with
    | nil => exact staysApart_loopHead hspliced
    | cons group rest =>
      exact staysApart_startGroup hspliced (hgroups group mem_cons_self)
        (fun g hg => hgroups g (mem_cons_of_mem _ hg)) none

theorem staysApart_resume {outcome : AwaitOutcome}
    {next : FollowupQueueState × List FollowupCall} (h : Sorted host q)
    (hnext : q.resume host outcome = some next) : StaysApart host next := by
  obtain ⟨d, hd⟩ := drain_of_resume hnext
  cases outcome with
  | resolved =>
    rw [resume_resolved hd, some.injEq] at hnext
    exact hnext ▸ staysApart_proceed host hd h
  | rejected =>
    rw [resume_rejected hd] at hnext
    split_ifs at hnext
    exact some.inj hnext ▸ staysApart_leaveLoop h.faithful

/-! ### A new message -/

/-- The new message does not come between the test of the channels and the copy of the items
with the authorization of its neighbour and another route, and its compact key is not that of
a message with another route. -/
structure TakesApart (host : RouteHost) (q : FollowupQueueState) (item : QueuedRun) : Prop where
  gap : ∀ force, q.drain = some ⟨.skipped, force⟩ →
    ∀ last ∈ (q.items.drop q.dropCount).getLast?, Mixable host last item
  faithful : ∀ m ∈ q.items, ∀ key, m.crossChannelKey host = .key key →
    item.crossChannelKey host = .key key →
      normalizeChannelRouteRef host m.followup.toOriginRoutingMetadata =
        normalizeChannelRouteRef host item.followup.toOriginRoutingMetadata

theorem Sorted.pushed (h : Sorted host q) {item : QueuedRun} (htakes : TakesApart host q item) :
    Sorted host (q.pushed item) := by
  have hdrain : (q.pushed item).drain = q.drain := dropFront_drain q
  refine ⟨?_, fun force hd => ?_, fun size rest pendingSummary force hd => ?_⟩
  · rw [pushed_items]
    intro m hm m' hm' key hkey hkey'
    have hold : ∀ {x}, x ∈ q.items.drop q.dropCount → x ∈ q.items :=
      fun hx => mem_of_mem_drop hx
    rcases mem_append.mp hm with hin | hnew <;>
      rcases mem_append.mp hm' with hin' | hnew'
    · exact h.faithful m (hold hin) m' (hold hin') key hkey hkey'
    · rw [mem_singleton] at hnew'
      subst hnew'
      exact htakes.faithful m (hold hin) key hkey hkey'
    · rw [mem_singleton] at hnew
      subst hnew
      exact (htakes.faithful m' (hold hin') key hkey' hkey).symm
    · rw [mem_singleton] at hnew hnew'
      rw [hnew, hnew']
  · rw [hdrain] at hd
    rw [pushed_items]
    refine ((h.copied force hd).drop _).append (.singleton item) ?_
    intro last hlast m hm
    have hm' : item = m := by simpa using hm
    exact hm' ▸ htakes.gap force hd last hlast
  · rw [hdrain] at hd
    exact h.groups size rest pendingSummary force hd

end FollowupQueueState

/-! ## Runs -/

namespace FollowupQueues

open FollowupQueueState

variable {w w' : FollowupQueues} {q : FollowupQueueState}
  {label : FollowupAction × List FollowupEvent} {events : List FollowupEvent}
  {labels : List (FollowupAction × List FollowupEvent)}

variable (host w)

/-- The action enqueues no message that could be collected with messages of another route. -/
def AcceptsApart : FollowupAction → Prop
  | .enqueue call =>
    isDuplicate host (w.getFollowupQueue call.settings) call = true ∨
      (w.getFollowupQueue call.settings).refusesNew = true ∨
      (w.getFollowupQueue call.settings).TakesApart host ⟨w.nextId, call.run⟩
  | _ => True

variable (label)

def ApartStep (w' : FollowupQueues) : Prop :=
  w.Step host label w' ∧ w.AcceptsApart host label.1

variable {label}

variable {host w}

/-- All queues are sorted. -/
structure AllSorted (host : RouteHost) (w : FollowupQueues) : Prop where
  queue : ∀ q, w.queue = some q → Sorted host q
  removed : ∀ q ∈ w.removed, Sorted host q

section

variable (h : AllSorted host w)
include h

theorem AllSorted.scheduleFollowupDrain : AllSorted host w.scheduleFollowupDrain := by
  unfold FollowupQueues.scheduleFollowupDrain
  split
  · exact h
  · next q hq =>
    split
    · exact h
    · refine ⟨fun q' hq' => ?_, ?_⟩
      · rw [settle_queue] at hq'
        exact (sorted_loopHead (h.queue q hq).faithful false).rearm hq'
      · rw [settle_removed]
        exact h.removed

theorem sorted_getFollowupQueue (settings : QueueSettings) :
    Sorted host (w.getFollowupQueue settings) := by
  unfold getFollowupQueue
  cases hq : w.queue with
  | none =>
    refine ⟨fun _ hm => absurd hm (by simp [created, applyQueueRuntimeSettings]), fun _ hd => ?_,
      fun _ _ _ _ hd => ?_⟩ <;>
      exact absurd hd (by simp [created, applyQueueRuntimeSettings])
  | some q =>
    have hsorted := h.queue q hq
    exact ⟨hsorted.faithful, hsorted.copied, hsorted.groups⟩

theorem AllSorted.enqueueFollowupRun (call : EnqueueCall)
    (haccepts : w.AcceptsApart host (.enqueue call)) :
    AllSorted host (w.enqueueFollowupRun host call).1 := by
  have hsorted := sorted_getFollowupQueue h call.settings
  have hkept : ∀ (queue : FollowupQueueState) (hasCallback : Bool) (nextId : ℕ), Sorted host queue →
      AllSorted host { w with queue := some queue, hasCallback := hasCallback, nextId := nextId } :=
    fun queue _ _ hq => ⟨fun q' hq' => some.inj hq' ▸ hq, h.removed⟩
  unfold FollowupQueues.enqueueFollowupRun
  dsimp only
  split
  · exact hkept _ _ _ hsorted
  · next hduplicate =>
    have htouched : Sorted host
        { w.getFollowupQueue call.settings with lastRun := some call.run.run } :=
      ⟨hsorted.faithful, hsorted.copied, hsorted.groups⟩
    split
    · exact hkept _ _ _ htouched
    · next hrefused =>
      have htakes : TakesApart host
          { w.getFollowupQueue call.settings with lastRun := some call.run.run }
          ⟨w.nextId, call.run⟩ := by
        rcases haccepts with hsame | hnew | htakes
        · exact absurd hsame hduplicate
        · exact absurd hnew hrefused
        · exact ⟨htakes.gap, htakes.faithful⟩
      have hpushed := hkept _ (w.hasCallback || call.hasRunFollowup) (w.nextId + 1)
        (htouched.pushed htakes)
      split
      · unfold kickFollowupDrainIfIdle
        split
        · exact hpushed.scheduleFollowupDrain
        · exact hpushed
      · exact hpushed

theorem AllSorted.clearFollowupQueue : AllSorted host w.clearFollowupQueue.1 := by
  unfold FollowupQueues.clearFollowupQueue
  split
  · exact h
  · next q hq =>
    have hsorted := h.queue q hq
    refine ⟨fun q' hq' => absurd hq' (by simp), fun q' hq' => ?_⟩
    dsimp only at hq'
    split at hq'
    · rcases mem_append.mp hq' with hold | hnew
      · exact h.removed q' hold
      · rw [mem_singleton] at hnew
        exact hnew ▸ ⟨fun _ hm => absurd hm (by simp), fun _ _ => .nil, hsorted.groups⟩
    · exact h.removed q' hq'

theorem AllSorted.settleRemoved (index : ℕ) (hq : Sorted host q) :
    AllSorted host (w.settleRemoved index q) := by
  have herased : AllSorted host { w with removed := w.removed.eraseIdx index } :=
    ⟨h.queue, fun q' hq' => h.removed q' (mem_of_mem_eraseIdx hq')⟩
  unfold FollowupQueues.settleRemoved
  split
  · refine ⟨h.queue, fun q' hq' => ?_⟩
    rcases mem_or_eq_of_mem_set hq' with hold | hnew
    · exact h.removed q' hold
    · exact hnew ▸ hq
  · split
    · exact herased.scheduleFollowupDrain
    · exact herased

end

/-- The calls among the events keep to one authorization and one route. -/
def CallsApart (host : RouteHost) (events : List FollowupEvent) : Prop :=
  ∀ inMap call, .called inMap call ∈ events → call.CollectsApart host

theorem callsApart_map {inMap : Bool} {calls : List FollowupCall}
    (h : ∀ call ∈ calls, call.CollectsApart host) :
    CallsApart host (calls.map (.called inMap)) := by
  intro inMap' call hcall
  obtain ⟨call', hcall', heq⟩ := mem_map.mp hcall
  rw [FollowupEvent.called.injEq] at heq
  exact heq.2 ▸ h call' hcall'

theorem AllSorted.step (h : AllSorted host w) (hstep : w.ApartStep host label w') :
    AllSorted host w' ∧ CallsApart host label.2 := by
  obtain ⟨action, events⟩ := label
  obtain ⟨hperform, haccepts⟩ := hstep
  cases action with
  | enqueue call =>
    obtain ⟨rfl, rfl⟩ := step_unique rfl hperform
    refine ⟨h.enqueueFollowupRun call haccepts, fun inMap call' hcall => ?_⟩
    unfold FollowupQueues.enqueueFollowupRun at hcall
    dsimp only at hcall
    split at hcall
    · exact nomatch hcall
    · split at hcall <;> exact nomatch hcall
  | schedule =>
    obtain ⟨rfl, rfl⟩ := step_unique rfl hperform
    exact ⟨h.scheduleFollowupDrain, fun _ _ hcall => absurd hcall (by simp)⟩
  | clearQueue =>
    obtain ⟨rfl, rfl⟩ := step_unique rfl hperform
    refine ⟨h.clearFollowupQueue, fun inMap call hcall => ?_⟩
    unfold FollowupQueues.clearFollowupQueue at hcall
    split at hcall <;> exact nomatch hcall
  | clearSession =>
    obtain ⟨rfl, rfl⟩ := step_unique rfl hperform
    have hcleared := h.clearFollowupQueue
    refine ⟨⟨hcleared.queue, hcleared.removed⟩, fun inMap call hcall => ?_⟩
    unfold clearSessionQueues FollowupQueues.clearFollowupQueue at hcall
    dsimp only at hcall
    split at hcall <;> exact nomatch hcall
  | drain outcome =>
    obtain ⟨q, next, hq, hnext, rfl, rfl⟩ := step_drain_iff.mp hperform
    have hapart := staysApart_resume (h.queue q hq) hnext
    refine ⟨⟨fun q' hq' => ?_, ?_⟩, callsApart_map hapart.calls⟩
    · rw [settle_queue] at hq'
      exact hapart.sorted.rearm hq'
    · rw [settle_removed]
      exact h.removed
  | drainRemoved index outcome =>
    obtain ⟨q, next, hq, hnext, rfl, rfl⟩ := step_drainRemoved_iff.mp hperform
    have hapart := staysApart_resume (h.removed q (mem_of_getElem? hq)) hnext
    exact ⟨h.settleRemoved index hapart.sorted, callsApart_map hapart.calls⟩

theorem allSorted_initial (host : RouteHost) : AllSorted host initial :=
  ⟨fun _ h => absurd h (by simp [initial]), fun _ h => absurd h (by simp [initial])⟩

variable (host labels)

/-- Where no message comes into the gap of a collecting drain with the authorization of its
neighbour and another route, and no two routes of waiting messages have one compact key,
every call collects messages of one authorization and one route, and is sent by that route. -/
theorem followups_keptApart (w : FollowupQueues)
    (hrun : Run (ApartStep host) initial labels w) : ∀ label ∈ labels, CallsApart host label.2 := by
  have hboth := hrun.historyInvariant
    (fun w labels => AllSorted host w ∧ ∀ label ∈ labels, CallsApart host label.2)
    (fun hinv hstep => ?_) ⟨allSorted_initial host, by simp⟩
  · exact hboth.2
  · obtain ⟨hsorted, hcalls⟩ := hinv.1.step hstep
    refine ⟨hsorted, fun label hlabel => ?_⟩
    rcases mem_append.mp hlabel with hold | hnew
    · exact hinv.2 label hold
    · rw [mem_singleton] at hnew
      exact hnew ▸ hcalls

variable {host labels}

/-- Messages of one sender in one chat, in the collect mode. -/
def collecting (items : List QueuedRun) (phase : DrainPhase) : FollowupQueues :=
  ⟨some ⟨items, some ⟨phase, false⟩, .collect, 20, .summarize, [], [],
    items.getLast?.map (·.followup.run)⟩, [], true, items.length⟩

/-- Two messages of one sender in one chat are collected, and answered there. -/
theorem followups_keptApart_two : let a : QueuedRun := ⟨0, .telegram "a" "x" "1"⟩
    let b : QueuedRun := ⟨1, .telegram "b" "x" "1"⟩
    (FollowupCall.collected ⟨[a, b], some ⟨.skipped, false⟩, .collect, 20, .summarize, [], [],
      some b.followup.run⟩ [a, b] b.followup.run none).KeepsApart .telegramOnly := by
  intro a b
  let settings : QueueSettings := ⟨.collect, none, none⟩
  have hfirst : ApartStep .telegramOnly initial
      (.enqueue (.plain a.followup settings), [.dropped [] .summarize, .accepted a])
      (collecting [a] .debouncing) := by
    refine ⟨by decide +kernel, .inr (.inr ⟨fun _ hd => absurd hd (by simp [getFollowupQueue,
      initial, created, applyQueueRuntimeSettings]), fun m hm => absurd hm (by simp
      [getFollowupQueue, initial, created, applyQueueRuntimeSettings])⟩)⟩
  have hsecond : ApartStep .telegramOnly (collecting [a] .debouncing)
      (.enqueue (.plain b.followup settings), [.dropped [] .summarize, .accepted b])
      (collecting [a, b] .debouncing) := by
    refine ⟨by decide +kernel, .inr (.inr ⟨fun _ hd => absurd hd (by simp [getFollowupQueue,
      collecting, applyQueueRuntimeSettings]), fun m hm _ _ _ => ?_⟩)⟩
    have hm' : m = a := by simpa [getFollowupQueue, collecting, applyQueueRuntimeSettings] using hm
    subst hm'
    decide +kernel
  have hskipped : ApartStep .telegramOnly (collecting [a, b] .debouncing)
      (.drain .resolved, []) (collecting [a, b] .skipped) := ⟨by decide +kernel, trivial⟩
  have hcollected : ApartStep .telegramOnly (collecting [a, b] .skipped)
      (.drain .resolved, [.called true (.collected ⟨[a, b], some ⟨.skipped, false⟩, .collect, 20,
        .summarize, [], [], some b.followup.run⟩ [a, b] b.followup.run none)])
      (collecting [a, b] (.runningGroup 2 [] false)) := ⟨by decide +kernel, trivial⟩
  have hall := followups_keptApart .telegramOnly _ _
    (.cons hfirst (.cons hsecond (.cons hskipped (.single hcollected))))
  have hlast := hall _ (mem_cons_of_mem _ (mem_cons_of_mem _ (mem_cons_of_mem _ mem_cons_self)))
  exact hlast true _ mem_cons_self (by decide)

/-- A message to another chat that comes in while the drain waits for a step that has skipped. -/
def enqueueInGap : List FollowupAction :=
  [.enqueue (.plain (.telegram "a" "x" "1") ⟨.collect, none, none⟩), .drain .resolved,
    .enqueue (.plain (.telegram "b" "x" "2") ⟨.collect, none, none⟩), .drain .resolved]

theorem not_followups_keptApart :
    ¬ ∀ (host : RouteHost) (labels : List (FollowupAction × List FollowupEvent))
      (w : FollowupQueues), Run (Step host) initial labels w →
        ∀ label ∈ labels, CallsApart host label.2 := by
  intro hall
  let mixes : FollowupEvent → Bool := fun
    | .called _ call => decide (1 < call.messages.length) &&
      call.messages.any fun m => call.messages.any fun m' =>
        decide (m.crossChannelKey .telegramOnly ≠ m'.crossChannelKey .telegramOnly)
    | _ => false
  have hmixed : ((replay .telegramOnly initial enqueueInGap).any fun last =>
      last.2.any fun label => label.2.any mixes) = true := by decide +kernel
  obtain ⟨last, hlast, hlabels⟩ := (Option.any_eq_true _ _).mp hmixed
  obtain ⟨label, hlabel, hevents⟩ := any_eq_true.mp hlabels
  obtain ⟨event, hevent, hmixes⟩ := any_eq_true.mp hevents
  cases event with
  | called inMap call =>
    rw [Bool.and_eq_true, decide_eq_true_eq] at hmixes
    have hcalls := hall .telegramOnly last.2 last.1 (run_of_replay _ _ _ _ hlast) label hlabel
    obtain ⟨key, _, hkey, _⟩ := (hcalls inMap call hevent hmixes.1).route
    obtain ⟨m, hm, hother⟩ := any_eq_true.mp hmixes.2
    obtain ⟨m', hm', hne⟩ := any_eq_true.mp hother
    exact of_decide_eq_true hne ((hkey m hm).trans (hkey m' hm').symm)
  | accepted | dropped | cleared => exact absurd hmixes (by simp [mixes])

end FollowupQueues

end OpenClaw
