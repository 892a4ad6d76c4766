import OpenClaw.Lanes.Order
import OpenClaw.Lanes.Work

/-!
# Waiting for the active tasks

A waiter holds the tasks that were active when it was called. Task identities are never used
again, so what starts later is none of them; and whatever takes an identity out of a lane
notifies the waiters before the stack is empty again.
-/

namespace OpenClaw

open Lts List Bool

namespace CommandQueue

variable {q q' : CommandQueue} {lane lane' : Str} {label : Action × List QueueEvent}
  {labels : List (Action × List QueueEvent)}

/-! ## What notifying does -/

/-- One of the tasks is active in some lane. -/
def AnyActive (q : CommandQueue) (taskIds : Finset ℕ) : Prop :=
  ∃ lane, ¬ Disjoint taskIds (q.lanes lane).activeTaskIds

theorem hasPendingActiveTasks_iff (h : InMap q) (taskIds : Finset ℕ) :
    q.hasPendingActiveTasks taskIds = true ↔ q.AnyActive taskIds := by
  simp only [hasPendingActiveTasks, any_eq_true, decide_eq_true_eq]
  constructor
  · rintro ⟨lane, _, hmeet⟩
    exact ⟨lane, fun hdisjoint => hmeet hdisjoint.symm⟩
  · rintro ⟨lane, hmeet⟩
    refine ⟨lane, ?_, fun hdisjoint => hmeet hdisjoint.symm⟩
    by_contra hlane
    rw [h.lanes lane hlane] at hmeet
    exact hmeet (Finset.disjoint_empty_right _)

theorem isDrained_iff (h : InMap q) (waiter : ActiveTaskWaiter) :
    q.isDrained waiter = true ↔ ¬ q.AnyActive waiter.activeTaskIds := by
  rw [isDrained, or_eq_true, decide_eq_true_eq, not_eq_true', eq_false_iff,
    ne_eq, hasPendingActiveTasks_iff h]
  constructor
  · rintro (hempty | hnone)
    · rintro ⟨lane, hmeet⟩
      rw [hempty] at hmeet
      exact hmeet (Finset.disjoint_empty_left _)
    · exact hnone
  · exact .inr

/-- Whoever is left by `notifyActiveTaskWaiters` has something to wait for. -/
theorem anyActive_of_notified (h : InMap q) {waiter : ActiveTaskWaiter}
    (hwaiter : waiter ∈ q.notifyActiveTaskWaiters.1.activeTaskWaiters) :
    q.AnyActive waiter.activeTaskIds := by
  by_contra hnone
  have hdrained := (isDrained_iff h waiter).mpr hnone
  simp [notifyActiveTaskWaiters, hdrained] at hwaiter

variable {id : ℕ} {events : List QueueEvent}

/-- Whom it resolves, it resolves with all tasks done. -/
theorem drained_of_notified (h : InMap q) {drained : Bool}
    (hresolved : .waiterResolved id drained ∈ q.notifyActiveTaskWaiters.2) :
    ∃ waiter ∈ q.activeTaskWaiters, waiter.id = id ∧ ¬ q.AnyActive waiter.activeTaskIds := by
  simp only [notifyActiveTaskWaiters, mem_map, mem_filter,
    QueueEvent.waiterResolved.injEq] at hresolved
  obtain ⟨waiter, ⟨hmem, hdrained⟩, hid, _⟩ := hresolved
  exact ⟨waiter, hmem, hid, (isDrained_iff h waiter).mp hdrained⟩

/-! ## Waiters keep waiting for something -/

/-- Every waiter waits for an active task, or a reset is about to notify it. -/
def Attentive (q : CommandQueue) : Prop :=
  (∃ lanesToDrain, .resetLanes lanesToDrain ∈ q.stack) ∨
    ∀ waiter ∈ q.activeTaskWaiters, q.AnyActive waiter.activeTaskIds

theorem AnyActive.mono {taskIds : Finset ℕ} (h : q.AnyActive taskIds)
    (hactive : ∀ lane, (q.lanes lane).activeTaskIds ⊆ (q'.lanes lane).activeTaskIds) :
    q'.AnyActive taskIds := by
  obtain ⟨lane, hmeet⟩ := h
  exact ⟨lane, fun hdisjoint => hmeet (hdisjoint.mono_right (hactive lane))⟩

/-- A step that takes no task out of a lane and adds no waiter. -/
theorem Attentive.mono (h : Attentive q)
    (hstack : ∀ lanesToDrain, .resetLanes lanesToDrain ∈ q.stack → .resetLanes lanesToDrain ∈ q'.stack)
    (hwaiters : q'.activeTaskWaiters ⊆ q.activeTaskWaiters)
    (hactive : ∀ lane, (q.lanes lane).activeTaskIds ⊆ (q'.lanes lane).activeTaskIds) :
    Attentive q' := by
  rcases h with ⟨lanesToDrain, hmem⟩ | hall
  · exact .inl ⟨lanesToDrain, hstack lanesToDrain hmem⟩
  · exact .inr fun waiter hwaiter => (hall waiter (hwaiters hwaiter)).mono hactive

theorem Attentive.drainLane (h : Attentive q) (lane : Str) : Attentive (q.drainLane lane) := by
  refine h.mono (fun lanesToDrain hmem => ?_) ?_ fun lane' => ?_
  · obtain ⟨_, heq⟩ | ⟨_, heq⟩ := drainLane_cases q lane
    · exact heq ▸ hmem
    · exact heq ▸ mem_cons_of_mem _ hmem
  · rw [(drainLane_frame q lane).2.2.1]
    exact fun _ => id
  · rw [drainLane_activeTaskIds]

theorem attentive_notify (h : InMap q) : Attentive q.notifyActiveTaskWaiters.1 :=
  .inr fun _ hwaiter => anyActive_of_notified h hwaiter

/-- A part of the lane states in which no task leaves its lane. -/
theorem activeTaskIds_subset_modifyLane {f : LaneState → LaneState}
    (h : ∀ state, state.activeTaskIds ⊆ (f state).activeTaskIds) (q : CommandQueue)
    (lane lane' : Str) :
    (q.lanes lane').activeTaskIds ⊆ ((q.modifyLane lane f).lanes lane').activeTaskIds := by
  by_cases hlane : lane' = lane
  · subst hlane
    rw [modifyLane_self]
    exact h _
  · rw [modifyLane_ne _ hlane]

theorem activeTaskIds_subset_startEntry (q : CommandQueue) (lane lane' : Str) (entry : QueueEntry) :
    (q.lanes lane').activeTaskIds ⊆ ((q.startEntry lane entry).1.lanes lane').activeTaskIds :=
  activeTaskIds_subset_modifyLane (f := fun state =>
    { state with activeTaskIds := insert q.nextTaskId state.activeTaskIds })
    (fun _ => Finset.subset_insert _ _) q lane lane'

theorem Attentive.call (h : Attentive q) (hmap : InMap q) (operation : Operation) :
    Attentive (q.call operation).1 := by
  cases operation with
  | markGatewayDraining => exact h
  | setCommandLaneConcurrency lane maxConcurrent =>
    have hstored : Attentive ((q.getLaneState (normalizeLane lane)).modifyLane
        (normalizeLane lane) ({ · with
          maxConcurrent := resolveConcurrency (normalizeLane lane) maxConcurrent })) := by
      refine h.mono (fun _ => id) (fun _ => id) fun lane' => ?_
      by_cases hlane : lane' = normalizeLane lane <;> simp [modifyLane, getLaneState, hlane]
    simp only [CommandQueue.call, setCommandLaneConcurrency]
    split
    · exact hstored.drainLane _
    · exact hstored
  | enqueueCommandInLane lane warnAfterMs taskTimeoutMs hasOnWait now =>
    simp only [CommandQueue.call, enqueueCommandInLane]
    split
    · exact h
    · apply Attentive.drainLane
      refine h.mono (fun _ => id) (fun _ => id) fun lane' => ?_
      by_cases hlane : lane' = normalizeLane lane <;> simp [modifyLane, getLaneState, hlane]
  | clearCommandLane lane =>
    simp only [CommandQueue.call, clearCommandLane]
    split
    · refine h.mono (fun _ => id) (fun _ => id) fun lane' => ?_
      by_cases hlane : lane' = normalizeLane lane <;> simp [modifyLane, hlane]
    · exact h
  | resetCommandLane lane =>
    simp only [CommandQueue.call, resetCommandLane]
    split
    · exact .inl ⟨_, mem_cons_self⟩
    · exact h
  | resetAllLanes => exact .inl ⟨_, mem_cons_self⟩
  | waitForActiveTasks timeoutMs =>
    simp only [CommandQueue.call, waitForActiveTasks]
    split
    · exact h
    split
    · exact h
    · apply attentive_notify
      exact ⟨hmap.lanes, hmap.frames, hmap.running⟩

theorem Attentive.finishTask (h : Attentive q) (hmap : InMap q) {task : RunningTask}
    (hrunning : task ∈ q.running) (hstack : q.stack = []) (outcome : TaskOutcome) :
    Attentive (q.finishTask task outcome).1 := by
  have hall : ∀ waiter ∈ q.activeTaskWaiters, q.AnyActive waiter.activeTaskIds :=
    h.resolve_left fun ⟨_, hmem⟩ => by simp [hstack] at hmem
  unfold CommandQueue.finishTask
  extract_lets completed notified
  split
  · -- the completion has notified every waiter
    exact .inr fun waiter hwaiter => anyActive_of_notified (hmap.completeTask hrunning) hwaiter
  · rename_i hstale
    have hsame : completed.1 = _ := completeTask_stale (by simpa using hstale)
    rw [hsame]
    exact .inr hall

theorem mem_below {frame other : Frame} {rest : List Frame} (hstack : q.stack = frame :: rest)
    (hne : other ≠ frame) (hmem : other ∈ q.stack) : other ∈ rest := by
  rw [hstack] at hmem
  exact mem_of_ne_of_mem hne hmem

theorem step_attentive (hmap : InMap q) (h : Attentive q) (hstep : Step q label q') :
    Attentive q' := by
  cases hstep with
  | call operation _ => exact h.call hmap operation
  | pump lane rest now hstack =>
    obtain ⟨_, heq⟩ | ⟨entry, queue, _, _, heq | heq⟩ := q.pump_cases lane rest now
    · rw [heq]
      refine h.mono (fun lanesToDrain hmem => ?_) (fun _ => id) fun lane' => ?_
      · exact mem_below hstack (by simp) hmem
      · by_cases hlane : lane' = lane <;> simp [withStack, modifyLane, hlane]
    · rw [heq]
      refine h.mono (fun lanesToDrain hmem => ?_) (fun _ => id) fun lane' => ?_
      · exact mem_cons_of_mem _ (mem_below hstack (by simp) hmem)
      · by_cases hlane : lane' = lane <;> simp [withStack, modifyLane, hlane]
    · rw [heq]
      refine h.mono (fun lanesToDrain hmem => ?_) (fun _ => id) fun lane' => ?_
      · exact mem_cons_of_mem _ (mem_below hstack (by simp) hmem)
      · refine .trans ?_ (activeTaskIds_subset_startEntry _ lane lane' entry)
        by_cases hlane : lane' = lane <;> simp [withStack, modifyLane, hlane]
  | onWait lane entry rest now hstack =>
    refine h.mono (fun lanesToDrain hmem => ?_) (fun _ => id) fun lane' => ?_
    · exact mem_cons_of_mem _ (mem_below hstack (by simp) hmem)
    · exact activeTaskIds_subset_startEntry (q.withStack (.pump lane :: rest)) lane lane' entry
  | settle lane entry outcome rest now hstack =>
    refine h.mono (fun lanesToDrain hmem => ?_) (fun _ => id) fun _ => Finset.Subset.refl _
    exact mem_below hstack (by simp) hmem
  | resetLanes lanesToDrain rest now hstack =>
    cases lanesToDrain with
    | nil =>
      apply attentive_notify
      exact hmap.withStack fun frame hmem => .inl (hstack ▸ mem_cons_of_mem _ hmem)
    | cons lane lanes => exact Attentive.drainLane (.inl ⟨lanes, mem_cons_self⟩) lane
  | complete task outcome hstack hrunning _ => exact h.finishTask hmap hrunning hstack outcome
  | timeout waiter _ _ _ =>
    exact h.mono (fun _ => id) (erase_subset) fun _ => Finset.Subset.refl _

/-! ## What a waiter has captured -/

theorem mem_allActiveTaskIds (h : InMap q) {taskId : ℕ} :
    taskId ∈ q.allActiveTaskIds ↔ ∃ lane, taskId ∈ (q.lanes lane).activeTaskIds := by
  have hfold (names : List Str) :
      taskId ∈ names.foldr (fun lane ids => (q.lanes lane).activeTaskIds ∪ ids) ∅ ↔
        ∃ lane ∈ names, taskId ∈ (q.lanes lane).activeTaskIds := by
    induction names with
    | nil => simp
    | cons lane names ih => simp [ih]
  rw [allActiveTaskIds, hfold]
  constructor
  · rintro ⟨lane, _, hmem⟩
    exact ⟨lane, hmem⟩
  · rintro ⟨lane, hmem⟩
    refine ⟨lane, ?_, hmem⟩
    by_contra hlane
    rw [h.lanes lane hlane] at hmem
    exact absurd hmem (Finset.notMem_empty _)

/-- A step registers no waiter, or the one of a call of `waitForActiveTasks`. -/
def Registers (q q' : CommandQueue) (events : List QueueEvent) : Prop :=
  (q'.nextWaiterId = q.nextWaiterId ∧ (∀ id taskIds, .waiting id taskIds ∉ events) ∧
      q'.activeTaskWaiters ⊆ q.activeTaskWaiters) ∨
    (q'.nextWaiterId = q.nextWaiterId + 1 ∧
      (∀ id taskIds, .waiting id taskIds ∈ events ↔
        id = q.nextWaiterId ∧ taskIds = q.allActiveTaskIds) ∧
      ∀ waiter ∈ q'.activeTaskWaiters, waiter ∈ q.activeTaskWaiters ∨
        waiter.id = q.nextWaiterId ∧ waiter.activeTaskIds = q.allActiveTaskIds)

theorem notMem_notify_waiting {taskIds : Finset ℕ} :
    .waiting id taskIds ∉ q.notifyActiveTaskWaiters.2 := by
  simp [notifyActiveTaskWaiters]

theorem notify_subset : q.notifyActiveTaskWaiters.1.activeTaskWaiters ⊆ q.activeTaskWaiters :=
  fun _ hmem => (mem_filter.mp hmem).1

theorem drainLane_registers (lane : Str) (hwaiters : q'.activeTaskWaiters = q.activeTaskWaiters)
    (hnext : q'.nextWaiterId = q.nextWaiterId)
    (hevents : ∀ id taskIds, .waiting id taskIds ∉ events) :
    Registers q (q'.drainLane lane) events := by
  obtain ⟨_, _, hwaiters', _, _, hnext', _⟩ := drainLane_frame q' lane
  exact .inl ⟨hnext'.trans hnext, hevents, hwaiters' ▸ hwaiters ▸ fun _ => id⟩

variable (q)

theorem waitForActiveTasks_registers (timeoutMs : Option JsNumber) :
    Registers q (q.waitForActiveTasks timeoutMs).1 (q.waitForActiveTasks timeoutMs).2 := by
  unfold waitForActiveTasks
  extract_lets activeAtStart called waiting waiter notified
  refine .inr ?_
  split
  · exact ⟨rfl, by simp [waiting, activeAtStart], fun _ => .inl⟩
  split
  · exact ⟨rfl, by simp [waiting, activeAtStart], fun _ => .inl⟩
  · refine ⟨rfl, fun id taskIds => ?_, fun other hother => ?_⟩
    · have hnone : QueueEvent.waiting id taskIds ∉ notified.2 := notMem_notify_waiting
      simp [hnone, waiting, activeAtStart]
    · rcases mem_append.mp (notify_subset hother) with hold | hnew
      · exact .inl hold
      · obtain rfl := mem_singleton.mp hnew
        exact .inr ⟨rfl, rfl⟩

theorem call_registers (operation : Operation) :
    Registers q (q.call operation).1 (q.call operation).2 := by
  cases operation with
  | markGatewayDraining => exact .inl ⟨rfl, fun _ _ => not_mem_nil, fun _ => id⟩
  | setCommandLaneConcurrency lane maxConcurrent =>
    simp only [call, setCommandLaneConcurrency]
    split
    · exact drainLane_registers _ rfl rfl fun _ _ => not_mem_nil
    · exact .inl ⟨rfl, fun _ _ => not_mem_nil, fun _ => id⟩
  | enqueueCommandInLane lane warnAfterMs taskTimeoutMs hasOnWait now =>
    simp only [call, enqueueCommandInLane]
    split
    · exact .inl ⟨rfl, by simp, fun _ => id⟩
    · refine drainLane_registers _ ?_ ?_ fun _ _ => ?_
      · rfl
      · rfl
      · simp
  | clearCommandLane lane =>
    simp only [call, clearCommandLane]
    split
    · exact .inl ⟨rfl, by simp, fun _ => id⟩
    · exact .inl ⟨rfl, fun _ _ => not_mem_nil, fun _ => id⟩
  | resetCommandLane lane =>
    simp only [call, resetCommandLane]
    split <;> exact .inl ⟨rfl, fun _ _ => not_mem_nil, fun _ => id⟩
  | resetAllLanes => exact .inl ⟨rfl, fun _ _ => not_mem_nil, fun _ => id⟩
  | waitForActiveTasks timeoutMs => exact q.waitForActiveTasks_registers timeoutMs

theorem completeTask_waiters (task : RunningTask) :
    (q.completeTask task).1.activeTaskWaiters = q.activeTaskWaiters ∧
      (q.completeTask task).1.nextWaiterId = q.nextWaiterId := by
  unfold completeTask
  split <;> exact ⟨rfl, rfl⟩

variable {q}

theorem step_registers (hstep : Step q label q') : Registers q q' label.2 := by
  cases hstep with
  | call operation _ => exact q.call_registers operation
  | pump lane rest now _ =>
    obtain ⟨_, heq⟩ | ⟨entry, queue, _, _, heq | heq⟩ := q.pump_cases lane rest now
    · rw [heq]
      exact .inl ⟨rfl, fun _ _ => not_mem_nil, fun _ => id⟩
    · rw [heq]
      exact .inl ⟨rfl, fun _ _ => not_mem_nil, fun _ => id⟩
    · rw [heq]
      exact .inl ⟨rfl, by simp [startEntry], fun _ => id⟩
  | resetLanes lanesToDrain rest now _ =>
    cases lanesToDrain with
    | nil => exact .inl ⟨rfl, fun _ _ => notMem_notify_waiting, notify_subset⟩
    | cons lane lanes => exact drainLane_registers lane rfl rfl fun _ _ => not_mem_nil
  | complete task outcome _ _ _ =>
    obtain ⟨hwaiters, hnext⟩ := completeTask_waiters { q with running := q.running.erase task } task
    refine .inl ?_
    dsimp only
    unfold finishTask
    extract_lets completed notified
    split
    · exact ⟨hnext, fun _ _ => notMem_notify_waiting, fun _ hmem => hwaiters ▸ notify_subset hmem⟩
    · exact ⟨hnext, fun _ _ => not_mem_nil, fun _ hmem => hwaiters ▸ hmem⟩
  | timeout waiter _ _ _ => exact .inl ⟨rfl, by simp, erase_subset⟩
  | _ => exact .inl ⟨rfl, by simp, fun _ => id⟩

/-- A waiter belongs to one call, whose active tasks it holds. -/
structure Captured (q : CommandQueue) (events : List QueueEvent) : Prop where
  bound : ∀ id taskIds, .waiting id taskIds ∈ events → id < q.nextWaiterId
  unique : ∀ id taskIds taskIds', .waiting id taskIds ∈ events → .waiting id taskIds' ∈ events →
    taskIds = taskIds'
  registered : ∀ waiter ∈ q.activeTaskWaiters, .waiting waiter.id waiter.activeTaskIds ∈ events

theorem Captured.step (h : Captured q events)
    (hstep : Registers q q' label.2) : Captured q' (events ++ label.2) := by
  rcases hstep with ⟨hnext, hnone, hwaiters⟩ | ⟨hnext, hevents, hwaiters⟩
  · have hold {id : ℕ} {taskIds : Finset ℕ} (hmem : .waiting id taskIds ∈ events ++ label.2) :
        .waiting id taskIds ∈ events :=
      (mem_append.mp hmem).resolve_right (hnone id taskIds)
    exact ⟨fun id taskIds hmem => hnext ▸ h.bound id taskIds (hold hmem),
      fun id taskIds taskIds' hmem hmem' => h.unique id taskIds taskIds' (hold hmem) (hold hmem'),
      fun waiter hwaiter => mem_append_left _ (h.registered waiter (hwaiters hwaiter))⟩
  · have hsplit {id : ℕ} {taskIds : Finset ℕ} (hmem : .waiting id taskIds ∈ events ++ label.2) :
        (.waiting id taskIds ∈ events ∧ id < q.nextWaiterId) ∨
          id = q.nextWaiterId ∧ taskIds = q.allActiveTaskIds := by
      rcases mem_append.mp hmem with hold | hnew
      · exact .inl ⟨hold, h.bound id taskIds hold⟩
      · exact .inr ((hevents id taskIds).mp hnew)
    refine ⟨fun id taskIds hmem => ?_, fun id taskIds taskIds' hmem hmem' => ?_,
      fun waiter hwaiter => ?_⟩
    · rcases hsplit hmem with ⟨_, hlt⟩ | ⟨heq, _⟩ <;> omega
    · rcases hsplit hmem with ⟨hold, hlt⟩ | ⟨heq, htasks⟩ <;>
        rcases hsplit hmem' with ⟨hold', hlt'⟩ | ⟨heq', htasks'⟩
      · exact h.unique id taskIds taskIds' hold hold'
      · omega
      · omega
      · rw [htasks, htasks']
    · rcases hwaiters waiter hwaiter with hold | ⟨hid, htasks⟩
      · exact mem_append_left _ (h.registered waiter hold)
      · exact mem_append_right _ ((hevents _ _).mpr ⟨hid, htasks⟩)

/-! ## Task identities -/

/-- A call starts no task. -/
theorem call_tasks (q : CommandQueue) (operation : Operation) :
    (q.call operation).1.nextTaskId = q.nextTaskId ∧ ∀ lane,
      ((q.call operation).1.lanes lane).activeTaskIds ⊆ (q.lanes lane).activeTaskIds := by
  cases operation with
  | markGatewayDraining => exact ⟨rfl, fun _ => Finset.Subset.refl _⟩
  | setCommandLaneConcurrency lane maxConcurrent =>
    simp only [call, setCommandLaneConcurrency]
    split
    · refine ⟨(drainLane_frame _ _).2.2.2.1, fun lane' => ?_⟩
      rw [drainLane_activeTaskIds]
      by_cases hlane : lane' = normalizeLane lane <;> simp [modifyLane, getLaneState, hlane]
    · refine ⟨rfl, fun lane' => ?_⟩
      by_cases hlane : lane' = normalizeLane lane <;> simp [modifyLane, getLaneState, hlane]
  | enqueueCommandInLane lane warnAfterMs taskTimeoutMs hasOnWait now =>
    have hroom (lane' : Str) :=
      q.enqueue_sameRoom lane lane' warnAfterMs taskTimeoutMs hasOnWait now
    refine ⟨?_, fun lane' => (hroom lane').2.le⟩
    simp only [call, enqueueCommandInLane]
    split
    · rfl
    · exact (drainLane_frame _ _).2.2.2.1
  | clearCommandLane lane =>
    simp only [call, clearCommandLane]
    split
    · refine ⟨rfl, fun lane' => ?_⟩
      by_cases hlane : lane' = normalizeLane lane <;> simp [modifyLane, hlane]
    · exact ⟨rfl, fun _ => Finset.Subset.refl _⟩
  | resetCommandLane lane =>
    simp only [call, resetCommandLane]
    split
    · refine ⟨rfl, fun lane' => ?_⟩
      by_cases hlane : lane' = normalizeLane lane <;>
        simp [withStack, modifyLane, LaneState.reset, hlane]
    · exact ⟨rfl, fun _ => Finset.Subset.refl _⟩
  | resetAllLanes =>
    refine ⟨rfl, fun lane => ?_⟩
    simp only [call, resetAllLanes]
    split
    · exact Finset.empty_subset _
    · exact Finset.Subset.refl _
  | waitForActiveTasks timeoutMs =>
    simp only [call, waitForActiveTasks]
    split
    · exact ⟨rfl, fun _ => Finset.Subset.refl _⟩
    split <;> exact ⟨rfl, fun _ => Finset.Subset.refl _⟩

/-- A step starts at most one task, under the next identity. -/
structure TakesTaskIds (q q' : CommandQueue) (events : List QueueEvent) : Prop where
  le : q.nextTaskId ≤ q'.nextTaskId
  started : ∀ lane entry taskId, .started lane entry taskId ∈ events → taskId = q.nextTaskId ∧
    q.nextTaskId < q'.nextTaskId
  active : ∀ lane, ∀ taskId ∈ (q'.lanes lane).activeTaskIds,
    taskId ∈ (q.lanes lane).activeTaskIds ∨ taskId < q'.nextTaskId

/-- A step that starts nothing. -/
theorem takesTaskIds_of_subset (hnext : q'.nextTaskId = q.nextTaskId)
    (hevents : ∀ lane entry taskId, .started lane entry taskId ∉ events)
    (hactive : ∀ lane, (q'.lanes lane).activeTaskIds ⊆ (q.lanes lane).activeTaskIds) :
    TakesTaskIds q q' events where
  le := hnext.ge
  started lane entry taskId hmem := absurd hmem (hevents lane entry taskId)
  active lane _ hmem := .inl (hactive lane hmem)

theorem startEntry_takesTaskIds (q' : CommandQueue) {entry : QueueEntry}
    (hnext : q'.nextTaskId = q.nextTaskId)
    (hactive : ∀ lane, (q'.lanes lane).activeTaskIds ⊆ (q.lanes lane).activeTaskIds) :
    TakesTaskIds q (q'.startEntry lane entry).1 (q'.startEntry lane entry).2 where
  le := by
    rw [← hnext]
    exact Nat.le_succ _
  started lane' entry' taskId hmem := by
    obtain ⟨_, _, htask⟩ := QueueEvent.started.inj (mem_singleton.mp hmem)
    rw [htask, ← hnext]
    exact ⟨rfl, Nat.lt_succ_self _⟩
  active lane' taskId hmem := by
    by_cases hlane : lane' = lane
    · rw [hlane, show (q'.startEntry lane entry).1.lanes lane = { q'.lanes lane with
        activeTaskIds := insert q'.nextTaskId (q'.lanes lane).activeTaskIds } by
          simp [startEntry]] at hmem
      rcases Finset.mem_insert.mp hmem with hnew | hold
      · exact .inr (hnew ▸ Nat.lt_succ_self _)
      · exact .inl (hlane ▸ hactive lane hold)
    · rw [startEntry_lanes_ne hlane] at hmem
      exact .inl (hactive lane' hmem)

theorem completeTask_tasks (q : CommandQueue) (task : RunningTask) :
    (q.completeTask task).1.nextTaskId = q.nextTaskId ∧ ∀ lane,
      ((q.completeTask task).1.lanes lane).activeTaskIds ⊆ (q.lanes lane).activeTaskIds := by
  unfold completeTask
  split
  · refine ⟨rfl, fun lane => ?_⟩
    by_cases hlane : lane = task.lane <;> simp [modifyLane, hlane, Finset.erase_subset]
  · exact ⟨rfl, fun _ => Finset.Subset.refl _⟩

theorem step_takesTaskIds (hstep : Step q label q') : TakesTaskIds q q' label.2 := by
  cases hstep with
  | call operation _ =>
    exact takesTaskIds_of_subset (q.call_tasks operation).1 (fun _ _ _ => notMem_call operation)
      (q.call_tasks operation).2
  | pump lane rest now _ =>
    obtain ⟨_, heq⟩ | ⟨entry, queue, _, _, heq | heq⟩ := q.pump_cases lane rest now
    · rw [heq]
      refine takesTaskIds_of_subset rfl (fun _ _ _ => not_mem_nil) fun lane' => ?_
      by_cases hlane : lane' = lane <;> simp [withStack, modifyLane, hlane]
    · rw [heq]
      refine takesTaskIds_of_subset rfl (fun _ _ _ => not_mem_nil) fun lane' => ?_
      by_cases hlane : lane' = lane <;> simp [withStack, modifyLane, hlane]
    · rw [heq]
      refine startEntry_takesTaskIds _ rfl fun lane' => ?_
      by_cases hlane : lane' = lane <;> simp [withStack, modifyLane, hlane]
  | onWait lane entry rest now _ =>
    exact startEntry_takesTaskIds (q.withStack (.pump lane :: rest)) rfl
      fun _ => Finset.Subset.refl _
  | settle lane entry outcome rest now _ =>
    exact takesTaskIds_of_subset rfl (by simp) fun _ => Finset.Subset.refl _
  | resetLanes lanesToDrain rest now _ =>
    cases lanesToDrain with
    | nil =>
      exact takesTaskIds_of_subset rfl (fun _ _ _ => notMem_notifyActiveTaskWaiters)
        fun _ => Finset.Subset.refl _
    | cons lane lanes =>
      refine takesTaskIds_of_subset (drainLane_frame _ _).2.2.2.1 (fun _ _ _ => not_mem_nil)
        fun lane' => ?_
      simp only [resetLanes, drainLane_activeTaskIds]
      exact Finset.Subset.refl _
  | complete task outcome _ _ _ =>
    obtain ⟨hnext, hactive⟩ := completeTask_tasks { q with running := q.running.erase task } task
    refine takesTaskIds_of_subset ?_ (fun _ _ _ => notMem_finishTask task outcome) fun lane => ?_
    · unfold finishTask
      extract_lets completed notified
      split <;> exact hnext
    · unfold finishTask
      extract_lets completed notified
      split <;> exact hactive lane
  | timeout waiter _ _ _ =>
    exact takesTaskIds_of_subset rfl (by simp) fun _ => Finset.Subset.refl _

/-! ## Resolving -/

/-- What a waiter that is resolved with `drained: true` was waiting for. -/
def ResolvesDrained (q q' : CommandQueue) (events : List QueueEvent) (id : ℕ) : Prop :=
  (∃ waiter ∈ q.activeTaskWaiters, waiter.id = id ∧ ¬ q'.AnyActive waiter.activeTaskIds) ∨
    (.waiting id q.allActiveTaskIds ∈ events ∧ ¬ q'.AnyActive q.allActiveTaskIds)

theorem waitForActiveTasks_resolves (hmap : InMap q) (timeoutMs : Option JsNumber)
    (hresolved : .waiterResolved id true ∈ (q.waitForActiveTasks timeoutMs).2) :
    ResolvesDrained q (q.waitForActiveTasks timeoutMs).1 (q.waitForActiveTasks timeoutMs).2 id := by
  unfold waitForActiveTasks at hresolved ⊢
  extract_lets activeAtStart called waiting waiter notified at hresolved
  extract_lets
  split
  · rename_i hnone
    rw [if_pos hnone] at hresolved
    obtain rfl : id = q.nextWaiterId := by simpa [waiting] using hresolved
    refine .inr ⟨mem_cons_self, ?_⟩
    rintro ⟨lane, hmeet⟩
    rw [show q.allActiveTaskIds = ∅ from hnone] at hmeet
    exact hmeet (Finset.disjoint_empty_left _)
  rename_i hsome
  rw [if_neg hsome] at hresolved
  split
  · rename_i htimeout
    rw [if_pos htimeout] at hresolved
    simp [waiting] at hresolved
  · rename_i htimeout
    rw [if_neg htimeout] at hresolved
    have hnotified := (mem_cons.mp hresolved).resolve_left (by simp [waiting])
    have hcalled : InMap { called with activeTaskWaiters := q.activeTaskWaiters ++ [waiter] } :=
      ⟨hmap.lanes, hmap.frames, hmap.running⟩
    obtain ⟨other, hother, hid, hnone⟩ := drained_of_notified hcalled hnotified
    rcases mem_append.mp hother with hold | hnew
    · exact .inl ⟨other, hold, hid, hnone⟩
    · obtain rfl := mem_singleton.mp hnew
      exact .inr ⟨hid ▸ mem_cons_self, hnone⟩

theorem notMem_call_resolved {drained : Bool} (operation : Operation)
    (hoperation : ∀ timeoutMs, operation ≠ .waitForActiveTasks timeoutMs) :
    .waiterResolved id drained ∉ (q.call operation).2 := by
  cases operation with
  | enqueueCommandInLane lane warnAfterMs taskTimeoutMs hasOnWait now =>
    simp only [call, enqueueCommandInLane]
    split <;> simp
  | clearCommandLane lane =>
    simp only [call, clearCommandLane]
    split <;> simp
  | waitForActiveTasks timeoutMs => exact absurd rfl (hoperation timeoutMs)
  | _ => exact not_mem_nil

theorem step_resolves (hmap : InMap q) (hstep : Step q label q')
    (hresolved : .waiterResolved id true ∈ label.2) : ResolvesDrained q q' label.2 id := by
  cases hstep with
  | call operation _ =>
    cases operation with
    | waitForActiveTasks timeoutMs => exact waitForActiveTasks_resolves hmap timeoutMs hresolved
    | _ => exact absurd hresolved (notMem_call_resolved _ (by simp))
  | pump lane rest now _ =>
    obtain ⟨_, heq⟩ | ⟨entry, queue, _, _, heq | heq⟩ := q.pump_cases lane rest now <;>
      simp [heq, startEntry] at hresolved
  | resetLanes lanesToDrain rest now hstack =>
    cases lanesToDrain with
    | nil =>
      have hrest : InMap (q.withStack rest) :=
        hmap.withStack fun frame hmem => .inl (hstack ▸ mem_cons_of_mem _ hmem)
      obtain ⟨waiter, hmem, hid, hnone⟩ := drained_of_notified hrest hresolved
      exact .inl ⟨waiter, hmem, hid, hnone⟩
    | cons lane lanes => exact absurd hresolved not_mem_nil
  | complete task outcome _ hrunning _ =>
    have hcompleted := hmap.completeTask hrunning
    have hwaiters := (completeTask_waiters { q with running := q.running.erase task } task).1
    dsimp only at hresolved ⊢
    unfold finishTask at hresolved ⊢
    extract_lets completed notified at hresolved
    extract_lets
    split
    · rename_i hcurrent
      rw [if_pos hcurrent] at hresolved
      obtain ⟨waiter, hmem, hid, hnone⟩ := drained_of_notified hcompleted hresolved
      exact .inl ⟨waiter, hwaiters ▸ hmem, hid, hnone⟩
    · rename_i hstale
      rw [if_neg hstale] at hresolved
      exact absurd hresolved not_mem_nil
  | _ => simp at hresolved

/-! ## Runs -/

/-- Identities in use are behind the next one. -/
structure Fresher (q : CommandQueue) (events : List QueueEvent) : Prop where
  active : ∀ lane, ∀ taskId ∈ (q.lanes lane).activeTaskIds, taskId < q.nextTaskId
  captured : ∀ id taskIds, .waiting id taskIds ∈ events → ∀ taskId ∈ taskIds, taskId < q.nextTaskId

theorem Fresher.step (h : Fresher q events) (hmap : InMap q)
    (htasks : TakesTaskIds q q' label.2) (hregisters : Registers q q' label.2) :
    Fresher q' (events ++ label.2) := by
  constructor
  · intro lane taskId hmem
    rcases htasks.active lane taskId hmem with hold | hnew
    · exact (h.active lane taskId hold).trans_le htasks.le
    · exact hnew
  · intro id taskIds hmem taskId htask
    refine lt_of_lt_of_le ?_ htasks.le
    rcases mem_append.mp hmem with hold | hnew
    · exact h.captured id taskIds hold taskId htask
    · rcases hregisters with ⟨_, hnone, _⟩ | ⟨_, hevents, _⟩
      · exact absurd hnew (hnone id taskIds)
      · rw [((hevents id taskIds).mp hnew).2] at htask
        obtain ⟨lane, hactive⟩ := (mem_allActiveTaskIds hmap).mp htask
        exact h.active lane taskId hactive

theorem run_waiters (h : Run Step initial labels q) :
    InMap q ∧ Attentive q ∧ Captured q (eventsOf labels) ∧ Fresher q (eventsOf labels) := by
  refine h.historyInvariant (fun q labels => InMap q ∧ Attentive q ∧
    Captured q (eventsOf labels) ∧ Fresher q (eventsOf labels)) ?_ ?_
  · intro s labels label t ⟨hmap, hattentive, hcaptured, hfresher⟩ hstep
    rw [eventsOf_append, eventsOf_singleton]
    exact ⟨step_inMap hmap hstep, step_attentive hmap hattentive hstep,
      hcaptured.step (step_registers hstep),
      hfresher.step hmap (step_takesTaskIds hstep) (step_registers hstep)⟩
  · exact ⟨initial_inMap, .inr fun _ h => absurd h not_mem_nil,
      ⟨fun _ _ h => absurd h not_mem_nil, fun _ _ _ h => absurd h not_mem_nil,
        fun _ h => absurd h not_mem_nil⟩,
      ⟨fun _ _ h => absurd h (Finset.notMem_empty _), fun _ _ h => absurd h not_mem_nil⟩⟩

/-- Tasks that start later have other identities. -/
theorem run_started_ge {q : CommandQueue} (h : Run Step q labels q') {entry : QueueEntry}
    {taskId : ℕ} (hstarted : .started lane entry taskId ∈ eventsOf labels) :
    q.nextTaskId ≤ taskId := by
  induction h with
  | nil q => exact absurd hstarted not_mem_nil
  | cons hstep _ ih =>
    have htasks := step_takesTaskIds hstep
    rw [eventsOf, flatMap_cons] at hstarted
    rcases mem_append.mp hstarted with hfirst | hrest
    · exact (htasks.started lane entry taskId hfirst).1.ge
    · exact htasks.le.trans (ih hrest)

/-- A call of `waitForActiveTasks` holds the tasks that are active when it is called. It resolves
with `drained: true` only in a state in which none of them is active in any lane; with nothing of
the queue on the stack every waiter that is pending has one of them still active; and no task that
starts after the call is one of them. -/
theorem waitForActiveTasks_exact (h : Run Step initial labels q) :
    (∀ label q' id activeAtStart, Step q label q' → .waiting id activeAtStart ∈ label.2 →
      ∀ taskId, taskId ∈ activeAtStart ↔ ∃ lane, taskId ∈ (q.lanes lane).activeTaskIds) ∧
    (∀ label q' id activeAtStart, Step q label q' → .waiterResolved id true ∈ label.2 →
      .waiting id activeAtStart ∈ eventsOf (labels ++ [label]) →
      ∀ lane, Disjoint activeAtStart (q'.lanes lane).activeTaskIds) ∧
    (∀ waiter ∈ q.activeTaskWaiters, .waiting waiter.id waiter.activeTaskIds ∈ eventsOf labels ∧
      (q.stack = [] → ∃ lane, ¬ Disjoint waiter.activeTaskIds (q.lanes lane).activeTaskIds)) ∧
    (∀ later q' id activeAtStart lane entry taskId, Run Step q later q' →
      .waiting id activeAtStart ∈ eventsOf labels → .started lane entry taskId ∈ eventsOf later →
      taskId ∉ activeAtStart) := by
  obtain ⟨hmap, hattentive, hcaptured, hfresher⟩ := run_waiters h
  refine ⟨?_, ?_, ?_, ?_⟩
  · intro label q' id activeAtStart hstep hwaiting taskId
    rcases step_registers hstep with ⟨_, hnone, _⟩ | ⟨_, hevents, _⟩
    · exact absurd hwaiting (hnone id activeAtStart)
    · rw [((hevents id activeAtStart).mp hwaiting).2]
      exact mem_allActiveTaskIds hmap
  · intro label q' id activeAtStart hstep hresolved hwaiting lane
    have hunique := (hcaptured.step (step_registers hstep)).unique id activeAtStart
    rw [eventsOf_append, eventsOf_singleton] at hwaiting
    have hnone : ¬ q'.AnyActive activeAtStart := by
      rcases step_resolves hmap hstep hresolved with ⟨waiter, hmem, rfl, hnone⟩ | ⟨hnew, hnone⟩
      · rwa [hunique _ hwaiting (mem_append_left _ (hcaptured.registered waiter hmem))]
      · rwa [hunique _ hwaiting (mem_append_right _ hnew)]
    by_contra hmeet
    exact hnone ⟨lane, hmeet⟩
  · intro waiter hmem
    refine ⟨hcaptured.registered waiter hmem, fun hstack => ?_⟩
    refine (hattentive.resolve_left ?_) waiter hmem
    rintro ⟨lanesToDrain, hframe⟩
    simp [hstack] at hframe
  · intro later q' id activeAtStart lane entry taskId hlater hwaiting hstarted hmem
    have hlt := hfresher.captured id activeAtStart hwaiting taskId hmem
    have hge := run_started_ge hlater hstarted
    omega

/-- A waiter that is called while a task is active. -/
theorem waitForActiveTasks_exact_active : ∃ labels q, Run Step initial labels q ∧
    q.activeTaskWaiters = [⟨0, {1}, false⟩] ∧
    ∃ lane, ¬ Disjoint {1} (q.lanes lane).activeTaskIds := by
  have hresult : (performAll (fun _ _ => true) initial
      [.call (.enqueueCommandInLane "main" none none false 0), .proceed 0, .proceed 0,
        .call (.waitForActiveTasks none)]).any
      (fun last => decide (last.1.stack = []) &&
        decide (last.1.activeTaskWaiters = [⟨0, {1}, false⟩])) = true := by
    decide +kernel
  obtain ⟨⟨q, labels⟩, hperform, hfacts⟩ := (Option.any_eq_true _ _).mp hresult
  simp only [and_eq_true, decide_eq_true_eq] at hfacts
  have hrun : Run Step initial labels q := (run_of_performAll hperform).mono And.left
  refine ⟨labels, q, hrun, hfacts.2, ?_⟩
  have hwaits := (waitForActiveTasks_exact hrun).2.2.1 ⟨0, {1}, false⟩ (by simp [hfacts.2])
  exact hwaits.2 hfacts.1

end CommandQueue

end OpenClaw
