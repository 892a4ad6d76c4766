import OpenClaw.Lanes.Accounts

/-!
# Order and limit of a lane

`drainLane` marks a lane as draining, so that an `onWait` callback that puts an entry into the
lane leaves it to the `pump` that is waiting. A completion enters its `pump` without the mark:
there such a call starts a second `pump`, which overtakes the entry in hand and takes its slot.
As long as no callback does that, a lane starts its entries in order and within its limit.
-/

namespace OpenClaw

open Lts Bool List
open scoped List

namespace CommandQueue

variable {q q' : CommandQueue} {lane lane' : Str} {label : Action × List QueueEvent}
  {labels : List (Action × List QueueEvent)}

variable (q)

/-- Callbacks call nothing but `enqueueCommandInLane`. -/
def CallbacksEnqueue : Action → Prop
  | .call (.enqueueCommandInLane _ _ _ _ _) => True
  | .call _ => q.stack = []
  | _ => True

/-- An entry that is put into a lane with an entry in hand finds the lane marked as draining. -/
def LeavesHandAlone : Action → Prop
  | .call (.enqueueCommandInLane lane _ _ _ _) =>
    q.gatewayDraining = true ∨ q.inHand (normalizeLane lane) = [] ∨
      (q.lanes (normalizeLane lane)).draining = true
  | _ => True

variable {q}

instance (q : CommandQueue) (action : Action) : Decidable (q.CallbacksEnqueue action) := by
  unfold CallbacksEnqueue
  split <;> infer_instance

instance (q : CommandQueue) (action : Action) : Decidable (q.LeavesHandAlone action) := by
  unfold LeavesHandAlone
  split <;> infer_instance

variable (q label)

/-- A step in which callbacks only enqueue. -/
def ReentrantStep (q' : CommandQueue) : Prop :=
  Step q label q' ∧ q.CallbacksEnqueue label.1

variable {q label}

/-- What waits for the frame on top of it: callbacks, and at the bottom the rest of a
completion or of a reset. -/
inductive Waiting : List Frame → Prop
  | nil : Waiting []
  | settle (lane : Str) (entry : QueueEntry) (outcome : TaskOutcome) :
      Waiting [.settle lane entry outcome]
  | resetLanes (lanesToDrain : List Str) : Waiting [.resetLanes lanesToDrain]
  | onWait (lane : Str) (entry : QueueEntry) {rest : List Frame} (h : Waiting rest) :
      Waiting (.onWait lane entry :: rest)

/-- Each lane has one `pump` at most, and what it holds in hand still has its slot. -/
structure Orderly (q : CommandQueue) : Prop where
  shape : Waiting q.stack ∨ ∃ lane rest, q.stack = .pump lane :: rest ∧ Waiting rest
  apart : q.stack.Pairwise fun frame other => ∀ lane, frame.pumps lane → ¬ other.pumps lane
  room : ∀ lane entry, .onWait lane entry ∈ q.stack →
    (q.lanes lane).maxConcurrent.hasRoom (q.lanes lane).activeTaskIds.card = true

variable {frames rest : List Frame} {entry : QueueEntry} {frame : Frame} {taskId : ℕ}

theorem hand_eq_nil (h : ∀ frame ∈ frames, ¬ frame.pumps lane) :
    frames.flatMap (Frame.inHand lane) = [] := by
  refine flatMap_eq_nil_iff.mpr fun frame hmem => ?_
  cases frame with
  | onWait lane' entry =>
    have hlane : ¬ lane' = lane := h _ hmem
    simp [Frame.inHand, hlane]
  | _ => rfl

theorem Orderly.handsFree (h : Orderly q) (lane : Str) : q.HandsFree lane := by
  intro frame rest hstack hpumps
  have hapart := h.apart
  rw [hstack] at hapart
  exact hand_eq_nil fun other hmem => (pairwise_cons.mp hapart).1 other hmem lane hpumps

/-- A lane without an entry in hand has no frame below the top one. -/
theorem not_pumps_of_hand (h : Waiting frames)
    (hhand : frames.flatMap (Frame.inHand lane) = []) : ∀ frame ∈ frames, ¬ frame.pumps lane := by
  induction h with
  | nil => exact fun frame hmem => absurd hmem not_mem_nil
  | settle lane' entry outcome =>
    intro frame hmem
    rw [mem_singleton.mp hmem]
    exact id
  | resetLanes lanesToDrain =>
    intro frame hmem
    rw [mem_singleton.mp hmem]
    exact id
  | onWait lane' entry _ ih =>
    rw [flatMap_cons, append_eq_nil_iff] at hhand
    intro frame hmem
    rcases mem_cons.mp hmem with rfl | hrest
    · rintro (rfl : lane' = lane)
      simp [Frame.inHand] at hhand
    · exact ih hhand.2 frame hrest

/-- The stacks that completions and calls from outside leave. -/
inductive Fresh : List Frame → Prop
  | nil : Fresh []
  | pump (lane : Str) : Fresh [.pump lane]
  | complete (lane lane' : Str) (entry : QueueEntry) (outcome : TaskOutcome) :
      Fresh [.pump lane, .settle lane' entry outcome]
  | settle (lane : Str) (entry : QueueEntry) (outcome : TaskOutcome) :
      Fresh [.settle lane entry outcome]
  | resetLanes (lanesToDrain : List Str) : Fresh [.resetLanes lanesToDrain]
  | drain (lane : Str) (lanesToDrain : List Str) : Fresh [.pump lane, .resetLanes lanesToDrain]

theorem Fresh.shape (h : Fresh frames) :
    Waiting frames ∨ ∃ lane rest, frames = .pump lane :: rest ∧ Waiting rest := by
  cases h with
  | nil => exact .inl .nil
  | pump lane => exact .inr ⟨lane, [], rfl, .nil⟩
  | complete lane lane' entry outcome => exact .inr ⟨lane, _, rfl, .settle lane' entry outcome⟩
  | settle lane entry outcome => exact .inl (.settle lane entry outcome)
  | resetLanes lanesToDrain => exact .inl (.resetLanes lanesToDrain)
  | drain lane lanesToDrain => exact .inr ⟨lane, _, rfl, .resetLanes lanesToDrain⟩

theorem Fresh.apart (h : Fresh frames) :
    frames.Pairwise fun frame other => ∀ lane, frame.pumps lane → ¬ other.pumps lane := by
  cases h with
  | complete lane lane' entry outcome =>
    refine pairwise_pair.mpr fun _ _ => ?_
    exact id
  | drain lane lanesToDrain =>
    refine pairwise_pair.mpr fun _ _ => ?_
    exact id
  | nil => exact .nil
  | _ => exact pairwise_singleton _ _

theorem Fresh.not_onWait (h : Fresh frames) : .onWait lane entry ∉ frames := by
  cases h <;> simp

theorem orderly_of_fresh (h : Fresh q.stack) : Orderly q :=
  ⟨h.shape, h.apart, fun _ _ hmem => absurd hmem h.not_onWait⟩

variable (q)

/-- `drainLane` pushes the `pump` of a lane that is not marked. -/
theorem drainLane_stack (lane : Str) : (q.drainLane lane).stack = q.stack ∨
      (q.lanes lane).draining = false ∧ (q.drainLane lane).stack = .pump lane :: q.stack := by
  obtain ⟨_, heq⟩ | ⟨hidle, heq⟩ := drainLane_cases q lane
  · exact .inl (by rw [heq]; rfl)
  · exact .inr ⟨hidle, by rw [heq]; rfl⟩

theorem drainLane_fresh (hstack : q.stack = []) (lane : Str) : Fresh (q.drainLane lane).stack := by
  rcases q.drainLane_stack lane with h | ⟨_, h⟩
  · rw [h, hstack]
    exact .nil
  · rw [h, hstack]
    exact .pump lane

/-- A call of `enqueueCommandInLane` pushes at most the `pump` of a lane that is not marked. -/
theorem enqueue_stack (lane : Str)
    (warnAfterMs taskTimeoutMs : Option JsNumber) (hasOnWait : Bool) (now : ℤ) :
    (q.enqueueCommandInLane lane warnAfterMs taskTimeoutMs hasOnWait now).1.stack = q.stack ∨
      q.gatewayDraining = false ∧ (q.lanes (normalizeLane lane)).draining = false ∧
        (q.enqueueCommandInLane lane warnAfterMs taskTimeoutMs hasOnWait now).1.stack =
          .pump (normalizeLane lane) :: q.stack := by
  unfold enqueueCommandInLane
  split
  · exact .inl rfl
  · rename_i hopen
    extract_lets cleaned entry queued
    rcases drainLane_stack { queued with nextEntryId := q.nextEntryId + 1 } cleaned with
      h | ⟨hidle, h⟩
    · exact .inl h
    · refine .inr ⟨by simpa using hopen, ?_, h⟩
      simpa [queued, getLaneState] using hidle

variable {q}

theorem call_fresh (hstack : q.stack = []) (operation : Operation) :
    Fresh (q.call operation).1.stack := by
  have hnil : Fresh q.stack := hstack ▸ .nil
  cases operation with
  | markGatewayDraining => exact hnil
  | setCommandLaneConcurrency lane maxConcurrent =>
    simp only [call, setCommandLaneConcurrency]
    split
    · apply drainLane_fresh
      exact hstack
    · exact hnil
  | enqueueCommandInLane lane warnAfterMs taskTimeoutMs hasOnWait now =>
    rcases q.enqueue_stack lane warnAfterMs taskTimeoutMs hasOnWait now with h | ⟨_, _, h⟩
    · exact h ▸ hnil
    · rw [call, h, hstack]
      exact .pump _
  | clearCommandLane lane =>
    simp only [call, clearCommandLane]
    split <;> exact hnil
  | resetCommandLane lane =>
    simp only [call, resetCommandLane]
    split
    · simp only [withStack, hstack]
      exact .resetLanes _
    · exact hnil
  | resetAllLanes =>
    simp only [call, resetAllLanes, hstack]
    exact .resetLanes _
  | waitForActiveTasks timeoutMs =>
    simp only [call, waitForActiveTasks]
    split
    · exact hnil
    split <;> exact hnil

variable (task : RunningTask) (outcome : TaskOutcome)

theorem finishTask_fresh : Fresh (q.finishTask task outcome).1.stack := by
  unfold finishTask
  extract_lets completed notified
  split
  · exact .complete task.lane task.lane task.entry outcome
  · exact .settle task.lane task.entry outcome

/-! ## Steps of a callback and of the queue -/

/-- The lane has as many slots as before. -/
def SameRoom (q q' : CommandQueue) (lane : Str) : Prop :=
  (q'.lanes lane).maxConcurrent = (q.lanes lane).maxConcurrent ∧
    (q'.lanes lane).activeTaskIds = (q.lanes lane).activeTaskIds

theorem enqueue_sameRoom (q : CommandQueue) (lane lane' : Str)
    (warnAfterMs taskTimeoutMs : Option JsNumber) (hasOnWait : Bool) (now : ℤ) :
    SameRoom q (q.enqueueCommandInLane lane warnAfterMs taskTimeoutMs hasOnWait now).1 lane' := by
  unfold enqueueCommandInLane
  split
  · exact ⟨rfl, rfl⟩
  · extract_lets cleaned entry queued
    have hqueued : (queued.lanes lane').maxConcurrent = (q.lanes lane').maxConcurrent ∧
        (queued.lanes lane').activeTaskIds = (q.lanes lane').activeTaskIds := by
      by_cases hlane : lane' = cleaned
      · rw [hlane, modifyLane_self]
        exact ⟨rfl, rfl⟩
      · rw [modifyLane_ne _ hlane]
        exact ⟨rfl, rfl⟩
    constructor
    · rw [← hqueued.1]
      exact drainLane_keeps LaneState.maxConcurrent (fun _ => rfl) cleaned lane'
    · rw [← hqueued.2, drainLane_activeTaskIds]

section

variable (h : Orderly q)
include h

/-- A callback that leaves the entry in hand alone. -/
theorem Orderly.enqueue (hstack : ∃ lane entry rest, q.stack = .onWait lane entry :: rest)
    (lane : Str) (warnAfterMs taskTimeoutMs : Option JsNumber) (hasOnWait : Bool) (now : ℤ)
    (hsafe : q.LeavesHandAlone
      (.call (.enqueueCommandInLane lane warnAfterMs taskTimeoutMs hasOnWait now))) :
    Orderly (q.enqueueCommandInLane lane warnAfterMs taskTimeoutMs hasOnWait now).1 := by
  have hroom (lane' : Str) := q.enqueue_sameRoom lane lane' warnAfterMs taskTimeoutMs hasOnWait now
  have hwaiting : Waiting q.stack := by
    obtain ⟨lane', entry, rest, hstack⟩ := hstack
    exact h.shape.resolve_right fun ⟨_, _, hpump, _⟩ => by simp [hstack] at hpump
  refine ⟨?_, ?_, fun lane' entry hmem => ?_⟩
  · rcases q.enqueue_stack lane warnAfterMs taskTimeoutMs hasOnWait now with hsame | ⟨_, _, hpush⟩
    · exact hsame ▸ .inl hwaiting
    · exact .inr ⟨_, _, hpush, hwaiting⟩
  · rcases q.enqueue_stack lane warnAfterMs taskTimeoutMs hasOnWait now with
      hsame | ⟨hopen, hidle, hpush⟩
    · exact hsame ▸ h.apart
    · rw [hpush]
      refine pairwise_cons.mpr ⟨?_, h.apart⟩
      -- the lane is not marked, so nobody has an entry of it in hand
      have hhand : q.inHand (normalizeLane lane) = [] := by
        rcases hsafe with hdrain | hhand | hbusy
        · exact absurd (hopen.symm.trans hdrain) Bool.false_ne_true
        · exact hhand
        · exact absurd (hidle.symm.trans hbusy) Bool.false_ne_true
      rintro frame hmem lane' (rfl : normalizeLane lane = lane')
      exact not_pumps_of_hand hwaiting hhand frame hmem
  · rw [(hroom lane').1, (hroom lane').2]
    apply h.room lane' entry
    rcases q.enqueue_stack lane warnAfterMs taskTimeoutMs hasOnWait now with hsame | ⟨_, _, hpush⟩
    · exact hsame ▸ hmem
    · rw [hpush] at hmem
      exact (mem_cons.mp hmem).resolve_left (by simp)

/-- The `pump` on top goes on with its lane. -/
theorem Orderly.replace {frame' : Frame}
    (hstack : q.stack = frame :: rest) (hpumps : frame.pumps lane) (hstack' : q'.stack = frame' :: rest)
    (hpumps' : ∀ lane', frame'.pumps lane' → lane' = lane)
    (hshape : Waiting (frame' :: rest) ∨ ∃ lane, frame' = .pump lane ∧ Waiting rest)
    (hroom : ∀ entry, frame' = .onWait lane entry →
      (q'.lanes lane).maxConcurrent.hasRoom (q'.lanes lane).activeTaskIds.card = true)
    (hother : ∀ lane', lane' ≠ lane → SameRoom q q' lane') : Orderly q' := by
  have hapart := h.apart
  rw [hstack] at hapart
  have hrest := pairwise_cons.mp hapart
  refine ⟨?_, ?_, fun lane' entry hmem => ?_⟩
  · rw [hstack']
    rcases hshape with hwaiting | ⟨lane', rfl, hwaiting⟩
    · exact .inl hwaiting
    · exact .inr ⟨lane', rest, rfl, hwaiting⟩
  · rw [hstack']
    refine pairwise_cons.mpr ⟨fun other hmem lane' hframe => ?_, hrest.2⟩
    rw [hpumps' lane' hframe]
    exact hrest.1 other hmem lane hpumps
  · rw [hstack'] at hmem
    rcases mem_cons.mp hmem with heq | hmem
    · obtain rfl : lane' = lane := hpumps' lane' (heq ▸ rfl)
      exact hroom entry heq.symm
    · have hne : lane' ≠ lane := by
        rintro rfl
        exact hrest.1 _ hmem lane' hpumps rfl
      rw [(hother lane' hne).1, (hother lane' hne).2]
      exact h.room lane' entry (hstack ▸ mem_cons_of_mem _ hmem)

/-- The top frame goes. -/
theorem Orderly.pop
    (hstack : q.stack = frame :: rest) (hstack' : q'.stack = rest) (hwaiting : Waiting rest)
    (hroom : ∀ lane, SameRoom q q' lane) : Orderly q' := by
  have hapart := h.apart
  rw [hstack] at hapart
  refine ⟨.inl (hstack' ▸ hwaiting), hstack' ▸ (pairwise_cons.mp hapart).2,
    fun lane entry hmem => ?_⟩
  rw [(hroom lane).1, (hroom lane).2]
  rw [hstack'] at hmem
  exact h.room lane entry (hstack ▸ mem_cons_of_mem _ hmem)

/-- What is below the top frame waits. -/
theorem Orderly.waiting (hstack : q.stack = frame :: rest) : Waiting rest := by
  rcases h.shape with hwaiting | ⟨lane, rest', hpump, hwaiting⟩
  · rw [hstack] at hwaiting
    cases hwaiting with
    | settle lane entry outcome => exact .nil
    | resetLanes lanesToDrain => exact .nil
    | onWait lane entry hrest => exact hrest
  · obtain rfl : rest' = rest := by simpa [hpump] using congrArg List.tail hstack
    exact hwaiting

/-- A reset waits for nobody. -/
theorem Orderly.resetLanes_last {lanesToDrain : List Str}
    (hstack : q.stack = .resetLanes lanesToDrain :: rest) : rest = [] := by
  rcases h.shape with hwaiting | ⟨lane, rest', hpump, _⟩
  · rw [hstack] at hwaiting
    cases hwaiting
    rfl
  · exact absurd (hstack.symm.trans hpump) (by simp)

theorem Orderly.pump (hstack : q.stack = .pump lane :: rest)
    (now : ℤ) : Orderly (q.pump lane rest now).1 := by
  have hwaiting := h.waiting hstack
  have hpumps : (Frame.pump lane).pumps lane := rfl
  obtain ⟨_, heq⟩ | ⟨entry, queue, _, hroom, heq | heq⟩ := q.pump_cases lane rest now
  · rw [heq]
    refine h.pop hstack rfl hwaiting fun lane' => ?_
    by_cases hlane : lane' = lane <;> simp [SameRoom, withStack, modifyLane, hlane]
  · rw [heq]
    refine h.replace hstack hpumps rfl (fun _ h => h.symm) (.inl (.onWait lane entry hwaiting))
      (fun _ _ => ?_) fun lane' hlane => ?_
    · simpa [withStack] using hroom
    · simp [SameRoom, withStack, modifyLane, hlane]
  · rw [heq]
    refine h.replace hstack hpumps rfl (fun _ h => h.symm) (.inr ⟨lane, rfl, hwaiting⟩)
      (fun _ hframe => absurd hframe (by simp)) fun lane' hlane => ?_
    simp [SameRoom, withStack, startEntry, modifyLane, hlane]

theorem Orderly.onWait (hstack : q.stack = .onWait lane entry :: rest) :
    Orderly ((q.withStack (.pump lane :: rest)).startEntry lane entry).1 := by
  have hpumps : (Frame.onWait lane entry).pumps lane := rfl
  refine h.replace hstack hpumps rfl (fun _ h => h.symm) (.inr ⟨lane, rfl, h.waiting hstack⟩)
    (fun _ hframe => absurd hframe (by simp)) fun lane' hlane => ?_
  simp [SameRoom, withStack, startEntry, modifyLane, hlane]

theorem Orderly.resetLanes {lanesToDrain : List Str}
    (hstack : q.stack = .resetLanes lanesToDrain :: rest) :
    Orderly (q.resetLanes lanesToDrain rest).1 := by
  obtain rfl := h.resetLanes_last hstack
  apply orderly_of_fresh
  cases lanesToDrain with
  | nil => exact .nil
  | cons lane lanes =>
    rcases drainLane_stack (q.withStack [.resetLanes lanes]) lane with hsame | ⟨_, hpush⟩
    · rw [CommandQueue.resetLanes, hsame]
      exact .resetLanes lanes
    · rw [CommandQueue.resetLanes, hpush]
      exact .drain lane lanes

theorem step_orderly (hstep : Step q label q') (hscope : q.CallbacksEnqueue label.1)
    (hsafe : q.LeavesHandAlone label.1) : Orderly q' := by
  cases hstep with
  | call operation huser =>
    by_cases hstack : q.stack = []
    · exact orderly_of_fresh (call_fresh hstack operation)
    · cases operation with
      | enqueueCommandInLane lane warnAfterMs taskTimeoutMs hasOnWait now =>
        exact h.enqueue (huser.resolve_left hstack) lane warnAfterMs taskTimeoutMs hasOnWait now hsafe
      | _ => exact absurd hscope hstack
  | pump lane rest now hstack => exact h.pump hstack now
  | onWait lane entry rest now hstack => exact h.onWait hstack
  | settle lane entry outcome rest now hstack =>
    exact h.pop hstack rfl (h.waiting hstack) fun _ => ⟨rfl, rfl⟩
  | resetLanes lanesToDrain rest now hstack => exact h.resetLanes hstack
  | complete task outcome _ _ _ => exact orderly_of_fresh (finishTask_fresh task outcome)
  | timeout waiter hstack _ _ =>
    apply orderly_of_fresh
    simp only [hstack]
    exact .nil

end

/-! ## Runs -/

/-- The lane starts its entries in the order in which they were accepted: those that are still
to be started come behind those that were. -/
def InOrder (q : CommandQueue) (events : List QueueEvent) : Prop :=
  ∀ lane, (startedIn lane events ++ q.pending lane).Sublist (acceptedIn lane events)

theorem InOrder.step {events : List QueueEvent} (h : InOrder q events) (horderly : Orderly q)
    (hstep : Step q label q') : InOrder q' (events ++ label.2) := by
  intro lane
  have hstarted := (step_balances hstep).order lane (horderly.handsFree lane)
  calc startedIn lane (events ++ label.2) ++ q'.pending lane
      = startedIn lane events ++ (startedIn lane label.2 ++ q'.pending lane) := by
        simp [startedIn]
    _ <+ startedIn lane events ++ (q.pending lane ++ acceptedIn lane label.2) :=
        hstarted.append_left _
    _ = (startedIn lane events ++ q.pending lane) ++ acceptedIn lane label.2 :=
        (append_assoc _ _ _).symm
    _ <+ acceptedIn lane events ++ acceptedIn lane label.2 := (h lane).append_right _
    _ = acceptedIn lane (events ++ label.2) := by simp [acceptedIn]

variable (q label)

/-- A step of a run in which no callback puts an entry in front of one that is in hand. -/
def OrderlyStep (q' : CommandQueue) : Prop :=
  ReentrantStep q label q' ∧ q.LeavesHandAlone label.1

variable {q label}

theorem initial_orderly : Orderly initial := orderly_of_fresh .nil

theorem run_orderly (h : Run OrderlyStep initial labels q) :
    Orderly q ∧ InOrder q (eventsOf labels) := by
  refine h.historyInvariant (fun q labels => Orderly q ∧ InOrder q (eventsOf labels)) ?_
    ⟨initial_orderly, fun _ => .slnil⟩
  intro s labels label t ⟨horderly, horder⟩ ⟨⟨hstep, hscope⟩, hsafe⟩
  refine ⟨step_orderly horderly hstep hscope hsafe, ?_⟩
  rw [eventsOf_append, eventsOf_singleton]
  exact horder.step horderly hstep

/-! ## Starts -/

theorem notMem_notifyActiveTaskWaiters :
    .started lane entry taskId ∉ q.notifyActiveTaskWaiters.2 := by
  simp [notifyActiveTaskWaiters]

theorem notMem_call (operation : Operation) :
    .started lane entry taskId ∉ (q.call operation).2 := by
  cases operation with
  | enqueueCommandInLane lane warnAfterMs taskTimeoutMs hasOnWait now =>
    simp only [call, enqueueCommandInLane]
    split <;> simp
  | clearCommandLane lane =>
    simp only [call, clearCommandLane]
    split <;> simp
  | waitForActiveTasks timeoutMs =>
    simp only [call, waitForActiveTasks]
    split
    · simp
    split
    · simp
    · intro hmem
      exact notMem_notifyActiveTaskWaiters ((mem_cons.mp hmem).resolve_left (by simp))
  | _ => exact not_mem_nil

theorem notMem_finishTask : .started lane entry taskId ∉ (q.finishTask task outcome).2 := by
  unfold finishTask
  extract_lets completed notified
  split
  · exact notMem_notifyActiveTaskWaiters
  · exact not_mem_nil

theorem startEntry_holds
    (hroom : (q.lanes lane).maxConcurrent.hasRoom (q.lanes lane).activeTaskIds.card = true) :
    ((q.startEntry lane entry).1.lanes lane).maxConcurrent.holds
      ((q.startEntry lane entry).1.lanes lane).activeTaskIds.card = true := by
  have hlane : (q.startEntry lane entry).1.lanes lane = { q.lanes lane with
      activeTaskIds := insert q.nextTaskId (q.lanes lane).activeTaskIds } := by
    simp [startEntry]
  rw [hlane]
  exact ConcurrencyLimit.holds_of_hasRoom hroom (Finset.card_insert_le _ _)

/-- A lane that starts an entry had room for it. -/
theorem Orderly.holds_of_started (h : Orderly q) (hstep : Step q label q')
    (hstarted : .started lane entry taskId ∈ label.2) :
    (q'.lanes lane).maxConcurrent.holds (q'.lanes lane).activeTaskIds.card = true := by
  cases hstep with
  | call operation _ => exact absurd hstarted (notMem_call operation)
  | pump lane' rest now hstack =>
    obtain ⟨_, heq⟩ | ⟨entry', queue, _, hroom, heq | heq⟩ := q.pump_cases lane' rest now
    · rw [heq] at hstarted
      exact absurd hstarted not_mem_nil
    · rw [heq] at hstarted
      exact absurd hstarted not_mem_nil
    · rw [heq] at hstarted ⊢
      obtain ⟨rfl, _, _⟩ := QueueEvent.started.inj (mem_singleton.mp hstarted)
      apply startEntry_holds
      simpa [withStack] using hroom
  | onWait lane' entry' rest now hstack =>
    obtain ⟨rfl, _, _⟩ := QueueEvent.started.inj (mem_singleton.mp hstarted)
    apply startEntry_holds
    exact h.room lane entry' (hstack ▸ mem_cons_self)
  | settle lane' entry' outcome rest now _ => simp at hstarted
  | resetLanes lanesToDrain rest now _ =>
    cases lanesToDrain with
    | nil => exact absurd hstarted notMem_notifyActiveTaskWaiters
    | cons lane' lanes => exact absurd hstarted not_mem_nil
  | complete task outcome _ _ _ => exact absurd hstarted (notMem_finishTask task outcome)
  | timeout waiter _ _ _ => simp at hstarted

/-- After every start the active tasks of the lane are within its limit, and the entries of a
lane are started in the order in which they were accepted. -/
theorem lanes_orderly (h : Run OrderlyStep initial labels q) :
    InOrder q (eventsOf labels) ∧ ∀ label q' lane entry taskId, ReentrantStep q label q' →
      .started lane entry taskId ∈ label.2 →
        (q'.lanes lane).maxConcurrent.holds (q'.lanes lane).activeTaskIds.card = true :=
  ⟨(run_orderly h).2, fun _ _ _ _ _ hstep hstarted =>
    (run_orderly h).1.holds_of_started hstep.1 hstarted⟩

/-- A callback may put an entry into a lane that is marked: the two start in order. -/
theorem lanes_orderly_marked : ∃ labels q, Run OrderlyStep initial labels q ∧
    (startedIn "main" (eventsOf labels)).map QueueEntry.id = [0] ∧
    (q.lanes "main").queue.map QueueEntry.id = [1] ∧ InOrder q (eventsOf labels) := by
  have hresult : (performAll (fun q action => decide (q.CallbacksEnqueue action) &&
      decide (q.LeavesHandAlone action)) initial
      [.call (.enqueueCommandInLane "main" (some (.finite 0)) none true 0), .proceed 0,
        .call (.enqueueCommandInLane "main" none none false 0), .proceed 0, .proceed 0]).any
      (fun last => (startedIn "main" (eventsOf last.2)).map QueueEntry.id = [0] &&
        (last.1.lanes "main").queue.map QueueEntry.id = [1]) = true := by
    decide +kernel
  obtain ⟨⟨q, labels⟩, hperform, hfacts⟩ := (Option.any_eq_true _ _).mp hresult
  simp only [and_eq_true, decide_eq_true_eq] at hfacts
  have hrun : Run OrderlyStep initial labels q :=
    (run_of_performAll hperform).mono fun h => by
      have hallowed := h.2
      simp only [and_eq_true, decide_eq_true_eq] at hallowed
      exact ⟨⟨h.1, hallowed.1⟩, hallowed.2⟩
  exact ⟨labels, q, hrun, hfacts.1, hfacts.2, (lanes_orderly hrun).1⟩

/-- Entry `0` starts at once; entry `1` waits for it and has a callback, which puts entry `2` into
the lane. -/
def overtaken : List Action :=
  [.call (.enqueueCommandInLane "main" none none false 0), .proceed 0, .proceed 0,
    .call (.enqueueCommandInLane "main" (some (.finite 0)) none true 0), .proceed 0,
    .complete ⟨1, "main", 0, ⟨0, 0, .finite 2000, none, false⟩⟩ .resolved, .proceed 1,
    .call (.enqueueCommandInLane "main" none none false 1), .proceed 1, .proceed 1]

/-- The entry of the callback starts before the one whose callback put it into the lane, and then
the lane is over its limit. -/
theorem exists_overtaken : ∃ labels q label q' entry taskId,
    Run ReentrantStep initial labels q ∧ ReentrantStep q label q' ∧
    .started "main" entry taskId ∈ label.2 ∧ ¬ startedIn "main" (eventsOf (labels ++ [label])) <+
      acceptedIn "main" (eventsOf (labels ++ [label])) ∧
    (q'.lanes "main").maxConcurrent.holds (q'.lanes "main").activeTaskIds.card = false := by
  have hresult : (performAll (fun q action => decide (q.CallbacksEnqueue action)) initial
      overtaken).any (fun last => (last.1.perform (.proceed 1)).any fun next =>
        decide (.started "main" ⟨1, 0, .finite 0, none, true⟩ 3 ∈ next.2) &&
        (decide ¬ startedIn "main" (eventsOf (last.2 ++ [(.proceed 1, next.2)])) <+
          acceptedIn "main" (eventsOf (last.2 ++ [(.proceed 1, next.2)]))) &&
        !(next.1.lanes "main").maxConcurrent.holds (next.1.lanes "main").activeTaskIds.card) =
      true := by
    decide +kernel
  obtain ⟨⟨q, labels⟩, hrun, hlast⟩ := (Option.any_eq_true _ _).mp hresult
  obtain ⟨⟨q', events⟩, hstep, hfacts⟩ := (Option.any_eq_true _ _).mp hlast
  simp only [and_eq_true, decide_eq_true_eq, not_eq_true'] at hfacts
  refine ⟨labels, q, (.proceed 1, events), q', _, 3, ?_, ⟨step_of_perform hstep, trivial⟩,
    hfacts.1.1, hfacts.1.2, hfacts.2⟩
  exact (run_of_performAll hrun).mono fun h => ⟨h.1, of_decide_eq_true h.2⟩

/-- Not every run keeps the order and the limit. -/
theorem not_lanes_orderly : ¬ ∀ labels q, Run ReentrantStep initial labels q →
    (∀ lane, startedIn lane (eventsOf labels) <+ acceptedIn lane (eventsOf labels)) ∧
    ∀ label q' lane entry taskId, ReentrantStep q label q' → .started lane entry taskId ∈ label.2 →
      (q'.lanes lane).maxConcurrent.holds (q'.lanes lane).activeTaskIds.card = true := by
  intro hall
  obtain ⟨labels, q, label, q', entry, taskId, hrun, hstep, hstarted, _, hover⟩ := exists_overtaken
  have hholds := (hall labels q hrun).2 label q' _ entry taskId hstep hstarted
  exact absurd (hover.symm.trans hholds) Bool.false_ne_true

end CommandQueue

end OpenClaw
