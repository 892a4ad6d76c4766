import OpenClaw.Lanes.CommandQueue
import Mathlib.Data.List.Pairwise

/-!
# The accounts of a lane

What the functions of the queue leave alone, and what a step makes of the entries of a lane:
an entry that is accepted waits, is taken in hand, starts, runs and is settled.
-/

namespace OpenClaw

open Lts List

namespace CommandQueue

variable {q q' : CommandQueue} {lane lane' : Str} {label : Action × List QueueEvent}

/-! ## What the functions leave alone -/

variable (f : LaneState → LaneState)

@[simp] theorem modifyLane_self : (q.modifyLane lane f).lanes lane = f (q.lanes lane) := by
  simp [modifyLane]

theorem modifyLane_ne (h : lane' ≠ lane) : (q.modifyLane lane f).lanes lane' = q.lanes lane' := by
  simp [modifyLane, h]

/-- A part of the lane states that `f` leaves alone. -/
theorem modifyLane_keeps {β : Type*} (g : LaneState → β) {f : LaneState → LaneState}
    (h : ∀ state, g (f state) = g state) (lane lane' : Str) :
    g ((q.modifyLane lane f).lanes lane') = g (q.lanes lane') := by
  by_cases hlane : lane' = lane
  · subst hlane
    rw [modifyLane_self, h]
  · rw [modifyLane_ne f hlane]

theorem mem_getLaneState : lane' ∈ (q.getLaneState lane).laneNames ↔
    lane' ∈ q.laneNames ∨ lane' = lane := by
  unfold getLaneState
  by_cases hmem : lane ∈ q.laneNames
  · simp only [hmem, if_true]
    exact ⟨.inl, fun h => h.elim id fun heq => heq ▸ hmem⟩
  · simp [hmem]

/-- `drainLane` returns, or it marks the lane and pushes the frame of its `pump`. -/
theorem drainLane_cases (q : CommandQueue) (lane : Str) :
    ((q.lanes lane).draining = true ∧ q.drainLane lane = q.getLaneState lane) ∨
    ((q.lanes lane).draining = false ∧ q.drainLane lane =
      ((q.getLaneState lane).modifyLane lane ({ · with draining := true })).withStack
        (.pump lane :: q.stack)) := by
  cases hdraining : (q.lanes lane).draining with
  | true => exact .inl ⟨rfl, by simp [drainLane, getLaneState, hdraining]⟩
  | false => exact .inr ⟨rfl, by simp [drainLane, getLaneState, hdraining, modifyLane, withStack]⟩

/-- A part of the lane states without the flag `draining`. -/
theorem drainLane_keeps {β : Type*} (g : LaneState → β)
    (h : ∀ state : LaneState, g { state with draining := true } = g state) (lane lane' : Str) :
    g ((q.drainLane lane).lanes lane') = g (q.lanes lane') := by
  obtain ⟨_, heq⟩ | ⟨_, heq⟩ := drainLane_cases q lane
  · rw [heq]
    rfl
  · rw [heq]
    exact modifyLane_keeps g h lane lane'

@[simp] theorem drainLane_queue : ((q.drainLane lane).lanes lane').queue = (q.lanes lane').queue :=
  drainLane_keeps LaneState.queue (fun _ => rfl) lane lane'

@[simp] theorem drainLane_activeTaskIds :
    ((q.drainLane lane).lanes lane').activeTaskIds = (q.lanes lane').activeTaskIds :=
  drainLane_keeps LaneState.activeTaskIds (fun _ => rfl) lane lane'

variable (q lane)

theorem drainLane_frame : (q.drainLane lane).laneNames = (q.getLaneState lane).laneNames ∧
      (q.drainLane lane).running = q.running ∧
      (q.drainLane lane).activeTaskWaiters = q.activeTaskWaiters ∧
      (q.drainLane lane).nextTaskId = q.nextTaskId ∧
      (q.drainLane lane).nextEntryId = q.nextEntryId ∧
      (q.drainLane lane).nextWaiterId = q.nextWaiterId ∧
      (q.drainLane lane).gatewayDraining = q.gatewayDraining := by
  obtain ⟨_, heq⟩ | ⟨_, heq⟩ := drainLane_cases q lane <;> rw [heq] <;>
    exact ⟨rfl, rfl, rfl, rfl, rfl, rfl, rfl⟩

/-- One iteration of `pump`: it stops, or it takes the first entry and waits for its
callback or starts it. -/
theorem pump_cases (rest : List Frame) (now : ℤ) :
    ((q.lanes lane).canStart = false ∧ q.pump lane rest now =
      ((q.modifyLane lane ({ · with draining := false })).withStack rest, [])) ∨
    ∃ entry queue, (q.lanes lane).queue = entry :: queue ∧
      (q.lanes lane).maxConcurrent.hasRoom (q.lanes lane).activeTaskIds.card = true ∧
      (q.pump lane rest now = ((q.modifyLane lane ({ · with queue := queue })).withStack
          (.onWait lane entry :: rest), []) ∨
        q.pump lane rest now = ((q.modifyLane lane ({ · with queue := queue })).withStack
          (.pump lane :: rest)).startEntry lane entry) := by
  unfold pump
  extract_lets state
  split
  · rename_i entry queue hroom hqueue
    refine .inr ⟨entry, queue, hqueue, hroom, ?_⟩
    extract_lets taken waitedMs
    split
    · exact .inl rfl
    · exact .inr rfl
  · rename_i hnot
    refine .inl ⟨?_, rfl⟩
    cases hroom : state.maxConcurrent.hasRoom state.activeTaskIds.card with
    | false => simp [LaneState.canStart, state, hroom]
    | true =>
      cases hqueue : state.queue with
      | nil => simp [LaneState.canStart, state, hqueue]
      | cons entry queue => exact absurd hqueue (hnot entry queue hroom)

variable {q lane}

/-! ## Accounts -/

end CommandQueue

/-- The entry of this lane that the frame has taken off the queue and not started yet. -/
def Frame.inHand (lane : Str) : Frame → List QueueEntry
  | onWait lane' entry => if lane' = lane then [entry] else []
  | _ => []

/-- The entry of this lane whose task is done and whose promise the frame settles. -/
def Frame.settling (lane : Str) : Frame → List QueueEntry
  | settle lane' entry _ => if lane' = lane then [entry] else []
  | _ => []

def RunningTask.entryIn (lane : Str) (task : RunningTask) : List QueueEntry :=
  if task.lane = lane then [task.entry] else []

def QueueEvent.acceptedIn (lane : Str) : QueueEvent → List QueueEntry
  | accepted lane' entry => if lane' = lane then [entry] else []
  | _ => []

def QueueEvent.startedIn (lane : Str) : QueueEvent → List QueueEntry
  | started lane' entry _ => if lane' = lane then [entry] else []
  | _ => []

def QueueEvent.clearedIn (lane : Str) : QueueEvent → List QueueEntry
  | cleared lane' entry => if lane' = lane then [entry] else []
  | _ => []

def QueueEvent.settledIn (lane : Str) : QueueEvent → List QueueEntry
  | settled lane' entry _ => if lane' = lane then [entry] else []
  | _ => []

/-- The entries that were put into the lane, in order. -/
def acceptedIn (lane : Str) (events : List QueueEvent) : List QueueEntry :=
  events.flatMap (QueueEvent.acceptedIn lane)

/-- The entries of the lane that were started, in order. -/
def startedIn (lane : Str) (events : List QueueEvent) : List QueueEntry :=
  events.flatMap (QueueEvent.startedIn lane)

/-- The entries of the lane that were rejected with `CommandLaneClearedError`. -/
def clearedIn (lane : Str) (events : List QueueEvent) : List QueueEntry :=
  events.flatMap (QueueEvent.clearedIn lane)

/-- The entries of the lane whose promise was settled by their task. -/
def settledIn (lane : Str) (events : List QueueEvent) : List QueueEntry :=
  events.flatMap (QueueEvent.settledIn lane)

def QueueEvent.entryId : QueueEvent → List ℕ
  | accepted _ entry => [entry.id]
  | _ => []

variable (events : List QueueEvent)

/-- The identities of the entries of all lanes, in the order in which they were accepted. -/
def acceptedIds : List ℕ := events.flatMap QueueEvent.entryId

/-- The event settles the promise of the entry with this identity. -/
def QueueEvent.settles (id : ℕ) : QueueEvent → Bool
  | settled _ entry _ | cleared _ entry => entry.id = id
  | _ => false

/-- The events are those of waiters, gateway and the like. -/
def EntryFree : Prop :=
  ∀ lane, acceptedIn lane events = [] ∧ startedIn lane events = [] ∧
    clearedIn lane events = [] ∧ settledIn lane events = []

namespace CommandQueue

variable {q q' : CommandQueue} {lane lane' : Str} {label : Action × List QueueEvent}

/-- The entries of the lane that a `pump` has taken off the queue and not started yet. -/
def inHand (q : CommandQueue) (lane : Str) : List QueueEntry :=
  q.stack.flatMap (Frame.inHand lane)

variable (q lane)

/-- The entries of the lane that are still to be started. -/
def pending : List QueueEntry :=
  q.inHand lane ++ (q.lanes lane).queue

/-- The entries of the lane that were started and are not settled. -/
def unsettled : List QueueEntry :=
  q.running.flatMap (RunningTask.entryIn lane) ++ q.stack.flatMap (Frame.settling lane)

/-- Below a `pump` of the lane no other one has an entry of the lane in hand. -/
def HandsFree : Prop :=
  ∀ frame rest, q.stack = frame :: rest → frame.pumps lane →
    rest.flatMap (Frame.inHand lane) = []

variable {q lane}

/-- What a step makes of the entries of a lane. They stay in order as long as only one `pump`
has one in hand. -/
structure Balances (q q' : CommandQueue) (events : List QueueEvent) : Prop where
  order : ∀ lane, q.HandsFree lane → (startedIn lane events ++ q'.pending lane).Sublist
    (q.pending lane ++ acceptedIn lane events)
  pending : ∀ lane, (q.pending lane ++ acceptedIn lane events).Perm
    (startedIn lane events ++ clearedIn lane events ++ q'.pending lane)
  unsettled : ∀ lane, (q.unsettled lane ++ startedIn lane events).Perm
    (settledIn lane events ++ q'.unsettled lane)

theorem entryFree_nil : EntryFree [] := fun _ => ⟨rfl, rfl, rfl, rfl⟩

variable {events : List QueueEvent} {entry : QueueEntry} {rest : List Frame}

/-- A step that starts, clears and settles nothing. -/
theorem balances_of_perm (hevents : EntryFree events)
    (horder : ∀ lane, q.HandsFree lane → q'.pending lane = q.pending lane)
    (hpending : ∀ lane, (q.pending lane).Perm (q'.pending lane))
    (hunsettled : ∀ lane, (q.unsettled lane).Perm (q'.unsettled lane)) : Balances q q' events := by
  constructor
  · intro lane hfree
    obtain ⟨haccepted, hstarted, _, _⟩ := hevents lane
    rw [haccepted, hstarted, horder lane hfree]
    simp
  · intro lane
    obtain ⟨haccepted, hstarted, hcleared, _⟩ := hevents lane
    rw [haccepted, hstarted, hcleared]
    simpa using hpending lane
  · intro lane
    obtain ⟨_, hstarted, _, hsettled⟩ := hevents lane
    rw [hstarted, hsettled]
    simpa using hunsettled lane

theorem balances_of_eq (hevents : EntryFree events)
    (hpending : ∀ lane, q'.pending lane = q.pending lane)
    (hunsettled : ∀ lane, q'.unsettled lane = q.unsettled lane) : Balances q q' events :=
  balances_of_perm hevents (fun lane _ => hpending lane) (fun lane => .of_eq (hpending lane).symm)
    fun lane => .of_eq (hunsettled lane).symm

theorem modifyLane_pending {f : LaneState → LaneState}
    (h : ∀ state, (f state).queue = state.queue) (lane lane' : Str) :
    (q.modifyLane lane f).pending lane' = q.pending lane' :=
  congrArg (q.inHand lane' ++ ·) (modifyLane_keeps LaneState.queue h lane lane')

variable (q)

theorem drainLane_pending (lane lane' : Str) :
    (q.drainLane lane).pending lane' = q.pending lane' := by
  have hhand : (q.drainLane lane).inHand lane' = q.inHand lane' := by
    obtain ⟨_, heq⟩ | ⟨_, heq⟩ := drainLane_cases q lane <;> rw [heq] <;> rfl
  rw [pending, drainLane_queue, hhand, pending]

theorem drainLane_unsettled (lane lane' : Str) :
    (q.drainLane lane).unsettled lane' = q.unsettled lane' := by
  obtain ⟨_, heq⟩ | ⟨_, heq⟩ := drainLane_cases q lane <;> rw [heq] <;> rfl

theorem notifyActiveTaskWaiters_entryFree : EntryFree q.notifyActiveTaskWaiters.2 := by
  have hnone (f : QueueEvent → List QueueEntry) (hf : ∀ id, f (.waiterResolved id true) = []) :
      q.notifyActiveTaskWaiters.2.flatMap f = [] := by
    simp [notifyActiveTaskWaiters, flatMap_map, hf]
  exact fun lane => ⟨hnone _ fun _ => rfl, hnone _ fun _ => rfl, hnone _ fun _ => rfl,
    hnone _ fun _ => rfl⟩

variable {q}

/-! ### Each operation -/

variable (q)

theorem enqueueCommandInLane_balances (lane : Str)
    (warnAfterMs taskTimeoutMs : Option JsNumber) (hasOnWait : Bool) (now : ℤ) :
    Balances q (q.enqueueCommandInLane lane warnAfterMs taskTimeoutMs hasOnWait now).1
      (q.enqueueCommandInLane lane warnAfterMs taskTimeoutMs hasOnWait now).2 := by
  unfold enqueueCommandInLane
  split
  · exact balances_of_eq (fun _ => ⟨rfl, rfl, rfl, rfl⟩) (fun _ => rfl) fun _ => rfl
  · extract_lets cleaned entry queued
    have hqueued (lane' : Str) : queued.pending lane' =
        q.pending lane' ++ acceptedIn lane' [.accepted cleaned entry] := by
      have hqueue : (queued.lanes lane').queue =
          (q.lanes lane').queue ++ acceptedIn lane' [.accepted cleaned entry] := by
        by_cases hlane : lane' = cleaned
        · subst hlane
          simp [queued, getLaneState, acceptedIn, QueueEvent.acceptedIn]
        · rw [modifyLane_ne _ hlane]
          simp [getLaneState, acceptedIn, QueueEvent.acceptedIn, Ne.symm hlane]
      rw [pending, hqueue, ← append_assoc]
      rfl
    constructor
    · intro lane' _
      rw [drainLane_pending]
      exact (hqueued lane') ▸ .refl _
    · intro lane'
      rw [drainLane_pending]
      exact .of_eq (hqueued lane').symm
    · intro lane'
      rw [drainLane_unsettled]
      exact .of_eq (append_nil _)

theorem clearCommandLane_balances (lane : Str) :
    Balances q (q.clearCommandLane lane).1 (q.clearCommandLane lane).2 := by
  unfold clearCommandLane
  extract_lets cleaned
  split
  · set entries := (q.lanes cleaned).queue with hentries
    have hnone (f : Str → QueueEvent → List QueueEntry) (lane' : Str)
        (hf : ∀ entry, f lane' (.cleared cleaned entry) = []) :
        (entries.map (QueueEvent.cleared cleaned)).flatMap (f lane') = [] := by
      simp [hf]
    constructor
    · intro lane' _
      rw [acceptedIn, startedIn, hnone _ _ fun _ => rfl, hnone _ _ fun _ => rfl, append_nil,
        nil_append]
      by_cases hlane : lane' = cleaned
      · rw [pending, pending, hlane, modifyLane_self]
        exact (List.Sublist.refl _).append (nil_sublist _)
      · rw [pending, pending, modifyLane_ne _ hlane]
        exact .refl _
    · intro lane'
      rw [acceptedIn, startedIn, clearedIn, hnone _ _ fun _ => rfl, hnone _ _ fun _ => rfl]
      by_cases hlane : lane' = cleaned
      · have hcleared : (entries.map (QueueEvent.cleared cleaned)).flatMap
            (QueueEvent.clearedIn lane') = entries := by
          simp [flatMap_map, QueueEvent.clearedIn, hlane]
        rw [hcleared, pending, pending, hlane, modifyLane_self, ← hentries]
        exact (List.Perm.of_eq (append_nil _)).trans
          (perm_append_comm.trans (.of_eq (by simp [inHand, modifyLane])))
      · rw [hnone _ _ fun _ => by simp [QueueEvent.clearedIn, Ne.symm hlane], pending, pending,
          modifyLane_ne _ hlane]
        exact .of_eq (append_nil _)
    · intro lane'
      rw [startedIn, settledIn, hnone _ _ fun _ => rfl, hnone _ _ fun _ => rfl]
      exact .of_eq (append_nil _)
  · exact balances_of_eq entryFree_nil (fun _ => rfl) fun _ => rfl

theorem resetAllLanes_balances : Balances q q.resetAllLanes [] := by
  refine balances_of_eq entryFree_nil (fun lane => ?_) fun _ => rfl
  have hqueue : (q.resetAllLanes.lanes lane).queue = (q.lanes lane).queue := by
    simp only [resetAllLanes]
    split <;> rfl
  rw [pending, hqueue]
  rfl

theorem waitForActiveTasks_balances (timeoutMs : Option JsNumber) :
    Balances q (q.waitForActiveTasks timeoutMs).1 (q.waitForActiveTasks timeoutMs).2 := by
  unfold waitForActiveTasks
  extract_lets activeAtStart called waiting waiter notified
  split
  · exact balances_of_eq (fun _ => ⟨rfl, rfl, rfl, rfl⟩) (fun _ => rfl) fun _ => rfl
  split
  · exact balances_of_eq (fun _ => ⟨rfl, rfl, rfl, rfl⟩) (fun _ => rfl) fun _ => rfl
  · refine balances_of_eq (fun lane => ?_) (fun _ => rfl) fun _ => rfl
    exact notifyActiveTaskWaiters_entryFree _ lane

theorem call_balances (operation : Operation) :
    Balances q (q.call operation).1 (q.call operation).2 := by
  cases operation with
  | markGatewayDraining =>
    exact balances_of_eq entryFree_nil (fun _ => rfl) fun _ => rfl
  | setCommandLaneConcurrency lane maxConcurrent =>
    refine balances_of_eq entryFree_nil (fun lane' => ?_) fun lane' => ?_
    · simp only [call, setCommandLaneConcurrency]
      split
      · rw [drainLane_pending]
        apply modifyLane_pending (q := q.getLaneState (normalizeLane lane))
        intro state
        rfl
      · apply modifyLane_pending (q := q.getLaneState (normalizeLane lane))
        intro state
        rfl
    · simp only [call, setCommandLaneConcurrency]
      split
      · rw [drainLane_unsettled]
        rfl
      · rfl
  | enqueueCommandInLane lane warnAfterMs taskTimeoutMs hasOnWait now =>
    exact q.enqueueCommandInLane_balances lane warnAfterMs taskTimeoutMs hasOnWait now
  | clearCommandLane lane => exact q.clearCommandLane_balances lane
  | resetCommandLane lane =>
    refine balances_of_eq entryFree_nil (fun lane' => ?_) fun lane' => ?_
    · simp only [call, resetCommandLane]
      split
      · apply modifyLane_pending (q := q)
        intro state
        rfl
      · rfl
    · simp only [call, resetCommandLane]
      split <;> rfl
  | resetAllLanes => exact q.resetAllLanes_balances
  | waitForActiveTasks timeoutMs => exact q.waitForActiveTasks_balances timeoutMs

variable {q}

/-! ### Each step -/

variable (q lane lane' entry)

theorem startEntry_queue :
    ((q.startEntry lane entry).1.lanes lane').queue = (q.lanes lane').queue := by
  show ((q.modifyLane lane fun state =>
    { state with activeTaskIds := insert q.nextTaskId state.activeTaskIds }).lanes lane').queue = _
  apply modifyLane_keeps LaneState.queue
  intro state
  rfl

theorem startEntry_pending : (q.startEntry lane entry).1.pending lane' = q.pending lane' :=
  congrArg (q.inHand lane' ++ ·) (q.startEntry_queue lane lane' entry)

theorem startedIn_startEntry :
    startedIn lane' (q.startEntry lane entry).2 = if lane = lane' then [entry] else [] := by
  simp [startEntry, OpenClaw.startedIn, QueueEvent.startedIn]

theorem startEntry_unsettled : ((q.startEntry lane entry).1.unsettled lane').Perm
      (q.unsettled lane' ++ startedIn lane' (q.startEntry lane entry).2) := by
  have hrunning : (q.startEntry lane entry).1.running.flatMap (RunningTask.entryIn lane') =
      q.running.flatMap (RunningTask.entryIn lane') ++
        startedIn lane' (q.startEntry lane entry).2 := by
    rw [startedIn_startEntry]
    simp [startEntry, RunningTask.entryIn]
  rw [unsettled, hrunning, unsettled, append_assoc, append_assoc]
  exact List.perm_append_comm.append_left _

variable {q lane lane' entry}

/-- Starting the entry that `q'` has already taken out of `q`. -/
theorem startEntry_balances (horder : ∀ lane', q.HandsFree lane' →
      q.pending lane' = (if lane = lane' then [entry] else []) ++ q'.pending lane')
    (hpending : ∀ lane', (q.pending lane').Perm
      ((if lane = lane' then [entry] else []) ++ q'.pending lane'))
    (hunsettled : ∀ lane', q'.unsettled lane' = q.unsettled lane') :
    Balances q (q'.startEntry lane entry).1 (q'.startEntry lane entry).2 := by
  constructor
  · intro lane' hfree
    have haccepted : acceptedIn lane' (q'.startEntry lane entry).2 = [] := rfl
    rw [startEntry_pending, haccepted, startedIn_startEntry, append_nil, horder lane' hfree]
  · intro lane'
    have haccepted : acceptedIn lane' (q'.startEntry lane entry).2 = [] := rfl
    have hcleared : clearedIn lane' (q'.startEntry lane entry).2 = [] := rfl
    rw [startEntry_pending, haccepted, hcleared, startedIn_startEntry, append_nil, append_nil]
    exact hpending lane'
  · intro lane'
    have hsettled : settledIn lane' (q'.startEntry lane entry).2 = [] := rfl
    rw [hsettled, nil_append, ← hunsettled]
    exact (q'.startEntry_unsettled lane lane' entry).symm

/-- The entries of a lane without its first one. -/
theorem queue_eq_of_taken {queue : List QueueEntry}
    (hqueue : (q.lanes lane).queue = entry :: queue) (lane' : Str) :
    (q.lanes lane').queue = (if lane = lane' then [entry] else []) ++
      ((q.modifyLane lane ({ · with queue := queue })).lanes lane').queue := by
  by_cases hlane : lane' = lane
  · subst hlane
    simpa using hqueue
  · rw [modifyLane_ne _ hlane]
    simp [Ne.symm hlane]

theorem pump_balances (hstack : q.stack = .pump lane :: rest) (now : ℤ) :
    Balances q (q.pump lane rest now).1 (q.pump lane rest now).2 := by
  have hpending (lane' : Str) : q.pending lane' =
      rest.flatMap (Frame.inHand lane') ++ (q.lanes lane').queue := by
    rw [pending, inHand, hstack]
    rfl
  have hunsettled (lane' : Str) : q.unsettled lane' =
      q.running.flatMap (RunningTask.entryIn lane') ++ rest.flatMap (Frame.settling lane') := by
    rw [unsettled, hstack]
    rfl
  have hfree (lane' : Str) (entry : QueueEntry) (h : q.HandsFree lane') :
      rest.flatMap (Frame.inHand lane') ++ (if lane = lane' then [entry] else []) =
        (if lane = lane' then [entry] else []) ++ rest.flatMap (Frame.inHand lane') := by
    by_cases hlane : lane = lane'
    · rw [h _ rest hstack (show lane = lane' from hlane), append_nil, nil_append]
    · simp [hlane]
  obtain ⟨_, heq⟩ | ⟨entry, queue, hqueue, _, heq | heq⟩ := q.pump_cases lane rest now
  · rw [heq]
    refine balances_of_eq entryFree_nil (fun lane' => ?_) fun lane' => (hunsettled lane').symm
    rw [hpending]
    apply congrArg (rest.flatMap (Frame.inHand lane') ++ ·)
    dsimp only [withStack]
    apply modifyLane_keeps (q := q) LaneState.queue
    intro state
    rfl
  · rw [heq]
    refine balances_of_perm entryFree_nil (fun lane' h => ?_) (fun lane' => ?_) fun lane' =>
      .of_eq (hunsettled lane')
    · rw [hpending, queue_eq_of_taken hqueue, ← append_assoc, hfree lane' entry h]
      rfl
    · rw [hpending, queue_eq_of_taken hqueue, ← append_assoc]
      exact List.perm_append_comm.append_right _
  · rw [heq]
    apply startEntry_balances
    · intro lane' h
      rw [hpending, queue_eq_of_taken hqueue, ← append_assoc, hfree lane' entry h, append_assoc]
      rfl
    · intro lane'
      rw [hpending, queue_eq_of_taken hqueue]
      exact perm_append_comm_assoc _ _ _
    · exact fun lane' => (hunsettled lane').symm

theorem onWait_balances (hstack : q.stack = .onWait lane entry :: rest) :
    Balances q ((q.withStack (.pump lane :: rest)).startEntry lane entry).1
      ((q.withStack (.pump lane :: rest)).startEntry lane entry).2 := by
  have hpending (lane' : Str) : q.pending lane' = (if lane = lane' then [entry] else []) ++
      (q.withStack (.pump lane :: rest)).pending lane' := by
    rw [pending, inHand, hstack]
    exact append_assoc _ _ _
  apply startEntry_balances
  · exact fun lane' _ => hpending lane'
  · exact fun lane' => .of_eq (hpending lane')
  · intro lane'
    rw [unsettled, unsettled, hstack]
    rfl

theorem settle_balances {outcome : TaskOutcome}
    (hstack : q.stack = .settle lane entry outcome :: rest) :
    Balances q (q.withStack rest) [.settled lane entry outcome] := by
  constructor
  · intro lane' _
    have hpending : q.pending lane' = (q.withStack rest).pending lane' := by
      rw [pending, inHand, hstack]
      rfl
    rw [hpending, acceptedIn]
    exact sublist_append_left _ _
  · intro lane'
    rw [pending, inHand, hstack]
    exact .of_eq (append_nil _)
  · intro lane'
    have hsettled : settledIn lane' [.settled lane entry outcome] =
        if lane = lane' then [entry] else [] := by
      simp [settledIn, QueueEvent.settledIn]
    rw [unsettled, hstack, hsettled]
    exact (List.Perm.of_eq (append_nil _)).trans (perm_append_comm_assoc _ _ _)

theorem resetLanes_balances {lanesToDrain : List Str}
    (hstack : q.stack = .resetLanes lanesToDrain :: rest) :
    Balances q (q.resetLanes lanesToDrain rest).1 (q.resetLanes lanesToDrain rest).2 := by
  have hpending (lane' : Str) : (q.withStack rest).pending lane' = q.pending lane' := by
    rw [pending, pending, inHand, inHand, hstack]
    rfl
  have hunsettled (lane' : Str) : (q.withStack rest).unsettled lane' = q.unsettled lane' := by
    rw [unsettled, unsettled, hstack]
    rfl
  cases lanesToDrain with
  | nil =>
    exact balances_of_eq (notifyActiveTaskWaiters_entryFree _) hpending hunsettled
  | cons lane lanes =>
    refine balances_of_eq entryFree_nil (fun lane' => ?_) fun lane' => ?_
    · exact (drainLane_pending _ lane lane').trans (hpending lane')
    · exact (drainLane_unsettled _ lane lane').trans (hunsettled lane')

variable (q)

/-- Completing a task changes no queue. -/
theorem completeTask_queue (task : RunningTask) (lane : Str) :
    ((q.completeTask task).1.lanes lane).queue = (q.lanes lane).queue := by
  unfold completeTask
  split
  · dsimp only
    apply modifyLane_keeps (q := q) LaneState.queue
    intro state
    rfl
  · rfl

theorem completeTask_running (task : RunningTask) :
    (q.completeTask task).1.running = q.running := by
  unfold completeTask
  split <;> rfl

variable {q}

theorem finishTask_balances {task : RunningTask} (hstack : q.stack = [])
    (hrunning : task ∈ q.running) (outcome : TaskOutcome) :
    Balances q (q.finishTask task outcome).1 (q.finishTask task outcome).2 := by
  have hpending (lane' : Str) : (q.lanes lane').queue = q.pending lane' := by
    rw [pending, inHand, hstack]
    rfl
  have hunsettled (lane' : Str) : (q.unsettled lane').Perm
      ((q.running.erase task).flatMap (RunningTask.entryIn lane') ++
        ((if task.lane = lane' then [task.entry] else []) ++ [])) := by
    rw [unsettled, hstack]
    have herase := (perm_cons_erase hrunning).flatMap_right (RunningTask.entryIn lane')
    exact (List.Perm.of_eq (append_nil _)).trans (herase.trans
      (perm_append_comm.trans (.of_eq (by rw [append_nil]; rfl))))
  have hqueue := completeTask_queue { q with running := q.running.erase task } task
  have herased := completeTask_running { q with running := q.running.erase task } task
  unfold finishTask
  extract_lets completed notified
  split
  · have hsame (lane' : Str) : (completed.1.withStack [.pump task.lane, .settle task.lane task.entry
        outcome]).pending lane' = q.pending lane' := by
      rw [← hpending, ← hqueue]
      rfl
    refine balances_of_perm (notifyActiveTaskWaiters_entryFree _) (fun lane' _ => hsame lane')
      (fun lane' => .of_eq (hsame lane').symm) fun lane' => ?_
    refine (hunsettled lane').trans (.of_eq ?_)
    rw [← show completed.1.running = q.running.erase task from herased]
    rfl
  · have hsame (lane' : Str) : (completed.1.withStack [.settle task.lane task.entry
        outcome]).pending lane' = q.pending lane' := by
      rw [← hpending, ← hqueue]
      rfl
    refine balances_of_perm entryFree_nil (fun lane' _ => hsame lane')
      (fun lane' => .of_eq (hsame lane').symm) fun lane' => ?_
    refine (hunsettled lane').trans (.of_eq ?_)
    rw [← show completed.1.running = q.running.erase task from herased]
    rfl

theorem step_balances (h : Step q label q') : Balances q q' label.2 := by
  cases h with
  | call operation _ => exact q.call_balances operation
  | pump lane rest now hstack => exact pump_balances hstack now
  | onWait lane entry rest now hstack => exact onWait_balances hstack
  | settle lane entry outcome rest now hstack => exact settle_balances hstack
  | resetLanes lanesToDrain rest now hstack => exact resetLanes_balances hstack
  | complete task outcome hstack hrunning _ => exact finishTask_balances hstack hrunning outcome
  | timeout waiter _ _ _ =>
    exact balances_of_eq (fun _ => ⟨rfl, rfl, rfl, rfl⟩) (fun _ => rfl) fun _ => rfl

/-! ## Runs -/

/-- What callers observe along a run. -/
def eventsOf (labels : List (Action × List QueueEvent)) : List QueueEvent :=
  labels.flatMap Prod.snd

theorem eventsOf_append (labels labels' : List (Action × List QueueEvent)) :
    eventsOf (labels ++ labels') = eventsOf labels ++ eventsOf labels' :=
  flatMap_append

theorem eventsOf_singleton (label : Action × List QueueEvent) : eventsOf [label] = label.2 :=
  append_nil _

variable {labels : List (Action × List QueueEvent)}

/-- The accounts of a lane, from the start of the process. -/
theorem run_pending (h : Run Step initial labels q) (lane : Str) :
    (acceptedIn lane (eventsOf labels)).Perm (startedIn lane (eventsOf labels) ++
      clearedIn lane (eventsOf labels) ++ q.pending lane) := by
  refine h.historyInvariant (fun q labels => (acceptedIn lane (eventsOf labels)).Perm
    (startedIn lane (eventsOf labels) ++ clearedIn lane (eventsOf labels) ++ q.pending lane))
    ?_ (.refl _)
  intro s labels label t hinv hstep
  have hbalance := (step_balances hstep).pending lane
  simp only [eventsOf_append, eventsOf_singleton, acceptedIn, startedIn, clearedIn,
    flatMap_append, perm_iff_count, count_append] at hinv hbalance ⊢
  intro entry
  have := hinv entry
  have := hbalance entry
  omega

theorem run_unsettled (h : Run Step initial labels q) (lane : Str) :
    (startedIn lane (eventsOf labels)).Perm
      (settledIn lane (eventsOf labels) ++ q.unsettled lane) := by
  refine h.historyInvariant (fun q labels => (startedIn lane (eventsOf labels)).Perm
    (settledIn lane (eventsOf labels) ++ q.unsettled lane)) ?_ (.refl _)
  intro s labels label t hinv hstep
  have hbalance := (step_balances hstep).unsettled lane
  simp only [eventsOf_append, eventsOf_singleton, startedIn, settledIn,
    flatMap_append, perm_iff_count, count_append] at hinv hbalance ⊢
  intro entry
  have := hinv entry
  have := hbalance entry
  omega

/-! ## Identities -/

theorem acceptedIds_append (events events' : List QueueEvent) :
    acceptedIds (events ++ events') = acceptedIds events ++ acceptedIds events' :=
  flatMap_append

theorem notifyActiveTaskWaiters_acceptedIds (q : CommandQueue) :
    acceptedIds q.notifyActiveTaskWaiters.2 = [] := by
  simp [acceptedIds, notifyActiveTaskWaiters, flatMap_map, QueueEvent.entryId]

/-- At most one entry is accepted, under the next identity. -/
def TakesIds (q q' : CommandQueue) (events : List QueueEvent) : Prop :=
  (acceptedIds events = [] ∧ q'.nextEntryId = q.nextEntryId) ∨
    (acceptedIds events = [q.nextEntryId] ∧ q'.nextEntryId = q.nextEntryId + 1)

theorem call_takesIds (q : CommandQueue) (operation : Operation) :
    TakesIds q (q.call operation).1 (q.call operation).2 := by
  cases operation with
  | markGatewayDraining => exact .inl ⟨rfl, rfl⟩
  | setCommandLaneConcurrency lane maxConcurrent =>
    refine .inl ⟨rfl, ?_⟩
    simp only [call, setCommandLaneConcurrency]
    split
    · exact (drainLane_frame _ _).2.2.2.2.1
    · rfl
  | enqueueCommandInLane lane warnAfterMs taskTimeoutMs hasOnWait now =>
    simp only [call, enqueueCommandInLane]
    split
    · exact .inl ⟨rfl, rfl⟩
    · exact .inr ⟨rfl, (drainLane_frame _ _).2.2.2.2.1⟩
  | clearCommandLane lane =>
    refine .inl ?_
    simp only [call, clearCommandLane]
    split
    · exact ⟨by simp [acceptedIds, flatMap_map, QueueEvent.entryId], rfl⟩
    · exact ⟨rfl, rfl⟩
  | resetCommandLane lane =>
    refine .inl ⟨rfl, ?_⟩
    simp only [call, resetCommandLane]
    split <;> rfl
  | resetAllLanes => exact .inl ⟨rfl, rfl⟩
  | waitForActiveTasks timeoutMs =>
    refine .inl ?_
    simp only [call, waitForActiveTasks]
    split
    · exact ⟨rfl, rfl⟩
    split
    · exact ⟨rfl, rfl⟩
    · exact ⟨notifyActiveTaskWaiters_acceptedIds _, rfl⟩

theorem step_takesIds {label : Action × List QueueEvent} (h : Step q label q') :
    TakesIds q q' label.2 := by
  cases h with
  | call operation _ => exact q.call_takesIds operation
  | pump lane rest now _ =>
    obtain ⟨_, heq⟩ | ⟨entry, queue, _, _, heq | heq⟩ := q.pump_cases lane rest now <;> rw [heq] <;>
      exact .inl ⟨rfl, rfl⟩
  | onWait lane entry rest now _ => exact .inl ⟨rfl, rfl⟩
  | settle lane entry outcome rest now _ => exact .inl ⟨rfl, rfl⟩
  | resetLanes lanesToDrain rest now _ =>
    cases lanesToDrain with
    | nil => exact .inl ⟨notifyActiveTaskWaiters_acceptedIds _, rfl⟩
    | cons lane lanes => exact .inl ⟨rfl, (drainLane_frame _ _).2.2.2.2.1⟩
  | complete task outcome _ _ _ =>
    have hid : ({ q with running := q.running.erase task }.completeTask task).1.nextEntryId =
        q.nextEntryId := by
      unfold completeTask
      split <;> rfl
    refine .inl ?_
    unfold finishTask
    extract_lets completed notified
    split
    · exact ⟨notifyActiveTaskWaiters_acceptedIds _, hid⟩
    · exact ⟨rfl, hid⟩
  | timeout waiter _ _ _ => exact .inl ⟨rfl, rfl⟩

/-- No two entries have the same identity. -/
theorem run_acceptedIds (h : Run Step initial labels q) :
    (acceptedIds (eventsOf labels)).Nodup := by
  refine (h.historyInvariant (fun q labels => (acceptedIds (eventsOf labels)).Nodup ∧
    ∀ id ∈ acceptedIds (eventsOf labels), id < q.nextEntryId) ?_ ⟨.nil, by simp [eventsOf, acceptedIds]⟩).1
  intro s labels label t ⟨hnodup, hlt⟩ hstep
  rw [eventsOf_append, eventsOf_singleton, acceptedIds_append]
  obtain ⟨hids, hnext⟩ | ⟨hids, hnext⟩ := step_takesIds hstep
  · rw [hids, hnext, append_nil]
    exact ⟨hnodup, hlt⟩
  · rw [hids, hnext]
    constructor
    · refine hnodup.append (nodup_singleton _) fun id hmem hnew => ?_
      exact absurd (hlt id hmem) (mem_singleton.mp hnew ▸ Nat.lt_irrefl _)
    · intro id hmem
      rcases mem_append.mp hmem with hold | hnew
      · exact Nat.lt_succ_of_lt (hlt id hold)
      · exact mem_singleton.mp hnew ▸ Nat.lt_succ_self _

theorem acceptedIn_sublist (lane : Str) (events : List QueueEvent) :
    ((acceptedIn lane events).map QueueEntry.id).Sublist (acceptedIds events) := by
  induction events with
  | nil => exact .slnil
  | cons event events ih =>
    rw [acceptedIn, flatMap_cons, map_append, acceptedIds, flatMap_cons]
    refine List.Sublist.append ?_ ih
    cases event with
    | accepted lane' entry =>
      by_cases hlane : lane' = lane <;> simp [QueueEvent.acceptedIn, QueueEvent.entryId, hlane]
    | _ => exact .slnil

theorem mem_acceptedIn : entry ∈ acceptedIn lane events ↔ .accepted lane entry ∈ events := by
  rw [acceptedIn, mem_flatMap]
  constructor
  · rintro ⟨event, hmem, hentry⟩
    cases event with
    | accepted lane' other =>
      by_cases hlane : lane' = lane
      · obtain rfl : entry = other := by simpa [QueueEvent.acceptedIn, hlane] using hentry
        exact hlane ▸ hmem
      · simp [QueueEvent.acceptedIn, hlane] at hentry
    | _ => simp [QueueEvent.acceptedIn] at hentry
  · intro hmem
    exact ⟨_, hmem, by simp [QueueEvent.acceptedIn]⟩

/-- An identity belongs to one lane. -/
theorem run_lane_of_id (h : Run Step initial labels q) {entry' : QueueEntry}
    (hentry : entry ∈ acceptedIn lane (eventsOf labels))
    (hentry' : entry' ∈ acceptedIn lane' (eventsOf labels)) (hid : entry.id = entry'.id) :
    lane = lane' := by
  have hdisjoint := (nodup_flatMap.mp (run_acceptedIds h)).2
  have hsymm : Std.Symm (Function.onFun List.Disjoint QueueEvent.entryId) :=
    ⟨fun _ _ h => List.Disjoint.symm h⟩
  by_contra hlane
  have hne : QueueEvent.accepted lane entry ≠ .accepted lane' entry' := by
    intro heq
    exact hlane (QueueEvent.accepted.inj heq).1
  have hapart := hdisjoint.forall (mem_acceptedIn.mp hentry) (mem_acceptedIn.mp hentry') hne
  exact hapart (mem_singleton_self entry.id) (hid ▸ mem_singleton_self entry'.id)

/-- What was settled of a lane is part of what it accepted. -/
theorem run_settled_subperm (h : Run Step initial labels q) (lane : Str) :
    (settledIn lane (eventsOf labels) ++ clearedIn lane (eventsOf labels)).Subperm
      (acceptedIn lane (eventsOf labels)) := by
  rw [subperm_ext_iff]
  intro entry _
  rw [(run_pending h lane).count_eq, count_append, count_append, count_append,
    (run_unsettled h lane).count_eq, count_append]
  omega

theorem run_settled_nodup (h : Run Step initial labels q) (lane : Str) :
    ((settledIn lane (eventsOf labels) ++ clearedIn lane (eventsOf labels)).map
      QueueEntry.id).Nodup := by
  have hids := (run_acceptedIds h).sublist (acceptedIn_sublist lane (eventsOf labels))
  obtain ⟨between, hperm, hsublist⟩ := run_settled_subperm h lane
  exact (hperm.map QueueEntry.id).nodup_iff.mp (hids.sublist (hsublist.map QueueEntry.id))

theorem settled_of_settles {id : ℕ} {event : QueueEvent} (h : event.settles id = true) :
    ∃ lane entry, entry.id = id ∧ entry ∈ event.settledIn lane ++ event.clearedIn lane := by
  cases event with
  | settled lane entry outcome =>
    exact ⟨lane, entry, by simpa [QueueEvent.settles] using h, by simp [QueueEvent.settledIn]⟩
  | cleared lane entry =>
    exact ⟨lane, entry, by simpa [QueueEvent.settles] using h, by simp [QueueEvent.clearedIn]⟩
  | _ => exact absurd h Bool.false_ne_true

/-- Where one lane has all settlements of a promise, they are counted there. -/
theorem countP_settles_le (lane : Str) {id : ℕ} (h : ∀ event ∈ events, event.settles id = true →
      ∃ entry, entry.id = id ∧ entry ∈ event.settledIn lane ++ event.clearedIn lane) :
    events.countP (QueueEvent.settles id) ≤
      ((settledIn lane events ++ clearedIn lane events).map QueueEntry.id).count id := by
  induction events with
  | nil => exact Nat.zero_le _
  | cons event events ih =>
    have hrest := ih fun other hmem => h other (mem_cons_of_mem _ hmem)
    simp only [settledIn, clearedIn, flatMap_cons, map_append, count_append, countP_cons] at hrest ⊢
    split
    · rename_i hsettles
      obtain ⟨entry, hid, hmem⟩ := h event mem_cons_self hsettles
      have hcount : 0 < ((event.settledIn lane ++ event.clearedIn lane).map
          QueueEntry.id).count id :=
        count_pos_iff.mpr (mem_map.mpr ⟨entry, hmem, hid⟩)
      simp only [map_append, count_append] at hcount
      omega
    · omega

/-- No promise is settled twice. -/
theorem run_settles_le_one (h : Run Step initial labels q) (id : ℕ) :
    (eventsOf labels).countP (QueueEvent.settles id) ≤ 1 := by
  have haccepted {lane : Str} {entry : QueueEntry} {event : QueueEvent}
      (hevent : event ∈ eventsOf labels)
      (hmem : entry ∈ event.settledIn lane ++ event.clearedIn lane) :
      entry ∈ acceptedIn lane (eventsOf labels) := by
    apply (run_settled_subperm h lane).subset
    rcases mem_append.mp hmem with hsettled | hcleared
    · exact mem_append_left _ (mem_flatMap.mpr ⟨event, hevent, hsettled⟩)
    · exact mem_append_right _ (mem_flatMap.mpr ⟨event, hevent, hcleared⟩)
  by_cases hany : ∃ event ∈ eventsOf labels, event.settles id = true
  · obtain ⟨event, hevent, hsettles⟩ := hany
    obtain ⟨lane, entry, hid, hmem⟩ := settled_of_settles hsettles
    refine (countP_settles_le lane fun other hother hsettles' => ?_).trans
      (nodup_iff_count_le_one.mp (run_settled_nodup h lane) id)
    obtain ⟨lane', entry', hid', hmem'⟩ := settled_of_settles hsettles'
    obtain rfl : lane = lane' :=
      run_lane_of_id h (haccepted hevent hmem) (haccepted hother hmem') (hid.trans hid'.symm)
    exact ⟨entry', hid', hmem'⟩
  · rw [countP_eq_zero.mpr fun event hevent hsettles => hany ⟨event, hevent, hsettles⟩]
    exact Nat.zero_le 1

end CommandQueue

end OpenClaw
