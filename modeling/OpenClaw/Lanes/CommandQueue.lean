import Mathlib.Data.Finset.Card
import Mathlib.Logic.Function.Basic
import OpenClaw.Lib.Run
import OpenClaw.Text.Basic
import OpenClaw.Text.Number

/-!
# The command queue

The lanes of `command-queue.ts` with everything that runs in the process at one time. A
call of an exported function, the completion of a task and the timer of a waiter start on
an empty stack; `drainLane` and the completions push a frame for their `pump`, and the
`onWait` callback of an entry may call the exported functions again while its frame waits.

Tasks and callbacks are the caller's. Their identity is that of the entry they came with,
and logging is left out.
-/

namespace OpenClaw

/-! ## Lanes -/

/-- `QueueEntry`; `id` is the identity of the promise that `enqueueCommandInLane` returned,
`hasOnWait` says that the caller passed a callback. -/
structure QueueEntry where
  id : ℕ
  enqueuedAt : ℤ
  warnAfterMs : JsNumber
  taskTimeoutMs : Option ℕ
  hasOnWait : Bool
deriving DecidableEq

/-- A value of `Math.max(minConcurrent, Math.floor(maxConcurrent))`. -/
inductive ConcurrencyLimit where
  | nan
  | atMost (count : ℕ)
  | unbounded
deriving DecidableEq

variable (limit : ConcurrencyLimit)

/-- `count < maxConcurrent`. -/
def ConcurrencyLimit.hasRoom (count : ℕ) : Bool :=
  match limit with
  | nan => false
  | atMost n => count < n
  | unbounded => true

/-- `count <= maxConcurrent`. -/
def ConcurrencyLimit.holds (count : ℕ) : Bool :=
  match limit with
  | nan => false
  | atMost n => count ≤ n
  | unbounded => true

theorem ConcurrencyLimit.holds_of_hasRoom {limit : ConcurrencyLimit} {count count' : ℕ}
    (h : limit.hasRoom count = true) (hle : count' ≤ count + 1) : limit.holds count' = true := by
  cases limit with
  | nan => simp [hasRoom] at h
  | atMost n =>
    simp only [hasRoom, decide_eq_true_eq] at h
    simp only [holds, decide_eq_true_eq]
    omega
  | unbounded => rfl

theorem ConcurrencyLimit.hasRoom_of_le {limit : ConcurrencyLimit} {count count' : ℕ}
    (h : limit.hasRoom count = true) (hle : count' ≤ count) : limit.hasRoom count' = true := by
  cases limit with
  | nan => simp [hasRoom] at h
  | atMost n =>
    simp only [hasRoom, decide_eq_true_eq] at h ⊢
    omega
  | unbounded => rfl

/-- `LaneState` without its name, which is the key of the map it is in. -/
structure LaneState where
  queue : List QueueEntry
  activeTaskIds : Finset ℕ
  maxConcurrent : ConcurrencyLimit
  draining : Bool
  generation : ℕ
deriving DecidableEq

/-- The state in which `getLaneState` creates a lane. -/
def LaneState.created : LaneState := ⟨[], ∅, .atMost 1, false, 0⟩

variable (state : LaneState)

/-- The condition of the loop in `pump`. -/
def LaneState.canStart : Bool :=
  state.maxConcurrent.hasRoom state.activeTaskIds.card && !state.queue.isEmpty

/-- What a reset does to the state of a lane. -/
def LaneState.reset : LaneState :=
  { state with generation := state.generation + 1, activeTaskIds := ∅, draining := false }

variable (lane : Str)

/-- `normalizeLane`. -/
def normalizeLane : Str := if trim lane = [] then "main" else trim lane

def isProbeLane : Bool :=
  startsWith lane "auth-probe:" || startsWith lane "session:probe-"

/-- The limit that `setCommandLaneConcurrency` stores. -/
def resolveConcurrency (maxConcurrent : JsNumber) : ConcurrencyLimit :=
  let minConcurrent := if isProbeLane lane then 1 else 0
  match maxConcurrent with
  | .nan => .nan
  | .negInfinity => .atMost minConcurrent
  | .infinity => .unbounded
  | .finite value => .atMost (max minConcurrent value.floor.toNat)

/-- `normalizeTaskTimeoutMs`. -/
def normalizeTaskTimeoutMs (value : Option JsNumber) : Option ℕ :=
  match value with
  | some (.finite q) => if q ≤ 0 then none else some (max 1 q.floor.toNat)
  | _ => none

/-! ## The state of the process -/

/-- `ActiveTaskWaiter`; `id` is the identity of its promise, `hasTimeout` says that a timer
is set. -/
structure ActiveTaskWaiter where
  id : ℕ
  activeTaskIds : Finset ℕ
  hasTimeout : Bool
deriving DecidableEq

/-- A task that was started and whose promise is not settled yet, with what its completion
remembers of the start. -/
structure RunningTask where
  taskId : ℕ
  lane : Str
  taskGeneration : ℕ
  entry : QueueEntry
deriving DecidableEq

/-- How the promise of `runQueueEntryTask` settles. -/
inductive TaskOutcome where
  | resolved | rejected | timedOut
deriving DecidableEq

/-- What is left to do of a function that waits for another one to return. -/
inductive Frame where
  /-- `pump`, in front of its loop condition. -/
  | pump (lane : Str)
  /-- `pump`, while the callback of the entry it took off the queue is running. -/
  | onWait (lane : Str) (entry : QueueEntry)
  /-- A completion, behind its `pump`. -/
  | settle (lane : Str) (entry : QueueEntry) (outcome : TaskOutcome)
  /-- A reset, in front of the rest of its calls of `drainLane`. -/
  | resetLanes (lanesToDrain : List Str)
deriving DecidableEq

/-- The frame is that of the `pump` of this lane. -/
def Frame.pumps : Frame → Prop
  | pump lane' | onWait lane' _ => lane' = lane
  | _ => False

/-- The state of `getQueueState` with the calls in progress. The map of the lanes is the list
of its keys in insertion order and the state of each lane, which is `LaneState.created` for
a lane that is not in the map. -/
structure CommandQueue where
  gatewayDraining : Bool
  laneNames : List Str
  lanes : Str → LaneState
  activeTaskWaiters : List ActiveTaskWaiter
  nextTaskId : ℕ
  running : List RunningTask
  stack : List Frame
  nextEntryId : ℕ
  nextWaiterId : ℕ

/-- The state of a new process. -/
def CommandQueue.initial : CommandQueue :=
  ⟨false, [], fun _ => LaneState.created, [], 1, [], [], 0, 0⟩

/-- What callers observe, in order. -/
inductive QueueEvent where
  /-- `enqueueCommandInLane` put the entry into its lane. -/
  | accepted (lane : Str) (entry : QueueEntry)
  /-- `enqueueCommandInLane` rejected with `GatewayDrainingError`. -/
  | refused
  /-- `pump` added the task to the active tasks of the lane. -/
  | started (lane : Str) (entry : QueueEntry) (taskId : ℕ)
  /-- `clearCommandLane` rejected the entry with `CommandLaneClearedError`. -/
  | cleared (lane : Str) (entry : QueueEntry)
  | settled (lane : Str) (entry : QueueEntry) (outcome : TaskOutcome)
  /-- A call of `waitForActiveTasks` that captured these tasks. -/
  | waiting (waiter : ℕ) (activeAtStart : Finset ℕ)
  | waiterResolved (waiter : ℕ) (drained : Bool)
deriving DecidableEq

namespace CommandQueue

/-! ## Functions of the queue -/

variable (q : CommandQueue)

def modifyLane (lane : Str) (f : LaneState → LaneState) : CommandQueue :=
  { q with lanes := Function.update q.lanes lane (f (q.lanes lane)) }

def withStack (stack : List Frame) : CommandQueue := { q with stack := stack }

/-- `getLaneState`, as far as it changes the map. -/
def getLaneState (lane : Str) : CommandQueue :=
  { q with laneNames := if lane ∈ q.laneNames then q.laneNames else q.laneNames ++ [lane] }

/-- `hasPendingActiveTasks`. -/
def hasPendingActiveTasks (taskIds : Finset ℕ) : Bool :=
  q.laneNames.any fun lane => decide ¬ Disjoint (q.lanes lane).activeTaskIds taskIds

/-- The waiters that `notifyActiveTaskWaiters` resolves. -/
def isDrained (waiter : ActiveTaskWaiter) : Bool :=
  decide (waiter.activeTaskIds = ∅) || !q.hasPendingActiveTasks waiter.activeTaskIds

/-- `notifyActiveTaskWaiters`. -/
def notifyActiveTaskWaiters : CommandQueue × List QueueEvent :=
  ({ q with activeTaskWaiters := q.activeTaskWaiters.filter fun waiter => !q.isDrained waiter },
    (q.activeTaskWaiters.filter q.isDrained).map fun waiter => .waiterResolved waiter.id true)

/-- `drainLane`, up to its `pump`. -/
def drainLane (lane : Str) : CommandQueue :=
  let q := q.getLaneState lane
  if (q.lanes lane).draining then q
  else (q.modifyLane lane ({ · with draining := true })).withStack (.pump lane :: q.stack)

/-- The rest of an iteration of `pump` behind the callback of the entry. -/
def startEntry (lane : Str) (entry : QueueEntry) : CommandQueue × List QueueEvent :=
  let taskId := q.nextTaskId
  let taskGeneration := (q.lanes lane).generation
  let started := q.modifyLane lane fun state =>
    { state with activeTaskIds := insert taskId state.activeTaskIds }
  ({ started with
      nextTaskId := taskId + 1
      running := q.running ++ [⟨taskId, lane, taskGeneration, entry⟩] },
    [.started lane entry taskId])

/-- `pump` of a lane on the frames below it: one test of the loop condition and, where it
holds, the iteration up to the callback or to its end. -/
def pump (q : CommandQueue) (lane : Str) (rest : List Frame) (now : ℤ) :
    CommandQueue × List QueueEvent :=
  let state := q.lanes lane
  match state.maxConcurrent.hasRoom state.activeTaskIds.card, state.queue with
  | true, entry :: queue =>
    let taken := q.modifyLane lane ({ · with queue := queue })
    let waitedMs := now - entry.enqueuedAt
    if entry.warnAfterMs.atMost waitedMs ∧ entry.hasOnWait then
      (taken.withStack (.onWait lane entry :: rest), [])
    else
      (taken.withStack (.pump lane :: rest)).startEntry lane entry
  | _, _ => ((q.modifyLane lane ({ · with draining := false })).withStack rest, [])

variable (task : RunningTask)

/-- `completeTask`. -/
def completeTask : CommandQueue × Bool :=
  if task.taskGeneration = (q.lanes task.lane).generation then
    (q.modifyLane task.lane fun state =>
      { state with activeTaskIds := state.activeTaskIds.erase task.taskId }, true)
  else (q, false)

/-- What follows when the promise of a started task settles, up to the `pump`. -/
def finishTask (outcome : TaskOutcome) : CommandQueue × List QueueEvent :=
  let completed := { q with running := q.running.erase task }.completeTask task
  if completed.2 then
    let notified := completed.1.notifyActiveTaskWaiters
    (notified.1.withStack [.pump task.lane, .settle task.lane task.entry outcome], notified.2)
  else (completed.1.withStack [.settle task.lane task.entry outcome], [])

/-- A reset in front of the rest of its calls of `drainLane`, on the frames below it. -/
def resetLanes (q : CommandQueue) (lanesToDrain : List Str) (rest : List Frame) :
    CommandQueue × List QueueEvent :=
  match lanesToDrain with
  | lane :: lanes => ((q.withStack (.resetLanes lanes :: rest)).drainLane lane, [])
  | [] => (q.withStack rest).notifyActiveTaskWaiters

/-! ## Exported functions -/

/-- A call of an exported function. -/
inductive Operation where
  | markGatewayDraining
  | setCommandLaneConcurrency (lane : Str) (maxConcurrent : JsNumber)
  | enqueueCommandInLane (lane : Str) (warnAfterMs : Option JsNumber)
      (taskTimeoutMs : Option JsNumber) (hasOnWait : Bool) (now : ℤ)
  | clearCommandLane (lane : Str)
  | resetCommandLane (lane : Str)
  | resetAllLanes
  | waitForActiveTasks (timeoutMs : Option JsNumber)
deriving DecidableEq

def markGatewayDraining : CommandQueue := { q with gatewayDraining := true }

def setCommandLaneConcurrency (lane : Str) (maxConcurrent : JsNumber) : CommandQueue :=
  let cleaned := normalizeLane lane
  let limit := resolveConcurrency cleaned maxConcurrent
  let q := (q.getLaneState cleaned).modifyLane cleaned ({ · with maxConcurrent := limit })
  if limit.hasRoom 0 then q.drainLane cleaned else q

def enqueueCommandInLane (lane : Str)
    (warnAfterMs taskTimeoutMs : Option JsNumber) (hasOnWait : Bool) (now : ℤ) :
    CommandQueue × List QueueEvent :=
  if q.gatewayDraining then (q, [.refused])
  else
    let cleaned := normalizeLane lane
    let entry : QueueEntry :=
      { id := q.nextEntryId
        enqueuedAt := now
        warnAfterMs := warnAfterMs.getD (.finite 2000)
        taskTimeoutMs := normalizeTaskTimeoutMs taskTimeoutMs
        hasOnWait := hasOnWait }
    let queued := (q.getLaneState cleaned).modifyLane cleaned fun state =>
      { state with queue := state.queue ++ [entry] }
    ({ queued with nextEntryId := q.nextEntryId + 1 }.drainLane cleaned,
      [.accepted cleaned entry])

def clearCommandLane (lane : Str) : CommandQueue × List QueueEvent :=
  let cleaned := normalizeLane lane
  if cleaned ∈ q.laneNames then
    (q.modifyLane cleaned ({ · with queue := [] }),
      (q.lanes cleaned).queue.map (.cleared cleaned))
  else (q, [])

def resetCommandLane (lane : Str) : CommandQueue :=
  let cleaned := normalizeLane lane
  if cleaned ∈ q.laneNames then
    let lanesToDrain := if (q.lanes cleaned).queue.isEmpty then [] else [cleaned]
    (q.modifyLane cleaned LaneState.reset).withStack (.resetLanes lanesToDrain :: q.stack)
  else q

def resetAllLanes : CommandQueue :=
  { q with
    gatewayDraining := false
    lanes := fun lane => if lane ∈ q.laneNames then (q.lanes lane).reset else q.lanes lane
    stack := .resetLanes (q.laneNames.filter fun lane => !(q.lanes lane).queue.isEmpty) :: q.stack }

/-- The active tasks of all lanes. -/
def allActiveTaskIds : Finset ℕ :=
  q.laneNames.foldr (fun lane ids => (q.lanes lane).activeTaskIds ∪ ids) ∅

def waitForActiveTasks (timeoutMs : Option JsNumber) : CommandQueue × List QueueEvent :=
  let activeAtStart := q.allActiveTaskIds
  let called := { q with nextWaiterId := q.nextWaiterId + 1 }
  let waiting : QueueEvent := .waiting q.nextWaiterId activeAtStart
  if activeAtStart = ∅ then (called, [waiting, .waiterResolved q.nextWaiterId true])
  else if timeoutMs.any (·.atMost 0) then
    (called, [waiting, .waiterResolved q.nextWaiterId false])
  else
    let waiter : ActiveTaskWaiter := ⟨q.nextWaiterId, activeAtStart, timeoutMs.isSome⟩
    let notified := { called with
      activeTaskWaiters := q.activeTaskWaiters ++ [waiter] }.notifyActiveTaskWaiters
    (notified.1, waiting :: notified.2)

/-- What a call does before it returns or pushes a frame. -/
def call : Operation → CommandQueue × List QueueEvent
  | .markGatewayDraining => (q.markGatewayDraining, [])
  | .setCommandLaneConcurrency lane maxConcurrent =>
    (q.setCommandLaneConcurrency lane maxConcurrent, [])
  | .enqueueCommandInLane lane warnAfterMs taskTimeoutMs hasOnWait now =>
    q.enqueueCommandInLane lane warnAfterMs taskTimeoutMs hasOnWait now
  | .clearCommandLane lane => q.clearCommandLane lane
  | .resetCommandLane lane => (q.resetCommandLane lane, [])
  | .resetAllLanes => (q.resetAllLanes, [])
  | .waitForActiveTasks timeoutMs => q.waitForActiveTasks timeoutMs

/-! ## Steps -/

/-- What happens next. -/
inductive Action where
  | call (operation : Operation)
  /-- The function on top of the stack goes on; the clock says `now`. -/
  | proceed (now : ℤ)
  | complete (task : RunningTask) (outcome : TaskOutcome)
  | timeout (waiter : ActiveTaskWaiter)
deriving DecidableEq

/-- User code is running: nothing of the queue is on the stack, or a callback is on top. -/
def runsUserCode : Prop :=
  q.stack = [] ∨ ∃ lane entry rest, q.stack = .onWait lane entry :: rest

/-- One step of the process, with what callers observe of it. -/
inductive Step : CommandQueue → Action × List QueueEvent → CommandQueue → Prop
  | call {q : CommandQueue} (operation : Operation) (huser : q.runsUserCode) :
      Step q (.call operation, (q.call operation).2) (q.call operation).1
  | pump {q : CommandQueue} (lane : Str) (rest : List Frame) (now : ℤ)
      (hstack : q.stack = .pump lane :: rest) :
      Step q (.proceed now, (q.pump lane rest now).2) (q.pump lane rest now).1
  -- the callback of the entry returns or throws
  | onWait {q : CommandQueue} (lane : Str) (entry : QueueEntry) (rest : List Frame) (now : ℤ)
      (hstack : q.stack = .onWait lane entry :: rest) :
      Step q (.proceed now, [.started lane entry q.nextTaskId])
        ((q.withStack (.pump lane :: rest)).startEntry lane entry).1
  | settle {q : CommandQueue} (lane : Str) (entry : QueueEntry) (outcome : TaskOutcome)
      (rest : List Frame) (now : ℤ) (hstack : q.stack = .settle lane entry outcome :: rest) :
      Step q (.proceed now, [.settled lane entry outcome]) (q.withStack rest)
  | resetLanes {q : CommandQueue} (lanesToDrain : List Str) (rest : List Frame) (now : ℤ)
      (hstack : q.stack = .resetLanes lanesToDrain :: rest) :
      Step q (.proceed now, (q.resetLanes lanesToDrain rest).2) (q.resetLanes lanesToDrain rest).1
  | complete {q : CommandQueue} (task : RunningTask) (outcome : TaskOutcome)
      (hstack : q.stack = []) (hrunning : task ∈ q.running)
      (htimeout : outcome = .timedOut → task.entry.taskTimeoutMs.isSome = true) :
      Step q (.complete task outcome, (q.finishTask task outcome).2) (q.finishTask task outcome).1
  | timeout {q : CommandQueue} (waiter : ActiveTaskWaiter) (hstack : q.stack = [])
      (hwaiter : waiter ∈ q.activeTaskWaiters) (htimeout : waiter.hasTimeout = true) :
      Step q (.timeout waiter, [.waiterResolved waiter.id false])
        { q with activeTaskWaiters := q.activeTaskWaiters.erase waiter }

/-- The step of an action, where there is one. -/
def perform : Action → Option (CommandQueue × List QueueEvent)
  | .call operation =>
    match q.stack with
    | [] | .onWait _ _ :: _ => some (q.call operation)
    | _ => none
  | .proceed now =>
    match q.stack with
    | .pump lane :: rest => some (q.pump lane rest now)
    | .onWait lane entry :: rest =>
      some ((q.withStack (.pump lane :: rest)).startEntry lane entry)
    | .settle lane entry outcome :: rest =>
      some (q.withStack rest, [.settled lane entry outcome])
    | .resetLanes lanesToDrain :: rest => some (q.resetLanes lanesToDrain rest)
    | [] => none
  | .complete task outcome =>
    if q.stack = [] ∧ task ∈ q.running ∧
        (outcome = .timedOut → task.entry.taskTimeoutMs.isSome = true) then
      some (q.finishTask task outcome)
    else none
  | .timeout waiter =>
    if q.stack = [] ∧ waiter ∈ q.activeTaskWaiters ∧ waiter.hasTimeout = true then
      some ({ q with activeTaskWaiters := q.activeTaskWaiters.erase waiter },
        [.waiterResolved waiter.id false])
    else none

theorem step_of_perform {q : CommandQueue} {action : Action}
    {next : CommandQueue × List QueueEvent} (h : q.perform action = some next) :
    Step q (action, next.2) next.1 := by
  cases action with
  | call operation =>
    simp only [perform] at h
    split at h
    · rename_i hstack
      cases h
      exact .call operation (.inl hstack)
    · rename_i lane entry rest hstack
      cases h
      exact .call operation (.inr ⟨lane, entry, rest, hstack⟩)
    · cases h
  | proceed now =>
    simp only [perform] at h
    split at h
    · rename_i lane rest hstack
      cases h
      exact .pump lane rest now hstack
    · rename_i lane entry rest hstack
      cases h
      exact .onWait lane entry rest now hstack
    · rename_i lane entry outcome rest hstack
      cases h
      exact .settle lane entry outcome rest now hstack
    · rename_i lanesToDrain rest hstack
      cases h
      exact .resetLanes lanesToDrain rest now hstack
    · cases h
  | complete task outcome =>
    simp only [perform] at h
    split_ifs at h with henabled
    cases h
    exact .complete task outcome henabled.1 henabled.2.1 henabled.2.2
  | timeout waiter =>
    simp only [perform] at h
    split_ifs at h with henabled
    cases h
    exact .timeout waiter henabled.1 henabled.2.1 henabled.2.2

/-- The run of a list of actions that are all allowed, where there is one. -/
def performAll (allowed : CommandQueue → Action → Bool) (q : CommandQueue) :
    List Action → Option (CommandQueue × List (Action × List QueueEvent))
  | [] => some (q, [])
  | action :: actions =>
    if allowed q action then
      (q.perform action).bind fun (next, events) =>
        (performAll allowed next actions).map fun (last, labels) =>
          (last, (action, events) :: labels)
    else none

theorem run_of_performAll {allowed : CommandQueue → Action → Bool} {q q' : CommandQueue}
    {actions : List Action} {labels : List (Action × List QueueEvent)}
    (h : performAll allowed q actions = some (q', labels)) :
    Lts.Run (fun q label q' => Step q label q' ∧ allowed q label.1 = true) q labels q' := by
  induction actions generalizing q labels with
  | nil =>
    cases h
    exact .nil _
  | cons action actions ih =>
    by_cases hallowed : allowed q action = true
    · simp only [performAll, hallowed, if_true, Option.bind_eq_some_iff,
        Option.map_eq_some_iff] at h
      obtain ⟨⟨next, events⟩, hfirst, ⟨last, labels'⟩, hrest, heq⟩ := h
      cases heq
      exact .cons ⟨step_of_perform hfirst, hallowed⟩ (ih hrest)
    · simp [performAll, hallowed] at h

end CommandQueue

end OpenClaw
