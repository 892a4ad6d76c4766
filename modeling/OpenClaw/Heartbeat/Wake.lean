import OpenClaw.Lib.Keyed
import OpenClaw.Lib.Run
import OpenClaw.Text.Basic
import OpenClaw.Text.Number

/-!
# Heartbeat wakes

The module state of `heartbeat-wake.ts` and everything that changes it: requests, timers that
fire, handlers that are registered or disposed of, and the results of handler calls. A timer
callback that is past its guards is a batch. It makes one handler call after the other, and
between two of them anything else may happen.

Handlers are the caller's. They are known by their identity only, so each call may end in
every way at every time.
-/

namespace OpenClaw

open Keyed

/-! ## Wakes -/

inductive HeartbeatWakeIntent where
  | scheduled | event | immediate | manual
deriving DecidableEq

inductive HeartbeatWakeSource where
  | interval | manual | execEvent | notificationsEvent | cron | hook | backgroundTask
  | backgroundTaskBlocked | acpSpawn | cliWatchdog | restartSentinel | retry | other
deriving DecidableEq

structure HeartbeatWakeOverride where
  target : Option Str
  recipient : Option Str
  accountId : Option Str
deriving DecidableEq

/-- `HeartbeatRunResult` without the duration of a run. -/
inductive HeartbeatRunResult where
  | ran
  | skipped (reason : Str)
  | failed (reason : Str)
deriving DecidableEq

def isRetryableHeartbeatBusySkipReason (reason : Str) : Bool :=
  reason = "requests-in-flight" || reason = "cron-in-progress" || reason = "lanes-busy"

/-- The result sends the wake back to the pending ones. -/
def HeartbeatRunResult.isRetryable : HeartbeatRunResult → Bool
  | skipped reason => isRetryableHeartbeatBusySkipReason reason
  | _ => false

variable (source : HeartbeatWakeSource) (intent : HeartbeatWakeIntent)

def resolveWakePriority (reason : Str) : ℕ :=
  if intent = .manual ∨ intent = .immediate then 3
  else if source = .retry ∨ reason = "retry" then 0
  else if intent = .scheduled ∨ source = .interval ∨ reason = "interval" then 1
  else 2

variable (reason : Option Str)

/-- `normalizeHeartbeatWakeReason`. -/
def normalizeWakeReason : Str :=
  (normalizeOptionalString reason).getD "requested"

def normalizeWakeTarget (value : Option Str) : Option Str := normalizeOptionalString value

def getWakeTargetKey (agentId sessionKey : Option Str) : Str :=
  (normalizeWakeTarget agentId).getD [] ++ "::".toList ++ (normalizeWakeTarget sessionKey).getD []

theorem normalizeWakeReason_idem :
    normalizeWakeReason (some (normalizeWakeReason reason)) = normalizeWakeReason reason := by
  have hidem := normalizeOptionalString_idem reason
  unfold normalizeWakeReason
  cases hreason : normalizeOptionalString reason with
  | none => decide +kernel
  | some s =>
    rw [hreason] at hidem
    show (normalizeOptionalString (some s)).getD _ = s
    rw [hidem]
    rfl

/-- `PendingWakeReason`. The code builds it from normalised parts only. -/
structure PendingWakeReason where
  source : HeartbeatWakeSource
  intent : HeartbeatWakeIntent
  reason : Str
  priority : ℕ
  requestedAt : ℕ
  agentId : Option Str
  sessionKey : Option Str
  heartbeat : Option HeartbeatWakeOverride
  reason_normal : normalizeWakeReason (some reason) = reason
  priority_eq : priority = resolveWakePriority source intent reason
  agentId_normal : normalizeWakeTarget agentId = agentId
  sessionKey_normal : normalizeWakeTarget sessionKey = sessionKey

variable (wake : PendingWakeReason)

/-- The key of the pending map. -/
def PendingWakeReason.targetKey : Str :=
  getWakeTargetKey wake.agentId wake.sessionKey

/-- The parameters of `requestHeartbeat`. -/
structure HeartbeatRequest where
  source : HeartbeatWakeSource
  intent : HeartbeatWakeIntent
  reason : Option Str
  coalesceMs : Option JsNumber
  agentId : Option Str
  sessionKey : Option Str
  heartbeat : Option HeartbeatWakeOverride
deriving DecidableEq

/-- The wake `next` of `queuePendingWakeReason`. -/
def nextWake (agentId sessionKey : Option Str) (heartbeat : Option HeartbeatWakeOverride)
    (requestedAt : ℕ) : PendingWakeReason :=
  let normalizedReason := normalizeWakeReason reason
  { source := source
    intent := intent
    reason := normalizedReason
    priority := resolveWakePriority source intent normalizedReason
    requestedAt := requestedAt
    agentId := normalizeWakeTarget agentId
    sessionKey := normalizeWakeTarget sessionKey
    heartbeat := heartbeat
    reason_normal := normalizeWakeReason_idem reason
    priority_eq := rfl
    agentId_normal := normalizeOptionalString_idem agentId
    sessionKey_normal := normalizeOptionalString_idem sessionKey }

/-! ## The state of the module -/

inductive WakeTimerKind where
  | normal | retry
deriving DecidableEq

/-- An armed timer: `timerDueAt`, `timerKind` and the delay that its callback remembers. -/
structure WakeTimer where
  dueAt : ℚ
  kind : WakeTimerKind
  delay : ℚ
deriving DecidableEq

/-- The moment at which the timer was armed. -/
def WakeTimer.armedAt (timer : WakeTimer) : ℚ := timer.dueAt - timer.delay

/-- A timer callback in front of the result of a handler call: `pendingBatch` is split at the
wake of the call. -/
structure WakeBatch where
  id : ℕ
  active : ℕ
  delay : ℚ
  done : List PendingWakeReason
  pendingWake : PendingWakeReason
  left : List PendingWakeReason
  nodup : ((done ++ pendingWake :: left).map PendingWakeReason.targetKey).Nodup

variable (batch : WakeBatch)

def WakeBatch.pendingBatch : List PendingWakeReason :=
  batch.done ++ batch.pendingWake :: batch.left

/-- The loop of the batch goes on to its next wake. -/
def WakeBatch.advance {wake : PendingWakeReason}
    {left : List PendingWakeReason} (hleft : batch.left = wake :: left) : WakeBatch :=
  { batch with
    done := batch.done ++ [batch.pendingWake]
    pendingWake := wake
    left := left
    nodup := by
      have hnodup := batch.nodup
      rw [hleft] at hnodup
      simpa using hnodup }

/-- The module's variables with the batches in progress and the clock. -/
structure HeartbeatWake where
  handler : Option ℕ
  handlerGeneration : ℕ
  pendingWakes : Keyed PendingWakeReason PendingWakeReason.targetKey
  scheduled : Bool
  running : Bool
  timer : Option WakeTimer
  batches : Keyed WakeBatch WakeBatch.id
  nextBatch : ℕ
  now : ℕ

/-- What can be seen of the module from outside, in order. -/
inductive WakeEvent where
  /-- `requestHeartbeat` for a target, with the delay it asks for. -/
  | requested (key : Str) (priority : ℕ) (time : ℕ) (delay : ℚ)
  /-- A batch returned the wake to the pending ones. -/
  | requeued (key : Str) (priority : ℕ) (time : ℕ)
  /-- A timer fired while a batch was running, and was armed again with its delay. -/
  | rearmed (delay : ℚ)
  /-- A timer fired and its batch took all pending wakes. -/
  | taken (batch : ℕ)
  | called (batch : ℕ) (key : Str) (priority : ℕ)
  | returned (batch : ℕ) (key : Str) (res : HeartbeatRunResult)
  | threw (batch : ℕ)
  /-- `setHeartbeatWakeHandler` with a handler. -/
  | registered (handler : ℕ)
deriving DecidableEq

namespace WakeEvent

/-- The handler is called for the target. -/
def callsFor (key : Str) : WakeEvent → Bool
  | called _ key' _ => key' = key
  | _ => false

/-- `requestHeartbeat` named the target. -/
def requests (key : Str) : WakeEvent → Bool
  | requested key' _ _ _ => key' = key
  | _ => false

def registers : WakeEvent → Bool
  | registered _ => true
  | _ => false

end WakeEvent

namespace HeartbeatWake

/-- The state of a new process. -/
def initial : HeartbeatWake := ⟨none, 0, .empty, false, false, none, .empty, 0, 0⟩

/-! ## Functions of the module -/

def defaultCoalesceMs : ℚ := 250

def defaultRetryMs : ℚ := 1000

/-- The delay that `schedule` makes of its argument. -/
def scheduleDelay (coalesceMs : JsNumber) : ℚ :=
  match coalesceMs with
  | .finite ms => max 0 ms
  | _ => defaultCoalesceMs

variable (s : HeartbeatWake)

/-- `schedule`, up to the callback of the timer. -/
def schedule (coalesceMs : JsNumber) (kind : WakeTimerKind) : HeartbeatWake :=
  let delay := scheduleDelay coalesceMs
  let dueAt := s.now + delay
  match s.timer with
  | some timer =>
    if timer.kind = .retry then s
    else if timer.dueAt ≤ dueAt then s
    else { s with timer := some ⟨dueAt, kind, delay⟩ }
  | none => { s with timer := some ⟨dueAt, kind, delay⟩ }

/-- `queuePendingWakeReason`. -/
def queuePendingWakeReason (next : PendingWakeReason) : HeartbeatWake :=
  match s.pendingWakes.find next.targetKey with
  | none => { s with pendingWakes := s.pendingWakes.set next }
  | some previous =>
    let merged := { next with heartbeat := next.heartbeat.or previous.heartbeat }
    if previous.priority < next.priority then
      { s with pendingWakes := s.pendingWakes.set merged }
    else if next.priority = previous.priority ∧ previous.requestedAt ≤ next.requestedAt then
      { s with pendingWakes := s.pendingWakes.set merged }
    else s

/-- A batch gives a wake back. -/
def requeue (wake : PendingWakeReason) : HeartbeatWake :=
  s.queuePendingWakeReason (nextWake wake.source wake.intent (some wake.reason) wake.agentId
    wake.sessionKey wake.heartbeat s.now)

/-- The `finally` block of the timer callback. -/
def finish (delay : ℚ) : HeartbeatWake :=
  let s := { s with running := false }
  if s.pendingWakes.entries ≠ [] ∨ s.scheduled = true then s.schedule (.finite delay) .normal
  else s

/-- The loop of the batch behind the result of a call: the next call, or the end. -/
def proceed (batch : WakeBatch) : HeartbeatWake × List WakeEvent :=
  match hleft : batch.left with
  | wake :: _ =>
    ({ s with batches := s.batches.set (batch.advance hleft) },
      [.called batch.id wake.targetKey wake.priority])
  | [] => ({ s with batches := s.batches.erase batch.id }.finish batch.delay, [])

/-- The callback of a timer, up to the first handler call or to its end. -/
def fire (timer : WakeTimer) : HeartbeatWake × List WakeEvent :=
  let s := { s with timer := none, scheduled := false }
  match s.handler with
  | none => (s, [])
  | some active =>
    if s.running then
      ({ s with scheduled := true }.schedule (.finite timer.delay) timer.kind,
        [.rearmed timer.delay])
    else
      let taken := { s with pendingWakes := .empty, running := true, nextBatch := s.nextBatch + 1 }
      match hpending : s.pendingWakes.entries with
      | [] => (taken.finish timer.delay, [.taken s.nextBatch])
      | wake :: left =>
        let batch : WakeBatch :=
          { id := s.nextBatch
            active := active
            delay := timer.delay
            done := []
            pendingWake := wake
            left := left
            nodup := by
              have hnodup := s.pendingWakes.nodup
              rw [hpending] at hnodup
              exact hnodup }
        ({ taken with batches := taken.batches.set batch },
          [.taken s.nextBatch, .called s.nextBatch wake.targetKey wake.priority])

/-- The call of a batch returns. -/
def returns (batch : WakeBatch) (res : HeartbeatRunResult) : HeartbeatWake × List WakeEvent :=
  let wake := batch.pendingWake
  let returned : WakeEvent := .returned batch.id wake.targetKey res
  if res.isRetryable then
    let requeued := (s.requeue wake).schedule (.finite defaultRetryMs) .retry
    let next := requeued.proceed batch
    (next.1, returned :: .requeued wake.targetKey wake.priority s.now :: next.2)
  else
    let next := s.proceed batch
    (next.1, returned :: next.2)

/-- The call of a batch throws. -/
def throws (batch : WakeBatch) : HeartbeatWake × List WakeEvent :=
  let requeued := (batch.pendingBatch.foldl requeue s).schedule (.finite defaultRetryMs) .retry
  ({ requeued with batches := requeued.batches.erase batch.id }.finish batch.delay,
    .threw batch.id ::
      batch.pendingBatch.map fun wake => .requeued wake.targetKey wake.priority s.now)

/-- `requestHeartbeat`. -/
def requestHeartbeat (opts : HeartbeatRequest) : HeartbeatWake × List WakeEvent :=
  let next := nextWake opts.source opts.intent opts.reason opts.agentId opts.sessionKey
    opts.heartbeat s.now
  let coalesceMs := opts.coalesceMs.getD (.finite defaultCoalesceMs)
  ((s.queuePendingWakeReason next).schedule coalesceMs .normal,
    [.requested next.targetKey next.priority s.now (scheduleDelay coalesceMs)])

/-- `setHeartbeatWakeHandler`. -/
def setHeartbeatWakeHandler (next : Option ℕ) : HeartbeatWake × List WakeEvent :=
  let s := { s with handlerGeneration := s.handlerGeneration + 1, handler := next }
  match next with
  | none => (s, [])
  | some handler =>
    let s := { s with timer := none, running := false, scheduled := false }
    (if s.pendingWakes.entries ≠ [] then s.schedule (.finite defaultCoalesceMs) .normal else s,
      [.registered handler])

/-- The function that `setHeartbeatWakeHandler(next)` returned for its generation. -/
def dispose (generation : ℕ) (next : Option ℕ) : HeartbeatWake :=
  if s.handlerGeneration ≠ generation then s
  else if s.handler ≠ next then s
  else { s with handlerGeneration := s.handlerGeneration + 1, handler := none }

/-! ## What the functions do -/

section

variable (s : HeartbeatWake)

/-- `schedule` keeps the armed timer, or it arms a new one that is due sooner. -/
theorem schedule_cases (coalesceMs : JsNumber) (kind : WakeTimerKind) :
    (∃ timer, s.timer = some timer ∧ s.schedule coalesceMs kind = s ∧
      (timer.kind = .retry ∨ timer.dueAt ≤ s.now + scheduleDelay coalesceMs)) ∨
    ((∀ timer, s.timer = some timer → s.now + scheduleDelay coalesceMs < timer.dueAt) ∧
      s.schedule coalesceMs kind =
        { s with
          timer := some ⟨s.now + scheduleDelay coalesceMs, kind, scheduleDelay coalesceMs⟩ }) := by
  unfold schedule
  dsimp only
  cases htimer : s.timer with
  | none => exact .inr ⟨fun timer h => (by cases h), rfl⟩
  | some timer =>
    dsimp only
    by_cases hretry : timer.kind = .retry
    · rw [if_pos hretry]
      exact .inl ⟨timer, rfl, rfl, .inl hretry⟩
    · rw [if_neg hretry]
      by_cases hdue : timer.dueAt ≤ s.now + scheduleDelay coalesceMs
      · rw [if_pos hdue]
        exact .inl ⟨timer, rfl, rfl, .inr hdue⟩
      · rw [if_neg hdue]
        refine .inr ⟨fun timer' h => ?_, rfl⟩
        cases h
        exact not_le.mp hdue

/-- `schedule` changes nothing but the timer, and there is one behind it. -/
theorem schedule_eq (coalesceMs : JsNumber) (kind : WakeTimerKind) :
    ∃ timer, s.schedule coalesceMs kind = { s with timer := some timer } := by
  obtain ⟨timer, htimer, heq, _⟩ | ⟨_, heq⟩ := schedule_cases s coalesceMs kind
  · refine ⟨timer, ?_⟩
    rw [heq, ← htimer]
  · exact ⟨_, heq⟩

/-- `queuePendingWakeReason` changes nothing but the pending wakes. -/
theorem queue_eq (next : PendingWakeReason) :
    ∃ pendingWakes, s.queuePendingWakeReason next = { s with pendingWakes := pendingWakes } := by
  unfold queuePendingWakeReason
  dsimp only
  split
  · exact ⟨_, rfl⟩
  · split_ifs
    · exact ⟨_, rfl⟩
    · exact ⟨_, rfl⟩
    · exact ⟨s.pendingWakes, rfl⟩

theorem requeue_eq (wake : PendingWakeReason) :
    ∃ pendingWakes, s.requeue wake = { s with pendingWakes := pendingWakes } := queue_eq s _

theorem requeueAll_eq (wakes : List PendingWakeReason) :
    ∃ pendingWakes, wakes.foldl requeue s = { s with pendingWakes := pendingWakes } := by
  induction wakes generalizing s with
  | nil => exact ⟨s.pendingWakes, rfl⟩
  | cons wake wakes ih =>
    obtain ⟨first, hfirst⟩ := requeue_eq s wake
    obtain ⟨rest, hrest⟩ := ih (s.requeue wake)
    refine ⟨rest, ?_⟩
    rw [List.foldl_cons, hrest, hfirst]

/-- The `finally` block clears `running` and leaves all but that and the timer as it was. -/
theorem finish_eq (delay : ℚ) :
    ∃ timer, s.finish delay = { s with running := false, timer := timer } := by
  unfold finish
  dsimp only
  split_ifs
  · obtain ⟨timer, heq⟩ := schedule_eq { s with running := false } (.finite delay) .normal
    exact ⟨some timer, heq⟩
  · exact ⟨s.timer, rfl⟩

/-- The loop of a batch calls the handler for the next wake, or it ends. -/
theorem proceed_cases (batch : WakeBatch) :
    (∃ next : WakeBatch, next.id = batch.id ∧ next.active = batch.active ∧
      next.done = batch.done ++ [batch.pendingWake] ∧
      batch.left = next.pendingWake :: next.left ∧
      s.proceed batch = ({ s with batches := s.batches.set next },
        [.called batch.id next.pendingWake.targetKey next.pendingWake.priority])) ∨
    (batch.left = [] ∧ s.proceed batch =
      ({ s with batches := s.batches.erase batch.id }.finish batch.delay, [])) := by
  unfold proceed
  split
  · rename_i hleft
    exact .inl ⟨batch.advance hleft, rfl, rfl, rfl, hleft, rfl⟩
  · rename_i hleft
    exact .inr ⟨hleft, rfl⟩

theorem proceed_events (batch : WakeBatch) :
    (s.proceed batch).2 = batch.left.head?.toList.map fun wake =>
      .called batch.id wake.targetKey wake.priority := by
  obtain ⟨next, _, _, _, hleft, heq⟩ | ⟨hleft, heq⟩ := proceed_cases s batch
  · rw [heq, hleft]
    rfl
  · rw [heq, hleft]
    rfl

theorem returns_events (batch : WakeBatch) (res : HeartbeatRunResult) :
    (s.returns batch res).2 = .returned batch.id batch.pendingWake.targetKey res ::
      ((if res.isRetryable then
          [.requeued batch.pendingWake.targetKey batch.pendingWake.priority s.now] else []) ++
        batch.left.head?.toList.map fun wake =>
          .called batch.id wake.targetKey wake.priority) := by
  unfold returns
  dsimp only
  split_ifs
  · rw [proceed_events]
    rfl
  · rw [proceed_events]
    rfl

/-- The callback of a timer stops without a handler, is put off while a batch is running, and
otherwise takes all pending wakes. -/
theorem fire_cases (timer : WakeTimer) :
    (s.handler = none ∧ s.fire timer = ({ s with timer := none, scheduled := false }, [])) ∨
    (s.handler.isSome = true ∧ s.running = true ∧ s.fire timer =
      ({ s with timer := none, scheduled := true }.schedule (.finite timer.delay) timer.kind,
        [.rearmed timer.delay])) ∨
    (s.running = false ∧ s.pendingWakes.entries = [] ∧ s.fire timer =
      ({ s with
        timer := none
        scheduled := false
        pendingWakes := .empty
        nextBatch := s.nextBatch + 1 }, [.taken s.nextBatch])) ∨
    (s.running = false ∧ ∃ next : WakeBatch, next.id = s.nextBatch ∧ s.handler = some next.active ∧
      next.done = [] ∧ s.pendingWakes.entries = next.pendingWake :: next.left ∧ s.fire timer =
        ({ s with
          timer := none
          scheduled := false
          pendingWakes := .empty
          running := true
          nextBatch := s.nextBatch + 1
          batches := s.batches.set next },
        [.taken s.nextBatch,
          .called s.nextBatch next.pendingWake.targetKey next.pendingWake.priority])) := by
  unfold fire
  dsimp only
  cases hhandler : s.handler with
  | none => exact .inl ⟨rfl, rfl⟩
  | some active =>
    dsimp only
    cases hrunning : s.running with
    | true => exact .inr (.inl ⟨rfl, rfl, rfl⟩)
    | false =>
      rw [if_neg (by decide)]
      split
      · rename_i hpending
        refine .inr (.inr (.inl ⟨rfl, hpending, ?_⟩))
        rw [finish, if_neg (by simp [Keyed.empty])]
      · rename_i hpending
        exact .inr (.inr (.inr ⟨rfl, _, rfl, rfl, rfl, hpending, rfl⟩))

/-- A request changes nothing but the pending wakes and the timer. -/
theorem requestHeartbeat_eq (opts : HeartbeatRequest) :
    ∃ pendingWakes timer, (s.requestHeartbeat opts).1 =
      { s with pendingWakes := pendingWakes, timer := timer } := by
  obtain ⟨pendingWakes, hqueue⟩ := queue_eq s (nextWake opts.source opts.intent opts.reason
    opts.agentId opts.sessionKey opts.heartbeat s.now)
  obtain ⟨timer, hschedule⟩ := schedule_eq (s.queuePendingWakeReason _)
    (opts.coalesceMs.getD (.finite defaultCoalesceMs)) .normal
  refine ⟨pendingWakes, some timer, ?_⟩
  unfold requestHeartbeat
  dsimp only
  rw [hschedule, hqueue]

variable (handler : Option ℕ)

theorem setHeartbeatWakeHandler_eq :
    (s.setHeartbeatWakeHandler handler).1.pendingWakes = s.pendingWakes ∧
      (s.setHeartbeatWakeHandler handler).1.batches = s.batches ∧
      (s.setHeartbeatWakeHandler handler).1.nextBatch = s.nextBatch := by
  unfold setHeartbeatWakeHandler
  cases handler with
  | none => exact ⟨rfl, rfl, rfl⟩
  | some handler =>
    dsimp only
    split_ifs
    · obtain ⟨timer, heq⟩ := schedule_eq
        { s with
          handlerGeneration := s.handlerGeneration + 1
          handler := some handler
          timer := none
          running := false
          scheduled := false } (.finite defaultCoalesceMs) .normal
      rw [heq]
      exact ⟨rfl, rfl, rfl⟩
    · exact ⟨rfl, rfl, rfl⟩

theorem setHeartbeatWakeHandler_handler :
    (s.setHeartbeatWakeHandler handler).1.handler = handler := by
  unfold setHeartbeatWakeHandler
  cases handler with
  | none => rfl
  | some handler =>
    dsimp only
    split_ifs
    · obtain ⟨timer, heq⟩ := schedule_eq
        { s with
          handlerGeneration := s.handlerGeneration + 1
          handler := some handler
          timer := none
          running := false
          scheduled := false } (.finite defaultCoalesceMs) .normal
      rw [heq]
    · rfl

theorem dispose_eq (generation : ℕ) (handler : Option ℕ) :
    (s.dispose generation handler).pendingWakes = s.pendingWakes ∧
      (s.dispose generation handler).batches = s.batches ∧
      (s.dispose generation handler).nextBatch = s.nextBatch := by
  unfold dispose
  split_ifs <;> exact ⟨rfl, rfl, rfl⟩

theorem dispose_handler (generation : ℕ) (handler : Option ℕ) :
    (s.dispose generation handler).running = s.running ∧
      ((s.dispose generation handler).handler = s.handler ∨
        (s.dispose generation handler).handler = none) := by
  unfold dispose
  split_ifs
  · exact ⟨rfl, .inl rfl⟩
  · exact ⟨rfl, .inl rfl⟩
  · exact ⟨rfl, .inr rfl⟩

/-- Behind the result of a call its batch is at the next call, or it has ended. -/
theorem returns_cases (batch : WakeBatch) (res : HeartbeatRunResult) :
    (s.returns batch res).1.handler = s.handler ∧ (s.returns batch res).1.nextBatch = s.nextBatch ∧
      ((∃ next : WakeBatch, next.id = batch.id ∧ next.active = batch.active ∧
          next.done = batch.done ++ [batch.pendingWake] ∧
          batch.left = next.pendingWake :: next.left ∧
          (s.returns batch res).1.batches = s.batches.set next ∧
          (s.returns batch res).1.running = s.running) ∨
        (batch.left = [] ∧ (s.returns batch res).1.batches = s.batches.erase batch.id ∧
          (s.returns batch res).1.running = false)) := by
  have hproceed : ∀ s' : HeartbeatWake, (s'.proceed batch).1.handler = s'.handler ∧
      (s'.proceed batch).1.nextBatch = s'.nextBatch ∧
      ((∃ next : WakeBatch, next.id = batch.id ∧ next.active = batch.active ∧
          next.done = batch.done ++ [batch.pendingWake] ∧
          batch.left = next.pendingWake :: next.left ∧
          (s'.proceed batch).1.batches = s'.batches.set next ∧
          (s'.proceed batch).1.running = s'.running) ∨
        (batch.left = [] ∧ (s'.proceed batch).1.batches = s'.batches.erase batch.id ∧
          (s'.proceed batch).1.running = false)) := by
    intro s'
    obtain ⟨next, hid, hactive, hdone, hleft, heq⟩ | ⟨hleft, heq⟩ := proceed_cases s' batch
    · rw [heq]
      exact ⟨rfl, rfl, .inl ⟨next, hid, hactive, hdone, hleft, rfl, rfl⟩⟩
    · obtain ⟨timer, hfinish⟩ :=
        finish_eq { s' with batches := s'.batches.erase batch.id } batch.delay
      rw [heq, hfinish]
      exact ⟨rfl, rfl, .inr ⟨hleft, rfl, rfl⟩⟩
  unfold returns
  dsimp only
  split_ifs
  · obtain ⟨pendingWakes, hrequeue⟩ := requeue_eq s batch.pendingWake
    obtain ⟨timer, hschedule⟩ :=
      schedule_eq (s.requeue batch.pendingWake) (.finite defaultRetryMs) .retry
    have hresult := hproceed ((s.requeue batch.pendingWake).schedule (.finite defaultRetryMs) .retry)
    rw [hschedule, hrequeue] at hresult ⊢
    exact hresult
  · exact hproceed s

theorem throws_eq (batch : WakeBatch) :
    (s.throws batch).1.handler = s.handler ∧ (s.throws batch).1.nextBatch = s.nextBatch ∧
      (s.throws batch).1.batches = s.batches.erase batch.id ∧
      (s.throws batch).1.running = false := by
  obtain ⟨pendingWakes, hrequeue⟩ := requeueAll_eq s batch.pendingBatch
  obtain ⟨timer, hschedule⟩ :=
    schedule_eq (batch.pendingBatch.foldl requeue s) (.finite defaultRetryMs) .retry
  unfold throws
  dsimp only
  rw [hschedule, hrequeue]
  obtain ⟨timer', hfinish⟩ := finish_eq
    { s with
      pendingWakes := pendingWakes
      timer := some timer
      batches := s.batches.erase batch.id } batch.delay
  rw [hfinish]
  exact ⟨rfl, rfl, rfl, rfl⟩

/-- A wake that is given back is for the same target. -/
theorem nextWake_targetKey (now : ℕ) :
    (nextWake wake.source wake.intent (some wake.reason) wake.agentId wake.sessionKey
      wake.heartbeat now).targetKey = wake.targetKey := by
  show getWakeTargetKey (normalizeWakeTarget wake.agentId) (normalizeWakeTarget wake.sessionKey) = _
  rw [wake.agentId_normal, wake.sessionKey_normal]
  rfl

/-- A wake that is given back has the same priority. -/
theorem nextWake_priority (now : ℕ) :
    (nextWake wake.source wake.intent (some wake.reason) wake.agentId wake.sessionKey
      wake.heartbeat now).priority = wake.priority := by
  show resolveWakePriority wake.source wake.intent (normalizeWakeReason (some wake.reason)) = _
  rw [wake.reason_normal, wake.priority_eq]

/-! ## Pending wakes -/

/-- A wake for the target is pending, with at least this priority. -/
def Pends (key : Str) (priority : ℕ) : Prop :=
  ∃ wake ∈ s.pendingWakes.entries, wake.targetKey = key ∧ priority ≤ wake.priority

variable {s} {key : Str} {priority : ℕ}

theorem queue_cases (next : PendingWakeReason) :
    (∃ merged : PendingWakeReason, merged.targetKey = next.targetKey ∧
      merged.priority = next.priority ∧
      (∀ previous ∈ s.pendingWakes.entries, previous.targetKey = next.targetKey →
        previous.priority ≤ next.priority) ∧
      (s.queuePendingWakeReason next).pendingWakes = s.pendingWakes.set merged) ∨
    ((s.queuePendingWakeReason next).pendingWakes = s.pendingWakes ∧
      ∃ previous ∈ s.pendingWakes.entries, previous.targetKey = next.targetKey ∧
        next.priority ≤ previous.priority) := by
  unfold queuePendingWakeReason
  dsimp only
  cases hfind : s.pendingWakes.find next.targetKey with
  | none =>
    refine .inl ⟨next, rfl, rfl, fun previous hmem hkey => ?_, rfl⟩
    have hfound := find_of_mem hmem
    rw [hkey, hfind] at hfound
    cases hfound
  | some previous =>
    dsimp only
    have honly : ∀ other ∈ s.pendingWakes.entries, other.targetKey = next.targetKey →
        other = previous := by
      intro other hmem hkey
      have hfound := find_of_mem hmem
      rw [hkey, hfind] at hfound
      exact (Option.some.inj hfound).symm
    by_cases hlt : previous.priority < next.priority
    · rw [if_pos hlt]
      refine .inl ⟨{ next with heartbeat := next.heartbeat.or previous.heartbeat }, rfl, rfl,
        fun other hmem hkey => ?_, rfl⟩
      rw [honly other hmem hkey]
      exact hlt.le
    · rw [if_neg hlt]
      by_cases hsame : next.priority = previous.priority ∧ previous.requestedAt ≤ next.requestedAt
      · rw [if_pos hsame]
        refine .inl ⟨{ next with heartbeat := next.heartbeat.or previous.heartbeat }, rfl, rfl,
          fun other hmem hkey => ?_, rfl⟩
        rw [honly other hmem hkey]
        exact hsame.1.ge
      · rw [if_neg hsame]
        exact .inr ⟨rfl, previous, mem_of_find hfind, key_of_find hfind, not_lt.mp hlt⟩

/-- A queued wake is pending with its priority at least. -/
theorem pends_queue (next : PendingWakeReason) :
    (s.queuePendingWakeReason next).Pends next.targetKey next.priority := by
  obtain ⟨merged, hkey, hpriority, _, heq⟩ | ⟨heq, hprevious⟩ := queue_cases (s := s) next
  · refine ⟨merged, ?_, hkey, hpriority.ge⟩
    rw [heq]
    exact mem_set.mpr (.inl rfl)
  · unfold Pends
    rw [heq]
    exact hprevious

/-- Queueing weakens no pending wake. -/
theorem Pends.queue (h : s.Pends key priority) (next : PendingWakeReason) :
    (s.queuePendingWakeReason next).Pends key priority := by
  obtain ⟨wake, hmem, hkey, hle⟩ := h
  obtain ⟨merged, hmerged, hpriority, hall, heq⟩ | ⟨heq, _⟩ := queue_cases (s := s) next
  · unfold Pends
    rw [heq]
    by_cases hsame : wake.targetKey = merged.targetKey
    · have hother := hall wake hmem (hsame.trans hmerged)
      refine ⟨merged, mem_set.mpr (.inl rfl), hsame ▸ hkey, ?_⟩
      rw [hpriority]
      exact hle.trans hother
    · exact ⟨wake, mem_set.mpr (.inr ⟨hmem, hsame⟩), hkey, hle⟩
  · unfold Pends
    rw [heq]
    exact ⟨wake, hmem, hkey, hle⟩

theorem pends_requeue (wake : PendingWakeReason) :
    (s.requeue wake).Pends wake.targetKey wake.priority := by
  have hnext := pends_queue (s := s) (nextWake wake.source wake.intent (some wake.reason)
    wake.agentId wake.sessionKey wake.heartbeat s.now)
  rw [nextWake_targetKey, nextWake_priority] at hnext
  exact hnext

theorem Pends.requeueAll (h : s.Pends key priority) (wakes : List PendingWakeReason) :
    (wakes.foldl requeue s).Pends key priority := by
  induction wakes generalizing s with
  | nil => exact h
  | cons wake wakes ih => exact ih (h.queue _)

theorem pends_requeueAll {wakes : List PendingWakeReason} {wake : PendingWakeReason}
    (hwake : wake ∈ wakes) : (wakes.foldl requeue s).Pends wake.targetKey wake.priority := by
  induction wakes generalizing s with
  | nil => cases hwake
  | cons first wakes ih =>
    rcases List.mem_cons.mp hwake with rfl | hrest
    · exact (pends_requeue wake).requeueAll wakes
    · exact ih hrest

/-- Queueing adds no other target. -/
theorem targetKey_of_mem_queue {next wake : PendingWakeReason}
    (hwake : wake ∈ (s.queuePendingWakeReason next).pendingWakes.entries) :
    wake.targetKey = next.targetKey ∨
      ∃ pending ∈ s.pendingWakes.entries, pending.targetKey = wake.targetKey := by
  obtain ⟨merged, hmerged, _, _, heq⟩ | ⟨heq, _⟩ := queue_cases (s := s) next
  · rw [heq] at hwake
    rcases mem_set.mp hwake with rfl | ⟨hmem, _⟩
    · exact .inl hmerged
    · exact .inr ⟨wake, hmem, rfl⟩
  · rw [heq] at hwake
    exact .inr ⟨wake, hwake, rfl⟩

theorem targetKey_of_mem_requeue {wake wake' : PendingWakeReason}
    (hwake : wake' ∈ (s.requeue wake).pendingWakes.entries) : wake'.targetKey = wake.targetKey ∨
      ∃ pending ∈ s.pendingWakes.entries, pending.targetKey = wake'.targetKey := by
  have hcases := targetKey_of_mem_queue hwake
  rw [nextWake_targetKey] at hcases
  exact hcases

theorem targetKey_of_mem_requeueAll {wakes : List PendingWakeReason} {wake' : PendingWakeReason}
    (hwake : wake' ∈ (wakes.foldl requeue s).pendingWakes.entries) :
    (∃ wake ∈ wakes, wake.targetKey = wake'.targetKey) ∨
      ∃ pending ∈ s.pendingWakes.entries, pending.targetKey = wake'.targetKey := by
  induction wakes generalizing s with
  | nil => exact .inr ⟨wake', hwake, rfl⟩
  | cons first wakes ih =>
    rcases ih hwake with ⟨wake, hmem, hkey⟩ | ⟨pending, hmem, hkey⟩
    · exact .inl ⟨wake, List.mem_cons_of_mem _ hmem, hkey⟩
    · rcases targetKey_of_mem_requeue hmem with hfirst | ⟨before, hbefore, hkey'⟩
      · exact .inl ⟨first, List.mem_cons_self, hfirst.symm.trans hkey⟩
      · exact .inr ⟨before, hbefore, hkey'.trans hkey⟩

/-! ## Targets that become pending -/

theorem pends_congr {s' : HeartbeatWake} (h : s'.pendingWakes = s.pendingWakes) :
    s'.Pends key priority ↔ s.Pends key priority := by
  unfold Pends
  rw [h]

theorem schedule_pendingWakes (coalesceMs : JsNumber) (kind : WakeTimerKind) :
    (s.schedule coalesceMs kind).pendingWakes = s.pendingWakes := by
  obtain ⟨timer, heq⟩ := schedule_eq s coalesceMs kind
  rw [heq]

theorem proceed_pendingWakes (batch : WakeBatch) :
    (s.proceed batch).1.pendingWakes = s.pendingWakes := by
  obtain ⟨next, _, _, _, _, heq⟩ | ⟨_, heq⟩ := proceed_cases s batch
  · rw [heq]
  · obtain ⟨timer, hfinish⟩ := finish_eq { s with batches := s.batches.erase batch.id } batch.delay
    rw [heq, hfinish]

theorem pends_of_requestHeartbeat {opts : HeartbeatRequest}
    (h : (s.requestHeartbeat opts).1.Pends key 0) :
    s.Pends key 0 ∨ key = getWakeTargetKey (normalizeWakeTarget opts.agentId)
      (normalizeWakeTarget opts.sessionKey) := by
  obtain ⟨wake, hmem, hkey, _⟩ := (pends_congr (schedule_pendingWakes _ _)).mp h
  rcases targetKey_of_mem_queue hmem with hnext | ⟨pending, hpending, hsame⟩
  · exact .inr (hkey.symm.trans hnext)
  · exact .inl ⟨pending, hpending, hsame.trans hkey, Nat.zero_le _⟩

theorem pends_of_returns {batch : WakeBatch} {res : HeartbeatRunResult}
    (h : (s.returns batch res).1.Pends key 0) :
    s.Pends key 0 ∨ res.isRetryable = true ∧ key = batch.pendingWake.targetKey := by
  unfold returns at h
  dsimp only at h
  split_ifs at h with hres
  · obtain ⟨wake, hmem, hkey, _⟩ := (pends_congr (schedule_pendingWakes _ _)).mp
      ((pends_congr (proceed_pendingWakes batch)).mp h)
    rcases targetKey_of_mem_requeue hmem with hsame | ⟨pending, hpending, hsame⟩
    · exact .inr ⟨hres, hkey.symm.trans hsame⟩
    · exact .inl ⟨pending, hpending, hsame.trans hkey, Nat.zero_le _⟩
  · exact .inl ((pends_congr (proceed_pendingWakes batch)).mp h)

theorem pends_of_throws {batch : WakeBatch} (h : (s.throws batch).1.Pends key 0) :
    s.Pends key 0 ∨ ∃ wake ∈ batch.pendingBatch, wake.targetKey = key := by
  unfold throws at h
  dsimp only at h
  obtain ⟨timer, hfinish⟩ := finish_eq
    { (batch.pendingBatch.foldl requeue s).schedule (.finite defaultRetryMs) .retry with
      batches := ((batch.pendingBatch.foldl requeue s).schedule (.finite defaultRetryMs)
        .retry).batches.erase batch.id } batch.delay
  rw [hfinish] at h
  obtain ⟨wake, hmem, hkey, _⟩ := (pends_congr (schedule_pendingWakes (.finite defaultRetryMs)
    .retry)).mp h
  rcases targetKey_of_mem_requeueAll hmem with ⟨given, hgiven, hsame⟩ | ⟨pending, hpending, hsame⟩
  · exact .inr ⟨given, hgiven, hsame.trans hkey⟩
  · exact .inl ⟨pending, hpending, hsame.trans hkey, Nat.zero_le _⟩

end

/-! ## Steps -/

/-- What happens next. -/
inductive Action where
  | pass (ms : ℕ)
  | requestHeartbeat (opts : HeartbeatRequest)
  | setHeartbeatWakeHandler (next : Option ℕ)
  /-- A disposer is called, if there is one for these values. -/
  | dispose (generation : ℕ) (next : Option ℕ)
  /-- The armed timer fires, whatever the clock says. -/
  | fire
  | returns (batch : ℕ) (res : HeartbeatRunResult)
  | throws (batch : ℕ)
deriving DecidableEq

/-- The step of an action, where there is one, with what can be seen of it. -/
def perform (s : HeartbeatWake) : Action → Option (HeartbeatWake × List WakeEvent)
  | .pass ms => some ({ s with now := s.now + ms }, [])
  | .requestHeartbeat opts => some (s.requestHeartbeat opts)
  | .setHeartbeatWakeHandler next => some (s.setHeartbeatWakeHandler next)
  | .dispose generation next => some (s.dispose generation next, [])
  | .fire => s.timer.map s.fire
  | .returns batch res => (s.batches.find batch).map (s.returns · res)
  | .throws batch => (s.batches.find batch).map s.throws

end HeartbeatWake

/-- A state of the module with all that was seen so far. -/
structure WakeTrace where
  state : HeartbeatWake
  events : List WakeEvent

namespace WakeTrace

/-- A new process. -/
def start : WakeTrace := ⟨.initial, []⟩

def perform (t : WakeTrace) (action : HeartbeatWake.Action) : Option WakeTrace :=
  (t.state.perform action).map fun next => ⟨next.1, t.events ++ next.2⟩

def Step (t : WakeTrace) (action : HeartbeatWake.Action) (t' : WakeTrace) : Prop :=
  t.perform action = some t'

/-- The end of a list of actions that are all possible and allowed. -/
def performAll (allowed : WakeTrace → HeartbeatWake.Action → Bool) (t : WakeTrace) :
    List HeartbeatWake.Action → Option WakeTrace
  | [] => some t
  | action :: actions =>
    if allowed t action then
      (t.perform action).bind fun next => performAll allowed next actions
    else none

theorem run_of_performAll {allowed : WakeTrace → HeartbeatWake.Action → Bool} {t t' : WakeTrace}
    {actions : List HeartbeatWake.Action} (h : t.performAll allowed actions = some t') :
    Lts.Run (fun t action t' => Step t action t' ∧ allowed t action = true) t actions t' := by
  induction actions generalizing t with
  | nil =>
    cases h
    exact .nil _
  | cons action actions ih =>
    by_cases hallowed : allowed t action = true
    · rw [performAll, if_pos hallowed] at h
      obtain ⟨next, hfirst, hrest⟩ := Option.bind_eq_some_iff.mp h
      exact .cons ⟨hfirst, hallowed⟩ (ih hrest)
    · rw [performAll, if_neg hallowed] at h
      cases h

end WakeTrace

end OpenClaw
