import OpenClaw.Followup.Route
import OpenClaw.Lib.Run

/-!
# The follow-up queue of one key

`FOLLOWUP_QUEUES` and `FOLLOWUP_RUN_CALLBACKS` at one key. A drain is an asynchronous
function; its phases are the places where it waits, and between two of them it runs without
interruption. A clear takes a queue out of the map while its drain goes on, so that there may
be several drains at one time, each with its own queue.

`waitForQueueDebounce` may end at any time, whatever the clock and the setting say. The
messages that `droppedCount` counts are kept in place of their number. Which message ids were
seen lately is for the caller of a step to say. Times and logging are left out.
-/

namespace OpenClaw

inductive QueueMode where
  | steer | followup | collect | interrupt
deriving DecidableEq

inductive QueueDropPolicy where
  | old | new | summarize
deriving DecidableEq

structure QueueSettings where
  mode : QueueMode
  cap : Option JsNumber
  dropPolicy : Option QueueDropPolicy
deriving DecidableEq

inductive QueueDedupeMode where
  | messageId | prompt | none
deriving DecidableEq

/-! ## Drains -/

/-- Which of the three calls of `drainNextQueueItem`. -/
inductive NextItemUse where
  /-- In `drainCollectItemIfNeeded`. -/
  | collect
  /-- With the item as it is, outside of the collect mode. -/
  | plain
  /-- With the summary in place of the item's prompt. -/
  | summary
deriving DecidableEq

/-- Where a drain waits. -/
inductive DrainPhase where
  /-- For `waitForQueueDebounce`. -/
  | debouncing
  /-- For `drainCollectQueueStep`, which skipped: behind the test of the channels, in front of
  the copy of the items. -/
  | skipped
  /-- For `runFollowup` of the first item. -/
  | runningNext (use : NextItemUse)
  /-- For `drainNextQueueItem`, which shifted the item off. -/
  | shifted (use : NextItemUse)
  /-- For `drainNextQueueItem`, which found no item. -/
  | noItem (use : NextItemUse)
  /-- For `runFollowup` of a summary alone. -/
  | runningSummary
  /-- For `runFollowup` of a group of this size, with the groups behind it. -/
  | runningGroup (size : ℕ) (rest : List (List QueuedRun)) (pendingSummary : Bool)
deriving DecidableEq

structure FollowupDrain where
  phase : DrainPhase
  forceIndividualCollect : Bool
deriving DecidableEq

/-- A call of `runFollowup` is pending. -/
def DrainPhase.isRunning : DrainPhase → Bool
  | runningNext _ | runningSummary | runningGroup _ _ _ => true
  | _ => false

/-- `FollowupQueueState`; `draining` is that there is a drain, `droppedCount` is the number of
the dropped messages, and a cap that no length reaches is `0`. -/
structure FollowupQueueState where
  items : List QueuedRun
  drain : Option FollowupDrain
  mode : QueueMode
  cap : ℕ
  dropPolicy : QueueDropPolicy
  dropped : List QueuedRun
  summaryLines : List Str
  lastRun : Option FollowupContext
deriving DecidableEq

/-- A call of `runFollowup`, with the messages that its prompt contains and the dropped
messages that its prompt counts. -/
structure FollowupCall where
  argument : FollowupRun
  messages : List QueuedRun
  dropped : List QueuedRun
deriving DecidableEq

/-! ## Texts -/

/-- `text.replace(/\s+/g, " ")`; the flag says that the unit before was white space. -/
def collapseWhitespace : Bool → Str → Str
  | _, [] => []
  | inRun, c :: rest =>
    if !isSpace c then c :: collapseWhitespace false rest
    else if inRun then collapseWhitespace true rest
    else ' ' :: collapseWhitespace true rest

/-- `text.slice(0, units)`, less the half of a character that the cut would leave. -/
def sliceUnits (units : ℕ) : Str → Str
  | [] => []
  | c :: rest =>
    let width := jsLength [c]
    if width ≤ units then c :: sliceUnits (units - width) rest else []

def elideQueueText (text : Str) (limit : ℕ) : Str :=
  if jsLength text ≤ limit then text
  else trimEnd (sliceUnits (limit - 1) text) ++ ['…']

def buildQueueSummaryLine (text : Str) : Str :=
  elideQueueText (trim (collapseWhitespace false text)) 160

/-- `buildQueueSummaryPrompt` of a queue that has dropped `count` messages. -/
def queueSummaryText (count : ℕ) (summaryLines : List Str) : Str :=
  let title : Str := "[Queue overflow] Dropped ".toList ++ (Nat.repr count).toList ++
    " message".toList ++ (if count = 1 then [] else ['s']) ++ " due to cap.".toList
  joinWith "\n" (title ::
    if summaryLines = [] then [] else "Summary:".toList :: summaryLines.map ("- ".toList ++ ·))

variable (q : FollowupQueueState)

def previewQueueSummaryPrompt : Option Str :=
  if q.dropPolicy ≠ .summarize ∨ q.dropped.length = 0 then none
  else some (queueSummaryText q.dropped.length q.summaryLines)

/-- `renderCollectItem`. -/
def renderCollectItem (idx : ℕ) (item : QueuedRun) : Str :=
  let run := item.followup.run
  let senderLabel :=
    ((run.senderName.or run.senderUsername).or run.senderId).or run.senderE164
  let senderSuffix := (truthyString senderLabel).elim [] fun label =>
    " (from ".toList ++ label ++ [')']
  trim ("---\nQueued #".toList ++ (Nat.repr (idx + 1)).toList ++ senderSuffix ++ ['\n'] ++
    item.followup.prompt)

/-- `buildCollectPrompt` with the title and the rendering of the drain. -/
def buildCollectPrompt (items : List QueuedRun) (summary : Option Str) : Str :=
  joinWith "\n\n" ("[Queued messages while agent was busy]".toList ::
    ((truthyString summary).toList ++ items.mapIdx renderCollectItem))

/-! ## What `runFollowup` is called with -/

/-- An optional property that is left out when its list is empty. -/
def nonEmptyList {α : Type} [DecidableEq α] (items : List α) : Option (List α) :=
  if items = [] then none else some items

variable (prompt : Str) (run : FollowupContext)

/-- The object that the drain builds, with `collectQueuedImages(items)`. -/
def drainedRun (routing : OriginRoutingMetadata) (items : List QueuedRun) : FollowupRun where
  toOriginRoutingMetadata := routing
  prompt := prompt
  messageId := none
  summaryLine := none
  images := nonEmptyList (items.flatMap fun item => item.followup.images.getD [])
  imageOrder := nonEmptyList (items.flatMap fun item => item.followup.imageOrder.getD [])
  run := run

namespace FollowupCall

/-- A message as it was queued. -/
def single (item : QueuedRun) : FollowupCall := ⟨item.followup, [item], []⟩

/-- A group of messages in one prompt, with the summary where there is one. -/
def collected (group : List QueuedRun) (run : FollowupContext)
    (summary : Option Str) : FollowupCall where
  argument := drainedRun (buildCollectPrompt group summary) run
    (resolveOriginRoutingMetadata group) group
  messages := group
  dropped := if summary.isSome then q.dropped else []

/-- A summary without messages; the images are those of `items`. -/
def summaryOnly (items : List QueuedRun) : FollowupCall where
  argument := drainedRun prompt run ⟨none, none, none, none⟩ items
  messages := []
  dropped := q.dropped

/-- A summary along the route of a message, without its prompt. -/
def summaryAlong (item : QueuedRun) : FollowupCall where
  argument := drainedRun prompt run item.followup.toOriginRoutingMetadata [item]
  messages := []
  dropped := q.dropped

end FollowupCall

variable (host : RouteHost) (settings : QueueSettings)

namespace FollowupQueueState

/-! ## Between two waits of a drain -/

def clearQueueSummaryState : FollowupQueueState :=
  { q with dropped := [], summaryLines := [] }

def waitIn (phase : DrainPhase) (forceIndividualCollect : Bool) : FollowupQueueState :=
  { q with drain := some ⟨phase, forceIndividualCollect⟩ }

/-- The loop is left, by `break` or by an error. -/
def leaveLoop : FollowupQueueState := { q with drain := none }

/-- The condition of the loop. -/
def hasWork : Bool := !q.items.isEmpty || !q.dropped.isEmpty

variable (force : Bool)

/-- The head of the loop, up to the wait for the debounce. -/
def loopHead : FollowupQueueState :=
  if q.hasWork then q.waitIn .debouncing force else q.leaveLoop

/-- `drainNextQueueItem` up to its call. -/
def drainNextQueueItem (use : NextItemUse)
    (call : QueuedRun → FollowupCall) : FollowupQueueState × List FollowupCall :=
  match q.items with
  | [] => (q.waitIn (.noItem use) force, [])
  | next :: _ => (q.waitIn (.runningNext use) force, [call next])

/-- Behind the debounce. -/
def afterDebounce (q : FollowupQueueState) (force : Bool) :
    FollowupQueueState × List FollowupCall :=
  if q.mode = .collect then
    let isCrossChannel := hasCrossChannelItems host q.items
    if !force && !isCrossChannel then (q.waitIn .skipped force, [])
    else q.drainNextQueueItem (force || isCrossChannel) .collect .single
  else
    match previewQueueSummaryPrompt q with
    | some summaryPrompt =>
      match q.lastRun with
      | some run => q.drainNextQueueItem force .summary (.summaryAlong q summaryPrompt run)
      | none => (q.leaveLoop, [])
    | none => q.drainNextQueueItem force .plain .single

/-- A summary alone, with the images of `items`. -/
def runSummary (items : List QueuedRun) : FollowupQueueState × List FollowupCall :=
  match previewQueueSummaryPrompt q, q.lastRun with
  | some prompt, some run => (q.waitIn .runningSummary force, [.summaryOnly q prompt run items])
  | _, _ => (q.leaveLoop, [])

/-- An iteration of the loop over the groups, up to its call. -/
def startGroup (group : List QueuedRun)
    (rest : List (List QueuedRun)) (pendingSummary : Option Str) :
    FollowupQueueState × List FollowupCall :=
  match (group.getLast?.map (·.followup.run)).or q.lastRun with
  | some run =>
    (q.waitIn (.runningGroup group.length rest pendingSummary.isSome) force,
      [.collected q group run pendingSummary])
  | none => (q.loopHead force, [])

/-- Behind a `drainCollectQueueStep` that skipped. -/
def afterSkipped : FollowupQueueState × List FollowupCall :=
  match splitCollectItemsByAuthorization q.items with
  | [] => q.runSummary force []
  | group :: rest => q.startGroup force group rest (previewQueueSummaryPrompt q)

/-- Behind the call of a group. -/
def afterGroup (size : ℕ) (rest : List (List QueuedRun))
    (pendingSummary : Bool) : FollowupQueueState × List FollowupCall :=
  let spliced := { q with items := q.items.drop size }
  let queue := if pendingSummary then spliced.clearQueueSummaryState else spliced
  match rest with
  | [] => (queue.loopHead force, [])
  | group :: rest => queue.startGroup force group rest none

/-- What the drain does from one wait to the next one. -/
def proceed (q : FollowupQueueState) (d : FollowupDrain) : FollowupQueueState × List FollowupCall :=
  let force := d.forceIndividualCollect
  match d.phase with
  | .debouncing => q.afterDebounce host force
  | .skipped => q.afterSkipped force
  | .runningNext use => ({ q with items := q.items.tail }.waitIn (.shifted use) force, [])
  | .shifted .summary => (q.clearQueueSummaryState.loopHead force, [])
  | .shifted _ => (q.loopHead force, [])
  | .noItem .collect => q.runSummary force q.items
  | .noItem _ => (q.leaveLoop, [])
  | .runningSummary => (q.clearQueueSummaryState.loopHead force, [])
  | .runningGroup size rest pendingSummary => q.afterGroup force size rest pendingSummary

/-! ## Enqueueing -/

/-- A cap that is a positive number, rounded down. -/
def capOf (cap : Option JsNumber) : Option ℕ :=
  match cap with
  | some (.finite q) => if 0 < q then some q.floor.toNat else none
  | some .infinity => some 0
  | _ => none

def applyQueueRuntimeSettings : FollowupQueueState :=
  { q with
    mode := settings.mode
    cap := (capOf settings.cap).getD q.cap
    dropPolicy := settings.dropPolicy.getD q.dropPolicy }

/-- The queue that `getFollowupQueue` creates, before it applies the settings once more. -/
def created : FollowupQueueState where
  items := []
  drain := none
  mode := settings.mode
  cap := (capOf settings.cap).getD 20
  dropPolicy := settings.dropPolicy.getD .summarize
  dropped := []
  summaryLines := []
  lastRun := none

/-- The text that `enqueueFollowupRun` summarizes a message by. -/
def summarize (item : QueuedRun) : Str :=
  (normalizeNonEmptyString item.followup.summaryLine).getD (trim item.followup.prompt)

/-- How many messages `applyQueueDropPolicy` takes off the front, where it admits the new one. -/
def dropCount : ℕ :=
  if q.cap = 0 ∨ q.items.length < q.cap then 0 else q.items.length - q.cap + 1

def refusesNew : Bool :=
  decide (q.cap ≠ 0 ∧ q.cap ≤ q.items.length) && decide (q.dropPolicy = .new)

/-- `applyQueueDropPolicy`, where it returns true. -/
def dropFront : FollowupQueueState :=
  let dropped := q.items.take q.dropCount
  let queue := { q with items := q.items.drop q.dropCount }
  if q.dropPolicy = .summarize then
    let lines := q.summaryLines ++ dropped.map (buildQueueSummaryLine <| summarize ·)
    { queue with
      dropped := q.dropped ++ dropped
      summaryLines := if dropped = [] then q.summaryLines else lines.drop (lines.length - q.cap) }
  else queue

def isRunAlreadyQueued (q : FollowupQueueState) (run : FollowupRun)
    (allowPromptFallback : Bool) : Bool :=
  let routeKey := followupRouteIdentityKey host run
  let hasSameRouting := fun item : QueuedRun =>
    decide (followupRouteIdentityKey host item.followup = routeKey)
  match normalizeNonEmptyString run.messageId with
  | some messageId =>
    q.items.any fun item =>
      decide (normalizeNonEmptyString item.followup.messageId = some messageId) &&
        hasSameRouting item
  | none =>
    allowPromptFallback &&
      q.items.any fun item => decide (item.followup.prompt = run.prompt) && hasSameRouting item

end FollowupQueueState

/-! ## The queues of the key -/

/-- A call of `enqueueFollowupRun`. -/
structure EnqueueCall where
  run : FollowupRun
  settings : QueueSettings
  dedupeMode : QueueDedupeMode
  /-- What `RECENT_QUEUE_MESSAGE_IDS.peek` answers for the key of the run. -/
  recentlySeen : Bool
  /-- Whether there is a `runFollowup`. -/
  hasRunFollowup : Bool
  restartIfIdle : Bool
deriving DecidableEq

/-- A call that passes the callback of its caller and starts the drain, for evaluation. -/
def EnqueueCall.plain (run : FollowupRun) (settings : QueueSettings) : EnqueueCall :=
  ⟨run, settings, .messageId, false, true, true⟩

structure FollowupQueues where
  /-- `FOLLOWUP_QUEUES.get(key)`. -/
  queue : Option FollowupQueueState
  /-- The queues that a clear took out of the map and whose drains have not ended. -/
  removed : List FollowupQueueState
  /-- `FOLLOWUP_RUN_CALLBACKS.has(key)`. -/
  hasCallback : Bool
  nextId : ℕ
deriving DecidableEq

inductive FollowupEvent where
  /-- `enqueueFollowupRun` returned true. -/
  | accepted (item : QueuedRun)
  /-- `applyQueueDropPolicy` took these messages off the front. -/
  | dropped (items : List QueuedRun) (policy : QueueDropPolicy)
  /-- `clearFollowupQueue` emptied this queue. -/
  | cleared (queue : FollowupQueueState)
  /-- `runFollowup` was called by the drain of the queue in the map, or of a removed one. -/
  | called (inMap : Bool) (call : FollowupCall)
deriving DecidableEq

variable (w : FollowupQueues)

namespace FollowupQueues

def initial : FollowupQueues := ⟨none, [], false, 0⟩

/-- `getFollowupQueue`. -/
def getFollowupQueue (settings : QueueSettings) : FollowupQueueState :=
  (w.queue.getD (.created settings)).applyQueueRuntimeSettings settings

/-- The queue in the map after its drain has come to the next wait or has left the loop. -/
def settle (q : FollowupQueueState) : FollowupQueues :=
  if q.drain.isSome then { w with queue := some q }
  else if q.hasWork then { w with queue := some (q.loopHead false), hasCallback := true }
  else { w with queue := none, hasCallback := false }

def scheduleFollowupDrain : FollowupQueues :=
  match w.queue with
  | none => w
  | some q =>
    if q.drain.isSome then w
    else { w with hasCallback := true }.settle (q.loopHead false)

def kickFollowupDrainIfIdle : FollowupQueues :=
  if w.hasCallback then w.scheduleFollowupDrain else w

/-- The same for a queue that is no longer in the map. -/
def settleRemoved (index : ℕ) (q : FollowupQueueState) : FollowupQueues :=
  if q.drain.isSome then { w with removed := w.removed.set index q }
  else if q.hasWork then { w with removed := w.removed.eraseIdx index }.scheduleFollowupDrain
  else { w with removed := w.removed.eraseIdx index }

/-- `enqueueFollowupRun` refuses the message as one that it knows. -/
def isDuplicate (q : FollowupQueueState) (call : EnqueueCall) : Bool :=
  call.dedupeMode ≠ .none &&
    ((normalizeNonEmptyString call.run.messageId).isSome && call.recentlySeen ||
      q.isRunAlreadyQueued host call.run (call.dedupeMode = .prompt))

def enqueueFollowupRun (call : EnqueueCall) : FollowupQueues × List FollowupEvent :=
  let queue := w.getFollowupQueue call.settings
  if isDuplicate host queue call then ({ w with queue := some queue }, [])
  else
    let touched := { queue with lastRun := some call.run.run }
    if touched.refusesNew then ({ w with queue := some touched }, [])
    else
      let item : QueuedRun := ⟨w.nextId, call.run⟩
      let pushed := { touched.dropFront with items := touched.dropFront.items ++ [item] }
      let accepted : FollowupQueues :=
        { w with
          queue := some pushed
          hasCallback := w.hasCallback || call.hasRunFollowup
          nextId := w.nextId + 1 }
      (if call.restartIfIdle && pushed.drain.isNone then accepted.kickFollowupDrainIfIdle
        else accepted,
        [.dropped (touched.items.take touched.dropCount) touched.dropPolicy, .accepted item])

def clearFollowupQueue : FollowupQueues × List FollowupEvent :=
  match w.queue with
  | none => (w, [])
  | some q =>
    let emptied := { q with items := [], dropped := [], summaryLines := [], lastRun := none }
    ({ w with
        queue := none
        removed := if q.drain.isSome then w.removed ++ [emptied] else w.removed },
      [.cleared q])

/-- `clearSessionQueues` at the key. -/
def clearSessionQueues : FollowupQueues × List FollowupEvent :=
  let cleared := w.clearFollowupQueue
  ({ cleared.1 with hasCallback := false }, cleared.2)

end FollowupQueues

/-! ## Steps -/

/-- How what a drain waits for settles. -/
inductive AwaitOutcome where
  | resolved | rejected
deriving DecidableEq

inductive FollowupAction where
  | enqueue (call : EnqueueCall)
  | schedule
  | clearQueue
  | clearSession
  /-- The drain of the queue in the map goes on. -/
  | drain (outcome : AwaitOutcome)
  /-- The drain of a removed queue goes on. -/
  | drainRemoved (index : ℕ) (outcome : AwaitOutcome)
deriving DecidableEq

/-- A call of `runFollowup` rejects. -/
def FollowupAction.rejects : FollowupAction → Bool
  | drain .rejected | drainRemoved _ .rejected => true
  | _ => false

/-- What a drain does when what it waits for settles. Only `runFollowup` rejects. -/
def FollowupQueueState.resume (q : FollowupQueueState) (outcome : AwaitOutcome) :
    Option (FollowupQueueState × List FollowupCall) :=
  q.drain.bind fun d =>
    match outcome with
    | .resolved => some (q.proceed host d)
    | .rejected => if d.phase.isRunning then some (q.leaveLoop, []) else none

namespace FollowupQueues

/-- One step, where the action is possible. -/
def perform : FollowupAction → Option (FollowupQueues × List FollowupEvent)
  | .enqueue call => some (w.enqueueFollowupRun host call)
  | .schedule => some (w.scheduleFollowupDrain, [])
  | .clearQueue => some w.clearFollowupQueue
  | .clearSession => some w.clearSessionQueues
  | .drain outcome =>
    (w.queue.bind (·.resume host outcome)).map fun next =>
      (w.settle next.1, next.2.map (.called true))
  | .drainRemoved index outcome =>
    (w.removed[index]?.bind (·.resume host outcome)).map fun next =>
      (w.settleRemoved index next.1, next.2.map (.called false))

variable (label : FollowupAction × List FollowupEvent) (w' : FollowupQueues)

/-- The step relation; a label is an action with its events. -/
def Step : Prop :=
  w.perform host label.1 = some (w', label.2)

instance (host : RouteHost) (w w' : FollowupQueues)
    (label : FollowupAction × List FollowupEvent) : Decidable (w.Step host label w') :=
  inferInstanceAs (Decidable (_ = _))

/-- The steps in which no call of `runFollowup` rejects. -/
def ResolvingStep : Prop :=
  w.Step host label w' ∧ label.1.rejects = false

end FollowupQueues

end OpenClaw
