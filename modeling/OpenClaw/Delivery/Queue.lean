import Mathlib.Logic.Function.Basic
import OpenClaw.Delivery.Entry

/-!
# The delivery queue of one process

The asynchronous functions of the queue as tasks that interleave at their await points:
`drainPendingDeliveries`, `recoverPendingDeliveries` with the deferral at the end of its
time budget, and the live send of `deliver.ts`. A file operation that a task waits for is
a step of its own, and so is what the task does with its result.

The store is the one the queue relies on: a write creates or replaces the file of an entry
at once, an acknowledgement renames the file and then removes it, a read of a missing file
fails. Any operation may also fail, and clocks and outcomes are arbitrary. The file of an
entry is named by its id, so that a task means both by the id it has claimed.
-/

namespace OpenClaw

variable {Payload : Type}

/-! ## Tasks -/

structure PendingDeliveryDrainDecision where
  isMatch : Bool
  bypassBackoff : Bool
deriving DecidableEq

/-- Who works through a list of entries. -/
inductive RecoveryOwner (Payload : Type) where
  | drain (drainKey : Str)
      (selectEntry : QueuedDelivery Payload → ℤ → PendingDeliveryDrainDecision)
  | recover (deadline : ℤ)

def RecoveryOwner.isDrain : RecoveryOwner Payload → Bool
  | drain _ _ => true
  | recover _ => false

/-- What a recovery does with an entry it has read after the claim. -/
inductive RecoveryDecision where
  | skip | expire | process
deriving DecidableEq

variable (owner : RecoveryOwner Payload)

/-- The checks of both loops between the second read and `drainQueuedEntry`. -/
def RecoveryOwner.decide (entry : QueuedDelivery Payload) (now : ℤ) : RecoveryDecision :=
  match owner with
  | drain _ selectEntry =>
    if !(selectEntry entry now).isMatch then .skip
    else if entry.retryCount ≥ maxRetries then .expire
    else if !(selectEntry entry now).bypassBackoff ∧ !isEntryEligibleForRecoveryRetry entry now then
      .skip
    else .process
  | recover _ =>
    if entry.retryCount ≥ maxRetries then .expire
    else if !isEntryEligibleForRecoveryRetry entry now then .skip
    else .process

/-- Where the holder of a claim is with its entry. Each phase but `loaded` and `releasing`
waits for something. -/
inductive EntryPhase (Payload : Type) where
  | rereading
  /-- Writing back the migrated form of an entry of an old version. -/
  | migrating (entry : QueuedDelivery Payload)
  | loaded (entry : Option (QueuedDelivery Payload))
  | reconciling (entry : QueuedDelivery Payload)
  | delivering (entry : QueuedDelivery Payload)
  /-- The live send, which marks the entry before it hands it to the platform. -/
  | sending (started : Bool)
  | markReading
  | markWriting (entry : QueuedDelivery Payload)
  | outcomeReading
  | outcomeWriting (entry : QueuedDelivery Payload)
  | ackRenaming
  | ackRemoving
  | committing
  | failReading (error : Str)
  | failWriting (entry : QueuedDelivery Payload)
  /-- The flag says that a failure ends the loop too. -/
  | movingToFailed (fatal : Bool)
  /-- The claim is given up next; the flag says that the loop around it ends too. -/
  | releasing (abort : Bool)

/-- A call of the deliver function or a live send is under way. -/
def EntryPhase.inFlight : EntryPhase Payload → Bool
  | delivering _ | sending _ | markReading | markWriting _ => true
  | _ => false

/-- The entry is known to be pending: it was read under the claim and not settled since. -/
def EntryPhase.trusts : EntryPhase Payload → Bool
  | migrating _ | loaded (some _) | reconciling _ | markWriting _ | outcomeWriting _
  | failWriting _ => true
  | _ => false

/-- What a holder does to the file of its entry, and the calls it makes. -/
inductive EntryAction (Payload : Type) where
  | quiet
  | write (entry : QueuedDelivery Payload)
  | startDelivery
  | renameAcked
  | finishAck
  | moveToFailed

/-! ## The holder of a claim -/

/-- `drainQueuedEntry` and the steps around it, for a recovery that holds the claim on an
entry whose file is `file`. -/
inductive RecoveryStep (owner : RecoveryOwner Payload) (file : Option (QueuedDelivery Payload)) :
    EntryPhase Payload → EntryAction Payload → EntryPhase Payload → Prop
  -- `loadPendingDelivery`
  | reread : RecoveryStep owner file .rereading .quiet (.loaded (file.map (·.normalizeLegacy)))
  | migrate (entry entry' : QueuedDelivery Payload) : file = some entry →
      entry.migrated? = some entry' → RecoveryStep owner file .rereading .quiet (.migrating entry')
  | migrated (entry : QueuedDelivery Payload) :
      RecoveryStep owner file (.migrating entry) (.write entry) (.loaded (some entry))
  | loadFailed (phase : EntryPhase Payload) :
      phase = .rereading ∨ (∃ entry, phase = .migrating entry) →
      RecoveryStep owner file phase .quiet (.releasing true)
  -- the checks
  | gone : RecoveryStep owner file (.loaded none) .quiet (.releasing false)
  | skip (entry : QueuedDelivery Payload) (now : ℤ) : owner.decide entry now = .skip →
      RecoveryStep owner file (.loaded (some entry)) .quiet (.releasing false)
  | expire (entry : QueuedDelivery Payload) (now : ℤ) : owner.decide entry now = .expire →
      RecoveryStep owner file (.loaded (some entry)) .quiet (.movingToFailed owner.isDrain)
  | deliver (entry : QueuedDelivery Payload) (now : ℤ) : owner.decide entry now = .process →
      entry.recoveryState = none →
      RecoveryStep owner file (.loaded (some entry)) .startDelivery (.delivering entry)
  | reconcile (entry : QueuedDelivery Payload) (now : ℤ) : owner.decide entry now = .process →
      entry.recoveryState ≠ none →
      RecoveryStep owner file (.loaded (some entry)) .quiet (.reconciling entry)
  -- the reconciliation
  | reconciledSent (entry : QueuedDelivery Payload) :
      RecoveryStep owner file (.reconciling entry) .quiet .ackRenaming
  | reconciledNotSent (entry : QueuedDelivery Payload) :
      RecoveryStep owner file (.reconciling entry) .startDelivery (.delivering entry)
  | unresolved (entry : QueuedDelivery Payload) (error : Str) :
      RecoveryStep owner file (.reconciling entry) .quiet (.failReading error)
  | unresolvedForGood (entry : QueuedDelivery Payload) :
      RecoveryStep owner file (.reconciling entry) .quiet (.movingToFailed false)
  -- the delivery
  | delivered (entry : QueuedDelivery Payload) :
      RecoveryStep owner file (.delivering entry) .quiet .ackRenaming
  | deliveryFailed (entry : QueuedDelivery Payload) (error : Str) :
      isPermanentDeliveryError error = false →
      RecoveryStep owner file (.delivering entry) .quiet (.failReading error)
  | deliveryFailedForGood (entry : QueuedDelivery Payload) (error : Str) :
      isPermanentDeliveryError error = true →
      RecoveryStep owner file (.delivering entry) .quiet (.movingToFailed false)

  -- a failed acknowledgement or commit hook is handled as a failed delivery
  | settleFailed (phase : EntryPhase Payload) (error : Str) :
      phase = .ackRenaming ∨ phase = .committing → isPermanentDeliveryError error = false →
      RecoveryStep owner file phase .quiet (.failReading error)
  | settleFailedForGood (phase : EntryPhase Payload) (error : Str) :
      phase = .ackRenaming ∨ phase = .committing → isPermanentDeliveryError error = true →
      RecoveryStep owner file phase .quiet (.movingToFailed false)

/-- The phases of the live send that only it has. `required` is its queue policy. -/
inductive LiveStep (required : Bool) (file : Option (QueuedDelivery Payload)) :
    EntryPhase Payload → EntryAction Payload → EntryPhase Payload → Prop
  -- `onPlatformSendStart`
  | markStarted : LiveStep required file (.sending false) .quiet .markReading
  | markRead (entry : QueuedDelivery Payload) (now : ℤ) : file = some entry →
      LiveStep required file .markReading .quiet (.markWriting (entry.mark now .sendAttemptStarted))
  | marked (entry : QueuedDelivery Payload) :
      LiveStep required file (.markWriting entry) (.write entry) (.sending true)
  -- where the mark is required, the send goes on to fail
  | markFailed (phase : EntryPhase Payload) :
      phase = .markReading ∨ (∃ entry, phase = .markWriting entry) →
      LiveStep required file phase .quiet (.sending false)
  -- the results
  | sentAll : LiveStep required file (.sending true) .quiet .outcomeReading
  | sentUnmarked : LiveStep required file (.sending false) .quiet .ackRenaming
  | sentPartly (started : Bool) : LiveStep required file (.sending started) .quiet
      (.failReading "partial delivery failure (bestEffort)")
  | sendFailed (started : Bool) (error : Str) :
      LiveStep required file (.sending started) .quiet (.failReading error)
  | sendAborted (started : Bool) : LiveStep required file (.sending started) .quiet .ackRenaming
  -- `markQueuedPlatformOutcomeUnknown`
  | outcomeRead (entry : QueuedDelivery Payload) (now : ℤ) : file = some entry →
      LiveStep required file .outcomeReading .quiet
        (.outcomeWriting (entry.mark now .unknownAfterSend))
  | outcomeMarked (entry : QueuedDelivery Payload) :
      LiveStep required file (.outcomeWriting entry) (.write entry) .ackRenaming
  | outcomeFailed (phase : EntryPhase Payload) :
      phase = .outcomeReading ∨ (∃ entry, phase = .outcomeWriting entry) →
      LiveStep required file phase .quiet (if required then .releasing false else .ackRenaming)
  -- a commit hook that aborts
  | commitAborted : LiveStep required file .committing .quiet .ackRenaming

/-- The steps both kinds of holder end with. -/
inductive SettleStep (file : Option (QueuedDelivery Payload)) :
    EntryPhase Payload → EntryAction Payload → EntryPhase Payload → Prop
  -- `ackDelivery`
  | renamed : file ≠ none → SettleStep file .ackRenaming .renameAcked .ackRemoving
  | removed : SettleStep file .ackRemoving .finishAck .committing
  | ackedNothing : file = none → SettleStep file .ackRenaming .finishAck .committing
  | ackIgnored : SettleStep file .ackRenaming .quiet (.releasing false)
  -- the commit hooks
  | committed : SettleStep file .committing .quiet (.releasing false)
  -- `failDelivery`
  | failRead (entry : QueuedDelivery Payload) (now : ℤ) (error : Str) : file = some entry →
      SettleStep file (.failReading error) .quiet (.failWriting (entry.fail now error))
  | failWritten (entry : QueuedDelivery Payload) :
      SettleStep file (.failWriting entry) (.write entry) (.releasing false)
  | failFailed (phase : EntryPhase Payload) :
      (∃ error, phase = .failReading error) ∨ (∃ entry, phase = .failWriting entry) →
      SettleStep file phase .quiet (.releasing false)
  -- `moveToFailed`
  | moved (fatal : Bool) : file ≠ none →
      SettleStep file (.movingToFailed fatal) .moveToFailed (.releasing false)
  | moveFailed (fatal abort : Bool) : (abort → fatal) →
      SettleStep file (.movingToFailed fatal) .quiet (.releasing abort)

/-! ## The process -/

/-- A task that is owed a claim on an entry once it is done with it. -/
inductive ClaimOwner (Payload : Type) where
  | recovery (owner : RecoveryOwner Payload) (rest : List (QueuedDelivery Payload))
  | live (required : Bool)

/-- One `failDelivery` of the deferral, which holds no claim. -/
structure DeferralJob (Payload : Type) where
  id : Str
  /-- The update to write, once the entry has been read. -/
  update : Option (QueuedDelivery Payload)

inductive DeliveryTask (Payload : Type) where
  | idle
  /-- `loadPendingDeliveries`, before the directory is read. -/
  | listing (owner : RecoveryOwner Payload)
  | scanning (owner : RecoveryOwner Payload) (todo : List Str)
      (loaded : List (QueuedDelivery Payload))
  /-- Writing back a migrated entry during the scan, without a claim. -/
  | scanWriting (owner : RecoveryOwner Payload) (id : Str) (entry : QueuedDelivery Payload)
      (todo : List Str) (loaded : List (QueuedDelivery Payload))
  | looping (owner : RecoveryOwner Payload) (rest : List (QueuedDelivery Payload))
  | deferring (jobs : List (DeferralJob Payload))
  /-- A live send that has enqueued its entry and has not claimed it yet. -/
  | enqueued (required : Bool) (id : Str)
  | holding (owner : ClaimOwner Payload) (id : Str) (phase : EntryPhase Payload)

/-- The entry whose claim a task holds. -/
def DeliveryTask.held? : DeliveryTask Payload → Option Str
  | holding _ id _ => some id
  | _ => none

/-- The entry a task has a deliver call or a live send under way for. -/
def DeliveryTask.delivers? : DeliveryTask Payload → Option Str
  | holding _ id phase => if phase.inFlight then some id else none
  | _ => none

/-- The queue directory, the module's two sets and the tasks. `used` are the ids given out
and `acked` those whose acknowledgement has taken the file away; no code reads them. -/
structure DeliveryState (Payload : Type) where
  files : Str → Option (QueuedDelivery Payload)
  failed : Str → Option (QueuedDelivery Payload)
  delivered : Str → Bool
  entriesInProgress : Str → Bool
  drainInProgress : Str → Bool
  tasks : ℕ → DeliveryTask Payload
  used : Str → Bool
  acked : Str → Bool

/-- A process that has just started on a queue with these files. -/
def DeliveryState.started (files : Str → Option (QueuedDelivery Payload)) :
    DeliveryState Payload where
  files := files
  failed _ := none
  delivered _ := false
  entriesInProgress _ := false
  drainInProgress _ := false
  tasks _ := .idle
  used id := (files id).isSome
  acked _ := false

variable (s : DeliveryState Payload) (id : Str)

namespace DeliveryState

/-- An id that has not been given out before. -/
def Fresh : Prop :=
  s.used id = false ∧ s.files id = none ∧ s.acked id = false

def setTask (t : ℕ) (task : DeliveryTask Payload) : DeliveryState Payload :=
  { s with tasks := Function.update s.tasks t task }

def writeFile (entry : QueuedDelivery Payload) : DeliveryState Payload :=
  { s with files := Function.update s.files id (some entry) }

def claim : DeliveryState Payload :=
  { s with entriesInProgress := Function.update s.entriesInProgress id true }

def release : DeliveryState Payload :=
  { s with entriesInProgress := Function.update s.entriesInProgress id false }

/-- The `finally` of a drain. -/
def endLoop : RecoveryOwner Payload → DeliveryState Payload
  | .drain drainKey _ =>
    { s with drainInProgress := Function.update s.drainInProgress drainKey false }
  | .recover _ => s

/-- What an action does to the directory. -/
def act : EntryAction Payload → DeliveryState Payload
  | .quiet | .startDelivery => s
  | .write entry => s.writeFile id entry
  | .renameAcked => { s with
      files := Function.update s.files id none
      delivered := Function.update s.delivered id true
      acked := Function.update s.acked id true }
  | .finishAck => { s with
      delivered := Function.update s.delivered id false
      acked := Function.update s.acked id true }
  | .moveToFailed => { s with
      files := Function.update s.files id none
      failed := Function.update s.failed id (s.files id) }

end DeliveryState

/-- What a step shows of itself. -/
inductive DeliveryEvent where
  | quiet
  | wrote (id : Str)
  | deliveryStarted (id : Str)
  | ackCompleted (id : Str)
deriving DecidableEq

def EntryAction.event : EntryAction Payload → DeliveryEvent
  | .write _ => .wrote id
  | .startDelivery => .deliveryStarted id
  | .finishAck => .ackCompleted id
  | .quiet | .renameAcked | .moveToFailed => .quiet

/-- The entries a loop goes through: those that match, the oldest first. -/
def RecoveryOwner.select (now : ℤ)
    (loaded : List (QueuedDelivery Payload)) : List (QueuedDelivery Payload) :=
  let matching := match owner with
    | drain _ selectEntry => loaded.filter fun entry => (selectEntry entry now).isMatch
    | recover _ => loaded
  matching.mergeSort fun a b => a.enqueuedAt ≤ b.enqueuedAt

/-- A holder's step: its own part or the end both kinds share. -/
def HolderStep (owner : ClaimOwner Payload) (file : Option (QueuedDelivery Payload))
    (phase : EntryPhase Payload) (action : EntryAction Payload) (phase' : EntryPhase Payload) :
    Prop :=
  SettleStep file phase action phase' ∨
  match owner with
  | .recovery recovery _ => RecoveryStep recovery file phase action phase'
  | .live required => LiveStep required file phase action phase'

/-- One step of task `t`. -/
inductive DeliveryStep (s : DeliveryState Payload) (t : ℕ) :
    DeliveryEvent → DeliveryState Payload → Prop
  -- the start of a recovery
  | startDrain (drainKey : Str)
      (selectEntry : QueuedDelivery Payload → ℤ → PendingDeliveryDrainDecision) :
      s.tasks t = .idle → s.drainInProgress drainKey = false →
      DeliveryStep s t .quiet
        ({ s with drainInProgress := Function.update s.drainInProgress drainKey true }.setTask t
          (.listing (.drain drainKey selectEntry)))
  | startRecovery (deadline : ℤ) : s.tasks t = .idle →
      DeliveryStep s t .quiet (s.setTask t (.listing (.recover deadline)))
  -- `loadPendingDeliveries`
  | list (owner : RecoveryOwner Payload) (ids : List Str) : s.tasks t = .listing owner →
      (∀ id ∈ ids, (s.files id).isSome) →
      DeliveryStep s t .quiet (s.setTask t (.scanning owner ids []))
  | scan (owner : RecoveryOwner Payload) (id : Str) (todo : List Str)
      (loaded : List (QueuedDelivery Payload)) : s.tasks t = .scanning owner (id :: todo) loaded →
      DeliveryStep s t .quiet (s.setTask t (.scanning owner todo
        (loaded ++ ((s.files id).map (·.normalizeLegacy)).toList)))
  | scanMigrate (owner : RecoveryOwner Payload) (id : Str) (todo : List Str)
      (loaded : List (QueuedDelivery Payload)) (entry entry' : QueuedDelivery Payload) :
      s.tasks t = .scanning owner (id :: todo) loaded → s.files id = some entry →
      entry.migrated? = some entry' →
      DeliveryStep s t .quiet (s.setTask t (.scanWriting owner id entry' todo loaded))
  | scanMigrated (owner : RecoveryOwner Payload) (id : Str) (entry : QueuedDelivery Payload)
      (todo : List Str) (loaded : List (QueuedDelivery Payload)) :
      s.tasks t = .scanWriting owner id entry todo loaded →
      DeliveryStep s t (.wrote id)
        ((s.writeFile id entry).setTask t (.scanning owner todo (loaded ++ [entry])))
  | scanFailed (owner : RecoveryOwner Payload) : (s.tasks t = .listing owner ∨
        (∃ todo loaded, s.tasks t = .scanning owner todo loaded) ∨
        ∃ id entry todo loaded, s.tasks t = .scanWriting owner id entry todo loaded) →
      DeliveryStep s t .quiet ((s.endLoop owner).setTask t .idle)
  | scanned (owner : RecoveryOwner Payload) (now : ℤ) (loaded : List (QueuedDelivery Payload)) :
      s.tasks t = .scanning owner [] loaded →
      DeliveryStep s t .quiet (s.setTask t (.looping owner (owner.select now loaded)))
  -- the loop
  | claimEntry (owner : RecoveryOwner Payload) (now : ℤ) (entry : QueuedDelivery Payload)
      (rest : List (QueuedDelivery Payload)) : s.tasks t = .looping owner (entry :: rest) →
      (∀ deadline, owner = .recover deadline → now < deadline) →
      s.entriesInProgress entry.id = false →
      DeliveryStep s t .quiet
        ((s.claim entry.id).setTask t (.holding (.recovery owner rest) entry.id .rereading))
  | skipClaimed (owner : RecoveryOwner Payload) (now : ℤ) (entry : QueuedDelivery Payload)
      (rest : List (QueuedDelivery Payload)) : s.tasks t = .looping owner (entry :: rest) →
      (∀ deadline, owner = .recover deadline → now < deadline) →
      s.entriesInProgress entry.id = true →
      DeliveryStep s t .quiet (s.setTask t (.looping owner rest))
  | finishLoop (owner : RecoveryOwner Payload) : s.tasks t = .looping owner [] →
      DeliveryStep s t .quiet ((s.endLoop owner).setTask t .idle)
  -- `deferRemainingEntriesForBudget`
  | overBudget (deadline now : ℤ) (rest : List (QueuedDelivery Payload)) :
      s.tasks t = .looping (.recover deadline) rest → rest ≠ [] → deadline ≤ now →
      DeliveryStep s t .quiet (s.setTask t (.deferring (rest.map fun entry => ⟨entry.id, none⟩)))
  | deferRead (before after : List (DeferralJob Payload)) (id : Str) (now : ℤ)
      (entry : QueuedDelivery Payload) : s.tasks t = .deferring (before ++ ⟨id, none⟩ :: after) →
      s.files id = some entry →
      DeliveryStep s t .quiet (s.setTask t (.deferring
        (before ++ ⟨id, some (entry.fail now "recovery time budget exceeded")⟩ :: after)))
  | deferWrite (before after : List (DeferralJob Payload)) (id : Str)
      (entry : QueuedDelivery Payload) :
      s.tasks t = .deferring (before ++ ⟨id, some entry⟩ :: after) →
      DeliveryStep s t (.wrote id)
        ((s.writeFile id entry).setTask t (.deferring (before ++ after)))
  | deferFailed (before after : List (DeferralJob Payload)) (job : DeferralJob Payload) :
      s.tasks t = .deferring (before ++ job :: after) →
      DeliveryStep s t .quiet (s.setTask t (.deferring (before ++ after)))
  | deferred : s.tasks t = .deferring [] → DeliveryStep s t .quiet (s.setTask t .idle)
  -- the live send
  | enqueue (required : Bool) (id : Str) (now : ℤ) (payload : Payload) :
      s.tasks t = .idle → s.Fresh id →
      DeliveryStep s t (.wrote id)
        ({ s.writeFile id (.enqueued id now payload) with
          used := Function.update s.used id true }.setTask t (.enqueued required id))
  | claimLive (required : Bool) (id : Str) : s.tasks t = .enqueued required id →
      s.entriesInProgress id = false →
      DeliveryStep s t (.deliveryStarted id)
        ((s.claim id).setTask t (.holding (.live required) id (.sending false)))
  | leaveToOther (required : Bool) (id : Str) : s.tasks t = .enqueued required id →
      s.entriesInProgress id = true → DeliveryStep s t .quiet (s.setTask t .idle)
  -- the holder of a claim
  | hold (owner : ClaimOwner Payload) (id : Str) (phase phase' : EntryPhase Payload)
      (action : EntryAction Payload) : s.tasks t = .holding owner id phase →
      HolderStep owner (s.files id) phase action phase' →
      DeliveryStep s t (action.event id) ((s.act id action).setTask t (.holding owner id phase'))
  | nextEntry (owner : RecoveryOwner Payload) (rest : List (QueuedDelivery Payload)) (id : Str) :
      s.tasks t = .holding (.recovery owner rest) id (.releasing false) →
      DeliveryStep s t .quiet ((s.release id).setTask t (.looping owner rest))
  | abortLoop (owner : RecoveryOwner Payload) (rest : List (QueuedDelivery Payload)) (id : Str) :
      s.tasks t = .holding (.recovery owner rest) id (.releasing true) →
      DeliveryStep s t .quiet (((s.release id).endLoop owner).setTask t .idle)
  | finishLive (required : Bool) (id : Str) (abort : Bool) :
      s.tasks t = .holding (.live required) id (.releasing abort) →
      DeliveryStep s t .quiet ((s.release id).setTask t .idle)

/-- One step of some task, labelled with the task and the event. -/
def DeliveryQueueStep (label : ℕ × DeliveryEvent) (s' : DeliveryState Payload) : Prop :=
  DeliveryStep s label.1 label.2 s'

end OpenClaw
