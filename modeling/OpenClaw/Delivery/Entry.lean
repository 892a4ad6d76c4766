import OpenClaw.Text.Basic

/-!
# Queued deliveries

`delivery-queue-storage.ts` and `delivery-queue-recovery.ts`: the entry of the delivery
queue, the updates its file goes through, and the pure decisions of a recovery about it.
The payload of a message is a type parameter, since nothing here looks at it.
-/

namespace OpenClaw

inductive RecoveryState where
  | sendAttemptStarted | unknownAfterSend
deriving DecidableEq

structure QueuedDelivery (Payload : Type) where
  id : Str
  enqueuedAt : ℤ
  payload : Payload
  retryCount : ℕ
  lastAttemptAt : Option ℤ
  lastError : Option Str
  platformSendStartedAt : Option ℤ
  recoveryState : Option RecoveryState
deriving DecidableEq

namespace QueuedDelivery

variable {Payload : Type}

/-! ## Updates -/

/-- The entry `enqueueDelivery` writes. -/
def enqueued (id : Str) (now : ℤ) (payload : Payload) : QueuedDelivery Payload :=
  ⟨id, now, payload, 0, none, none, none, none⟩

variable (entry : QueuedDelivery Payload)

/-- The update of `failDelivery`. -/
def fail (now : ℤ) (error : Str) : QueuedDelivery Payload :=
  { entry with
    retryCount := entry.retryCount + 1, lastAttemptAt := some now, lastError := some error }

/-- The update of `markDeliveryPlatformSendAttemptStarted` and of
`markDeliveryPlatformOutcomeUnknown`, which set different states. -/
def mark (now : ℤ) (state : RecoveryState) : QueuedDelivery Payload :=
  { entry with
    platformSendStartedAt := some (entry.platformSendStartedAt.getD now)
    recoveryState := some state }

/-- The attempt time, when it is a time at all. -/
def attemptTimestamp? : Option ℤ :=
  entry.lastAttemptAt.filter (0 < ·)

/-- The entry `normalizeLegacyQueuedDeliveryEntry` migrates to, if it migrates it. -/
def migrated? : Option (QueuedDelivery Payload) :=
  if entry.attemptTimestamp?.isSome ∨ entry.retryCount = 0 then none
  else if entry.enqueuedAt ≤ 0 then none
  else some { entry with lastAttemptAt := some entry.enqueuedAt }

def normalizeLegacy : QueuedDelivery Payload :=
  entry.migrated?.getD entry

end QueuedDelivery

/-! ## Retries -/

def maxRetries : ℕ := 5

def backoffMs : List ℤ := [5000, 25000, 120000, 600000]

def computeBackoffMs (retryCount : ℕ) : ℤ :=
  if retryCount = 0 then 0
  else backoffMs.getD (min (retryCount - 1) (backoffMs.length - 1)) 0

def isEntryEligibleForRecoveryRetry {Payload : Type} (entry : QueuedDelivery Payload) (now : ℤ) :
    Bool :=
  let backoff := computeBackoffMs (entry.retryCount + 1)
  if backoff ≤ 0 then true
  else if entry.retryCount = 0 ∧ entry.lastAttemptAt = none then true
  else now ≥ entry.attemptTimestamp?.getD entry.enqueuedAt + backoff

/-! ## Permanent errors -/

/-- `s` starts with `p` when the case of ASCII letters is ignored. -/
def startsWithIgnoringCase (s p : Str) : Bool :=
  startsWith (s.map Char.toLower) (p.map Char.toLower)

def isLineEnd (c : Char) : Bool :=
  c == '\n' || c == '\r' || c.toNat == 8232 || c.toNat == 8233

/-- The parts occur in this order in `s`, each after `.*`. -/
def matchesAfter : List Str → Str → Bool
  | [], _ => true
  | p :: parts, s =>
    (List.range (s.length + 1)).any fun i =>
      (s.take i).all (fun c => !isLineEnd c) && startsWithIgnoringCase (s.drop i) p &&
        matchesAfter parts (s.drop (i + p.length))

/-- The first part occurs somewhere in `s`, the others after it. -/
def matchesPattern (first : Str) (parts : List Str) (s : Str) : Bool :=
  (List.range (s.length + 1)).any fun i =>
    startsWithIgnoringCase (s.drop i) first && matchesAfter parts (s.drop (i + first.length))

/-- `PERMANENT_ERROR_PATTERNS`, split at `.*`. -/
def permanentErrorPatterns : List (Str × List Str) := [
  ("no conversation reference found", []), ("chat not found", []), ("user not found", []),
  ("bot", ["not", "member"]), ("bot was blocked by the user", []),
  ("forbidden: bot was kicked", []), ("chat_id is empty", []),
  ("recipient is not a valid", []), ("outbound not configured for channel", []),
  ("ambiguous ", [" recipient"]), ("User ", [" not in room"])]

def isPermanentDeliveryError (error : Str) : Bool :=
  permanentErrorPatterns.any fun (first, parts) => matchesPattern first parts error

example : isPermanentDeliveryError "Bot is not a MEMBER of the room" = true := by decide +kernel

end OpenClaw
