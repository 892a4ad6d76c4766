import OpenClaw.Approval.Manager

/-!
# Forwarding `system.run` requests

`node-invoke-system-run-approval.ts`: the gate in front of a node. It strips the control
fields `approved` and `approvalDecision` from a request and adds them again only when an
approval record allows it.
-/

namespace OpenClaw

open Option

/-! ## Clients -/

structure ApprovalClientInfo where
  id : Option Str
  mode : Option Str
deriving DecidableEq

/-- `client.connect`; the device is `none` when it is missing or has no id. -/
structure ApprovalClientConnect where
  scopes : Option Json
  client : Option ApprovalClientInfo
  deviceId : Option Str

structure ApprovalClient where
  connId : Option Str
  isDeviceTokenAuth : Bool
  connect : Option ApprovalClientConnect

def gatewayClientName : Str := "gateway-client"

def backendMode : Str := "backend"

def backendBridgeableNoDeviceRequestClientIds : List Str :=
  ["openclaw-control-ui", "webchat-ui", "webchat", gatewayClientName]

/-- `scopes.includes(scope)`. -/
def hasScope (scopes : List Json) (scope : Str) : Bool :=
  scopes.any fun
    | .string value => value = scope
    | _ => false

variable (client : Option ApprovalClient)

def clientHasApprovals : Bool :=
  match (client.bind (·.connect)).bind (·.scopes) with
  | some (.array scopes) => hasScope scopes "operator.admin" || hasScope scopes "operator.approvals"
  | _ => false

def isTrustedBackendApprovalClient : Bool :=
  clientHasApprovals client &&
  match client with
  | some c => !c.isDeviceTokenAuth &&
    match c.connect.bind (·.client) with
    | some info => info.id = some gatewayClientName ∧ info.mode = some backendMode
    | none => false
  | none => false

/-! ## Comparisons -/

variable (host : Host) (value : Option Json)

/-- `normalizeComparableString`. -/
def normalizeComparableString (lowercase : Bool) : Option Str :=
  let normalized := match value with
    | some (.number text) => some text
    | value => normalizeNullableString value
  (normalized.bind nonEmpty?).map fun text => if lowercase then host.toLowerCase text else text

/-- `matchesRequiredString` and `matchesOptionalString`, which differ in what they say when
nothing is expected. -/
def matchesString (whenMissing : Bool) (expected actual : Option Json) (lowercase : Bool) : Bool :=
  match (normalizeComparableString host expected lowercase).bind nonEmpty? with
  | none => whenMissing
  | some expected => normalizeComparableString host actual lowercase = some expected

def matchesRequiredString : Option Json → Option Json → Bool → Bool :=
  matchesString host false

def matchesOptionalString : Option Json → Option Json → Bool → Bool :=
  matchesString host true

/-- A `string | null | undefined` field as a value. -/
def stringField (value : Option Str) : Option Json := value.map .string

def hasChatApprovalReplayBinding (request : ExecApprovalRequestPayload) : Bool :=
  (normalizeComparableString host (stringField request.turnSourceChannel) true).isSome ||
  (normalizeComparableString host (stringField request.turnSourceTo) false).isSome ||
  (normalizeComparableString host (stringField request.turnSourceAccountId) false).isSome ||
  (normalizeComparableString host request.turnSourceThreadId false).isSome

variable (snapshot : ExecApprovalRecord)

def canBridgeNoDeviceApprovalFromBackend (client : Option ApprovalClient) : Bool :=
  snapshot.requestedByDeviceId.isNone && !snapshot.requestedByDeviceTokenAuth &&
  !hasChatApprovalReplayBinding host snapshot.request &&
  (match normalizeNonEmptyString snapshot.requestedByClientId with
    | some clientId => clientId ∈ backendBridgeableNoDeviceRequestClientIds
    | none => false) &&
  isTrustedBackendApprovalClient client

def canBridgeNoDeviceChatApprovalFromBackend
    (p : List (Str × Json)) (client : Option ApprovalClient) : Bool :=
  let request := snapshot.request
  let plan := request.systemRunPlan
  snapshot.requestedByDeviceId.isNone && !snapshot.requestedByDeviceTokenAuth &&
  isTrustedBackendApprovalClient client &&
  matchesRequiredString host (stringField request.turnSourceChannel)
    (Json.lookup p "turnSourceChannel") true &&
  matchesRequiredString host (stringField request.turnSourceTo)
    (Json.lookup p "turnSourceTo") false &&
  matchesRequiredString host (stringField ((plan.bind (·.sessionKey)).or request.sessionKey))
    (Json.lookup p "sessionKey") false &&
  matchesOptionalString host (stringField ((plan.bind (·.agentId)).or request.agentId))
    (Json.lookup p "agentId") false &&
  matchesOptionalString host (stringField request.turnSourceAccountId)
    (Json.lookup p "turnSourceAccountId") false &&
  matchesOptionalString host request.turnSourceThreadId
    (Json.lookup p "turnSourceThreadId") false

/-! ## The parameters that are forwarded -/

def systemRunParamKeys : List Str :=
  ["command", "rawCommand", "systemRunPlan", "cwd", "env", "timeoutMs", "needsScreenRecording",
    "agentId", "sessionKey", "runId", "suppressNotifyOnExit"]

variable (raw : List (Str × Json))

def pickSystemRunParams : List (Str × Json) :=
  systemRunParamKeys.filterMap fun key => (Json.lookup raw key).map (key, ·)

variable (next : List (Str × Json))

/-- Assigns a field of the forwarded parameters, or deletes it when there is no value. -/
def setOrDelete (key : Str) (value : Option Str) : List (Str × Json) :=
  match value.bind nonEmpty? with
  | some value => Json.insert next key (.string value)
  | none => Json.erase next key

/-- The fields of the request are replaced by those of the approved plan. -/
def applyApprovedPlan (context : SystemRunApprovalRuntimeContext) : List (Str × Json) :=
  match context.plan with
  | none => next
  | some plan =>
    let next := Json.insert next "command" (.ofStrings plan.argv)
    let next := Json.insert next "systemRunPlan" plan.toJson
    let next := setOrDelete next "rawCommand" (some context.commandText)
    let next := setOrDelete next "cwd" context.cwd
    let next := setOrDelete next "agentId" context.agentId
    setOrDelete next "sessionKey" context.sessionKey

/-- The control fields of an approved request. -/
def grantApproval (decision : Str) : Json :=
  .object (Json.insert (Json.insert next "approved" (.bool true)) "approvalDecision"
    (.string decision))

/-! ## The checks -/

structure SystemRunForwardingOptions where
  nodeId : Option Str
  rawParams : Json
  client : Option ApprovalClient
  nowMs : ℤ

/-- `systemRunApprovalGuardError`. -/
def systemRunApprovalGuardError (code message : Str) (details : List (Str × Json)) : RequestError :=
  ⟨message, errorCode code :: details⟩

def runIdDetail (runId : Str) : List (Str × Json) := [("runId", .string runId)]

def systemRunApprovalRequired (runId : Str) : RequestError :=
  systemRunApprovalGuardError "APPROVAL_REQUIRED" "approval required" (runIdDetail runId)

variable (opts : SystemRunForwardingOptions)

variable (p : List (Str × Json))

/-- The guards on the expiry, the node and the client of an approval. -/
def checkApprovalBinding (runId : Str) (snapshot : ExecApprovalRecord) : Except RequestError Unit :=
  let refuse (code message : Str) : Except RequestError Unit :=
    .error (systemRunApprovalGuardError code message (runIdDetail runId))
  if opts.nowMs > snapshot.expiresAtMs then refuse "APPROVAL_EXPIRED" "approval expired"
  else
    match normalizeNonEmptyString opts.nodeId, normalizeNonEmptyString snapshot.request.nodeId with
    | none, _ => refuse "MISSING_NODE_ID" "node.invoke requires nodeId"
    | some _, none => refuse "APPROVAL_NODE_BINDING_MISSING" "approval id missing node binding"
    | some targetNodeId, some approvalNodeId =>
      if approvalNodeId ≠ targetNodeId then
        refuse "APPROVAL_NODE_MISMATCH" "approval id not valid for this node"
      else
        -- the device is stable across reconnects; the connection only counts without one
        match snapshot.requestedByDeviceId.bind nonEmpty? with
        | some snapshotDeviceId =>
          if (opts.client.bind (·.connect)).bind (·.deviceId) ≠ some snapshotDeviceId then
            refuse "APPROVAL_DEVICE_MISMATCH" "approval id not valid for this device"
          else .ok ()
        | none =>
          match snapshot.requestedByConnId.bind nonEmpty? with
          | none => .ok ()
          | some connId =>
            if opts.client.bind (·.connId) ≠ some connId ∧
                !canBridgeNoDeviceApprovalFromBackend host snapshot opts.client ∧
                !canBridgeNoDeviceChatApprovalFromBackend host snapshot p opts.client then
              refuse "APPROVAL_CLIENT_MISMATCH" "approval id not valid for this client"
            else .ok ()

/-- Everything that is checked before the decision of the record is looked at: the
parameters to forward. -/
def checkApprovalRequest (host : GatewayHost) (opts : SystemRunForwardingOptions)
    (p : List (Str × Json)) (runId : Str) (snapshot : ExecApprovalRecord) :
    Except RequestError (List (Str × Json)) := do
  checkApprovalBinding host.toHost opts p runId snapshot
  let context ← resolveSystemRunApprovalRuntimeContext host.toHost snapshot.request.systemRunPlan p
  let next := applyApprovedPlan (pickSystemRunParams p) context
  match evaluateSystemRunApprovalMatch host context snapshot.request (Json.lookup p "env") with
  | .error mismatch => .error (mismatch.toError runId)
  | .ok () => .ok next

/-! ## The gate -/

/-- `normalizeApprovalDecision`. -/
def normalizeApprovalDecision : Option ExecApprovalDecision :=
  match normalizeNullableString value with
  | none => none
  | some s =>
    if s = ("allow-once" : Str) then some .allowOnce
    else if s = ("allow-always" : Str) then some .allowAlways
    else none

/-- `value === true`. -/
def isTrueValue : Option Json → Bool
  | some (.bool true) => true
  | _ => false

/-- The test of the source for a record whose request timed out. -/
def ExecApprovalRecord.timedOut (record : ExecApprovalRecord) : Bool :=
  record.resolvedAtMs.isSome && record.decision.isNone && record.resolvedBy == some none

/-- The part of a request that asks for the fallback of a timed out approval. -/
def requestsAskFallback : Bool :=
  isTrueValue (Json.lookup p "approved") &&
  normalizeApprovalDecision (Json.lookup p "approvalDecision") == some .allowOnce &&
  clientHasApprovals opts.client

/-- `sanitizeSystemRunParamsForForwarding`: the parameters to forward or the error, and the
manager afterwards. -/
def sanitizeSystemRunParamsForForwarding (host : GatewayHost) (opts : SystemRunForwardingOptions)
    (manager : Option ExecApprovalManager) :
    Except RequestError Json × Option ExecApprovalManager :=
  match opts.rawParams.entries? with
  | none => (.ok opts.rawParams, manager)
  | some p =>
    let approved := isTrueValue (Json.lookup p "approved")
    let requestedDecision := normalizeApprovalDecision (Json.lookup p "approvalDecision")
    if !approved ∧ requestedDecision = none then
      ((resolveSystemRunCommandRequest host.toHost (Json.lookup p "command")
        (Json.lookup p "rawCommand")).map fun _ => .object (pickSystemRunParams p), manager)
    else
      match normalizeNullableString (Json.lookup p "runId"), manager with
      | none, _ => (.error (systemRunApprovalGuardError "MISSING_RUN_ID"
          "approval override requires params.runId" []), manager)
      | some _, none => (.error (systemRunApprovalGuardError "APPROVALS_UNAVAILABLE"
          "exec approvals unavailable" []), manager)
      | some runId, some m =>
        match m.getSnapshot runId with
        | none => (.error (systemRunApprovalGuardError "UNKNOWN_APPROVAL_ID"
            "unknown or expired approval id" (runIdDetail runId)), some m)
        | some snapshot =>
          match checkApprovalRequest host opts p runId snapshot with
          | .error error => (.error error, some m)
          | .ok next =>
            match snapshot.decision with
            | some .allowOnce =>
              match m.consumeAllowOnce runId with
              | none => (.error (systemRunApprovalRequired runId), some m)
              | some (_, m') => (.ok (grantApproval next "allow-once"), some m')
            | some .allowAlways => (.ok (grantApproval next "allow-always"), some m)
            | _ =>
              -- the approval timed out and its client may fall back to asking
              if snapshot.timedOut ∧ requestsAskFallback opts p then
                (.ok (grantApproval next "allow-once"), some m)
              else (.error (systemRunApprovalRequired runId), some m)

/-- Whether the request is forwarded with `approved = true`. -/
def forwardsApproved : Except RequestError Json → Bool
  | .ok params => isTrueValue (params.get? "approved")
  | .error _ => false

/-! ## What the gate grants -/

theorem lookup_pickSystemRunParams_approved :
    Json.lookup (pickSystemRunParams raw) "approved" = none := by
  rw [Json.lookup, map_eq_none_iff, List.find?_eq_none]
  intro entry hentry hkey
  obtain ⟨key, hmem, hlookup⟩ := List.mem_filterMap.mp hentry
  obtain ⟨value, -, rfl⟩ := Option.map_eq_some_iff.mp hlookup
  have hne : key ≠ ("approved" : Str) := by
    revert hmem
    simp only [systemRunParamKeys, List.mem_cons, List.not_mem_nil, or_false]
    rintro (rfl | rfl | rfl | rfl | rfl | rfl | rfl | rfl | rfl | rfl | rfl) <;> decide
  exact hne (of_decide_eq_true hkey)

theorem forwardsApproved_grantApproval (decision : Str) :
    forwardsApproved (.ok (grantApproval next decision)) = true := by
  have hlookup : Json.lookup (Json.insert (Json.insert next "approved" (.bool true))
      "approvalDecision" (.string decision)) "approved" = some (.bool true) := by
    rw [Json.lookup_insert_of_ne _ _ (by decide), Json.lookup_insert]
  simp only [forwardsApproved, grantApproval, Json.get?, Json.entries?, bind_some, hlookup,
    isTrueValue]

theorem not_forwardsApproved_of_not_object {params : Json} (h : params.entries? = none) :
    forwardsApproved (.ok params) = false := by
  show isTrueValue (params.get? "approved") = false
  rw [Json.get?, h]
  rfl

theorem not_forwardsApproved_of_picked {host : Host} {command rawCommand : Option Json}
    (p : List (Str × Json)) :
    forwardsApproved ((resolveSystemRunCommandRequest host command rawCommand).map
      fun _ => .object (pickSystemRunParams p)) = false := by
  cases resolveSystemRunCommandRequest host command rawCommand with
  | error e => rfl
  | ok command =>
    show isTrueValue (Json.lookup (pickSystemRunParams p) "approved") = false
    rw [lookup_pickSystemRunParams_approved]
    rfl

/-- How the gate lets a request through for the entry `entry` of the manager, with the
manager afterwards. -/
inductive GrantedBy (opts : SystemRunForwardingOptions) (p : List (Str × Json))
    (m : ExecApprovalManager) (runId : Str) (entry : PendingEntry) : ExecApprovalManager → Prop
  | allowOnce {m' : ExecApprovalManager} : entry.record.decision = some .allowOnce →
      m.consumeAllowOnce runId = some (entry.key, m') → GrantedBy opts p m runId entry m'
  | allowAlways : entry.record.decision = some .allowAlways → GrantedBy opts p m runId entry m
  | fallback : entry.record.timedOut = true → requestsAskFallback opts p = true →
      GrantedBy opts p m runId entry m

/-- The gate lets a request through only for a record that the request names and whose
checks it passes; otherwise it leaves the manager alone. -/
theorem sanitizeSystemRunParamsForForwarding_cases (host : GatewayHost)
    (opts : SystemRunForwardingOptions) (m : ExecApprovalManager) :
    (forwardsApproved (sanitizeSystemRunParamsForForwarding host opts (some m)).1 = false ∧
      (sanitizeSystemRunParamsForForwarding host opts (some m)).2 = some m) ∨
    (forwardsApproved (sanitizeSystemRunParamsForForwarding host opts (some m)).1 = true ∧
      ∃ p runId entry next m', opts.rawParams.entries? = some p ∧
        normalizeNullableString (Json.lookup p "runId") = some runId ∧
        m.entryAt runId = some entry ∧
        checkApprovalRequest host opts p runId entry.record = .ok next ∧
        (sanitizeSystemRunParamsForForwarding host opts (some m)).2 = some m' ∧
        GrantedBy opts p m runId entry m') := by
  unfold sanitizeSystemRunParamsForForwarding
  split
  · rename_i hparams
    exact .inl ⟨not_forwardsApproved_of_not_object hparams, rfl⟩
  rename_i p hparams
  dsimp only
  split
  · exact .inl ⟨not_forwardsApproved_of_picked p, rfl⟩
  split
  · exact .inl ⟨rfl, rfl⟩
  · rename_i hmanager
    exact nomatch hmanager
  rename_i runId m₀ hrunId hmanager
  obtain rfl := some.inj hmanager
  cases hentry : m.entryAt runId with
  | none =>
    rw [ExecApprovalManager.getSnapshot, hentry]
    exact .inl ⟨rfl, rfl⟩
  | some entry =>
    have hsnapshot : m.getSnapshot runId = some entry.record := by
      rw [ExecApprovalManager.getSnapshot, hentry, map_some]
    simp only [hsnapshot]
    cases hcheck : checkApprovalRequest host opts p runId entry.record with
    | error e => exact .inl ⟨rfl, rfl⟩
    | ok next =>
      have grant (m' : ExecApprovalManager) (decision : Str)
          (h : GrantedBy opts p m runId entry m') :
          forwardsApproved (.ok (grantApproval next decision)) = true ∧
          ∃ p' runId' entry' next' m'', opts.rawParams.entries? = some p' ∧
            normalizeNullableString (Json.lookup p' "runId") = some runId' ∧
            m.entryAt runId' = some entry' ∧
            checkApprovalRequest host opts p' runId' entry'.record = .ok next' ∧
            some m' = some m'' ∧ GrantedBy opts p' m runId' entry' m'' :=
        ⟨forwardsApproved_grantApproval next decision, p, runId, entry, next, m', hparams, hrunId,
          hentry, hcheck, rfl, h⟩
      dsimp only
      split
      · rename_i hdecision
        have hconsume : m.consumeAllowOnce runId = some (entry.key, m.modifyRecord runId
            fun record => { record with consumedDecision := record.decision, decision := none }) := by
          simp only [ExecApprovalManager.consumeAllowOnce, hentry, hdecision, ne_eq,
            not_true_eq_false, if_false]
        simp only [hconsume]
        exact .inr (grant _ _ (.allowOnce hdecision hconsume))
      · rename_i hdecision
        exact .inr (grant _ _ (.allowAlways hdecision))
      · split
        · rename_i hfallback
          exact .inr (grant _ _ (.fallback hfallback.1 hfallback.2))
        · exact .inl ⟨rfl, rfl⟩

/-- A request that passes the checks and asks for the fallback of a timed out record gets
it. -/
theorem sanitizeSystemRunParamsForForwarding_of_fallback {host : GatewayHost}
    {opts : SystemRunForwardingOptions} {m : ExecApprovalManager} {p next : List (Str × Json)}
    {runId : Str} {entry : PendingEntry} (hparams : opts.rawParams.entries? = some p)
    (hrunId : normalizeNullableString (Json.lookup p "runId") = some runId)
    (hentry : m.entryAt runId = some entry)
    (hcheck : checkApprovalRequest host opts p runId entry.record = .ok next)
    (htimedOut : entry.record.timedOut = true) (hasks : requestsAskFallback opts p = true) :
    sanitizeSystemRunParamsForForwarding host opts (some m) =
      (.ok (grantApproval next "allow-once"), some m) := by
  have hsnapshot : m.getSnapshot runId = some entry.record := by
    rw [ExecApprovalManager.getSnapshot, hentry, map_some]
  have hdecision : entry.record.decision = none := by
    simp only [ExecApprovalRecord.timedOut, Bool.and_eq_true, isNone_iff_eq_none]
      at htimedOut
    exact htimedOut.1.2
  have happroved : isTrueValue (Json.lookup p "approved") = true := by
    simp only [requestsAskFallback, Bool.and_eq_true] at hasks
    exact hasks.1.1
  simp only [sanitizeSystemRunParamsForForwarding, hparams, happroved, Bool.not_true,
    Bool.false_eq_true, false_and, if_false, hrunId, hsnapshot, hcheck, hdecision, htimedOut, hasks,
    and_self, if_true]

end OpenClaw
