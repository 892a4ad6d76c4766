import OpenClaw.Lib.Keyed
import OpenClaw.Pairing.Scopes

/-!
# Node pairing

`node-pairing.ts`: a node asks for its surface to be approved, and an operator approves a request.
-/

namespace OpenClaw

/-- `left.localeCompare(right) <= 0`. -/
structure Locale where
  le : Str → Str → Bool

/-! ## Requests -/

/-- `Record<string, boolean>` in the order of its entries. -/
abbrev Permissions := List (Str × Bool)

structure NodeSurface where
  caps : Option (List Str)
  commands : Option (List Str)
  permissions : Option Permissions
deriving DecidableEq

structure NodeMetadata where
  displayName : Option Str
  platform : Option Str
  version : Option Str
  coreVersion : Option Str
  uiVersion : Option Str
  deviceFamily : Option Str
  modelIdentifier : Option Str
  remoteIp : Option Str
deriving DecidableEq

/-- `incoming.x ?? existing.x` for each of them. -/
def NodeMetadata.orElse (incoming existing : NodeMetadata) : NodeMetadata where
  displayName := incoming.displayName <|> existing.displayName
  platform := incoming.platform <|> existing.platform
  version := incoming.version <|> existing.version
  coreVersion := incoming.coreVersion <|> existing.coreVersion
  uiVersion := incoming.uiVersion <|> existing.uiVersion
  deviceFamily := incoming.deviceFamily <|> existing.deviceFamily
  modelIdentifier := incoming.modelIdentifier <|> existing.modelIdentifier
  remoteIp := incoming.remoteIp <|> existing.remoteIp

structure NodePairingRequestInput where
  nodeId : Str
  metadata : NodeMetadata
  surface : NodeSurface
  silent : Option Bool
deriving DecidableEq

structure NodePairingPendingRequest where
  requestId : Str
  nodeId : Str
  metadata : NodeMetadata
  surface : NodeSurface
  silent : Option Bool
  ts : ℤ
deriving DecidableEq

structure NodePairingPairedNode where
  nodeId : Str
  token : Str
  metadata : NodeMetadata
  surface : NodeSurface
  createdAtMs : ℤ
  approvedAtMs : ℤ
deriving DecidableEq

structure NodePairingState where
  pendingById : Keyed NodePairingPendingRequest (·.requestId)
  pairedByNodeId : Keyed NodePairingPairedNode (·.nodeId)

/-- `normalizeArrayBackedTrimmedStringList` -/
def normalizeTrimmedStringList (value : List Str) : List Str := (value.map trim).filter (· ≠ [])

def buildPendingNodePairingRequest (requestId : Str) (req : NodePairingRequestInput) (nowMs : ℤ) :
    NodePairingPendingRequest where
  requestId := requestId
  nodeId := req.nodeId
  metadata := req.metadata
  surface :=
    ⟨req.surface.caps.map normalizeTrimmedStringList,
      req.surface.commands.map normalizeTrimmedStringList, req.surface.permissions⟩
  silent := req.silent
  ts := nowMs

/-- The surface of a request that another one joins. -/
def NodeSurface.refresh (existing incoming : NodeSurface) : NodeSurface where
  caps := incoming.caps.map normalizeTrimmedStringList <|> existing.caps
  commands := incoming.commands.map normalizeTrimmedStringList <|> existing.commands
  permissions := incoming.permissions <|> existing.permissions

def refreshPendingNodePairingRequest (nowMs : ℤ) (existing : NodePairingPendingRequest)
    (incoming : NodePairingRequestInput) : NodePairingPendingRequest :=
  { existing with
    metadata := incoming.metadata.orElse existing.metadata
    surface := existing.surface.refresh incoming.surface
    silent := some (existing.silent.getD false && incoming.silent.getD false)
    ts := nowMs }

/-! ## Comparing surfaces -/

def normalizeApprovalSurfaceList (value : Option (List Str)) : List Str :=
  (value.map normalizeTrimmedStringList).getD []

/-- Two sets with the same number of elements, one within the other. -/
def sameApprovalSurfaceSet (left right : Option (List Str)) : Bool :=
  let normalizedLeft := (normalizeApprovalSurfaceList left).dedup
  let normalizedRight := (normalizeApprovalSurfaceList right).dedup
  if normalizedLeft.length ≠ normalizedRight.length then false
  else normalizedLeft.all (· ∈ normalizedRight)

variable (locale : Locale)

def sortPermissions (permissions : Permissions) : Permissions :=
  permissions.insertionSort fun left right => locale.le left.1 right.1 = true

def samePermissions (left right : Option Permissions) : Bool :=
  let leftEntries := sortPermissions locale (left.getD [])
  let rightEntries := sortPermissions locale (right.getD [])
  if leftEntries.length ≠ rightEntries.length then false
  else (leftEntries.zip rightEntries).all fun entries => entries.1 = entries.2

def samePendingApprovalSurface (existing : NodePairingPendingRequest)
    (incoming : NodePairingRequestInput) : Bool :=
  let asked := existing.surface.refresh incoming.surface
  sameApprovalSurfaceSet existing.surface.caps asked.caps &&
    sameApprovalSurfaceSet existing.surface.commands asked.commands &&
      samePermissions locale existing.surface.permissions asked.permissions

def mergeNodePairingReplacementInput (existing : List NodePairingPendingRequest)
    (incoming : NodePairingRequestInput) : NodePairingRequestInput :=
  let latest := existing.head?
  { nodeId := incoming.nodeId
    metadata := (latest.map fun latest => incoming.metadata.orElse latest.metadata).getD
      incoming.metadata
    surface :=
      ⟨incoming.surface.caps <|> latest.bind (·.surface.caps),
        incoming.surface.commands <|> latest.bind (·.surface.commands),
        incoming.surface.permissions <|> latest.bind (·.surface.permissions)⟩
    silent := some (incoming.silent.getD false && existing.all fun pending => pending.silent = some true) }

/-! ## Scopes of an approval -/

def operatorPairingScope : Str := "operator.pairing".toList

/-- `NODE_SYSTEM_RUN_COMMANDS` -/
def nodeSystemRunCommands : List Str :=
  ["system.run.prepare".toList, "system.run".toList, "system.which".toList]

def resolveNodePairApprovalScopes (commands : List Str) : List Str :=
  if commands.any (· ∈ nodeSystemRunCommands) then [operatorPairingScope, operatorAdminScope]
  else if 0 < commands.length then [operatorPairingScope, operatorWriteScope]
  else [operatorPairingScope]

def resolveNodeApprovalRequiredScopes (pending : NodePairingPendingRequest) : List Str :=
  resolveNodePairApprovalScopes (pending.surface.commands.getD [])

def resolveMissingRequestedScope (role : Str) (requestedScopes allowedScopes : List Str) :
    Option Str :=
  requestedScopes.find? fun scope => !roleScopesAllow role [scope] allowedScopes

/-! ## Operations -/

/-- `PENDING_TTL_MS` -/
def nodePendingTtlMs : ℤ := 5 * 60 * 1000

/-- `loadState`, with `pruneExpiredPending`. -/
def NodePairingState.load (state : NodePairingState) (nowMs : ℤ) : NodePairingState :=
  { state with pendingById := state.pendingById.filter fun req => ¬nodePendingTtlMs < nowMs - req.ts }

/-- `reconcilePendingPairingRequests`: what is pending afterwards, the request, and whether it was
created. -/
def reconcilePendingPairingRequests {P I : Type} {requestId : P → Str} (pendingById : Keyed P requestId)
    (existing : List P) (incoming : I) (canRefreshSingle : P → I → Bool) (refreshSingle : P → I → P)
    (buildReplacement : List P → I → P) : Keyed P requestId × P × Bool :=
  match existing with
  | [only] =>
    if canRefreshSingle only incoming then
      (pendingById.set (refreshSingle only incoming), refreshSingle only incoming, false)
    else
      let request := buildReplacement existing incoming
      ((pendingById.erase (requestId only)).set request, request, true)
  | _ =>
    let request := buildReplacement existing incoming
    ((existing.foldl (fun pending old => pending.erase (requestId old)) pendingById).set request,
      request, true)

structure RequestNodePairingResult where
  request : NodePairingPendingRequest
  created : Bool
  superseded : List Str
deriving DecidableEq

variable (file : NodePairingState)

def requestNodePairing (nowMs : ℤ) (newId : Str)
    (req : NodePairingRequestInput) : Except Str (RequestNodePairingResult × NodePairingState) :=
  let state := file.load nowMs
  let nodeId := trim req.nodeId
  if nodeId = [] then .error "nodeId required".toList
  else
    let pendingForNode := (state.pendingById.entries.filter (·.nodeId = nodeId)).insertionSort
      fun left right => right.ts ≤ left.ts
    let (pendingById, request, created) :=
      reconcilePendingPairingRequests state.pendingById pendingForNode { req with nodeId := nodeId }
        (samePendingApprovalSurface locale) (refreshPendingNodePairingRequest nowMs)
        fun existing incoming => buildPendingNodePairingRequest newId
          (mergeNodePairingReplacementInput existing incoming) nowMs
    let superseded :=
      if created then (pendingForNode.map (·.requestId)).filter (· ≠ request.requestId) else []
    .ok (⟨request, created, superseded⟩, { state with pendingById := pendingById })

inductive ApproveNodePairingResult where
  | notFound
  | forbidden (missingScope : Str)
  | approved (requestId : Str) (node : NodePairingPairedNode)
deriving DecidableEq

def approveNodePairing (nowMs : ℤ) (newToken requestId : Str)
    (callerScopes : Option (List Str)) : ApproveNodePairingResult × NodePairingState :=
  let state := file.load nowMs
  match state.pendingById.find requestId with
  | none => (.notFound, file)
  | some pending =>
    match resolveMissingRequestedScope operatorRole (resolveNodeApprovalRequiredScopes pending)
        (callerScopes.getD []) with
    | some missingScope => (.forbidden missingScope, file)
    | none =>
      let existing := state.pairedByNodeId.find pending.nodeId
      let node : NodePairingPairedNode :=
        { nodeId := pending.nodeId, token := newToken, metadata := pending.metadata,
          surface := pending.surface, createdAtMs := (existing.map (·.createdAtMs)).getD nowMs,
          approvedAtMs := nowMs }
      (.approved requestId node,
        ⟨state.pendingById.erase requestId, state.pairedByNodeId.set node⟩)

def rejectNodePairing (nowMs : ℤ) (requestId : Str) : NodePairingState :=
  let state := file.load nowMs
  match state.pendingById.find requestId with
  | none => file
  | some _ => { state with pendingById := state.pendingById.erase requestId }

def removePairedNode (nowMs : ℤ) (nodeId : Str) : NodePairingState :=
  let state := file.load nowMs
  let normalized := trim nodeId
  if normalized = [] ∨ state.pairedByNodeId.find normalized = none then file
  else { state with pairedByNodeId := state.pairedByNodeId.erase normalized }

/-- `renamePairedNode`, where it does not throw. -/
def renamePairedNode (nowMs : ℤ) (nodeId displayName : Str) : NodePairingState :=
  let state := file.load nowMs
  match state.pairedByNodeId.find (trim nodeId) with
  | none => file
  | some existing =>
    if trim displayName = [] then file
    else
      { state with
        pairedByNodeId := state.pairedByNodeId.set
          { existing with metadata := { existing.metadata with displayName := some (trim displayName) } } }

/-- `updatePairedNodeMetadata` with a patch that has no caps, commands or permissions. -/
def updatePairedNodeMetadata (nowMs : ℤ) (nodeId : Str) (patch : NodeMetadata) : NodePairingState :=
  let state := file.load nowMs
  match state.pairedByNodeId.find (trim nodeId) with
  | none => file
  | some existing =>
    { state with
      pairedByNodeId := state.pairedByNodeId.set
        { existing with metadata := patch.orElse existing.metadata } }

/-! ## Connecting nodes

`node-connect-reconcile.ts`: what a node declares is compared with what was approved for it. The
configuration decides which commands are allowed; any set of commands stands for it here. -/

/-- What a node declares, and the commands that the configuration allows it. -/
structure NodeDeclaration where
  nodeId : Str
  metadata : NodeMetadata
  caps : Option (List Str)
  commands : Option (List Str)
  permissions : Option Permissions
  allowlist : List Str
deriving DecidableEq

structure NodeConnectResult where
  declaredCaps : List Str
  effectiveCaps : List Str
  declaredCommands : List Str
  effectiveCommands : List Str
  declaredPermissions : Option Permissions
  effectivePermissions : Option Permissions
  pendingPairing : Option RequestNodePairingResult
deriving DecidableEq

/-- The trimmed commands that are not blank, each once, as far as they are allowed. -/
def normalizeDeclaredNodeCommands (declaredCommands : Option (List Str)) (allowlist : List Str) :
    List Str :=
  (normalizeApprovalSurfaceList declaredCommands).eraseDups.filter (· ∈ allowlist)

def normalizePermissionMap (value : Option Permissions) : Option Permissions :=
  value.bind fun value =>
    let entries := sortPermissions locale value
    if 0 < entries.length then some entries else none

def intersectApprovalSurfaceList (approved declared : List Str) : List Str :=
  (normalizeTrimmedStringList declared).filter (· ∈ normalizeTrimmedStringList approved)

/-- `params.approved?.[key]` -/
def permissionValue (approved : Option Permissions) (key : Str) : Option Bool :=
  ((approved.getD []).find? (·.1 = key)).map (·.2)

def intersectPermissionSurface (approved declared : Option Permissions) : Option Permissions :=
  let entries := (declared.getD []).filterMap fun entry =>
    if entry.2 = false then some (entry.1, false)
    else
      match permissionValue approved entry.1 with
      | some true => some (entry.1, true)
      | some false => some (entry.1, false)
      | none => none
  if 0 < entries.length then some entries else none

section

variable (locale : Locale)

variable (d : NodeDeclaration)

def NodeDeclaration.declaredCaps : List Str := normalizeApprovalSurfaceList d.caps

def NodeDeclaration.declaredCommands : List Str :=
  normalizeDeclaredNodeCommands d.commands d.allowlist

def NodeDeclaration.declaredPermissions : Option Permissions :=
  normalizePermissionMap locale d.permissions

/-- `buildNodePairingRequestInput` -/
def NodeDeclaration.request (permissions : Option Permissions) : NodePairingRequestInput :=
  ⟨d.nodeId, { d.metadata with coreVersion := none, uiVersion := none },
    ⟨some d.declaredCaps, some d.declaredCommands, permissions⟩, none⟩

variable (pairedNode : NodePairingPairedNode)

def hasPermissionChange (d : NodeDeclaration) : Bool :=
  !samePermissions locale pairedNode.surface.permissions (d.declaredPermissions locale)

/-- Something is declared that was not approved, or not declared that was. -/
def needsPairing (d : NodeDeclaration) : Bool :=
  let approvedCommands := normalizeDeclaredNodeCommands pairedNode.surface.commands d.allowlist
  let hasCommandUpgrade := d.declaredCommands.any (· ∉ approvedCommands)
  let hasCapabilityChange := !sameApprovalSurfaceSet pairedNode.surface.caps (some d.declaredCaps)
  hasCommandUpgrade || hasCapabilityChange || hasPermissionChange locale pairedNode d

/-- The request of a connect, where it makes one. -/
def connectRequest (pairedNode : Option NodePairingPairedNode) (d : NodeDeclaration) :
    Option NodePairingRequestInput :=
  match pairedNode with
  | none => some (d.request (d.declaredPermissions locale))
  | some pairedNode =>
    if needsPairing locale pairedNode d then
      some (d.request (d.declaredPermissions locale <|>
        if hasPermissionChange locale pairedNode d then some [] else none))
    else none

/-- The result of a connect, given what its request led to. -/
def connectResult (pairedNode : Option NodePairingPairedNode) (d : NodeDeclaration)
    (pendingPairing : Option RequestNodePairingResult) : NodeConnectResult :=
  let result : List Str → List Str → Option Permissions → NodeConnectResult :=
    fun caps commands permissions =>
      { declaredCaps := d.declaredCaps, effectiveCaps := caps
        declaredCommands := d.declaredCommands, effectiveCommands := commands
        declaredPermissions := d.declaredPermissions locale, effectivePermissions := permissions
        pendingPairing := pendingPairing }
  match pairedNode with
  | none => result [] [] none
  | some pairedNode =>
    if needsPairing locale pairedNode d then
      result
        (intersectApprovalSurfaceList (normalizeApprovalSurfaceList pairedNode.surface.caps)
          d.declaredCaps)
        (intersectApprovalSurfaceList
          (normalizeDeclaredNodeCommands pairedNode.surface.commands d.allowlist) d.declaredCommands)
        (intersectPermissionSurface (normalizePermissionMap locale pairedNode.surface.permissions)
          (d.declaredPermissions locale))
    else result d.declaredCaps d.declaredCommands (d.declaredPermissions locale)

/-- A connect: the paired node is read, and the request goes through `requestNodePairing`. -/
def reconcileNodePairingOnConnect (file : NodePairingState) (nowMs : ℤ) (newId : Str)
    (d : NodeDeclaration) : Except Str (NodeConnectResult × NodePairingState) :=
  let pairedNode := file.pairedByNodeId.find (trim d.nodeId)
  match connectRequest locale pairedNode d with
  | none => .ok (connectResult locale pairedNode d none, file)
  | some input => do
    let (pendingPairing, state) ← requestNodePairing locale file nowMs newId input
    .ok (connectResult locale pairedNode d (some pendingPairing), state)

end

end OpenClaw
