import OpenClaw.ExecApprovals.File

/-!
# Updates of an allowlist

`addAllowlistEntry`, `recordAllowlistUse` and the loops over them: the file each leaves in
memory, which is the file it saves. `now` is the clock and `freshId` the next random id, or
the random id given to the entry at a position.
-/

namespace OpenClaw

/-- `Array.isArray(existing.allowlist) ? existing.allowlist : []`. -/
def ExecApprovalsAgent.items (agent : ExecApprovalsAgent) : List AllowlistItem :=
  agent.allowlist.getD []

/-- `agents[target] = { ...existing, allowlist }`. -/
def ExecApprovalsFile.setAllowlist (file : ExecApprovalsFile) (target : Str)
    (allowlist : List AllowlistItem) : ExecApprovalsFile :=
  { file with
    agents := file.agents.set (target, { file.agent target with allowlist := some allowlist }) }

/-! ## Adding an entry -/

structure AllowlistEntryOptions where
  argPattern : Option Str
  source : Option Str
deriving DecidableEq

/-- `options.source` where it counts as true. -/
def AllowlistEntryOptions.givenSource (options : AllowlistEntryOptions) : Option Str :=
  options.source.bind nonEmptyText?

variable (pattern : Str)

/-- `entry.pattern === pattern && entry.argPattern === argPattern`. -/
def AllowlistItem.hasKey (argPattern : Option Str) : AllowlistItem → Bool
  | .entry value => value.pattern = pattern ∧ value.argPattern = argPattern
  | _ => false

/-- `entry.pattern === pattern`. -/
def AllowlistItem.hasPattern : AllowlistItem → Bool
  | .entry value => value.pattern = pattern
  | _ => false

/-- The rewriting of an item by `addAllowlistEntry`. -/
def AllowlistItem.rewrite (argPattern source : Option Str) (now : ℕ) : AllowlistItem → AllowlistItem
  | .entry value =>
    if value.pattern = pattern then
      .entry { value with
        argPattern := argPattern
        source := source.or value.source
        lastUsedAt := some now }
    else .entry value
  | item => item

def newAllowlistEntry (freshId pattern : Str) (argPattern source : Option Str) (now : ℕ) :
    ExecAllowlistEntry :=
  { id := some freshId
    pattern := pattern
    source := source
    commandText := none
    argPattern := argPattern
    lastUsedAt := some now
    lastUsedCommand := none
    lastResolvedPath := none }

/-- The allowlist `addAllowlistEntry` saves; `none` where it returns without saving. The
pattern is trimmed and not empty. -/
def addToAllowlist (items : List AllowlistItem) (pattern : Str) (argPattern : Option Str)
    (options : AllowlistEntryOptions) (freshId : Str) (now : ℕ) : Option (List AllowlistItem) :=
  match items.find? (·.hasKey pattern argPattern) with
  | some existing =>
    if options.givenSource = none ∨
        existing.entry?.bind ExecAllowlistEntry.source = options.source then none
    else some (items.map (·.rewrite pattern argPattern options.source now))
  | none =>
    some (items ++ [.entry (newAllowlistEntry freshId pattern argPattern options.source now)])

variable (approvals : ExecApprovalsFile) (agentId : Option Str)

def addAllowlistEntry (pattern : Str)
    (options : AllowlistEntryOptions) (freshId : Str) (now : ℕ) : ExecApprovalsFile :=
  let target := agentId.getD defaultAgentId
  let trimmed := trim pattern
  if trimmed = [] then approvals
  else
    match addToAllowlist (approvals.agent target).items trimmed
        (normalizeOptionalString options.argPattern) options freshId now with
    | none => approvals
    | some nextAllowlist => approvals.setAllowlist target nextAllowlist

/-! ## Recording a use -/

variable (entry : ExecAllowlistEntry)

/-- The marks a use leaves on an item. -/
def AllowlistItem.markUsed (command : Str)
    (resolvedPath : Option Str) (now : ℕ) (freshId : Str) (item : AllowlistItem) : AllowlistItem :=
  match item with
  | .entry value =>
    if value.pattern = entry.pattern ∧ value.argPattern = entry.argPattern then
      .entry { value with
        id := some (value.id.getD freshId)
        lastUsedAt := some now
        lastUsedCommand := some command
        lastResolvedPath := resolvedPath }
    else item
  | _ => item

def recordAllowlistUse (command : Str) (resolvedPath : Option Str)
    (freshId : ℕ → Str) (now : ℕ) : ExecApprovalsFile :=
  let target := agentId.getD defaultAgentId
  approvals.setAllowlist target ((approvals.agent target).items.mapIdx fun index item =>
    item.markUsed entry command resolvedPath now (freshId index))

def buildAllowlistEntryMatchKey : Str :=
  entry.pattern ++ '\x00' :: ((entry.argPattern.map trim).getD [])

/-- The loop of `recordAllowlistMatchesUse` from match `n` on. -/
def recordMatchesLoop (agentId : Option Str) (command : Str) (resolvedPath : Option Str)
    (freshId : ℕ → ℕ → Str) (now : ℕ → ℕ) :
    ℕ → List Str → List ExecAllowlistEntry → ExecApprovalsFile → ExecApprovalsFile
  | _, _, [], approvals => approvals
  | n, seen, entry :: rest, approvals =>
    let key := buildAllowlistEntryMatchKey entry
    if entry.pattern = [] ∨ key ∈ seen then
      recordMatchesLoop agentId command resolvedPath freshId now (n + 1) seen rest approvals
    else
      recordMatchesLoop agentId command resolvedPath freshId now (n + 1) (key :: seen) rest
        (recordAllowlistUse approvals agentId entry command resolvedPath (freshId n) (now n))

def recordAllowlistMatchesUse
    (usedEntries : List ExecAllowlistEntry) (command : Str) (resolvedPath : Option Str)
    (freshId : ℕ → ℕ → Str) (now : ℕ → ℕ) : ExecApprovalsFile :=
  recordMatchesLoop agentId command resolvedPath freshId now 0 [] usedEntries approvals

/-! ## Approvals of a whole command -/

variable (digest : Str → Str)

/-- `buildDurableCommandApprovalPattern`; `digest` is the start of the text's SHA-256 in
hexadecimal. -/
def buildDurableCommandApprovalPattern (commandText : Str) : Str :=
  "=command:".toList ++ digest commandText

def hasExactCommandDurableExecApproval (allowlist : List AllowlistItem)
    (commandText : Option Str) : Bool :=
  let normalizedCommand := (commandText.map trim).getD []
  if normalizedCommand = [] then false
  else
    allowlist.any fun
      | .entry entry => entry.source = some allowAlways ∧
          (entry.pattern = buildDurableCommandApprovalPattern digest normalizedCommand ∨
            entry.commandText.map trim = some normalizedCommand)
      | _ => false

end OpenClaw
