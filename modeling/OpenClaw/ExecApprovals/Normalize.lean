import OpenClaw.ExecApprovals.Entries

/-!
# Normalizing an exec approvals file

`normalizeExecApprovals` and `resolveExecApprovalsFromFile` of `exec-approvals.ts`. The agent
`default` of older files becomes the agent `main`, allowlists get their current form, and a
policy field that is none of its words is dropped. The policy of an agent is then read from
the normalized file, but whether the agent or the wildcard decides a field is read off the
file as it was given.
-/

namespace OpenClaw

/-! ## Policy fields -/

/-- `toStringOrUndefined(field)?.trim()`. -/
def PolicyField.trimmed? : PolicyField → Option Str
  | .text value => some (trim value)
  | _ => none

variable (field : PolicyField)

def sanitizeSecurity : PolicyField :=
  match field.trimmed?.bind execSecurity? with
  | some value => .text value.text
  | none => .unset

def sanitizeAsk : PolicyField :=
  match field.trimmed?.bind execAsk? with
  | some value => .text value.text
  | none => .unset

/-- `field ?? other`. -/
def PolicyField.orElse (field other : PolicyField) : PolicyField :=
  match field with
  | .unset => other
  | field => field

/-! ## The older default agent -/

variable (host : Host)

/-- `normalizeAllowlistPattern` on a string. -/
def normalizeAllowlistPattern (value : Str) : Option Str :=
  (normalizeOptionalString (some value)).map (normalizeLowercaseStringOrEmpty host)

/-- The key of `pushEntry`; `none` for an item it passes over. A bare pattern has no field
`pattern`. -/
def AllowlistItem.mergeKey? : AllowlistItem → Option Str
  | .entry value => ((normalizeAllowlistPattern host value.pattern).bind nonEmptyText?).map
      fun patternKey => patternKey ++ '\x00' :: ((value.argPattern.map trim).getD [])
  | _ => none

/-- The items `pushEntry` takes, where `seen` are the keys of those taken before. -/
def mergeEntries (host : Host) : List Str → List AllowlistItem → List AllowlistItem
  | _, [] => []
  | seen, item :: rest =>
    match item.mergeKey? host with
    | none => mergeEntries host seen rest
    | some key =>
      if key ∈ seen then mergeEntries host seen rest
      else item :: mergeEntries host (key :: seen) rest

/-- `list.length > 0 ? list : undefined`. -/
def nonEmptyList? {α : Type*} : List α → Option (List α)
  | [] => none
  | list => some list

def mergeLegacyAgent (current legacy : ExecApprovalsAgent) : ExecApprovalsAgent :=
  { security := current.security.orElse legacy.security
    ask := current.ask.orElse legacy.ask
    askFallback := current.askFallback.orElse legacy.askFallback
    autoAllowSkills := current.autoAllowSkills.or legacy.autoAllowSkills
    allowlist := nonEmptyList? (mergeEntries host [] (current.items ++ legacy.items)) }

/-- The agents once the agent `default` has become the agent `main`. -/
def migrateLegacyAgent (agents : ExecApprovalsAgents) : ExecApprovalsAgents :=
  match agents.find legacyAgentId with
  | none => agents
  | some (_, legacy) =>
    let main := match agents.find defaultAgentId with
      | some (_, main) => mergeLegacyAgent host main legacy
      | none => legacy
    (agents.set (defaultAgentId, main)).erase legacyAgentId

/-! ## Allowlists -/

/-- The entry `coerceAllowlistEntries` makes of an item. -/
def AllowlistItem.coerce? : AllowlistItem → Option AllowlistItem
  | .text value =>
    (nonEmptyText? (trim value)).map fun pattern =>
      .entry ⟨none, pattern, none, none, none, none, none, none⟩
  | .entry value => if trim value.pattern = [] then none else some (.entry value)
  | .invalid _ => none

/-- An item that `coerceAllowlistEntries` takes as it is. -/
def AllowlistItem.isEntry : AllowlistItem → Bool
  | .entry value => trim value.pattern ≠ []
  | _ => false

def coerceAllowlistEntries : Option (List AllowlistItem) → Option (List AllowlistItem)
  | none => none
  | some items =>
    if items.all AllowlistItem.isEntry then some items
    else nonEmptyList? (items.filterMap AllowlistItem.coerce?)

/-- `entry.id ? entry : { ...entry, id }`. -/
def AllowlistItem.ensureId (freshId : Str) : AllowlistItem → AllowlistItem
  | .entry value => .entry { value with id := some ((value.id.bind nonEmptyText?).getD freshId) }
  | item => item

def AllowlistItem.stripCommandText : AllowlistItem → AllowlistItem
  | .entry value => .entry { value with commandText := none }
  | item => item

variable (freshId : ℕ → Str) (allowlist : Option (List AllowlistItem))

def ensureAllowlistIds : Option (List AllowlistItem) :=
  allowlist.map fun items => items.mapIdx fun index item => item.ensureId (freshId index)

def stripAllowlistCommandText : Option (List AllowlistItem) :=
  allowlist.map fun items => items.map AllowlistItem.stripCommandText

/-! ## The file -/

/-- The round of `normalizeExecApprovals` for one agent. Where nothing changes the code keeps
the agent's object, which has these values already. -/
def normalizeAgent (agent : ExecApprovalsAgent) : ExecApprovalsAgent :=
  { agent with
    allowlist := stripAllowlistCommandText
      (ensureAllowlistIds freshId (coerceAllowlistEntries agent.allowlist))
    security := sanitizeSecurity agent.security
    ask := sanitizeAsk agent.ask
    askFallback := sanitizeSecurity agent.askFallback }

/-- `freshId key index` is the random id of an entry of an agent. -/
def normalizeExecApprovals (freshId : Str → ℕ → Str) (file : ExecApprovalsFile) :
    ExecApprovalsFile :=
  let agents := migrateLegacyAgent host file.agents
  { socket :=
      { path := normalizeOptionalString file.socket.path
        token := normalizeOptionalString file.socket.token }
    defaults :=
      { file.defaults with
        security := sanitizeSecurity file.defaults.security
        ask := sanitizeAsk file.defaults.ask
        askFallback := sanitizeSecurity file.defaults.askFallback }
    agents := agents.reread agents.entries
      (fun agent => (agent.1, normalizeAgent (freshId agent.1) agent.2)) (.refl _) fun _ => rfl }

/-! ## The policy of an agent -/

/-- `isExecSecurity(value) ? value : undefined`, for a value as it stands. -/
def PolicyField.security? : PolicyField → Option ExecSecurity
  | .text value => execSecurity? value
  | _ => none

def PolicyField.ask? : PolicyField → Option ExecAsk
  | .text value => execAsk? value
  | _ => none

/-- `value != null`. -/
def PolicyField.isSet : PolicyField → Bool
  | .unset => false
  | _ => true

structure ResolvedExecPolicyField (Value : Type) where
  value : Value
  source : Option Str
deriving DecidableEq

section Fields

variable {Value : Type} (word? : PolicyField → Option Value) (field : Str)

/-- `resolveDefaultSecurityField` and `resolveDefaultAskField`. -/
def resolveDefaultField (defaultValue : PolicyField) (fallback : Value) :
    ResolvedExecPolicyField Value :=
  match word? defaultValue with
  | some value => ⟨value, some ("defaults.".toList ++ field)⟩
  | none => ⟨fallback, none⟩

/-- The values of one field on every level. -/
structure PolicyLevels where
  defaults : PolicyField
  agent : PolicyField
  rawAgent : PolicyField
  wildcard : PolicyField
  rawWildcard : PolicyField

/-- `resolveAgentSecurityField` and `resolveAgentAskField`. -/
def resolveAgentField (levels : PolicyLevels) (agentKey : Str) (fallback : Value) :
    ResolvedExecPolicyField Value :=
  let fallbackField := resolveDefaultField word? field levels.defaults fallback
  if levels.rawAgent.isSet then
    match word? levels.agent with
    | some value => ⟨value, some ("agents.".toList ++ agentKey ++ '.' :: field)⟩
    | none => fallbackField
  else if levels.rawWildcard.isSet then
    match word? levels.wildcard with
    | some value => ⟨value, some ("agents.*.".toList ++ field)⟩
    | none => fallbackField
  else fallbackField

end Fields

structure ExecApprovalsOverrides where
  security : Option ExecSecurity
  ask : Option ExecAsk
  askFallback : Option ExecSecurity
  autoAllowSkills : Option Bool
deriving DecidableEq

structure ResolvedExecDefaults where
  security : ExecSecurity
  ask : ExecAsk
  askFallback : ExecSecurity
  autoAllowSkills : Bool
deriving DecidableEq

structure ExecPolicySources where
  security : Option Str
  ask : Option Str
  askFallback : Option Str
deriving DecidableEq

structure ExecApprovalsResolved where
  defaults : ResolvedExecDefaults
  agent : ResolvedExecDefaults
  agentSources : ExecPolicySources
  allowlist : List AllowlistItem
  file : ExecApprovalsFile

def wildcardAgentId : Str := "*"

/-- `resolvedDefaults`. -/
def resolveDefaults (defaults : ExecApprovalsDefaults) (overrides : ExecApprovalsOverrides) :
    ResolvedExecDefaults :=
  { security := defaults.security.security?.getD (overrides.security.getD .full)
    ask := defaults.ask.ask?.getD (overrides.ask.getD .off)
    askFallback := defaults.askFallback.security?.getD (overrides.askFallback.getD .full)
    autoAllowSkills := defaults.autoAllowSkills.getD (overrides.autoAllowSkills.getD false) }

/-- The levels of a field in a file and in the file it was normalized from. -/
def policyLevels (rawFile file : ExecApprovalsFile) (agentKey : Str)
    (ofDefaults : ExecApprovalsDefaults → PolicyField) (ofAgent : ExecApprovalsAgent → PolicyField) :
    PolicyLevels :=
  { defaults := ofDefaults file.defaults
    agent := ofAgent (file.agent agentKey)
    rawAgent := ofAgent (rawFile.agent agentKey)
    wildcard := ofAgent (file.agent wildcardAgentId)
    rawWildcard := ofAgent (rawFile.agent wildcardAgentId) }

def resolveExecApprovalsFromFile (freshId : Str → ℕ → Str)
    (rawFile : ExecApprovalsFile) (agentId : Option Str) (overrides : ExecApprovalsOverrides) :
    ExecApprovalsResolved :=
  let file := normalizeExecApprovals host freshId rawFile
  let agentKey := agentId.getD defaultAgentId
  let agent := file.agent agentKey
  let wildcard := file.agent wildcardAgentId
  let defaults := resolveDefaults file.defaults overrides
  let security := resolveAgentField PolicyField.security? "security"
    (policyLevels rawFile file agentKey (·.security) (·.security)) agentKey defaults.security
  let ask := resolveAgentField PolicyField.ask? "ask"
    (policyLevels rawFile file agentKey (·.ask) (·.ask)) agentKey defaults.ask
  let askFallback := resolveAgentField PolicyField.security? "askFallback"
    (policyLevels rawFile file agentKey (·.askFallback) (·.askFallback)) agentKey
    defaults.askFallback
  { defaults
    agent :=
      { security := security.value
        ask := ask.value
        askFallback := askFallback.value
        autoAllowSkills :=
          (agent.autoAllowSkills.or wildcard.autoAllowSkills).getD defaults.autoAllowSkills }
    agentSources := ⟨security.source, ask.source, askFallback.source⟩
    allowlist := wildcard.items ++ agent.items
    file }

end OpenClaw
