import OpenClaw.Exec.SystemRunCommand
import Mathlib.Data.Char
import Mathlib.Data.List.Lex
import Mathlib.Data.List.Sort

/-!
# What an approval is bound to

`system-run-approval-binding.ts` and `system-run-approval-context.ts`: the plan and the
binding stored with an approval request, and the comparison of a later request with them.

`GatewayHost` adds to the host what these functions call: the comparison
`String.prototype.localeCompare` and the SHA-256 digest of the environment entries.
-/

namespace OpenClaw

structure GatewayHost extends Host where
  /-- `a.localeCompare(b) <= 0`. -/
  localeLe : Str → Str → Bool
  /-- The hex digest of the serialized entries. -/
  sha256 : List (Str × Str) → Str

/-! ## Stored requests -/

structure SystemRunApprovalBinding where
  argv : List Str
  cwd : Option Str
  agentId : Option Str
  sessionKey : Option Str
  envHash : Option Str
deriving DecidableEq

structure SystemRunApprovalFileOperand where
  argvIndex : ℤ
  path : Str
  sha256 : Str
deriving DecidableEq

/-- `mutableFileOperand` may be missing, `null` or an operand. -/
structure SystemRunApprovalPlan where
  argv : List Str
  cwd : Option Str
  commandText : Str
  commandPreview : Option Str
  agentId : Option Str
  sessionKey : Option Str
  mutableFileOperand : Option (Option SystemRunApprovalFileOperand)
deriving DecidableEq

/-- The fields of the request payload that the checks of a later request read. -/
structure ExecApprovalRequestPayload where
  systemRunBinding : Option SystemRunApprovalBinding
  systemRunPlan : Option SystemRunApprovalPlan
  nodeId : Option Str
  host : Option Str
  agentId : Option Str
  sessionKey : Option Str
  turnSourceChannel : Option Str
  turnSourceTo : Option Str
  turnSourceAccountId : Option Str
  /-- A string or a number. -/
  turnSourceThreadId : Option Json

/-! ## Plans -/

variable (operand : SystemRunApprovalFileOperand)

/-- `normalizeSystemRunApprovalFileOperand` on a stored operand. -/
def normalizeSystemRunApprovalFileOperand : Option SystemRunApprovalFileOperand := do
  guard (0 ≤ operand.argvIndex)
  let path ← normalizeNonEmptyString (some operand.path)
  let sha256 ← normalizeNonEmptyString (some operand.sha256)
  return ⟨operand.argvIndex, path, sha256⟩

/-- `normalizeSystemRunApprovalPlan` on a stored plan. -/
def normalizeSystemRunApprovalPlan (plan : SystemRunApprovalPlan) :
    Option SystemRunApprovalPlan := do
  guard (plan.argv ≠ [])
  let mutableFileOperand ← match plan.mutableFileOperand with
    | none => some none
    | some none => none
    | some (some operand) =>
      (normalizeSystemRunApprovalFileOperand operand).map fun operand => some (some operand)
  let commandText ← normalizeNonEmptyString (some plan.commandText)
  return {
    argv := plan.argv
    cwd := normalizeNonEmptyString plan.cwd
    commandText
    commandPreview := normalizeNonEmptyString plan.commandPreview
    agentId := normalizeNonEmptyString plan.agentId
    sessionKey := normalizeNonEmptyString plan.sessionKey
    mutableFileOperand }

def SystemRunApprovalFileOperand.toJson : Json :=
  .object [("argvIndex", .number (toString operand.argvIndex).toList),
    ("path", .string operand.path), ("sha256", .string operand.sha256)]

def SystemRunApprovalPlan.toJson (plan : SystemRunApprovalPlan) : Json :=
  let fields : List (Str × Json) := [("argv", .ofStrings plan.argv),
    ("cwd", .ofNullable plan.cwd), ("commandText", .string plan.commandText),
    ("commandPreview", .ofNullable plan.commandPreview),
    ("agentId", .ofNullable plan.agentId), ("sessionKey", .ofNullable plan.sessionKey)]
  match plan.mutableFileOperand with
  | none => .object fields
  | some none => .object (Json.insert fields "mutableFileOperand" .null)
  | some (some operand) => .object (Json.insert fields "mutableFileOperand" operand.toJson)

/-! ## Environment bindings -/

/-- `/^[A-Za-z_][A-Za-z0-9_()]*$/`, which covers the portable names too. -/
def isOverrideEnvVarKey : Str → Bool
  | [] => false
  | c :: rest => (c.isAlpha || c == '_') &&
    rest.all fun k => k.isAlphanum || k == '_' || k == '(' || k == ')'

def normalizeHostOverrideEnvVarKey (rawKey : Str) : Option Str :=
  if isOverrideEnvVarKey (trim rawKey) then some (trim rawKey) else none

variable (host : GatewayHost) (env : Option Json)

def normalizeSystemRunEnvEntries : List (Str × Str) :=
  let entries := (env.bind Json.entries?).getD []
  let normalized := entries.filterMap fun
    | (rawKey, .string value) => (normalizeHostOverrideEnvVarKey rawKey).map (·, value)
    | _ => none
  normalized.mergeSort fun a b => host.localeLe a.1 b.1

/-- `buildSystemRunApprovalEnvBinding`: the hash and the keys. -/
def buildSystemRunApprovalEnvBinding : Option Str × List Str :=
  let entries := normalizeSystemRunEnvEntries host env
  (if entries = [] then none else some (host.sha256 entries), entries.map (·.1))

/-! ## Matching -/

/-- A mismatch between a request and its approval. -/
structure SystemRunApprovalMismatch where
  code : Str
  message : Str
  details : List (Str × Json)

def requestMismatch (details : List (Str × Json)) : SystemRunApprovalMismatch :=
  ⟨"APPROVAL_REQUEST_MISMATCH", "approval id does not match request", details⟩

def envKeysDetail (envKeys : List Str) : Str × Json := ("envKeys", .ofStrings envKeys)

/-- `matchSystemRunApprovalEnvHash`; an empty hash counts as missing. -/
def matchSystemRunApprovalEnvHash (expectedEnvHash actualEnvHash : Option Str)
    (actualEnvKeys : List Str) : Except SystemRunApprovalMismatch Unit :=
  let missing (hash : Option Str) : Bool := hash = none ∨ hash = some []
  let bindingMissing : SystemRunApprovalMismatch := ⟨"APPROVAL_ENV_BINDING_MISSING",
    "approval id missing env binding for requested env overrides", [envKeysDetail actualEnvKeys]⟩
  if missing expectedEnvHash ∧ missing actualEnvHash then
    if actualEnvKeys ≠ [] then .error bindingMissing else .ok ()
  else if missing expectedEnvHash then .error bindingMissing
  else if expectedEnvHash ≠ actualEnvHash then
    .error ⟨"APPROVAL_ENV_MISMATCH", "approval id env binding mismatch",
      [envKeysDetail actualEnvKeys, ("expectedEnvHash", .ofNullable expectedEnvHash),
        ("actualEnvHash", .ofNullable actualEnvHash)]⟩
  else .ok ()

def matchSystemRunApprovalBinding (expected actual : SystemRunApprovalBinding)
    (actualEnvKeys : List Str) : Except SystemRunApprovalMismatch Unit :=
  if expected.argv = [] ∨ expected.argv ≠ actual.argv then .error (requestMismatch [])
  else if expected.cwd ≠ actual.cwd then .error (requestMismatch [])
  else if expected.agentId ≠ actual.agentId then .error (requestMismatch [])
  else if expected.sessionKey ≠ actual.sessionKey then .error (requestMismatch [])
  else matchSystemRunApprovalEnvHash expected.envHash actual.envHash actualEnvKeys

/-- `toSystemRunApprovalMismatchError`. -/
def SystemRunApprovalMismatch.toError (m : SystemRunApprovalMismatch) (runId : Str) :
    RequestError :=
  ⟨m.message, [errorCode m.code, ("runId", .string runId)] ++ m.details⟩

/-! ## The context of a request -/

structure SystemRunApprovalRuntimeContext where
  plan : Option SystemRunApprovalPlan
  argv : List Str
  cwd : Option Str
  agentId : Option Str
  sessionKey : Option Str
  commandText : Str
deriving DecidableEq

/-- `resolveSystemRunApprovalRuntimeContext`; the request's own fields are looked up in its
parameters `p`. -/
def resolveSystemRunApprovalRuntimeContext (host : Host) (plan : Option SystemRunApprovalPlan)
    (p : List (Str × Json)) : Except RequestError SystemRunApprovalRuntimeContext :=
  match plan.bind normalizeSystemRunApprovalPlan with
  | some plan => .ok ⟨some plan, plan.argv, plan.cwd, plan.agentId, plan.sessionKey,
      plan.commandText⟩
  | none =>
    (resolveSystemRunCommandRequest host (Json.lookup p "command")
      (Json.lookup p "rawCommand")).map fun command =>
      ⟨none, command.argv, normalizeNullableString (Json.lookup p "cwd"),
        normalizeNullableString (Json.lookup p "agentId"),
        normalizeNullableString (Json.lookup p "sessionKey"), command.display.commandText⟩

/-- `evaluateSystemRunApprovalMatch`. -/
def evaluateSystemRunApprovalMatch (context : SystemRunApprovalRuntimeContext)
    (request : ExecApprovalRequestPayload) (env : Option Json) :
    Except SystemRunApprovalMismatch Unit :=
  if request.host ≠ some "node" then .error (requestMismatch [])
  else
    let (envHash, envKeys) := buildSystemRunApprovalEnvBinding host env
    let actual : SystemRunApprovalBinding :=
      ⟨context.argv, normalizeNonEmptyString context.cwd, normalizeNonEmptyString context.agentId,
        normalizeNonEmptyString context.sessionKey, envHash⟩
    match request.systemRunBinding with
    | none => .error (requestMismatch [envKeysDetail envKeys])
    | some expected => matchSystemRunApprovalBinding expected actual envKeys

end OpenClaw
