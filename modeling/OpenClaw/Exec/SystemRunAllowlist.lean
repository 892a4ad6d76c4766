import OpenClaw.Exec.AllowlistSegments

/-!
# `system.run` without a shell payload

`analyzeArgvCommand`, `invoke-system-run-allowlist.ts` and `exec-policy.ts` on a POSIX node host,
for a request that is no shell command: its words are analysed, compared with the allowlist, and
run as the plan of the analysis has them.
-/

namespace OpenClaw

variable (host : AllowlistHost)

/-- `entry.trim().length > 0`. -/
def isWord (entry : Str) : Bool := trim entry ≠ []

/-- The segment of `analyzeArgvCommand`, with `none` for an analysis that is not `ok`. -/
def analyzeArgvCommand (argv : List Str) : Option ExecCommandSegment :=
  let words := argv.filter isWord
  if words = [] then none
  else
    some { raw := joinWith " " words
           argv := words
           sourceArgv := some argv
           resolution := resolveCommandResolutionFromArgv host.toExecHost words }

structure SystemRunAllowlistAnalysis where
  analysisOk : Bool
  allowlistMatches : List ExecAllowlistEntry
  allowlistSatisfied : Bool
  segments : List ExecCommandSegment
  segmentAllowlistEntries : List (Option ExecAllowlistEntry)
  segmentSatisfiedBy : List (Option ExecSegmentSatisfiedBy)

/-- `evaluateSystemRunAllowlist` without a shell command. -/
def evaluateSystemRunAllowlist (context : ExecAllowlistContext) (security : ExecSecurity)
    (argv : List Str) : SystemRunAllowlistAnalysis :=
  let analysis := analyzeArgvCommand host argv
  let evaluation := evaluateExecAllowlist host context analysis.toList
  { analysisOk := analysis.isSome
    allowlistMatches := evaluation.found
    allowlistSatisfied :=
      if security = .allowlist ∧ analysis.isSome then evaluation.satisfied else false
    segments := analysis.toList
    segmentAllowlistEntries := evaluation.segmentAllowlistEntries
    segmentSatisfiedBy := evaluation.segmentSatisfiedBy }

/-! ## The policy -/

/-- The decisions a node host takes from a request. -/
inductive NodeApprovalDecision where
  | allowOnce | allowAlways
deriving DecidableEq

structure SystemRunRefusal where
  eventReason : Str
  errorMessage : Str
deriving DecidableEq

structure SystemRunPolicyDecision where
  /-- `none` where the run is allowed. -/
  refusal : Option SystemRunRefusal
  analysisOk : Bool
  allowlistSatisfied : Bool
  requiresAsk : Bool
  approvedByAsk : Bool
deriving DecidableEq

def requiresExecApproval (ask : ExecAsk) (security : ExecSecurity)
    (analysisOk allowlistSatisfied durableApprovalSatisfied : Bool) : Bool :=
  if ask = .always then true
  else if durableApprovalSatisfied then false
  else ask = .onMiss && security = .allowlist && (!analysisOk || !allowlistSatisfied)

structure SystemRunPolicyParams where
  security : ExecSecurity
  ask : ExecAsk
  analysisOk : Bool
  allowlistSatisfied : Bool
  durableApprovalSatisfied : Bool
  approvalDecision : Option NodeApprovalDecision
  approved : Bool

/-- `evaluateSystemRunPolicy`, where no Windows shell wrapper is blocked. -/
def evaluateSystemRunPolicy (params : SystemRunPolicyParams) : SystemRunPolicyDecision :=
  let approvedByAsk := params.approvalDecision.isSome || params.approved
  let decision (refusal : Option SystemRunRefusal) (requiresAsk : Bool) :
      SystemRunPolicyDecision :=
    { refusal, analysisOk := params.analysisOk, allowlistSatisfied := params.allowlistSatisfied,
      requiresAsk, approvedByAsk }
  if params.security = .deny then
    decision (some ⟨"security=deny", "SYSTEM_RUN_DISABLED: security=deny"⟩) false
  else
    let requiresAsk := requiresExecApproval params.ask params.security params.analysisOk
      params.allowlistSatisfied params.durableApprovalSatisfied
    if requiresAsk && !approvedByAsk then
      decision (some ⟨"approval-required", "SYSTEM_RUN_DENIED: approval required"⟩) requiresAsk
    else if params.security = .allowlist && (!params.analysisOk || !params.allowlistSatisfied) &&
        !approvedByAsk then
      if params.durableApprovalSatisfied then decision none requiresAsk
      else decision (some ⟨"allowlist-miss", "SYSTEM_RUN_DENIED: allowlist miss"⟩) requiresAsk
    else decision none requiresAsk

/-! ## The plan -/

/-- `resolvePlannedAllowlistArgv` without a shell command: `none` for `undefined`, and `some none`
for `null`. -/
def resolvePlannedAllowlistArgv (security : ExecSecurity) (policy : SystemRunPolicyDecision)
    (segments : List ExecCommandSegment) : Option (Option (List Str)) :=
  if security ≠ .allowlist ∨ policy.approvedByAsk ∨ !policy.analysisOk ∨
      !policy.allowlistSatisfied then none
  else
    match segments with
    | [segment] => some ((resolvePlannedSegmentArgv segment).filter (· ≠ []))
    | _ => none

/-- `resolveSystemRunExecArgv` without a shell command. -/
def resolveSystemRunExecArgv (plannedAllowlistArgv : Option (List Str)) (argv : List Str) :
    List Str := plannedAllowlistArgv.getD argv

/-- What a request brings with it beside its words. -/
structure SystemRunRequest where
  context : ExecAllowlistContext
  security : ExecSecurity
  ask : ExecAsk
  durableApprovalSatisfied : Bool
  approvalDecision : Option NodeApprovalDecision
  approved : Bool

variable (request : SystemRunRequest)

def SystemRunRequest.analysis (argv : List Str) : SystemRunAllowlistAnalysis :=
  evaluateSystemRunAllowlist host request.context request.security argv

def SystemRunRequest.policy (argv : List Str) : SystemRunPolicyDecision :=
  evaluateSystemRunPolicy
    { security := request.security
      ask := request.ask
      analysisOk := (request.analysis host argv).analysisOk
      allowlistSatisfied := (request.analysis host argv).allowlistSatisfied
      durableApprovalSatisfied := request.durableApprovalSatisfied
      approvalDecision := request.approvalDecision
      approved := request.approved }

/-- The words that are run, or the refusal. -/
def SystemRunRequest.run (argv : List Str) : Except SystemRunRefusal (List Str) :=
  let policy := request.policy host argv
  match policy.refusal with
  | some refusal => .error refusal
  | none =>
    match resolvePlannedAllowlistArgv request.security policy (request.analysis host argv).segments with
    | some none =>
      .error ⟨"execution-plan-miss", "SYSTEM_RUN_DENIED: execution plan mismatch"⟩
    | some (some planned) => .ok (resolveSystemRunExecArgv (some planned) argv)
    | none => .ok (resolveSystemRunExecArgv none argv)

/-- The run is allowed by the allowlist, and nobody was asked. -/
structure SystemRunRequest.AllowedByAllowlist (request : SystemRunRequest) (argv : List Str) :
    Prop where
  security : request.security = .allowlist
  allowed : (request.policy host argv).refusal = none
  notAsked : (request.policy host argv).approvedByAsk = false
  satisfied : (request.analysis host argv).allowlistSatisfied = true

end OpenClaw
