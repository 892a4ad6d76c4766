import OpenClaw.Exec.AllowlistMatch

/-!
# Segments and the allowlist

`evaluateExecAllowlist` of `exec-approvals-allowlist.ts`, on POSIX. A segment is allowed by an
entry for its executable, for the script its shell runs or for the command its shell is handed
with positional arguments; by a safe bin; by a skill; or because every part of its inline command
is allowed.
-/

namespace OpenClaw

variable (host : AllowlistHost)

/-! ## Shells and scripts -/

variable (segment : ExecCommandSegment)

def isShellWrapperSegment : Bool :=
  let execution := segment.resolution.map (·.execution)
  let candidates := [execution.map (·.executableName), execution.map (·.rawExecutable),
    segment.argv.head?].filterMap fun candidate => candidate.bind fun token => nonEmpty? (trim token)
  candidates.any (isShellWrapperExecutable host.toHost)

def isShellSpace (c : Char) : Bool := isSpace c && c ≠ '\r' && c ≠ '\n'

/-- What is left behind the first of the texts that `s` begins with. -/
def stripFirst (texts : List Str) (s : Str) : Option Str :=
  (texts.find? fun text => text.isPrefixOf s).map fun text => s.drop text.length

/-- `[^\S\r\n]+`. -/
def stripShellSpaces (s : Str) : Option Str :=
  if s.head?.any isShellSpace then some (s.dropWhile isShellSpace) else none

/-- The spellings of a shell parameter. -/
def parameterForms (name : Char) : List Str :=
  [['$', name], ['$', '\x7b', name, '\x7d'], ['"', '$', name, '"'],
    ['"', '$', '\x7b', name, '\x7d', '"']]

def positionalArgForms : List Str := ("@*123456789" : Str).flatMap parameterForms

/-- White space and positional arguments up to the end. -/
def isPositionalTail : ℕ → Str → Bool
  | _, [] => true
  | 0, _ :: _ => false
  | rounds + 1, s => ((stripShellSpaces s).bind (stripFirst positionalArgForms)).any
    (isPositionalTail rounds)

/-- The optional `exec` in front of the command. -/
def stripExec (s : Str) : Str :=
  match (stripFirst ["exec"] s).bind stripShellSpaces with
  | none => s
  | some rest => ((stripFirst ["--"] rest).bind stripShellSpaces).getD rest

def isDirectShellPositionalCarrierInvocation (command : Str) : Bool :=
  let trimmed := trim command
  (stripFirst (parameterForms '0') (stripExec trimmed)).any (isPositionalTail trimmed.length)

def shellWrapperOptionsWithValue : List Str := ["-c", "--command", "-o", "-O", "+O"]

def shellWrapperDisqualifyingScriptOptions : List Str :=
  ["--rcfile", "--init-file", "--startup-file"]

variable (token : Str)

def hasDisqualifyingShellWrapperScriptOption : Bool :=
  shellWrapperDisqualifyingScriptOptions.any fun option =>
    token = option || startsWith token (option ++ ['='])

/-- `POWERSHELL_OPTIONS_WITH_VALUE_RE`, without the dash. -/
def powerShellScriptOptionsWithValue : List Str :=
  ["executionpolicy", "ep", "windowstyle", "w", "workingdirectory", "wd", "inputformat",
    "outputformat", "settingsfile", "configurationfile", "version", "v", "psconsolefile", "pscf",
    "encodedcommand", "en", "enc", "encodedarguments", "ea"]

def isPowerShellScriptOptionWithValue : Bool :=
  token.head? = some '-' && token.tail.map Char.toLower ∈ powerShellScriptOptionsWithValue

/-- `/^-[^-]*c[^-]*$/i` for the letter `c`. -/
def isShortClusterWith (letter : Char) (token : Str) : Bool :=
  match token with
  | '-' :: cluster => '-' ∉ cluster && cluster.any fun c => c.toLower = letter
  | _ => false

/-- The loop over the options of a shell: the words from the script on. -/
def shellScriptLoop (isPowerShell : Bool) : ℕ → List Str → Option (List Str)
  | _, [] => some []
  | skip + 1, _ :: rest => shellScriptLoop isPowerShell skip rest
  | 0, arg :: rest =>
    let token := trim arg
    if token = [] then shellScriptLoop isPowerShell 0 rest
    else if token = ("--" : Str) then some rest
    else if token = ("-c" : Str) ∨ token = ("--command" : Str) then none
    else if !isPowerShell ∧ isShortClusterWith 'c' token then none
    else if token = ("-s" : Str) ∨ (!isPowerShell ∧ isShortClusterWith 's' token) then none
    else if hasDisqualifyingShellWrapperScriptOption token then none
    else if token ∈ shellWrapperOptionsWithValue then shellScriptLoop isPowerShell 1 rest
    else if isPowerShell ∧ isPowerShellScriptOptionWithValue token then
      shellScriptLoop isPowerShell 1 rest
    else if startsWith token "-" ∨ startsWith token "+" then shellScriptLoop isPowerShell 0 rest
    else some (arg :: rest)

/-- A path of a script, from the working directory of the request. -/
def resolveScriptPath (base : Str) (scriptToken : Str) : Str :=
  if startsWith scriptToken "/" then scriptToken
  else
    let expanded :=
      if startsWith scriptToken "~" then host.expandHomePrefix scriptToken else scriptToken
    host.resolvePath base expanded

variable (cwd : Option Str)

/-- `cwd && cwd.trim().length > 0 ? cwd : process.cwd()`. -/
def scriptBase : Str :=
  match cwd with
  | some cwd => if trim cwd = [] then host.processCwd else cwd
  | none => host.processCwd

def resolveShellWrapperScriptCandidatePath : Option Str :=
  if !isShellWrapperSegment host segment ∨ segment.argv.length < 2 then none
  else
    let wrapperName := normalizeExecutableToken host.toHost (segment.argv.headD [])
    match shellScriptLoop (wrapperName ∈ powerShellWrapperNames) 0 segment.argv.tail with
    | none => none
    | some words =>
      let scriptToken := trim (words.headD [])
      if scriptToken = [] then none
      else some (resolveScriptPath host (scriptBase host cwd) scriptToken)

def resolveShellWrapperScriptArgv (shellScriptCandidatePath : Str) (effectiveArgv : List Str)
    (cwd : Option Str) : List Str :=
  let cwdBase := (cwd.bind fun cwd => nonEmpty? (trim cwd)).getD host.processCwd
  let resolveArgPath (a : Str) : Str :=
    if startsWith a "/" then a else host.resolvePath cwdBase a
  let lowerBase (a : Str) : Str :=
    normalizeLowercaseStringOrEmpty host.toHost (posixBasename a)
  let idx := (effectiveArgv.findIdx? fun a => resolveArgPath a = shellScriptCandidatePath).orElse
    fun _ => effectiveArgv.findIdx? fun a => lowerBase a = lowerBase shellScriptCandidatePath
  match idx with
  | none => [shellScriptCandidatePath]
  | some idx => shellScriptCandidatePath :: effectiveArgv.drop (idx + 1)

def resolveSegmentSourceArgv : List Str :=
  match segment.sourceArgv with
  | none | some [] => segment.argv
  | some (first :: rest) =>
    let segmentExecutable := normalizeExecutableToken host.toHost (segment.argv.headD [])
    if segmentExecutable = [] then segment.argv
    else if normalizeExecutableToken host.toHost first = segmentExecutable then first :: rest
    else
      let unwrapped := unwrapDispatchWrappersForResolution host.toHost (first :: rest)
      if normalizeExecutableToken host.toHost (unwrapped.headD []) = segmentExecutable then unwrapped
      else segment.argv

def isPowerShellInlineFileCommandFlag : Bool :=
  normalizeLowercaseStringOrEmpty host.toHost token ∈ powerShellInlineFileFlags

def resolvePowerShellFileScriptArgv : Option (List Str) :=
  let argv := resolveSegmentSourceArgv host segment
  if argv.length < 3 then none
  else if normalizeExecutableToken host.toHost (argv.headD []) ∉ powerShellWrapperNames then none
  else
    match resolvePowerShellInlineCommandMatch host.toHost argv with
    | ⟨some _, some valueTokenIndex⟩ =>
      if !isPowerShellInlineFileCommandFlag host (argv.getD (valueTokenIndex - 1) []) then none
      else
        let scriptToken := trim (argv.getD valueTokenIndex [])
        if scriptToken = [] then none
        else
          -- a path that `~` stands for is absolute before it is resolved
          let expanded :=
            if startsWith scriptToken "~" then host.expandHomePrefix scriptToken else scriptToken
          let scriptPath :=
            if startsWith expanded "/" then expanded
            else host.resolvePath (scriptBase host cwd) expanded
          some (scriptPath :: argv.drop (valueTokenIndex + 1))
    | _ => none

/-! ## Candidates -/

/-- `resolveExecutablePathCandidate` with `requirePathSeparator`. -/
def resolvePathCandidate (raw : Str) (cwd : Option Str) : Option Str :=
  let expanded := if startsWith raw "~" then host.expandHomePrefix raw else raw
  if '/' ∉ expanded ∧ '\\' ∉ expanded then none
  else if startsWith expanded "/" then some expanded
  else
    some (host.resolvePath ((cwd.bind fun cwd => nonEmpty? (trim cwd)).getD host.processCwd) expanded)

def resolveExecutableCandidatePathFromResolution (resolution : Option ExecutableResolution)
    (cwd : Option Str) : Option Str :=
  match resolution with
  | none => none
  | some resolution =>
    (resolution.resolvedPath.bind nonEmpty?).orElse fun _ =>
      (nonEmpty? (trim resolution.rawExecutable)).bind fun raw => resolvePathCandidate host raw cwd

def resolveShellWrapperPositionalArgvCandidatePath : Option Str :=
  if !isShellWrapperSegment host segment ∨ segment.argv.length < 4 then none
  else if normalizeExecutableToken host.toHost (segment.argv.headD []) ∉ posixShellWrapperNames then
    none
  else
    match resolveInlineCommandMatch host.toHost segment.argv posixInlineCommandFlags
        { allowCombinedC := true, isOptionToken := isOptionLike, restValueFlags := [],
          stopAtFirstNonOption := false, valueOptions := [] } with
    | ⟨some command, some valueTokenIndex⟩ =>
      if !isDirectShellPositionalCarrierInvocation command then none
      else
        match ((segment.argv.drop (valueTokenIndex + 1)).map trim).find? (· ≠ []) with
        | none => none
        | some carriedExecutable =>
          let carriedName := normalizeExecutableToken host.toHost carriedExecutable
          if isDispatchWrapperExecutable host.toHost carriedName ||
              isShellWrapperExecutable host.toHost carriedName then none
          else
            let resolution := resolveCommandResolutionFromArgv host.toExecHost [carriedExecutable]
            resolveExecutableCandidatePathFromResolution host (resolution.map (·.execution)) cwd
    | _ => none

/-! ## One segment -/

/-- `executableResolutionsReferToSameTarget`. -/
def referToSameTarget (left right : Option ExecutableResolution) : Bool :=
  match left, right with
  | some left, some right =>
    left.rawExecutable = right.rawExecutable && left.resolvedPath = right.resolvedPath &&
      left.executableName = right.executableName
  | _, _ => false

structure ExecutableMatchParams where
  candidateResolution : Option ExecutableResolution
  effectiveArgv : List Str
  inlineCommand : Option Str
  isShellWrapperInvocation : Bool
  isPositionalCarrierInvocation : Bool
  allowlistTargetIsExecutionTarget : Bool

def matchExecutableAllowlistForSegment (allowlist : List ExecAllowlistEntry)
    (params : ExecutableMatchParams) : Option ExecAllowlistEntry :=
  if params.isPositionalCarrierInvocation then none
  else
    let found := matchAllowlist host allowlist params.candidateResolution (some params.effectiveArgv)
    let hasBoundArgPattern := found.any fun entry => (entry.argPattern.map trim).any (· ≠ [])
    let isBareWildcardMatch :=
      (found.any fun entry => trim entry.pattern = ("*" : Str)) && !hasBoundArgPattern
    let requiresBoundArgPattern := params.allowlistTargetIsExecutionTarget &&
      (params.inlineCommand.isSome ||
        (params.isShellWrapperInvocation && 1 < params.effectiveArgv.length))
    if requiresBoundArgPattern && !hasBoundArgPattern && !isBareWildcardMatch then none else found

/-- The resolution of a script or carried command by its path. -/
def pathResolution (path : Str) : ExecutableResolution :=
  { rawExecutable := path, resolvedPath := some path, resolvedRealPath := none,
    executableName := posixBasename path }

/-- The words of a segment behind its wrappers. -/
def effectiveArgvOf : List Str :=
  ((segment.resolution.bind (·.effectiveArgv)).filter (· ≠ [])).getD segment.argv

structure SegmentMatchEvaluation where
  effectiveArgv : List Str
  inlineCommand : Option Str
  found : Option ExecAllowlistEntry

variable (context : ExecAllowlistContext)

/-- The entry for the executable of a segment. -/
def resolveExecutableMatch (segment : ExecCommandSegment)
    (inlineCommand : Option Str) : Option ExecAllowlistEntry :=
  let effectiveArgv := effectiveArgvOf segment
  let executableResolution := segment.resolution.map (·.policy)
  let candidatePath :=
    resolveExecutableCandidatePathFromResolution host executableResolution context.cwd
  matchExecutableAllowlistForSegment host context.allowlist
    { candidateResolution := match candidatePath.bind nonEmpty? with
        | some path => executableResolution.map fun resolution =>
          { resolution with resolvedPath := some path }
        | none => executableResolution
      effectiveArgv
      inlineCommand
      isShellWrapperInvocation := isShellWrapperSegment host { segment with argv := effectiveArgv }
      isPositionalCarrierInvocation := inlineCommand.any isDirectShellPositionalCarrierInvocation
      allowlistTargetIsExecutionTarget :=
        referToSameTarget executableResolution (segment.resolution.map (·.execution)) }

/-- The arguments of a script, from its path on. -/
def resolveScriptArgv (segment : ExecCommandSegment)
    (inlineCommand : Option Str) : Option (List Str) :=
  let effectiveArgv := effectiveArgvOf segment
  let allowlistSegment := { segment with argv := effectiveArgv }
  (resolvePowerShellFileScriptArgv host allowlistSegment context.cwd).orElse fun _ =>
    if inlineCommand.isSome then none
    else
      ((resolveShellWrapperScriptCandidatePath host allowlistSegment context.cwd).bind
        nonEmpty?).map fun path =>
          resolveShellWrapperScriptArgv host path effectiveArgv context.cwd

def resolveSegmentAllowlistMatch (segment : ExecCommandSegment) : SegmentMatchEvaluation :=
  let effectiveArgv := effectiveArgvOf segment
  let allowlistSegment := { segment with argv := effectiveArgv }
  let inlineCommand := extractBindableShellWrapperInlineCommand host.toHost effectiveArgv none
  let executableMatch := resolveExecutableMatch host context segment inlineCommand
  let shellPositionalArgvMatch :=
    if inlineCommand.isNone then none
    else
      ((resolveShellWrapperPositionalArgvCandidatePath host allowlistSegment context.cwd).bind
        nonEmpty?).bind fun path =>
          matchAllowlist host context.allowlist (some (pathResolution path)) none
  let shellScriptMatch :=
    match resolveScriptArgv host context segment inlineCommand with
    | some (path :: scriptArgs) =>
      if path = [] then none
      else
        matchAllowlist host context.allowlist (some (pathResolution path)) (some (path :: scriptArgs))
    | _ => none
  { effectiveArgv
    inlineCommand :=
      if (resolvePowerShellFileScriptArgv host allowlistSegment context.cwd).isSome then none
      else inlineCommand
    found := (executableMatch.orElse fun _ => shellPositionalArgvMatch).orElse fun _ =>
      shellScriptMatch }

inductive ExecSegmentSatisfiedBy where
  | allowlist | safeBins | inlineChain | skills
deriving DecidableEq

def resolveSegmentSatisfaction (segment : ExecCommandSegment)
    (found : Option ExecAllowlistEntry) (effectiveArgv : List Str) (allowSkills : Bool)
    (skillBinTrust : List (Str × Str)) : Option ExecSegmentSatisfiedBy :=
  if found.isSome then some .allowlist
  else if isSafeBinUsage host context effectiveArgv (segment.resolution.map (·.execution)) then
    some .safeBins
  else if isSkillAutoAllowedSegment host segment allowSkills skillBinTrust then some .skills
  else none

/-! ## All segments -/

structure InlineChainAllowlistEvaluation where
  found : List ExecAllowlistEntry
  satisfiedBy : ExecSegmentSatisfiedBy

structure SegmentsEvaluation where
  satisfied : Bool
  found : List ExecAllowlistEntry
  segmentAllowlistEntries : List (Option ExecAllowlistEntry)
  segmentSatisfiedBy : List (Option ExecSegmentSatisfiedBy)

def hasShellLineContinuation : Str → Bool
  | '\\' :: c :: rest => c = '\n' || c = '\r' || hasShellLineContinuation (c :: rest)
  | _ :: rest => hasShellLineContinuation rest
  | [] => false

/-- The `every` of `evaluateSegments`, where `fallback` evaluates an inline command. -/
def evaluateSegmentsLoop (context : ExecAllowlistContext)
    (fallback : Str → Option InlineChainAllowlistEvaluation) :
    List ExecCommandSegment → SegmentsEvaluation → SegmentsEvaluation
  | [], evaluation => { evaluation with satisfied := true }
  | segment :: segments, evaluation =>
    if segment.resolution.bind (·.policyBlocked) = some true then
      { evaluation with
        satisfied := false
        segmentAllowlistEntries := evaluation.segmentAllowlistEntries ++ [none]
        segmentSatisfiedBy := evaluation.segmentSatisfiedBy ++ [none] }
    else
      let evaluated := resolveSegmentAllowlistMatch host context segment
      let skillBinTrust := buildSkillBinTrustIndex host context.skillBins
      let allowSkills := context.autoAllowSkills && skillBinTrust ≠ []
      let satisfiedBy := resolveSegmentSatisfaction host context segment evaluated.found
        evaluated.effectiveArgv allowSkills skillBinTrust
      let evaluation := { evaluation with
        found := evaluation.found ++ evaluated.found.toList
        segmentAllowlistEntries := evaluation.segmentAllowlistEntries ++ [evaluated.found] }
      match if satisfiedBy.isSome then none else (evaluated.inlineCommand.bind nonEmpty?).bind fallback with
      | some inlineResult =>
        evaluateSegmentsLoop context fallback segments { evaluation with
          found := evaluation.found ++ inlineResult.found
          segmentSatisfiedBy := evaluation.segmentSatisfiedBy ++ [some inlineResult.satisfiedBy] }
      | none =>
        let evaluation := { evaluation with
          segmentSatisfiedBy := evaluation.segmentSatisfiedBy ++ [satisfiedBy] }
        if satisfiedBy.isSome then evaluateSegmentsLoop context fallback segments evaluation
        else { evaluation with satisfied := false }

/-- `evaluateShellWrapperInlineCommands`, where `evaluate` is `evaluateSegments` one level in. -/
def evaluateInlineCommands (evaluate : List ExecCommandSegment → SegmentsEvaluation) :
    List Str → List ExecAllowlistEntry → List (Option ExecSegmentSatisfiedBy) →
      Option InlineChainAllowlistEvaluation
  | [], found, satisfiedBy =>
    let literalized := some ExecSegmentSatisfiedBy.safeBins ∈ satisfiedBy ||
      some ExecSegmentSatisfiedBy.inlineChain ∈ satisfiedBy
    some ⟨found, if literalized then .inlineChain else .allowlist⟩
  | inlineCommand :: rest, found, satisfiedBy =>
    match analyzeShellCommand host.toExecHost inlineCommand with
    | .error _ => none
    | .ok analysis =>
      let result := evaluate analysis.segments
      if !result.satisfied then none
      else
        evaluateInlineCommands evaluate rest (found ++ result.found)
          (satisfiedBy ++ result.segmentSatisfiedBy)

/-- `resolveInlineCommandFallback` for an inline command. -/
def resolveInlineCommandFallback (evaluate : List ExecCommandSegment → SegmentsEvaluation)
    (inlineCommand : Str) : Option InlineChainAllowlistEvaluation :=
  if hasShellLineContinuation inlineCommand then none
  else
    match splitCommandChain inlineCommand with
    | none => none
    | some inlineChainParts =>
      if inlineChainParts.length ≤ 1 then none
      else evaluateInlineCommands host evaluate inlineChainParts [] []

/-- `evaluateSegments`, with the number of levels that inline commands may still go down. -/
def evaluateSegments (context : ExecAllowlistContext) :
    ℕ → List ExecCommandSegment → SegmentsEvaluation
  | 0, segments => evaluateSegmentsLoop host context (fun _ => none) segments ⟨false, [], [], []⟩
  | levels + 1, segments =>
    evaluateSegmentsLoop host context
      (resolveInlineCommandFallback host (evaluateSegments context levels)) segments
      ⟨false, [], [], []⟩

/-- The levels below the first: `MAX_SHELL_WRAPPER_INLINE_EVAL_DEPTH - 1`. -/
def inlineEvalLevels : ℕ := 2

/-- `evaluateExecAllowlist` of an analysis without chains. -/
def evaluateExecAllowlist (segments : List ExecCommandSegment) : SegmentsEvaluation :=
  if segments = [] then ⟨false, [], [], []⟩
  else evaluateSegments host context inlineEvalLevels segments

end OpenClaw
