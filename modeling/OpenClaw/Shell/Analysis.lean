import OpenClaw.Exec.TrustPlan
import OpenClaw.Shell.Pipeline

/-!
# Shell commands and their segments

`analyzeShellCommand` and `buildEnforcedShellCommand` of `exec-approvals-analysis.ts` with
`resolveCommandResolutionFromArgv` of `exec-command-resolution.ts`, on POSIX: a command is
split into segments, each with its words and the executable behind its wrappers, and a text
is built from the segments in which every word is quoted.
-/

namespace OpenClaw

/-! ## Executables -/

/-- What the code finds out about executables, for the working directory and the environment
of a request. -/
structure ExecHost extends Host where
  /-- `resolveExecutablePath`. -/
  resolveExecutablePath : Str → Option Str
  /-- `fs.realpathSync`, with `none` where it throws. -/
  realpath : Str → Option Str

structure ExecutableResolution where
  rawExecutable : Str
  resolvedPath : Option Str
  resolvedRealPath : Option Str
  executableName : Str
deriving DecidableEq

structure CommandResolution where
  execution : ExecutableResolution
  policy : ExecutableResolution
  effectiveArgv : Option (List Str)
  wrapperChain : Option (List Str)
  policyBlocked : Option Bool
  blockedWrapper : Option Str
deriving DecidableEq

variable (host : ExecHost)

def tryResolveRealpath (filePath : Option Str) : Option Str :=
  (filePath.bind nonEmpty?).bind host.realpath

def buildExecutableResolution (rawExecutable : Str) : ExecutableResolution :=
  let resolvedPath := host.resolveExecutablePath rawExecutable
  { rawExecutable
    resolvedPath
    resolvedRealPath := tryResolveRealpath host resolvedPath
    executableName := match resolvedPath.bind nonEmpty? with
      | some path => posixBasename path
      | none => rawExecutable }

/-- `resolveCommandResolutionFromArgv`. -/
def resolveCommandResolutionFromArgv (argv : List Str) : Option CommandResolution :=
  let plan := resolveExecWrapperTrustPlan host.toHost argv
  ((plan.argv.head?.map trim).bind nonEmpty?).map fun rawExecutable =>
    let execution := buildExecutableResolution host rawExecutable
    { execution
      policy := match (plan.policyArgv.head?.map trim).bind nonEmpty? with
        | some policyRawExecutable => buildExecutableResolution host policyRawExecutable
        | none => execution
      effectiveArgv := some plan.argv
      wrapperChain := some plan.wrapperChain
      policyBlocked := some plan.policyBlocked
      blockedWrapper := plan.blockedWrapper }

/-! ## Analysis -/

structure ExecCommandSegment where
  raw : Str
  argv : List Str
  sourceArgv : Option (List Str)
  resolution : Option CommandResolution
deriving DecidableEq

/-- An analysis that is `ok`. -/
structure ExecCommandAnalysis where
  segments : List ExecCommandSegment
  /-- The segments by chain part. -/
  chains : Option (List (List ExecCommandSegment))
deriving DecidableEq

def parseSegment (raw : Str) : Option ExecCommandSegment :=
  ((splitShellArgs raw).filter (· ≠ [])).map fun argv =>
    ⟨raw, argv, none, resolveCommandResolutionFromArgv host argv⟩

def parseSegmentsFromParts (parts : List Str) : Option (List ExecCommandSegment) :=
  parts.mapM (parseSegment host)

variable (command : Str)

/-- The segments of one pipeline. -/
def analyzePipeline : Except Str (List ExecCommandSegment) := do
  let parts ← splitShellPipeline command
  match parseSegmentsFromParts host parts with
  | some segments => return segments
  | none => .error "unable to parse shell segment".toList

/-- `analyzeShellCommand`: the analysis, or the reason why there is none. -/
def analyzeShellCommand : Except Str ExecCommandAnalysis :=
  match splitCommandChain command with
  | some chainParts => do
    let chains ← chainParts.mapM (analyzePipeline host)
    return ⟨chains.flatten, some chains⟩
  | none => do
    let segments ← analyzePipeline host command
    return ⟨segments, none⟩

/-! ## Commands rebuilt -/

/-- `shellEscapeSingleArg`. -/
def shellEscapeSingleArg (value : Str) : Str :=
  '\'' :: value.flatMap (fun c => if c = '\'' then "'\"'\"'".toList else [c]) ++ ['\'']

/-- The rendered segments of a pipeline, the first of which has this index. -/
def renderPipeline (renderSegment : Str → ℕ → Except Str Str) (segmentCount : ℕ) :
    List Str → Except Str (List Str)
  | [] => .ok []
  | segmentRaw :: rest => do
    let rendered ← renderSegment segmentRaw segmentCount
    let others ← renderPipeline renderSegment (segmentCount + 1) rest
    return rendered :: others

/-- The text of an operator between two pipelines. -/
def chainOperatorText : Option ShellChainOperator → Str
  | none => []
  | some op => ' ' :: op.text ++ [' ']

/-- The rebuilt chain, and the number of its segments. -/
def rebuildChain (renderSegment : Str → ℕ → Except Str Str) (segmentCount : ℕ) :
    List ShellChainPart → Except Str (Str × ℕ)
  | [] => .ok ([], segmentCount)
  | part :: parts => do
    let segments ← splitShellPipeline part.part
    let rendered ← renderPipeline renderSegment segmentCount segments
    let (rest, total) ← rebuildChain renderSegment (segmentCount + segments.length) parts
    return (joinWith " | " rendered ++ chainOperatorText part.opToNext ++ rest, total)

/-- The parts of a chain, which may be one pipeline. -/
def chainParts : List ShellChainPart :=
  (splitCommandChainWithOperators command).getD [⟨command, none⟩]

/-- `rebuildShellCommandFromSource`. -/
def rebuildShellCommandFromSource (renderSegment : Str → ℕ → Except Str Str) (command : Str) :
    Except Str (Str × ℕ) :=
  let source := trim command
  if source = [] then .error "empty command"
  else rebuildChain renderSegment 0 (chainParts source)

/-- `finalizeRebuiltShellCommand` with an expected count. -/
def finalizeRebuiltShellCommand (rebuilt : Except Str (Str × ℕ)) (expectedSegmentCount : ℕ) :
    Except Str Str := do
  let (command, segmentCount) ← rebuilt
  if segmentCount ≠ expectedSegmentCount then .error "segment count mismatch".toList else return command

/-- `resolvePlannedSegmentArgv`. -/
def resolvePlannedSegmentArgv (segment : ExecCommandSegment) : Option (List Str) :=
  if (segment.resolution.bind (·.policyBlocked)) = some true then none
  else
    let baseArgv := ((segment.resolution.bind (·.effectiveArgv)).filter (· ≠ [])).getD segment.argv
    match baseArgv with
    | [] => none
    | first :: args =>
      let execution := segment.resolution.map (·.execution)
      let resolvedExecutable :=
        (((execution.bind (·.resolvedRealPath)).map trim).orElse fun _ =>
          (execution.bind (·.resolvedPath)).map trim).getD []
      some ((if resolvedExecutable = [] then first else resolvedExecutable) :: args)

/-- `renderQuotedArgv`. -/
def renderQuotedArgv (argv : List Str) : Str := joinWith " " (argv.map shellEscapeSingleArg)

/-- `buildEnforcedShellCommand`. -/
def buildEnforcedShellCommand (segments : List ExecCommandSegment) : Except Str Str :=
  let renderSegment (_ : Str) (segmentIndex : ℕ) : Except Str Str :=
    match segments[segmentIndex]? with
    | none => .error "segment mapping failed"
    | some seg =>
      match resolvePlannedSegmentArgv seg with
      | none => .error "segment execution plan unavailable"
      | some argv =>
        if renderQuotedArgv argv = [] then .error "unsafe windows token in argv"
        else .ok (renderQuotedArgv argv)
  finalizeRebuiltShellCommand (rebuildShellCommandFromSource renderSegment command) segments.length

end OpenClaw
