import OpenClaw.ExecApprovals.File
import OpenClaw.Exec.SafeBinArgv
import OpenClaw.Shell.Analysis

/-!
# Allowlist entries and commands

`matchAllowlist` of `exec-command-resolution.ts`, `exec-allowlist-pattern.ts` and the use of safe
bins and skills from `exec-approvals-allowlist.ts`, on POSIX: which entry of the allowlist an
executable and its arguments match.
-/

namespace OpenClaw

/-- What the evaluation of an allowlist takes from its process, for a working directory. -/
structure AllowlistHost extends ExecHost where
  /-- `expandHomePrefix`. -/
  expandHomePrefix : Str → Str
  /-- `path.resolve` of a base directory and a path. -/
  resolvePath : Str → Str → Str
  /-- `process.cwd()`. -/
  processCwd : Str
  /-- `new RegExp(pattern).test`, with `none` where the pattern is no expression. -/
  regexTest : Str → Option (Str → Bool)
  /-- `isTrustedSafeBinPath` with the trusted directories of the request. -/
  isTrustedSafeBinPath : Str → Bool

variable (host : AllowlistHost)

/-! ## Patterns -/

/-- The pieces of `compileGlobRegex`. -/
inductive GlobPiece where
  | anything
  | inSegment
  | segmentChar
  | literal (c : Char)
deriving DecidableEq

def compileGlob : Str → List GlobPiece
  | '*' :: '*' :: rest => .anything :: compileGlob rest
  | '*' :: rest => .inSegment :: compileGlob rest
  | '?' :: rest => .segmentChar :: compileGlob rest
  | c :: rest => .literal c :: compileGlob rest
  | [] => []

/-- What a repeated piece goes over: `.` stops at line ends, `[^/]` at slashes. -/
def GlobPiece.repeats : GlobPiece → Char → Bool
  | .anything, c => !isLineTerminator c
  | .inSegment, c => c ≠ '/'
  | _, _ => false

/-- The compiled expression on a whole text. -/
def matchGlob : List GlobPiece → Str → Bool
  | [], [] => true
  | [], _ :: _ => false
  | .literal _ :: _, [] => false
  | .literal l :: pieces, c :: rest => c = l && matchGlob pieces rest
  | .segmentChar :: _, [] => false
  | .segmentChar :: pieces, c :: rest => c ≠ '/' && matchGlob pieces rest
  | .anything :: pieces, [] => matchGlob pieces []
  | .inSegment :: pieces, [] => matchGlob pieces []
  | .anything :: pieces, c :: rest =>
    matchGlob pieces (c :: rest) ||
      (GlobPiece.anything.repeats c && matchGlob (.anything :: pieces) rest)
  | .inSegment :: pieces, c :: rest =>
    matchGlob pieces (c :: rest) ||
      (GlobPiece.inSegment.repeats c && matchGlob (.inSegment :: pieces) rest)
termination_by pieces text => pieces.length + text.length

/-- `value.replace(/\\\\/g, "/")`: a pair of backslashes is a slash. -/
def normalizeMatchTarget : Str → Str
  | '\\' :: '\\' :: rest => '/' :: normalizeMatchTarget rest
  | c :: rest => c :: normalizeMatchTarget rest
  | [] => []

def matchesExecAllowlistPattern (pattern target : Str) : Bool :=
  let trimmed := trim pattern
  if trimmed = [] then false
  else
    let expanded := if startsWith trimmed "~" then host.expandHomePrefix trimmed else trimmed
    matchGlob (compileGlob (normalizeMatchTarget expanded)) (normalizeMatchTarget target)

/-! ## Patterns of arguments -/

def trailingRedirections : List Str :=
  ["1>&1", "1>&2", "2>&1", "2>&2", "1>/dev/null", "2>/dev/null"]

variable (value : Str)

/-- `value.replace(TRAILING_SHELL_REDIRECTIONS_RE, "")`. -/
def stripTrailingRedirection : Str :=
  let trimmed := trimEnd value
  match trailingRedirections.find? (endsWith trimmed) with
  | none => value
  | some redirection =>
    let before := trimmed.take (trimmed.length - redirection.length)
    if before.getLast?.any isSpace then trimEnd before else value

/-- `stripTrailingRedirections`, with the number of rounds a text can take. -/
def stripTrailingRedirections : ℕ → Str → Str
  | 0, value => value
  | rounds + 1, value =>
    let next := stripTrailingRedirection value
    if next = value then next else stripTrailingRedirections rounds next

/-- The arguments as a pattern sees them: generated patterns separate them by null characters. -/
def argsText (argPattern : Str) (args : List Str) : Str :=
  if '\x00' ∈ argPattern then
    if args = [] then ['\x00', '\x00'] else joinWith ['\x00'] args ++ ['\x00']
  else joinWith " " args

def matchArgPattern (argPattern : Str) (argv : List Str) : Bool :=
  let argsString := argsText argPattern argv.tail
  match host.regexTest argPattern with
  | none => false
  | some test =>
    test argsString ||
      ('\x00' ∉ argPattern && test (stripTrailingRedirections (argsString.length + 1) argsString))

/-! ## Entries -/

def hasPathSelector : Bool := '/' ∈ value || '\\' ∈ value || '~' ∈ value

def matchesExecutableBasenamePattern (pattern : Str) (resolution : ExecutableResolution) : Bool :=
  if hasPathSelector resolution.rawExecutable then false
  else
    let named := (nonEmpty? resolution.executableName).any (matchesExecAllowlistPattern host pattern)
    let based := (resolution.resolvedPath.bind nonEmpty?).any fun path =>
      matchesExecAllowlistPattern host pattern (posixBasename path)
    named || based

variable (entry : ExecAllowlistEntry)

/-- `entry.argPattern`, where it counts as true. -/
def ExecAllowlistEntry.boundArgs : Option Str :=
  entry.argPattern.bind nonEmpty?

def isBareWildcard : Bool :=
  trim entry.pattern = ("*" : Str) && entry.boundArgs.isNone

def entryMatchesExecutable (resolution : ExecutableResolution) (resolvedPath : Str)
    (entry : ExecAllowlistEntry) : Bool :=
  let pattern := trim entry.pattern
  if pattern = [] then false
  else if hasPathSelector pattern then matchesExecAllowlistPattern host pattern resolvedPath
  else pattern ≠ ("*" : Str) && matchesExecutableBasenamePattern host pattern resolution

/-- The loop of `matchAllowlist`. -/
def matchAllowlistLoop (resolution : ExecutableResolution) (resolvedPath : Str)
    (argv : Option (List Str)) :
    List ExecAllowlistEntry → Option ExecAllowlistEntry → Option ExecAllowlistEntry
  | [], pathOnlyMatch => pathOnlyMatch
  | entry :: entries, pathOnlyMatch =>
    if entryMatchesExecutable host resolution resolvedPath entry then
      match entry.boundArgs with
      | none =>
        matchAllowlistLoop resolution resolvedPath argv entries (pathOnlyMatch.orElse fun _ => entry)
      | some argPattern =>
        if argv.any (matchArgPattern host argPattern) then some entry
        else matchAllowlistLoop resolution resolvedPath argv entries pathOnlyMatch
    else matchAllowlistLoop resolution resolvedPath argv entries pathOnlyMatch

def matchAllowlist (entries : List ExecAllowlistEntry) (resolution : Option ExecutableResolution)
    (argv : Option (List Str)) : Option ExecAllowlistEntry :=
  match resolution, entries.find? isBareWildcard with
  | some _, some bareWild => some bareWild
  | _, _ =>
    match resolution with
    | none => none
    | some resolution =>
      match resolution.resolvedPath.bind nonEmpty? with
      | none => none
      | some resolvedPath => matchAllowlistLoop host resolution resolvedPath argv entries none

/-! ## Safe bins and skills -/

structure SkillBinTrustEntry where
  name : Str
  resolvedPath : Str
deriving DecidableEq

/-- `ExecAllowlistContext`, on the platform of the process. -/
structure ExecAllowlistContext where
  allowlist : List ExecAllowlistEntry
  safeBins : List Str
  safeBinProfiles : Str → Option SafeBinProfile
  cwd : Option Str
  skillBins : List SkillBinTrustEntry
  autoAllowSkills : Bool

def isSafeBinUsage (context : ExecAllowlistContext) (argv : List Str)
    (resolution : Option ExecutableResolution) : Bool :=
  match resolution with
  | none => false
  | some resolution =>
    let execName := normalizeLowercaseStringOrEmpty host.toHost resolution.executableName
    if execName = [] then false
    else if execName ∉ context.safeBins then false
    else
      match resolution.resolvedPath.bind nonEmpty? with
      | none => false
      | some resolvedPath =>
        if !host.isTrustedSafeBinPath resolvedPath then false
        else
          match context.safeBinProfiles execName with
          | none => false
          | some profile => validateSafeBinArgv host.toHost argv.tail profile (some execName)

def normalizeSkillBinName : Option Str :=
  nonEmpty? (normalizeLowercaseStringOrEmpty host.toHost value)

def normalizeSkillBinResolvedPath : Option Str :=
  (nonEmpty? (trim value)).map (host.resolvePath host.processCwd)

/-- The names of `buildSkillBinTrustIndex` with their paths. -/
def buildSkillBinTrustIndex (entries : List SkillBinTrustEntry) : List (Str × Str) :=
  entries.filterMap fun entry => do
    let name ← normalizeSkillBinName host entry.name
    let path ← (normalizeSkillBinResolvedPath host entry.resolvedPath).bind nonEmpty?
    return (name, path)

def isPathScopedExecutableToken (token : Str) : Bool := '/' ∈ token || '\\' ∈ token

def isSkillAutoAllowedSegment (segment : ExecCommandSegment) (allowSkills : Bool)
    (skillBinTrust : List (Str × Str)) : Bool :=
  allowSkills &&
    match segment.resolution.map (·.execution) with
    | none => false
    | some execution =>
      let rawExecutable := trim execution.rawExecutable
      if rawExecutable = [] ∨ isPathScopedExecutableToken rawExecutable then false
      else
        match normalizeSkillBinName host execution.executableName,
            (execution.resolvedPath.bind nonEmpty?).bind (normalizeSkillBinResolvedPath host) with
        | some name, some path => path ≠ [] && (name, path) ∈ skillBinTrust
        | _, _ => false

end OpenClaw
