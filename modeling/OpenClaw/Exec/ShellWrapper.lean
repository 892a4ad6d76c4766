import OpenClaw.Exec.DispatchWrapper
import OpenClaw.Exec.ShellInlineCommand

/-!
# Shell wrappers

`shell-wrapper-resolution.ts`: whether a command runs a shell, behind dispatch wrappers
and the multiplexers `busybox` and `toybox`, and which command string it hands to it. The
search is bounded by a depth; the recursion below is on the depth that is left.
-/

namespace OpenClaw

/-! ## The names -/

def posixShellWrapperNames : List Str := ["ash", "bash", "dash", "fish", "ksh", "sh", "zsh"]

def windowsCmdWrapperNames : List Str := ["cmd"]

def powerShellWrapperNames : List Str := ["powershell", "pwsh"]

def shellMultiplexerWrapperNames : List Str := ["busybox", "toybox"]

inductive ShellWrapperKind where
  | posix | cmd | powershell
deriving DecidableEq

structure ShellWrapperSpec where
  kind : ShellWrapperKind
  names : List Str
deriving DecidableEq

def shellWrapperSpecs : List ShellWrapperSpec :=
  [⟨.posix, posixShellWrapperNames⟩, ⟨.cmd, windowsCmdWrapperNames⟩,
    ⟨.powershell, powerShellWrapperNames⟩]

def findShellWrapperSpec (baseExecutable : Str) : Option ShellWrapperSpec :=
  shellWrapperSpecs.find? (baseExecutable ∈ ·.names)

variable (host : Host)

def isShellWrapperExecutable (token : Str) : Bool :=
  normalizeExecutableToken host token ∈
    posixShellWrapperNames ++ windowsCmdWrapperNames ++ powerShellWrapperNames

/-! ## Multiplexers -/

/-- The arguments of a multiplexer from its applet on. -/
def multiplexerAppletArgv : List Str → List Str
  | [] => []
  | arg :: rest => if trim arg = ("--" : Str) then rest else arg :: rest

variable (argv : List Str)

def unwrapKnownShellMultiplexerInvocation : WrapperUnwrapResult :=
  let wrapper := normalizeExecutableToken host (token0 argv)
  if token0 argv = [] then .notWrapper
  else if wrapper ∉ shellMultiplexerWrapperNames then .notWrapper
  else
    let unwrapped := multiplexerAppletArgv argv.tail
    if token0 unwrapped = [] ∨ !isShellWrapperExecutable host (token0 unwrapped) then
      .blocked wrapper
    else .unwrapped wrapper unwrapped

/-! ## The shell behind the wrappers -/

structure ShellWrapperCandidate (σ : Type) where
  argv : List Str
  token0 : Str
  state : σ

/-- `resolveShellWrapperCandidate`; `remaining` is the number of calls that are still
within the classification depth. -/
def resolveShellWrapperCandidate {σ : Type} (host : Host) (onDispatchUnwrap : σ → List Str → σ) :
    ℕ → List Str → σ → Option (ShellWrapperCandidate σ)
  | 0, _, _ => none
  | remaining + 1, argv, state =>
    if token0 argv = [] then none
    else
      match unwrapKnownDispatchWrapperInvocation host argv with
      | .blocked _ => none
      | .unwrapped _ unwrapped =>
        resolveShellWrapperCandidate host onDispatchUnwrap remaining unwrapped
          (onDispatchUnwrap state argv)
      | .notWrapper =>
        match unwrapKnownShellMultiplexerInvocation host argv with
        | .blocked _ => none
        | .unwrapped _ unwrapped =>
          resolveShellWrapperCandidate host onDispatchUnwrap remaining unwrapped state
        | .notWrapper => some ⟨argv, token0 argv, state⟩

/-- The calls within the depth: `depth <= MAX_DISPATCH_WRAPPER_DEPTH` for depths from 0. -/
def dispatchClassificationCalls : ℕ := maxDispatchWrapperDepth + 1

/-- The candidate where no state is kept. -/
def shellWrapperCandidate : Option (ShellWrapperCandidate Unit) :=
  resolveShellWrapperCandidate host (fun state _ => state) dispatchClassificationCalls argv ()

def isShellWrapperInvocation : Bool :=
  match shellWrapperCandidate host argv with
  | some candidate => isShellWrapperExecutable host candidate.token0
  | none => false

/-! ## The inline command -/

def extractPosixShellInlineCommand : Option Str :=
  (resolvePosixInlineCommandMatch host argv).command

def isCmdInlineFlag (arg : Str) : Bool :=
  normalizeLowercaseStringOrEmpty host arg ∈ (["/c", "/k", "-c", "-k"] : List Str)

def extractCmdInlineCommand : Option Str :=
  nonEmpty? (trim (joinWith " " (argv.dropWhile fun arg => !isCmdInlineFlag host arg).tail))

def extractPowerShellInlineCommand : Option Str :=
  (resolvePowerShellInlineCommandMatch host argv).command

variable (spec : ShellWrapperSpec)

def extractShellWrapperPayload : Option Str :=
  match spec.kind with
  | .posix => extractPosixShellInlineCommand host argv
  | .cmd => extractCmdInlineCommand host argv
  | .powershell => extractPowerShellInlineCommand host argv

/-- `payload ? payload : null`. -/
def truthy? (payload : Option Str) : Option Str := payload.bind nonEmpty?

structure ShellWrapperResolution where
  argv : List Str
  wrapper : ShellWrapperSpec
  payload : Str
deriving DecidableEq

def resolveShellWrapperSpecAndArgv : Option ShellWrapperResolution := do
  let candidate ← shellWrapperCandidate host argv
  let wrapper ← findShellWrapperSpec (normalizeExecutableToken host candidate.token0)
  let payload ← truthy? (extractShellWrapperPayload host candidate.argv wrapper)
  return ⟨candidate.argv, wrapper, payload⟩

def extractShellWrapperInlineCommand : Option Str :=
  (resolveShellWrapperSpecAndArgv host argv).map (·.payload)

def hasEnvManipulationBeforeShellWrapper : Bool :=
  (do
    let candidate ← resolveShellWrapperCandidate host
      (fun state wrapped => state || hasDispatchEnvManipulation host wrapped)
      dispatchClassificationCalls argv false
    let wrapper ← findShellWrapperSpec (normalizeExecutableToken host candidate.token0)
    let _ ← truthy? (extractShellWrapperPayload host candidate.argv wrapper)
    return candidate.state).getD false

/-! ## Inline commands that stand for the whole invocation -/

def isLegacyLoginInlineForm : Bool :=
  argv[1]?.map trim = some ("-lc" : Str)

variable (baseExecutable : Str)

def isLegacyShLoginInlineForm : Bool :=
  baseExecutable = ("sh" : Str) ∧ isLegacyLoginInlineForm argv

def formatShellWrapperArg (arg : Str) : Str :=
  if arg = [] then ['"', '"']
  else if arg.any fun c => isSpace c || c == '"' then
    '"' :: (arg.flatMap fun c => if c = '"' then ['\\', '"'] else [c]) ++ ['"']
  else arg

def formatShellWrapperArgv : Str :=
  joinWith " " (argv.map formatShellWrapperArg)

def startupWrapperRequiresFullArgv (includeLegacyLoginInlineForm : Bool) : Bool :=
  if spec.kind ≠ .posix then false
  else if baseExecutable = ("fish" : Str) ∧ hasFishInitCommandOption argv then true
  else if baseExecutable ∈ posixShellWrapperNames ∧
      hasPosixLoginStartupBeforeInlineCommand argv posixInlineCommandFlags then
    includeLegacyLoginInlineForm || !isLegacyShLoginInlineForm argv baseExecutable
  else hasPosixInteractiveStartupBeforeInlineCommand argv posixInlineCommandFlags

structure ShellWrapperCommand where
  isWrapper : Bool
  command : Option Str
deriving DecidableEq

variable (rawCommand : Option Str)

def normalizeRawCommand : Option Str :=
  rawCommand.bind fun raw => nonEmpty? (trim raw)

/-- `extractShellWrapperCommandInternal` for a candidate that is a shell with a payload. -/
def bindShellWrapperCommand (wrapper : ShellWrapperSpec)
    (payload : Str) (rawCommand : Option Str) : ShellWrapperCommand :=
  let baseExecutable := normalizeExecutableToken host (token0 argv)
  let rawMatchesPayload := rawCommand = some payload
  let rawMatchesCanonicalArgv := rawCommand = some (formatShellWrapperArgv argv)
  let allowLegacyShLoginPayloadBinding := isLegacyShLoginInlineForm argv baseExecutable ∧
    (rawMatchesPayload ∨ rawMatchesCanonicalArgv)
  if wrapper.kind = .posix ∧ baseExecutable = ("fish" : Str) ∧
      hasFishAttachedCommandOption argv then ⟨true, none⟩
  else if startupWrapperRequiresFullArgv argv wrapper baseExecutable
      (!allowLegacyShLoginPayloadBinding) then ⟨true, none⟩
  else
    match resolveShellWrapperSpecAndArgv host argv with
    | none => ⟨false, none⟩
    | some resolved =>
      if rawMatchesCanonicalArgv then ⟨true, some resolved.payload⟩
      else ⟨true, some (rawCommand.getD resolved.payload)⟩

def extractShellWrapperCommand : ShellWrapperCommand :=
  (do
    let candidate ← shellWrapperCandidate host argv
    let wrapper ← findShellWrapperSpec (normalizeExecutableToken host candidate.token0)
    let payload ← truthy? (extractShellWrapperPayload host candidate.argv wrapper)
    return bindShellWrapperCommand host candidate.argv wrapper payload
      (normalizeRawCommand rawCommand)).getD ⟨false, none⟩

def extractBindableShellWrapperInlineCommand : Option Str :=
  (extractShellWrapperCommand host argv rawCommand).command

/-! ## Facts about the names and payloads -/

theorem isShellWrapperExecutable_iff (token : Str) : isShellWrapperExecutable host token = true ↔
      ∃ spec, findShellWrapperSpec (normalizeExecutableToken host token) = some spec := by
  rw [← Option.isSome_iff_exists, findShellWrapperSpec, List.find?_isSome,
    isShellWrapperExecutable, decide_eq_true_eq]
  simp only [shellWrapperSpecs, List.mem_append, List.mem_cons, List.not_mem_nil, or_false,
    exists_eq_or_imp, exists_eq_left, decide_eq_true_eq, or_assoc]

/-- A shell's command string is never empty. -/
theorem extractShellWrapperPayload_ne_nil : extractShellWrapperPayload host argv spec ≠ some [] := by
  unfold extractShellWrapperPayload
  split
  · exact resolveInlineCommandMatch_command_ne_nil host argv _ _
  · exact nonEmpty?_ne_some_nil _
  · exact resolveInlineCommandMatch_command_ne_nil host argv _ _

theorem truthy?_eq_self {payload : Option Str} (h : payload ≠ some []) :
    truthy? payload = payload := by
  match payload, h with
  | none, _ => rfl
  | some (c :: rest), _ => rfl

end OpenClaw
