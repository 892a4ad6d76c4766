import OpenClaw.Exec.ShellWrapper
import OpenClaw.Text.Json

/-!
# The command of a `system.run` request

`system-run-command.ts`: the argument vector of a request, the text it is shown as, and
whether the raw command text that came with it may stand for it.
-/

namespace OpenClaw

/-! ## Results -/

/-- A refused request: a message and its details. -/
structure RequestError where
  message : Str
  details : List (Str × Json)

/-- The details every guard starts with. -/
def errorCode (code : Str) : Str × Json := ("code", .string code)

/-! ## Command text -/

/-- `formatExecCommand` has the body of `formatShellWrapperArgv`. -/
def formatExecCommand (argv : List Str) : Str := formatShellWrapperArgv argv

def posixOrPowerShellInlineWrapperNames : List Str :=
  ["ash", "bash", "dash", "fish", "ksh", "powershell", "pwsh", "sh", "zsh"]

variable (host : Host)

def isPowerShellInlineRestCommandFlag (token : Str) : Bool :=
  normalizeLowercaseStringOrEmpty host token ∈ powerShellCommandFlags

variable (argv : List Str)

def unwrapShellWrapperArgv : List Str :=
  let dispatchUnwrapped := unwrapDispatchWrappersForResolution host argv
  match unwrapKnownShellMultiplexerInvocation host dispatchUnwrapped with
  | .unwrapped _ unwrapped => unwrapped
  | _ => dispatchUnwrapped

def hasTrailingPositionalArgvAfterInlineCommand : Bool :=
  let wrapperArgv := unwrapShellWrapperArgv host argv
  let wrapper := normalizeExecutableToken host (token0 wrapperArgv)
  let isPowerShell : Bool := wrapper = ("powershell" : Str) ∨ wrapper = ("pwsh" : Str)
  if token0 wrapperArgv = [] ∨ wrapper ∉ posixOrPowerShellInlineWrapperNames then false
  else
    let inlineCommand := if isPowerShell then resolvePowerShellInlineCommandMatch host wrapperArgv
      else resolvePosixInlineCommandMatch host wrapperArgv
    match inlineCommand.valueTokenIndex with
    | none => false
    | some index =>
      if isPowerShell ∧
          isPowerShellInlineRestCommandFlag host (wrapperArgv[index - 1]?.getD []) then false
      else (wrapperArgv.drop (index + 1)).any fun entry => trim entry ≠ []

structure SystemRunCommandDisplay where
  shellPayload : Option Str
  commandText : Str
  previewText : Option Str
deriving DecidableEq

def buildSystemRunCommandDisplay (rawCommand : Option Str) : SystemRunCommandDisplay :=
  let rawless := extractShellWrapperCommand host argv none
  let resolution :=
    if rawless.command = none ∧ rawCommand ≠ none then
      extractShellWrapperCommand host argv rawCommand
    else rawless
  let envManipulation := resolution.isWrapper && hasEnvManipulationBeforeShellWrapper host argv
  { shellPayload := resolution.command
    commandText := formatExecCommand argv
    previewText :=
      if envManipulation ∨ hasTrailingPositionalArgvAfterInlineCommand host argv then none
      else resolution.command.map trim }

/-- `normalizeRawCommandText`. -/
def normalizeRawCommandText (rawCommand : Option Json) : Option Str :=
  normalizeNullableString rawCommand

/-- `validateSystemRunCommandConsistency`; `raw` is normalized already. -/
def validateSystemRunCommandConsistency (raw : Option Str)
    (allowLegacyShellText : Bool) : Except RequestError SystemRunCommandDisplay :=
  let display := buildSystemRunCommandDisplay host argv raw
  match raw with
  | none => .ok display
  | some raw =>
    if raw = display.commandText ∨ (allowLegacyShellText ∧ display.previewText = some raw) then
      .ok display
    else .error ⟨"INVALID_REQUEST: rawCommand does not match command",
      [errorCode "RAW_COMMAND_MISMATCH", ("rawCommand", .string raw),
        ("inferred", .string display.commandText),
        ("formattedArgv", .string display.commandText)]⟩

/-! ## The request -/

structure ResolvedSystemRunCommand where
  argv : List Str
  display : SystemRunCommandDisplay
deriving DecidableEq

def resolveSystemRunCommandWithMode (command rawCommand : Option Json)
    (allowLegacyShellText : Bool) : Except RequestError ResolvedSystemRunCommand :=
  let raw := normalizeRawCommandText rawCommand
  let items := match command with
    | some (.array items) => items
    | _ => []
  if items = [] then
    if raw ≠ none then .error ⟨"rawCommand requires params.command", [errorCode "MISSING_COMMAND"]⟩
    else .ok ⟨[], ⟨none, [], none⟩⟩
  else
    let argv := items.map Json.toJsString
    (validateSystemRunCommandConsistency host argv raw allowLegacyShellText).map (⟨argv, ·⟩)

def resolveSystemRunCommandRequest (command rawCommand : Option Json) :
    Except RequestError ResolvedSystemRunCommand :=
  resolveSystemRunCommandWithMode host command rawCommand true

end OpenClaw
