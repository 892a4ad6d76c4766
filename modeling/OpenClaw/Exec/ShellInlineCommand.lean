import OpenClaw.Text.Basic

/-!
# Inline commands of shells

`shell-inline-command.ts`: where the command string of `sh -c …`, `cmd /c …` and
`powershell -Command …` stands among the arguments, and which startup options come
before it.

A scan that advances by more than one token counts down the tokens it skips, so that it
recurses on the arguments.
-/

namespace OpenClaw

/-- `value ? value : null`. -/
def nonEmpty? (s : Str) : Option Str := if s = [] then none else some s

/-! ## The flags -/

def posixInlineCommandFlags : List Str := ["-lc", "-c", "--command"]

/-- The three spellings of a PowerShell switch. -/
def powerShellSwitchForms (name : Str) : List Str := ['-' :: name, '-' :: '-' :: name, '/' :: name]

/-- Every prefix of a switch from its smallest unambiguous form on. -/
def expandPowerShellSwitchPrefixForms (fullName smallestMatch : Str) : List Str :=
  (List.range' smallestMatch.length (fullName.length + 1 - smallestMatch.length)).flatMap
    fun length => powerShellSwitchForms (fullName.take length)

def expandPowerShellSwitchForms (names : List Str) : List Str :=
  names.flatMap powerShellSwitchForms

def powerShellCommandFlags : List Str :=
  expandPowerShellSwitchPrefixForms "command" "c" ++
  expandPowerShellSwitchPrefixForms "commandwithargs" "cwa" ++
  expandPowerShellSwitchForms ["cwa"]

def powerShellInlineFileFlags : List Str := expandPowerShellSwitchPrefixForms "file" "f"

def powerShellInlineCommandFlags : List Str :=
  powerShellCommandFlags ++ powerShellInlineFileFlags ++
  expandPowerShellSwitchPrefixForms "encodedcommand" "e" ++
  expandPowerShellSwitchPrefixForms "ec" "e"

def powerShellOptionsWithSeparateValues : List Str :=
  expandPowerShellSwitchPrefixForms "configurationfile" "conf" ++
  expandPowerShellSwitchPrefixForms "configurationname" "config" ++
  expandPowerShellSwitchPrefixForms "custompipename" "cus" ++
  expandPowerShellSwitchPrefixForms "encodedarguments" "encodeda" ++
  expandPowerShellSwitchPrefixForms "executionpolicy" "ex" ++
  expandPowerShellSwitchPrefixForms "inputformat" "inp" ++
  expandPowerShellSwitchPrefixForms "outputformat" "o" ++
  expandPowerShellSwitchPrefixForms "psconsolefile" "pscf" ++
  expandPowerShellSwitchPrefixForms "settingsfile" "settings" ++
  expandPowerShellSwitchPrefixForms "token" "to" ++
  expandPowerShellSwitchPrefixForms "utctimestamp" "utc" ++
  expandPowerShellSwitchPrefixForms "version" "v" ++
  expandPowerShellSwitchPrefixForms "windowstyle" "w" ++
  expandPowerShellSwitchPrefixForms "workingdirectory" "w" ++
  expandPowerShellSwitchForms ["ea", "ep", "if", "of", "wd"]

def posixShellOptionsWithSeparateValues : List Str :=
  ["--init-file", "--rcfile", "-O", "-o", "+O", "+o"]

/-! ## Clusters of short options -/

/-- The characters of `-abc` when no dash stands among them. -/
def shortOptionChars? : Str → Option Str
  | '-' :: c :: rest => if '-' ∈ c :: rest then none else some (c :: rest)
  | _ => none

variable (token : Str)

def countSeparateValueOptionChars : ℕ :=
  token.tail.countP fun c => c == 'o' || c == 'O'

/-- A short option cluster with a `c` in it. -/
structure CombinedCommandFlag where
  attachedCommand : Option Str
  separateValueCount : ℕ
deriving DecidableEq

def parseCombinedCommandFlag : Option CombinedCommandFlag :=
  (shortOptionChars? token).bind fun optionChars =>
    (afterChar? 'c' optionChars).map fun suffix =>
      if suffix ≠ [] ∧ !suffix.all Char.isAlpha then ⟨some suffix, 0⟩
      else ⟨none, countSeparateValueOptionChars token⟩

def isCombinedCommandFlag : Bool := (parseCombinedCommandFlag token).isSome

def combinedSeparateValueOptionCount : Str → ℕ
  | sign :: c :: rest =>
    if (sign ≠ '-' ∧ sign ≠ '+') ∨ '-' ∈ c :: rest then 0
    else countSeparateValueOptionChars (sign :: c :: rest)
  | _ => 0

def isPosixShortOption (option : Char) : Bool :=
  match shortOptionChars? token with
  | some optionChars => option ∈ optionChars
  | none => false

def isPosixInteractiveModeOption : Bool :=
  token = ("--interactive" : Str) ∨ isPosixShortOption token 'i'

def isPosixLoginModeOption : Bool :=
  token = ("--login" : Str) ∨ isPosixShortOption token 'l'

/-- How many tokens an option that is not the inline flag takes, itself included. -/
def advancePosixInlineOptionScan : ℕ :=
  if combinedSeparateValueOptionCount token > 0 then 1 + combinedSeparateValueOptionCount token
  else if token ∈ posixShellOptionsWithSeparateValues then 2
  else 1

/-- `/^\/[A-Za-z][A-Za-z0-9]*$/` or a leading dash. -/
def isPowerShellOptionToken : Bool :=
  startsWith token "-" ||
  match token with
  | '/' :: c :: rest => c.isAlpha && rest.all Char.isAlphanum
  | _ => false

def isOptionLike : Bool := startsWith token "-" || startsWith token "+"

/-! ## The inline command -/

structure InlineCommandOptions where
  allowCombinedC : Bool
  isOptionToken : Str → Bool
  restValueFlags : List Str
  stopAtFirstNonOption : Bool
  valueOptions : List Str

structure InlineCommandMatch where
  command : Option Str
  valueTokenIndex : Option ℕ
deriving DecidableEq

def InlineCommandMatch.none : InlineCommandMatch := ⟨Option.none, Option.none⟩

/-- The loop of `resolveInlineCommandMatch` at token `i`, of which `skip` are passed over. -/
def inlineCommandLoop (host : Host) (flags : List Str) (options : InlineCommandOptions) :
    ℕ → ℕ → List Str → InlineCommandMatch
  | _, _, [] => .none
  | skip + 1, i, _ :: rest => inlineCommandLoop host flags options skip (i + 1) rest
  | 0, i, arg :: rest =>
    let token := trim arg
    let lower := normalizeLowercaseStringOrEmpty host token
    let comparableToken := if options.allowCombinedC then token else lower
    if token = [] then inlineCommandLoop host flags options 0 (i + 1) rest
    else if lower = ("--" : Str) then .none
    else if comparableToken ∈ flags then
      let valueTokenIndex := if rest = [] then Option.none else some (i + 1)
      if comparableToken ∈ options.restValueFlags then
        ⟨nonEmpty? (trim (joinWith " " (rest.map trim))), valueTokenIndex⟩
      else ⟨rest.head?.bind fun value => nonEmpty? (trim value), valueTokenIndex⟩
    else
      match if options.allowCombinedC then parseCombinedCommandFlag token else Option.none with
      | some ⟨some attached, _⟩ => ⟨nonEmpty? (trim attached), some i⟩
      | some ⟨Option.none, separateValueCount⟩ =>
        ⟨rest[separateValueCount]?.bind fun value => nonEmpty? (trim value),
          some (i + 1 + separateValueCount)⟩
      | Option.none =>
        if lower ∈ options.valueOptions then
          inlineCommandLoop host flags options 1 (i + 1) rest
        else if options.stopAtFirstNonOption ∧ !options.isOptionToken token then .none
        else if options.allowCombinedC ∧ !isOptionLike token then .none
        else
          let advance := if options.allowCombinedC then advancePosixInlineOptionScan token else 1
          inlineCommandLoop host flags options (advance - 1) (i + 1) rest

variable (host : Host) (argv flags : List Str) (options : InlineCommandOptions)

def resolveInlineCommandMatch : InlineCommandMatch :=
  inlineCommandLoop host flags options 0 1 argv.tail

def resolvePosixInlineCommandMatch : InlineCommandMatch :=
  resolveInlineCommandMatch host argv posixInlineCommandFlags
    { allowCombinedC := true, isOptionToken := isOptionLike, restValueFlags := [],
      stopAtFirstNonOption := false, valueOptions := [] }

def resolvePowerShellInlineCommandMatch : InlineCommandMatch :=
  resolveInlineCommandMatch host argv powerShellInlineCommandFlags
    { allowCombinedC := false, isOptionToken := isPowerShellOptionToken,
      restValueFlags := powerShellCommandFlags, stopAtFirstNonOption := true,
      valueOptions := powerShellOptionsWithSeparateValues }

/-! ## Startup options before the inline command -/

/-- The loop shared by `hasPosixInteractiveStartupBeforeInlineCommand` and
`hasPosixLoginStartupBeforeInlineCommand`. -/
def posixStartupLoop (isModeOption : Str → Bool) (flags : List Str) : Bool → ℕ → List Str → Bool
  | _, _, [] => false
  | saw, skip + 1, _ :: rest => posixStartupLoop isModeOption flags saw skip rest
  | saw, 0, arg :: rest =>
    let token := trim arg
    let saw' := saw || isModeOption token
    if token = [] then posixStartupLoop isModeOption flags saw 0 rest
    else if token = ("--" : Str) then false
    else if token ∈ flags ∨ isCombinedCommandFlag token then saw'
    else if !isOptionLike token then false
    else posixStartupLoop isModeOption flags saw' (advancePosixInlineOptionScan token - 1) rest

def hasPosixInteractiveStartupBeforeInlineCommand : Bool :=
  posixStartupLoop isPosixInteractiveModeOption flags false 0 argv.tail

def hasPosixLoginStartupBeforeInlineCommand : Bool :=
  posixStartupLoop isPosixLoginModeOption flags false 0 argv.tail

/-- The loop shared by the two `fish` tests. -/
def fishOptionLoop (isWanted : Str → Bool) : List Str → Bool
  | [] => false
  | arg :: rest =>
    let token := trim arg
    if token = [] then fishOptionLoop isWanted rest
    else if token = ("--" : Str) then false
    else if isWanted token then true
    else if !isOptionLike token then false
    else fishOptionLoop isWanted rest

def hasFishInitCommandOption : Bool :=
  fishOptionLoop (fun token => token = ("--init-command" : Str) ∨ startsWith token "-C" ∨
    startsWith token "--init-command=") argv.tail

def hasFishAttachedCommandOption : Bool :=
  fishOptionLoop (fun token => startsWith token "-c" ∧ token ≠ ("-c" : Str)) argv.tail

/-! ## What the scan returns -/

theorem nonEmpty?_ne_some_nil (s : Str) : nonEmpty? s ≠ some [] := by
  unfold nonEmpty?
  split <;> simp_all

/-- An inline command is never the empty string. -/
theorem resolveInlineCommandMatch_command_ne_nil :
    (resolveInlineCommandMatch host argv flags options).command ≠ some [] := by
  unfold resolveInlineCommandMatch
  have hbind (o : Option Str) : (o.bind fun value => nonEmpty? (trim value)) ≠ some [] := by
    cases o with
    | none => simp
    | some value => exact nonEmpty?_ne_some_nil _
  generalize 0 = skip, 1 = i, argv.tail = rest
  fun_induction inlineCommandLoop host flags options skip i rest <;>
    first
      | assumption
      | exact nonEmpty?_ne_some_nil _
      | exact hbind _
      | simp [InlineCommandMatch.none]

end OpenClaw
