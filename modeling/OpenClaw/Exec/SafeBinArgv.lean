import OpenClaw.Exec.SafeBinProfile
import OpenClaw.Exec.ShellArgv

/-!
# Validation of a safe bin's arguments

`parseExecArgvToken`, `exec-safe-bin-policy-validator.ts` and `exec-safe-bin-semantics.ts`. The
validator goes over the arguments once, with the flags of a profile; the operands it counts are
those that are neither empty nor `-`.
-/

namespace OpenClaw

/-! ## Literal tokens -/

variable (c : Char)

def isAsciiAlnum : Bool := c.isAlphanum

variable (value : Str)

def isPathLikeToken : Bool :=
  let trimmed := trim value
  if trimmed = [] then false
  else if trimmed = ("-" : Str) then false
  else if startsWith trimmed "./" || startsWith trimmed "../" || startsWith trimmed "~" then true
  else if startsWith trimmed "/" then true
  else
    match trimmed with
    | drive :: ':' :: separator :: _ => drive.isAlpha && (separator = '\\' || separator = '/')
    | _ => false

def hasGlobToken : Bool :=
  value.any fun c => c = '*' || c = '?' || c = '[' || c = ']'

/-- What makes an expansion of a `$` before it. -/
def isExpansionStart : Bool :=
  isAsciiAlnum c || c = '\x7b' || c ∈ ("_@*?!$#-([" : Str)

def hasShellExpansionToken : Str → Bool
  | '$' :: c :: rest => isExpansionStart c || hasShellExpansionToken (c :: rest)
  | _ :: rest => hasShellExpansionToken rest
  | [] => false

def isSafeLiteralToken : Bool :=
  if value = [] ∨ value = ("-" : Str) then true
  else !hasGlobToken value && !hasShellExpansionToken value && !isPathLikeToken value

def isInvalidValueToken (value : Option Str) : Bool :=
  match value with
  | none => true
  | some value => value = [] || !isSafeLiteralToken value

/-! ## Tokens -/

inductive ExecArgvToken where
  | empty (raw : Str)
  | terminator (raw : Str)
  | stdin (raw : Str)
  | positional (raw : Str)
  | longOption (raw flag : Str) (inlineValue : Option Str)
  | shortCluster (raw cluster : Str) (flags : List Str)
deriving DecidableEq

def parseExecArgvToken (raw : Str) : ExecArgvToken :=
  if raw = [] then .empty raw
  else if raw = ("--" : Str) then .terminator raw
  else if raw = ("-" : Str) then .stdin raw
  else if ¬ startsWith raw "-" then .positional raw
  else if startsWith raw "--" then
    -- the `=` cannot be the first character here
    match afterChar? '=' raw with
    | some inlineValue => .longOption raw (beforeChar '=' raw) (some inlineValue)
    | none => .longOption raw raw none
  else .shortCluster raw raw.tail (raw.tail.map fun c => ['-', c])

/-! ## Options -/

/-- How many arguments an option takes: itself, or the next one too. -/
inductive Consumed where
  | own
  | withNext
deriving DecidableEq

variable (profile : SafeBinProfile)

def resolveCanonicalLongFlag (flag : Str) : Option Str :=
  if ¬ startsWith flag "--" ∨ flag.length ≤ 2 then none
  else if flag ∈ profile.knownSet then some flag
  else (profile.prefixMap.get flag).join

variable (next : Option Str)

/-- An option with a value, attached or in the next argument. -/
def consumeNextValue : Option Consumed :=
  if isInvalidValueToken next then none else some .withNext

def consumeLongOptionToken (flag : Str) (inlineValue : Option Str) : Option Consumed :=
  match resolveCanonicalLongFlag profile flag with
  | none => none
  | some canonicalFlag =>
    if canonicalFlag = [] then none
    else if canonicalFlag ∈ profile.denied then none
    else
      match inlineValue with
      | some value =>
        if canonicalFlag ∉ profile.allowed then none
        else if isSafeLiteralToken value then some .own else none
      | none =>
        if canonicalFlag ∉ profile.allowed then some .own else consumeNextValue next

/-- The flags of a cluster in turn, where `cluster` is what stands from the flag on. -/
def consumeShortOptionClusterToken (profile : SafeBinProfile) (next : Option Str) :
    (cluster : Str) → (flags : List Str) → Option Consumed
  | _ :: inlineValue, flag :: flags =>
    if flag ∈ profile.denied then none
    else if flag ∉ profile.allowed then
      consumeShortOptionClusterToken profile next inlineValue flags
    else if inlineValue ≠ [] then
      if isSafeLiteralToken inlineValue then some .own else none
    else consumeNextValue next
  | _, _ => none

/-! ## Operands -/

variable (positional : List Str)

def consumePositionalToken (token : Str) (positional : List Str) : Option (List Str) :=
  if isSafeLiteralToken token then some (positional ++ [token]) else none

/-- The arguments behind `--`. -/
def collectRest : List Str → List Str → Option (List Str)
  | [], positional => some positional
  | rest :: others, positional =>
    if rest = [] ∨ rest = ("-" : Str) then collectRest others positional
    else
      match consumePositionalToken rest positional with
      | none => none
      | some positional => collectRest others positional

def collectLoop (profile : SafeBinProfile) : List Str → List Str → Option (List Str)
  | [], positional => some positional
  | rawToken :: rest, positional =>
    match parseExecArgvToken rawToken with
    | .empty _ => collectLoop profile rest positional
    | .stdin _ => collectLoop profile rest positional
    | .terminator _ => collectRest rest positional
    | .positional raw =>
      match consumePositionalToken raw positional with
      | none => none
      | some positional => collectLoop profile rest positional
    | .longOption _ flag inlineValue =>
      match consumeLongOptionToken profile rest.head? flag inlineValue, rest with
      | none, _ => none
      | some .own, rest => collectLoop profile rest positional
      | some .withNext, _ :: rest => collectLoop profile rest positional
      | some .withNext, [] => some positional
    | .shortCluster _ cluster flags =>
      match consumeShortOptionClusterToken profile rest.head? cluster flags, rest with
      | none, _ => none
      | some .own, rest => collectLoop profile rest positional
      | some .withNext, _ :: rest => collectLoop profile rest positional
      | some .withNext, [] => some positional

def collectPositionalTokens (args : List Str) (profile : SafeBinProfile) : Option (List Str) :=
  collectLoop profile args []

def validatePositionalCount (profile : SafeBinProfile) : Bool :=
  if positional.length < profile.minPositional.getD 0 then false
  else
    match profile.maxPositional with
    | some maxPositional => positional.length ≤ maxPositional
    | none => true

/-! ## Semantics of single bins -/

def isIdentifierChar : Bool := isAsciiAlnum c || c = '_'

/-- `/(^|[^.$A-Za-z0-9_])env([^A-Za-z0-9_]|$)/`, behind the character `previous`. -/
def hasJqEnvFilter : (previous : Option Char) → Str → Bool
  | _, [] => false
  | previous, c :: rest =>
    let opens := previous.all fun c => !(isIdentifierChar c || c = '.' || c = '$')
    let closes := (rest.drop 2).head?.all fun c => !isIdentifierChar c
    (opens && startsWith (c :: rest) "env" && closes) || hasJqEnvFilter (some c) rest

/-- `/\$ENV\b/`. -/
def hasJqEnvVariable : Str → Bool
  | [] => false
  | c :: rest =>
    (startsWith (c :: rest) "$ENV" && (rest.drop 3).head?.all fun c => !isIdentifierChar c) ||
      hasJqEnvVariable rest

def validateJqSemantics : Bool :=
  !positional.any fun token => hasJqEnvFilter none token || hasJqEnvVariable token

variable (host : Host)

/-- A name without its directories and its Windows suffix. -/
def normalizeSafeBinName (raw : Str) : Str :=
  let trimmed := normalizeLowercaseStringOrEmpty host raw
  let tail := trimmed.rtakeWhile fun c => c != '/' && c != '\\'
  let suffix := (tail.drop (tail.length - 4)).map Char.toLower
  if suffix ∈ windowsExecutableSuffixes then tail.take (tail.length - 4) else tail

/-- The `validate` functions of `SAFE_BIN_SEMANTIC_RULES`. -/
def safeBinSemanticRule (name : Str) : Option (List Str → Bool) :=
  if name = ("jq" : Str) then some validateJqSemantics
  else if name ∈ (["awk", "gawk", "mawk", "nawk", "sed", "gsed"] : List Str) then
    some fun _ => false
  else none

def validateSafeBinSemantics (binName : Option Str) (positional : List Str) : Bool :=
  let normalized := (binName.map (normalizeSafeBinName host)).getD []
  if normalized = [] then true
  else
    match safeBinSemanticRule normalized with
    | some validate => validate positional
    | none => true

def validateSafeBinArgv (args : List Str) (profile : SafeBinProfile)
    (binName : Option Str) : Bool :=
  match collectPositionalTokens args profile with
  | none => false
  | some positional =>
    validatePositionalCount positional profile && validateSafeBinSemantics host binName positional

end OpenClaw
