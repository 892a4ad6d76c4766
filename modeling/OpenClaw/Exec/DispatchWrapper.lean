import OpenClaw.Exec.CommandCarriers

/-!
# Dispatch wrappers

`dispatch-wrapper-resolution.ts`: commands such as `nice`, `timeout` and `env` run another
command, which is the rest of their own arguments after the options. A wrapper whose
options are all known is stripped; one that is not understood, or that changes what the
inner command does, blocks the invocation.

The scans of the source return `argv.slice(index)`; here they return that suffix.
-/

namespace OpenClaw

open List Option

def maxDispatchWrapperDepth : ℕ := 4

/-! ## Scanning the options of a wrapper -/

inductive WrapperScanDirective where
  | next | consumeNext | stop | invalid
deriving DecidableEq

/-- The parameters of `scanWrapperInvocation`. The state of `onToken` is the one variable a
callback keeps between tokens, `expectsArchName` of `arch`. Moving the command index only
ever moves it forward. -/
structure WrapperScan where
  separators : List Str
  onToken : Bool → Str → Str → WrapperScanDirective × Bool
  adjustCommand : List Str → Option (List Str) := some
  adjustCommand_suffix : ∀ {rest command},
    adjustCommand rest = some command → command <:+ rest := by simp

/-- The loop of `scanWrapperInvocation`: the arguments from the command index on. -/
def WrapperScan.loop (host : Host) (scan : WrapperScan) : Bool → Bool → List Str → Option (List Str)
  | _, expectsOptionValue, [] => if expectsOptionValue then none else some []
  | state, expectsOptionValue, arg :: rest =>
    let token := trim arg
    if token = [] then scan.loop host state expectsOptionValue rest
    else if expectsOptionValue then scan.loop host state false rest
    else if token ∈ scan.separators then some rest
    else
      match scan.onToken state token (normalizeLowercaseStringOrEmpty host token) with
      | (.stop, _) => some (arg :: rest)
      | (.invalid, _) => none
      | (.consumeNext, state') => scan.loop host state' true rest
      | (.next, state') => scan.loop host state' false rest

variable (host : Host) (argv : List Str)

def scanWrapperInvocation (scan : WrapperScan) (argv : List Str) : Option (List Str) :=
  ((scan.loop host false false argv.tail).bind scan.adjustCommand).filter (· ≠ [])

/-- `unwrapDashOptionInvocation`: tokens are options up to the first that does not start
with a dash. -/
def dashOptionScan (onFlag : Str → Str → WrapperScanDirective) : WrapperScan where
  separators := ["--"]
  onToken state token lower :=
    if !startsWith token "-" ∨ token = ("-" : Str) then (.stop, state)
    else (onFlag (beforeChar '=' lower) lower, state)

/-- An option takes the next token unless its value is attached. -/
def optionValueDirective (attached : Bool) : WrapperScanDirective :=
  if attached then .next else .consumeNext

/-! ## The wrappers -/

def niceOptionsWithValue : List Str := ["-n", "--adjustment", "--priority"]

def niceScan : WrapperScan := dashOptionScan (fun flag lower =>
    if lower.tail ≠ [] ∧ lower.headD ' ' = '-' ∧ lower.tail.all Char.isDigit then .next
    else if flag ∈ niceOptionsWithValue then
      optionValueDirective ('=' ∈ lower ∨ lower ≠ flag)
    else if startsWith lower "-n" ∧ lower.length > 2 then .next
    else .invalid)

def caffeinateOptionsWithValue : List Str := ["-t", "-w"]

def caffeinateScan : WrapperScan := dashOptionScan (fun flag lower =>
    if flag ∈ (["-d", "-i", "-m", "-s", "-u"] : List Str) then .next
    else if flag ∈ caffeinateOptionsWithValue then
      optionValueDirective (lower ≠ flag ∨ '=' ∈ lower)
    else .invalid)

def nohupScan : WrapperScan where
  separators := ["--"]
  onToken state token lower :=
    if !startsWith token "-" ∨ token = ("-" : Str) then (.stop, state)
    else if lower = ("--help" : Str) ∨ lower = ("--version" : Str) then (.next, state)
    else (.invalid, state)

def sandboxExecOptionsWithValue : List Str := ["-f", "-p", "-d"]

def sandboxExecScan : WrapperScan := dashOptionScan (fun flag lower =>
    if flag ∈ sandboxExecOptionsWithValue then
      optionValueDirective (lower ≠ flag ∨ '=' ∈ lower)
    else .invalid)

def stdbufOptionsWithValue : List Str := ["-i", "--input", "-o", "--output", "-e", "--error"]

def stdbufScan : WrapperScan := dashOptionScan (fun flag lower =>
    if flag ∉ stdbufOptionsWithValue then .invalid
    else optionValueDirective ('=' ∈ lower))

def timeFlagOptions : List Str :=
  ["-a", "--append", "-h", "--help", "-l", "-p", "-q", "--quiet", "-v", "--verbose", "-V",
    "--version"]

def timeOptionsWithValue : List Str := ["-f", "--format", "-o", "--output"]

def timeScan : WrapperScan := dashOptionScan (fun flag lower =>
    if flag ∈ timeFlagOptions then .next
    else if flag ∈ timeOptionsWithValue then optionValueDirective ('=' ∈ lower)
    else .invalid)

def timeoutFlagOptions : List Str := ["--foreground", "--preserve-status", "-v", "--verbose"]

def timeoutOptionsWithValue : List Str := ["-k", "--kill-after", "-s", "--signal"]

/-- `timeout` has its duration before the command. -/
def timeoutScan : WrapperScan := { dashOptionScan (fun flag lower =>
    if flag ∈ timeoutFlagOptions then .next
    else if flag ∈ timeoutOptionsWithValue then optionValueDirective ('=' ∈ lower)
    else .invalid) with
  adjustCommand rest := if rest.tail = [] then none else some rest.tail
  adjustCommand_suffix := by
    intro rest command h
    split_ifs at h
    exact Option.some.inj h ▸ List.tail_suffix rest }

def bsdScriptFlagOptions : List Str := ["-a", "-d", "-k", "-p", "-q", "-r"]

def bsdScriptOptionsWithValue : List Str := ["-F", "-t"]

def dropBlankArgs : List Str := argv.dropWhile fun arg => trim arg = []

/-- `script` has the transcript file before the command. -/
def scriptScan : WrapperScan where
  separators := ["--"]
  onToken state token lower :=
    let flag := beforeChar '=' token
    if !startsWith lower "-" ∨ lower = ("-" : Str) then (.stop, state)
    else if flag ∈ bsdScriptOptionsWithValue then
      (optionValueDirective ('=' ∈ token), state)
    else if flag ∈ bsdScriptFlagOptions then (.next, state)
    else (.invalid, state)
  adjustCommand rest :=
    let command := dropBlankArgs (dropBlankArgs rest).tail
    if command = [] then none else some command
  adjustCommand_suffix := by
    intro rest command h
    dsimp only at h
    split_ifs at h
    obtain rfl := Option.some.inj h
    exact (List.dropWhile_suffix _).trans
      ((List.tail_suffix _).trans (List.dropWhile_suffix _))

def knownArchSelectorTokens : List Str := ["-arm64", "-arm64e", "-i386", "-x86_64", "-x86_64h"]

/-- `/^-[A-Za-z0-9_]+$/`. -/
def isArchSelectorToken (token : Str) : Bool :=
  match token with
  | '-' :: c :: rest => (c :: rest).all fun c => c.isAlphanum || c == '_'
  | _ => false

/-- `arch` names its architecture in an option of its own or after `-arch`; the state says
that the name is expected next. -/
def archScan : WrapperScan where
  separators := []
  onToken expectsArchName token lower :=
    if expectsArchName then
      (if ('-' :: lower) ∈ knownArchSelectorTokens then .next else .invalid, false)
    else if !startsWith token "-" ∨ token = ("-" : Str) then (.stop, false)
    else if lower = ("-32" : Str) ∨ lower = ("-64" : Str) then (.next, false)
    else if lower = ("-arch" : Str) then (.next, true)
    -- `arch` can also change the environment, which is not transparent
    else if lower ∈ (["-c", "-d", "-e", "-h"] : List Str) then (.invalid, false)
    else if isArchSelectorToken token ∧ lower ∈ knownArchSelectorTokens then (.next, false)
    else (.invalid, false)

def xcrunFlagOptions : List Str :=
  ["-k", "--kill-cache", "-l", "--log", "-n", "--no-cache", "-r", "--run", "-v", "--verbose"]

def xcrunScan : WrapperScan where
  separators := []
  onToken state token lower :=
    if !startsWith token "-" ∨ token = ("-" : Str) then (.stop, state)
    else if lower ∈ xcrunFlagOptions then (.next, state)
    else (.invalid, state)

/-! ## The table of wrappers -/

/-- How the command of a wrapper is found: by the `env` prelude, or by a scan that is only
made on some platforms. -/
inductive DispatchUnwrap where
  | env
  | scan (supported : NodePlatform → Bool) (wrapperScan : WrapperScan)

def DispatchUnwrap.run : DispatchUnwrap → List Str → Option (List Str)
  | .env, argv => unwrapEnvInvocation host argv
  | .scan supported wrapperScan, argv =>
    if supported host.platform then scanWrapperInvocation host wrapperScan argv else none

/-- `unwrap` is missing for wrappers that are never looked through. -/
structure DispatchWrapperSpec where
  name : Str
  unwrap : Option DispatchUnwrap
  transparentUsage : Host → List Str → Bool

variable (name : Str)

/-- A wrapper that is never looked through. -/
def opaqueWrapper : DispatchWrapperSpec := ⟨name, none, fun _ _ => false⟩

/-- A wrapper that is transparent whenever its options are known. -/
def scannedWrapper (scan : WrapperScan) : DispatchWrapperSpec :=
  ⟨name, some (.scan (fun _ => true) scan), fun _ _ => true⟩

variable (platform : NodePlatform)

def supportsScriptPositionalCommand : Bool :=
  platform = .darwin ∨ platform = .freebsd

def supportsArchDispatchWrapper : Bool := platform = .darwin

def supportsXcrunDispatchWrapper : Bool := platform = .darwin

def dispatchWrapperSpecs : List DispatchWrapperSpec := [
  ⟨"arch", some (.scan supportsArchDispatchWrapper archScan),
    fun host _ => supportsArchDispatchWrapper host.platform⟩,
  scannedWrapper "caffeinate" caffeinateScan,
  opaqueWrapper "chrt",
  opaqueWrapper "doas",
  ⟨"env", some .env, fun host argv => !envInvocationUsesModifiers host argv⟩,
  opaqueWrapper "ionice",
  scannedWrapper "nice" niceScan,
  scannedWrapper "nohup" nohupScan,
  scannedWrapper "sandbox-exec" sandboxExecScan,
  ⟨"script", some (.scan supportsScriptPositionalCommand scriptScan), fun _ _ => true⟩,
  opaqueWrapper "setsid",
  scannedWrapper "stdbuf" stdbufScan,
  opaqueWrapper "sudo",
  opaqueWrapper "taskset",
  scannedWrapper "time" timeScan,
  scannedWrapper "timeout" timeoutScan,
  ⟨"xcrun", some (.scan supportsXcrunDispatchWrapper xcrunScan),
    fun host _ => supportsXcrunDispatchWrapper host.platform⟩]

def dispatchWrapperSpec? : Option DispatchWrapperSpec :=
  dispatchWrapperSpecs.find? (·.name = name)

def isDispatchWrapperExecutable (token : Str) : Bool :=
  (dispatchWrapperSpec? (normalizeExecutableToken host token)).isSome

/-- The result of looking through one wrapper. -/
inductive WrapperUnwrapResult where
  | notWrapper
  | blocked (wrapper : Str)
  | unwrapped (wrapper : Str) (argv : List Str)
deriving DecidableEq

def unwrapKnownDispatchWrapperInvocation : WrapperUnwrapResult :=
  if token0 argv = [] then .notWrapper
  else
    let wrapper := normalizeExecutableToken host (token0 argv)
    match dispatchWrapperSpec? wrapper with
    | none => .notWrapper
    | some spec =>
      match spec.unwrap.bind (·.run host argv) with
      | some unwrapped => .unwrapped wrapper unwrapped
      | none => .blocked wrapper

def isSemanticDispatchWrapperUsage (wrapper : Str) (argv : List Str) : Bool :=
  match dispatchWrapperSpec? wrapper with
  | none => true
  | some spec => spec.unwrap.isNone || !spec.transparentUsage host argv

/-! ## The trust plan of the dispatch wrappers -/

structure DispatchWrapperTrustPlan where
  argv : List Str
  wrappers : List Str
  policyBlocked : Bool
  blockedWrapper : Option Str
deriving DecidableEq

/-- The outcome of the loop of `resolveDispatchWrapperTrustPlan`: the plan it returned
early, or the arguments and wrappers it stopped with. -/
def dispatchWrapperLoop (host : Host) : ℕ → List Str → List Str →
    DispatchWrapperTrustPlan ⊕ List Str × List Str
  | 0, current, wrappers => .inr (current, wrappers)
  | fuel + 1, current, wrappers =>
    match unwrapKnownDispatchWrapperInvocation host current with
    | .blocked wrapper => .inl ⟨current, wrappers, true, some wrapper⟩
    | .notWrapper => .inr (current, wrappers)
    | .unwrapped _ [] => .inr (current, wrappers)
    | .unwrapped wrapper (arg :: rest) =>
      if isSemanticDispatchWrapperUsage host wrapper current then
        .inl ⟨current, wrappers ++ [wrapper], true, some wrapper⟩
      else dispatchWrapperLoop host fuel (arg :: rest) (wrappers ++ [wrapper])

def resolveDispatchWrapperTrustPlan (maxDepth : ℕ) : DispatchWrapperTrustPlan :=
  match dispatchWrapperLoop host maxDepth argv [] with
  | .inl plan => plan
  | .inr (current, wrappers) =>
    if wrappers.length ≥ maxDepth then
      match unwrapKnownDispatchWrapperInvocation host current with
      | .notWrapper => ⟨current, wrappers, false, none⟩
      | .blocked overflow | .unwrapped overflow _ => ⟨current, wrappers, true, some overflow⟩
    else ⟨current, wrappers, false, none⟩

def unwrapDispatchWrappersForResolution : List Str :=
  (resolveDispatchWrapperTrustPlan host argv maxDispatchWrapperDepth).argv

def hasDispatchEnvManipulation : Bool :=
  match unwrapKnownDispatchWrapperInvocation host argv with
  | .unwrapped wrapper _ => wrapper = ("env" : Str) ∧ envInvocationUsesModifiers host argv
  | _ => false

/-! ## What a wrapper is stripped to -/

variable {host : Host} {scan : WrapperScan} {argv unwrapped : List Str} {wrapper : Str}

theorem WrapperScan.loop_suffix {state expects : Bool}
    {rest : List Str} (h : scan.loop host state expects argv = some rest) : rest <:+ argv := by
  fun_induction WrapperScan.loop host scan state expects argv with
  | case2 =>
    obtain rfl := some.inj h
    exact suffix_rfl
  | case3 | case4 | case8 | case9 =>
    rename_i ih
    exact (ih h).trans (suffix_cons _ _)
  | case5 =>
    obtain rfl := some.inj h
    exact suffix_cons _ _
  | case6 =>
    obtain rfl := some.inj h
    exact suffix_rfl
  | _ => exact nomatch h

/-- A scan returns a non-empty part of the arguments after the wrapper's name. -/
theorem scanWrapperInvocation_suffix (h : scanWrapperInvocation host scan argv = some unwrapped) :
    unwrapped <:+ argv.tail ∧ unwrapped ≠ [] := by
  rw [scanWrapperInvocation, filter_eq_some_iff, bind_eq_some_iff] at h
  obtain ⟨⟨rest, hloop, hadjust⟩, hne⟩ := h
  exact ⟨(scan.adjustCommand_suffix hadjust).trans (WrapperScan.loop_suffix hloop),
    by simpa using hne⟩

/-- `env` is the only wrapper found by its prelude, and it is transparent exactly when it
has no modifiers. -/
theorem transparentUsage_of_env {spec : DispatchWrapperSpec}
    (hspec : spec ∈ dispatchWrapperSpecs) (henv : spec.unwrap = some .env) (host : Host)
    (argv : List Str) : spec.transparentUsage host argv = !envInvocationUsesModifiers host argv := by
  simp only [dispatchWrapperSpecs, scannedWrapper, opaqueWrapper, mem_cons,
    not_mem_nil, or_false] at hspec
  rcases hspec with rfl | rfl | rfl | rfl | rfl | rfl | rfl | rfl | rfl | rfl | rfl | rfl |
    rfl | rfl | rfl | rfl | rfl
  all_goals first | (simp at henv; done) | rfl

section

variable (h : unwrapKnownDispatchWrapperInvocation host argv = .unwrapped wrapper unwrapped)
include h

/-- What `unwrapKnownDispatchWrapperInvocation` does for a wrapper of the table. -/
theorem unwrapKnownDispatchWrapperInvocation_eq_unwrapped :
    wrapper = normalizeExecutableToken host (token0 argv) ∧ token0 argv ≠ [] ∧
    ∃ spec unwrap, dispatchWrapperSpec? wrapper = some spec ∧ spec.unwrap = some unwrap ∧
      unwrap.run host argv = some unwrapped := by
  rw [unwrapKnownDispatchWrapperInvocation] at h
  split at h
  · exact nomatch h
  rename_i htok
  dsimp only at h
  split at h
  · exact nomatch h
  rename_i spec hspec
  split at h
  · rename_i argv' hrun
    obtain ⟨unwrap, hunwrap, hrun⟩ := Option.bind_eq_some_iff.mp hrun
    obtain ⟨rfl, rfl⟩ := WrapperUnwrapResult.unwrapped.inj h
    exact ⟨rfl, htok, spec, unwrap, hspec, hunwrap, hrun⟩
  · exact nomatch h

/-- A wrapper used transparently is stripped to a non-empty part of its own arguments. -/
theorem unwrapped_suffix_of_transparent
    (hsem : isSemanticDispatchWrapperUsage host wrapper argv = false) :
    unwrapped <:+ argv ∧ unwrapped ≠ [] := by
  obtain ⟨-, -, spec, unwrap, hspec, hunwrap, hrun⟩ :=
    unwrapKnownDispatchWrapperInvocation_eq_unwrapped h
  cases unwrap with
  | env =>
    have hmod : envInvocationUsesModifiers host argv = false := by
      have htable := transparentUsage_of_env (mem_of_find?_eq_some hspec) hunwrap host argv
      simpa [isSemanticDispatchWrapperUsage, hspec, hunwrap, htable] using hsem
    obtain ⟨hsuffix, hne, -⟩ := unwrapEnvInvocation_suffix hrun hmod
    exact ⟨hsuffix, hne⟩
  | scan supported wrapperScan =>
    rw [DispatchUnwrap.run] at hrun
    split_ifs at hrun
    obtain ⟨hsuffix, hne⟩ := scanWrapperInvocation_suffix hrun
    exact ⟨hsuffix.trans (tail_suffix argv), hne⟩

/-- Nothing is ever stripped to an empty command. -/
theorem unwrapKnownDispatchWrapperInvocation_ne_nil : unwrapped ≠ [] := by
  obtain ⟨-, -, spec, unwrap, -, -, hrun⟩ := unwrapKnownDispatchWrapperInvocation_eq_unwrapped h
  cases unwrap with
  | env =>
    rintro rfl
    exact unwrapEnvInvocation_ne_nil host argv hrun
  | scan supported wrapperScan =>
    rw [DispatchUnwrap.run] at hrun
    split_ifs at hrun
    exact (scanWrapperInvocation_suffix hrun).2

end

/-! ## Unknown options -/

/-- Whether the loop of a scan meets an option the wrapper does not know. -/
def WrapperScan.meetsUnknownOption (host : Host) (scan : WrapperScan) :
    Bool → Bool → List Str → Bool
  | _, _, [] => false
  | state, expectsOptionValue, arg :: rest =>
    let token := trim arg
    if token = [] then scan.meetsUnknownOption host state expectsOptionValue rest
    else if expectsOptionValue then scan.meetsUnknownOption host state false rest
    else if token ∈ scan.separators then false
    else
      match scan.onToken state token (normalizeLowercaseStringOrEmpty host token) with
      | (.stop, _) => false
      | (.invalid, _) => true
      | (.consumeNext, state') => scan.meetsUnknownOption host state' true rest
      | (.next, state') => scan.meetsUnknownOption host state' false rest

theorem WrapperScan.loop_eq_none_of_meetsUnknownOption {state expects : Bool}
    (h : scan.meetsUnknownOption host state expects argv = true) :
    scan.loop host state expects argv = none := by
  induction argv generalizing state expects with
  | nil => exact absurd h (by simp [meetsUnknownOption])
  | cons arg rest ih =>
    rw [meetsUnknownOption] at h
    rw [loop]
    by_cases htok : trim arg = []
    · simp only [htok, if_true] at h ⊢
      exact ih h
    by_cases hexpects : expects = true
    · simp only [htok, hexpects, if_true, if_false] at h ⊢
      exact ih h
    by_cases hsep : trim arg ∈ scan.separators
    · simp [htok, hexpects, hsep] at h
    simp only [if_neg htok, if_neg hexpects, if_neg hsep] at h ⊢
    split at h
    · exact nomatch h
    · rfl
    · exact ih h
    · exact ih h

def DispatchUnwrap.meetsUnknownOption (host : Host) (argv : List Str) : DispatchUnwrap → Bool
  | .env => envMeetsUnknownOption host (maxEnvSplitPayloadDepth + 1) argv
  | .scan _ wrapperScan => wrapperScan.meetsUnknownOption host false false argv.tail

/-- Whether the front of a command is a dispatch wrapper with an option that its scanner
does not know. -/
def usesUnknownDispatchOption (host : Host) (argv : List Str) : Bool :=
  token0 argv ≠ [] ∧
    ((dispatchWrapperSpec? (normalizeExecutableToken host (token0 argv))).bind (·.unwrap)).any
      (·.meetsUnknownOption host argv)

/-- A wrapper with an unknown option is blocked, or its use is not transparent. -/
theorem blocked_or_semantic_of_usesUnknownDispatchOption
    (h : usesUnknownDispatchOption host argv = true) :
    ∃ wrapper, unwrapKnownDispatchWrapperInvocation host argv = .blocked wrapper ∨
      (∃ unwrapped, unwrapKnownDispatchWrapperInvocation host argv = .unwrapped wrapper unwrapped) ∧
        isSemanticDispatchWrapperUsage host wrapper argv = true := by
  rw [usesUnknownDispatchOption, decide_eq_true_eq] at h
  obtain ⟨htok, hany⟩ := h
  obtain ⟨unwrap, hbind, hmeets⟩ := Option.any_eq_true _ _ |>.mp hany
  obtain ⟨spec, hspec, hunwrap⟩ := Option.bind_eq_some_iff.mp hbind
  refine ⟨normalizeExecutableToken host (token0 argv), ?_⟩
  have hresult : unwrapKnownDispatchWrapperInvocation host argv =
      match unwrap.run host argv with
      | some unwrapped => .unwrapped (normalizeExecutableToken host (token0 argv)) unwrapped
      | none => .blocked (normalizeExecutableToken host (token0 argv)) := by
    simp only [unwrapKnownDispatchWrapperInvocation, htok, if_false, hspec, hunwrap, bind_some]
  rw [hresult]
  cases unwrap with
  | env =>
    have hsem : isSemanticDispatchWrapperUsage host (normalizeExecutableToken host (token0 argv))
        argv = true := by
      have htable := transparentUsage_of_env (mem_of_find?_eq_some hspec) hunwrap host argv
      simp [isSemanticDispatchWrapperUsage, hspec, hunwrap, htable,
        envInvocationUsesModifiers_of_meetsUnknownOption hmeets]
    cases hrun : DispatchUnwrap.env.run host argv with
    | none => exact .inl rfl
    | some unwrapped => exact .inr ⟨⟨unwrapped, rfl⟩, hsem⟩
  | scan supported wrapperScan =>
    have hrun : (DispatchUnwrap.scan supported wrapperScan).run host argv = none := by
      rw [DispatchUnwrap.run, scanWrapperInvocation,
        WrapperScan.loop_eq_none_of_meetsUnknownOption hmeets]
      simp
    rw [hrun]
    exact .inl rfl

end OpenClaw
