import OpenClaw.Exec.ShellArgv

/-!
# `env` invocations

The part of `command-carriers.ts` that the wrapper resolution uses: which argument of an
`env` command is the command it runs. `env -S` splits a string into arguments and scans
the result again, at most `maxEnvSplitPayloadDepth` times; the recursion below is on the
number of scans still allowed.
-/

namespace OpenClaw

open List Option

/-! ## Carrier options -/

/-- One option of a scanned token, with the value written in the same token. -/
structure ParsedCarrierOption where
  name : Str
  inlineValue : Option Str
deriving DecidableEq

def ParsedCarrierOption.hasInlineValue (o : ParsedCarrierOption) : Bool := o.inlineValue.isSome

/-- The short options after the dash of `-abc`. An option with a value takes the rest of
the token. -/
def parseShortOptions (standaloneOptions optionsWithValue nonExecutingOptions : List Str) :
    Str → Option (List ParsedCarrierOption)
  | [] => some []
  | c :: rest =>
    let name : Str := ['-', c]
    if name ∈ optionsWithValue then
      some [⟨name, if rest = [] then none else some rest⟩]
    else if name ∈ standaloneOptions ∨ name ∈ nonExecutingOptions then
      (parseShortOptions standaloneOptions optionsWithValue nonExecutingOptions rest).map
        (⟨name, none⟩ :: ·)
    else none

def parseCarrierOptionToken
    (standaloneOptions optionsWithValue nonExecutingOptions : List Str) (token : Str) :
    Option (List ParsedCarrierOption) :=
  if startsWith token "--" then
    let name := beforeChar '=' token
    if name ∈ standaloneOptions ∨ name ∈ optionsWithValue ∨ name ∈ nonExecutingOptions then
      some [⟨name, afterChar? '=' token⟩]
    else none
  else
    match token with
    | '-' :: c :: rest =>
      if c.isAlphanum then
        parseShortOptions standaloneOptions optionsWithValue nonExecutingOptions (c :: rest)
      else none
    | _ => none

/-- Whether the options take the next token as a value; `none` when one of them keeps the
carrier from running a command at all. -/
def knownCarrierOptionConsumesNextValue
    (options : List ParsedCarrierOption) (optionsWithValue nonExecutingOptions : List Str) :
    Option Bool :=
  if options.any (·.name ∈ nonExecutingOptions) then none
  else some (options.foldl
    (fun consumes o => if o.name ∈ optionsWithValue then !o.hasInlineValue else consumes) false)

/-! ## The option tables of `env` -/

def maxEnvSplitPayloadDepth : ℕ := 32

def envOptionsWithValue : List Str :=
  ["-C", "-P", "-S", "-s", "-u", "--argv0", "--block-signal", "--chdir", "--default-signal",
    "--ignore-signal", "--split-string", "--unset"]

def envSplitStringOptions : List Str := ["-S", "-s", "--split-string"]

def envStandaloneOptions : List Str := ["-0", "-i", "--ignore-environment", "--null"]

def isLineTerminator (c : Char) : Bool :=
  c == '\n' || c == '\r' || c.toNat == 8232 || c.toNat == 8233

/-- `/^[A-Za-z_][A-Za-z0-9_]*=.*$/u`. -/
def isEnvAssignmentToken (token : Str) : Bool :=
  match beforeChar '=' token, afterChar? '=' token with
  | c :: key, some value =>
    (c.isAlpha || c == '_') && key.all (fun k => k.isAlphanum || k == '_') &&
      value.all (fun v => !isLineTerminator v)
  | _, _ => false

/-! ## The prelude of an `env` command -/

structure ParsedEnvInvocationPrelude where
  assignmentKeys : List Str
  commandIndex : ℕ
  splitArgv : Option (List Str)
  usesModifiers : Bool
deriving DecidableEq

/-- `resolveEnvSplitPayload`, with `carriedArgv` the scan of the arguments one level
deeper. -/
def resolveEnvSplitPayload (carriedArgv : List Str → Option (List Str))
    (payload : Str) (trailingArgv : List Str) : Option (List Str) :=
  match splitShellArgs payload with
  | none | some [] => none
  | some innerArgv =>
    let carried := innerArgv ++ trailingArgv
    some ((carriedArgv ("env" :: carried)).getD carried)

/-- The loop of `parseEnvInvocationPrelude` from token `index` on. -/
def parseEnvPreludeLoop (carriedArgv : List Str → Option (List Str)) :
    Bool → List Str → ℕ → List Str → Option ParsedEnvInvocationPrelude
  | _, _, _, [] => none
  | usesModifiers, keys, index, token :: rest =>
    if token = [] then none
    else if isEnvAssignmentToken token then
      parseEnvPreludeLoop carriedArgv true (keys ++ [beforeChar '=' token]) (index + 1) rest
    else if token = ("--" : Str) ∨ token = ("-" : Str) then
      if rest = [] then none else some ⟨keys, index + 1, none, usesModifiers⟩
    else if startsWith token "-" then
      match parseCarrierOptionToken envStandaloneOptions envOptionsWithValue [] token with
      | none => none
      | some options =>
        match options.find? (·.name ∈ envSplitStringOptions), rest with
        | some ⟨_, some payload⟩, rest =>
          (resolveEnvSplitPayload carriedArgv payload rest).map
            fun splitArgv => ⟨keys, index + 1, some splitArgv, true⟩
        | some ⟨_, none⟩, payload :: trailing =>
          (resolveEnvSplitPayload carriedArgv payload trailing).map
            fun splitArgv => ⟨keys, index + 2, some splitArgv, true⟩
        | some ⟨_, none⟩, [] => none
        | none, [] => none
        | none, next :: trailing =>
          if knownCarrierOptionConsumesNextValue options envOptionsWithValue [] = some true then
            parseEnvPreludeLoop carriedArgv true keys (index + 2) trailing
          else parseEnvPreludeLoop carriedArgv true keys (index + 1) (next :: trailing)
    else some ⟨keys, index, none, usesModifiers⟩

/-- `parsed.splitArgv ?? argv.slice(parsed.commandIndex)`. -/
def ParsedEnvInvocationPrelude.carriedArgv (parsed : ParsedEnvInvocationPrelude)
    (argv : List Str) : List Str :=
  parsed.splitArgv.getD (argv.drop parsed.commandIndex)

/-- `resolveEnvCarriedArgv` with `remaining` scans left. -/
def resolveEnvCarriedArgv (host : Host) : ℕ → List Str → Option (List Str)
  | 0, _ => none
  | remaining + 1, argv =>
    if normalizeExecutableToken host (argv.headD []) ≠ ("env" : Str) then none
    else (parseEnvPreludeLoop (resolveEnvCarriedArgv host remaining) false [] 1 argv.tail).map
      (·.carriedArgv argv)

variable (host : Host)

variable (argv : List Str)

def parseEnvInvocationPrelude : Option ParsedEnvInvocationPrelude :=
  if normalizeExecutableToken host (argv.headD []) ≠ ("env" : Str) then none
  else parseEnvPreludeLoop (resolveEnvCarriedArgv host maxEnvSplitPayloadDepth) false [] 1 argv.tail

def envInvocationUsesModifiers : Bool :=
  match parseEnvInvocationPrelude host argv with
  | some parsed => parsed.usesModifiers
  | none => normalizeExecutableToken host (argv.headD []) = ("env" : Str)

def unwrapEnvInvocation : Option (List Str) :=
  (parseEnvInvocationPrelude host argv).map (·.carriedArgv argv)

example : unwrapEnvInvocation .asciiLinux ["env", "-S", "A=1 ls -l", "x"]
    = some (["ls", "-l", "x"] : List Str) := by decide +kernel

/-! ## What the scan returns -/

variable {parsed : ParsedEnvInvocationPrelude} {carriedArgv : List Str → Option (List Str)}
  {argv : List Str}

/-- The command index points into the arguments, and a prelude without modifiers was not
split from a string. -/
theorem parseEnvPreludeLoop_spec (carriedArgv : List Str → Option (List Str))
    (usesModifiers : Bool) (keys : List Str) (index : ℕ) (rest : List Str)
    (h : parseEnvPreludeLoop carriedArgv usesModifiers keys index rest = some parsed) :
    (parsed.usesModifiers = false → parsed.splitArgv = none) ∧ (parsed.splitArgv = none →
      index ≤ parsed.commandIndex ∧ parsed.commandIndex < index + rest.length) := by
  fun_induction parseEnvPreludeLoop carriedArgv usesModifiers keys index rest with
  | case3 | case11 | case12 =>
    rename_i ih
    obtain ⟨hmod, hidx⟩ := ih h
    refine ⟨hmod, fun hsplit => ?_⟩
    have := hidx hsplit
    simp only [length_cons] at this ⊢
    omega
  | case5 _ _ _ _ rest _ _ _ hrest =>
    obtain rfl := some.inj h
    have := length_pos_of_ne_nil hrest
    exact ⟨fun _ => rfl, fun _ => ⟨by simp, by simp only [length_cons]; omega⟩⟩
  | case13 =>
    obtain rfl := some.inj h
    exact ⟨fun _ => rfl, fun _ => ⟨le_rfl, by simp⟩⟩
  | case7 | case8 =>
    -- the string was split, which is a modifier
    obtain ⟨splitArgv, -, rfl⟩ := Option.map_eq_some_iff.mp h
    exact ⟨by simp, by simp⟩
  | _ => exact nomatch h

section

variable (hcarried : ∀ argv, carriedArgv argv ≠ some [])
include hcarried

theorem resolveEnvSplitPayload_ne_nil (payload : Str) (trailingArgv : List Str) :
    resolveEnvSplitPayload carriedArgv payload trailingArgv ≠ some [] := by
  unfold resolveEnvSplitPayload
  split
  · simp
  · simp
  rename_i innerArgv hne hsplit
  have hinner : innerArgv ++ trailingArgv ≠ [] := by
    intro h
    exact hne (append_eq_nil_iff.mp h).1
  dsimp only
  cases hscan : carriedArgv ("env" :: (innerArgv ++ trailingArgv)) with
  | none => simpa using hinner
  | some argv =>
    rw [getD_some]
    exact fun h => hcarried _ (hscan.trans h)

theorem parseEnvPreludeLoop_splitArgv_ne_nil (usesModifiers : Bool) (keys : List Str)
    (index : ℕ) (rest : List Str)
    (h : parseEnvPreludeLoop carriedArgv usesModifiers keys index rest = some parsed) :
    parsed.splitArgv ≠ some [] := by
  fun_induction parseEnvPreludeLoop carriedArgv usesModifiers keys index rest with
  | case3 | case11 | case12 =>
    rename_i ih
    exact ih h
  | case5 | case13 =>
    obtain rfl := some.inj h
    simp
  | case7 | case8 =>
    obtain ⟨splitArgv, hsplit, rfl⟩ := Option.map_eq_some_iff.mp h
    exact fun hnil => resolveEnvSplitPayload_ne_nil hcarried _ _ (hsplit.trans hnil)
  | _ => exact nomatch h

/-- A carried command is never empty, whether or not it was split from a string. -/
theorem carriedArgv_ne_nil
    (h : parseEnvPreludeLoop carriedArgv false [] 1 argv.tail = some parsed) :
    parsed.carriedArgv argv ≠ [] := by
  have hidx := (parseEnvPreludeLoop_spec _ _ _ _ _ h).2
  have hsplit := parseEnvPreludeLoop_splitArgv_ne_nil hcarried _ _ _ _ h
  rw [ParsedEnvInvocationPrelude.carriedArgv]
  cases hargv : parsed.splitArgv with
  | none =>
    obtain ⟨hlo, hhi⟩ := hidx hargv
    rw [length_tail] at hhi
    rw [getD_none, ne_eq, drop_eq_nil_iff]
    omega
  | some splitArgv =>
    rw [getD_some]
    exact fun hnil => hsplit (hargv.trans (congrArg some hnil))

end

theorem resolveEnvCarriedArgv_ne_nil (remaining : ℕ) (argv : List Str) :
    resolveEnvCarriedArgv host remaining argv ≠ some [] := by
  induction remaining generalizing argv with
  | zero => simp [resolveEnvCarriedArgv]
  | succ remaining ih =>
    rw [resolveEnvCarriedArgv]
    split
    · simp
    · intro h
      obtain ⟨parsed, hparsed, hnil⟩ := Option.map_eq_some_iff.mp h
      exact carriedArgv_ne_nil ih hparsed hnil

theorem unwrapEnvInvocation_ne_nil (argv : List Str) : unwrapEnvInvocation host argv ≠ some [] := by
  intro h
  obtain ⟨parsed, hparsed, hnil⟩ := Option.map_eq_some_iff.mp h
  unfold parseEnvInvocationPrelude at hparsed
  split_ifs at hparsed
  exact carriedArgv_ne_nil (resolveEnvCarriedArgv_ne_nil host _) hparsed hnil

/-- Without modifiers the carried command is a proper suffix of the arguments. -/
theorem unwrapEnvInvocation_suffix {host : Host} {unwrapped : List Str}
    (h : unwrapEnvInvocation host argv = some unwrapped)
    (hmod : envInvocationUsesModifiers host argv = false) :
    unwrapped <:+ argv ∧ unwrapped ≠ [] ∧ unwrapped.length < argv.length := by
  obtain ⟨parsed, hparsed, rfl⟩ := Option.map_eq_some_iff.mp h
  have hmods : parsed.usesModifiers = false := by
    simpa only [envInvocationUsesModifiers, hparsed] using hmod
  unfold parseEnvInvocationPrelude at hparsed
  split at hparsed
  · exact nomatch hparsed
  obtain ⟨hsplit, hidx⟩ := parseEnvPreludeLoop_spec _ _ _ _ _ hparsed
  obtain ⟨hlo, hhi⟩ := hidx (hsplit hmods)
  rw [length_tail] at hhi
  rw [ParsedEnvInvocationPrelude.carriedArgv, hsplit hmods, getD_none]
  refine ⟨drop_suffix _ _, ?_, ?_⟩
  · rw [ne_eq, drop_eq_nil_iff]
    omega
  · rw [length_drop]
    omega

/-! ## Unknown options -/

/-- Whether the scan of the prelude meets an option that is in none of the tables of `env`,
in its own arguments or in those it splits from a string. -/
def envPreludeMeetsUnknownOption (carriedMeets : List Str → Bool) : List Str → Bool
  | [] => false
  | token :: rest =>
    if token = [] then false
    else if isEnvAssignmentToken token then envPreludeMeetsUnknownOption carriedMeets rest
    else if token = ("--" : Str) ∨ token = ("-" : Str) then false
    else if startsWith token "-" then
      match parseCarrierOptionToken envStandaloneOptions envOptionsWithValue [] token with
      | none => true
      | some options =>
        let splitMeets (payload : Str) (trailing : List Str) : Bool :=
          match splitShellArgs payload with
          | some innerArgv => carriedMeets ("env" :: (innerArgv ++ trailing))
          | none => false
        match options.find? (·.name ∈ envSplitStringOptions), rest with
        | some ⟨_, some payload⟩, rest => splitMeets payload rest
        | some ⟨_, none⟩, payload :: trailing => splitMeets payload trailing
        | some ⟨_, none⟩, [] => false
        | none, [] => false
        | none, next :: trailing =>
          if knownCarrierOptionConsumesNextValue options envOptionsWithValue [] = some true then
            envPreludeMeetsUnknownOption carriedMeets trailing
          else envPreludeMeetsUnknownOption carriedMeets (next :: trailing)
    else false

def envMeetsUnknownOption (host : Host) : ℕ → List Str → Bool
  | 0, _ => false
  | remaining + 1, argv =>
    normalizeExecutableToken host (argv.headD []) = ("env" : Str) ∧
      envPreludeMeetsUnknownOption (envMeetsUnknownOption host remaining) argv.tail

/-- An unknown option ends the scan, or was split from a string, which is a modifier. -/
theorem usesModifiers_of_envPreludeMeetsUnknownOption
    (carriedArgv : List Str → Option (List Str)) (carriedMeets : List Str → Bool)
    (usesModifiers : Bool) (keys : List Str) (index : ℕ) (rest : List Str)
    (hmeets : envPreludeMeetsUnknownOption carriedMeets rest = true)
    (h : parseEnvPreludeLoop carriedArgv usesModifiers keys index rest = some parsed) :
    parsed.usesModifiers = true := by
  fun_induction parseEnvPreludeLoop carriedArgv usesModifiers keys index rest with
  | case3 =>
    rename_i ih
    rw [envPreludeMeetsUnknownOption] at hmeets
    simp_all
  | case11 | case12 =>
    rename_i ih
    rw [envPreludeMeetsUnknownOption] at hmeets
    simp only [*, reduceIte, Bool.false_eq_true] at hmeets
    exact ih hmeets h
  | case5 | case13 =>
    rw [envPreludeMeetsUnknownOption] at hmeets
    simp_all
  | case7 | case8 =>
    obtain ⟨splitArgv, -, rfl⟩ := Option.map_eq_some_iff.mp h
    rfl
  | _ => exact nomatch h

theorem envInvocationUsesModifiers_of_meetsUnknownOption {host : Host}
    {depth : ℕ} (hmeets : envMeetsUnknownOption host (depth + 1) argv = true) :
    envInvocationUsesModifiers host argv = true := by
  rw [envMeetsUnknownOption, decide_eq_true_eq] at hmeets
  obtain ⟨henv, hprelude⟩ := hmeets
  unfold envInvocationUsesModifiers
  cases hparsed : parseEnvInvocationPrelude host argv with
  | none => simpa using henv
  | some parsed =>
    rw [parseEnvInvocationPrelude, if_neg (not_not.mpr henv)] at hparsed
    exact usesModifiers_of_envPreludeMeetsUnknownOption _ _ _ _ _ _ hprelude hparsed

end OpenClaw
