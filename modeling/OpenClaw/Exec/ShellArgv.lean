import OpenClaw.Text.Basic

/-!
# `splitShellArgs`

The word splitter of `utils/shell-argv.ts`: one pass over the text with a quoting mode
and the word read so far. Quotes are removed and empty words are dropped.
-/

namespace OpenClaw

/-- The flags `inSingle`, `inDouble` and `escaped` of the scanners. `escaped` is only ever
set outside quotes, so at most one of the three holds. -/
inductive QuoteMode where
  | plain | escaped | single | double
deriving DecidableEq

namespace ShellArgv

/-- The characters a backslash escapes between double quotes, for `splitShellArgs`. -/
def isDoubleQuoteEscape (c : Char) : Bool :=
  c == '\\' || c == '"' || c == '$' || c == '`' || c == '\n' || c == '\r'

end ShellArgv

/-- `pushToken`: a non-empty buffer becomes a token. -/
def pushToken (tokens : List Str) (buf : Str) : List Str :=
  if buf = [] then tokens else tokens ++ [buf]

/-- The loop of `splitShellArgs`, with `raw` the text not yet read. -/
def splitShellArgsLoop : QuoteMode → Str → List Str → Str → Option (List Str)
  | .plain, buf, tokens, [] => some (pushToken tokens buf)
  | _, _, _, [] => none
  | .escaped, buf, tokens, ch :: raw => splitShellArgsLoop .plain (buf ++ [ch]) tokens raw
  | .single, buf, tokens, ch :: raw =>
    if ch = '\'' then splitShellArgsLoop .plain buf tokens raw
    else splitShellArgsLoop .single (buf ++ [ch]) tokens raw
  | .double, buf, tokens, [ch] =>
    if ch = '"' then splitShellArgsLoop .plain buf tokens []
    else splitShellArgsLoop .double (buf ++ [ch]) tokens []
  | .double, buf, tokens, ch :: next :: raw =>
    if ch = '\\' ∧ ShellArgv.isDoubleQuoteEscape next then
      splitShellArgsLoop .double (buf ++ [next]) tokens raw
    else if ch = '"' then splitShellArgsLoop .plain buf tokens (next :: raw)
    else splitShellArgsLoop .double (buf ++ [ch]) tokens (next :: raw)
  | .plain, buf, tokens, ch :: raw =>
    if ch = '\\' then splitShellArgsLoop .escaped buf tokens raw
    else if ch = '\'' then splitShellArgsLoop .single buf tokens raw
    else if ch = '"' then splitShellArgsLoop .double buf tokens raw
    -- in POSIX shells `#` starts a comment only when it begins a word
    else if ch = '#' ∧ buf = [] then some tokens
    else if isSpace ch then splitShellArgsLoop .plain [] (pushToken tokens buf) raw
    else splitShellArgsLoop .plain (buf ++ [ch]) tokens raw

/-- `splitShellArgs`: the words of `raw`, or `none` when a quote or an escape is open at
the end. -/
def splitShellArgs (raw : Str) : Option (List Str) := splitShellArgsLoop .plain [] [] raw

/-! ## Executable tokens

`exec-wrapper-tokens.ts`: an `argv[0]` is compared with the names of known wrappers by its
lower-cased base name without a Windows suffix. The base name is the shorter of the two
that Node's `path.win32` and `path.posix` give. -/

/-! ## Node's `path.basename` -/

/-- The last non-empty component of `s` between separators. -/
def takeBasename (isSep : Char → Bool) (s : Str) : Str :=
  ((s.reverse.dropWhile isSep).takeWhile fun c => !isSep c).reverse

/-- `path.posix.basename`. -/
def posixBasename (s : Str) : Str := takeBasename (· == '/') s

/-- The text after a Windows drive prefix such as `C:`. -/
def dropDrivePrefix : Str → Str
  | c :: ':' :: rest => if c.isAlpha then rest else c :: ':' :: rest
  | s => s

/-- `path.win32.basename`. -/
def win32Basename (s : Str) : Str :=
  takeBasename (fun c => c == '/' || c == '\\') (dropDrivePrefix s)

/-! ## Normalization -/

def windowsExecutableSuffixes : List Str := [".exe", ".cmd", ".bat", ".com"]

/-- The first suffix of the list that the value ends with is cut off. -/
def stripWindowsExecutableSuffix (value : Str) : Str :=
  match windowsExecutableSuffixes.find? (endsWith value) with
  | some suffix => value.take (value.length - suffix.length)
  | none => value

def basenameLower (host : Host) (token : Str) : Str :=
  let win := win32Basename token
  let posix := posixBasename token
  normalizeLowercaseStringOrEmpty host (if win.length < posix.length then win else posix)

def normalizeExecutableToken (host : Host) (token : Str) : Str :=
  stripWindowsExecutableSuffix (basenameLower host token)

/-- `argv[0]?.trim() ?? ""`, the token every wrapper test looks at. -/
def token0 (argv : List Str) : Str := trim (argv.headD [])

example : normalizeExecutableToken .asciiLinux "/usr/bin/SUDO.exe" = ("sudo" : Str) := by decide

end OpenClaw
