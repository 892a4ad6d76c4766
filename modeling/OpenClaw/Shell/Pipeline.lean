import OpenClaw.Exec.ShellArgv

/-!
# Pipelines

`splitShellPipeline` of `exec-approvals-analysis.ts`: a command without chain operators is
split at `|`. Constructs the analysis does not understand are errors. Here-documents are
read and dropped.
-/

namespace OpenClaw

/-! ## Chains

`splitCommandChainWithOperators` of `exec-approvals-analysis.ts`: a command is split at the
operators `&&`, `||` and `;` outside quotes, up to the first comment. -/

inductive ShellChainOperator where
  | and | or | seq
deriving DecidableEq

def ShellChainOperator.text : ShellChainOperator → Str
  | and => "&&"
  | or => "||"
  | seq => ";"

structure ShellChainPart where
  part : Str
  opToNext : Option ShellChainOperator
deriving DecidableEq

variable (next : Option Char)

/-- The characters a backslash escapes between double quotes, for the command splitters. -/
def isDoubleQuoteEscape : Bool :=
  next.any fun c => c == '\\' || c == '"' || c == '$' || c == '`'

def isEscapedLineContinuation : Bool :=
  next.any fun c => c == '\n' || c == '\r'

variable (ch : Char)

/-- `isShellCommentStart`, from the character and the one before it. -/
def isShellCommentStart (prev : Option Char) (ch : Char) : Bool :=
  ch == '#' && prev.all isSpace

/-- The variables of the loop, without the quoting flags. -/
structure ChainScan where
  parts : List ShellChainPart
  buf : Str
  foundChain : Bool
  invalidChain : Bool
deriving DecidableEq

variable (s : ChainScan)

namespace ChainScan

def init : ChainScan := ⟨[], [], false, false⟩

def push (text : Str) : ChainScan := { s with buf := s.buf ++ text }

/-- What an operator does: `pushPart`, and the two flags. -/
def operator (op : ShellChainOperator) : ChainScan :=
  if trim s.buf = [] then { s with buf := [], foundChain := true, invalidChain := true }
  else { s with parts := s.parts ++ [⟨trim s.buf, some op⟩], buf := [], foundChain := true }

end ChainScan

/-- The loop of `splitCommandChainWithOperators`. The number is that of the characters an
`i += 1` skips, `prev` the character before the text. -/
def splitChainLoop : ℕ → QuoteMode → Option Char → ChainScan → Str → ChainScan
  | _, _, _, s, [] => s
  | skip + 1, mode, _, s, ch :: rest => splitChainLoop skip mode (some ch) s rest
  | 0, .escaped, _, s, ch :: rest => splitChainLoop 0 .plain (some ch) (s.push [ch]) rest
  | 0, .single, _, s, ch :: rest =>
    splitChainLoop 0 (if ch = '\'' then .plain else .single) (some ch) (s.push [ch]) rest
  | 0, .double, _, s, ch :: rest =>
    let next := rest.head?
    if ch = '\\' ∧ isEscapedLineContinuation next then { s with invalidChain := true }
    else if ch = '\\' ∧ isDoubleQuoteEscape next then
      splitChainLoop 1 .double (some ch) (s.push (ch :: next.toList)) rest
    else splitChainLoop 0 (if ch = '"' then .plain else .double) (some ch) (s.push [ch]) rest
  | 0, .plain, prev, s, ch :: rest =>
    let next := rest.head?
    if ch = '\\' then splitChainLoop 0 .escaped (some ch) (s.push [ch]) rest
    else if ch = '\'' then splitChainLoop 0 .single (some ch) (s.push [ch]) rest
    else if ch = '"' then splitChainLoop 0 .double (some ch) (s.push [ch]) rest
    else if isShellCommentStart prev ch then s
    else if ch = '&' ∧ next = some '&' then
      splitChainLoop 1 .plain (some ch) (s.operator .and) rest
    else if ch = '|' ∧ next = some '|' then
      splitChainLoop 1 .plain (some ch) (s.operator .or) rest
    else if ch = ';' then splitChainLoop 0 .plain (some ch) (s.operator .seq) rest
    else splitChainLoop 0 .plain (some ch) (s.push [ch]) rest

/-- What follows the loop. -/
def ChainScan.finish : Option (List ShellChainPart) :=
  if !s.foundChain ∨ trim s.buf = [] ∨ s.invalidChain then none
  else some (s.parts ++ [⟨trim s.buf, none⟩])

variable (command : Str)

/-- `splitCommandChainWithOperators`. -/
def splitCommandChainWithOperators : Option (List ShellChainPart) :=
  (splitChainLoop 0 .plain none .init command).finish

/-- `splitCommandChain`. -/
def splitCommandChain : Option (List Str) :=
  (splitCommandChainWithOperators command).map (·.map (·.part))

example : splitCommandChain "a 'b;c' && d # ; e" = some ["a 'b;c'".toList, "d".toList] := by
  decide +kernel

/-! ## Here-documents -/

structure HeredocSpec where
  delimiter : Str
  stripTabs : Bool
  quoted : Bool
deriving DecidableEq

structure ParsedHeredocDelimiter where
  delimiter : Str
  /-- The text of the delimiter in the source, leading blanks included. -/
  source : Str
  quoted : Bool
deriving DecidableEq

/-- A quoted delimiter, after its opening quote. -/
def parseQuotedHeredocDelimiter (quote : Char) (delimiter source : Str) :
    Str → Option ParsedHeredocDelimiter
  | [] => none
  | ch :: rest =>
    if ch = '\n' ∨ ch = '\r' then none
    else
      match rest with
      | [] =>
        if ch = quote then some ⟨delimiter, source ++ [ch], true⟩ else none
      | next :: rest' =>
        if quote = '"' ∧ ch = '\\' then
          parseQuotedHeredocDelimiter quote (delimiter ++ [next]) (source ++ [ch, next]) rest'
        else if ch = quote then some ⟨delimiter, source ++ [ch], true⟩
        else parseQuotedHeredocDelimiter quote (delimiter ++ [ch]) (source ++ [ch]) (next :: rest')

def isHeredocDelimiterChar : Bool :=
  !(isSpace ch || ch == '|' || ch == '&' || ch == ';' || ch == '<' || ch == '>')

/-- `parseHeredocDelimiter`. -/
def parseHeredocDelimiter (source : Str) : Option ParsedHeredocDelimiter :=
  let blanks := source.takeWhile fun c => c == ' ' || c == '\t'
  match source.dropWhile fun c => c == ' ' || c == '\t' with
  | [] => none
  | first :: rest =>
    if first = '\'' ∨ first = '"' then
      parseQuotedHeredocDelimiter first [] (blanks ++ [first]) rest
    else
      let delimiter := (first :: rest).takeWhile isHeredocDelimiterChar
      if delimiter = [] then none else some ⟨delimiter, blanks ++ delimiter, false⟩

/-- What makes a `$` an expansion when it follows. -/
def startsExpansion (c : Char) : Bool :=
  c == '(' || c == '{' || c == '[' || c.isAlpha || c == '_' || c.isDigit ||
    c ∈ ("@*?!$#-".toList)

/-- `hasUnquotedHeredocExpansionToken`, with whether an odd number of backslashes stands
before the text. -/
def hasUnquotedHeredocExpansionToken (escaped : Bool) : Str → Bool
  | [] => false
  | ch :: rest =>
    (!escaped && (ch == '`' || ch == '$' && rest.head?.any startsExpansion)) ||
      hasUnquotedHeredocExpansionToken (ch == '\\' && !escaped) rest

/-- `stripUnquotedHeredocLineContinuation`: the line, and whether it continues. -/
def stripUnquotedHeredocLineContinuation (line : Str) : Str × Bool :=
  let trailingSlashes := (line.reverse.takeWhile (· == '\\')).length
  if trailingSlashes % 2 = 1 then (line.dropLast, true) else (line, false)

def maxUnquotedHeredocContinuationLines : ℕ := 1024

def maxUnquotedHeredocLogicalLineLength : ℕ := 64 * 1024

/-- The line as the delimiter is compared with it. -/
def HeredocSpec.lineText (spec : HeredocSpec) (line : Str) : Str :=
  if spec.stripTabs then line.dropWhile (· == '\t') else line

/-- A line of a body has ended: the here-documents still to read, and the lines that the
next one continues. -/
def endHeredocLine (pending : List HeredocSpec) (chunks : List Str) (heredocLine : Str) :
    Except Str (List HeredocSpec × List Str) :=
  match pending with
  | [] => .ok ([], chunks)
  | current :: others =>
    let line := current.lineText heredocLine
    if current.quoted then
      .ok (if line = current.delimiter then others else current :: others, chunks)
    else if line = current.delimiter ∧ chunks = [] then .ok (others, chunks)
    else
      let (stripped, continues) := stripUnquotedHeredocLineContinuation line
      let chunks := chunks ++ [stripped]
      if maxUnquotedHeredocContinuationLines < chunks.length then
        .error "heredoc continuation too long"
      else if maxUnquotedHeredocLogicalLineLength < (chunks.map jsLength).sum then
        .error "heredoc logical line too large"
      else if continues then .ok (current :: others, chunks)
      else if hasUnquotedHeredocExpansionToken false chunks.flatten then
        .error "shell expansion in unquoted heredoc"
      else .ok (current :: others, [])

/-! ## The loop -/

/-- The quoting flags, and the body of a here-document with its line so far and the lines
which that continues. -/
inductive PipelineMode where
  | text (mode : QuoteMode)
  | heredoc (line : Str) (chunks : List Str)
deriving DecidableEq

structure PipelineScan where
  segments : List Str
  buf : Str
  emptySegment : Bool
  pendingHeredocs : List HeredocSpec
deriving DecidableEq

variable (s : PipelineScan)

namespace PipelineScan

def init : PipelineScan := ⟨[], [], false, []⟩

def push (text : Str) : PipelineScan :=
  { s with buf := s.buf ++ text, emptySegment := false }

def pushPart : PipelineScan :=
  { s with segments := if trim s.buf = [] then s.segments else s.segments ++ [trim s.buf], buf := [] }

end PipelineScan

def unsupportedShellToken (token : Str) : Str := "unsupported shell token: ".toList ++ token

/-- `DISALLOWED_PIPELINE_TOKENS`. -/
def isDisallowedPipelineToken : Bool :=
  ch ∈ ['>', '<', '`', '\n', '\r', '(', ')']

/-- The number of characters that a line break takes after its first. -/
def lineBreakSkip (next : Option Char) : ℕ :=
  if ch = '\r' ∧ next = some '\n' then 1 else 0

/-- The redirection at `<<`, from the text after it: the scan, and the characters read. -/
def PipelineScan.redirect (source : Str) : PipelineScan × ℕ :=
  let stripTabs := source.head? = some '-'
  let dash : Str := if stripTabs then ['-'] else []
  let s := s.push ("<<".toList ++ dash)
  match parseHeredocDelimiter (source.drop dash.length) with
  -- the dash is read again
  | none => (s, 0)
  | some parsed =>
    ({ s.push parsed.source with
      pendingHeredocs := s.pendingHeredocs ++ [⟨parsed.delimiter, stripTabs, parsed.quoted⟩] },
      dash.length + parsed.source.length)

/-- The loop of `splitShellPipeline`. -/
def splitPipelineLoop : ℕ → PipelineMode → Option Char → PipelineScan → Str →
    Except Str (PipelineMode × PipelineScan)
  | _, mode, _, s, [] => .ok (mode, s)
  | skip + 1, mode, _, s, ch :: rest => splitPipelineLoop skip mode (some ch) s rest
  | 0, .heredoc line chunks, _, s, ch :: rest =>
    if ch = '\n' ∨ ch = '\r' then
      match endHeredocLine s.pendingHeredocs chunks line with
      | .error reason => .error reason
      | .ok (pending, chunks) =>
        splitPipelineLoop (lineBreakSkip ch rest.head?)
          (if pending = [] then .text .plain else .heredoc [] chunks) (some ch)
          { s with pendingHeredocs := pending } rest
    else splitPipelineLoop 0 (.heredoc (line ++ [ch]) chunks) (some ch) s rest
  | 0, .text .escaped, _, s, ch :: rest =>
    splitPipelineLoop 0 (.text .plain) (some ch) (s.push [ch]) rest
  | 0, .text .single, _, s, ch :: rest =>
    splitPipelineLoop 0 (.text (if ch = '\'' then .plain else .single)) (some ch) (s.push [ch]) rest
  | 0, .text .double, _, s, ch :: rest =>
    let next := rest.head?
    if ch = '\\' ∧ isEscapedLineContinuation next then .error (unsupportedShellToken "newline")
    else if ch = '\\' ∧ isDoubleQuoteEscape next then
      splitPipelineLoop 1 (.text .double) (some ch) (s.push (ch :: next.toList)) rest
    else if ch = '$' ∧ next = some '(' then .error (unsupportedShellToken "$()")
    else if ch = '`' then .error (unsupportedShellToken "`")
    else if ch = '\n' ∨ ch = '\r' then .error (unsupportedShellToken "newline")
    else
      splitPipelineLoop 0 (.text (if ch = '"' then .plain else .double)) (some ch) (s.push [ch]) rest
  | 0, .text .plain, prev, s, ch :: rest =>
    let next := rest.head?
    if ch = '\\' then splitPipelineLoop 0 (.text .escaped) (some ch) (s.push [ch]) rest
    else if ch = '\'' then splitPipelineLoop 0 (.text .single) (some ch) (s.push [ch]) rest
    else if ch = '"' then splitPipelineLoop 0 (.text .double) (some ch) (s.push [ch]) rest
    else if isShellCommentStart prev ch then .ok (.text .plain, s)
    else if (ch = '\n' ∨ ch = '\r') ∧ s.pendingHeredocs ≠ [] then
      splitPipelineLoop (lineBreakSkip ch next) (.heredoc [] []) (some ch) s rest
    else if ch = '|' ∧ next = some '|' then .error (unsupportedShellToken "||")
    else if ch = '|' ∧ next = some '&' then .error (unsupportedShellToken "|&")
    else if ch = '|' then
      splitPipelineLoop 0 (.text .plain) (some ch) { s.pushPart with emptySegment := true } rest
    else if ch = '&' ∨ ch = ';' then .error (unsupportedShellToken [ch])
    else if ch = '<' ∧ next = some '<' then
      let (s, read) := s.redirect rest.tail
      splitPipelineLoop (1 + read) (.text .plain) (some ch) s rest
    else if isDisallowedPipelineToken ch then .error (unsupportedShellToken [ch])
    else if ch = '$' ∧ next = some '(' then .error (unsupportedShellToken "$()")
    else splitPipelineLoop 0 (.text .plain) (some ch) (s.push [ch]) rest

/-- What the end of the text does to the body it stands in. -/
def endHeredocText (line : Str) (chunks : List Str) : Except Str (PipelineMode × PipelineScan) :=
  match s.pendingHeredocs with
  | [] => .ok (.heredoc line chunks, s)
  | current :: others =>
    let text := current.lineText line
    if !current.quoted ∧ chunks ≠ [] then
      let logical := chunks.flatten ++ (stripUnquotedHeredocLineContinuation text).1
      if hasUnquotedHeredocExpansionToken false logical then
        .error "shell expansion in unquoted heredoc"
      else .ok (.heredoc line chunks, s)
    else if text = current.delimiter then
      .ok (if others = [] then .text .plain else .heredoc line [],
        { s with pendingHeredocs := others })
    else .ok (.heredoc line chunks, s)

/-- What follows the loop. -/
def finishPipeline : PipelineMode × PipelineScan → Except Str (List Str)
  | (.heredoc _ _, _) => .error "unterminated heredoc"
  | (.text mode, s) =>
    if s.pendingHeredocs ≠ [] then .error "unterminated heredoc"
    else if mode ≠ .plain then .error "unterminated shell quote/escape"
    else
      let s := s.pushPart
      if s.segments = [] then .error "empty command"
      else if s.emptySegment then .error "empty pipeline segment"
      else .ok s.segments

/-- `splitShellPipeline`: the segments, or the reason why there are none. -/
def splitShellPipeline : Except Str (List Str) := do
  let (mode, s) ← splitPipelineLoop 0 (.text .plain) none .init command
  match mode with
  | .heredoc line chunks => finishPipeline (← endHeredocText s line chunks)
  | .text _ => finishPipeline (mode, s)

example : splitShellPipeline "cat <<'E F' | wc -l\n$x\nE F\n" =
    .ok ["cat <<'E F'".toList, "wc -l".toList] := by decide +kernel

end OpenClaw
