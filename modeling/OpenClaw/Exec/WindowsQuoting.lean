import OpenClaw.Text.Basic

/-!
# Windows quoting

`windowsEscapeArg`, `renderWindowsQuotedArgv` and `tokenizeWindowsSegment` of
`exec-approvals-analysis.ts`. The rendering doubles a quote inside an argument, and the
tokenizer takes both quotes of the pair for delimiters. So the tokens of a rendered vector are
its arguments without their quotes.
-/

namespace OpenClaw

open List

/-! ## Rendering -/

/-- `[A-Za-z_{(?$]`. -/
def isWindowsExpansionStart (c : Char) : Bool :=
  c.isAlpha || c ∈ ['_', '{', '(', '?', '$']

/-- A match of `WINDOWS_UNSAFE_CMD_META`. -/
def hasWindowsUnsafeCmdMeta : Str → Bool
  | [] => false
  | c :: rest =>
    c = '%' || c = '`' || (c = '$' && rest.head?.any isWindowsExpansionStart) ||
      hasWindowsUnsafeCmdMeta rest

/-- `[a-zA-Z0-9_./:~\\=-]`. -/
def isWindowsBareChar (c : Char) : Bool :=
  c.isAlphanum || c ∈ ['_', '.', '/', ':', '~', '\\', '=', '-']

variable (value : Str)

/-- `value.replace(/"/g, '""')`. -/
def doubleQuotes : Str := value.flatMap fun c => if c = '"' then ['"', '"'] else [c]

/-- `windowsEscapeArg`, with `none` where it is not ok. -/
def windowsEscapeArg : Option Str :=
  if value = [] then some ['"', '"']
  else if hasWindowsUnsafeCmdMeta value then none
  else if value.all isWindowsBareChar then some value
  else some ('"' :: (doubleQuotes value ++ ['"']))

/-- The loop of `renderWindowsQuotedArgv`. -/
def windowsQuotedParts : List Str → Except Str (List Str)
  | [] => .ok []
  | token :: rest =>
    match windowsEscapeArg token with
    | none => .error ("unsafe windows token: ".toList ++ token)
    | some escaped => (windowsQuotedParts rest).map (escaped :: ·)

def renderWindowsQuotedArgv (argv : List Str) : Except Str Str :=
  (windowsQuotedParts argv).map (joinWith [' '])

/-! ## Tokenizing -/

/-- The variables of `tokenizeWindowsSegment`. -/
structure WindowsScan where
  tokens : List Str
  buf : Str
  inDouble : Bool
  inSingle : Bool
  wasQuoted : Bool
deriving DecidableEq

namespace WindowsScan

def init : WindowsScan := ⟨[], [], false, false, false⟩

variable (s : WindowsScan)

def push (c : Char) : WindowsScan := { s with buf := s.buf ++ [c] }

def pushToken : WindowsScan :=
  if s.buf ≠ [] ∨ s.wasQuoted then
    { s with tokens := s.tokens ++ [s.buf], buf := [], wasQuoted := false }
  else { s with wasQuoted := false }

def toggleDouble : WindowsScan :=
  { s with wasQuoted := s.wasQuoted || !s.inDouble, inDouble := !s.inDouble }

def toggleSingle : WindowsScan :=
  { s with wasQuoted := s.wasQuoted || !s.inSingle, inSingle := !s.inSingle }

end WindowsScan

/-- The loop of `tokenizeWindowsSegment`; the first `skip` characters are passed over. -/
def tokenizeWindowsLoop : ℕ → WindowsScan → Str → WindowsScan
  | _, s, [] => s
  | skip + 1, s, _ :: rest => tokenizeWindowsLoop skip s rest
  | 0, s, ch :: rest =>
    if ch = '"' ∧ !s.inSingle then tokenizeWindowsLoop 0 s.toggleDouble rest
    else if ch = '\'' ∧ !s.inDouble then
      if s.inSingle ∧ rest.head? = some '\'' then tokenizeWindowsLoop 1 (s.push '\'') rest
      else tokenizeWindowsLoop 0 s.toggleSingle rest
    else if !s.inDouble ∧ !s.inSingle ∧ isSpace ch then tokenizeWindowsLoop 0 s.pushToken rest
    else tokenizeWindowsLoop 0 (s.push ch) rest

def tokenizeWindowsSegment (segment : Str) : Option (List Str) :=
  let s := tokenizeWindowsLoop 0 .init segment
  if s.inDouble ∨ s.inSingle then none
  else
    let tokens := s.pushToken.tokens
    if tokens = [] then none else some tokens

/-! ## The tokens of a rendered vector -/

/-- An argument without its quotes. -/
def withoutQuotes : Str := value.filter (· ≠ '"')

variable (tokens : List Str)

/-- The scan between two arguments. -/
def betweenArgs : WindowsScan := ⟨tokens, [], false, false, false⟩

/-- The scan inside the double quotes of an argument. -/
def insideQuotes (buf : Str) : WindowsScan := ⟨tokens, buf, true, false, true⟩

variable {tokens : List Str} {buf rest value : Str} {c : Char}

/-- A character other than a quote is taken as it is inside double quotes. -/
theorem tokenizeWindowsLoop_insideQuotes (hc : c ≠ '"') :
    tokenizeWindowsLoop 0 (insideQuotes tokens buf) (c :: rest) =
      tokenizeWindowsLoop 0 (insideQuotes tokens (buf ++ [c])) rest := by
  rw [tokenizeWindowsLoop, if_neg (fun h => hc h.1), if_neg (fun h => Bool.false_ne_true h.2),
    if_neg (fun h => Bool.false_ne_true h.1)]
  rfl

/-- A doubled quote closes the double quotes and opens them again. -/
theorem tokenizeWindowsLoop_doubled :
    tokenizeWindowsLoop 0 (insideQuotes tokens buf) ('"' :: '"' :: rest) =
      tokenizeWindowsLoop 0 (insideQuotes tokens buf) rest := by
  rw [tokenizeWindowsLoop, if_pos ⟨rfl, rfl⟩, tokenizeWindowsLoop, if_pos ⟨rfl, rfl⟩]
  rfl

theorem tokenizeWindowsLoop_doubleQuotes (tokens : List Str) (buf value rest : Str) :
    tokenizeWindowsLoop 0 (insideQuotes tokens buf) (doubleQuotes value ++ rest) =
      tokenizeWindowsLoop 0 (insideQuotes tokens (buf ++ withoutQuotes value)) rest := by
  induction value generalizing buf with
  | nil =>
    show tokenizeWindowsLoop 0 (insideQuotes tokens buf) rest =
      tokenizeWindowsLoop 0 (insideQuotes tokens (buf ++ [])) rest
    rw [append_nil]
  | cons c value ih =>
    by_cases hc : c = '"'
    · have hquotes : doubleQuotes (c :: value) = '"' :: '"' :: doubleQuotes value := by
        rw [hc]
        rfl
      have hwithout : withoutQuotes (c :: value) = withoutQuotes value := by
        rw [hc]
        rfl
      rw [hquotes, hwithout, cons_append, cons_append, tokenizeWindowsLoop_doubled]
      exact ih buf
    · have hquotes : doubleQuotes (c :: value) = c :: doubleQuotes value := by
        unfold doubleQuotes
        rw [flatMap_cons, if_neg hc]
        rfl
      have hwithout : withoutQuotes (c :: value) = c :: withoutQuotes value :=
        filter_cons_of_pos (by simpa using hc)
      rw [hquotes, hwithout, cons_append, tokenizeWindowsLoop_insideQuotes hc, ih, append_assoc]
      rfl

theorem isSpace_eq_false_of_isAlphanum (h : c.isAlphanum = true) : isSpace c = false := by
  have hrange : (48 ≤ c.toNat ∧ c.toNat ≤ 57) ∨ (65 ≤ c.toNat ∧ c.toNat ≤ 90) ∨
      (97 ≤ c.toNat ∧ c.toNat ≤ 122) := by
    have hval : c.val.toNat = c.toNat := rfl
    delta Char.isAlphanum Char.isAlpha Char.isUpper Char.isLower Char.isDigit at h
    simp [UInt32.le_iff_toNat_le] at h
    omega
  unfold isSpace
  simp
  omega

/-- A bare character is neither a quote nor white space. -/
theorem isWindowsBareChar_plain (h : isWindowsBareChar c = true) :
    c ≠ '"' ∧ c ≠ '\'' ∧ isSpace c = false := by
  refine ⟨?_, ?_, ?_⟩
  · intro hc
    rw [hc] at h
    exact nomatch h
  · intro hc
    rw [hc] at h
    exact nomatch h
  · unfold isWindowsBareChar at h
    rw [Bool.or_eq_true, decide_eq_true_eq] at h
    rcases h with halnum | hmem
    · exact isSpace_eq_false_of_isAlphanum halnum
    · simp only [mem_cons, not_mem_nil, or_false] at hmem
      rcases hmem with rfl | rfl | rfl | rfl | rfl | rfl | rfl | rfl <;> decide

/-- Bare characters are taken as they are. -/
theorem tokenizeWindowsLoop_bare (h : value.all isWindowsBareChar = true) :
    tokenizeWindowsLoop 0 ⟨tokens, buf, false, false, false⟩ (value ++ rest) =
      tokenizeWindowsLoop 0 ⟨tokens, buf ++ value, false, false, false⟩ rest := by
  induction value generalizing buf with
  | nil => rw [nil_append, append_nil]
  | cons c value ih =>
    rw [all_cons, Bool.and_eq_true] at h
    have hc := isWindowsBareChar_plain h.1
    rw [cons_append, tokenizeWindowsLoop, if_neg (fun hq => hc.1 hq.1),
      if_neg (fun hq => hc.2.1 hq.1), if_neg (fun hq => by simp [hc.2.2] at hq)]
    show tokenizeWindowsLoop 0 ⟨tokens, buf ++ [c], false, false, false⟩ (value ++ rest) = _
    rw [ih h.2, append_assoc]
    rfl

theorem withoutQuotes_of_bare (h : value.all isWindowsBareChar = true) :
    withoutQuotes value = value := by
  apply filter_eq_self.mpr
  intro c hc
  have hplain := isWindowsBareChar_plain (all_eq_true.mp h c hc)
  exact decide_eq_true hplain.1

/-- The scan after an argument: it holds the argument without its quotes, and something says
that the argument is there. -/
structure ArgRead (tokens : List Str) (value : Str) (s : WindowsScan) : Prop where
  tokens : s.tokens = tokens
  buf : s.buf = withoutQuotes value
  inDouble : s.inDouble = false
  inSingle : s.inSingle = false
  kept : s.buf ≠ [] ∨ s.wasQuoted = true

theorem ArgRead.pushToken {s : WindowsScan}
    (h : ArgRead tokens value s) : s.pushToken = betweenArgs (tokens ++ [withoutQuotes value]) := by
  unfold WindowsScan.pushToken
  rw [if_pos h.kept, h.tokens, h.buf, h.inDouble, h.inSingle]
  rfl

/-- One argument of the rendering. -/
theorem exists_argRead {tokens : List Str} {value escaped : Str}
    (h : windowsEscapeArg value = some escaped) : ∃ s, ArgRead tokens value s ∧ ∀ rest,
      tokenizeWindowsLoop 0 (betweenArgs tokens) (escaped ++ rest) =
        tokenizeWindowsLoop 0 s rest := by
  unfold windowsEscapeArg at h
  split at h
  · next hnil =>
    have hescaped : escaped = ['"', '"'] := (Option.some.inj h).symm
    refine ⟨⟨tokens, [], false, false, true⟩, ⟨rfl, by rw [hnil]; rfl, rfl, rfl, .inr rfl⟩, ?_⟩
    intro rest
    rw [hescaped]
    show tokenizeWindowsLoop 0 _ ('"' :: '"' :: rest) = _
    rw [tokenizeWindowsLoop, if_pos ⟨rfl, rfl⟩, tokenizeWindowsLoop, if_pos ⟨rfl, rfl⟩]
    rfl
  · next hne =>
    split at h
    · exact nomatch h
    · split at h
      · next hbare =>
        have hescaped : escaped = value := (Option.some.inj h).symm
        refine ⟨⟨tokens, value, false, false, false⟩,
          ⟨rfl, (withoutQuotes_of_bare hbare).symm, rfl, rfl, .inl hne⟩, ?_⟩
        intro rest
        rw [hescaped, betweenArgs, tokenizeWindowsLoop_bare hbare, nil_append]
      · have hescaped : escaped = '"' :: (doubleQuotes value ++ ['"']) := (Option.some.inj h).symm
        refine ⟨⟨tokens, withoutQuotes value, false, false, true⟩,
          ⟨rfl, rfl, rfl, rfl, .inr rfl⟩, ?_⟩
        intro rest
        rw [hescaped, cons_append, append_assoc, tokenizeWindowsLoop, if_pos ⟨rfl, rfl⟩]
        show tokenizeWindowsLoop 0 (insideQuotes tokens []) _ = _
        rw [tokenizeWindowsLoop_doubleQuotes, nil_append, singleton_append,
          tokenizeWindowsLoop, if_pos ⟨rfl, rfl⟩]
        rfl

/-- The induction is on the arguments: a space after one of them takes it as a token. -/
theorem tokenizeWindowsLoop_parts {argv parts : List Str} (hne : argv ≠ [])
    (h : windowsQuotedParts argv = .ok parts) (tokens : List Str) :
    ∃ s value, ArgRead (tokens ++ argv.dropLast.map withoutQuotes) value s ∧
      argv.getLast? = some value ∧
      tokenizeWindowsLoop 0 (betweenArgs tokens) (joinWith [' '] parts) = s := by
  induction argv generalizing parts tokens with
  | nil => exact absurd rfl hne
  | cons token rest ih =>
    unfold windowsQuotedParts at h
    cases hescape : windowsEscapeArg token with
    | none =>
      rw [hescape] at h
      exact nomatch h
    | some escaped =>
      rw [hescape] at h
      dsimp only at h
      obtain ⟨s, hread, hloop⟩ := @exists_argRead tokens _ _ hescape
      cases rest with
      | nil =>
        have hparts : parts = [escaped] := (Except.ok.inj h).symm
        refine ⟨s, token, ?_, rfl, ?_⟩
        · rw [dropLast_singleton, map_nil, append_nil]
          exact hread
        · have htext : joinWith [' '] parts = escaped ++ [] := by
            rw [hparts, append_nil]
            exact intercalate_singleton
          rw [htext, hloop]
          rfl
      | cons next rest =>
        cases hrest : windowsQuotedParts (next :: rest) with
        | error reason =>
          rw [hrest] at h
          exact nomatch h
        | ok restParts =>
          rw [hrest] at h
          have hparts : parts = escaped :: restParts := (Except.ok.inj h).symm
          have hcons : restParts ≠ [] := by
            intro hnil
            rw [hnil] at hrest
            unfold windowsQuotedParts at hrest
            split at hrest
            · exact nomatch hrest
            · cases hparts' : windowsQuotedParts rest with
              | error reason =>
                rw [hparts'] at hrest
                exact nomatch hrest
              | ok tail =>
                rw [hparts'] at hrest
                exact nomatch hrest
          obtain ⟨s', value, hread', hlast, hloop'⟩ :=
            ih (cons_ne_nil _ _) hrest (tokens ++ [withoutQuotes token])
          refine ⟨s', value, ?_, hlast, ?_⟩
          · rw [append_assoc] at hread'
            exact hread'
          · have htext : joinWith [' '] parts = escaped ++ ' ' :: joinWith [' '] restParts := by
              rw [hparts, joinWith, intercalate_cons_of_ne_nil hcons, append_assoc]
              rfl
            have hspace : tokenizeWindowsLoop 0 s (' ' :: joinWith [' '] restParts) =
                tokenizeWindowsLoop 0 s.pushToken (joinWith [' '] restParts) := by
              rw [tokenizeWindowsLoop, if_neg (fun h => absurd h.1 (by decide)),
                if_neg (fun h => absurd h.1 (by decide)),
                if_pos ⟨by rw [hread.inDouble]; rfl, by rw [hread.inSingle]; rfl, by decide⟩]
            rw [htext, hloop, hspace, hread.pushToken]
            exact hloop'

/-- The tokens of a rendered vector are its arguments without their quotes. -/
theorem tokenizeWindowsSegment_render {argv : List Str} {text : Str} (hne : argv ≠ [])
    (h : renderWindowsQuotedArgv argv = .ok text) :
    tokenizeWindowsSegment text = some (argv.map withoutQuotes) := by
  unfold renderWindowsQuotedArgv at h
  cases hparts : windowsQuotedParts argv with
  | error reason =>
    rw [hparts] at h
    exact nomatch h
  | ok parts =>
    rw [hparts] at h
    have htext : text = joinWith [' '] parts := (Except.ok.inj h).symm
    obtain ⟨s, value, hread, hlast, hloop⟩ := tokenizeWindowsLoop_parts hne hparts []
    rw [nil_append] at hread
    have hargv : argv.map withoutQuotes = argv.dropLast.map withoutQuotes ++ [withoutQuotes value] := by
      have hsplit : argv = argv.dropLast ++ [value] := (dropLast_append_getLast? value hlast).symm
      calc argv.map withoutQuotes = (argv.dropLast ++ [value]).map withoutQuotes := by rw [← hsplit]
        _ = _ := by rw [map_append]; rfl
    unfold tokenizeWindowsSegment
    have hinit : tokenizeWindowsLoop 0 .init text = s := by
      rw [htext]
      exact hloop
    rw [hinit]
    dsimp only
    rw [hread.inDouble, hread.inSingle, if_neg (by decide), hread.pushToken, hargv]
    exact if_neg (by simp [betweenArgs])

theorem withoutQuotes_eq_self_iff : withoutQuotes value = value ↔ '"' ∉ value := by
  unfold withoutQuotes
  rw [filter_eq_self]
  constructor
  · intro h hmem
    exact absurd (h '"' hmem) (by decide)
  · intro h c hc
    exact decide_eq_true (fun heq => h (heq ▸ hc))

/-- Windows quoting round-trips on the vectors with an argument and without a quote. -/
theorem tokenizeWindowsSegment_render_iff (argv : List Str) (text : Str)
    (h : renderWindowsQuotedArgv argv = .ok text) :
    tokenizeWindowsSegment text = some argv ↔ argv ≠ [] ∧ ∀ arg ∈ argv, '"' ∉ arg := by
  by_cases hne : argv = []
  · have htext : text = [] := by
      rw [hne] at h
      exact (Except.ok.inj h).symm
    rw [hne, htext]
    exact ⟨(fun h => nomatch h), fun h => absurd rfl h.1⟩
  · have hmap : argv.map withoutQuotes = argv.map id ↔ ∀ arg ∈ argv, withoutQuotes arg = arg :=
      map_inj_left
    rw [tokenizeWindowsSegment_render hne h, Option.some.injEq]
    rw [map_id] at hmap
    rw [hmap]
    constructor
    · intro heq
      exact ⟨hne, fun arg harg => withoutQuotes_eq_self_iff.mp (heq arg harg)⟩
    · intro hplain arg harg
      exact withoutQuotes_eq_self_iff.mpr (hplain.2 arg harg)

/-- `node "a b"` -/
theorem tokenizeWindowsSegment_render_iff_spaces :
    tokenizeWindowsSegment "node \"a b\"".toList = some ["node".toList, "a b".toList] ↔
      (["node".toList, "a b".toList] : List Str) ≠ [] ∧
        ∀ arg ∈ (["node".toList, "a b".toList] : List Str), '"' ∉ arg :=
  tokenizeWindowsSegment_render_iff _ _ (by rfl)

/-- The argument `say "hi"` comes back without its quotes. -/
theorem tokenizeWindowsSegment_render_ne :
    ∃ text, renderWindowsQuotedArgv ["say \"hi\"".toList] = .ok text ∧
      tokenizeWindowsSegment text ≠ some ["say \"hi\"".toList] :=
  ⟨"\"say \"\"hi\"\"\"".toList, by rfl, by decide⟩

end OpenClaw
