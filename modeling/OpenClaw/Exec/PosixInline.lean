import OpenClaw.Exec.ShellInlineCommand

/-!
# Where a POSIX shell finds its command

A shell reads option words, some of which take the words that follow, until `--` or the first
other word. If `-c` was among them the first word left is the command string. The scan of
`resolveInlineCommandMatch` agrees with this up to the flag, but takes the word right behind the
flag and its values for the command, whether or not it is an option, and a flag with other
characters behind the `c` for a command of its own.
-/

namespace OpenClaw

open List Option

/-! ## The shell -/

variable (word : Str)

def isShellOption : Bool := word.head? = some '-' || word.head? = some '+'

def isLongOption : Bool := startsWith word "--"

/-- The words an option takes. -/
def shellOptionValues : ℕ :=
  if isLongOption word then
    if word = ("--rcfile" : Str) ∨ word = ("--init-file" : Str) then 1 else 0
  else word.tail.countP fun c => c = 'o' || c = 'O'

/-- `-c`, alone or with other letters. -/
def hasShellCommandFlag : Bool :=
  word.head? = some '-' && !isLongOption word && 'c' ∈ word.tail

/-- The shell at word `i`, of which `skip` are values of an option: the command string and its
place, where `flagged` says that `-c` was read. -/
def shellCommandLoop : Bool → ℕ → ℕ → List Str → Option (ℕ × Str)
  | _, _, _, [] => none
  | flagged, skip + 1, i, _ :: rest => shellCommandLoop flagged skip (i + 1) rest
  | flagged, 0, i, word :: rest =>
    if word = ("--" : Str) then if flagged then rest.head?.map fun command => (i + 1, command) else none
    else if isShellOption word then
      shellCommandLoop (flagged || hasShellCommandFlag word) (shellOptionValues word) (i + 1) rest
    else if flagged then some (i, word)
    else none

/-- The command string that the shell `argv[0]` runs, and its place. -/
def shellCommand (argv : List Str) : Option (ℕ × Str) := shellCommandLoop false 0 1 argv.tail

/-- The scan finds the command of the shell, at its place. -/
def FindsCommand (found : InlineCommandMatch) (command : Option (ℕ × Str)) : Prop :=
  found.command = command.map Prod.snd ∧
    ∀ place, command.map Prod.fst = some place → found.valueTokenIndex = some place

/-! ## When the scan reads as the shell does -/

/-- The command word is taken as it stands: it is neither an option nor padded or blank. -/
def PlainCommand : Prop := isShellOption word = false ∧ trim word = word ∧ word ≠ []

/-- The words the scan passes are read as the shell reads them, of which `skip` are values. -/
def ReadAlike : ℕ → List Str → Prop
  | _, [] => True
  | skip + 1, _ :: rest => ReadAlike skip rest
  | 0, word :: rest =>
    if isShellOption word = false then trim word ≠ [] ∧ isOptionLike (trim word) = false
    else if word = ("--" : Str) then True
    else if hasShellCommandFlag word then
      -- the flag has nothing attached, and a word that can only be the command follows it
      parseCombinedCommandFlag (trim word) = some ⟨none, shellOptionValues word⟩ ∧
        ∀ command, rest[shellOptionValues word]? = some command → PlainCommand command
    else
      trim word ≠ ("--" : Str) ∧ trim word ∉ posixInlineCommandFlags ∧
        parseCombinedCommandFlag (trim word) = none ∧ isOptionLike (trim word) = true ∧
        advancePosixInlineOptionScan (trim word) = 1 + shellOptionValues word ∧
        ReadAlike (shellOptionValues word) rest

/-- A word without white space at its ends, which is not empty, not `--command`, and has no dash
among its letters if it is a cluster of options. -/
structure CleanWord (word : Str) : Prop where
  trimmed : trim word = word
  nonempty : word ≠ []
  notCommand : word ≠ ("--command" : Str)
  letters : isShellOption word = true → isLongOption word = false → '-' ∉ word.tail

/-! ## One word of the scan -/

theorem isOptionLike_eq : isOptionLike word = isShellOption word := by
  cases word with
  | nil => rfl
  | cons c rest =>
    show ((['-'] : Str).isPrefixOf (c :: rest) || (['+'] : Str).isPrefixOf (c :: rest)) = _
    by_cases hminus : c = '-'
    · rw [hminus]
      rfl
    · by_cases hplus : c = '+'
      · rw [hplus]
        rfl
      · simp [List.isPrefixOf, isShellOption, hminus, hplus, Ne.symm hminus, Ne.symm hplus]

/-- Lower case leaves dashes alone and makes none. -/
def LowersToDashes (host : Host) : Prop :=
  ∀ word : Str, host.toLowerCase word = ("--" : Str) ↔ word = ("--" : Str)

/-- The options of `resolvePosixInlineCommandMatch`. -/
def posixInlineOptions : InlineCommandOptions :=
  { allowCombinedC := true, isOptionToken := isOptionLike, restValueFlags := [],
    stopAtFirstNonOption := false, valueOptions := [] }

/-- The scan at a word that is not passed over as a value. -/
def posixInlineStep (host : Host) (i : ℕ) (token : Str) (rest : List Str) : InlineCommandMatch :=
  if token = [] then inlineCommandLoop host posixInlineCommandFlags posixInlineOptions 0 (i + 1) rest
  else if token = ("--" : Str) then .none
  else if token ∈ posixInlineCommandFlags then
    ⟨rest.head?.bind fun value => nonEmpty? (trim value), if rest = [] then none else some (i + 1)⟩
  else
    match parseCombinedCommandFlag token with
    | some ⟨some attached, _⟩ => ⟨nonEmpty? (trim attached), some i⟩
    | some ⟨none, values⟩ =>
      ⟨rest[values]?.bind fun value => nonEmpty? (trim value), some (i + 1 + values)⟩
    | none =>
      if isOptionLike token = false then .none
      else inlineCommandLoop host posixInlineCommandFlags posixInlineOptions
        (advancePosixInlineOptionScan token - 1) (i + 1) rest

variable {host : Host} {c : Char} {suffix word : Str} {rest words : List Str} {values i skip : ℕ}

theorem inlineCommandLoop_cons (hlower : LowersToDashes host) (i : ℕ) (word : Str)
    (rest : List Str) :
    inlineCommandLoop host posixInlineCommandFlags posixInlineOptions 0 i (word :: rest) =
      posixInlineStep host i (trim word) rest := by
  unfold inlineCommandLoop posixInlineStep posixInlineOptions
  dsimp only
  by_cases hblank : trim word = []
  · rw [if_pos hblank, if_pos hblank]
  have hdashes : normalizeLowercaseStringOrEmpty host (trim word) = ("--" : Str) ↔
      trim word = ("--" : Str) := by
    unfold normalizeLowercaseStringOrEmpty
    rw [trim_trim, if_neg hblank]
    exact hlower _
  rw [if_neg hblank, if_neg hblank]
  by_cases hend : trim word = ("--" : Str)
  · rw [if_pos (hdashes.mpr hend), if_pos hend]
  rw [if_neg (fun h => hend (hdashes.mp h)), if_neg hend, if_pos rfl, if_pos rfl]
  by_cases hflag : trim word ∈ posixInlineCommandFlags
  · rw [if_pos hflag, if_pos hflag, if_neg not_mem_nil]
  rw [if_neg hflag, if_neg hflag]
  cases hparse : parseCombinedCommandFlag (trim word) with
  | some flag =>
    cases flag with
    | mk attached values => cases attached <;> rfl
  | none =>
    dsimp only
    rw [if_neg not_mem_nil, if_neg (fun h => Bool.false_ne_true h.1)]
    cases hoption : isOptionLike (trim word) with
    | false => rfl
    | true => rfl

/-! ## Clusters of options -/

/-- A cluster is read as one exactly when it has a `c` and no further dash. -/
theorem parseCombinedCommandFlag_cluster {rest : Str} (hdash : '-' ∉ c :: rest) :
    parseCombinedCommandFlag ('-' :: c :: rest) =
      (afterChar? 'c' (c :: rest)).map fun suffix =>
        if suffix ≠ [] ∧ !suffix.all Char.isAlpha then ⟨some suffix, 0⟩
        else ⟨none, countSeparateValueOptionChars ('-' :: c :: rest)⟩ := by
  have hchars : shortOptionChars? ('-' :: c :: rest) = some (c :: rest) := if_neg hdash
  unfold parseCombinedCommandFlag
  rw [hchars]
  rfl

theorem afterChar?_eq_some {s : Str} (h : afterChar? c s = some suffix) : c ∈ s ∧ suffix <:+ s := by
  unfold afterChar? at h
  have hsuffix := dropWhile_suffix (p := (· != c)) (l := s)
  cases hdrop : s.dropWhile (· != c) with
  | nil =>
    rw [hdrop] at h
    exact nomatch h
  | cons first rest =>
    rw [hdrop] at h hsuffix
    have hrest : rest = suffix := some.inj h
    have hfirst : first = c := by
      have hhead := head_dropWhile_not (· != c) (l := s) (by
        rw [hdrop]
        exact cons_ne_nil _ _)
      simpa [hdrop] using hhead
    refine ⟨hfirst ▸ hsuffix.subset mem_cons_self, ?_⟩
    rw [← hrest]
    exact (suffix_cons first rest).trans hsuffix

theorem exists_afterChar? {s : Str} (h : c ∈ s) : ∃ suffix, afterChar? c s = some suffix := by
  unfold afterChar?
  cases hdrop : s.dropWhile (· != c) with
  | nil =>
    have hall := dropWhile_eq_nil_iff.mp hdrop c h
    simp at hall
  | cons first rest => exact ⟨rest, rfl⟩

/-- A word that is read as a cluster with a `c` is one for the shell too. -/
theorem hasShellCommandFlag_of_parse {flag : CombinedCommandFlag}
    (h : parseCombinedCommandFlag word = some flag) : hasShellCommandFlag word = true := by
  unfold parseCombinedCommandFlag at h
  cases hchars : shortOptionChars? word with
  | none =>
    rw [hchars] at h
    exact nomatch h
  | some letters =>
    rw [hchars] at h
    obtain ⟨suffix, hsuffix, -⟩ := Option.map_eq_some_iff.mp h
    have hmem := (afterChar?_eq_some hsuffix).1
    unfold shortOptionChars? at hchars
    split at hchars
    · next c rest =>
      split_ifs at hchars
      next hdash =>
      have hletters : c :: rest = letters := some.inj hchars
      rw [← hletters] at hmem
      have hlong : isLongOption ('-' :: c :: rest) = false := by
        have hc : '-' ≠ c := fun hc => hdash (hc ▸ mem_cons_self)
        simp [isLongOption, startsWith, List.isPrefixOf, hc]
      unfold hasShellCommandFlag
      rw [hlong]
      simpa using hmem
    · exact nomatch hchars

theorem hasShellCommandFlag_iff : hasShellCommandFlag word = true ↔
      ∃ c rest, word = '-' :: c :: rest ∧ c ≠ '-' ∧ 'c' ∈ c :: rest := by
  unfold hasShellCommandFlag isLongOption startsWith
  cases word with
  | nil => simp
  | cons sign tail =>
    cases tail with
    | nil => simp
    | cons c rest =>
      simp [List.isPrefixOf]
      tauto

/-- What the scan skips for an option is what the shell does. -/
theorem advance_eq (hoption : isShellOption word = true)
    (hletters : isLongOption word = false → '-' ∉ word.tail) :
    advancePosixInlineOptionScan word = 1 + shellOptionValues word := by
  unfold advancePosixInlineOptionScan shellOptionValues
  cases hlong : isLongOption word with
  | true =>
    have hcount : combinedSeparateValueOptionCount word = 0 := by
      unfold isLongOption startsWith at hlong
      obtain ⟨rest, rfl⟩ := isPrefixOf_iff_prefix.mp hlong
      unfold combinedSeparateValueOptionCount
      exact if_pos (.inr mem_cons_self)
    rw [hcount, if_neg (Nat.lt_irrefl 0), if_pos rfl]
    by_cases hvalue : word = ("--rcfile" : Str) ∨ word = ("--init-file" : Str)
    · rw [if_pos hvalue, if_pos]
      rcases hvalue with rfl | rfl <;> decide
    · rw [if_neg hvalue, if_neg]
      intro hmem
      have hshort : ¬ (word = ("-O" : Str) ∨ word = ("-o" : Str) ∨ word = ("+O" : Str) ∨
          word = ("+o" : Str)) := by
        rintro (rfl | rfl | rfl | rfl) <;> exact nomatch hlong
      simp only [posixShellOptionsWithSeparateValues, mem_cons, not_mem_nil, or_false] at hmem
      rcases hmem with h | h | hrest
      · exact hvalue (.inr h)
      · exact hvalue (.inl h)
      · exact hshort hrest
  | false =>
    have hdash := hletters hlong
    rw [if_neg Bool.false_ne_true]
    cases word with
    | nil => exact nomatch hoption
    | cons sign tail =>
      cases tail with
      | nil =>
        rw [if_neg (show ¬ combinedSeparateValueOptionCount [sign] > 0 from Nat.lt_irrefl 0), if_neg]
        · rfl
        · intro hmem
          simp [posixShellOptionsWithSeparateValues] at hmem
      | cons c rest =>
        have hsign : sign = '-' ∨ sign = '+' := by simpa [isShellOption] using hoption
        have hcount : combinedSeparateValueOptionCount (sign :: c :: rest) =
            (c :: rest).countP fun c => c = 'o' || c = 'O' := by
          refine if_neg ?_
          intro hbad
          rcases hbad with hneither | hmem
          · exact hsign.elim hneither.1 hneither.2
          · exact hdash hmem
        rw [hcount]
        by_cases hpos : 0 < (c :: rest).countP fun c => c = 'o' || c = 'O'
        · rw [if_pos hpos]
          rfl
        · rw [if_neg hpos, if_neg]
          · show 1 = 1 + (c :: rest).countP _
            omega
          · intro hmem
            simp only [posixShellOptionsWithSeparateValues, mem_cons, not_mem_nil, or_false] at hmem
            rcases hmem with h | h | h | h | h | h
            · rw [h] at hlong
              exact nomatch hlong
            · rw [h] at hlong
              exact nomatch hlong
            · have htail : c :: rest = ['O'] := tail_eq_of_cons_eq h
              rw [htail] at hpos
              exact hpos (by decide)
            · have htail : c :: rest = ['o'] := tail_eq_of_cons_eq h
              rw [htail] at hpos
              exact hpos (by decide)
            · have htail : c :: rest = ['O'] := tail_eq_of_cons_eq h
              rw [htail] at hpos
              exact hpos (by decide)
            · have htail : c :: rest = ['o'] := tail_eq_of_cons_eq h
              rw [htail] at hpos
              exact hpos (by decide)

/-! ## The command behind a flag -/

/-- Behind a flag the first word that is no option is the command. -/
theorem shellCommandLoop_flagged
    (h : ∀ command, rest[values]? = some command → isShellOption command = false) :
    shellCommandLoop true values i rest = rest[values]?.map fun command => (i + values, command) := by
  induction rest generalizing values i with
  | nil => cases values <;> rfl
  | cons word rest ih =>
    cases values with
    | zero =>
      have hplain : isShellOption word = false := h word rfl
      have hdashes : word ≠ ("--" : Str) := fun heq => by
        rw [heq] at hplain
        exact nomatch hplain
      unfold shellCommandLoop
      rw [if_neg hdashes, if_neg (by rw [hplain]; exact Bool.false_ne_true), if_pos rfl]
      rfl
    | succ values =>
      unfold shellCommandLoop
      rw [ih h, getElem?_cons_succ, Nat.add_assoc, Nat.add_comm 1 values]

/-- The command stands at or behind the word the shell is at. -/
theorem le_place_of_shellCommandLoop {flagged : Bool}
    {found : ℕ × Str} (h : shellCommandLoop flagged skip i words = some found) :
    i + skip ≤ found.1 := by
  induction words generalizing flagged skip i with
  | nil => cases skip <;> exact nomatch h
  | cons word rest ih =>
    cases skip with
    | succ skip =>
      have hle := ih h
      omega
    | zero =>
      unfold shellCommandLoop at h
      split at h
      · split_ifs at h
        cases rest with
        | nil => exact nomatch h
        | cons command rest =>
          rw [← some.inj h]
          exact Nat.le_succ i
      · split at h
        · have hle := ih h
          omega
        · split_ifs at h
          rw [← some.inj h]
          exact le_rfl

/-- An option right behind a flag is not the command. -/
theorem lt_place_of_option {found : ℕ × Str}
    (hword : rest[values]? = some word) (hoption : isShellOption word = true)
    (h : shellCommandLoop true values i rest = some found) : i + values < found.1 := by
  induction rest generalizing values i with
  | nil => exact nomatch hword
  | cons first rest ih =>
    cases values with
    | succ values =>
      have hlt := ih hword h
      omega
    | zero =>
      have hfirst : first = word := some.inj hword
      unfold shellCommandLoop at h
      rw [hfirst] at h
      split at h
      · rw [if_pos rfl] at h
        cases rest with
        | nil => exact nomatch h
        | cons command rest =>
          rw [← some.inj h]
          exact Nat.lt_succ_self i
      · have hle := le_place_of_shellCommandLoop h
        omega

theorem nonEmpty?_trim_of_plain (htrim : trim word = word) (hne : word ≠ []) :
    nonEmpty? (trim word) = some word := by
  rw [htrim]
  exact if_neg hne

/-! ## The condition is enough -/

/-- The scan at a flag without anything attached: the word behind it and its values. -/
theorem posixInlineStep_flag {host : Host} {i values : ℕ} {token : Str} {rest : List Str}
    (hparse : parseCombinedCommandFlag token = some ⟨none, values⟩) :
    (posixInlineStep host i token rest).command =
        rest[values]?.bind (fun value => nonEmpty? (trim value)) ∧
      ∀ value, rest[values]? = some value →
        (posixInlineStep host i token rest).valueTokenIndex = some (i + 1 + values) := by
  have hflag := hasShellCommandFlag_iff.mp (hasShellCommandFlag_of_parse hparse)
  obtain ⟨c, letters, htoken, hdash, -⟩ := hflag
  have hne : token ≠ [] := by
    rw [htoken]
    exact cons_ne_nil _ _
  have hend : token ≠ ("--" : Str) := by
    intro heq
    have htail : c :: letters = ['-'] := tail_eq_of_cons_eq (htoken.symm.trans heq)
    exact hdash (head_eq_of_cons_eq htail)
  unfold posixInlineStep
  rw [if_neg hne, if_neg hend]
  by_cases hmem : token ∈ posixInlineCommandFlags
  · -- `-c` and `-lc` are clusters too, without values
    have hzero : values = 0 := by
      have hcases : token = ("-lc" : Str) ∨ token = ("-c" : Str) ∨ token = ("--command" : Str) := by
        simpa [posixInlineCommandFlags] using hmem
      rcases hcases with rfl | rfl | rfl
      · exact congrArg CombinedCommandFlag.separateValueCount (some.inj hparse).symm
      · exact congrArg CombinedCommandFlag.separateValueCount (some.inj hparse).symm
      · have hnone : parseCombinedCommandFlag ("--command" : Str) = none := rfl
        rw [hnone] at hparse
        exact nomatch hparse
    rw [if_pos hmem, hzero]
    cases rest with
    | nil => exact ⟨rfl, fun _ h => nomatch h⟩
    | cons value rest => exact ⟨rfl, fun _ _ => rfl⟩
  · rw [if_neg hmem, hparse]
    exact ⟨rfl, fun _ _ => rfl⟩

/-- The induction is on the words; the scan and the shell pass the same ones. -/
theorem findsCommand_of_readAlike (hlower : LowersToDashes host) (h : ReadAlike skip words) :
    FindsCommand (inlineCommandLoop host posixInlineCommandFlags posixInlineOptions skip i words)
      (shellCommandLoop false skip i words) := by
  induction words generalizing skip i with
  | nil => cases skip <;> exact ⟨rfl, fun _ h => nomatch h⟩
  | cons word rest ih =>
    cases skip with
    | succ skip => exact ih h
    | zero =>
      rw [inlineCommandLoop_cons hlower]
      unfold ReadAlike at h
      unfold shellCommandLoop
      split at h
      · next hplain =>
        have hdashes : word ≠ ("--" : Str) := by
          intro heq
          rw [heq] at hplain
          exact nomatch hplain
        have hnot : isOptionLike (trim word) ≠ true := by
          rw [h.2]
          exact Bool.false_ne_true
        have hend : trim word ≠ ("--" : Str) := fun heq => hnot (by rw [heq]; rfl)
        have hflag : trim word ∉ posixInlineCommandFlags := by
          intro hmem
          have hcases : trim word = ("-lc" : Str) ∨ trim word = ("-c" : Str) ∨
              trim word = ("--command" : Str) := by simpa [posixInlineCommandFlags] using hmem
          rcases hcases with heq | heq | heq <;> exact hnot (by rw [heq]; rfl)
        have hparse : parseCombinedCommandFlag (trim word) = none := by
          cases hsome : parseCombinedCommandFlag (trim word) with
          | none => rfl
          | some flag =>
            obtain ⟨c, letters, heq, -, -⟩ :=
              hasShellCommandFlag_iff.mp (hasShellCommandFlag_of_parse hsome)
            exact absurd (by rw [heq]; rfl) hnot
        unfold posixInlineStep
        rw [if_neg h.1, if_neg hend, if_neg hflag, hparse]
        dsimp only
        rw [if_pos h.2, if_neg hdashes, if_neg (by rw [hplain]; exact Bool.false_ne_true),
          if_neg Bool.false_ne_true]
        exact ⟨rfl, fun _ h => nomatch h⟩
      · next hoption =>
        have hoption : isShellOption word = true := by simpa using hoption
        split at h
        · next hend =>
          rw [hend, if_pos rfl]
          exact ⟨rfl, fun _ h => nomatch h⟩
        · next hend =>
          rw [if_neg hend, if_pos hoption]
          split at h
          · next hflag =>
            have hstep := @posixInlineStep_flag host i _ _ rest h.1
            rw [hflag, Bool.or_true, shellCommandLoop_flagged fun command hget => (h.2 command hget).1]
            cases hvalue : rest[shellOptionValues word]? with
            | none =>
              rw [hvalue] at hstep
              exact ⟨hstep.1, fun _ h => nomatch h⟩
            | some command =>
              have hplain := h.2 command hvalue
              refine ⟨?_, ?_⟩
              · rw [hstep.1, hvalue]
                exact nonEmpty?_trim_of_plain hplain.2.1 hplain.2.2
              · intro place hplace
                rw [hstep.2 command hvalue]
                exact hplace
          · next hflag =>
            obtain ⟨hdashes, hflags, hparse, hlike, hadvance, hrest⟩ := h
            have hblank : trim word ≠ [] := by
              intro hnil
              rw [hnil] at hlike
              exact nomatch hlike
            have hnoflag : hasShellCommandFlag word = false := by simpa using hflag
            unfold posixInlineStep
            rw [if_neg hblank, if_neg hdashes, if_neg hflags, hparse]
            dsimp only
            rw [if_neg (by rw [hlike]; exact fun h => nomatch h), hadvance, Nat.add_sub_cancel_left,
              hnoflag, Bool.or_false]
            exact ih hrest

/-! ## The condition is needed -/

theorem shellCommandLoop_option (hoption : isShellOption word = true) (hend : word ≠ ("--" : Str)) :
    shellCommandLoop false 0 i (word :: rest) =
      shellCommandLoop (hasShellCommandFlag word) (shellOptionValues word) (i + 1) rest := by
  rw [shellCommandLoop, if_neg hend, if_pos hoption, Bool.false_or]

/-- What ends a word without white space at its ends is not blank. -/
theorem trim_ne_nil_of_suffix (hword : trim word = word) (hsuffix : suffix <:+ word)
    (hne : suffix ≠ []) : trim suffix ≠ [] := by
  intro hnil
  have hstart : trimStart word = word := by
    have hsub : trim word <+: trimStart word := rdropWhile_prefix isSpace _
    have hlen := hsub.length_le
    have hdrop : trimStart word <:+ word := dropWhile_suffix isSpace
    rw [hword] at hlen
    exact hdrop.eq_of_length_le hlen
  have hend : word.rdropWhile isSpace = word := by
    have htrim : trimEnd (trimStart word) = word := hword
    rw [hstart] at htrim
    exact htrim
  have hwordne : word ≠ [] := by
    intro h
    rw [h] at hsuffix
    exact hne (suffix_nil.mp hsuffix)
  have hlast := rdropWhile_eq_self_iff.mp hend hwordne
  -- the last characters are the same, and a blank suffix ends in white space
  have hsame : word.getLast hwordne = suffix.getLast hne := by
    obtain ⟨before, rfl⟩ := hsuffix
    exact getLast_append_of_ne_nil _ hne
  have hblank : ∀ c ∈ suffix, isSpace c = true := by
    have hrdrop : (trimStart suffix).rdropWhile isSpace = [] := hnil
    rw [rdropWhile_eq_nil_iff] at hrdrop
    have hall : trimStart suffix = [] := by
      by_contra hstartne
      have hhead := head_dropWhile_not isSpace (l := suffix) hstartne
      have hspace : isSpace ((suffix.dropWhile isSpace).head hstartne) = true :=
        hrdrop _ (head_mem hstartne)
      rw [hhead] at hspace
      exact nomatch hspace
    exact dropWhile_eq_nil_iff.mp hall
  rw [hsame, hblank _ (getLast_mem hne)] at hlast
  exact hlast rfl

/-- A flag with a command attached to it is not where the shell finds its command. -/
theorem not_findsCommand_attached (hclean : CleanWord word) (hoption : isShellOption word = true)
    (hparse : parseCombinedCommandFlag word = some ⟨some suffix, values⟩)
    (hsuffix : suffix <:+ word) (hne : suffix ≠ []) :
    ¬ FindsCommand (posixInlineStep host i word rest) (shellCommandLoop false 0 i (word :: rest)) := by
  intro hfinds
  have hflags : word ∉ posixInlineCommandFlags := by
    intro hmem
    have hcases : word = ("-lc" : Str) ∨ word = ("-c" : Str) ∨ word = ("--command" : Str) := by
      simpa [posixInlineCommandFlags] using hmem
    rcases hcases with rfl | rfl | rfl
    · have hnone : parseCombinedCommandFlag ("-lc" : Str) = some ⟨none, 0⟩ := rfl
      rw [hnone] at hparse
      exact nomatch hparse
    · have hnone : parseCombinedCommandFlag ("-c" : Str) = some ⟨none, 0⟩ := rfl
      rw [hnone] at hparse
      exact nomatch hparse
    · exact hclean.notCommand rfl
  have hend : word ≠ ("--" : Str) := by
    intro heq
    rw [heq] at hparse
    have hnone : parseCombinedCommandFlag ("--" : Str) = none := rfl
    rw [hnone] at hparse
    exact nomatch hparse
  have hstep : posixInlineStep host i word rest = ⟨nonEmpty? (trim suffix), some i⟩ := by
    unfold posixInlineStep
    rw [if_neg hclean.nonempty, if_neg hend, if_neg hflags, hparse]
  rw [hstep, shellCommandLoop_option hoption hend] at hfinds
  have hcommand : nonEmpty? (trim suffix) = some (trim suffix) :=
    if_neg (trim_ne_nil_of_suffix hclean.trimmed hsuffix hne)
  have hfound := hfinds.1
  rw [hcommand] at hfound
  obtain ⟨found, hloop, -⟩ := Option.map_eq_some_iff.mp hfound.symm
  have hle := le_place_of_shellCommandLoop hloop
  have hplace := hfinds.2 found.1 (by rw [hloop]; rfl)
  have heq : i = found.1 := some.inj hplace
  omega

/-- Words without oddities that the scan and the shell disagree on have an option behind the flag,
or something attached to it. -/
theorem readAlike_of_findsCommand (hlower : LowersToDashes host)
    (hclean : ∀ word ∈ words, CleanWord word) (h : FindsCommand
      (inlineCommandLoop host posixInlineCommandFlags posixInlineOptions skip i words)
      (shellCommandLoop false skip i words)) : ReadAlike skip words := by
  induction words generalizing skip i with
  | nil => cases skip <;> trivial
  | cons word rest ih =>
    have hrest : ∀ word ∈ rest, CleanWord word := fun word hmem => hclean word (mem_cons_of_mem _ hmem)
    cases skip with
    | succ skip => exact ih hrest h
    | zero =>
      have hword := hclean word mem_cons_self
      rw [inlineCommandLoop_cons hlower, hword.trimmed] at h
      unfold ReadAlike
      rw [hword.trimmed]
      by_cases hoption : isShellOption word = false
      · rw [if_pos hoption]
        exact ⟨hword.nonempty, (isOptionLike_eq word).trans hoption⟩
      rw [if_neg hoption]
      have hoption : isShellOption word = true := by simpa using hoption
      by_cases hend : word = ("--" : Str)
      · rw [if_pos hend]
        trivial
      rw [if_neg hend]
      by_cases hflag : hasShellCommandFlag word = true
      · rw [if_pos hflag]
        obtain ⟨c, letters, hletters, hdash, hmem⟩ := hasShellCommandFlag_iff.mp hflag
        have hlong : isLongOption word = false := by
          have hne : ('-' == c) = false := beq_eq_false_iff_ne.mpr (Ne.symm hdash)
          rw [hletters]
          simp [isLongOption, startsWith, List.isPrefixOf, hne]
        have hnodash : '-' ∉ c :: letters := by
          have htail := hword.letters hoption hlong
          rw [hletters] at htail
          exact htail
        obtain ⟨suffix, hsuffix⟩ := exists_afterChar? hmem
        have hparse := parseCombinedCommandFlag_cluster hnodash
        rw [← hletters, hsuffix, map_some] at hparse
        by_cases hattached : suffix ≠ [] ∧ (!suffix.all Char.isAlpha) = true
        · rw [if_pos hattached] at hparse
          have hend : suffix <:+ word := by
            rw [hletters]
            exact (afterChar?_eq_some hsuffix).2.trans (suffix_cons _ _)
          exact absurd h (not_findsCommand_attached hword hoption hparse hend hattached.1)
        · rw [if_neg hattached] at hparse
          have hvalues : countSeparateValueOptionChars word = shellOptionValues word := by
            unfold shellOptionValues
            rw [hlong, if_neg Bool.false_ne_true]
            rfl
          rw [hvalues] at hparse
          refine ⟨hparse, ?_⟩
          intro command hget
          have hcommand := hrest command (mem_of_getElem? hget)
          refine ⟨?_, hcommand.trimmed, hcommand.nonempty⟩
          by_contra hplain
          have hplain : isShellOption command = true := by simpa using hplain
          have hstep := @posixInlineStep_flag host i _ _ rest hparse
          have hfound := h.1
          rw [shellCommandLoop_option hoption hend, hflag] at hfound h
          rw [hstep.1, hget, bind_some,
            nonEmpty?_trim_of_plain hcommand.trimmed hcommand.nonempty] at hfound
          obtain ⟨found, hloop, -⟩ := Option.map_eq_some_iff.mp hfound.symm
          have hlt := lt_place_of_option hget hplain hloop
          have hplace := h.2 found.1 (by rw [hloop]; rfl)
          rw [hstep.2 command hget] at hplace
          have heq : i + 1 + shellOptionValues word = found.1 := some.inj hplace
          omega
      · rw [if_neg hflag]
        have hnoflag : hasShellCommandFlag word = false := by simpa using hflag
        have hparse : parseCombinedCommandFlag word = none := by
          cases hsome : parseCombinedCommandFlag word with
          | none => rfl
          | some flag => exact absurd (hasShellCommandFlag_of_parse hsome) hflag
        have hflags : word ∉ posixInlineCommandFlags := by
          intro hmem
          have hcases : word = ("-lc" : Str) ∨ word = ("-c" : Str) ∨ word = ("--command" : Str) := by
            simpa [posixInlineCommandFlags] using hmem
          rcases hcases with rfl | rfl | rfl
          · exact nomatch hnoflag
          · exact nomatch hnoflag
          · exact hword.notCommand rfl
        have hlike : isOptionLike word = true := (isOptionLike_eq word).trans hoption
        have hadvance := advance_eq hoption (hword.letters hoption)
        refine ⟨hend, hflags, hparse, hlike, hadvance, ih (i := i + 1) hrest ?_⟩
        rw [shellCommandLoop_option hoption hend, hnoflag] at h
        unfold posixInlineStep at h
        rw [if_neg hword.nonempty, if_neg hend, if_neg hflags, hparse] at h
        dsimp only at h
        rw [if_neg (by rw [hlike]; exact fun h => nomatch h), hadvance, Nat.add_sub_cancel_left] at h
        exact h

/-! ## Inline commands of POSIX shells -/

/-- The scan finds the command of the shell where every word up to the command is read alike, and
on words without oddities only there. -/
theorem resolvePosixInlineCommandMatch_findsCommand (host : Host) (hlower : LowersToDashes host)
    (argv : List Str) : (ReadAlike 0 argv.tail →
      FindsCommand (resolvePosixInlineCommandMatch host argv) (shellCommand argv)) ∧
    ((∀ word ∈ argv.tail, CleanWord word) →
      (FindsCommand (resolvePosixInlineCommandMatch host argv) (shellCommand argv) ↔
        ReadAlike 0 argv.tail)) :=
  ⟨fun h => findsCommand_of_readAlike hlower h, fun hclean =>
    ⟨fun h => readAlike_of_findsCommand hlower hclean h, fun h => findsCommand_of_readAlike hlower h⟩⟩

theorem toLower_eq_dash_iff : c.toLower = '-' ↔ c = '-' := by
  constructor
  · intro h
    unfold Char.toLower at h
    split at h
    · next hupper =>
      have hval : c.val + 32 = 45 := congrArg Char.val h
      have hnat := congrArg UInt32.toNat hval
      rw [UInt32.toNat_add] at hnat
      have hlow : 65 ≤ c.val.toNat := UInt32.le_iff_toNat_le.mp hupper.1
      have hhigh : c.val.toNat ≤ 90 := UInt32.le_iff_toNat_le.mp hupper.2
      have hsum : (c.val.toNat + 32) % 2 ^ 32 = 45 := hnat
      omega
    · exact h
  · intro h
    rw [h]
    rfl

theorem lowersToDashes_asciiLinux : LowersToDashes Host.asciiLinux := by
  intro word
  show word.map Char.toLower = ['-', '-'] ↔ word = ['-', '-']
  cases word with
  | nil => simp
  | cons a rest =>
    cases rest with
    | nil => simp
    | cons b rest => simp [toLower_eq_dash_iff]

/-- `sh -c ls` -/
theorem resolvePosixInlineCommandMatch_findsCommand_ls : (ReadAlike 0 ["-c".toList, "ls".toList] →
      FindsCommand (resolvePosixInlineCommandMatch Host.asciiLinux ["sh".toList, "-c".toList, "ls".toList])
        (shellCommand ["sh".toList, "-c".toList, "ls".toList])) ∧
    ((∀ word ∈ (["-c".toList, "ls".toList] : List Str), CleanWord word) →
      (FindsCommand (resolvePosixInlineCommandMatch Host.asciiLinux
        ["sh".toList, "-c".toList, "ls".toList])
        (shellCommand ["sh".toList, "-c".toList, "ls".toList]) ↔
        ReadAlike 0 ["-c".toList, "ls".toList])) :=
  resolvePosixInlineCommandMatch_findsCommand Host.asciiLinux lowersToDashes_asciiLinux
    ["sh".toList, "-c".toList, "ls".toList]

/-- The shell runs `ls` with the option `-e`; the scan takes `-e` for the command. -/
theorem not_findsCommand_option_behind_flag : ¬ FindsCommand
      (resolvePosixInlineCommandMatch Host.asciiLinux
        ["sh".toList, "-c".toList, "-e".toList, "ls".toList])
      (shellCommand ["sh".toList, "-c".toList, "-e".toList, "ls".toList]) := by
  intro h
  exact absurd h.1 (by decide)

end OpenClaw
