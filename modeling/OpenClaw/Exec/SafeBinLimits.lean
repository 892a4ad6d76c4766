import OpenClaw.Exec.SafeBinOperands

/-!
# When safe-bin validation keeps denied options and operands out

For one profile and one program, every accepted list is read as the claims of the profile say
exactly when the profile accepts nothing, or sets no upper limit and takes no option of the
program for an abbreviation. With a limit, empty operands go beyond it uncounted; with such an
option, what the validator takes for its value is an argument of its own to the program.
-/

namespace OpenClaw

open List Bool

variable {profile : SafeBinProfile} {grammar : OptionGrammar}

/-! ## Clear lists -/

theorem length_counted_le (texts : List Str) :
    (counted texts).length ≤ texts.countP (· ≠ ("-" : Str)) := by
  unfold counted
  rw [← countP_eq_length_filter]
  apply countP_mono_left
  intro text _ htext
  have hboth : text ≠ [] ∧ text ≠ ("-" : Str) := of_decide_eq_true htext
  exact decide_eq_true hboth.2

theorem length_counted_of_nil_not_mem {texts : List Str} (h : [] ∉ texts) :
    (counted texts).length = texts.countP (· ≠ ("-" : Str)) := by
  unfold counted
  rw [← countP_eq_length_filter]
  apply countP_congr
  intro text htext
  have hne : text ≠ [] := by
    rintro rfl
    exact h htext
  simp [hne]

variable {host : Host} {args : List Str} {binName : Option Str} {flag : Str}

theorem validateSafeBinArgv_eq_true (h : validateSafeBinArgv host args profile binName = true) :
    ∃ positional, collectPositionalTokens args profile = some positional ∧
      validatePositionalCount positional profile = true ∧
      validateSafeBinSemantics host binName positional = true := by
  unfold validateSafeBinArgv at h
  cases hcollect : collectPositionalTokens args profile with
  | none =>
    rw [hcollect] at h
    exact absurd h Bool.false_ne_true
  | some positional =>
    rw [hcollect] at h
    have hboth := Bool.and_eq_true_iff.mp h
    exact ⟨positional, rfl, hboth.1, hboth.2⟩

theorem validatePositionalCount_eq_true_iff {positional : List Str} :
    validatePositionalCount positional profile = true ↔
      profile.minPositional.getD 0 ≤ positional.length ∧
        ∀ maxPositional, profile.maxPositional = some maxPositional →
          positional.length ≤ maxPositional := by
  unfold validatePositionalCount
  by_cases hmin : positional.length < profile.minPositional.getD 0
  · rw [if_pos hmin]
    constructor
    · intro h
      exact absurd h Bool.false_ne_true
    · rintro ⟨hle, -⟩
      omega
  · rw [if_neg hmin]
    have hle : profile.minPositional.getD 0 ≤ positional.length := by omega
    cases profile.maxPositional with
    | none => simp [hle]
    | some maxPositional => simp [hle]

/-- A clear list is kept out, if it has no empty arguments or they cannot be too many. -/
theorem keepsOut_of_clearFor (host : Host) (binName : Option Str) (hderived : profile.Derived)
    (hfits : FitsProfile grammar profile)
    (hclear : ClearFor profile grammar args) (hempty : profile.maxPositional = none ∨ [] ∉ args) :
    KeepsOut host binName profile grammar args := by
  intro hvalid items hparse
  obtain ⟨positional, hcollect, hcount, -⟩ := validateSafeBinArgv_eq_true hvalid
  obtain ⟨hmin, hmax⟩ := validatePositionalCount_eq_true_iff.mp hcount
  obtain ⟨hkept, hpositional⟩ := readsAs_of_collectLoop hderived hfits args.length le_rfl hclear
    hcollect hparse
  rw [nil_append] at hpositional
  refine ⟨hkept, ?_, ?_⟩
  · have hle := length_counted_le (operands items)
    rw [← hpositional] at hle
    omega
  · intro maxPositional hlimit
    have hargs : [] ∉ args := by
      rcases hempty with hnone | hargs
      · rw [hnone] at hlimit
        exact nomatch hlimit
      · exact hargs
    have hoperands : [] ∉ operands items := by
      intro hmem
      obtain ⟨item, hitem, hoperand⟩ := mem_filterMap.mp hmem
      cases item with
      | option flag value => exact absurd hoperand (by simp [CommandItem.operand?])
      | operand text =>
        rw [Option.some.inj hoperand] at hitem
        exact hargs (grammar.mem_of_operand_mem_parse args.length le_rfl hparse hitem)
    rw [← length_counted_of_nil_not_mem hoperands, ← hpositional]
    exact hmax maxPositional hlimit

/-! ## Lists that go wrong -/

/-- Operands to reach the lower limit with. -/
def fillers (profile : SafeBinProfile) : List Str :=
  List.replicate (profile.minPositional.getD 0) ("a" : Str)

theorem collectLoop_fillers (n : ℕ) (rest positional : List Str) :
    collectLoop profile (List.replicate n ("a" : Str) ++ rest) positional =
      collectLoop profile rest (positional ++ List.replicate n ("a" : Str)) := by
  induction n generalizing positional with
  | zero => simp
  | succ n ih =>
    have hstep : collectLoop profile (("a" : Str) :: (List.replicate n ("a" : Str) ++ rest))
        positional = collectLoop profile (List.replicate n ("a" : Str) ++ rest)
          (positional ++ [("a" : Str)]) := rfl
    rw [replicate_succ, cons_append, hstep, ih, append_assoc, singleton_append]

theorem collectLoop_empty (n : ℕ) (positional : List Str) :
    collectLoop profile (List.replicate n []) positional = some positional := by
  induction n with
  | zero => rfl
  | succ n ih =>
    rw [replicate_succ]
    exact ih

/-- Where any operands pass the rules of the bin, none at all do. -/
theorem validateSafeBinSemantics_nil {positional : List Str}
    (h : validateSafeBinSemantics host binName positional = true) :
    validateSafeBinSemantics host binName [] = true := by
  unfold validateSafeBinSemantics safeBinSemanticRule at h ⊢
  dsimp only at h ⊢
  split_ifs at h ⊢ <;> rfl

theorem validateSafeBinSemantics_fillers
    (h : validateSafeBinSemantics host binName [] = true) (n : ℕ) :
    validateSafeBinSemantics host binName (List.replicate n ("a" : Str)) = true := by
  have hjq : validateJqSemantics (List.replicate n ("a" : Str)) = true := by
    unfold validateJqSemantics
    rw [not_eq_true', any_eq_false]
    intro token htoken
    rw [eq_of_mem_replicate htoken]
    decide
  unfold validateSafeBinSemantics safeBinSemanticRule at h ⊢
  dsimp only at h ⊢
  -- the rule of the awk and sed family is refuted by `h`
  split_ifs at h ⊢
  · rfl
  · exact hjq
  · rfl

/-- Where the operands counted are the fillers, the list is accepted. -/
theorem validateSafeBinArgv_of_fillers (hopen : ¬ AcceptsNothing host binName profile)
    (h : collectPositionalTokens args profile = some (fillers profile)) :
    validateSafeBinArgv host args profile binName = true := by
  have hcount : validatePositionalCount (fillers profile) profile = true := by
    rw [validatePositionalCount_eq_true_iff, fillers, length_replicate]
    refine ⟨le_rfl, ?_⟩
    intro maxPositional hmax
    by_contra hlt
    exact hopen (.inr ⟨maxPositional, hmax, by omega⟩)
  have hsemantics : validateSafeBinSemantics host binName [] = true := by
    rw [← not_eq_false]
    intro hfalse
    exact hopen (.inl hfalse)
  rw [validateSafeBinArgv, h]
  exact Bool.and_eq_true_iff.mpr ⟨hcount, validateSafeBinSemantics_fillers hsemantics _⟩

theorem parse_fillers (grammar : OptionGrammar) (n : ℕ) (rest : List Str) :
    grammar.parse (List.replicate n ("a" : Str) ++ rest) =
      (grammar.parse rest).map ((List.replicate n ("a" : Str)).map .operand ++ ·) := by
  apply grammar.parse_operands_append
  intro arg harg
  rw [eq_of_mem_replicate harg]
  decide

/-- With an upper limit, empty operands go beyond it. -/
theorem not_keepsOut_empty (hopen : ¬ AcceptsNothing host binName profile) {maxPositional : ℕ}
    (hmax : profile.maxPositional = some maxPositional) : ¬ KeepsOut host binName profile grammar
      (fillers profile ++ List.replicate (maxPositional + 1) []) := by
  intro hkeeps
  have hcollect : collectPositionalTokens
      (fillers profile ++ List.replicate (maxPositional + 1) []) profile =
        some (fillers profile) := by
    rw [collectPositionalTokens, fillers, collectLoop_fillers, collectLoop_empty]
    rfl
  have hempties : grammar.parse (List.replicate (maxPositional + 1) []) =
      some ((List.replicate (maxPositional + 1) []).map .operand) := by
    have hhead : ∀ arg ∈ List.replicate (maxPositional + 1) ([] : Str),
        arg.head? ≠ some '-' := by
      intro arg harg
      rw [eq_of_mem_replicate harg]
      decide
    have hparse := grammar.parse_operands_append hhead []
    rw [append_nil] at hparse
    rw [hparse]
    simp [OptionGrammar.parse]
  have hparse : grammar.parse (fillers profile ++ List.replicate (maxPositional + 1) []) =
      some ((fillers profile ++ List.replicate (maxPositional + 1) []).map .operand) := by
    rw [fillers, parse_fillers, hempties, map_append]
    rfl
  have hle := (hkeeps (validateSafeBinArgv_of_fillers hopen hcollect) _ hparse).2.2
    maxPositional hmax
  have hcount : (List.replicate (maxPositional + 1) ([] : Str)).countP (· ≠ ("-" : Str)) =
      maxPositional + 1 := by
    rw [countP_replicate]
    rfl
  rw [operands_map_operand, countP_append, hcount] at hle
  omega

/-! ## Options taken for abbreviations -/

theorem isPathLikeToken_dash (s : Str) : isPathLikeToken ('-' :: s) = false := by
  have hstart : trimStart ('-' :: s) = '-' :: s := by
    rw [trimStart, dropWhile_cons_of_neg (by decide)]
  obtain ⟨behind, hbehind⟩ : trim ('-' :: s) <+: '-' :: s := by
    rw [trim, hstart]
    exact rdropWhile_prefix isSpace _
  unfold isPathLikeToken
  dsimp only
  cases htrim : trim ('-' :: s) with
  | nil => rfl
  | cons c rest =>
    rw [htrim] at hbehind
    have hc : c = '-' := (List.cons.inj hbehind).1
    rw [hc]
    by_cases hrest : rest = []
    · rw [hrest]
      rfl
    · have hstdin : '-' :: rest ≠ ("-" : Str) := by simpa using hrest
      rw [if_neg (by simp), if_neg hstdin]
      rw [if_neg (by simp [startsWith]), if_neg (by simp [startsWith])]
      split
      · rename_i heq
        rw [← (List.cons.inj heq).1]
        rfl
      · rfl

theorem hasShellExpansionToken_cons (c : Char) (rest : Str) : hasShellExpansionToken (c :: rest) =
      ((c = '$' && rest.head?.any isExpansionStart) || hasShellExpansionToken rest) := by
  by_cases hc : c = '$'
  · rw [hc]
    cases rest with
    | nil => rfl
    | cons d rest => rfl
  · have hplain : hasShellExpansionToken (c :: rest) = hasShellExpansionToken rest := by
      rw [hasShellExpansionToken]
      rintro d rest' rfl
      exact absurd rfl hc
    rw [hplain]
    simp [hc]

/-- A value behind `=` brings no expansion of its own to the option. -/
theorem hasShellExpansionToken_attached {value : Str}
    (hflag : hasShellExpansionToken flag = false) (hvalue : hasShellExpansionToken value = false) :
    hasShellExpansionToken (flag ++ '=' :: value) = false := by
  induction flag with
  | nil =>
    rw [nil_append, hasShellExpansionToken_cons, hvalue]
    rfl
  | cons c rest ih =>
    rw [hasShellExpansionToken_cons, or_eq_false_iff] at hflag
    rw [cons_append, hasShellExpansionToken_cons, ih hflag.2, Bool.or_false]
    cases rest with
    | nil =>
      rw [nil_append, head?_cons]
      exact Bool.and_false _
    | cons d rest => exact hflag.1

/-- Attached to an option, a value does not show as a path. -/
theorem isSafeLiteralToken_attached (hdashes : ['-', '-'] <+: flag)
    (hglob : hasGlobToken flag = false) (hexpansion : hasShellExpansionToken flag = false) :
    isSafeLiteralToken (flag ++ '=' :: ("/x" : Str)) = true := by
  have hpath : isPathLikeToken (flag ++ '=' :: ("/x" : Str)) = false := by
    obtain ⟨rest, rfl⟩ := hdashes
    exact isPathLikeToken_dash _
  have hwhole : hasGlobToken (flag ++ '=' :: ("/x" : Str)) = false := by
    have happend : hasGlobToken (flag ++ '=' :: ("/x" : Str)) =
        (hasGlobToken flag || hasGlobToken ('=' :: ("/x" : Str))) := any_append
    rw [happend, hglob]
    decide
  have hexpanded : hasShellExpansionToken (flag ++ '=' :: ("/x" : Str)) = false :=
    hasShellExpansionToken_attached hexpansion (by decide)
  unfold isSafeLiteralToken
  split_ifs
  · rfl
  · rw [hwhole, hexpanded, hpath]
    rfl

/-- A long option spelled without a value, as the validator reads it. -/
theorem parseExecArgvToken_flag (hdashes : ['-', '-'] <+: flag)
    (hlength : 2 < flag.length) (hplain : '=' ∉ flag) :
    parseExecArgvToken flag = .longOption flag flag none := by
  obtain ⟨behind, rfl⟩ := hdashes
  cases behind with
  | nil => exact nomatch hlength
  | cons c text =>
    have hparse : parseExecArgvToken ('-' :: '-' :: c :: text) = _ := parseExecArgvToken_long c text
    have hchars : ∀ d ∈ '-' :: '-' :: c :: text, (d != '=') = true := by
      intro d hd
      have hne : d ≠ '=' := by
        rintro rfl
        exact hplain hd
      simpa using hne
    have hwhole : beforeChar '=' ('-' :: '-' :: c :: text) = '-' :: '-' :: c :: text :=
      takeWhile_eq_self_iff.mpr hchars
    have hafter : afterChar? '=' ('-' :: '-' :: c :: text) = none := by
      unfold afterChar?
      rw [dropWhile_eq_nil_iff.mpr hchars]
    rw [hwhole, hafter] at hparse
    exact hparse

/-- The validator takes the next argument for the value of a spelling that it resolves. -/
theorem collectLoop_valued {spelling value : Str} (hdashes : ['-', '-'] <+: spelling)
    (hplain : '=' ∉ spelling) (hderived : profile.Derived)
    (hresolve : resolveCanonicalLongFlag profile spelling = some flag)
    (hallowed : flag ∈ profile.allowed) (hdenied : flag ∉ profile.denied)
    (hvalue : value ≠ []) (hsafe : isSafeLiteralToken value = true) (rest positional : List Str) :
    collectLoop profile (spelling :: value :: rest) positional =
      collectLoop profile rest positional := by
  obtain ⟨hlong, hlength, hname⟩ := resolveCanonicalLongFlag_eq_some hderived hresolve
  have htoken := parseExecArgvToken_flag hdashes hlength hplain
  have hne : flag ≠ [] := by
    rintro rfl
    have hle := (isPrefix_of_resolveAbbreviation hname).length_le
    rw [length_nil] at hle
    omega
  have hvalid : ¬ isInvalidValueToken (some value) = true := by
    simp [isInvalidValueToken, hvalue, hsafe]
  have hconsume : consumeOption profile (some value) (parseExecArgvToken spelling) =
      some .withNext := by
    rw [htoken]
    show consumeLongOptionToken profile (some value) spelling none = some .withNext
    rw [consumeLongOptionToken, hresolve]
    dsimp only
    rw [if_neg hne, if_neg hdenied, if_neg (not_not.mpr hallowed), consumeNextValue, if_neg hvalid]
  have hoption : IsOption spelling := .inl ⟨_, _, htoken⟩
  rw [collectLoop_cons_option hoption, head?_cons, hconsume]

/-- The program reads an option that takes no value by itself. -/
theorem parse_unvalued (hflag : flag ∈ grammar.long)
    (hunvalued : flag ∉ grammar.valued) (hlength : 2 < flag.length) (rest : List Str) :
    grammar.parse (flag :: rest) = (grammar.parse rest).map (.option flag none :: ·) := by
  have hne : flag ≠ ['-', '-'] := by
    rintro rfl
    exact nomatch hlength
  have hread : grammar.readArg flag = some ([.option flag none], none) := by
    rw [grammar.readArg_long (grammar.long_spelling flag hflag).1, grammar.readLong_name hflag,
      if_neg hunvalued]
  exact OptionGrammar.parse_cons_own hne hread rest

/-- With an option of the program that the profile takes for an abbreviation, a path goes
through as the value of the abbreviated option, or its name as an operand. -/
theorem exists_not_keepsOut (hderived : profile.Derived)
    (hfits : FitsProfile grammar profile) (hopen : ¬ AcceptsNothing host binName profile)
    {arg : Str} (harg : arg ∈ grammar.long) (htaken : TakenForAbbreviation profile arg) :
    ∃ args, ¬ KeepsOut host binName profile grammar args := by
  obtain ⟨flag, hresolve, hne, hallowed, hdenied⟩ := htaken
  obtain ⟨hlong, hlength, hname⟩ := resolveCanonicalLongFlag_eq_some hderived hresolve
  have hknown : flag ∈ profile.known := mem_of_resolveAbbreviation hname
  have hflag : flag ∈ grammar.long := hfits.known hknown
  have hflag_length : 2 < flag.length :=
    lt_of_lt_of_le hlength (isPrefix_of_resolveAbbreviation hname).length_le
  have hunvalued : arg ∉ grammar.valued := by
    intro hvalued
    have harg_known : arg ∈ profile.known :=
      (mem_known_iff hderived).mpr ⟨hlong, .inl ((hfits.valued arg).mp hvalued)⟩
    rw [resolveAbbreviation_eq_self harg_known] at hname
    exact hne (Option.some.inj hname).symm
  obtain ⟨harg_dashes, harg_plain⟩ := grammar.long_spelling arg harg
  obtain ⟨hflag_dashes, hflag_plain⟩ := grammar.long_spelling flag hflag
  -- what the validator makes of the argument with a value behind it
  have hskip := fun {value : Str} (hvalue : value ≠ []) (hsafe : isSafeLiteralToken value = true) =>
    collectLoop_valued harg_dashes harg_plain hderived hresolve hallowed hdenied hvalue hsafe
  have hlist : ∀ {misread : List Str} {items : List CommandItem},
      collectLoop profile misread ([] ++ fillers profile) = some (fillers profile) →
      grammar.parse misread = some items →
      (∃ item ∈ items, ¬ ItemKept profile item) →
      ¬ KeepsOut host binName profile grammar (fillers profile ++ misread) := by
    intro misread items hcollect hparse hitem hkeeps
    have hall : collectPositionalTokens (fillers profile ++ misread) profile =
        some (fillers profile) := by
      rw [collectPositionalTokens, fillers, collectLoop_fillers]
      exact hcollect
    have hread : grammar.parse (fillers profile ++ misread) =
        some ((fillers profile).map .operand ++ items) := by
      rw [fillers, parse_fillers, hparse]
      rfl
    obtain ⟨item, hmem, hlost⟩ := hitem
    have hkept := (hkeeps (validateSafeBinArgv_of_fillers hopen hall) _ hread).1
    exact hlost (hkept item (mem_append_right _ hmem))
  by_cases hliteral : hasGlobToken flag = false ∧ hasShellExpansionToken flag = false
  · have hsafe := isSafeLiteralToken_attached hflag_dashes hliteral.1 hliteral.2
    have hvalued : grammar.parse [flag ++ '=' :: ("/x" : Str)] =
        some [.option flag (some "/x")] := by
      have hattached : flag ++ '=' :: ("/x" : Str) ≠ ['-', '-'] := by
        intro heq
        have hsizes := congrArg List.length heq
        simp at hsizes
      have hread : grammar.readArg (flag ++ '=' :: ("/x" : Str)) =
          some ([.option flag (some "/x")], none) := by
        rw [grammar.readArg_long (hflag_dashes.trans (prefix_append ..)),
          grammar.readLong_attached hflag ((hfits.valued flag).mpr hallowed)]
      rw [OptionGrammar.parse_cons_own hattached hread]
      rfl
    refine ⟨fillers profile ++ [arg, flag ++ '=' :: ("/x" : Str)], ?_⟩
    apply hlist
    · rw [hskip (by simp) hsafe]
      rfl
    · rw [parse_unvalued harg hunvalued hlength, hvalued]
      rfl
    · refine ⟨.option flag (some "/x"), by simp, ?_⟩
      intro hkept
      have hfree : FreeText ("/x" : Str) := hkept.2 _ rfl
      have hpath : isPathLikeToken ("/x" : Str) = true := by decide
      rw [hfree.path] at hpath
      exact Bool.false_ne_true hpath
  · refine ⟨fillers profile ++ [arg, ("--" : Str), flag, ("v" : Str)], ?_⟩
    have hself : resolveCanonicalLongFlag profile flag = some flag := by
      have hmem : flag ∈ profile.knownSet := by
        rw [hderived.knownSet]
        exact mem_flagSet.mpr hknown
      have hskip : ¬ (¬ startsWith flag "--" ∨ flag.length ≤ 2) := by
        rintro (h | h)
        · exact h ((mem_known_iff hderived).mp hknown).1
        · omega
      rw [resolveCanonicalLongFlag, if_neg hskip, if_pos hmem]
    apply hlist
    · rw [hskip (by decide) (by decide), collectLoop_valued hflag_dashes hflag_plain hderived hself
        hallowed hdenied (by decide) (by decide)]
      rfl
    · rw [parse_unvalued harg hunvalued hlength]
      have hterminator : grammar.parse [("--" : Str), flag, ("v" : Str)] =
          some [.operand flag, .operand "v"] := grammar.parse_terminator _
      rw [hterminator]
      rfl
    · refine ⟨.operand flag, by simp, ?_⟩
      intro hkept
      exact hliteral ⟨hkept.glob, hkept.expansion⟩

/-! ## The whole claim of a profile -/

/-- For one profile and one program, all accepted lists are kept out exactly when the profile
accepts nothing, or has no upper limit and resolves no option of the program to another one; and
a single list is, if none of its arguments is such an option or, with an upper limit, empty. -/
theorem validateSafeBinArgv_keepsOut_iff (host : Host) (binName : Option Str)
    (profile : SafeBinProfile) (hderived : profile.Derived) (grammar : OptionGrammar)
    (hfits : FitsProfile grammar profile) : ((∀ args, KeepsOut host binName profile grammar args) ↔
      AcceptsNothing host binName profile ∨
        (profile.maxPositional = none ∧ ∀ arg ∈ grammar.long, ¬ TakenForAbbreviation profile arg)) ∧
      ∀ args, ClearFor profile grammar args → (profile.maxPositional = none ∨ [] ∉ args) →
        KeepsOut host binName profile grammar args := by
  refine ⟨⟨?_, ?_⟩, fun args => keepsOut_of_clearFor host binName hderived hfits⟩
  · intro hkeeps
    by_cases hopen : AcceptsNothing host binName profile
    · exact .inl hopen
    · refine .inr ⟨?_, ?_⟩
      · cases hmax : profile.maxPositional with
        | none => rfl
        | some maxPositional => exact absurd (hkeeps _) (not_keepsOut_empty hopen hmax)
      · intro arg harg htaken
        obtain ⟨args, hargs⟩ := exists_not_keepsOut hderived hfits hopen harg htaken
        exact hargs (hkeeps args)
  · rintro (hclosed | ⟨hmax, hclear⟩) args
    · intro hvalid
      obtain ⟨positional, -, hcount, hsemantics⟩ := validateSafeBinArgv_eq_true hvalid
      exfalso
      rcases hclosed with hdenied | ⟨maxPositional, hmax, hlt⟩
      · exact absurd (validateSafeBinSemantics_nil hsemantics) (by rw [hdenied]; decide)
      · obtain ⟨hmin, hle⟩ := validatePositionalCount_eq_true_iff.mp hcount
        have hlimit := hle maxPositional hmax
        omega
    · exact keepsOut_of_clearFor host binName hderived hfits (fun arg _ => hclear arg) (.inl hmax)

/-! ## grep -/

/-- The entry of `SAFE_BIN_PROFILE_FIXTURES` for grep. -/
def grepSafeBinFixture : SafeBinProfileFixture where
  minPositional := none
  maxPositional := some 0
  allowedValueFlags := some ["--regexp", "--max-count", "--after-context", "--before-context",
    "--context", "--devices", "--binary-files", "--exclude", "--include", "--label", "-e", "-m",
    "-A", "-B", "-C", "-D"]
  deniedFlags := some ["--file", "--exclude-from", "--dereference-recursive", "--directories",
    "--recursive", "-f", "-d", "-r", "-R"]

def grepProfile : SafeBinProfile := compileSafeBinProfile grepSafeBinFixture

theorem grepProfile_known_spelling :
    ∀ flag ∈ grepProfile.known, ['-', '-'] <+: flag ∧ '=' ∉ flag := by decide +kernel

/-- grep with the options of its profile, of which the short ones are also in clusters. -/
def grepGrammar : OptionGrammar where
  long := grepProfile.known
  short := "emABCDfdrRivnc".toList
  valued := grepProfile.allowed
  long_spelling := grepProfile_known_spelling

/-- grep with its option `--binary`, which takes no value. -/
def grepBinaryGrammar : OptionGrammar where
  long := "--binary".toList :: grepProfile.known
  short := "emABCDfdrRivnc".toList
  valued := grepProfile.allowed
  long_spelling := by
    intro flag hflag
    rcases List.mem_cons.mp hflag with rfl | hflag
    · exact ⟨⟨"binary".toList, rfl⟩, by decide⟩
    · exact grepProfile_known_spelling flag hflag

theorem validateSafeBinArgv_keepsOut_iff_grep :
    KeepsOut .asciiLinux (some ("grep" : Str)) grepProfile grepGrammar ["-ie", "x", "--label=y"] := by
  have hfits : FitsProfile grepGrammar grepProfile := ⟨fun _ h => h, fun _ => Iff.rfl⟩
  have hclear : ClearFor grepProfile grepGrammar ["-ie", "x", "--label=y"] := by
    intro arg harg hlong
    have hnone : ∀ arg ∈ (["-ie", "x", "--label=y"] : List Str), arg ∉ grepProfile.known := by
      decide +kernel
    exact absurd hlong (hnone arg harg)
  have hempty : ([] : Str) ∉ (["-ie", "x", "--label=y"] : List Str) := by decide
  have hderived := compileSafeBinProfile_derived grepSafeBinFixture
  exact (validateSafeBinArgv_keepsOut_iff .asciiLinux (some ("grep" : Str)) grepProfile hderived
    grepGrammar hfits).2 _ hclear (.inr hempty)

theorem resolveCanonicalLongFlag_grep_binary :
    resolveCanonicalLongFlag grepProfile ("--binary" : Str) = some ("--binary-files" : Str) := by
  have hlong : ¬ (¬ startsWith ("--binary" : Str) "--" ∨ ("--binary" : Str).length ≤ 2) := by
    decide
  have hunknown : ("--binary" : Str) ∉ grepProfile.knownSet := by decide +kernel
  have hsole : sole (grepProfile.known.filter (abbreviates "--binary")) =
      some ("--binary-files" : Str) := by decide +kernel
  have hderived : grepProfile.Derived := compileSafeBinProfile_derived grepSafeBinFixture
  rw [resolveCanonicalLongFlag, if_neg hlong, if_neg hunknown, hderived.prefixMap,
    get_buildLongFlagPrefixMap, hsole]

/-- `grep -e x --binary -r` is accepted, with `-r` for the value of `--binary-files`. -/
theorem not_keepsOut_grep_binary :
    FitsProfile grepBinaryGrammar grepProfile ∧
      ¬ KeepsOut .asciiLinux (some ("grep" : Str)) grepProfile grepBinaryGrammar
        ["-e", "x", "--binary", "-r"] := by
  refine ⟨⟨fun _ h => mem_cons_of_mem _ h, fun _ => Iff.rfl⟩, ?_⟩
  intro hkeeps
  have hderived : grepProfile.Derived := compileSafeBinProfile_derived grepSafeBinFixture
  have hoption : IsOption ("-e" : Str) := .inr ⟨_, _, parseExecArgvToken_cluster (by decide) []⟩
  have hconsume : consumeOption grepProfile (some ("x" : Str)) (parseExecArgvToken "-e") =
      some .withNext := by decide +kernel
  have hcollect : collectPositionalTokens ["-e", "x", "--binary", "-r"] grepProfile = some [] := by
    rw [collectPositionalTokens, collectLoop_cons_option hoption, head?_cons, hconsume]
    dsimp only
    exact collectLoop_valued ⟨"binary".toList, rfl⟩ (by decide) hderived
      resolveCanonicalLongFlag_grep_binary (by decide +kernel) (by decide +kernel) (by decide)
      (by decide) [] []
  have hvalid : validateSafeBinArgv .asciiLinux ["-e", "x", "--binary", "-r"] grepProfile
      (some ("grep" : Str)) = true := by
    rw [validateSafeBinArgv, hcollect]
    decide +kernel
  have hparse : grepBinaryGrammar.parse ["-e", "x", "--binary", "-r"] =
      some [.option "-e" (some "x"), .option "--binary" none, .option "-r" none] := by
    decide +kernel
  have hkept := (hkeeps hvalid _ hparse).1 (.option "-r" none) (by simp)
  have hdenied : ("-r" : Str) ∈ grepProfile.denied := by decide +kernel
  exact hkept.1 hdenied

end OpenClaw
