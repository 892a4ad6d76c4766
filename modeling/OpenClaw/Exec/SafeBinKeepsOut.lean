import OpenClaw.Exec.SafeBinArgv

/-!
# What a validated safe bin is given

The validator and a program of GNU style read one argument list. They agree on it as long as the
program has no option whose full name the profile takes for an abbreviation of another one; the
operands the program gets are then those the validator counts, and the empty ones.
-/

namespace OpenClaw

open List Option

/-! ## The program -/

/-- A program that fits the profile: it has the long options the profile knows, and just the
allowed value flags take a value. -/
structure FitsProfile (grammar : OptionGrammar) (profile : SafeBinProfile) : Prop where
  known : profile.known ⊆ grammar.long
  valued : ∀ flag, flag ∈ grammar.valued ↔ flag ∈ profile.allowed

/-- Free of globs, expansions and path prefixes. -/
structure FreeText (text : Str) : Prop where
  glob : hasGlobToken text = false
  expansion : hasShellExpansionToken text = false
  path : isPathLikeToken text = false

variable (profile : SafeBinProfile)

def ItemKept : CommandItem → Prop
  | .option flag value => flag ∉ profile.denied ∧ ∀ text, value = some text → FreeText text
  | .operand text => FreeText text

def operands (items : List CommandItem) : List Str := items.filterMap CommandItem.operand?

/-- If the arguments are accepted, then what the program reads holds no denied option, only free
texts, and a number of operands within the limits. -/
def KeepsOut (host : Host) (binName : Option Str) (profile : SafeBinProfile)
    (grammar : OptionGrammar) (args : List Str) : Prop :=
  validateSafeBinArgv host args profile binName = true →
    ∀ items, grammar.parse args = some items →
      (∀ item ∈ items, ItemKept profile item) ∧
        profile.minPositional.getD 0 ≤ (operands items).countP (· ≠ ("-" : Str)) ∧
        ∀ maxPositional, profile.maxPositional = some maxPositional →
          (operands items).countP (· ≠ ("-" : Str)) ≤ maxPositional

/-- The profile resolves the spelling to another option, one that takes a value. -/
def TakenForAbbreviation (arg : Str) : Prop :=
  ∃ flag, resolveCanonicalLongFlag profile arg = some flag ∧ flag ≠ arg ∧
    flag ∈ profile.allowed ∧ flag ∉ profile.denied

/-- No argument is a long option of the program that the profile takes for an abbreviation. -/
def ClearFor (grammar : OptionGrammar) (args : List Str) : Prop :=
  ∀ arg ∈ args, arg ∈ grammar.long → ¬ TakenForAbbreviation profile arg

/-- No arguments are accepted, whatever they are. -/
def AcceptsNothing (host : Host) (binName : Option Str) (profile : SafeBinProfile) : Prop :=
  validateSafeBinSemantics host binName [] = false ∨
    ∃ maxPositional, profile.maxPositional = some maxPositional ∧
      maxPositional < profile.minPositional.getD 0

/-! ## Texts -/

theorem freeText_of_isSafeLiteralToken {text : Str} (h : isSafeLiteralToken text = true) :
    FreeText text := by
  unfold isSafeLiteralToken at h
  by_cases hplain : text = [] ∨ text = ("-" : Str)
  · rcases hplain with rfl | rfl
    · exact ⟨rfl, rfl, by decide⟩
    · exact ⟨by decide, by decide, by decide⟩
  · rw [if_neg hplain] at h
    simp only [Bool.and_eq_true, Bool.not_eq_true'] at h
    exact ⟨h.1.1, h.1.2, h.2⟩

variable {next : Option Str} {consumed : Consumed} {flag arg : Str}
  {reading : OptionGrammar.Reading}

theorem consumeNextValue_eq_some (h : consumeNextValue next = some consumed) :
    consumed = .withNext ∧ ∃ value, next = some value ∧ isSafeLiteralToken value = true := by
  unfold consumeNextValue at h
  cases next with
  | none => exact absurd h (by simp [isInvalidValueToken])
  | some value =>
    by_cases hinvalid : isInvalidValueToken (some value) = true
    · rw [if_pos hinvalid] at h
      exact nomatch h
    · rw [if_neg hinvalid] at h
      have hsafe : isSafeLiteralToken value = true := by
        simp only [isInvalidValueToken, Bool.or_eq_true, Bool.not_eq_true', not_or,
          Bool.not_eq_false] at hinvalid
        exact hinvalid.2
      exact ⟨(some.inj h).symm, value, rfl, hsafe⟩

/-! ## Long options -/

variable {profile : SafeBinProfile} {grammar : OptionGrammar}

theorem mem_known_iff (hderived : profile.Derived) :
    flag ∈ profile.known ↔
      startsWith flag "--" = true ∧ (flag ∈ profile.allowed ∨ flag ∈ profile.denied) := by
  rw [hderived.known]
  exact mem_collectKnownLongFlags

/-- The validator resolves a spelling as a program does whose long options are the known ones. -/
theorem resolveCanonicalLongFlag_eq_some (hderived : profile.Derived) {spelling : Str}
    (h : resolveCanonicalLongFlag profile spelling = some flag) :
    startsWith spelling "--" = true ∧ 2 < spelling.length ∧
      resolveAbbreviation profile.known spelling = some flag := by
  unfold resolveCanonicalLongFlag at h
  by_cases hskip : ¬ startsWith spelling "--" ∨ spelling.length ≤ 2
  · rw [if_pos hskip] at h
    exact nomatch h
  · have hlong : startsWith spelling "--" = true := by
      by_contra hlong
      exact hskip (.inl hlong)
    have hlength : 2 < spelling.length := by
      by_contra hlength
      exact hskip (.inr (by omega))
    refine ⟨hlong, hlength, ?_⟩
    rw [if_neg hskip, hderived.knownSet] at h
    by_cases hknown : spelling ∈ profile.known
    · rw [if_pos (mem_flagSet.mpr hknown)] at h
      rw [resolveAbbreviation_eq_self hknown]
      exact h
    · rw [if_neg fun hmem => hknown (mem_flagSet.mp hmem), hderived.prefixMap,
        get_buildLongFlagPrefixMap] at h
      rw [resolveAbbreviation, if_neg hknown]
      have hfilter : profile.known.filter (abbreviates spelling) =
          profile.known.filter fun name => spelling.isPrefixOf name := by
        apply filter_congr
        intro name hname
        have hdashes := ((mem_known_iff hderived).mp hname).1
        have hthree : 3 ≤ spelling.length := by omega
        rw [abbreviates, hdashes]
        simp [hthree]
      rwa [← hfilter]

/-- The parts of a successful long option. -/
theorem consumeLongOptionToken_eq_some {inlineValue : Option Str} {spelling : Str}
    (hderived : profile.Derived)
    (h : consumeLongOptionToken profile next spelling inlineValue = some consumed) :
    ∃ flag, resolveCanonicalLongFlag profile spelling = some flag ∧ flag ∈ profile.known ∧
      flag ∈ profile.allowed ∧ flag ∉ profile.denied ∧
      (∀ value, inlineValue = some value → consumed = .own ∧ isSafeLiteralToken value = true) ∧
      (inlineValue = none → consumeNextValue next = some consumed) := by
  unfold consumeLongOptionToken at h
  cases hflag : resolveCanonicalLongFlag profile spelling with
  | none =>
    rw [hflag] at h
    exact nomatch h
  | some flag =>
    rw [hflag] at h
    dsimp only at h
    have hknown : flag ∈ profile.known :=
      mem_of_resolveAbbreviation (resolveCanonicalLongFlag_eq_some hderived hflag).2.2
    by_cases hempty : flag = []
    · rw [if_pos hempty] at h
      exact nomatch h
    rw [if_neg hempty] at h
    by_cases hdenied : flag ∈ profile.denied
    · rw [if_pos hdenied] at h
      exact nomatch h
    rw [if_neg hdenied] at h
    have hallowed : flag ∈ profile.allowed :=
      ((mem_known_iff hderived).mp hknown).2.resolve_right hdenied
    refine ⟨flag, rfl, hknown, hallowed, hdenied, ?_, ?_⟩
    · rintro value rfl
      dsimp only at h
      rw [if_neg (not_not.mpr hallowed)] at h
      by_cases hsafe : isSafeLiteralToken value = true
      · rw [if_pos hsafe] at h
        exact ⟨(some.inj h).symm, hsafe⟩
      · rw [if_neg hsafe] at h
        exact nomatch h
    · rintro rfl
      dsimp only at h
      rwa [if_neg (not_not.mpr hallowed)] at h

/-! ## One option argument -/

/-- The validator and the program read an option argument alike, up to the option that takes the
next argument. -/
def AgreesWith (profile : SafeBinProfile) (next : Option Str) :
    Consumed → OptionGrammar.Reading → Prop
  | .own, (items, none) => (∀ item ∈ items, ItemKept profile item) ∧ operands items = []
  | .withNext, (items, some flag) =>
    (∀ item ∈ items, ItemKept profile item) ∧ operands items = [] ∧ flag ∉ profile.denied ∧
      ∃ value, next = some value ∧ isSafeLiteralToken value = true
  | _, _ => False

theorem agreesWith_value
    (hdenied : flag ∉ profile.denied) (h : consumeNextValue next = some consumed) :
    AgreesWith profile next consumed ([], some flag) := by
  obtain ⟨rfl, hvalue⟩ := consumeNextValue_eq_some h
  exact ⟨by simp, rfl, hdenied, hvalue⟩

theorem agreesWith_attached {value : Str}
    (hdenied : flag ∉ profile.denied) (hsafe : isSafeLiteralToken value = true) :
    AgreesWith profile next .own ([.option flag (some value)], none) := by
  refine ⟨?_, rfl⟩
  intro item hitem
  rw [mem_singleton] at hitem
  rw [hitem]
  refine ⟨hdenied, ?_⟩
  intro text htext
  rw [← some.inj htext]
  exact freeText_of_isSafeLiteralToken hsafe

theorem AgreesWith.cons {next : Option Str} {flag : Str} {consumed : Consumed}
    {reading : OptionGrammar.Reading} (hdenied : flag ∉ profile.denied)
    (h : AgreesWith profile next consumed reading) :
    AgreesWith profile next consumed (.option flag none :: reading.1, reading.2) := by
  have hcons : ∀ {items : List CommandItem}, (∀ item ∈ items, ItemKept profile item) →
      ∀ item ∈ CommandItem.option flag none :: items, ItemKept profile item := by
    intro items hitems item hitem
    rcases mem_cons.mp hitem with rfl | hitem
    · exact ⟨hdenied, fun text htext => nomatch htext⟩
    · exact hitems item hitem
  obtain ⟨items, pending⟩ := reading
  cases consumed with
  | own =>
    cases pending with
    | none => exact ⟨hcons h.1, h.2⟩
    | some _ => exact h
  | withNext =>
    cases pending with
    | none => exact h
    | some _ => exact ⟨hcons h.1, h.2⟩

/-- A cluster: the flags in front of the one with a value are neither denied nor valued. -/
theorem agreesWith_cluster (hfits : FitsProfile grammar profile) {cluster : Str}
    (hconsume : consumeShortOptionClusterToken profile next cluster
      (cluster.map fun c => ['-', c]) = some consumed)
    (hread : grammar.readCluster cluster = some reading) :
    AgreesWith profile next consumed reading := by
  induction cluster generalizing reading with
  | nil => exact absurd hconsume (by simp [consumeShortOptionClusterToken])
  | cons c rest ih =>
    rw [map_cons, consumeShortOptionClusterToken] at hconsume
    rw [OptionGrammar.readCluster] at hread
    by_cases hshort : c ∉ grammar.short
    · rw [if_pos hshort] at hread
      cases hread
    rw [if_neg hshort] at hread
    by_cases hdenied : ['-', c] ∈ profile.denied
    · rw [if_pos hdenied] at hconsume
      cases hconsume
    rw [if_neg hdenied] at hconsume
    by_cases hallowed : ['-', c] ∈ profile.allowed
    · rw [if_neg (not_not.mpr hallowed)] at hconsume
      rw [if_pos ((hfits.valued _).mpr hallowed)] at hread
      by_cases hrest : rest = []
      · rw [if_neg (not_not.mpr hrest)] at hconsume
        rw [if_pos hrest] at hread
        rw [← some.inj hread]
        exact agreesWith_value hdenied hconsume
      · rw [if_pos hrest] at hconsume
        rw [if_neg hrest] at hread
        by_cases hsafe : isSafeLiteralToken rest = true
        · rw [if_pos hsafe] at hconsume
          rw [← some.inj hread, ← some.inj hconsume]
          exact agreesWith_attached hdenied hsafe
        · rw [if_neg hsafe] at hconsume
          cases hconsume
    · rw [if_pos hallowed] at hconsume
      rw [if_neg fun h => hallowed ((hfits.valued _).mp h)] at hread
      obtain ⟨behind, hbehind, hreading⟩ := Option.map_eq_some_iff.mp hread
      rw [← hreading]
      exact (ih hconsume hbehind).cons hdenied

/-- A long option: where the validator resolves the spelling, the program means the same option,
unless the spelling is an option of its own. -/
theorem agreesWith_long (hderived : profile.Derived) (hfits : FitsProfile grammar profile)
    (hclear : arg ∈ grammar.long → ¬ TakenForAbbreviation profile arg)
    (hconsume : consumeLongOptionToken profile next (beforeChar '=' arg) (afterChar? '=' arg) =
      some consumed)
    (hread : grammar.readLong arg = some reading) : AgreesWith profile next consumed reading := by
  obtain ⟨flag, hresolve, hknown, hallowed, hdenied, hinline, hnext⟩ :=
    consumeLongOptionToken_eq_some hderived hconsume
  obtain ⟨hlong, -, hname⟩ := resolveCanonicalLongFlag_eq_some hderived hresolve
  unfold OptionGrammar.readLong at hread
  cases hother : resolveAbbreviation grammar.long (arg.takeWhile (· != '=')) with
  | none =>
    rw [hother] at hread
    exact nomatch hread
  | some other =>
    rw [hother] at hread
    dsimp only at hread
    have hsame : (beforeChar '=' arg ∈ grammar.long → beforeChar '=' arg ∈ profile.known) →
        other = flag := resolveAbbreviation_of_subset hfits.known hname hother
    cases hvalue : arg.dropWhile (· != '=') with
    | nil =>
      have hwhole : beforeChar '=' arg = arg := by
        have hsplit := takeWhile_append_dropWhile (p := (· != '=')) (l := arg)
        rw [hvalue, append_nil] at hsplit
        exact hsplit
      have hafter : afterChar? '=' arg = none := by
        unfold afterChar?
        rw [hvalue]
      rw [hwhole] at hsame hresolve
      have heq : other = flag := by
        apply hsame
        intro hmem
        by_contra hunknown
        refine hclear hmem ⟨flag, hresolve, ?_, hallowed, hdenied⟩
        rintro rfl
        exact hunknown hknown
      rw [hvalue, heq] at hread
      dsimp only at hread
      rw [if_pos ((hfits.valued _).mpr hallowed)] at hread
      rw [← some.inj hread]
      exact agreesWith_value hdenied (hnext hafter)
    | cons equals value =>
      have hafter : afterChar? '=' arg = some value := by
        unfold afterChar?
        rw [hvalue]
      rw [hvalue] at hread
      dsimp only at hread
      by_cases hvalued : other ∈ grammar.valued
      · rw [if_pos hvalued] at hread
        have heq : other = flag := by
          apply hsame
          intro hmem
          -- an option of just this name takes a value, so the profile knows it
          have hself : other = beforeChar '=' arg :=
            (some.inj ((resolveAbbreviation_eq_self hmem).symm.trans hother)).symm
          rw [hself] at hvalued
          exact (mem_known_iff hderived).mpr ⟨hlong, .inl ((hfits.valued _).mp hvalued)⟩
        obtain ⟨rfl, hsafe⟩ := hinline value hafter
        rw [← some.inj hread, heq]
        exact agreesWith_attached hdenied hsafe
      · rw [if_neg hvalued] at hread
        exact nomatch hread

/-! ## The whole list -/

/-- The option that an argument starts, as the validator takes it. -/
def consumeOption (profile : SafeBinProfile) (next : Option Str) : ExecArgvToken → Option Consumed
  | .longOption _ flag inlineValue => consumeLongOptionToken profile next flag inlineValue
  | .shortCluster _ cluster flags => consumeShortOptionClusterToken profile next cluster flags
  | _ => none

/-- What an argument list begins with. -/
inductive ArgKind : Str → Prop where
  | empty : ArgKind []
  | stdin : ArgKind ['-']
  | terminator : ArgKind ['-', '-']
  | operand {c : Char} {text : Str} (hc : c ≠ '-') : ArgKind (c :: text)
  | long {c : Char} {text : Str} : ArgKind ('-' :: '-' :: c :: text)
  | cluster {c : Char} {text : Str} (hc : c ≠ '-') : ArgKind ('-' :: c :: text)

theorem argKind (arg : Str) : ArgKind arg := by
  rcases arg with _ | ⟨c, _ | ⟨d, text⟩⟩
  · exact .empty
  · by_cases hc : c = '-'
    · rw [hc]
      exact .stdin
    · exact .operand hc
  · by_cases hc : c = '-'
    · rw [hc]
      by_cases hd : d = '-'
      · rw [hd]
        cases text with
        | nil => exact .terminator
        | cons e text => exact .long
      · exact .cluster hd
    · exact .operand hc

theorem parseExecArgvToken_operand {c : Char} (hc : c ≠ '-') (text : Str) :
    parseExecArgvToken (c :: text) = .positional (c :: text) := by
  have hdash : ¬ '-' = c := fun h => hc h.symm
  simp [parseExecArgvToken, startsWith, hc, hdash]

theorem parseExecArgvToken_long (c : Char) (text : Str) :
    parseExecArgvToken ('-' :: '-' :: c :: text) =
      .longOption ('-' :: '-' :: c :: text) (beforeChar '=' ('-' :: '-' :: c :: text))
        (afterChar? '=' ('-' :: '-' :: c :: text)) := by
  generalize harg : '-' :: '-' :: c :: text = arg
  have hempty : arg ≠ [] := by simp [← harg]
  have hterminator : arg ≠ ("--" : Str) := by simp [← harg]
  have hstdin : arg ≠ ("-" : Str) := by simp [← harg]
  have hdash : startsWith arg "-" = true := by simp [← harg, startsWith]
  have hdashes : startsWith arg "--" = true := by simp [← harg, startsWith]
  rw [parseExecArgvToken, if_neg hempty, if_neg hterminator, if_neg hstdin,
    if_neg (not_not.mpr hdash), if_pos hdashes]
  cases hafter : afterChar? '=' arg with
  | some value => rfl
  | none =>
    have hrest : arg.dropWhile (· != '=') = [] := by
      unfold afterChar? at hafter
      split at hafter
      · assumption
      · exact nomatch hafter
    have hwhole : beforeChar '=' arg = arg := by
      have hsplit := takeWhile_append_dropWhile (p := (· != '=')) (l := arg)
      rw [hrest, append_nil] at hsplit
      exact hsplit
    rw [hwhole]

theorem parseExecArgvToken_cluster {c : Char} (hc : c ≠ '-') (text : Str) :
    parseExecArgvToken ('-' :: c :: text) =
      .shortCluster ('-' :: c :: text) (c :: text) ((c :: text).map fun c => ['-', c]) := by
  have hdash : ¬ '-' = c := fun h => hc h.symm
  simp [parseExecArgvToken, startsWith, hc, hdash]

/-- An option takes the next argument only if there is one. -/
theorem consumeOption_none_ne_withNext (hderived : profile.Derived) (token : ExecArgvToken) :
    consumeOption profile none token ≠ some .withNext := by
  have hvalue : ∀ consumed, consumeNextValue none ≠ some consumed := by
    intro consumed h
    obtain ⟨-, value, hnext, -⟩ := consumeNextValue_eq_some h
    exact nomatch hnext
  intro h
  cases token with
  | longOption raw flag inlineValue =>
    obtain ⟨-, -, -, -, -, hinline, hnext⟩ := consumeLongOptionToken_eq_some hderived h
    cases inlineValue with
    | none => exact hvalue _ (hnext rfl)
    | some value => exact absurd (hinline value rfl).1 (by simp)
  | shortCluster raw cluster flags =>
    change consumeShortOptionClusterToken profile none cluster flags = _ at h
    induction flags generalizing cluster with
    | nil => exact absurd h (by simp [consumeShortOptionClusterToken])
    | cons flag flags ih =>
      cases cluster with
      | nil => exact absurd h (by simp [consumeShortOptionClusterToken])
      | cons c rest =>
        rw [consumeShortOptionClusterToken] at h
        split_ifs at h
        · exact nomatch h
        · exact hvalue _ h
        · exact ih _ h
  | empty | terminator | stdin | positional => exact absurd h (by simp [consumeOption])

/-- An argument that starts an option. -/
def IsOption (arg : Str) : Prop :=
  (∃ flag inlineValue, parseExecArgvToken arg = .longOption arg flag inlineValue) ∨
    ∃ cluster flags, parseExecArgvToken arg = .shortCluster arg cluster flags

theorem collectLoop_cons_option (harg : IsOption arg) (rest positional : List Str) :
    collectLoop profile (arg :: rest) positional =
      match consumeOption profile rest.head? (parseExecArgvToken arg), rest with
      | none, _ => none
      | some .own, rest => collectLoop profile rest positional
      | some .withNext, _ :: rest => collectLoop profile rest positional
      | some .withNext, [] => some positional := by
  rw [collectLoop]
  rcases harg with ⟨flag, inlineValue, htoken⟩ | ⟨cluster, flags, htoken⟩
  · rw [htoken]
    rfl
  · rw [htoken]
    rfl

/-- Behind an option, the validator goes on with the arguments the option leaves. -/
theorem collectLoop_option (hderived : profile.Derived) {rest positional : List Str}
    {result : List Str} (harg : IsOption arg)
    (h : collectLoop profile (arg :: rest) positional = some result) :
    (consumeOption profile rest.head? (parseExecArgvToken arg) = some .own ∧
        collectLoop profile rest positional = some result) ∨
      ∃ value others, rest = value :: others ∧
        consumeOption profile rest.head? (parseExecArgvToken arg) = some .withNext ∧
        collectLoop profile others positional = some result := by
  rw [collectLoop_cons_option harg] at h
  cases hconsume : consumeOption profile rest.head? (parseExecArgvToken arg) with
  | none =>
    rw [hconsume] at h
    exact nomatch h
  | some consumed =>
    rw [hconsume] at h
    cases consumed with
    | own => exact .inl ⟨rfl, h⟩
    | withNext =>
      cases rest with
      | nil => exact absurd hconsume (consumeOption_none_ne_withNext hderived _)
      | cons value others => exact .inr ⟨value, others, rfl, rfl, h⟩

/-- On one option argument the validator and the program agree. -/
theorem agreesWith_option (hderived : profile.Derived) (hfits : FitsProfile grammar profile)
    (hclear : arg ∈ grammar.long → ¬ TakenForAbbreviation profile arg)
    (hconsume : consumeOption profile next (parseExecArgvToken arg) = some consumed)
    (hread : grammar.readArg arg = some reading) : AgreesWith profile next consumed reading := by
  cases argKind arg with
  | empty | stdin | terminator => exact absurd hconsume (by simp [parseExecArgvToken, consumeOption])
  | operand hc =>
    rw [parseExecArgvToken_operand hc] at hconsume
    exact absurd hconsume (by simp [consumeOption])
  | long =>
    rw [parseExecArgvToken_long] at hconsume
    exact agreesWith_long hderived hfits hclear hconsume hread
  | cluster hc =>
    rw [parseExecArgvToken_cluster hc] at hconsume
    refine agreesWith_cluster hfits hconsume ?_
    rw [← hread]
    unfold OptionGrammar.readArg
    split
    · rename_i heq
      simp only [List.cons.injEq, true_and] at heq
      exact absurd heq.1 hc
    · rename_i heq
      rw [(List.cons.inj heq).2]
    · rename_i hcluster
      exact absurd rfl (hcluster _ _)

end OpenClaw
