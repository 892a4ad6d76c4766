import OpenClaw.Lib.Keyed
import OpenClaw.Lib.OptionGrammar
import OpenClaw.Text.Basic

/-!
# Safe-bin profiles

`exec-safe-bin-policy-profiles.ts`: a profile names the options of a safe bin that take a value
and those that are denied. Its long options go into a table of abbreviations, where a spelling
that several of them begin with stands for none.
-/

namespace OpenClaw

open List

/-- A `Map` from spellings to an option or `null`. -/
abbrev LongFlagPrefixMap := Keyed (Str × Option Str) Prod.fst

structure SafeBinProfile where
  minPositional : Option ℕ
  maxPositional : Option ℕ
  allowedValueFlags : Option (List Str)
  deniedFlags : Option (List Str)
  knownLongFlags : Option (List Str)
  knownLongFlagsSet : Option (List Str)
  longFlagPrefixMap : Option LongFlagPrefixMap

structure SafeBinProfileFixture where
  minPositional : Option ℕ
  maxPositional : Option ℕ
  allowedValueFlags : Option (List Str)
  deniedFlags : Option (List Str)

variable (flags : List Str) (flag : Str)

/-- `set.add(flag)`. -/
def addFlag : List Str :=
  if flag ∈ flags then flags else flags ++ [flag]

/-- `new Set(flags)`. -/
def flagSet : List Str := flags.foldl addFlag []

def toFlagSet (flags : Option (List Str)) : List Str :=
  match flags with
  | none => []
  | some flags => if flags = [] then [] else flagSet flags

def collectKnownLongFlags (allowedValueFlags deniedFlags : List Str) : List Str :=
  let addLong (known : List Str) (flag : Str) : List Str :=
    if startsWith flag "--" then addFlag known flag else known
  deniedFlags.foldl addLong (allowedValueFlags.foldl addLong [])

/-- The body of the inner loop of `buildLongFlagPrefixMap`. -/
def addLongFlagPrefix (prefixMap : LongFlagPrefixMap) (length : ℕ) : LongFlagPrefixMap :=
  let spelling := flag.take length
  match prefixMap.find spelling with
  | none => prefixMap.set (spelling, some flag)
  | some (_, existing) =>
    if existing ≠ some flag then prefixMap.set (spelling, none) else prefixMap

def addLongFlagPrefixes (prefixMap : LongFlagPrefixMap) (flag : Str) : LongFlagPrefixMap :=
  if ¬ startsWith flag "--" ∨ flag.length ≤ 2 then prefixMap
  else (List.range' 3 (flag.length - 2)).foldl (addLongFlagPrefix flag) prefixMap

variable (knownLongFlags : List Str)

def buildLongFlagPrefixMap : LongFlagPrefixMap :=
  knownLongFlags.foldl addLongFlagPrefixes .empty

variable (fixture : SafeBinProfileFixture)

def compileSafeBinProfile : SafeBinProfile :=
  let allowedValueFlags := toFlagSet fixture.allowedValueFlags
  let deniedFlags := toFlagSet fixture.deniedFlags
  let knownLongFlags := collectKnownLongFlags allowedValueFlags deniedFlags
  { minPositional := fixture.minPositional
    maxPositional := fixture.maxPositional
    allowedValueFlags := some allowedValueFlags
    deniedFlags := some deniedFlags
    knownLongFlags := some knownLongFlags
    knownLongFlagsSet := some (flagSet knownLongFlags)
    longFlagPrefixMap := some (buildLongFlagPrefixMap knownLongFlags) }

namespace SafeBinProfile

/-! ## What the validator reads of a profile -/

variable (profile : SafeBinProfile)

def allowed : List Str := profile.allowedValueFlags.getD []

def denied : List Str := profile.deniedFlags.getD []

def known : List Str :=
  profile.knownLongFlags.getD (collectKnownLongFlags profile.allowed profile.denied)

def knownSet : List Str :=
  profile.knownLongFlagsSet.getD (flagSet profile.known)

def prefixMap : LongFlagPrefixMap :=
  profile.longFlagPrefixMap.getD (buildLongFlagPrefixMap profile.known)

/-- The precomputed fields are left out, or hold what the validator computes without them. -/
structure Derived (profile : SafeBinProfile) : Prop where
  known : profile.known = collectKnownLongFlags profile.allowed profile.denied
  knownSet : profile.knownSet = flagSet profile.known
  prefixMap : profile.prefixMap = buildLongFlagPrefixMap profile.known

end SafeBinProfile

theorem compileSafeBinProfile_derived : (compileSafeBinProfile fixture).Derived := ⟨rfl, rfl, rfl⟩

/-! ## The sets -/

theorem mem_addFlag {flags : List Str} {flag other : Str} :
    other ∈ addFlag flags flag ↔ other ∈ flags ∨ other = flag := by
  unfold addFlag
  by_cases hmem : flag ∈ flags
  · rw [if_pos hmem]
    constructor
    · exact .inl
    · rintro (h | rfl)
      · exact h
      · exact hmem
  · rw [if_neg hmem, mem_append, mem_singleton]

theorem mem_foldl_addFlag {flags added : List Str} {flag : Str} :
    flag ∈ added.foldl addFlag flags ↔ flag ∈ flags ∨ flag ∈ added := by
  induction added generalizing flags with
  | nil => simp
  | cons first added ih => rw [foldl_cons, ih, mem_addFlag, mem_cons, or_assoc]

@[simp]
theorem mem_flagSet {flags : List Str} {flag : Str} : flag ∈ flagSet flags ↔ flag ∈ flags := by
  unfold flagSet
  rw [mem_foldl_addFlag]
  simp

theorem foldl_addLong (known flags : List Str) :
    flags.foldl (fun known flag => if startsWith flag "--" then addFlag known flag else known) known =
      (flags.filter (startsWith · "--")).foldl addFlag known := by
  rw [foldl_filter]

/-- The known long options are the long ones among the allowed and the denied. -/
theorem mem_collectKnownLongFlags {allowedValueFlags deniedFlags : List Str} {flag : Str} :
    flag ∈ collectKnownLongFlags allowedValueFlags deniedFlags ↔
      startsWith flag "--" = true ∧ (flag ∈ allowedValueFlags ∨ flag ∈ deniedFlags) := by
  unfold collectKnownLongFlags
  dsimp only
  rw [foldl_addLong, foldl_addLong, mem_foldl_addFlag, mem_foldl_addFlag, mem_filter, mem_filter]
  simp only [not_mem_nil, false_or]
  constructor
  · rintro (h | h)
    · exact ⟨h.2, .inl h.1⟩
    · exact ⟨h.2, .inr h.1⟩
  · rintro ⟨hlong, h | h⟩
    · exact .inl ⟨h, hlong⟩
    · exact .inr ⟨h, hlong⟩

/-! ## The table of abbreviations -/

/-- `prefixMap.get(spelling)`. -/
def LongFlagPrefixMap.get (prefixMap : LongFlagPrefixMap) (spelling : Str) : Option (Option Str) :=
  (prefixMap.find spelling).map Prod.snd

/-- An entry of the table after one more option that begins with its spelling. -/
def markFlag : Option (Option Str) → Str → Option (Option Str)
  | none, flag => some (some flag)
  | some existing, flag => if existing ≠ some flag then some none else some existing

theorem markFlag_markFlag (entry : Option (Option Str)) (flag : Str) :
    markFlag (markFlag entry flag) flag = markFlag entry flag := by
  cases entry with
  | none => simp [markFlag]
  | some existing =>
    by_cases hsame : existing = some flag
    · simp [markFlag, hsame]
    · simp [markFlag, hsame]

theorem get_addLongFlagPrefix (prefixMap : LongFlagPrefixMap) (length : ℕ)
    (spelling : Str) : (addLongFlagPrefix flag prefixMap length).get spelling =
      if spelling = flag.take length then markFlag (prefixMap.get spelling) flag
      else prefixMap.get spelling := by
  unfold addLongFlagPrefix LongFlagPrefixMap.get
  dsimp only
  cases hfind : prefixMap.find (flag.take length) with
  | none =>
    rw [Keyed.find_set]
    by_cases hspelling : spelling = flag.take length
    · rw [if_pos hspelling, if_pos hspelling, hspelling, hfind]
      rfl
    · rw [if_neg hspelling, if_neg hspelling]
  | some entry =>
    obtain ⟨key, existing⟩ := entry
    dsimp only
    by_cases hexisting : existing = some flag
    · rw [if_neg (not_not.mpr hexisting)]
      by_cases hspelling : spelling = flag.take length
      · rw [if_pos hspelling, hspelling, hfind]
        simp [markFlag, hexisting]
      · rw [if_neg hspelling]
    · rw [if_pos hexisting, Keyed.find_set]
      by_cases hspelling : spelling = flag.take length
      · rw [if_pos hspelling, if_pos hspelling, hspelling, hfind]
        simp [markFlag, hexisting]
      · rw [if_neg hspelling, if_neg hspelling]

/-- The inner loop marks the prefixes of the option, at the lengths it goes through. -/
theorem get_foldl_addLongFlagPrefix (prefixMap : LongFlagPrefixMap)
    (lengths : List ℕ) (hlengths : ∀ n ∈ lengths, n ≤ flag.length) (spelling : Str) :
    (lengths.foldl (addLongFlagPrefix flag) prefixMap).get spelling =
      if spelling.length ∈ lengths ∧ spelling <+: flag then markFlag (prefixMap.get spelling) flag
      else prefixMap.get spelling := by
  induction lengths generalizing prefixMap with
  | nil => simp
  | cons n lengths ih =>
    rw [foldl_cons, ih _ fun m hm => hlengths m (mem_cons_of_mem _ hm), get_addLongFlagPrefix]
    have hn : n ≤ flag.length := hlengths n (mem_cons_self ..)
    have htake : spelling = flag.take n ↔ spelling.length = n ∧ spelling <+: flag := by
      rw [prefix_iff_eq_take]
      constructor
      · intro h
        have hlength : spelling.length = n := by
          rw [h, length_take]
          omega
        rw [hlength]
        exact ⟨rfl, h⟩
      · rintro ⟨rfl, h⟩
        exact h
    by_cases hprefixed : spelling <+: flag
    · by_cases hhere : spelling.length = n
      · rw [if_pos (htake.mpr ⟨hhere, hprefixed⟩), markFlag_markFlag, ite_self,
          if_pos ⟨mem_cons.mpr (.inl hhere), hprefixed⟩]
      · rw [if_neg fun h => hhere (htake.mp h).1]
        simp [hhere, hprefixed]
    · rw [if_neg fun h => hprefixed (htake.mp h).2, if_neg fun h => hprefixed h.2,
        if_neg fun h => hprefixed h.2]

/-- The options that a spelling abbreviates in the table. -/
def abbreviates (spelling flag : Str) : Bool :=
  startsWith flag "--" && 3 ≤ spelling.length && spelling.isPrefixOf flag

theorem get_addLongFlagPrefixes (prefixMap : LongFlagPrefixMap) (flag spelling : Str) :
    (addLongFlagPrefixes prefixMap flag).get spelling =
      if abbreviates spelling flag then markFlag (prefixMap.get spelling) flag
      else prefixMap.get spelling := by
  unfold addLongFlagPrefixes
  by_cases hskip : ¬ startsWith flag "--" ∨ flag.length ≤ 2
  · rw [if_pos hskip, if_neg]
    simp only [abbreviates, Bool.and_eq_true, decide_eq_true_eq, isPrefixOf_iff_prefix]
    rintro ⟨⟨hlong, hspelling⟩, hprefixed⟩
    have hle : spelling.length ≤ flag.length := hprefixed.length_le
    rcases hskip with hshort | hshort
    · exact hshort hlong
    · omega
  · have hlong : startsWith flag "--" = true := by
      by_contra h
      exact hskip (.inl h)
    have hlength : ¬ flag.length ≤ 2 := fun h => hskip (.inr h)
    have hrange : ∀ n ∈ List.range' 3 (flag.length - 2), n ≤ flag.length := by
      intro n hn
      have hbound := List.mem_range'_1.mp hn
      omega
    rw [if_neg hskip, get_foldl_addLongFlagPrefix flag prefixMap _ hrange]
    congr 1
    simp only [abbreviates, hlong, Bool.true_and, Bool.and_eq_true, decide_eq_true_eq,
      isPrefixOf_iff_prefix, List.mem_range'_1, eq_iff_iff]
    constructor
    · rintro ⟨hbound, hprefixed⟩
      exact ⟨hbound.1, hprefixed⟩
    · rintro ⟨hspelling, hprefixed⟩
      have hle : spelling.length ≤ flag.length := hprefixed.length_le
      exact ⟨⟨hspelling, by omega⟩, hprefixed⟩

theorem foldl_markFlag_none : flags.foldl markFlag (some none) = some none := by
  induction flags with
  | nil => rfl
  | cons flag flags ih =>
    rw [foldl_cons]
    exact ih

theorem foldl_markFlag_some (flags : List Str) : flags.foldl markFlag (some (some flag)) =
      if ∀ other ∈ flags, other = flag then some (some flag) else some none := by
  induction flags with
  | nil => simp
  | cons first flags ih =>
    rw [foldl_cons]
    by_cases hsame : first = flag
    · have hmark : markFlag (some (some flag)) first = some (some flag) := by
        simp [markFlag, hsame]
      rw [hmark, ih]
      simp [hsame]
    · have hmark : markFlag (some (some flag)) first = some none := by
        have hne : ¬ flag = first := fun h => hsame h.symm
        simp [markFlag, hne]
      rw [hmark, foldl_markFlag_none]
      simp [hsame]

/-- Marking every option of a list leaves the one option that it consists of. -/
theorem foldl_markFlag : (flags.foldl markFlag none).join = sole flags := by
  cases flags with
  | nil => rfl
  | cons flag flags =>
    rw [foldl_cons, sole]
    show (flags.foldl markFlag (some (some flag))).join = _
    rw [foldl_markFlag_some]
    by_cases hall : ∀ other ∈ flags, other = flag
    · rw [if_pos hall, if_pos hall]
      rfl
    · rw [if_neg hall, if_neg hall]
      rfl

theorem get_foldl_addLongFlagPrefixes (prefixMap : LongFlagPrefixMap)
    (spelling : Str) : (flags.foldl addLongFlagPrefixes prefixMap).get spelling =
      (flags.filter (abbreviates spelling)).foldl markFlag (prefixMap.get spelling) := by
  induction flags generalizing prefixMap with
  | nil => rfl
  | cons flag flags ih =>
    rw [foldl_cons, ih, get_addLongFlagPrefixes]
    by_cases habbreviates : abbreviates spelling flag = true
    · rw [if_pos habbreviates, filter_cons_of_pos habbreviates, foldl_cons]
    · rw [if_neg habbreviates, filter_cons_of_neg habbreviates]

/-- A spelling in the table stands for the only known option that begins with it. -/
theorem get_buildLongFlagPrefixMap (spelling : Str) :
    ((buildLongFlagPrefixMap knownLongFlags).get spelling).join =
      sole (knownLongFlags.filter (abbreviates spelling)) := by
  unfold buildLongFlagPrefixMap
  rw [get_foldl_addLongFlagPrefixes]
  exact foldl_markFlag _

end OpenClaw
