import Mathlib.Data.List.Infix
import Mathlib.Data.List.TakeWhile
import Mathlib.Tactic.Common

/-!
# Command lines of GNU style

A program knows long options, spelled `--name`, and short ones, spelled `-c`; some of them take a
required value. Long options may be abbreviated as long as one option is meant, short ones may
be clustered, a value may be attached or follow as the next argument, and `--` makes operands of
everything behind it. Operands may stand between the options.
-/

/-! ## Abbreviations -/

/-- The element that a list consists of, perhaps several times. -/
def sole {α : Type*} [DecidableEq α] : List α → Option α
  | [] => none
  | a :: rest => if ∀ b ∈ rest, b = a then some a else none

theorem sole_eq_some_iff {α : Type*} [DecidableEq α] {l : List α} {a : α} :
    sole l = some a ↔ a ∈ l ∧ ∀ b ∈ l, b = a := by
  cases l with
  | nil => simp [sole]
  | cons c rest =>
    by_cases hrest : ∀ b ∈ rest, b = c
    · rw [sole, if_pos hrest]
      simp only [Option.some.injEq, List.mem_cons, forall_eq_or_imp]
      constructor
      · intro hca
        exact ⟨.inl hca.symm, hca, fun b hb => (hrest b hb).trans hca⟩
      · intro h
        exact h.2.1
    · rw [sole, if_neg hrest]
      simp only [reduceCtorEq, List.mem_cons, forall_eq_or_imp, false_iff, not_and]
      intro _ hca hall
      exact hrest fun b hb => (hall b hb).trans hca.symm

/-- The option that a spelling stands for: the one of this name, or the only one whose name
begins so. -/
def resolveAbbreviation (names : List (List Char)) (spelling : List Char) : Option (List Char) :=
  if spelling ∈ names then some spelling
  else sole (names.filter fun name => spelling.isPrefixOf name)

variable {names : List (List Char)} {spelling name arg flag : List Char}

theorem resolveAbbreviation_eq_self
    (h : spelling ∈ names) : resolveAbbreviation names spelling = some spelling := if_pos h

theorem mem_of_resolveAbbreviation
    (h : resolveAbbreviation names spelling = some name) : name ∈ names := by
  unfold resolveAbbreviation at h
  split at h
  · rename_i hmem
    rwa [← Option.some.inj h]
  · exact (List.mem_filter.mp (sole_eq_some_iff.mp h).1).1

theorem isPrefix_of_resolveAbbreviation
    (h : resolveAbbreviation names spelling = some name) : spelling <+: name := by
  unfold resolveAbbreviation at h
  split at h
  · rw [Option.some.inj h]
  · have hmem := (sole_eq_some_iff.mp h).1
    exact List.isPrefixOf_iff_prefix.mp (List.mem_filter.mp hmem).2

/-- A longer table means the same option, unless it has an option of just this name. -/
theorem resolveAbbreviation_of_subset {more : List (List Char)}
    {other : List Char} (hsub : names ⊆ more)
    (hname : resolveAbbreviation names spelling = some name)
    (hother : resolveAbbreviation more spelling = some other)
    (hnew : spelling ∈ more → spelling ∈ names) : other = name := by
  by_cases hknown : spelling ∈ names
  · rw [resolveAbbreviation_eq_self hknown] at hname
    rw [resolveAbbreviation_eq_self (hsub hknown)] at hother
    exact (Option.some.inj hother).symm.trans (Option.some.inj hname)
  · have hmore : resolveAbbreviation more spelling = _ := if_neg fun h => hknown (hnew h)
    have hprefixed : spelling <+: name := isPrefix_of_resolveAbbreviation hname
    have hcandidate : name ∈ more.filter fun name => spelling.isPrefixOf name :=
      List.mem_filter.mpr
        ⟨hsub (mem_of_resolveAbbreviation hname), List.isPrefixOf_iff_prefix.mpr hprefixed⟩
    rw [hmore] at hother
    exact ((sole_eq_some_iff.mp hother).2 name hcandidate).symm

/-! ## Grammars -/

/-- The options of a program, as they are spelled in full. -/
structure OptionGrammar where
  long : List (List Char)
  short : List Char
  /-- The options, long or short, that take a value. -/
  valued : List (List Char)
  long_spelling : ∀ flag ∈ long, ['-', '-'] <+: flag ∧ '=' ∉ flag

/-- What an argument is read as. -/
inductive CommandItem where
  | option (flag : List Char) (value : Option (List Char))
  | operand (text : List Char)
deriving DecidableEq

namespace CommandItem

/-- The value of an option, or the operand. -/
def text? : CommandItem → Option (List Char)
  | .option _ value => value
  | .operand text => some text

def operand? : CommandItem → Option (List Char)
  | .option _ _ => none
  | .operand text => some text

end CommandItem

namespace OptionGrammar

/-- Some items, and the option whose value is the next argument. -/
abbrev Reading := List CommandItem × Option (List Char)

variable (grammar : OptionGrammar)

def readLong (arg : List Char) : Option Reading :=
  match resolveAbbreviation grammar.long (arg.takeWhile (· != '=')) with
  | none => none
  | some flag =>
    match arg.dropWhile (· != '=') with
    | [] => if flag ∈ grammar.valued then some ([], some flag) else some ([.option flag none], none)
    | _ :: value =>
      if flag ∈ grammar.valued then some ([.option flag (some value)], none) else none

def readCluster (grammar : OptionGrammar) : List Char → Option Reading
  | [] => some ([], none)
  | c :: rest =>
    if c ∉ grammar.short then none
    else if ['-', c] ∈ grammar.valued then
      if rest = [] then some ([], some ['-', c])
      else some ([.option ['-', c] (some rest)], none)
    else (grammar.readCluster rest).map fun reading =>
      (.option ['-', c] none :: reading.1, reading.2)

def readArg (arg : List Char) : Option Reading :=
  match arg with
  | '-' :: '-' :: _ => grammar.readLong arg
  | '-' :: c :: cluster => grammar.readCluster (c :: cluster)
  | _ => some ([.operand arg], none)

/-- The items of a command line, if the program accepts it. -/
def parse (grammar : OptionGrammar) : List (List Char) → Option (List CommandItem)
  | [] => some []
  | arg :: rest =>
    if arg = ['-', '-'] then some (rest.map .operand)
    else
      match grammar.readArg arg with
      | none => none
      | some (items, none) => (grammar.parse rest).map (items ++ ·)
      | some (items, some flag) =>
        match rest with
        | [] => none
        | value :: rest => (grammar.parse rest).map (items ++ .option flag (some value) :: ·)

theorem parse_terminator (rest : List (List Char)) :
    grammar.parse (['-', '-'] :: rest) = some (rest.map .operand) := by
  rw [parse, if_pos rfl]

variable {grammar : OptionGrammar} {items : List CommandItem} {reading : Reading}

theorem parse_cons_own (harg : arg ≠ ['-', '-']) (hread : grammar.readArg arg = some (items, none))
    (rest : List (List Char)) :
    grammar.parse (arg :: rest) = (grammar.parse rest).map (items ++ ·) := by
  rw [parse, if_neg harg, hread]

theorem parse_cons_value (harg : arg ≠ ['-', '-'])
    (hread : grammar.readArg arg = some (items, some flag)) (value : List Char)
    (rest : List (List Char)) : grammar.parse (arg :: value :: rest) =
      (grammar.parse rest).map (items ++ .option flag (some value) :: ·) := by
  rw [parse, if_neg harg, hread]

theorem parse_cons_none (harg : arg ≠ ['-', '-'])
    (hread : grammar.readArg arg = none) (rest : List (List Char)) :
    grammar.parse (arg :: rest) = none := by
  rw [parse, if_neg harg, hread]

variable (grammar)

theorem readArg_operand (h : arg.head? ≠ some '-') :
    grammar.readArg arg = some ([.operand arg], none) := by
  unfold readArg
  split
  · exact absurd rfl h
  · exact absurd rfl h
  · rfl

theorem parse_operand (h : arg.head? ≠ some '-' ∨ arg = ['-']) (rest : List (List Char)) :
    grammar.parse (arg :: rest) = (grammar.parse rest).map (.operand arg :: ·) := by
  rcases h with hhead | rfl
  · have harg : arg ≠ ['-', '-'] := by
      rintro rfl
      exact hhead rfl
    exact parse_cons_own harg (grammar.readArg_operand hhead) rest
  · have harg : ['-'] ≠ ['-', '-'] := by decide
    exact parse_cons_own harg rfl rest

/-- The operands in front of a command line are read by themselves. -/
theorem parse_operands_append {operands : List (List Char)}
    (h : ∀ arg ∈ operands, arg.head? ≠ some '-') (rest : List (List Char)) :
    grammar.parse (operands ++ rest) = (grammar.parse rest).map (operands.map .operand ++ ·) := by
  induction operands with
  | nil => simp
  | cons arg operands ih =>
    have hparse := grammar.parse_operand (.inl (h arg (List.mem_cons_self ..))) (operands ++ rest)
    rw [List.cons_append, hparse, ih fun arg harg => h arg (List.mem_cons_of_mem _ harg),
      Option.map_map]
    rfl

variable {grammar}

/-! ## Spellings in full -/

theorem readArg_long (grammar : OptionGrammar) (h : ['-', '-'] <+: arg) :
    grammar.readArg arg = grammar.readLong arg := by
  obtain ⟨rest, rfl⟩ := h
  rfl

/-- A long option by its name. -/
theorem readLong_name (grammar : OptionGrammar) (hflag : flag ∈ grammar.long) :
    grammar.readLong flag =
      if flag ∈ grammar.valued then some ([], some flag)
      else some ([.option flag none], none) := by
  have hplain : ∀ c ∈ flag, (c != '=') = true := by
    intro c hc
    have hne : c ≠ '=' := by
      rintro rfl
      exact (grammar.long_spelling flag hflag).2 hc
    simpa using hne
  rw [readLong, List.takeWhile_eq_self_iff.mpr hplain, resolveAbbreviation_eq_self hflag,
    List.dropWhile_eq_nil_iff.mpr hplain]

/-- A long option by its name, with a value attached. -/
theorem readLong_attached (grammar : OptionGrammar)
    (hflag : flag ∈ grammar.long) (hvalued : flag ∈ grammar.valued) (value : List Char) :
    grammar.readLong (flag ++ '=' :: value) = some ([.option flag (some value)], none) := by
  have hplain : ∀ c ∈ flag, (c != '=') = true := by
    intro c hc
    have hne : c ≠ '=' := by
      rintro rfl
      exact (grammar.long_spelling flag hflag).2 hc
    simpa using hne
  have htake : (flag ++ '=' :: value).takeWhile (· != '=') = flag := by
    rw [List.takeWhile_append_of_pos hplain]
    simp
  have hdrop : (flag ++ '=' :: value).dropWhile (· != '=') = '=' :: value := by
    rw [List.dropWhile_append_of_pos hplain]
    simp
  rw [readLong, htake, resolveAbbreviation_eq_self hflag, hdrop]
  dsimp only
  rw [if_pos hvalued]

/-- A read option argument holds no operand. -/
theorem operand?_of_mem_readCluster {cluster : List Char}
    (h : grammar.readCluster cluster = some reading) :
    ∀ item ∈ reading.1, item.operand? = none := by
  induction cluster generalizing reading with
  | nil =>
    rw [← Option.some.inj h]
    simp
  | cons c rest ih =>
    rw [readCluster] at h
    split_ifs at h
    · rw [← Option.some.inj h]
      simp
    · rw [← Option.some.inj h]
      simp [CommandItem.operand?]
    · obtain ⟨behind, hbehind, rfl⟩ := Option.map_eq_some_iff.mp h
      intro item hitem
      rcases List.mem_cons.mp hitem with rfl | hitem
      · rfl
      · exact ih hbehind item hitem

theorem operand?_of_mem_readLong (h : grammar.readLong arg = some reading) :
    ∀ item ∈ reading.1, item.operand? = none := by
  unfold readLong at h
  split at h
  · exact nomatch h
  · split at h
    · split_ifs at h
      · rw [← Option.some.inj h]
        simp
      · rw [← Option.some.inj h]
        simp [CommandItem.operand?]
    · split_ifs at h
      · rw [← Option.some.inj h]
        simp [CommandItem.operand?]

theorem eq_of_mem_readArg {text : List Char}
    (h : grammar.readArg arg = some reading) (hmem : .operand text ∈ reading.1) : text = arg := by
  unfold readArg at h
  split at h
  · exact absurd (operand?_of_mem_readLong h _ hmem) (by simp [CommandItem.operand?])
  · exact absurd (operand?_of_mem_readCluster h _ hmem) (by simp [CommandItem.operand?])
  · rw [← Option.some.inj h, List.mem_singleton] at hmem
    exact (CommandItem.operand.inj hmem)

/-- Every operand is one of the arguments. -/
theorem mem_of_operand_mem_parse (grammar : OptionGrammar) (n : ℕ) {args : List (List Char)}
    (hn : args.length ≤ n) (h : grammar.parse args = some items)
    {text : List Char} (hmem : .operand text ∈ items) : text ∈ args := by
  induction n generalizing args items with
  | zero =>
    rw [List.length_eq_zero_iff.mp (Nat.le_zero.mp hn)] at h
    rw [← Option.some.inj h] at hmem
    exact nomatch hmem
  | succ n ih =>
    cases args with
    | nil =>
      rw [← Option.some.inj h] at hmem
      exact nomatch hmem
    | cons arg rest =>
      have hrest : rest.length ≤ n := Nat.le_of_succ_le_succ hn
      by_cases harg : arg = ['-', '-']
      · rw [harg, parse_terminator] at h
        rw [← Option.some.inj h, List.mem_map] at hmem
        obtain ⟨operand, hoperand, heq⟩ := hmem
        rw [← CommandItem.operand.inj heq]
        exact List.mem_cons_of_mem _ hoperand
      cases hread : grammar.readArg arg with
      | none =>
        rw [parse_cons_none harg hread] at h
        exact nomatch h
      | some reading =>
        obtain ⟨own, pending⟩ := reading
        have hown : ∀ {text}, .operand text ∈ own → text ∈ arg :: rest := by
          intro text hmem
          rw [eq_of_mem_readArg hread hmem]
          exact List.mem_cons_self ..
        cases pending with
        | none =>
          rw [parse_cons_own harg hread] at h
          obtain ⟨behind, hbehind, rfl⟩ := Option.map_eq_some_iff.mp h
          rcases List.mem_append.mp hmem with hmem | hmem
          · exact hown hmem
          · exact List.mem_cons_of_mem _ (ih hrest hbehind hmem)
        | some flag =>
          cases rest with
          | nil =>
            rw [parse, if_neg harg, hread] at h
            exact nomatch h
          | cons value others =>
            rw [parse_cons_value harg hread] at h
            obtain ⟨behind, hbehind, rfl⟩ := Option.map_eq_some_iff.mp h
            rcases List.mem_append.mp hmem with hmem | hmem
            · exact hown hmem
            · have hbehind_mem : .operand text ∈ behind := by simpa using hmem
              have hothers : others.length ≤ n := by
                rw [List.length_cons] at hrest
                omega
              have htext := ih hothers hbehind hbehind_mem
              exact List.mem_cons_of_mem _ (List.mem_cons_of_mem _ htext)

end OptionGrammar
