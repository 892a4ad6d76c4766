import OpenClaw.Exec.SystemRunCommand
import OpenClaw.ExecApprovals.Entries

/-!
# The text of a command names one argument vector

An argument with a quote or white space stands in quotes, its own quotes behind backslashes,
but a backslash is never escaped. A quote after a backslash can therefore be read in two ways:
as an escaped one, or as the closing quote of an argument that ends in a backslash. Two
readings that part there never meet again. From then on one of them is inside quotes exactly
where the other is outside: outside, a quote stands only after a space, where it opens an
argument, and inside, a quote after a space closes one. So at most one of them is outside
quotes where the text ends.
-/

namespace OpenClaw

open List Option

/-! ## The shape of the text -/

/-- An argument between quotes. -/
def escapeQuotes (arg : Str) : Str := arg.flatMap fun c => if c = '"' then ['\\', '"'] else [c]

/-- The arguments that are written between quotes. -/
def needsQuotes (arg : Str) : Prop := arg = [] ∨ ∃ c ∈ arg, isSpace c = true ∨ c = '"'

variable {arg arg' : Str} {c : Char} {rest rest' argv : List Str}

theorem formatShellWrapperArg_of_needsQuotes (h : needsQuotes arg) :
    formatShellWrapperArg arg = '"' :: (escapeQuotes arg ++ ['"']) := by
  unfold formatShellWrapperArg
  by_cases hnil : arg = []
  · rw [if_pos hnil, hnil]
    rfl
  · have hany : (arg.any fun c => isSpace c || c == '"') = true := by
      have hmem : ∃ c ∈ arg, isSpace c = true ∨ c = '"' := h.resolve_left hnil
      simpa using hmem
    rw [if_neg hnil, if_pos hany]
    rfl

theorem formatShellWrapperArg_of_not_needsQuotes (h : ¬ needsQuotes arg) :
    formatShellWrapperArg arg = arg := by
  have hnil : arg ≠ [] := fun hnil => h (.inl hnil)
  have hany : ¬ (arg.any fun c => isSpace c || c == '"') = true := by
    intro hany
    refine h (.inr ?_)
    simpa using hany
  unfold formatShellWrapperArg
  rw [if_neg hnil, if_neg hany]

/-- What follows an argument in the text. -/
def argsTail : List Str → Str
  | [] => []
  | arg :: rest => ' ' :: formatExecCommand (arg :: rest)

variable (arg rest)

theorem formatExecCommand_cons :
    formatExecCommand (arg :: rest) = formatShellWrapperArg arg ++ argsTail rest := by
  cases rest with
  | nil =>
    show List.intercalate [' '] [formatShellWrapperArg arg] = _
    rw [intercalate_singleton]
    exact (append_nil _).symm
  | cons next rest =>
    show List.intercalate _ (formatShellWrapperArg arg :: formatShellWrapperArg next :: _) = _
    rw [intercalate_cons_cons]
    exact append_assoc _ _ _

theorem argsTail_cons :
    argsTail (arg :: rest) = ' ' :: (formatShellWrapperArg arg ++ argsTail rest) := by
  rw [argsTail, formatExecCommand_cons]

variable {arg rest}

theorem escapeQuotes_cons_quote (arg : Str) :
    escapeQuotes ('"' :: arg) = '\\' :: '"' :: escapeQuotes arg := rfl

theorem escapeQuotes_cons_of_ne (h : c ≠ '"') (arg : Str) :
    escapeQuotes (c :: arg) = c :: escapeQuotes arg := by
  unfold escapeQuotes
  rw [flatMap_cons, if_neg h]
  rfl

theorem escapeQuotes_of_not_mem (h : '"' ∉ arg) : escapeQuotes arg = arg := by
  induction arg with
  | nil => rfl
  | cons c arg ih =>
    have hne : c ≠ '"' := fun hc => h (by simp [hc])
    have hmem : '"' ∉ arg := fun hmem => h (mem_cons_of_mem _ hmem)
    rw [escapeQuotes_cons_of_ne hne, ih hmem]

/-! ## The first quote of a text -/

/-- The first place of a character determines what stands before and after it. -/
theorem append_cons_inj_of_not_mem {α : Type*} {x : α} {u u' v v' : List α} (hu : x ∉ u)
    (hu' : x ∉ u') (h : u ++ x :: v = u' ++ x :: v') : u = u' ∧ v = v' := by
  induction u generalizing u' with
  | nil =>
    cases u' with
    | nil => exact ⟨rfl, tail_eq_of_cons_eq h⟩
    | cons c u' =>
      have hc : x = c := head_eq_of_cons_eq h
      exact absurd (hc ▸ mem_cons_self) hu'
  | cons c u ih =>
    cases u' with
    | nil =>
      have hc : c = x := head_eq_of_cons_eq h
      exact absurd (hc ▸ mem_cons_self) hu
    | cons c' u' =>
      have hc : c = c' := head_eq_of_cons_eq h
      have htail : u ++ x :: v = u' ++ x :: v' := tail_eq_of_cons_eq h
      have hmem : x ∉ u := fun hx => hu (mem_cons_of_mem _ hx)
      have hmem' : x ∉ u' := fun hx => hu' (mem_cons_of_mem _ hx)
      have hrest := ih hmem hmem' htail
      exact ⟨by rw [hc, hrest.1], hrest.2⟩

/-- Outside quotes, the first quote opens an argument and stands after a space. -/
theorem argsTail_first_quote (args : List Str) : '"' ∉ argsTail args ∨
      ∃ before arg rest, '"' ∉ before ∧ rest.length < args.length ∧
        argsTail args = before ++ ' ' :: '"' :: (escapeQuotes arg ++ '"' :: argsTail rest) := by
  induction args with
  | nil => exact .inl not_mem_nil
  | cons arg args ih =>
    rw [argsTail_cons]
    by_cases hneeds : needsQuotes arg
    · right
      refine ⟨[], arg, args, not_mem_nil, Nat.lt_succ_self _, ?_⟩
      rw [formatShellWrapperArg_of_needsQuotes hneeds]
      simp
    · rw [formatShellWrapperArg_of_not_needsQuotes hneeds]
      have hbare : '"' ∉ ' ' :: arg := by
        intro hmem
        have hmem : '"' ∈ arg := by simpa using hmem
        exact hneeds (.inr ⟨'"', hmem, .inr rfl⟩)
      rcases ih with hnone | ⟨before, next, rest, hbefore, hlen, heq⟩
      · left
        rw [← cons_append, mem_append]
        exact not_or.mpr ⟨hbare, hnone⟩
      · right
        refine ⟨' ' :: arg ++ before, next, rest, ?_, Nat.lt_succ_of_lt hlen, ?_⟩
        · rw [mem_append]
          exact not_or.mpr ⟨hbare, hbefore⟩
        · rw [heq]
          simp

/-- Inside quotes, the first quote is an escaped one or the closing one. -/
theorem escapeQuotes_first_quote (arg : Str) : '"' ∉ arg ∨
      ∃ before rest, '"' ∉ before ∧ escapeQuotes arg = before ++ '\\' :: '"' :: escapeQuotes rest := by
  induction arg with
  | nil => exact .inl not_mem_nil
  | cons c arg ih =>
    by_cases hc : c = '"'
    · right
      refine ⟨[], arg, not_mem_nil, ?_⟩
      rw [hc, escapeQuotes_cons_quote]
      rfl
    · rcases ih with hnone | ⟨before, rest, hbefore, heq⟩
      · left
        rw [mem_cons]
        exact not_or.mpr ⟨fun h => hc h.symm, hnone⟩
      · right
        refine ⟨c :: before, rest, ?_, ?_⟩
        · rw [mem_cons]
          exact not_or.mpr ⟨fun h => hc h.symm, hbefore⟩
        · rw [escapeQuotes_cons_of_ne hc, heq]
          rfl

/-! ## Two readings never meet again -/

/-- No text can be read both from outside quotes and from inside them. -/
theorem argsTail_ne_escapeQuotes (n : ℕ) (args rest : List Str) (arg : Str)
    (hn : args.length + rest.length ≤ n) :
    argsTail args ≠ escapeQuotes arg ++ '"' :: argsTail rest := by
  induction n generalizing args rest arg with
  | zero =>
    have hargs : args = [] := eq_nil_of_length_eq_zero (by omega)
    intro heq
    rw [hargs] at heq
    exact absurd heq (by simp [argsTail])
  | succ n ih =>
    intro heq
    rcases argsTail_first_quote args with hnone | ⟨before, next, args', hbefore, hlen, hargs⟩
    · exact hnone (by rw [heq]; simp)
    · rw [hargs] at heq
      have hbefore' : '"' ∉ before ++ [' '] := by simpa using hbefore
      -- the quote of the first reading comes after a space
      have heq : (before ++ [' ']) ++ '"' :: (escapeQuotes next ++ '"' :: argsTail args') =
          escapeQuotes arg ++ '"' :: argsTail rest := by simpa using heq
      rcases escapeQuotes_first_quote arg with hplain | ⟨before', arg', hbefore'', harg⟩
      · -- it closes the argument of the second reading, which is outside from there on
        rw [escapeQuotes_of_not_mem hplain] at heq
        have hinj := append_cons_inj_of_not_mem hbefore' hplain heq
        exact ih rest args' next (by omega) hinj.2.symm
      · -- it cannot be an escaped one
        rw [harg] at heq
        have heq : (before ++ [' ']) ++ '"' :: (escapeQuotes next ++ '"' :: argsTail args') =
            (before' ++ ['\\']) ++ '"' :: (escapeQuotes arg' ++ '"' :: argsTail rest) := by
          simpa using heq
        have hback : '"' ∉ before' ++ ['\\'] := by simpa using hbefore''
        have hinj := append_cons_inj_of_not_mem hbefore' hback heq
        have hlast := congrArg List.getLast? hinj.1
        simp at hlast

/-! ## One argument vector -/

/-- A quote right at the front closes the argument. -/
theorem eq_of_quote_cons {text text' : Str}
    (h : '"' :: text = escapeQuotes arg ++ '"' :: text') : text = text' := by
  cases arg with
  | nil => exact tail_eq_of_cons_eq h
  | cons c arg =>
    by_cases hc : c = '"'
    · rw [hc, escapeQuotes_cons_quote] at h
      exact absurd (head_eq_of_cons_eq h) (by decide)
    · rw [escapeQuotes_cons_of_ne hc] at h
      exact absurd (head_eq_of_cons_eq h).symm hc

/-- An escaped quote is not read as a backslash and a closing quote. -/
theorem escaped_quote_ne (hc : c ≠ '"') : escapeQuotes ('"' :: arg) ++ '"' :: argsTail rest ≠
      escapeQuotes (c :: arg') ++ '"' :: argsTail rest' := by
  intro h
  rw [escapeQuotes_cons_quote, escapeQuotes_cons_of_ne hc] at h
  have htail := eq_of_quote_cons (tail_eq_of_cons_eq h)
  exact argsTail_ne_escapeQuotes _ rest' rest arg le_rfl htail.symm

/-- A quoted argument ends at one place only. -/
theorem escapeQuotes_append_inj
    (h : escapeQuotes arg ++ '"' :: argsTail rest = escapeQuotes arg' ++ '"' :: argsTail rest') :
    arg = arg' ∧ argsTail rest = argsTail rest' := by
  induction arg generalizing arg' with
  | nil =>
    cases arg' with
    | nil => exact ⟨rfl, tail_eq_of_cons_eq h⟩
    | cons d arg' =>
      have hne : d ≠ '"' → False := by
        intro hd
        rw [escapeQuotes_cons_of_ne hd] at h
        exact hd (head_eq_of_cons_eq h).symm
      rw [of_not_not hne, escapeQuotes_cons_quote] at h
      exact absurd (head_eq_of_cons_eq h) (by decide)
  | cons c arg ih =>
    cases arg' with
    | nil =>
      have hne : c ≠ '"' → False := by
        intro hc
        rw [escapeQuotes_cons_of_ne hc] at h
        exact hc (head_eq_of_cons_eq h)
      rw [of_not_not hne, escapeQuotes_cons_quote] at h
      exact absurd (head_eq_of_cons_eq h) (by decide)
    | cons d arg' =>
      by_cases hc : c = '"' <;> by_cases hd : d = '"'
      · rw [hc, hd, escapeQuotes_cons_quote, escapeQuotes_cons_quote] at h
        have hrest := ih (tail_eq_of_cons_eq (tail_eq_of_cons_eq h))
        exact ⟨by rw [hc, hd, hrest.1], hrest.2⟩
      · rw [hc] at h
        exact absurd h (escaped_quote_ne hd)
      · rw [hd] at h
        exact absurd h.symm (escaped_quote_ne hc)
      · rw [escapeQuotes_cons_of_ne hc, escapeQuotes_cons_of_ne hd] at h
        have hrest := ih (tail_eq_of_cons_eq h)
        exact ⟨by rw [head_eq_of_cons_eq h, hrest.1], hrest.2⟩

/-- A bare argument ends at the first space. -/
theorem bare_append_inj (harg : ¬ needsQuotes arg)
    (harg' : ¬ needsQuotes arg') (h : arg ++ argsTail rest = arg' ++ argsTail rest') :
    arg = arg' ∧ argsTail rest = argsTail rest' := by
  have hspace {word : Str} (hword : ¬ needsQuotes word) : ' ' ∉ word :=
    fun hmem => hword (.inr ⟨' ', hmem, .inl rfl⟩)
  cases rest with
  | nil =>
    cases rest' with
    | nil =>
      rw [argsTail, append_nil, append_nil] at h
      exact ⟨h, rfl⟩
    | cons next rest' =>
      rw [argsTail, argsTail, append_nil] at h
      exact absurd (h ▸ mem_append_right _ mem_cons_self) (hspace harg)
  | cons next rest =>
    cases rest' with
    | nil =>
      rw [argsTail, argsTail, append_nil] at h
      exact absurd (h ▸ mem_append_right _ mem_cons_self) (hspace harg')
    | cons next' rest' =>
      rw [argsTail, argsTail] at h
      have hinj := append_cons_inj_of_not_mem (hspace harg) (hspace harg') h
      exact ⟨hinj.1, by rw [argsTail, argsTail, hinj.2]⟩

/-- A quoted argument is not read as a bare one. -/
theorem quoted_append_ne_bare {text text' : Str} (harg : needsQuotes arg)
    (harg' : ¬ needsQuotes arg') :
    formatShellWrapperArg arg ++ text ≠ formatShellWrapperArg arg' ++ text' := by
  intro h
  rw [formatShellWrapperArg_of_needsQuotes harg, formatShellWrapperArg_of_not_needsQuotes harg'] at h
  cases arg' with
  | nil => exact harg' (.inl rfl)
  | cons c arg' =>
    have hc : '"' = c := head_eq_of_cons_eq h
    exact harg' (.inr ⟨c, mem_cons_self, .inr hc.symm⟩)

theorem formatShellWrapperArg_append_inj
    (h : formatShellWrapperArg arg ++ argsTail rest = formatShellWrapperArg arg' ++ argsTail rest') :
    arg = arg' ∧ argsTail rest = argsTail rest' := by
  by_cases harg : needsQuotes arg <;> by_cases harg' : needsQuotes arg'
  · rw [formatShellWrapperArg_of_needsQuotes harg, formatShellWrapperArg_of_needsQuotes harg'] at h
    exact escapeQuotes_append_inj (by simpa using h)
  · exact absurd h (quoted_append_ne_bare harg harg')
  · exact absurd h.symm (quoted_append_ne_bare harg' harg)
  · rw [formatShellWrapperArg_of_not_needsQuotes harg,
      formatShellWrapperArg_of_not_needsQuotes harg'] at h
    exact bare_append_inj harg harg' h

theorem formatShellWrapperArg_ne_nil (arg : Str) : formatShellWrapperArg arg ≠ [] := by
  by_cases harg : needsQuotes arg
  · rw [formatShellWrapperArg_of_needsQuotes harg]
    exact cons_ne_nil _ _
  · rw [formatShellWrapperArg_of_not_needsQuotes harg]
    exact fun hnil => harg (.inl hnil)

theorem formatExecCommand_ne_nil (h : argv ≠ []) : formatExecCommand argv ≠ [] := by
  cases argv with
  | nil => exact absurd rfl h
  | cons arg rest =>
    rw [formatExecCommand_cons]
    exact append_ne_nil_of_left_ne_nil (formatShellWrapperArg_ne_nil arg) _

/-- The induction is on the first vector: what follows an argument is empty, or a space and
the text of the arguments that follow it. -/
theorem formatExecCommand_injective : Function.Injective formatExecCommand := by
  intro argv argv' h
  induction argv generalizing argv' with
  | nil =>
    by_contra hne
    exact formatExecCommand_ne_nil (Ne.symm hne) h.symm
  | cons arg rest ih =>
    cases argv' with
    | nil => exact absurd h (formatExecCommand_ne_nil (cons_ne_nil _ _))
    | cons arg' rest' =>
      rw [formatExecCommand_cons, formatExecCommand_cons] at h
      have hinj := formatShellWrapperArg_append_inj h
      have hrest : rest = rest' := by
        cases rest with
        | nil =>
          cases rest' with
          | nil => rfl
          | cons next' rest' => exact absurd hinj.2 (by simp [argsTail])
        | cons next rest =>
          cases rest' with
          | nil => exact absurd hinj.2 (by simp [argsTail])
          | cons next' rest' => exact ih (tail_eq_of_cons_eq hinj.2)
      rw [hinj.1, hrest]

/-! ## Trimming -/

/-- The text begins and ends with a character that `trim` keeps. -/
theorem trim_eq_self {s : Str} (hfirst : ∀ c, s.head? = some c → isSpace c = false)
    (hlast : ∀ c, s.getLast? = some c → isSpace c = false) : trim s = s := by
  have hstart : trimStart s = s := by
    rw [trimStart, dropWhile_eq_self_iff]
    intro hpos
    have hc := hfirst (s[0]) (by rw [head?_eq_getElem?, getElem?_eq_getElem hpos])
    rw [hc]
    decide
  rw [trim, hstart, trimEnd, rdropWhile_eq_self_iff]
  intro hne
  have hc := hlast (s.getLast hne) (getLast?_eq_some_getLast hne)
  rw [hc]
  decide

theorem head?_formatShellWrapperArg
    (h : (formatShellWrapperArg arg).head? = some c) : isSpace c = false := by
  by_cases harg : needsQuotes arg
  · rw [formatShellWrapperArg_of_needsQuotes harg] at h
    have hc : '"' = c := some.inj h
    rw [← hc]
    rfl
  · rw [formatShellWrapperArg_of_not_needsQuotes harg] at h
    have hmem : c ∈ arg := mem_of_head? h
    by_contra hspace
    exact harg (.inr ⟨c, hmem, .inl (by simpa using hspace)⟩)

theorem getLast?_formatShellWrapperArg
    (h : (formatShellWrapperArg arg).getLast? = some c) : isSpace c = false := by
  by_cases harg : needsQuotes arg
  · rw [formatShellWrapperArg_of_needsQuotes harg, ← cons_append, getLast?_concat] at h
    have hc : '"' = c := some.inj h
    rw [← hc]
    rfl
  · rw [formatShellWrapperArg_of_not_needsQuotes harg] at h
    have hmem : c ∈ arg := mem_of_getLast? h
    by_contra hspace
    exact harg (.inr ⟨c, hmem, .inl (by simpa using hspace)⟩)

theorem getLast?_formatExecCommand
    (h : (formatExecCommand argv).getLast? = some c) : isSpace c = false := by
  induction argv with
  | nil => exact nomatch h
  | cons arg rest ih =>
    rw [formatExecCommand_cons] at h
    cases rest with
    | nil =>
      rw [argsTail, append_nil] at h
      exact getLast?_formatShellWrapperArg h
    | cons next rest =>
      rw [argsTail, getLast?_append_of_ne_nil _ (cons_ne_nil _ _)] at h
      apply ih
      have hne := formatExecCommand_ne_nil (cons_ne_nil next rest)
      rw [← singleton_append, getLast?_append_of_ne_nil _ hne] at h
      exact h

theorem trim_formatExecCommand (argv : List Str) :
    trim (formatExecCommand argv) = formatExecCommand argv := by
  apply trim_eq_self
  · intro c h
    cases argv with
    | nil => exact nomatch h
    | cons arg rest =>
      rw [formatExecCommand_cons, head?_append_of_ne_nil _ (formatShellWrapperArg_ne_nil arg)] at h
      exact head?_formatShellWrapperArg h
  · intro c h
    exact getLast?_formatExecCommand h

/-! ## What is keyed by the text -/

/-- The raw text of a request, when it is the text of a vector, passes for that vector only. -/
theorem argv_eq_of_validateSystemRunCommandConsistency {host : Host} {shown : List Str}
    {display : SystemRunCommandDisplay} (hshown : shown ≠ [])
    (h : validateSystemRunCommandConsistency host argv
      (normalizeRawCommandText (some (.string (formatExecCommand shown)))) false = .ok display) :
    argv = shown := by
  have hraw : normalizeRawCommandText (some (.string (formatExecCommand shown))) =
      some (formatExecCommand shown) := by
    show nonEmptyText? (trim (formatExecCommand shown)) = _
    rw [trim_formatExecCommand]
    exact if_neg (formatExecCommand_ne_nil hshown)
  rw [hraw] at h
  have htext : formatExecCommand shown = formatExecCommand argv := by
    by_contra hne
    have hbranch : ¬ (formatExecCommand shown = formatExecCommand argv ∨ (false = true ∧
        (buildSystemRunCommandDisplay host argv (some (formatExecCommand shown))).previewText =
          some (formatExecCommand shown))) := by simpa using hne
    exact absurd h (by
      unfold validateSystemRunCommandConsistency
      exact fun h => nomatch (if_neg hbranch).symm.trans h)
  exact (formatExecCommand_injective htext).symm

/-- A durable approval that lets a vector run stands under the vector's own text or digest. -/
theorem exists_entry_of_hasExactCommandDurableExecApproval {digest : Str → Str}
    {allowlist : List AllowlistItem}
    (h : hasExactCommandDurableExecApproval digest allowlist (some (formatExecCommand argv)) = true) :
    ∃ entry, .entry entry ∈ allowlist ∧ entry.source = some allowAlways ∧
      (entry.pattern = buildDurableCommandApprovalPattern digest (formatExecCommand argv) ∨
        entry.commandText.map trim = some (formatExecCommand argv)) := by
  unfold hasExactCommandDurableExecApproval at h
  rw [map_some, trim_formatExecCommand, getD_some] at h
  dsimp only at h
  split_ifs at h
  have hmem := any_eq_true.mp h
  obtain ⟨item, hitem, hentry⟩ := hmem
  cases item with
  | entry entry =>
    have hboth := of_decide_eq_true hentry
    exact ⟨entry, hitem, hboth.1, hboth.2⟩
  | text value => exact nomatch hentry
  | invalid value => exact nomatch hentry

/-- The entries that were kept for a vector: under its text, or under a digest that tells its
text from that of `argv`. -/
def KeptFor (digest : Str → Str) (argv shown : List Str) (entry : ExecAllowlistEntry) : Prop :=
  (entry.commandText.map trim = some (formatExecCommand shown) ∧
    entry.pattern ≠ buildDurableCommandApprovalPattern digest (formatExecCommand argv)) ∨
  (entry.commandText = none ∧
    entry.pattern = buildDurableCommandApprovalPattern digest (formatExecCommand shown) ∧
    (digest (formatExecCommand argv) = digest (formatExecCommand shown) →
      formatExecCommand argv = formatExecCommand shown))

theorem argv_eq_of_keptFor {digest : Str → Str} {shown : List Str}
    {entry : ExecAllowlistEntry} (hkept : KeptFor digest argv shown entry)
    (h : entry.pattern = buildDurableCommandApprovalPattern digest (formatExecCommand argv) ∨
      entry.commandText.map trim = some (formatExecCommand argv)) : argv = shown := by
  apply formatExecCommand_injective
  rcases hkept with ⟨htext, hpattern⟩ | ⟨htext, hpattern, hdigest⟩
  · have hcommand := h.resolve_left hpattern
    exact some.inj (hcommand.symm.trans htext)
  · have hcommand : entry.commandText.map trim ≠ some (formatExecCommand argv) := by
      rw [htext]
      exact fun h => nomatch h
    have hsame := (h.resolve_right hcommand).symm.trans hpattern
    exact hdigest (append_cancel_left hsame)

/-- Approval texts are injective and trimmed, and what is keyed by such a text, the raw command
of a request or a durable approval of a command, stands for one vector. -/
theorem formatExecCommand_binds_argv (host : Host) (digest : Str → Str) :
    (∀ argv argv' : List Str, formatExecCommand argv = formatExecCommand argv' → argv = argv') ∧
    (∀ argv, trim (formatExecCommand argv) = formatExecCommand argv) ∧
    (∀ argv shown display, shown ≠ [] →
      validateSystemRunCommandConsistency host argv
        (normalizeRawCommandText (some (.string (formatExecCommand shown)))) false = .ok display →
      argv = shown) ∧
    ∀ allowlist argv,
      hasExactCommandDurableExecApproval digest allowlist (some (formatExecCommand argv)) = true →
      ∃ entry, .entry entry ∈ allowlist ∧ entry.source = some allowAlways ∧
        ∀ shown, KeptFor digest argv shown entry → argv = shown := by
  refine ⟨fun _ _ h => formatExecCommand_injective h, trim_formatExecCommand,
    fun _ _ _ hshown h => argv_eq_of_validateSystemRunCommandConsistency hshown h, ?_⟩
  intro allowlist argv h
  have hentry := exists_entry_of_hasExactCommandDurableExecApproval h
  obtain ⟨entry, hmem, hsource, hmatch⟩ := hentry
  exact ⟨entry, hmem, hsource, fun shown hkept => argv_eq_of_keptFor hkept hmatch⟩

end OpenClaw
