import OpenClaw.Shell.Analysis

/-!
# Enforced commands read back

Every word of an enforced command stands between single quotes. The splitters pass over such a
word without looking at its characters, so the text is split again into the pipelines, the
segments and the words it was rendered from.
-/

namespace OpenClaw

open List

variable {word text front raw : Str} {argv texts : List Str} {argvs : List (List Str)}

/-! ## One word -/

/-- The characters of a word between its quotes. -/
def quotedText (word : Str) : Str :=
  word.flatMap fun c => if c = '\'' then "'\"'\"'".toList else [c]

theorem shellEscapeSingleArg_append (word rest : Str) :
    shellEscapeSingleArg word ++ rest = '\'' :: (quotedText word ++ '\'' :: rest) := by
  rw [shellEscapeSingleArg, cons_append, cons_append, append_assoc, singleton_append, quotedText]

theorem quotedText_quote (word : Str) :
    quotedText ('\'' :: word) = '\'' :: '"' :: '\'' :: '"' :: '\'' :: quotedText word := rfl

theorem quotedText_cons {c : Char} (h : c ≠ '\'') : quotedText (c :: word) = c :: quotedText word := by
  rw [quotedText, flatMap_cons, if_neg h]
  rfl

/-- The word that is read goes into the buffer without its quotes. -/
theorem splitShellArgsLoop_word (word buf : Str) (tokens : List Str) (rest : Str) :
    splitShellArgsLoop .plain buf tokens (shellEscapeSingleArg word ++ rest) =
      splitShellArgsLoop .plain (buf ++ word) tokens rest := by
  have hsingle : splitShellArgsLoop .single buf tokens (quotedText word ++ '\'' :: rest) =
      splitShellArgsLoop .plain (buf ++ word) tokens rest := by
    induction word generalizing buf with
    | nil => simp [quotedText, splitShellArgsLoop]
    | cons c word ih =>
      by_cases hquote : c = '\''
      -- the quotes are closed, a quote in double quotes is read, and they are opened again
      · rw [hquote, quotedText_quote]
        simp [splitShellArgsLoop, ih]
      · rw [quotedText_cons hquote, cons_append, splitShellArgsLoop, if_neg hquote, ih,
          append_assoc, singleton_append]
  rw [shellEscapeSingleArg_append, ← hsingle]
  simp [splitShellArgsLoop]

theorem splitShellArgs_renderQuotedArgv (argv : List Str) :
    splitShellArgs (renderQuotedArgv argv) = some (argv.filter (· ≠ [])) := by
  have hpush : ∀ tokens word, pushToken tokens word = tokens ++ [word].filter (· ≠ []) := by
    intro tokens word
    by_cases hword : word = [] <;> simp [pushToken, hword]
  have hloop : ∀ tokens, splitShellArgsLoop .plain [] tokens (renderQuotedArgv argv) =
      some (tokens ++ argv.filter (· ≠ [])) := by
    unfold renderQuotedArgv joinWith
    induction argv with
    | nil => simp [splitShellArgsLoop, pushToken]
    | cons word argv ih =>
      intro tokens
      cases argv with
      | nil =>
        have hlast := splitShellArgsLoop_word word [] tokens []
        rw [append_nil, nil_append] at hlast
        rw [map_singleton, intercalate_singleton, hlast, splitShellArgsLoop, hpush]
      | cons next argv =>
        have hspace : ∀ rest, splitShellArgsLoop .plain word tokens (' ' :: rest) =
            splitShellArgsLoop .plain [] (pushToken tokens word) rest := by
          intro rest
          have hblank : isSpace ' ' = true := by decide
          simp [splitShellArgsLoop, hblank]
        rw [map_cons, map_cons, intercalate_cons_cons, append_assoc, splitShellArgsLoop_word,
          nil_append]
        refine (hspace _).trans ((ih _).trans ?_)
        rw [hpush, append_assoc, ← filter_append, singleton_append]
  exact hloop []

/-! ## What the splitters pass over -/

theorem joinWith_induction {P : Str → Prop} {sep : Str}
    (hsep : ∀ a b, P a → P b → P (a ++ (sep ++ b))) (hne : texts ≠ [])
    (h : ∀ text ∈ texts, P text) : P (joinWith sep texts) := by
  induction texts with
  | nil => exact absurd rfl hne
  | cons text texts ih =>
    have htext := h text mem_cons_self
    cases texts with
    | nil => rwa [joinWith, intercalate_singleton]
    | cons next texts =>
      have hnext := ih (cons_ne_nil _ _) fun text hmem => h text (mem_cons_of_mem _ hmem)
      have hjoin := hsep _ _ htext hnext
      rwa [joinWith, intercalate_cons_cons, append_assoc]

section

variable {σ ρ : Type} {loop single : Option Char → σ → Str → ρ} {push : σ → Str → σ}

/-- Outside quotes the loop reads the text and keeps it as it is. -/
def PassesOver (loop : Option Char → σ → Str → ρ) (push : σ → Str → σ) (text : Str) : Prop :=
  ∀ prev s rest, ∃ prev', loop prev s (text ++ rest) = loop prev' (push s text) rest

/-- A text of quoted words. -/
structure IsItem (loop : Option Char → σ → Str → ρ) (push : σ → Str → σ) (text : Str) : Prop where
  passes : PassesOver loop push text
  quoted : ∃ body, text = '\'' :: (body ++ ['\''])

/-- How a loop reads quotes, outside single quotes and inside them. -/
structure ReadsQuotes (loop single : Option Char → σ → Str → ρ) (push : σ → Str → σ) : Prop where
  pushes : ∀ s a b, push (push s a) b = push s (a ++ b)
  opens : ∀ prev s rest, loop prev s ('\'' :: rest) = single (some '\'') (push s ['\'']) rest
  closes : ∀ prev s rest, single prev s ('\'' :: rest) = loop (some '\'') (push s ['\'']) rest
  keeps : ∀ {c}, c ≠ '\'' → ∀ prev s rest, single prev s (c :: rest) = single (some c) (push s [c]) rest
  double : ∀ prev s rest, loop prev s ('"' :: '\'' :: '"' :: rest) =
    loop (some '"') (push s "\"'\"".toList) rest

namespace ReadsQuotes

variable (h : ReadsQuotes loop single push)

include h

theorem isItem_word (word : Str) : IsItem loop push (shellEscapeSingleArg word) := by
  have hsingle : ∀ prev s rest, single prev s (quotedText word ++ '\'' :: rest) =
      loop (some '\'') (push s (quotedText word ++ ['\''])) rest := by
    induction word with
    | nil => exact h.closes
    | cons c word ih =>
      intro prev s rest
      by_cases hquote : c = '\''
      · rw [hquote, quotedText_quote]
        simp only [cons_append, h.closes, h.double, h.opens, ih, h.pushes]
        rfl
      · rw [quotedText_cons hquote, cons_append, h.keeps hquote, ih, h.pushes]
        rfl
  refine ⟨fun prev s rest => ⟨some '\'', ?_⟩, quotedText word, rfl⟩
  have hword := shellEscapeSingleArg_append word []
  rw [append_nil] at hword
  rw [shellEscapeSingleArg_append, h.opens, hsingle, h.pushes, hword]
  rfl

theorem isItem_join {sep : Str} (hsep : PassesOver loop push sep) (hne : texts ≠ [])
    (hitems : ∀ text ∈ texts, IsItem loop push text) : IsItem loop push (joinWith sep texts) := by
  refine joinWith_induction (fun a b ha hb => ⟨fun prev s rest => ?_, ?_⟩) hne hitems
  · obtain ⟨first, hfirst⟩ := ha.passes prev s (sep ++ (b ++ rest))
    obtain ⟨mid, hmid⟩ := hsep first (push s a) (b ++ rest)
    obtain ⟨last, hlast⟩ := hb.passes mid (push (push s a) sep) rest
    refine ⟨last, ?_⟩
    rw [← h.pushes, ← h.pushes, ← hlast, ← hmid, ← hfirst, append_assoc, append_assoc]
  · obtain ⟨body, hbody⟩ := ha.quoted
    obtain ⟨body', hbody'⟩ := hb.quoted
    refine ⟨body ++ '\'' :: (sep ++ '\'' :: body'), ?_⟩
    simp [hbody, hbody']

theorem isItem_argv (hspace : PassesOver loop push " ".toList) (hne : argv ≠ []) :
    IsItem loop push (renderQuotedArgv argv) := by
  apply h.isItem_join hspace (by simpa using hne)
  intro text htext
  obtain ⟨word, -, heq⟩ := mem_map.mp htext
  exact heq ▸ h.isItem_word word

end ReadsQuotes

/-- The buffer where a text begins: nothing, or the blank behind an operator. -/
def AtStart (buf : Str) : Prop := buf = [] ∨ buf = [' ']

theorem IsItem.trim (h : IsItem loop push text) (hfront : AtStart front) :
    trim (front ++ text) = text ∧ trim (front ++ (text ++ [' '])) = text ∧ text ≠ [] := by
  obtain ⟨body, hbody⟩ := h.quoted
  have hstart : ∀ rest, trimStart (front ++ '\'' :: rest) = '\'' :: rest := by
    intro rest
    rcases hfront with hfront | hfront <;> rw [hfront] <;> rfl
  have hend : trimEnd ('\'' :: body ++ ['\'']) = '\'' :: body ++ ['\''] :=
    rdropWhile_concat_neg _ _ _ (by decide)
  have hblank : trimEnd ('\'' :: body ++ ['\''] ++ [' ']) = '\'' :: body ++ ['\''] :=
    (rdropWhile_concat_pos _ _ _ (by decide)).trans hend
  rw [hbody]
  exact ⟨(congrArg trimEnd (hstart _)).trans hend, (congrArg trimEnd (hstart _)).trans hblank,
    cons_ne_nil _ _⟩

end

abbrev IsChainItem : Str → Prop := IsItem (splitChainLoop 0 .plain) ChainScan.push

theorem readsQuotes_chain :
    ReadsQuotes (splitChainLoop 0 .plain) (splitChainLoop 0 .single) ChainScan.push where
  pushes s a b := by rw [ChainScan.push, ChainScan.push, ChainScan.push, append_assoc]
  opens prev s rest := by simp [splitChainLoop]
  closes prev s rest := by simp [splitChainLoop]
  keeps hc prev s rest := by simp [splitChainLoop, hc]
  double prev s rest := by simp [splitChainLoop, ChainScan.push, isDoubleQuoteEscape]

theorem readsQuotes_pipeline : ReadsQuotes (splitPipelineLoop 0 (.text .plain))
    (splitPipelineLoop 0 (.text .single)) PipelineScan.push where
  pushes s a b := by rw [PipelineScan.push, PipelineScan.push, PipelineScan.push, append_assoc]
  opens prev s rest := by simp [splitPipelineLoop]
  closes prev s rest := by simp [splitPipelineLoop]
  keeps hc prev s rest := by simp [splitPipelineLoop, hc]
  double prev s rest := by simp [splitPipelineLoop, PipelineScan.push]

/-- The text of a pipeline. -/
def renderPipelineText (argvs : List (List Str)) : Str := joinWith " | " (argvs.map renderQuotedArgv)

theorem isChainItem_pipeline (hne : argvs ≠ []) (h : [] ∉ argvs) :
    IsChainItem (renderPipelineText argvs) := by
  have hblank : ∀ text : Str, text = " ".toList ∨ text = " | ".toList →
      PassesOver (splitChainLoop 0 .plain) ChainScan.push text := by
    intro text htext prev s rest
    refine ⟨some ' ', ?_⟩
    rcases htext with htext | htext <;>
      simp [htext, splitChainLoop, isShellCommentStart, ChainScan.push]
  apply readsQuotes_chain.isItem_join (hblank _ (.inr rfl)) (by simpa using hne)
  intro text htext
  obtain ⟨argv, hargv, heq⟩ := mem_map.mp htext
  exact heq ▸ readsQuotes_chain.isItem_argv (hblank _ (.inl rfl)) fun hnil => h (hnil ▸ hargv)

theorem splitShellPipeline_join (hne : texts ≠ [])
    (h : ∀ text ∈ texts, IsItem (splitPipelineLoop 0 (.text .plain)) PipelineScan.push text) :
    splitShellPipeline (joinWith " | " texts) = .ok texts := by
  have hloop : ∀ prev (s : PipelineScan), AtStart s.buf → s.pendingHeredocs = [] →
      ∃ s', splitPipelineLoop 0 (.text .plain) prev s (joinWith " | " texts) =
          .ok (.text .plain, s') ∧
        finishPipeline (.text .plain, s') = .ok (s.segments ++ texts) := by
    induction texts with
    | nil => exact absurd rfl hne
    | cons text texts ih =>
      intro prev s hbuf hpending
      have hitem := h text mem_cons_self
      obtain ⟨hlast, hmid, htext⟩ := hitem.trim hbuf
      cases texts with
      | nil =>
        obtain ⟨prev', hread⟩ := hitem.passes prev s []
        rw [append_nil] at hread
        refine ⟨s.push text, ?_, ?_⟩
        · rw [joinWith, intercalate_singleton, hread, splitPipelineLoop]
        · simp [finishPipeline, PipelineScan.push, PipelineScan.pushPart, hpending, hlast, htext]
      | cons next texts =>
        -- the segment ends at the bar, and the next one begins behind the blank
        let cut : PipelineScan := ⟨s.segments ++ [text], [' '], false, []⟩
        obtain ⟨prev', hread⟩ := hitem.passes prev s (" | ".toList ++ joinWith " | " (next :: texts))
        obtain ⟨s', hrest, hfinish⟩ := ih (cons_ne_nil _ _)
          (fun text hmem => h text (mem_cons_of_mem _ hmem)) (some ' ') cut (.inr rfl) rfl
        refine ⟨s', ?_, ?_⟩
        · rw [joinWith, intercalate_cons_cons, ← joinWith, append_assoc, hread, ← hrest]
          simp [splitPipelineLoop, isShellCommentStart, isDisallowedPipelineToken,
            PipelineScan.push, PipelineScan.pushPart, hpending, hmid, htext, cut]
        · rw [hfinish, append_assoc, singleton_append]
  obtain ⟨s', hread, hfinish⟩ := hloop none .init (.inl rfl) rfl
  unfold splitShellPipeline
  rw [hread]
  exact hfinish

/-- The text of a chain. -/
def renderChain : List ShellChainPart → Str
  | [] => []
  | part :: parts => part.part ++ chainOperatorText part.opToNext ++ renderChain parts

/-- The operators of a chain: there is one behind every part but the last. -/
def IsChain (parts : List ShellChainPart) : Prop :=
  ∃ ops : List ShellChainOperator, parts.map (·.opToNext) = ops.map some ++ [none]

theorem chainParts_renderChain {parts : List ShellChainPart} (hchain : IsChain parts)
    (h : ∀ part ∈ parts, IsChainItem part.part) :
    chainParts (renderChain parts) = parts := by
  obtain ⟨ops, hops⟩ := hchain
  have hloop : ∀ prev (s : ChainScan), AtStart s.buf → s.invalidChain = false →
      (splitChainLoop 0 .plain prev s (renderChain parts)).finish =
        if s.foundChain = true ∨ ops ≠ [] then some (s.parts ++ parts) else none := by
    induction parts generalizing ops with
    | nil => simp at hops
    | cons part parts ih =>
      intro prev s hbuf hvalid
      have hitem := h part mem_cons_self
      obtain ⟨hlast, hmid, htext⟩ := hitem.trim hbuf
      cases ops with
      | nil =>
        obtain ⟨hop, hparts⟩ : part.opToNext = none ∧ parts = [] := by simpa using hops
        obtain ⟨prev', hread⟩ := hitem.passes prev s []
        have hpart : ⟨part.part, none⟩ = part := by rw [← hop]
        rw [append_nil] at hread
        have hrender : renderChain [part] = part.part := by simp [renderChain, hop, chainOperatorText]
        rw [hparts, hrender, hread, splitChainLoop]
        by_cases hfound : s.foundChain = true <;>
          simp [ChainScan.finish, ChainScan.push, hlast, htext, hvalid, hpart, hfound]
      | cons op ops =>
        obtain ⟨hop, hparts⟩ : part.opToNext = some op ∧
            parts.map (·.opToNext) = ops.map some ++ [none] := by simpa using hops
        have hpart : ⟨part.part, some op⟩ = part := by rw [← hop]
        let cut : ChainScan := ⟨s.parts ++ [part], [' '], true, false⟩
        obtain ⟨prev', hread⟩ := hitem.passes prev s (chainOperatorText part.opToNext ++ renderChain parts)
        have hcut : splitChainLoop 0 .plain prev' (s.push part.part)
            (chainOperatorText part.opToNext ++ renderChain parts) =
              splitChainLoop 0 .plain (some ' ') cut (renderChain parts) := by
          rw [hop]
          cases op <;>
            simp [chainOperatorText, ShellChainOperator.text, splitChainLoop, isShellCommentStart,
              ChainScan.push, ChainScan.operator, hmid, htext, hvalid, cut, hpart]
        have hrest := ih (fun part hmem => h part (mem_cons_of_mem _ hmem)) ops hparts (some ' ') cut
          (.inr rfl) rfl
        rw [renderChain, append_assoc, hread, hcut, hrest]
        simp [cut]
  have hfinish := hloop none .init (.inl rfl) rfl
  unfold chainParts splitCommandChainWithOperators
  rw [hfinish]
  cases ops with
  | nil =>
    obtain ⟨part, hpart, hop⟩ : ∃ part, parts = [part] ∧ part.opToNext = none := by
      simpa [map_eq_cons_iff, and_comm] using hops
    have hself : ⟨part.part, none⟩ = part := by rw [← hop]
    rw [hpart]
    simp [ChainScan.init, renderChain, hop, chainOperatorText, hself]
  | cons op ops => simp [ChainScan.init]

/-- There is an operator behind each of the parts. -/
def HasOperators (parts : List ShellChainPart) : Prop :=
  ∃ ops : List ShellChainOperator, parts.map (·.opToNext) = ops.map some

theorem isChain_chainParts (command : Str) : IsChain (chainParts command) := by
  have hoperator : ∀ (s : ChainScan) op, HasOperators s.parts → HasOperators (s.operator op).parts := by
    intro s op h
    obtain ⟨ops, hops⟩ := h
    unfold ChainScan.operator
    split_ifs
    · exact ⟨ops, hops⟩
    · exact ⟨ops ++ [op], by simp [hops]⟩
  have hloop : ∀ skip mode prev (s : ChainScan), HasOperators s.parts →
      HasOperators (splitChainLoop skip mode prev s command).parts := by
    intro skip mode prev s
    fun_induction splitChainLoop skip mode prev s command <;> simp_all [ChainScan.push]
  obtain ⟨ops, hops⟩ := hloop 0 .plain none .init ⟨[], rfl⟩
  unfold chainParts splitCommandChainWithOperators ChainScan.finish
  split_ifs
  · exact ⟨[], rfl⟩
  · exact ⟨ops, by simp [hops]⟩

/-! ## The planned words -/

theorem exists_ok_of_bind {α β : Type} {x : Except Str α} {f : α → Except Str β} {b : β}
    (h : x >>= f = .ok b) : ∃ a, x = .ok a ∧ f a = .ok b := by
  cases x with
  | error reason => cases h
  | ok a => exact ⟨a, rfl, h⟩

theorem splitShellPipeline_ne_nil (raw : Str) : splitShellPipeline raw ≠ .ok [] := by
  have hfinish : ∀ state, finishPipeline state ≠ .ok [] := by
    intro state
    fun_cases finishPipeline state <;> simp_all
  intro h
  obtain ⟨⟨mode, s⟩, -, h⟩ := exists_ok_of_bind h
  cases mode with
  | text mode => exact hfinish _ h
  | heredoc line chunks =>
    obtain ⟨state, -, h⟩ := exists_ok_of_bind h
    exact hfinish state h

/-- The part is a pipeline with as many segments. -/
def HasCount (argvs : List (List Str)) (part : ShellChainPart) : Prop :=
  ∃ raws, splitShellPipeline part.part = .ok raws ∧ raws.length = argvs.length

/-- The part is a pipeline of these words, the empty ones left out. -/
def HasWords (argvs : List (List Str)) (part : ShellChainPart) : Prop :=
  ∃ raws, splitShellPipeline part.part = .ok raws ∧
    raws.map splitShellArgs = argvs.map fun argv => some (argv.filter (· ≠ []))

theorem hasWords_renderPipelineText (hne : argvs ≠ []) (h : [] ∉ argvs)
    (op : Option ShellChainOperator) : HasWords argvs ⟨renderPipelineText argvs, op⟩ := by
  have hblank : PassesOver (splitPipelineLoop 0 (.text .plain)) PipelineScan.push " ".toList :=
    fun prev s rest => ⟨some ' ', by
      simp [splitPipelineLoop, isShellCommentStart, isDisallowedPipelineToken]⟩
  refine ⟨argvs.map renderQuotedArgv, splitShellPipeline_join (by simpa using hne) ?_, ?_⟩
  · intro text htext
    obtain ⟨argv, hargv, heq⟩ := mem_map.mp htext
    exact heq ▸ readsQuotes_pipeline.isItem_argv hblank fun hnil => h (hnil ▸ hargv)
  · rw [map_map]
    exact map_congr_left fun argv _ => splitShellArgs_renderQuotedArgv argv

section

variable {planned : ℕ → Option (List Str)} {render : Str → ℕ → Except Str Str}
  (hrender : ∀ raw i text, render raw i = .ok text →
    ∃ argv, planned i = some argv ∧ argv ≠ [] ∧ text = renderQuotedArgv argv)

include hrender

theorem renderPipeline_eq_ok {k : ℕ} {raws rendered : List Str}
    (h : renderPipeline render k raws = .ok rendered) :
    ∃ argvs : List (List Str), rendered = argvs.map renderQuotedArgv ∧ [] ∉ argvs ∧
      argvs.length = raws.length ∧ argvs.map some = (range' k raws.length).map planned := by
  induction raws generalizing k rendered with
  | nil => exact ⟨[], (Except.ok.inj h).symm, not_mem_nil, rfl, rfl⟩
  | cons raw raws ih =>
    obtain ⟨text, htext, h⟩ := exists_ok_of_bind h
    obtain ⟨others, hothers, h⟩ := exists_ok_of_bind h
    obtain ⟨argv, hargv, hne, heq⟩ := hrender raw k text htext
    obtain ⟨argvs, hrest, hnil, hlength, hplanned⟩ := ih hothers
    refine ⟨argv :: argvs, ?_, by simp [hnil, Ne.symm hne], by simp [hlength], ?_⟩
    · rw [← Except.ok.inj h, hrest, heq]
      rfl
    · simp [range'_succ, hplanned, hargv]

theorem rebuildChain_eq_ok {k total : ℕ} {parts : List ShellChainPart}
    (h : rebuildChain render k parts = .ok (text, total)) :
    ∃ groups parts', text = renderChain parts' ∧ (∀ part ∈ parts', IsChainItem part.part) ∧
      parts'.map (·.opToNext) = parts.map (·.opToNext) ∧ Forall₂ HasCount groups parts ∧
      Forall₂ HasWords groups parts' ∧ total = k + groups.flatten.length ∧
      groups.flatten.map some = (range' k groups.flatten.length).map planned := by
  induction parts generalizing k text total with
  | nil =>
    have hpair := Prod.mk.inj (Except.ok.inj h)
    exact ⟨[], [], hpair.1.symm, forall_mem_nil _, rfl, .nil, .nil, hpair.2.symm, rfl⟩
  | cons part parts ih =>
    obtain ⟨raws, hraws, h⟩ := exists_ok_of_bind h
    obtain ⟨rendered, hrendered, h⟩ := exists_ok_of_bind h
    obtain ⟨⟨rest, total'⟩, hrest, h⟩ := exists_ok_of_bind h
    have hpair := Prod.mk.inj (Except.ok.inj h)
    obtain ⟨argvs, htexts, hnil, hlength, hargvs⟩ := renderPipeline_eq_ok hrender hrendered
    obtain ⟨groups, parts', htext, hitems, hops, hcounts, hreads, htotal, hgroups⟩ := ih hrest
    have hne : argvs ≠ [] := by
      intro hempty
      rw [hempty] at hlength
      rw [length_eq_zero_iff.mp hlength.symm] at hraws
      exact splitShellPipeline_ne_nil _ hraws
    refine ⟨argvs :: groups, ⟨renderPipelineText argvs, part.opToNext⟩ :: parts', ?_,
      forall_mem_cons.mpr ⟨isChainItem_pipeline hne hnil, hitems⟩, congrArg (_ :: ·) hops,
      .cons ⟨raws, hraws, hlength.symm⟩ hcounts,
      .cons (hasWords_renderPipelineText hne hnil part.opToNext) hreads, ?_, ?_⟩
    · rw [← hpair.1, htexts, htext]
      rfl
    · rw [← hpair.2, htotal, flatten_cons, length_append, hlength, Nat.add_assoc]
    · rw [flatten_cons, map_append, hargvs, hgroups, length_append, hlength, ← map_append,
        range'_append_1]

end

/-- The text reads back as the planned words, in the pipelines and with the operators of the source. -/
theorem buildEnforcedShellCommand_readsBack {command : Str} {segments : List ExecCommandSegment}
    (h : buildEnforcedShellCommand command segments = .ok text) :
    ∃ groups : List (List (List Str)),
      segments.map resolvePlannedSegmentArgv = groups.flatten.map some ∧
      Forall₂ HasCount groups (chainParts (trim command)) ∧
      Forall₂ HasWords groups (chainParts text) ∧
      (chainParts text).map (·.opToNext) = (chainParts (trim command)).map (·.opToNext) := by
  obtain ⟨⟨built, count⟩, hrebuild, h⟩ := exists_ok_of_bind h
  dsimp only at h
  split_ifs at h with hcount
  unfold rebuildShellCommandFromSource at hrebuild
  dsimp only at hrebuild
  split_ifs at hrebuild
  have hrebuilt := @rebuildChain_eq_ok _ (fun i => segments[i]?.bind resolvePlannedSegmentArgv) _
    (by
      intro raw i text hrender
      cases hsegment : segments[i]? with
      | none => simp [hsegment] at hrender
      | some segment =>
        cases hargv : resolvePlannedSegmentArgv segment with
        | none => simp [hsegment, hargv] at hrender
        | some argv =>
          simp only [hsegment, hargv] at hrender
          split_ifs at hrender with hempty
          refine ⟨argv, hargv, fun hnil => hempty ?_, (Except.ok.inj hrender).symm⟩
          rw [hnil]
          rfl)
    _ _ _ hrebuild
  obtain ⟨groups, parts, hbuilt, hitems, hops, hcounts, hreads, htotal, hplanned⟩ := hrebuilt
  obtain ⟨ops, hsource⟩ := isChain_chainParts (trim command)
  have hparts : chainParts text = parts := by
    rw [← Except.ok.inj h, hbuilt, chainParts_renderChain ⟨ops, hops.trans hsource⟩ hitems]
  refine ⟨groups, ?_, hcounts, hparts ▸ hreads, hparts ▸ hops⟩
  rw [hplanned, ← Nat.zero_add groups.flatten.length, ← htotal, not_not.mp hcount]
  ext i
  by_cases hi : i < segments.length <;> simp [hi]

theorem buildEnforcedShellCommand_readsBack_quotes : ∃ groups : List (List (List Str)),
    [some ["it's".toList, "#;".toList]] = groups.flatten.map some ∧
      Forall₂ HasWords groups (chainParts "'it'\"'\"'s' '#;'") := by
  have hbuilt : buildEnforcedShellCommand "x" [⟨[], ["it's", "#;"], none, none⟩] =
      .ok "'it'\"'\"'s' '#;'".toList := by decide +kernel
  obtain ⟨groups, hplanned, -, hreads, -⟩ := buildEnforcedShellCommand_readsBack hbuilt
  exact ⟨groups, hplanned, hreads⟩

end OpenClaw
