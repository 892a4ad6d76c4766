import OpenClaw.Exec.SystemRunAllowlist

/-!
# Allowlisted runs keep their arguments

What is run in place of a request that the allowlist allows: the command behind the wrappers of
the request, with the arguments the rules were checked against. The analysis leaves blank words
out, from the command and from its wrappers, so this holds exactly for requests without any.
-/

namespace OpenClaw

open Lts List Option

variable (host : AllowlistHost)

/-! ## Kept arguments -/

/-- One transparent wrapper taken off, every word of which the wrapper reads: the scanners pass
over blank words, but the wrapper does not. -/
def StripsPlainly (host : Host) (argv : List Str) (wrapper : Str) (rest : List Str) : Prop :=
  StripsTransparently host argv wrapper rest ∧
    ∃ words, argv = words ++ rest ∧ ∀ word ∈ words, isWord word = true

/-- The path that an executable is replaced by. -/
def resolvedExecutable (command : Str) : Str :=
  let execution := buildExecutableResolution host.toExecHost (trim command)
  let path := ((execution.resolvedRealPath.map trim).orElse fun _ =>
    execution.resolvedPath.map trim).getD []
  if path = [] then command else path

/-- The pattern of an allowlist entry was matched against the command with its arguments, or
against a script of the entry with the last words of the request. -/
def PatternChecked (argv command : List Str) (entry : ExecAllowlistEntry) (argPattern : Str) :
    Prop :=
  matchArgPattern host argPattern command = true ∨
    ∃ script scriptArgs, scriptArgs <:+ argv ∧
      entryMatchesExecutable host (pathResolution script) script entry = true ∧
      matchArgPattern host argPattern (script :: scriptArgs) = true

/-- The words that are run are the wrapped command of the request. -/
structure KeepsArguments (request : SystemRunRequest) (argv executed : List Str) : Prop where
  kept : ∃ chain command args,
    Run (StripsPlainly host.toHost) argv chain (command :: args) ∧
      stripWrapper host.toHost (command :: args) = .notWrapper ∧ isWord command = true ∧
      executed = resolvedExecutable host command :: args ∧
      (∀ entry argPattern, (request.analysis host argv).segmentAllowlistEntries = [some entry] →
        entry.boundArgs = some argPattern →
        PatternChecked host argv (command :: args) entry argPattern) ∧
      ((request.analysis host argv).segmentSatisfiedBy = [some .safeBins] →
        ∃ execName profile, request.context.safeBinProfiles execName = some profile ∧
          validateSafeBinArgv host.toHost args profile (some execName) = true)

/-! ## Runs of wrappers -/

variable {host}

variable {base : Host} {argv chain rest : List Str} {context : ExecAllowlistContext}
  {segment : ExecCommandSegment} {entry : ExecAllowlistEntry} {argPattern : Str}

/-- Wrappers taken off plainly leave an end of the request, behind words. -/
theorem words_of_run (h : Run (StripsPlainly base) argv chain rest) :
    ∃ words, argv = words ++ rest ∧ ∀ word ∈ words, isWord word = true := by
  induction h with
  | nil argv => exact ⟨[], rfl, by simp⟩
  | cons hstep _ ih =>
    obtain ⟨-, first, hfirst, hfirst_words⟩ := hstep
    obtain ⟨others, hothers, hothers_words⟩ := ih
    refine ⟨first ++ others, ?_, ?_⟩
    · rw [hfirst, hothers, append_assoc]
    · intro word hword
      rcases mem_append.mp hword with hword | hword
      · exact hfirst_words word hword
      · exact hothers_words word hword

/-- In a request without blank words, transparent wrappers are taken off plainly. -/
theorem run_plainly
    (h : Run (StripsTransparently base) argv chain rest) (hwords : ∀ word ∈ argv, isWord word = true) :
    Run (StripsPlainly base) argv chain rest := by
  induction h with
  | nil argv => exact .nil argv
  | cons hstep _ ih =>
    obtain ⟨words, hsplit⟩ := hstep.suffix
    refine .cons ⟨hstep, words, hsplit.symm, ?_⟩ (ih ?_)
    · intro word hword
      apply hwords
      rw [← hsplit]
      exact mem_append_left _ hword
    · intro word hword
      apply hwords
      rw [← hsplit]
      exact mem_append_right _ hword

theorem suffix_of_run (h : Run (StripsTransparently base) argv chain rest) : rest <:+ argv := by
  induction h with
  | nil argv => exact suffix_rfl
  | cons hstep _ ih => exact ih.trans hstep.suffix

theorem strips_ne_nil {wrapper : Str} (h : Strips base argv wrapper rest) : rest ≠ [] := by
  rw [Strips, stripWrapper] at h
  split at h
  · rw [unwrapKnownShellMultiplexerInvocation] at h
    dsimp only at h
    split at h
    · cases h
    split at h
    · cases h
    split_ifs at h with happlet
    rw [not_or] at happlet
    rintro rfl
    rw [(WrapperUnwrapResult.unwrapped.inj h).2] at happlet
    exact happlet.1 rfl
  · exact unwrapKnownDispatchWrapperInvocation_ne_nil h

theorem ne_nil_of_run
    (h : Run (StripsTransparently base) argv chain rest) (hargv : argv ≠ []) : rest ≠ [] := by
  induction h with
  | nil argv => exact hargv
  | cons hstep _ ih => exact ih (strips_ne_nil hstep.1)

/-! ## What a plan reaches -/

/-- What is left of a command from whose front words may be gone, but not all of them. -/
def EndOf (argv rest : List Str) : Prop := rest <:+ argv ∧ (argv ≠ [] → rest ≠ [])

theorem EndOf.refl (argv : List Str) : EndOf argv argv := ⟨suffix_rfl, id⟩

theorem EndOf.trans {middle : List Str} (h : EndOf argv middle) (h' : EndOf middle rest) :
    EndOf argv rest := ⟨h'.1.trans h.1, fun hne => h'.2 (h.2 hne)⟩

theorem unwrapKnownShellMultiplexerInvocation_endOf
    {wrapper : Str} (h : unwrapKnownShellMultiplexerInvocation base argv = .unwrapped wrapper rest) :
    EndOf argv rest := by
  rw [unwrapKnownShellMultiplexerInvocation] at h
  dsimp only at h
  split at h
  · cases h
  split at h
  · cases h
  split_ifs at h with happlet
  rw [not_or] at happlet
  rw [← (WrapperUnwrapResult.unwrapped.inj h).2]
  refine ⟨(multiplexerAppletArgv_suffix _).trans (tail_suffix _), ?_⟩
  intro _ hnil
  rw [hnil] at happlet
  exact happlet.1 rfl

/-- The loop of a dispatch plan reaches an end of the command, blocked or not. -/
theorem dispatchWrapperLoop_endOf {base : Host} {fuel : ℕ} {current wrappers : List Str} :
    (∀ plan, dispatchWrapperLoop base fuel current wrappers = .inl plan →
      EndOf current plan.argv) ∧
    ∀ result, dispatchWrapperLoop base fuel current wrappers = .inr result →
      EndOf current result.1 := by
  induction fuel generalizing current wrappers with
  | zero =>
    refine ⟨(fun plan h => by cases h), ?_⟩
    intro result h
    rw [← Sum.inr.inj h]
    exact .refl _
  | succ fuel ih =>
    rw [dispatchWrapperLoop]
    cases hunwrap : unwrapKnownDispatchWrapperInvocation base current with
    | blocked wrapper =>
      refine ⟨?_, (fun result h => by cases h)⟩
      intro plan h
      rw [← Sum.inl.inj h]
      exact .refl _
    | notWrapper =>
      refine ⟨(fun plan h => by cases h), ?_⟩
      intro result h
      rw [← Sum.inr.inj h]
      exact .refl _
    | unwrapped wrapper rest =>
      cases rest with
      | nil => exact absurd rfl (unwrapKnownDispatchWrapperInvocation_ne_nil hunwrap)
      | cons arg rest =>
        dsimp only
        by_cases hsemantic : isSemanticDispatchWrapperUsage base wrapper current = true
        · rw [if_pos hsemantic]
          refine ⟨?_, (fun result h => by cases h)⟩
          intro plan h
          rw [← Sum.inl.inj h]
          exact .refl _
        · rw [if_neg hsemantic]
          have hfalse : isSemanticDispatchWrapperUsage base wrapper current = false := by
            simpa using hsemantic
          have hend : EndOf current (arg :: rest) :=
            ⟨(unwrapped_suffix_of_transparent hunwrap hfalse).1, by simp⟩
          exact ⟨fun plan h => hend.trans (ih.1 plan h), fun result h => hend.trans (ih.2 result h)⟩

theorem resolveDispatchWrapperTrustPlan_endOf (base : Host) (argv : List Str) (maxDepth : ℕ) :
    EndOf argv (resolveDispatchWrapperTrustPlan base argv maxDepth).argv := by
  unfold resolveDispatchWrapperTrustPlan
  have hloop := @dispatchWrapperLoop_endOf base maxDepth argv []
  cases hresult : dispatchWrapperLoop base maxDepth argv [] with
  | inl plan => exact hloop.1 plan hresult
  | inr result =>
    have hend := hloop.2 result hresult
    dsimp only
    split
    · split <;> exact hend
    · exact hend

/-- The loop of a trust plan reaches an end of the command, blocked or not. -/
theorem trustPlanLoop_endOf {base : Host} {maxDepth fuel : ℕ} {s : TrustPlanState} :
    (∀ plan, trustPlanLoop base maxDepth fuel s = .inl plan → EndOf s.current plan.argv) ∧
      ∀ s', trustPlanLoop base maxDepth fuel s = .inr s' → EndOf s.current s'.current := by
  induction fuel generalizing s with
  | zero =>
    refine ⟨(fun plan h => by cases h), ?_⟩
    intro s' h
    rw [← Sum.inr.inj h]
    exact .refl _
  | succ fuel ih =>
    have hdispatch := resolveDispatchWrapperTrustPlan_endOf base s.current
      (maxDepth - s.wrapperChain.length)
    rw [trustPlanLoop]
    dsimp only
    split
    · -- the dispatch plan is blocked
      refine ⟨?_, (fun s' h => by cases h)⟩
      intro plan h
      rw [← Sum.inl.inj h]
      exact hdispatch
    split
    · split
      · refine ⟨(fun plan h => by cases h), ?_⟩
        intro s' h
        rw [← Sum.inr.inj h]
        exact hdispatch
      · exact ⟨fun plan h => hdispatch.trans (ih.1 plan h), fun s' h => hdispatch.trans (ih.2 s' h)⟩
    split
    · refine ⟨?_, (fun s' h => by cases h)⟩
      intro plan h
      rw [← Sum.inl.inj h]
      exact .refl _
    · rename_i wrapper unwrapped hunwrap
      have hend := unwrapKnownShellMultiplexerInvocation_endOf hunwrap
      split
      · refine ⟨(fun plan h => by cases h), ?_⟩
        intro s' h
        rw [← Sum.inr.inj h]
        exact hend
      · exact ⟨fun plan h => hend.trans (ih.1 plan h), fun s' h => hend.trans (ih.2 s' h)⟩
    · refine ⟨(fun plan h => by cases h), ?_⟩
      intro s' h
      rw [← Sum.inr.inj h]
      exact .refl _

theorem resolveExecWrapperTrustPlan_endOf (base : Host) (argv : List Str) :
    EndOf argv (resolveExecWrapperTrustPlan base argv).argv := by
  unfold resolveExecWrapperTrustPlan resolveExecWrapperTrustPlanWithin
  have hloop := @trustPlanLoop_endOf base maxDispatchWrapperDepth maxDispatchWrapperDepth
    ⟨argv, argv, false, []⟩
  cases hresult : trustPlanLoop base maxDispatchWrapperDepth maxDispatchWrapperDepth
    ⟨argv, argv, false, []⟩ with
  | inl plan => exact hloop.1 plan hresult
  | inr s =>
    have hend := hloop.2 s hresult
    dsimp only
    split
    · split
      · exact hend
      · exact hend
      · split <;> exact hend
    · exact hend

/-! ## The plan -/

theorem filter_isWord_eq_self :
    argv.filter isWord = argv ↔ ∀ word ∈ argv, isWord word = true := filter_eq_self

/-- The segment of an accepted request, and its evaluation. -/
theorem analysis_of_allowed {request : SystemRunRequest}
    (h : request.AllowedByAllowlist host argv) :
    ∃ segment, analyzeArgvCommand host argv = some segment ∧
      (evaluateSegments host request.context inlineEvalLevels [segment]).satisfied = true ∧
      (request.analysis host argv).segments = [segment] ∧
      (request.analysis host argv).segmentAllowlistEntries =
        (evaluateSegments host request.context inlineEvalLevels [segment]).segmentAllowlistEntries ∧
      (request.analysis host argv).segmentSatisfiedBy =
        (evaluateSegments host request.context inlineEvalLevels [segment]).segmentSatisfiedBy := by
  have hsatisfied := h.satisfied
  unfold SystemRunRequest.analysis evaluateSystemRunAllowlist at hsatisfied ⊢
  dsimp only at hsatisfied ⊢
  cases hsegment : analyzeArgvCommand host argv with
  | none =>
    rw [hsegment] at hsatisfied
    simp at hsatisfied
  | some segment =>
    rw [hsegment] at hsatisfied
    rw [if_pos ⟨h.security, rfl⟩] at hsatisfied
    exact ⟨segment, rfl, hsatisfied, rfl, rfl, rfl⟩

/-- An inline command is never satisfied as a safe bin itself. -/
theorem evaluateInlineCommands_satisfiedBy {evaluate : List ExecCommandSegment → SegmentsEvaluation}
    {inlineCommands : List Str} {found : List ExecAllowlistEntry}
    {satisfiedBy : List (Option ExecSegmentSatisfiedBy)} {result : InlineChainAllowlistEvaluation}
    (h : evaluateInlineCommands host evaluate inlineCommands found satisfiedBy = some result) :
    result.satisfiedBy ≠ .safeBins := by
  induction inlineCommands generalizing found satisfiedBy with
  | nil =>
    rw [← some.inj h]
    dsimp only
    split <;> simp
  | cons inlineCommand rest ih =>
    rw [evaluateInlineCommands] at h
    split at h
    · exact nomatch h
    · dsimp only at h
      split_ifs at h
      exact ih h

theorem resolveInlineCommandFallback_satisfiedBy
    {evaluate : List ExecCommandSegment → SegmentsEvaluation} {inlineCommand : Str}
    {result : InlineChainAllowlistEvaluation}
    (h : resolveInlineCommandFallback host evaluate inlineCommand = some result) :
    result.satisfiedBy ≠ .safeBins := by
  unfold resolveInlineCommandFallback at h
  split at h
  · exact nomatch h
  split at h
  · exact nomatch h
  split_ifs at h
  exact evaluateInlineCommands_satisfiedBy h

/-- What the evaluation of one satisfied segment records. -/
structure SegmentSatisfied (host : AllowlistHost) (context : ExecAllowlistContext)
    (segment : ExecCommandSegment) (evaluation : SegmentsEvaluation) : Prop where
  notBlocked : segment.resolution.bind (·.policyBlocked) ≠ some true
  entries : evaluation.segmentAllowlistEntries =
    [(resolveSegmentAllowlistMatch host context segment).found]
  safeBins : evaluation.segmentSatisfiedBy = [some .safeBins] →
    isSafeBinUsage host context (effectiveArgvOf segment)
      (segment.resolution.map (·.execution)) = true

theorem evaluateSegmentsLoop_single {fallback : Str → Option InlineChainAllowlistEvaluation}
    (hfallback : ∀ inlineCommand result, fallback inlineCommand = some result →
      result.satisfiedBy ≠ .safeBins)
    (h : (evaluateSegmentsLoop host context fallback [segment] ⟨false, [], [], []⟩).satisfied =
      true) :
    SegmentSatisfied host context segment
      (evaluateSegmentsLoop host context fallback [segment] ⟨false, [], [], []⟩) := by
  rw [evaluateSegmentsLoop] at h ⊢
  by_cases hblocked : segment.resolution.bind (·.policyBlocked) = some true
  · rw [if_pos hblocked] at h
    exact absurd h Bool.false_ne_true
  rw [if_neg hblocked] at h ⊢
  dsimp only at h ⊢
  generalize hsatisfiedBy :
    resolveSegmentSatisfaction host context segment _ _ _ _ = satisfiedBy at h ⊢
  split at h
  · rename_i result hresult
    refine ⟨hblocked, rfl, ?_⟩
    intro hsafe
    have hby : result.satisfiedBy = .safeBins := by simpa [evaluateSegmentsLoop] using hsafe
    split_ifs at hresult
    obtain ⟨inlineCommand, -, hcommand⟩ := Option.bind_eq_some_iff.mp hresult
    exact absurd hby (hfallback inlineCommand result hcommand)
  · cases satisfiedBy with
    | none => exact absurd h Bool.false_ne_true
    | some satisfied =>
      refine ⟨hblocked, rfl, ?_⟩
      intro hsafe
      have hby : satisfied = .safeBins := by simpa [evaluateSegmentsLoop] using hsafe
      rw [hby] at hsatisfiedBy
      unfold resolveSegmentSatisfaction at hsatisfiedBy
      split_ifs at hsatisfiedBy with hfound husage hskill
      · exact nomatch hsatisfiedBy
      · exact husage
      · exact nomatch hsatisfiedBy

theorem evaluateSegments_single
    {levels : ℕ} (h : (evaluateSegments host context levels [segment]).satisfied = true) :
    SegmentSatisfied host context segment (evaluateSegments host context levels [segment]) := by
  cases levels with
  | zero => exact evaluateSegmentsLoop_single (by simp) h
  | succ levels =>
    exact evaluateSegmentsLoop_single
      (fun _ _ hresult => resolveInlineCommandFallback_satisfiedBy hresult) h

/-! ## What is checked -/

theorem matchAllowlistLoop_boundArgs {resolution : ExecutableResolution} {resolvedPath : Str}
    {argv : Option (List Str)} {entries : List ExecAllowlistEntry}
    {pathOnlyMatch : Option ExecAllowlistEntry}
    (hpath : ∀ other, pathOnlyMatch = some other → other.boundArgs = none)
    (hbound : entry.boundArgs = some argPattern)
    (h : matchAllowlistLoop host resolution resolvedPath argv entries pathOnlyMatch = some entry) :
    entryMatchesExecutable host resolution resolvedPath entry = true ∧
      ∃ words, argv = some words ∧ matchArgPattern host argPattern words = true := by
  induction entries generalizing pathOnlyMatch with
  | nil =>
    rw [hpath entry h] at hbound
    exact nomatch hbound
  | cons first entries ih =>
    rw [matchAllowlistLoop] at h
    by_cases hfirst : entryMatchesExecutable host resolution resolvedPath first = true
    · rw [if_pos hfirst] at h
      cases hargs : first.boundArgs with
      | none =>
        rw [hargs] at h
        refine ih ?_ h
        intro other hother
        cases pathOnlyMatch with
        | none =>
          rw [← some.inj hother]
          exact hargs
        | some earlier =>
          rw [← some.inj hother]
          exact hpath earlier rfl
      | some pattern =>
        rw [hargs] at h
        dsimp only at h
        by_cases hmatches : argv.any (matchArgPattern host pattern) = true
        · rw [if_pos hmatches] at h
          rw [← some.inj h] at hbound ⊢
          obtain ⟨words, hwords, htest⟩ := (Option.any_eq_true _ _).mp hmatches
          rw [hargs] at hbound
          rw [← some.inj hbound]
          exact ⟨hfirst, words, hwords, htest⟩
        · rw [if_neg hmatches] at h
          exact ih hpath h
    · rw [if_neg hfirst] at h
      exact ih hpath h

/-- An entry with a pattern of arguments is found only for arguments that match it. -/
theorem matchAllowlist_boundArgs {entries : List ExecAllowlistEntry}
    {resolution : Option ExecutableResolution} {argv : Option (List Str)}
    (hbound : entry.boundArgs = some argPattern)
    (h : matchAllowlist host entries resolution argv = some entry) :
    ∃ found path words, resolution = some found ∧ found.resolvedPath = some path ∧
      entryMatchesExecutable host found path entry = true ∧ argv = some words ∧
      matchArgPattern host argPattern words = true := by
  have hloop : ∀ found, resolution = some found →
      (found.resolvedPath.bind nonEmpty?).bind
        (fun path => matchAllowlistLoop host found path argv entries none) = some entry →
      ∃ found path words, resolution = some found ∧ found.resolvedPath = some path ∧
        entryMatchesExecutable host found path entry = true ∧ argv = some words ∧
        matchArgPattern host argPattern words = true := by
    intro found hfound hmatch
    cases hpath : found.resolvedPath.bind nonEmpty? with
    | none =>
      rw [hpath] at hmatch
      cases hmatch
    | some path =>
      rw [hpath, Option.bind_some] at hmatch
      obtain ⟨hexecutable, words, hwords, htest⟩ :=
        matchAllowlistLoop_boundArgs (by simp) hbound hmatch
      obtain ⟨resolvedPath, hresolved, hnonEmpty⟩ := Option.bind_eq_some_iff.mp hpath
      have hsame : resolvedPath = path := by
        unfold nonEmpty? at hnonEmpty
        split_ifs at hnonEmpty
        exact some.inj hnonEmpty
      rw [hsame] at hresolved
      exact ⟨found, path, words, hfound, hresolved, hexecutable, hwords, htest⟩
  unfold matchAllowlist at h
  cases hresolution : resolution with
  | none =>
    rw [hresolution] at h
    cases h
  | some found =>
    rw [← hresolution]
    rw [hresolution] at h
    cases hwild : entries.find? isBareWildcard with
    | none =>
      rw [hwild] at h
      dsimp only at h
      refine hloop found hresolution (.trans ?_ h)
      cases found.resolvedPath.bind nonEmpty? <;> rfl
    | some wild =>
      rw [hwild] at h
      have hbare := find?_some hwild
      rw [some.inj h, isBareWildcard, hbound] at hbare
      simp at hbare

theorem matchExecutableAllowlistForSegment_found {allowlist : List ExecAllowlistEntry}
    {params : ExecutableMatchParams}
    (h : matchExecutableAllowlistForSegment host allowlist params = some entry) :
    matchAllowlist host allowlist params.candidateResolution (some params.effectiveArgv) =
      some entry := by
  unfold matchExecutableAllowlistForSegment at h
  dsimp only at h
  split at h
  · exact nomatch h
  split_ifs at h
  exact h

theorem resolveExecutableMatch_boundArgs {inlineCommand : Option Str}
    (hbound : entry.boundArgs = some argPattern)
    (h : resolveExecutableMatch host context segment inlineCommand = some entry) :
    matchArgPattern host argPattern (effectiveArgvOf segment) = true := by
  have hfound := matchExecutableAllowlistForSegment_found h
  obtain ⟨-, -, words, -, -, -, hwords, htest⟩ := matchAllowlist_boundArgs hbound hfound
  rw [← some.inj hwords] at htest
  exact htest

/-- The arguments of a script are the last words of the segment, or of the request. -/
theorem resolveScriptArgv_suffix
    {inlineCommand : Option Str} (hsource : segment.sourceArgv = some argv)
    (heffective : effectiveArgvOf segment <:+ argv) {script : Str} {scriptArgs : List Str}
    (h : resolveScriptArgv host context segment inlineCommand = some (script :: scriptArgs)) :
    scriptArgs <:+ argv := by
  unfold resolveScriptArgv at h
  dsimp only at h
  generalize hfile : resolvePowerShellFileScriptArgv host _ _ = file at h
  cases file with
  | some words =>
    have hwords : words = script :: scriptArgs := some.inj h
    rw [hwords] at hfile
    unfold resolvePowerShellFileScriptArgv at hfile
    dsimp only at hfile
    have hsegment : resolveSegmentSourceArgv host
        { segment with argv := effectiveArgvOf segment } <:+ argv := by
      unfold resolveSegmentSourceArgv
      dsimp only
      rw [hsource]
      cases argv with
      | nil => exact heffective
      | cons first rest =>
        dsimp only
        split
        · exact heffective
        split
        · exact suffix_rfl
        split
        · exact (resolveDispatchWrapperTrustPlan_endOf _ _ _).1
        · exact heffective
    split at hfile
    · exact nomatch hfile
    split at hfile
    · exact nomatch hfile
    split at hfile
    · split at hfile
      · exact nomatch hfile
      split at hfile
      · exact nomatch hfile
      · have hargs := (List.cons.inj (some.inj hfile)).2
        rw [← hargs]
        exact (drop_suffix _ _).trans hsegment
    · exact nomatch hfile
  | none =>
    dsimp only [Option.orElse] at h
    split_ifs at h
    obtain ⟨path, -, hpath⟩ := Option.map_eq_some_iff.mp h
    unfold resolveShellWrapperScriptArgv at hpath
    dsimp only at hpath
    split at hpath
    · have hargs := (List.cons.inj hpath).2
      rw [← hargs]
      exact nil_suffix
    · have hargs := (List.cons.inj hpath).2
      rw [← hargs]
      exact (drop_suffix _ _).trans heffective

/-- The pattern of the entry found for a segment was checked. -/
theorem patternChecked_of_found (hsource : segment.sourceArgv = some argv)
    (heffective : effectiveArgvOf segment <:+ argv) (hbound : entry.boundArgs = some argPattern)
    (h : (resolveSegmentAllowlistMatch host context segment).found = some entry) :
    PatternChecked host argv (effectiveArgvOf segment) entry argPattern := by
  unfold resolveSegmentAllowlistMatch at h
  dsimp only at h
  generalize hinline : extractBindableShellWrapperInlineCommand _ _ none = inlineCommand at h
  cases hexecutable : resolveExecutableMatch host context segment inlineCommand with
  | some found =>
    rw [hexecutable] at h
    have hfound : found = entry := some.inj h
    rw [hfound] at hexecutable
    exact .inl (resolveExecutableMatch_boundArgs hbound hexecutable)
  | none =>
    rw [hexecutable] at h
    simp only [orElse_eq_or, none_or, or_eq_some_iff] at h
    rcases h with hpositional | ⟨-, hscript⟩
    · split_ifs at hpositional
      obtain ⟨path, -, hpath⟩ := Option.bind_eq_some_iff.mp hpositional
      obtain ⟨-, -, words, -, -, -, hwords, -⟩ := matchAllowlist_boundArgs hbound hpath
      exact nomatch hwords
    · split at hscript
      · rename_i script scriptArgs hscriptArgv
        split_ifs at hscript
        obtain ⟨found, path, words, hfound, hpath, hmatches, hwords, htest⟩ :=
          matchAllowlist_boundArgs hbound hscript
        have hsuffix := resolveScriptArgv_suffix hsource heffective hscriptArgv
        rw [← some.inj hfound] at hpath hmatches
        rw [← some.inj hpath] at hmatches
        rw [← some.inj hwords] at htest
        exact .inr ⟨script, scriptArgs, hsuffix, hmatches, htest⟩
      · exact nomatch hscript

end OpenClaw
