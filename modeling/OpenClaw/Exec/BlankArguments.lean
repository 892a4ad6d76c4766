import OpenClaw.Exec.ArgumentsKept

/-!
# Requests with blank words

An allowlisted request is run as it was made exactly when none of its words is blank. Blank words
are gone from what is run, so a request with one behind its command loses an argument; one among
the words of a wrapper is passed over where the wrapper itself would read it.
-/

namespace OpenClaw

open Lts List Option

variable {host : AllowlistHost}

/-! ## The segment of a request -/

/-- The segment that the words of a request make. -/
structure SegmentOf (host : AllowlistHost) (argv : List Str) (segment : ExecCommandSegment) :
    Prop where
  words : segment.argv = argv.filter isWord
  ne_nil : segment.argv ≠ []
  source : segment.sourceArgv = some argv
  resolution : segment.resolution = resolveCommandResolutionFromArgv host.toExecHost segment.argv

variable {argv : List Str} {segment : ExecCommandSegment} {request : SystemRunRequest}

theorem segmentOf_analyze
    (h : analyzeArgvCommand host argv = some segment) : SegmentOf host argv segment := by
  unfold analyzeArgvCommand at h
  dsimp only at h
  split_ifs at h with hwords
  rw [← some.inj h]
  exact ⟨rfl, hwords, rfl, rfl⟩

section

variable (hsegment : SegmentOf host argv segment)
  (hopen : segment.resolution.bind (·.policyBlocked) ≠ some true)
include hsegment hopen

/-- The words behind the wrappers of a segment that is not blocked: they end its chain, unless
the first word that the plan reaches is blank. -/
theorem effectiveArgvOf_cases :
    (effectiveArgvOf segment = segment.argv ∧ ∃ words, EndOf segment.argv words ∧
      (words.head?.map trim).bind nonEmpty? = none) ∨
      ∃ chain rawExecutable, effectiveArgvOf segment ≠ [] ∧
        Run (StripsTransparently host.toHost) segment.argv chain (effectiveArgvOf segment) ∧
        stripWrapper host.toHost (effectiveArgvOf segment) = .notWrapper ∧
        (((effectiveArgvOf segment).head?.map trim).bind nonEmpty?) = some rawExecutable ∧
        segment.resolution.map (·.execution) =
          some (buildExecutableResolution host.toExecHost rawExecutable) := by
  have hresolution := hsegment.resolution
  unfold resolveCommandResolutionFromArgv at hresolution
  dsimp only at hresolution
  have hcases : (resolveExecWrapperTrustPlan host.toHost segment.argv).policyBlocked = true ∨
      Run (StripsTransparently host.toHost) segment.argv
        (resolveExecWrapperTrustPlan host.toHost segment.argv).wrapperChain
        (resolveExecWrapperTrustPlan host.toHost segment.argv).argv ∧
      stripWrapper host.toHost (resolveExecWrapperTrustPlan host.toHost segment.argv).argv =
        .notWrapper := by
    rcases resolveExecWrapperTrustPlanWithin_cases host.toHost segment.argv
      maxDispatchWrapperDepth with ⟨hblocked, -⟩ | ⟨hrun, -, hend, -⟩
    · exact .inl hblocked
    · exact .inr ⟨hrun, hend⟩
  have hendOf := resolveExecWrapperTrustPlan_endOf host.toHost segment.argv
  generalize resolveExecWrapperTrustPlan host.toHost segment.argv = plan
    at hresolution hcases hendOf
  cases hraw : (plan.argv.head?.map trim).bind nonEmpty? with
  | none =>
    rw [hraw] at hresolution
    refine .inl ⟨?_, plan.argv, hendOf, hraw⟩
    rw [effectiveArgvOf, hresolution]
    rfl
  | some rawExecutable =>
    rw [hraw] at hresolution
    rcases hcases with hblocked | ⟨hrun, hend⟩
    · rw [hresolution] at hopen
      change some plan.policyBlocked ≠ some true at hopen
      exact absurd (congrArg some hblocked) hopen
    · have hne : plan.argv ≠ [] := ne_nil_of_run hrun hsegment.ne_nil
      have heffective : effectiveArgvOf segment = plan.argv := by
        rw [effectiveArgvOf, hresolution]
        show ((some plan.argv).filter (· ≠ [])).getD segment.argv = plan.argv
        rw [filter_some, if_pos (decide_eq_true hne)]
        rfl
      rw [heffective]
      refine .inr ⟨plan.wrapperChain, rawExecutable, hne, hrun, hend, hraw, ?_⟩
      rw [hresolution]
      rfl

theorem effectiveArgvOf_suffix :
    effectiveArgvOf segment <:+ segment.argv ∧ effectiveArgvOf segment ≠ [] := by
  rcases effectiveArgvOf_cases hsegment hopen with ⟨hself, -⟩ | ⟨chain, -, hne, hrun, -⟩
  · rw [hself]
    exact ⟨suffix_rfl, hsegment.ne_nil⟩
  · exact ⟨suffix_of_run hrun, hne⟩

end

/-! ## What is run -/

/-- An allowed request runs the words behind the wrappers, with the executable replaced. -/
theorem run_of_allowed (h : request.AllowedByAllowlist host argv) :
    ∃ segment, SegmentOf host argv segment ∧
      SegmentSatisfied host request.context segment
        (evaluateSegments host request.context inlineEvalLevels [segment]) ∧
      (request.analysis host argv).segmentAllowlistEntries =
        (evaluateSegments host request.context inlineEvalLevels [segment]).segmentAllowlistEntries ∧
      (request.analysis host argv).segmentSatisfiedBy =
        (evaluateSegments host request.context inlineEvalLevels [segment]).segmentSatisfiedBy ∧
      ∃ executed, resolvePlannedSegmentArgv segment = some executed ∧ executed ≠ [] ∧
        request.run host argv = .ok executed := by
  obtain ⟨segment, hanalyze, hsatisfied, hsegments, hentries, hby⟩ := analysis_of_allowed h
  have hsegment := segmentOf_analyze hanalyze
  have hone := evaluateSegments_single hsatisfied
  refine ⟨segment, hsegment, hone, hentries, hby, ?_⟩
  have hne := (effectiveArgvOf_suffix hsegment hone.notBlocked).2
  obtain ⟨executed, hplanned, hexecuted⟩ : ∃ executed,
      resolvePlannedSegmentArgv segment = some executed ∧ executed ≠ [] := by
    unfold resolvePlannedSegmentArgv
    rw [if_neg hone.notBlocked]
    dsimp only
    cases heffective : effectiveArgvOf segment with
    | nil => exact absurd heffective hne
    | cons first args =>
      unfold effectiveArgvOf at heffective
      rw [heffective]
      exact ⟨_, rfl, by simp⟩
  refine ⟨executed, hplanned, hexecuted, ?_⟩
  have hok : (request.policy host argv).analysisOk = true := by
    have hpolicy : (request.policy host argv).analysisOk =
        (request.analysis host argv).analysisOk := by
      unfold SystemRunRequest.policy evaluateSystemRunPolicy
      dsimp only
      split_ifs <;> rfl
    rw [hpolicy]
    show (analyzeArgvCommand host argv).isSome = true
    rw [hanalyze]
    rfl
  have hallowed : (request.policy host argv).allowlistSatisfied = true := by
    have hpolicy : (request.policy host argv).allowlistSatisfied =
        (request.analysis host argv).allowlistSatisfied := by
      unfold SystemRunRequest.policy evaluateSystemRunPolicy
      dsimp only
      split_ifs <;> rfl
    rw [hpolicy]
    exact h.satisfied
  have hplan : resolvePlannedAllowlistArgv request.security (request.policy host argv)
      (request.analysis host argv).segments = some (some executed) := by
    unfold resolvePlannedAllowlistArgv
    rw [if_neg (by simp [h.security, h.notAsked, hok, hallowed]), hsegments]
    dsimp only
    rw [hplanned, filter_some, if_pos (decide_eq_true hexecuted)]
  unfold SystemRunRequest.run
  dsimp only
  rw [h.allowed]
  dsimp only
  rw [hplan]
  rfl

/-- The arguments that are run are those behind the wrappers. -/
theorem tail_of_planned {executed : List Str}
    (h : resolvePlannedSegmentArgv segment = some executed) :
    executed.tail = (effectiveArgvOf segment).tail := by
  unfold resolvePlannedSegmentArgv at h
  split at h
  · exact nomatch h
  dsimp only at h
  unfold effectiveArgvOf
  split at h
  · exact nomatch h
  · rename_i first args heffective
    rw [heffective, ← some.inj h]
    rfl

theorem planned_eq {command rawExecutable : Str} {args : List Str}
    (hopen : segment.resolution.bind (·.policyBlocked) ≠ some true)
    (heffective : effectiveArgvOf segment = command :: args) (hraw : rawExecutable = trim command)
    (hexecution : segment.resolution.map (·.execution) =
      some (buildExecutableResolution host.toExecHost rawExecutable)) :
    resolvePlannedSegmentArgv segment = some (resolvedExecutable host command :: args) := by
  unfold resolvePlannedSegmentArgv
  rw [if_neg hopen]
  unfold effectiveArgvOf at heffective
  dsimp only
  rw [heffective, hexecution, hraw]
  rfl

/-! ## Exactly without blank words -/

/-- Where the arguments are kept, no word of the request is blank. -/
theorem words_of_keepsArguments {executed : List Str}
    (h : request.AllowedByAllowlist host argv) (hrun : request.run host argv = .ok executed)
    (hkept : KeepsArguments host request argv executed) : ∀ word ∈ argv, isWord word = true := by
  obtain ⟨segment, hsegment, hone, -, -, planned, hplanned, -, hrun'⟩ := run_of_allowed h
  have hsame : planned = executed := Except.ok.inj (hrun'.symm.trans hrun)
  obtain ⟨chain, command, args, hchain, -, hcommand, hexecuted, -⟩ := hkept.kept
  obtain ⟨words, hwords, hall⟩ := words_of_run hchain
  have hargs : args = (effectiveArgvOf segment).tail := by
    rw [← tail_of_planned hplanned, hsame, hexecuted]
    rfl
  have hsuffix := (effectiveArgvOf_suffix hsegment hone.notBlocked).1
  intro word hword
  rw [hwords] at hword
  rcases mem_append.mp hword with hword | hword
  · exact hall word hword
  rcases mem_cons.mp hword with rfl | hword
  · exact hcommand
  · rw [hargs] at hword
    have hmem := hsuffix.subset (mem_of_mem_tail hword)
    rw [hsegment.words] at hmem
    exact (mem_filter.mp hmem).2

/-- Without blank words, the arguments are kept. -/
theorem keepsArguments_of_words
    (h : request.AllowedByAllowlist host argv) (hwords : ∀ word ∈ argv, isWord word = true) :
    ∃ executed, request.run host argv = .ok executed ∧
      KeepsArguments host request argv executed := by
  obtain ⟨segment, hsegment, hone, hentries, hby, executed, hplanned, -, hrun⟩ := run_of_allowed h
  have hsame : segment.argv = argv := by
    rw [hsegment.words]
    exact filter_isWord_eq_self.mpr hwords
  obtain ⟨hsuffix, hne⟩ := effectiveArgvOf_suffix hsegment hone.notBlocked
  rw [hsame] at hsuffix
  obtain ⟨command, args, heffective⟩ := exists_cons_of_ne_nil hne
  have hcommand : isWord command = true := by
    apply hwords
    apply hsuffix.subset
    rw [heffective]
    exact mem_cons_self ..
  have hnonblank : trim command ≠ [] := of_decide_eq_true hcommand
  refine ⟨executed, hrun, ?_⟩
  -- the head of the words is not blank, so something was resolved
  rcases effectiveArgvOf_cases hsegment hone.notBlocked with
    ⟨-, reached, hreached, hblank⟩ | ⟨chain, rawExecutable, -, hchain, hend, hraw, hexecution⟩
  · obtain ⟨first, others, hfirst⟩ := exists_cons_of_ne_nil (hreached.2 hsegment.ne_nil)
    have hmem : first ∈ argv := by
      rw [← hsame]
      apply hreached.1.subset
      rw [hfirst]
      exact mem_cons_self ..
    have hword : trim first ≠ [] := of_decide_eq_true (hwords first hmem)
    rw [hfirst] at hblank
    change nonEmpty? (trim first) = none at hblank
    rw [nonEmpty?, if_neg hword] at hblank
    exact nomatch hblank
  · rw [heffective] at hchain hend hraw
    have hrawExecutable : rawExecutable = trim command := by
      have hnonEmpty : nonEmpty? (trim command) = some rawExecutable := hraw
      rw [nonEmpty?, if_neg hnonblank] at hnonEmpty
      exact (some.inj hnonEmpty).symm
    have hexecuted : executed = resolvedExecutable host command :: args := by
      have hplan := planned_eq hone.notBlocked heffective hrawExecutable hexecution
      exact some.inj (hplanned.symm.trans hplan)
    rw [hsame] at hchain
    refine ⟨chain, command, args, run_plainly hchain hwords, hend, hcommand, hexecuted, ?_, ?_⟩
    · intro entry argPattern hentry hbound
      rw [hentries, hone.entries] at hentry
      have hfound := (List.cons.inj hentry).1
      have hchecked := patternChecked_of_found hsegment.source hsuffix hbound hfound
      rwa [heffective] at hchecked
    · intro hsafe
      rw [hby] at hsafe
      have husage := hone.safeBins hsafe
      unfold isSafeBinUsage at husage
      rw [hexecution, heffective] at husage
      dsimp only at husage
      split at husage
      · exact absurd husage Bool.false_ne_true
      split at husage
      · exact absurd husage Bool.false_ne_true
      split at husage
      · exact absurd husage Bool.false_ne_true
      split at husage
      · exact absurd husage Bool.false_ne_true
      split at husage
      · exact absurd husage Bool.false_ne_true
      · rename_i profile hprofile
        exact ⟨_, profile, hprofile, husage⟩

/-- An allowed request is run with its arguments exactly when none of its words is blank. -/
theorem keepsArguments_iff {request : SystemRunRequest} {argv : List Str}
    (h : request.AllowedByAllowlist host argv) : (∃ executed, request.run host argv = .ok executed ∧
      KeepsArguments host request argv executed) ↔ ∀ word ∈ argv, isWord word = true := by
  refine ⟨?_, keepsArguments_of_words h⟩
  rintro ⟨executed, hrun, hkept⟩
  exact words_of_keepsArguments h hrun hkept

/-! ## A request for `grep` -/

/-- A host with its programs in `/usr/bin`. -/
def usrBinHost : AllowlistHost where
  toHost := .asciiLinux
  resolveExecutablePath := fun executable => some ("/usr/bin/".toList ++ executable)
  realpath := some
  expandHomePrefix := id
  resolvePath := fun base path => base ++ '/' :: path
  processCwd := "/home"
  regexTest := fun _ => none
  isTrustedSafeBinPath := fun path => startsWith path "/usr/bin/"

/-- A request on a host that allows every program by a wildcard and asks about nothing. -/
def wildcardRequest : SystemRunRequest where
  context :=
    { allowlist := [⟨none, "*", none, none, none, none, none, none⟩]
      safeBins := []
      safeBinProfiles := fun _ => none
      cwd := none
      skillBins := []
      autoAllowSkills := false }
  security := .allowlist
  ask := .off
  durableApprovalSatisfied := false
  approvalDecision := none
  approved := false

theorem keepsArguments_iff_nice_grep :
    ∃ executed, wildcardRequest.run usrBinHost ["nice", "grep", "-e", "x", "notes.txt"] =
        .ok executed ∧
      KeepsArguments usrBinHost wildcardRequest ["nice", "grep", "-e", "x", "notes.txt"] executed :=
  (keepsArguments_iff ⟨rfl, by decide +kernel, by decide +kernel, by decide +kernel⟩).mpr
    (by decide)

/-- The empty pattern of `grep -e '' notes.txt` is not run: `notes.txt` becomes the pattern. -/
theorem not_keepsArguments_grep :
    wildcardRequest.AllowedByAllowlist usrBinHost ["grep", "-e", "", "notes.txt"] ∧
      wildcardRequest.run usrBinHost ["grep", "-e", "", "notes.txt"] =
        .ok ["/usr/bin/grep", "-e", "notes.txt"] ∧
      ¬ KeepsArguments usrBinHost wildcardRequest ["grep", "-e", "", "notes.txt"]
        ["/usr/bin/grep", "-e", "notes.txt"] := by
  have hallowed : wildcardRequest.AllowedByAllowlist usrBinHost ["grep", "-e", "", "notes.txt"] :=
    ⟨rfl, by decide +kernel, by decide +kernel, by decide +kernel⟩
  have hrun : wildcardRequest.run usrBinHost ["grep", "-e", "", "notes.txt"] =
      .ok ["/usr/bin/grep", "-e", "notes.txt"] := by rfl
  refine ⟨hallowed, hrun, ?_⟩
  intro hkept
  have hword := words_of_keepsArguments hallowed hrun hkept [] (by simp)
  exact nomatch hword

end OpenClaw
