import OpenClaw.Exec.ShellWrapper
import OpenClaw.Lib.Run

/-!
# The wrapper trust plan

`exec-wrapper-trust-plan.ts` strips dispatch wrappers and shell multiplexers off a command
before the executable that remains is trusted. The plan is compared here with the chain of
wrappers itself: a labelled step takes one wrapper off, a run of such steps is a chain, and
a plan that is not blocked is the end of the whole chain.
-/

namespace OpenClaw

open Lts List

/-! ## The plan -/

structure ExecWrapperTrustPlan where
  argv : List Str
  policyArgv : List Str
  wrapperChain : List Str
  policyBlocked : Bool
  blockedWrapper : Option Str
  shellWrapperExecutable : Bool
  shellInlineCommand : Option Str
deriving DecidableEq

def blockedExecWrapperTrustPlan (argv policyArgv wrapperChain : List Str)
    (blockedWrapper : Str) : ExecWrapperTrustPlan :=
  ⟨argv, policyArgv, wrapperChain, true, some blockedWrapper, false, none⟩

variable (host : Host)

variable (argv : List Str)

def finalizeExecWrapperTrustPlan (argv policyArgv wrapperChain : List Str) : ExecWrapperTrustPlan :=
  let shellWrapperExecutable : Bool :=
    token0 argv ≠ [] ∧ isShellWrapperExecutable host (token0 argv)
  { argv, policyArgv, wrapperChain, policyBlocked := false, blockedWrapper := none,
    shellWrapperExecutable,
    shellInlineCommand :=
      if shellWrapperExecutable then extractBindableShellWrapperInlineCommand host argv none
      else none }

/-- The variables of the loop of `resolveExecWrapperTrustPlan`. -/
structure TrustPlanState where
  current : List Str
  policyArgv : List Str
  sawShellMultiplexer : Bool
  wrapperChain : List Str
deriving DecidableEq

/-- The loop with the iterations that are left: a blocked plan, or the state it ends in. -/
def trustPlanLoop (host : Host) (maxDepth : ℕ) :
    ℕ → TrustPlanState → ExecWrapperTrustPlan ⊕ TrustPlanState
  | 0, s => .inr s
  | fuel + 1, s =>
    let dispatchPlan :=
      resolveDispatchWrapperTrustPlan host s.current (maxDepth - s.wrapperChain.length)
    if dispatchPlan.policyBlocked then
      .inl (blockedExecWrapperTrustPlan dispatchPlan.argv dispatchPlan.argv s.wrapperChain
        (dispatchPlan.blockedWrapper.getD (s.current.headD "unknown")))
    else if dispatchPlan.wrappers ≠ [] then
      let s' := { s with
        current := dispatchPlan.argv
        policyArgv := if s.sawShellMultiplexer then s.policyArgv else dispatchPlan.argv
        wrapperChain := s.wrapperChain ++ dispatchPlan.wrappers }
      if s'.wrapperChain.length ≥ maxDepth then .inr s' else trustPlanLoop host maxDepth fuel s'
    else
      match unwrapKnownShellMultiplexerInvocation host s.current with
      | .blocked wrapper =>
        .inl (blockedExecWrapperTrustPlan s.current s.policyArgv s.wrapperChain wrapper)
      | .unwrapped wrapper unwrapped =>
        let s' : TrustPlanState :=
          { current := unwrapped
            policyArgv := if s.sawShellMultiplexer then s.policyArgv else s.current
            sawShellMultiplexer := true
            wrapperChain := s.wrapperChain ++ [wrapper] }
        if s'.wrapperChain.length ≥ maxDepth then .inr s'
        else trustPlanLoop host maxDepth fuel s'
      | .notWrapper => .inr s

/-- `resolveExecWrapperTrustPlan` with its second parameter. -/
def resolveExecWrapperTrustPlanWithin (maxDepth : ℕ) : ExecWrapperTrustPlan :=
  match trustPlanLoop host maxDepth maxDepth ⟨argv, argv, false, []⟩ with
  | .inl plan => plan
  | .inr s =>
    if s.wrapperChain.length ≥ maxDepth then
      match unwrapKnownDispatchWrapperInvocation host s.current with
      | .blocked wrapper | .unwrapped wrapper _ =>
        blockedExecWrapperTrustPlan s.current s.policyArgv s.wrapperChain wrapper
      | .notWrapper =>
        match unwrapKnownShellMultiplexerInvocation host s.current with
        | .blocked wrapper | .unwrapped wrapper _ =>
          blockedExecWrapperTrustPlan s.current s.policyArgv s.wrapperChain wrapper
        | .notWrapper => finalizeExecWrapperTrustPlan host s.current s.policyArgv s.wrapperChain
    else finalizeExecWrapperTrustPlan host s.current s.policyArgv s.wrapperChain

def resolveExecWrapperTrustPlan : ExecWrapperTrustPlan :=
  resolveExecWrapperTrustPlanWithin host argv maxDispatchWrapperDepth

example : resolveExecWrapperTrustPlan .asciiLinux ["nice", "-n", "5", "busybox", "sh", "-c", "ls"]
    = ⟨["sh", "-c", "ls"], ["busybox", "sh", "-c", "ls"], ["nice", "busybox"], false, none,
      true, some "ls"⟩ := by decide +kernel

/-! ## Chains of wrappers -/

/-- Whether a token names a dispatch wrapper or a shell multiplexer. -/
def isWrapperExecutable (token : Str) : Bool :=
  isDispatchWrapperExecutable host token ||
    normalizeExecutableToken host token ∈ shellMultiplexerWrapperNames

/-- The wrapper at the front of a command, of either kind. -/
def stripWrapper : WrapperUnwrapResult :=
  match unwrapKnownDispatchWrapperInvocation host argv with
  | .notWrapper => unwrapKnownShellMultiplexerInvocation host argv
  | result => result

/-- One wrapper taken off the front. -/
def Strips (wrapper : Str) (rest : List Str) : Prop :=
  stripWrapper host argv = .unwrapped wrapper rest

/-- One wrapper taken off that leaves the meaning of the inner command alone. -/
def StripsTransparently (wrapper : Str) (rest : List Str) : Prop :=
  Strips host argv wrapper rest ∧
    (unwrapKnownDispatchWrapperInvocation host argv = .notWrapper ∨
      isSemanticDispatchWrapperUsage host wrapper argv = false)

theorem strips_functional : Functional (Strips host) := by
  intro argv w rest w' rest' h h'
  exact WrapperUnwrapResult.unwrapped.inj (h.symm.trans h')

theorem normalizeExecutableToken_nil : normalizeExecutableToken host [] = [] := rfl

variable {host : Host} {argv rest chain : List Str} {wrapper : Str} {fuel maxDepth : ℕ}

theorem unwrapKnownDispatchWrapperInvocation_eq_notWrapper_iff :
    unwrapKnownDispatchWrapperInvocation host argv = .notWrapper ↔
      isDispatchWrapperExecutable host (token0 argv) = false := by
  rw [unwrapKnownDispatchWrapperInvocation, isDispatchWrapperExecutable]
  by_cases htok : token0 argv = []
  · rw [if_pos htok, htok, normalizeExecutableToken_nil]
    exact iff_of_true rfl (by decide)
  · rw [if_neg htok]
    dsimp only
    cases hspec : dispatchWrapperSpec? (normalizeExecutableToken host (token0 argv)) with
    | none => simp
    | some spec => cases hrun : spec.unwrap.bind (·.run host argv) <;> simp [hrun]

theorem unwrapKnownShellMultiplexerInvocation_eq_notWrapper_iff :
    unwrapKnownShellMultiplexerInvocation host argv = .notWrapper ↔
      normalizeExecutableToken host (token0 argv) ∉ shellMultiplexerWrapperNames := by
  rw [unwrapKnownShellMultiplexerInvocation]
  by_cases htok : token0 argv = []
  · rw [htok, normalizeExecutableToken_nil]
    exact iff_of_true (by simp) (by decide)
  · by_cases hname : normalizeExecutableToken host (token0 argv) ∈ shellMultiplexerWrapperNames
    · simp only [htok, hname, if_false, not_true, iff_false]
      split <;> simp
    · simp only [htok, hname, if_false, not_false_eq_true, if_true]

/-- Nothing is stripped exactly when the first token names no wrapper. -/
theorem stripWrapper_eq_notWrapper_iff :
    stripWrapper host argv = .notWrapper ↔ isWrapperExecutable host (token0 argv) = false := by
  rw [isWrapperExecutable, Bool.or_eq_false_iff, decide_eq_false_iff_not,
    ← unwrapKnownDispatchWrapperInvocation_eq_notWrapper_iff,
    ← unwrapKnownShellMultiplexerInvocation_eq_notWrapper_iff, stripWrapper]
  cases unwrapKnownDispatchWrapperInvocation host argv <;> simp

theorem token0_ne_nil_of_strips (h : Strips host argv wrapper rest) : token0 argv ≠ [] := by
  intro htok
  have hnot : stripWrapper host argv = .notWrapper := by
    rw [stripWrapper_eq_notWrapper_iff, htok, isWrapperExecutable,
      isDispatchWrapperExecutable, normalizeExecutableToken_nil]
    decide
  exact absurd (hnot.symm.trans h) (by simp)

theorem multiplexerAppletArgv_suffix (argv : List Str) : multiplexerAppletArgv argv <:+ argv := by
  unfold multiplexerAppletArgv
  split
  · exact suffix_rfl
  · split
    · exact suffix_cons _ _
    · exact suffix_rfl

/-- Taking a transparent wrapper off leaves an end of the command. -/
theorem StripsTransparently.suffix
    (h : StripsTransparently host argv wrapper rest) : rest <:+ argv := by
  obtain ⟨hstrip, hsem⟩ := h
  rw [Strips, stripWrapper] at hstrip
  split at hstrip
  · rw [unwrapKnownShellMultiplexerInvocation] at hstrip
    dsimp only at hstrip
    split at hstrip
    · exact nomatch hstrip
    split at hstrip
    · exact nomatch hstrip
    split_ifs at hstrip
    obtain ⟨-, rfl⟩ := WrapperUnwrapResult.unwrapped.inj hstrip
    exact (multiplexerAppletArgv_suffix _).trans (tail_suffix _)
  · rename_i hne
    exact (unwrapped_suffix_of_transparent hstrip (hsem.resolve_left hne)).1

/-! ## The plan follows the chain -/

theorem strips_of_dispatch
    (h : unwrapKnownDispatchWrapperInvocation host argv = .unwrapped wrapper rest) :
    Strips host argv wrapper rest := by
  rw [Strips, stripWrapper, h]

theorem strips_of_multiplexer
    (hdispatch : unwrapKnownDispatchWrapperInvocation host argv = .notWrapper)
    (h : unwrapKnownShellMultiplexerInvocation host argv = .unwrapped wrapper rest) :
    StripsTransparently host argv wrapper rest := by
  refine ⟨?_, .inl hdispatch⟩
  rw [Strips, stripWrapper, hdispatch]
  exact h

theorem stripWrapper_eq_notWrapper
    (hdispatch : unwrapKnownDispatchWrapperInvocation host argv = .notWrapper)
    (hmultiplexer : unwrapKnownShellMultiplexerInvocation host argv = .notWrapper) :
    stripWrapper host argv = .notWrapper := by
  rw [stripWrapper, hdispatch]
  exact hmultiplexer

/-- The dispatch loop takes transparent wrappers off until none is left or its iterations
are used up. -/
theorem dispatchWrapperLoop_run {current wrappers : List Str} {current' wrappers' : List Str}
    (h : dispatchWrapperLoop host fuel current wrappers = .inr (current', wrappers')) :
    ∃ added, wrappers' = wrappers ++ added ∧
      Run (StripsTransparently host) current added current' ∧ added.length ≤ fuel ∧
      (added.length = fuel ∨ unwrapKnownDispatchWrapperInvocation host current' = .notWrapper) := by
  induction fuel generalizing current wrappers with
  | zero =>
    obtain ⟨rfl, rfl⟩ := Prod.mk.inj (Sum.inr.inj h)
    exact ⟨[], by simp, .nil _, le_rfl, .inl rfl⟩
  | succ fuel ih =>
    rw [dispatchWrapperLoop] at h
    cases hunwrap : unwrapKnownDispatchWrapperInvocation host current with
    | blocked wrapper => simp [hunwrap] at h
    | notWrapper =>
      simp only [hunwrap, Sum.inr.injEq, Prod.mk.injEq] at h
      obtain ⟨rfl, rfl⟩ := h
      exact ⟨[], by simp, .nil _, by simp, .inr hunwrap⟩
    | unwrapped wrapper rest =>
      match rest, hunwrap with
      | [], hunwrap => exact absurd rfl (unwrapKnownDispatchWrapperInvocation_ne_nil hunwrap)
      | arg :: rest, hunwrap =>
        simp only [hunwrap] at h
        split at h
        · exact nomatch h
        rename_i hsem
        obtain ⟨added, rfl, hrun, hlen, hend⟩ := ih h
        have hstep : StripsTransparently host current wrapper (arg :: rest) :=
          ⟨strips_of_dispatch hunwrap, .inr (by simpa using hsem)⟩
        refine ⟨wrapper :: added, by simp, .cons hstep hrun, ?_, ?_⟩
        · simpa using hlen
        · simpa using hend

theorem dispatchWrapperLoop_blocked {current wrappers : List Str} {plan : DispatchWrapperTrustPlan}
    (h : dispatchWrapperLoop host fuel current wrappers = .inl plan) :
    plan.policyBlocked = true := by
  fun_induction dispatchWrapperLoop host fuel current wrappers with
  | case2 | case5 => exact Sum.inl.inj h ▸ rfl
  | case6 =>
    rename_i ih
    exact ih h
  | _ => exact nomatch h

/-- A dispatch plan that is not blocked is a chain of transparent wrappers in front of a
command that is not a dispatch wrapper. -/
theorem resolveDispatchWrapperTrustPlan_run
    (h : (resolveDispatchWrapperTrustPlan host argv maxDepth).policyBlocked = false) :
    let plan := resolveDispatchWrapperTrustPlan host argv maxDepth
    Run (StripsTransparently host) argv plan.wrappers plan.argv ∧ plan.wrappers.length ≤ maxDepth ∧
      unwrapKnownDispatchWrapperInvocation host plan.argv = .notWrapper := by
  unfold resolveDispatchWrapperTrustPlan at h ⊢
  cases hloop : dispatchWrapperLoop host maxDepth argv [] with
  | inl plan =>
    simp only [hloop] at h
    exact absurd (dispatchWrapperLoop_blocked hloop) (by simp [h])
  | inr state =>
    obtain ⟨current, wrappers⟩ := state
    obtain ⟨added, rfl, hrun, hlen, hend⟩ := dispatchWrapperLoop_run hloop
    simp only [hloop] at h ⊢
    by_cases hfull : wrappers.length ≥ maxDepth
    · cases hoverflow : unwrapKnownDispatchWrapperInvocation host current with
      | notWrapper =>
        simp only [hfull, if_true, hoverflow]
        exact ⟨hrun, hlen, trivial⟩
      | blocked wrapper => simp [hfull, hoverflow] at h
      | unwrapped wrapper rest => simp [hfull, hoverflow] at h
    · simp only [hfull, if_false]
      exact ⟨hrun, hlen, hend.resolve_left (by omega)⟩

/-- What the loop of the trust plan keeps: its chain leads from the input to the command it
has reached, and it has an iteration left for every wrapper the chain still may get. -/
structure TrustPlanState.Follows (host : Host) (argv : List Str) (maxDepth fuel : ℕ)
    (s : TrustPlanState) : Prop where
  run : Run (StripsTransparently host) argv s.wrapperChain s.current
  length_le : s.wrapperChain.length ≤ maxDepth
  fuel_le : maxDepth ≤ fuel + s.wrapperChain.length

/-- Where the loop stops: nothing is left to strip, or the chain is full. -/
theorem trustPlanLoop_follows {s s' : TrustPlanState} (hs : s.Follows host argv maxDepth fuel)
    (hroom : fuel ≠ 0 → s.wrapperChain.length < maxDepth)
    (h : trustPlanLoop host maxDepth fuel s = .inr s') : s'.Follows host argv maxDepth maxDepth ∧
      (maxDepth ≤ s'.wrapperChain.length ∨ stripWrapper host s'.current = .notWrapper) := by
  induction fuel generalizing s with
  | zero =>
    obtain rfl := Sum.inr.inj h
    exact ⟨⟨hs.run, hs.length_le, by omega⟩, .inl (by simpa using hs.fuel_le)⟩
  | succ fuel ih =>
    have hlt := hroom (by simp)
    rw [trustPlanLoop] at h
    dsimp only at h
    split at h
    · exact nomatch h
    rename_i hopen
    obtain ⟨hrun, hlen, hnot⟩ := resolveDispatchWrapperTrustPlan_run (by simpa using hopen)
    split at h
    · -- dispatch wrappers were taken off
      rename_i hwrappers
      have hpos := length_pos_of_ne_nil hwrappers
      have hs' (fuel' : ℕ) (hfuel : fuel ≤ fuel') : TrustPlanState.Follows host argv maxDepth
          fuel' { s with
            current := (resolveDispatchWrapperTrustPlan host s.current
              (maxDepth - s.wrapperChain.length)).argv
            policyArgv := if s.sawShellMultiplexer then s.policyArgv else
              (resolveDispatchWrapperTrustPlan host s.current
                (maxDepth - s.wrapperChain.length)).argv
            wrapperChain := s.wrapperChain ++ (resolveDispatchWrapperTrustPlan host s.current
              (maxDepth - s.wrapperChain.length)).wrappers } := by
        have hfuel' := hs.fuel_le
        refine ⟨hs.run.append hrun, ?_, ?_⟩ <;> rw [length_append] <;> omega
      split at h
      · rename_i hfull
        obtain rfl := Sum.inr.inj h
        exact ⟨⟨(hs' fuel le_rfl).run, (hs' fuel le_rfl).length_le, by omega⟩, .inl hfull⟩
      · rename_i hfull
        exact ih (hs' fuel le_rfl) (fun _ => not_le.mp hfull) h
    · -- the command is not a dispatch wrapper
      rename_i hwrappers
      have hnil : (resolveDispatchWrapperTrustPlan host s.current
          (maxDepth - s.wrapperChain.length)).wrappers = [] := not_not.mp hwrappers
      rw [hnil, run_nil_iff] at hrun
      rw [← hrun] at hnot
      split at h
      · exact nomatch h
      · rename_i wrapper unwrapped hunwrap
        have hfuel' := hs.fuel_le
        have hrun' := hs.run.snoc (strips_of_multiplexer hnot hunwrap)
        have hlen' : (s.wrapperChain ++ [wrapper]).length ≤ maxDepth := by
          rw [length_append, length_singleton]
          omega
        split at h
        · rename_i hfull
          obtain rfl := Sum.inr.inj h
          exact ⟨⟨hrun', hlen', by omega⟩, .inl hfull⟩
        · rename_i hfull
          refine ih ⟨hrun', hlen', ?_⟩ (fun _ => not_le.mp hfull) h
          rw [length_append, length_singleton]
          omega
      · rename_i hunwrap
        obtain rfl := Sum.inr.inj h
        exact ⟨⟨hs.run, hs.length_le, by omega⟩, .inr (stripWrapper_eq_notWrapper hnot hunwrap)⟩

theorem trustPlanLoop_blocked {s : TrustPlanState}
    {plan : ExecWrapperTrustPlan} (h : trustPlanLoop host maxDepth fuel s = .inl plan) :
    plan.policyBlocked = true ∧ plan.shellWrapperExecutable = false := by
  induction fuel generalizing s with
  | zero => exact absurd h (by simp [trustPlanLoop])
  | succ fuel ih =>
    rw [trustPlanLoop] at h
    dsimp only at h
    split at h
    · exact Sum.inl.inj h ▸ ⟨rfl, rfl⟩
    split at h
    · split at h
      · exact nomatch h
      · exact ih h
    split at h
    · exact Sum.inl.inj h ▸ ⟨rfl, rfl⟩
    · split at h
      · exact nomatch h
      · exact ih h
    · exact nomatch h

/-- A plan is blocked, or it ends the whole chain of wrappers, all of them transparent. -/
theorem resolveExecWrapperTrustPlanWithin_cases (host : Host) (argv : List Str) (maxDepth : ℕ) :
    let plan := resolveExecWrapperTrustPlanWithin host argv maxDepth
    (plan.policyBlocked = true ∧ plan.shellWrapperExecutable = false) ∨
    (Run (StripsTransparently host) argv plan.wrapperChain plan.argv ∧
      plan.wrapperChain.length ≤ maxDepth ∧ stripWrapper host plan.argv = .notWrapper ∧
      plan = finalizeExecWrapperTrustPlan host plan.argv plan.policyArgv plan.wrapperChain) := by
  unfold resolveExecWrapperTrustPlanWithin
  cases hloop : trustPlanLoop host maxDepth maxDepth ⟨argv, argv, false, []⟩ with
  | inl plan => exact .inl (trustPlanLoop_blocked hloop)
  | inr s =>
    have hstart : TrustPlanState.Follows host argv maxDepth maxDepth ⟨argv, argv, false, []⟩ :=
      ⟨.nil _, by simp, by simp⟩
    obtain ⟨hs, hend⟩ := trustPlanLoop_follows hstart
      (fun h => by simpa using Nat.pos_of_ne_zero h) hloop
    dsimp only
    by_cases hfull : s.wrapperChain.length ≥ maxDepth
    · rw [if_pos hfull]
      cases hdispatch : unwrapKnownDispatchWrapperInvocation host s.current with
      | blocked wrapper => exact .inl ⟨rfl, rfl⟩
      | unwrapped wrapper rest => exact .inl ⟨rfl, rfl⟩
      | notWrapper =>
        cases hmultiplexer : unwrapKnownShellMultiplexerInvocation host s.current with
        | blocked wrapper => exact .inl ⟨rfl, rfl⟩
        | unwrapped wrapper rest => exact .inl ⟨rfl, rfl⟩
        | notWrapper =>
          exact .inr ⟨hs.run, hs.length_le, stripWrapper_eq_notWrapper hdispatch hmultiplexer, rfl⟩
    · rw [if_neg hfull]
      exact .inr ⟨hs.run, hs.length_le, hend.resolve_left hfull, rfl⟩

/-- A chain from the input of an open plan is an initial part of the chain of the plan. -/
theorem run_of_resolveExecWrapperTrustPlan
    (hopen : (resolveExecWrapperTrustPlan host argv).policyBlocked = false)
    (hrun : Run (Strips host) argv chain rest) :
    ∃ chain', Run (StripsTransparently host) rest chain'
        (resolveExecWrapperTrustPlan host argv).argv ∧
      (chain ++ chain').length ≤ maxDispatchWrapperDepth ∧
      stripWrapper host (resolveExecWrapperTrustPlan host argv).argv = .notWrapper := by
  obtain ⟨hblocked, -⟩ | ⟨hplan, hlen, hstuck, -⟩ :=
    resolveExecWrapperTrustPlanWithin_cases host argv maxDispatchWrapperDepth
  · exact absurd (hopen.symm.trans hblocked) (by simp)
  obtain ⟨chain', hchain, hrest⟩ := hplan.continues (strips_functional host) (fun h => h.1)
    (fun h => absurd (hstuck.symm.trans h) (by simp)) hrun
  exact ⟨chain', hrest, hchain ▸ hlen, hstuck⟩

/-- No wrapper stands where a chain of as many wrappers as allowed ends. -/
theorem policyBlocked_of_wrapper_after_chain (hrun : Run (Strips host) argv chain rest)
    (hlen : maxDispatchWrapperDepth ≤ chain.length)
    (hwrapper : isWrapperExecutable host (token0 rest) = true) :
    (resolveExecWrapperTrustPlan host argv).policyBlocked = true := by
  by_contra hopen
  obtain ⟨chain', hrest, hle, hstuck⟩ :=
    run_of_resolveExecWrapperTrustPlan (by simpa using hopen) hrun
  rw [length_append] at hle
  obtain rfl : chain' = [] := length_eq_zero_iff.mp (by omega)
  rw [run_nil_iff] at hrest
  rw [← hrest, stripWrapper_eq_notWrapper_iff, hwrapper] at hstuck
  exact nomatch hstuck

/-- Whether the front of a command is a wrapper of either kind with an option that its
scanner does not know; all a multiplexer may have before its applet is `--`. -/
def usesUnknownWrapperOption (host : Host) (argv : List Str) : Bool :=
  usesUnknownDispatchOption host argv ||
    (normalizeExecutableToken host (token0 argv) ∈ shellMultiplexerWrapperNames ∧
      !isShellWrapperExecutable host (token0 (multiplexerAppletArgv argv.tail)))

/-- The names of the two kinds of wrapper are different. -/
theorem isDispatchWrapperExecutable_of_multiplexer {token : Str}
    (h : normalizeExecutableToken host token ∈ shellMultiplexerWrapperNames) :
    isDispatchWrapperExecutable host token = false := by
  rw [isDispatchWrapperExecutable]
  revert h
  generalize normalizeExecutableToken host token = name
  intro h
  simp only [shellMultiplexerWrapperNames, mem_cons, not_mem_nil, or_false] at h
  rcases h with rfl | rfl <;> decide

theorem not_stripsTransparently_of_unknownOption (h : usesUnknownWrapperOption host argv = true) :
    ¬ StripsTransparently host argv wrapper rest := by
  rintro ⟨hstrip, hsem⟩
  rw [Strips, stripWrapper] at hstrip
  rw [usesUnknownWrapperOption, Bool.or_eq_true, decide_eq_true_eq] at h
  obtain hoption | ⟨hname, happlet⟩ := h
  · obtain ⟨w, hblocked | ⟨⟨unwrapped, hunwrapped⟩, hsemantic⟩⟩ :=
      blocked_or_semantic_of_usesUnknownDispatchOption hoption
    · rw [hblocked] at hstrip
      exact nomatch hstrip
    · rw [hunwrapped] at hstrip hsem
      obtain ⟨rfl, -⟩ := WrapperUnwrapResult.unwrapped.inj hstrip
      exact absurd (hsemantic.symm.trans (hsem.resolve_left (by simp))) (by simp)
  · rw [unwrapKnownDispatchWrapperInvocation_eq_notWrapper_iff.mpr
      (isDispatchWrapperExecutable_of_multiplexer hname)] at hstrip
    rw [unwrapKnownShellMultiplexerInvocation] at hstrip
    simp only [hname, happlet, not_true, if_false, or_true, if_true] at hstrip
    split at hstrip <;> exact nomatch hstrip

/-- An unknown option anywhere in the chain names a wrapper there. -/
theorem isWrapperExecutable_of_unknownOption (h : usesUnknownWrapperOption host argv = true) :
    isWrapperExecutable host (token0 argv) = true := by
  rw [usesUnknownWrapperOption, Bool.or_eq_true, decide_eq_true_eq] at h
  rw [isWrapperExecutable, Bool.or_eq_true, decide_eq_true_eq]
  obtain hoption | ⟨hname, -⟩ := h
  · rw [usesUnknownDispatchOption, decide_eq_true_eq] at hoption
    obtain ⟨unwrap, hbind, -⟩ := Option.any_eq_true _ _ |>.mp hoption.2
    obtain ⟨spec, hspec, -⟩ := Option.bind_eq_some_iff.mp hbind
    exact .inl (by rw [isDispatchWrapperExecutable, hspec]; rfl)
  · exact .inr hname

/-- A wrapper with an unknown option is not stripped, wherever it stands in the chain. -/
theorem policyBlocked_of_unknownOption (hrun : Run (Strips host) argv chain rest)
    (hoption : usesUnknownWrapperOption host rest = true) :
    (resolveExecWrapperTrustPlan host argv).policyBlocked = true := by
  by_contra hopen
  obtain ⟨chain', hrest, -, hstuck⟩ :=
    run_of_resolveExecWrapperTrustPlan (by simpa using hopen) hrun
  cases hrest with
  | nil =>
    rw [stripWrapper_eq_notWrapper_iff, isWrapperExecutable_of_unknownOption hoption] at hstuck
    exact nomatch hstuck
  | cons hstep _ => exact not_stripsTransparently_of_unknownOption hoption hstep

/-! ## The shell behind the wrappers -/

/-- The search for a shell follows the same chain, within its depth. -/
theorem resolveShellWrapperCandidate_of_run
    (hrun : Run (Strips host) argv chain rest) (hstuck : stripWrapper host rest = .notWrapper)
    (htok : token0 rest ≠ []) {calls : ℕ} (hcalls : chain.length < calls) :
    resolveShellWrapperCandidate host (fun state _ => state) calls argv () =
      some ⟨rest, token0 rest, ()⟩ := by
  obtain ⟨calls, rfl⟩ := Nat.exists_eq_succ_of_ne_zero (Nat.ne_zero_of_lt hcalls)
  induction hrun generalizing calls with
  | nil argv =>
    rw [stripWrapper] at hstuck
    split at hstuck
    · rename_i hdispatch
      simp only [resolveShellWrapperCandidate, htok, if_false, hdispatch, hstuck]
    · contradiction
  | @cons argv next last wrapper chain hstep _ ih =>
    have hnext (remaining : ℕ) (h : chain.length < remaining) :
        resolveShellWrapperCandidate host (fun state _ => state) remaining next () =
          some ⟨last, token0 last, ()⟩ := by
      obtain ⟨remaining, rfl⟩ := Nat.exists_eq_succ_of_ne_zero (Nat.ne_zero_of_lt h)
      exact ih hstuck htok remaining h
    have hargv := token0_ne_nil_of_strips hstep
    have hlen : chain.length < calls := by simpa using hcalls
    rw [Strips, stripWrapper] at hstep
    split at hstep
    · rename_i hdispatch
      simp only [resolveShellWrapperCandidate, hargv, if_false, hdispatch, hstep]
      exact hnext calls hlen
    · simp only [resolveShellWrapperCandidate, hargv, if_false, hstep]
      exact hnext calls hlen

/-- The shell a plan reports is the one the shell wrapper resolution finds. -/
theorem shellWrapperCandidate_of_plan
    (h : (resolveExecWrapperTrustPlan host argv).shellWrapperExecutable = true) :
    let plan := resolveExecWrapperTrustPlan host argv
    shellWrapperCandidate host argv = some ⟨plan.argv, token0 plan.argv, ()⟩ ∧
      isShellWrapperExecutable host (token0 plan.argv) = true := by
  obtain ⟨-, hnoshell⟩ | ⟨hrun, hlen, hstuck, hplan⟩ :=
    resolveExecWrapperTrustPlanWithin_cases host argv maxDispatchWrapperDepth
  · exact absurd (h.symm.trans hnoshell) (by simp)
  have hshell : token0 (resolveExecWrapperTrustPlan host argv).argv ≠ [] ∧
      isShellWrapperExecutable host
        (token0 (resolveExecWrapperTrustPlan host argv).argv) = true := by
    have h' := h
    rw [resolveExecWrapperTrustPlan, hplan] at h'
    simp only [finalizeExecWrapperTrustPlan, decide_eq_true_eq] at h'
    exact h'
  exact ⟨resolveShellWrapperCandidate_of_run (hrun.mono fun hstep => hstep.1) hstuck hshell.1
    (Nat.lt_succ_of_le hlen), hshell.2⟩

/-- Wrapper resolution is fail-closed, and the shell it reports is the one that the shell
wrapper functions see. -/
theorem resolveExecWrapperTrustPlan_failClosed (host : Host) (argv : List Str) :
    ((resolveExecWrapperTrustPlan host argv).policyBlocked = false →
      (resolveExecWrapperTrustPlan host argv).argv <:+ argv ∧
      isDispatchWrapperExecutable host
        (token0 (resolveExecWrapperTrustPlan host argv).argv) = false ∧
      normalizeExecutableToken host (token0 (resolveExecWrapperTrustPlan host argv).argv) ∉
        shellMultiplexerWrapperNames ∧
      (resolveExecWrapperTrustPlan host argv).wrapperChain.length ≤ maxDispatchWrapperDepth ∧
      Run (Strips host) argv (resolveExecWrapperTrustPlan host argv).wrapperChain
        (resolveExecWrapperTrustPlan host argv).argv) ∧
    (∀ chain rest, Run (Strips host) argv chain rest →
      maxDispatchWrapperDepth ≤ chain.length → isWrapperExecutable host (token0 rest) = true →
      (resolveExecWrapperTrustPlan host argv).policyBlocked = true) ∧
    (∀ chain rest, Run (Strips host) argv chain rest → usesUnknownWrapperOption host rest = true →
      (resolveExecWrapperTrustPlan host argv).policyBlocked = true) ∧
    ((resolveExecWrapperTrustPlan host argv).shellWrapperExecutable = true →
      isShellWrapperInvocation host argv = true ∧
      ∃ spec, findShellWrapperSpec (normalizeExecutableToken host
          (token0 (resolveExecWrapperTrustPlan host argv).argv)) = some spec ∧
        extractShellWrapperInlineCommand host argv =
          extractShellWrapperPayload host (resolveExecWrapperTrustPlan host argv).argv spec) := by
  refine ⟨fun hopen => ?_, fun chain rest hrun => policyBlocked_of_wrapper_after_chain hrun,
    fun chain rest hrun => policyBlocked_of_unknownOption hrun, fun hshell => ?_⟩
  · obtain ⟨hblocked, -⟩ | ⟨hrun, hlen, hstuck, -⟩ :=
      resolveExecWrapperTrustPlanWithin_cases host argv maxDispatchWrapperDepth
    · exact absurd (hopen.symm.trans hblocked) (by simp)
    rw [stripWrapper_eq_notWrapper_iff, isWrapperExecutable, Bool.or_eq_false_iff,
      decide_eq_false_iff_not] at hstuck
    have hsuffix := hrun.relates (fun s t => t <:+ s) (fun _ => suffix_rfl)
      (fun h h' => h'.trans h) StripsTransparently.suffix
    exact ⟨hsuffix, hstuck.1, hstuck.2, hlen, hrun.mono fun hstep => hstep.1⟩
  · obtain ⟨hcandidate, hexec⟩ := shellWrapperCandidate_of_plan hshell
    obtain ⟨spec, hspec⟩ := (isShellWrapperExecutable_iff host _).mp hexec
    refine ⟨by rw [isShellWrapperInvocation, hcandidate]; exact hexec, spec, hspec, ?_⟩
    have hpayload := extractShellWrapperPayload_ne_nil host
      (resolveExecWrapperTrustPlan host argv).argv spec
    rw [extractShellWrapperInlineCommand, resolveShellWrapperSpecAndArgv, hcandidate]
    simp only [Option.bind_eq_bind, Option.bind_some, hspec, truthy?_eq_self hpayload]
    cases extractShellWrapperPayload host (resolveExecWrapperTrustPlan host argv).argv spec <;> rfl

end OpenClaw
