import OpenClaw.Followup.Reach

/-!
# When a drain spins

The loop of a drain goes on while messages wait or dropped messages are counted, but only the
summary takes the dropped ones away, and not every branch makes one. What one step of a drain
makes of a queue that will spin and of a queue that will not.
-/

namespace OpenClaw

open Lts List

namespace FollowupQueueState

variable {host : RouteHost} {q q' : FollowupQueueState} {d : FollowupDrain} {force : Bool}

/-! ## The next head of the loop -/

variable (q)

/-- The messages at the next head of the loop, where what the drain waits for resolves and
nothing else happens. -/
def itemsAtHead : DrainPhase → List QueuedRun
  | .runningNext _ => q.items.tail
  | .runningGroup size rest _ => q.items.drop (size + rest.flatten.length)
  | .skipped => []
  | _ => q.items

/-- The dropped messages that are still counted there. -/
def droppedAtHead : DrainPhase → List QueuedRun
  | .runningNext .summary | .shifted .summary | .runningSummary | .runningGroup _ _ true => []
  | .skipped | .noItem .collect => if q.dropPolicy = .summarize then [] else q.dropped
  | _ => q.dropped

/-- The dropped messages that the drain finds there are not summarized by any branch: the
policy is not to summarize, or a mode that summarizes along a message has none. -/
def Spins (phase : DrainPhase) : Prop :=
  q.droppedAtHead phase ≠ [] ∧
    (q.dropPolicy ≠ .summarize ∨ (q.mode ≠ .collect ∧ q.itemsAtHead phase = []))

variable {q}

instance (q : FollowupQueueState) (phase : DrainPhase) : Decidable (q.Spins phase) :=
  inferInstanceAs (Decidable (_ ∧ _))

/-- A measure of what a drain has to take away. -/
def backlog (items dropped : List QueuedRun) : ℕ :=
  4 * (items.length + min 1 dropped.length)

variable (q)

/-- A bound on the steps of a drain that does not spin. -/
def stepBound (phase : DrainPhase) : ℕ :=
  match phase with
  | .debouncing => backlog q.items q.dropped + 2
  | .skipped => backlog q.items q.dropped + 1
  | .runningNext _ => backlog (q.itemsAtHead phase) (q.droppedAtHead phase) + 4
  | .shifted _ => backlog q.items (q.droppedAtHead phase) + 3
  | .noItem use =>
    if use = .collect ∧ (previewQueueSummaryPrompt q).isSome then backlog q.items q.dropped + 1
    else if q.hasWork then backlog q.items q.dropped + 3
    else 1
  | .runningSummary => backlog q.items [] + 3
  | .runningGroup _ rest _ =>
    backlog (q.itemsAtHead phase) (q.droppedAtHead phase) + 3 + rest.length

theorem stepBound_pos (phase : DrainPhase) : 0 < q.stepBound phase := by
  unfold stepBound
  split
  all_goals first | omega | (split <;> [omega; (split <;> omega)])

variable {q}

/-- What follows on a step: nothing, or a queue that does not spin and is nearer to its end. -/
def Shrinks (bound : ℕ) (next : FollowupQueueState) : Prop :=
  ∀ q', next.rearm = some q' →
    ∃ d', q'.drain = some d' ∧ ¬ q'.Spins d'.phase ∧ q'.stepBound d'.phase < bound

variable {bound : ℕ} {phase : DrainPhase} {quiet : Prop}

theorem shrinks_waitIn (hspins : ¬ q.Spins phase)
    (hbound : q.stepBound phase < bound) : Shrinks bound (q.waitIn phase force) := by
  intro q' hq'
  rw [rearm_waitIn, Option.some.injEq] at hq'
  exact ⟨⟨phase, force⟩, by rw [← hq', waitIn_drain], hq' ▸ hspins, hq' ▸ hbound⟩

section

variable (hspins : ¬ q.Spins .debouncing)
  (hbound : q.hasWork = true → backlog q.items q.dropped + 2 < bound)
include hspins hbound

theorem shrinks_loopHead : Shrinks bound (q.loopHead force) := by
  intro q' hq'
  rw [rearm_loopHead] at hq'
  split_ifs at hq'
  next hwork => exact shrinks_waitIn hspins (hbound hwork) q' hq'

theorem shrinks_leaveLoop : Shrinks bound q.leaveLoop := by
  intro q' hq'
  rw [rearm_leaveLoop] at hq'
  split_ifs at hq'
  next hwork => exact shrinks_waitIn hspins (hbound hwork) q' hq'

end

theorem shrinks_afterDebounce (host : RouteHost) (hrun : q.lastRun.isSome = true)
    (hspins : ¬ q.Spins .debouncing) (force : Bool) :
    Shrinks (q.stepBound .debouncing) (q.afterDebounce host force).1 := by
  have hcases := afterDebounce_cases host q force
  generalize q.afterDebounce host force = next at hcases ⊢
  -- in the collect mode what is dropped is to be summarized
  have hcollect : q.mode = .collect → q.dropped ≠ [] → q.dropPolicy = .summarize := by
    intro _ hdropped
    by_contra hpolicy
    exact hspins ⟨hdropped, .inl hpolicy⟩
  -- without a summary nothing is dropped
  have hplain : previewQueueSummaryPrompt q = none → q.dropped = [] := by
    intro hprompt
    by_contra hdropped
    rcases preview_eq_none_iff.mp hprompt with hpolicy | hnone
    · exact hspins ⟨hdropped, .inl hpolicy⟩
    · exact hdropped hnone
  cases hcases with
  | skipped hmode _ =>
    refine shrinks_waitIn ?_ ?_
    · rintro ⟨hdropped, hwhy⟩
      simp only [droppedAtHead] at hdropped
      split at hdropped
      · exact hdropped rfl
      · next hpolicy => exact hpolicy (hcollect hmode hdropped)
    · simp only [stepBound]
      omega
  | collectNone hmode hitems force =>
    refine shrinks_waitIn ?_ ?_
    · rintro ⟨hdropped, hwhy⟩
      simp only [droppedAtHead] at hdropped
      split at hdropped
      · exact hdropped rfl
      · next hpolicy => exact hpolicy (hcollect hmode hdropped)
    · simp only [stepBound]
      split
      · omega
      · next hprompt =>
        have hdropped : q.dropped = [] := hplain (by simpa using hprompt)
        rw [if_neg (by simp [hasWork, hitems, hdropped])]
        omega
  | collectNext hmode item rest hitems force =>
    refine shrinks_waitIn ?_ ?_
    · rintro ⟨hdropped, hwhy⟩
      rcases hwhy with hpolicy | ⟨hother, _⟩
      · exact hpolicy (hcollect hmode hdropped)
      · exact hother hmode
    · simp only [stepBound, backlog, itemsAtHead, droppedAtHead, hitems, tail_cons, length_cons]
      omega
  | summaryNone hmode prompt hprompt hitems force =>
    exact absurd ⟨(preview_eq_some hprompt).2, .inr ⟨hmode, hitems⟩⟩ hspins
  | summaryNext hmode prompt run hprompt item rest hitems force =>
    refine shrinks_waitIn ?_ ?_
    · rintro ⟨hdropped, _⟩
      exact hdropped rfl
    · simp only [stepBound, backlog, itemsAtHead, droppedAtHead, hitems, tail_cons,
        length_cons, length_nil]
      omega
  | noRun prompt hprompt hnone =>
    rw [hnone] at hrun
    cases hrun
  | plainNone hmode hprompt hitems force =>
    have hdropped := hplain hprompt
    refine shrinks_waitIn ?_ ?_
    · rintro ⟨hne, _⟩
      exact hne hdropped
    · simp only [stepBound, reduceCtorEq, false_and, if_false]
      rw [if_neg (by simp [hasWork, hitems, hdropped])]
      omega
  | plainNext hmode hprompt item rest hitems force =>
    have hdropped := hplain hprompt
    refine shrinks_waitIn ?_ ?_
    · rintro ⟨hne, _⟩
      exact hne hdropped
    · simp only [stepBound, backlog, itemsAtHead, droppedAtHead, hitems, tail_cons, length_cons]
      omega

/-- A summary alone, where a branch that needs one can make it. -/
theorem shrinks_runSummary (hrun : q.lastRun.isSome = true) (items : List QueuedRun)
    (hsome : (previewQueueSummaryPrompt q).isSome = true → backlog q.items [] + 3 < bound)
    (hnone : previewQueueSummaryPrompt q = none →
      q.dropped = [] ∧ (q.hasWork = true → backlog q.items q.dropped + 2 < bound)) :
    Shrinks bound (q.runSummary force items).1 := by
  rcases runSummary_cases q force items with ⟨prompt, run, hprompt, heq⟩ | ⟨hwhy, heq⟩
  · rw [heq]
    refine shrinks_waitIn ?_ ?_
    · rintro ⟨hdropped, _⟩
      exact hdropped rfl
    · exact hsome (by rw [hprompt]; rfl)
  · rw [heq]
    rcases hwhy with hprompt | hlast
    · obtain ⟨hdropped, hbound⟩ := hnone hprompt
      refine shrinks_leaveLoop ?_ hbound
      rintro ⟨hne, _⟩
      exact hne hdropped
    · rw [hlast] at hrun
      exact nomatch hrun

theorem shrinks_afterSkipped (hrun : q.lastRun.isSome = true) (hspins : ¬ q.Spins .skipped) :
    Shrinks (q.stepBound .skipped) (q.afterSkipped force).1 := by
  have hdropped : q.dropPolicy ≠ .summarize → q.dropped = [] := by
    intro hpolicy
    by_contra hne
    refine hspins ⟨?_, .inl hpolicy⟩
    simpa only [droppedAtHead, if_neg hpolicy] using hne
  have hplain : previewQueueSummaryPrompt q = none → q.dropped = [] := by
    intro hprompt
    rcases preview_eq_none_iff.mp hprompt with hpolicy | hnone
    · exact hdropped hpolicy
    · exact hnone
  rcases afterSkipped_cases q force with ⟨hitems, heq⟩ | ⟨group, rest, hsplit, hne, heq⟩
  · rw [heq]
    refine shrinks_runSummary hrun [] ?_ ?_
    · intro hsome
      have hpos : 0 < q.dropped.length := length_pos_iff.mpr (preview_isSome_iff.mp hsome).2
      simp only [stepBound, backlog, hitems, length_nil]
      omega
    · intro hprompt
      refine ⟨hplain hprompt, fun hwork => ?_⟩
      simp [hasWork, hitems, hplain hprompt] at hwork
  · rw [heq]
    have hflatten := flatten_splitCollectItemsByAuthorization q.items
    rw [hsplit, flatten_cons] at hflatten
    have hcount := congrArg List.length hflatten
    rw [length_append] at hcount
    have hgroup : 0 < group.length := length_pos_iff.mpr hne
    have hrest : rest.length ≤ rest.flatten.length := by
      refine length_le_length_flatten fun hmem => ?_
      exact ne_nil_of_mem_split (hsplit ▸ mem_cons_of_mem _ hmem) rfl
    have hleft : q.items.drop (group.length + rest.flatten.length) = [] :=
      drop_eq_nil_of_le (by omega)
    refine shrinks_waitIn ?_ ?_
    · rintro ⟨hhead, _⟩
      cases hprompt : previewQueueSummaryPrompt q with
      | some prompt => exact hhead (by rw [hprompt]; rfl)
      | none =>
        rw [hprompt] at hhead
        exact hhead (hplain hprompt)
    · have hheads : (q.droppedAtHead (.runningGroup group.length rest
          (previewQueueSummaryPrompt q).isSome)).length ≤ q.dropped.length := by
        unfold droppedAtHead
        cases (previewQueueSummaryPrompt q).isSome with
        | true => exact Nat.zero_le _
        | false => exact Nat.le_refl _
      simp only [stepBound, backlog, itemsAtHead, hleft, length_nil]
      omega

theorem shrinks_afterGroup (hrun : q.lastRun.isSome = true) (size : ℕ)
    (rest : List (List QueuedRun)) (pendingSummary : Bool)
    (hspins : ¬ q.Spins (.runningGroup size rest pendingSummary)) :
    Shrinks (q.stepBound (.runningGroup size rest pendingSummary))
      (q.afterGroup force size rest pendingSummary).1 := by
  have hdropped : (q.spliced size pendingSummary).dropped =
      q.droppedAtHead (.runningGroup size rest pendingSummary) := by
    rw [spliced_dropped]
    cases pendingSummary <;> rfl
  cases rest with
  | nil =>
    rw [afterGroup_nil]
    refine shrinks_loopHead ?_ fun _ => ?_
    · rintro ⟨hhead, hwhy⟩
      refine hspins ⟨hdropped ▸ hhead, ?_⟩
      simpa [itemsAtHead] using hwhy
    · rw [hdropped, spliced_items]
      simp only [stepBound, itemsAtHead, flatten_nil, length_nil, Nat.add_zero]
      omega
  | cons group rest =>
    rw [afterGroup_cons]
    unfold startGroup
    split
    · next run _ =>
      have hitems : (q.spliced size pendingSummary).itemsAtHead
            (.runningGroup group.length rest false) =
          q.itemsAtHead (.runningGroup size (group :: rest) pendingSummary) := by
        simp only [itemsAtHead, spliced_items, drop_drop, flatten_cons, length_append]
      have hheads : (q.spliced size pendingSummary).droppedAtHead
            (.runningGroup group.length rest false) =
          q.droppedAtHead (.runningGroup size (group :: rest) pendingSummary) := hdropped
      refine shrinks_waitIn ?_ ?_
      · rintro ⟨hhead, hwhy⟩
        refine hspins ⟨hheads ▸ hhead, ?_⟩
        rw [spliced_mode, spliced_dropPolicy] at hwhy
        exact hitems ▸ hwhy
      · simp only [stepBound, Option.isSome_none, hitems, hheads, length_cons]
        omega
    · next hnone =>
      rw [spliced_lastRun, Option.or_eq_none_iff] at hnone
      rw [hnone.2] at hrun
      exact nomatch hrun

/-- A step of a drain that does not spin takes it nearer to its end. -/
theorem shrinks_proceed (host : RouteHost) (hrun : q.lastRun.isSome = true)
    (hspins : ¬ q.Spins d.phase) : Shrinks (q.stepBound d.phase) (q.proceed host d).1 := by
  obtain ⟨phase, force⟩ := d
  cases phase with
  | debouncing => exact shrinks_afterDebounce host hrun hspins force
  | skipped => exact shrinks_afterSkipped hrun hspins
  | runningNext use =>
    refine shrinks_waitIn (q := { q with items := q.items.tail }) ?_ ?_
    · cases use <;> exact hspins
    · cases use <;> exact Nat.lt_succ_self _
  | shifted use =>
    cases use with
    | summary =>
      refine shrinks_loopHead ?_ fun _ => Nat.lt_succ_self _
      rintro ⟨hdropped, _⟩
      exact hdropped rfl
    | collect => exact shrinks_loopHead hspins fun _ => Nat.lt_succ_self _
    | plain => exact shrinks_loopHead hspins fun _ => Nat.lt_succ_self _
  | noItem use =>
    cases use with
    | collect =>
      refine shrinks_runSummary hrun q.items (fun hsome => ?_) fun hprompt => ⟨?_, fun hwork => ?_⟩
      · have hpos : 0 < q.dropped.length := length_pos_iff.mpr (preview_isSome_iff.mp hsome).2
        simp only [stepBound, hsome, and_self, if_true, backlog, length_nil]
        omega
      · rcases preview_eq_none_iff.mp hprompt with hpolicy | hnone
        · by_contra hdropped
          exact hspins ⟨by simpa only [droppedAtHead, if_neg hpolicy] using hdropped, .inl hpolicy⟩
        · exact hnone
      · simp only [stepBound, hprompt, hwork, Option.isSome_none, Bool.false_eq_true, and_false,
          if_false, if_true]
        omega
    | summary =>
      refine shrinks_leaveLoop hspins fun hwork => ?_
      simp only [stepBound, reduceCtorEq, false_and, if_false, hwork, if_true]
      omega
    | plain =>
      refine shrinks_leaveLoop hspins fun hwork => ?_
      simp only [stepBound, reduceCtorEq, false_and, if_false, hwork, if_true]
      omega
  | runningSummary =>
    refine shrinks_loopHead ?_ fun _ => Nat.lt_succ_self _
    rintro ⟨hdropped, _⟩
    exact hdropped rfl
  | runningGroup size rest pendingSummary => exact shrinks_afterGroup hrun size rest _ hspins

/-! ## A drain that leaves no dropped messages -/

theorem droppedAtHead_of_none (h : q.dropped = []) (phase : DrainPhase) :
    q.droppedAtHead phase = [] := by
  unfold droppedAtHead
  split <;> simp [h]

/-- What follows has no dropped messages at the next head of the loop. -/
def LeavesNone (next : FollowupQueueState) : Prop :=
  ∀ q' d', next.rearm = some q' → q'.drain = some d' → q'.droppedAtHead d'.phase = []

theorem leavesNone_of_consumes {next : FollowupQueueState} (hnone : q.dropped = [])
    (h : Consumes q next) : LeavesNone next := by
  intro q' d' hq' _
  have hdropped := (h.rearm hq').dropped
  rw [hnone, or_self] at hdropped
  exact droppedAtHead_of_none hdropped _

theorem leavesNone_waitIn (h : q.droppedAtHead phase = []) : LeavesNone (q.waitIn phase force) := by
  intro q' d' hq' hd'
  rw [rearm_waitIn, Option.some.injEq] at hq'
  subst hq'
  rw [waitIn_drain, Option.some.injEq] at hd'
  exact hd' ▸ h

theorem leavesNone_runSummary (hrun : q.lastRun.isSome = true)
    (hprompt : (previewQueueSummaryPrompt q).isSome = true) (items : List QueuedRun) :
    LeavesNone (q.runSummary force items).1 := by
  rcases runSummary_cases q force items with ⟨_, _, _, heq⟩ | ⟨hwhy, _⟩
  · exact heq ▸ leavesNone_waitIn rfl
  · rcases hwhy with hnone | hnone
    · rw [hnone] at hprompt
      exact nomatch hprompt
    · rw [hnone] at hrun
      exact nomatch hrun

theorem leavesNone_proceed (host : RouteHost) (hrun : q.lastRun.isSome = true)
    (h : q.droppedAtHead d.phase = []) : LeavesNone (q.proceed host d).1 := by
  by_cases hdropped : q.dropped = []
  · exact leavesNone_of_consumes hdropped (consumes_proceed host q d)
  · -- otherwise the summary is in progress or will be made now
    have hsummary : (if q.dropPolicy = .summarize then [] else q.dropped) = [] →
        (previewQueueSummaryPrompt q).isSome = true := by
      intro hnone
      split at hnone
      · next hpolicy => exact preview_isSome_iff.mpr ⟨hpolicy, hdropped⟩
      · exact absurd hnone hdropped
    have hclear := Consumes.refl q.clearQueueSummaryState
    obtain ⟨phase, force⟩ := d
    cases phase with
    | debouncing => exact absurd h hdropped
    | skipped =>
      have hprompt := hsummary h
      change LeavesNone (q.afterSkipped force).1
      rcases afterSkipped_cases q force with ⟨_, heq⟩ | ⟨_, _, _, _, heq⟩
      · exact heq ▸ leavesNone_runSummary hrun hprompt []
      · rw [heq, hprompt]
        exact leavesNone_waitIn rfl
    | runningNext use =>
      cases use with
      | summary => exact leavesNone_waitIn rfl
      | collect => exact absurd h hdropped
      | plain => exact absurd h hdropped
    | shifted use =>
      cases use with
      | summary => exact leavesNone_of_consumes rfl (hclear.loopHead force)
      | collect => exact absurd h hdropped
      | plain => exact absurd h hdropped
    | noItem use =>
      cases use with
      | collect => exact leavesNone_runSummary hrun (hsummary h) _
      | summary => exact absurd h hdropped
      | plain => exact absurd h hdropped
    | runningSummary => exact leavesNone_of_consumes rfl (hclear.loopHead force)
    | runningGroup size rest pendingSummary =>
      cases pendingSummary with
      | false => exact absurd h hdropped
      | true =>
        have hspliced := Consumes.refl (q.spliced size true)
        cases rest with
        | nil => exact leavesNone_of_consumes rfl (hspliced.loopHead force)
        | cons group rest => exact leavesNone_of_consumes rfl (hspliced.startGroup force group rest none)

/-! ## Steps without a call -/

variable (q)

/-- Without messages, this queue will never call `runFollowup` again. -/
def Mute : Prop := q.items = [] ∧ q.Spins .debouncing

/-- Neither what the drain waits for nor its failure leads to a mute queue. -/
def Answers (phase : DrainPhase) : Prop :=
  ¬ ((if phase = .skipped then q.items else q.itemsAtHead phase) = [] ∧ q.Spins phase) ∧
    ¬ (phase.isRunning = true ∧ q.Mute)

variable {q}

theorem answers_of_idle (hphase : phase.isRunning = false)
    (h : ¬ (q.items = [] ∧ q.Spins phase)) : q.Answers phase := by
  refine ⟨?_, fun hboth => ?_⟩
  · cases phase <;> first | exact h | exact absurd hphase (by simp [DrainPhase.isRunning])
  · rw [hphase] at hboth
    exact absurd hboth.1 (by simp)

variable (q phase)

/-- A bound on the steps up to the next call. -/
def quietBound : ℕ :=
  match phase with
  | .debouncing => 3
  | .skipped => 2
  | .shifted _ => 4
  | .noItem use =>
    if use = .collect ∧ (previewQueueSummaryPrompt q).isSome then 1
    else if q.hasWork then 4
    else 1
  | _ => 5

theorem quietBound_pos : 0 < q.quietBound phase := by
  unfold quietBound
  split
  all_goals first | omega | (split <;> [omega; (split <;> omega)])

variable {q phase}

/-- What follows on a step without a call. -/
def Hurries (bound : ℕ) (next : FollowupQueueState × List FollowupCall) : Prop :=
  next.2 = [] → ∀ q', next.1.rearm = some q' →
    ∃ d', q'.drain = some d' ∧ q'.Answers d'.phase ∧ q'.quietBound d'.phase < bound

theorem hurries_waitIn (calls : List FollowupCall)
    (hanswers : q.Answers phase) (hbound : q.quietBound phase < bound) :
    Hurries bound (q.waitIn phase force, calls) := by
  intro _ q' hq'
  rw [rearm_waitIn, Option.some.injEq] at hq'
  exact ⟨⟨phase, force⟩, by rw [← hq', waitIn_drain], hq' ▸ hanswers, hq' ▸ hbound⟩

theorem hurries_of_call (next : FollowupQueueState) (call : FollowupCall) :
    Hurries bound (next, [call]) :=
  fun hnone => absurd hnone (by simp)

theorem hurries_loopHead (hmute : ¬ q.Mute) (hbound : q.hasWork = true → 3 < bound) :
    Hurries bound (q.loopHead force, []) := by
  intro hcalls q' hq'
  rw [rearm_loopHead] at hq'
  split_ifs at hq'
  next hwork => exact hurries_waitIn [] (answers_of_idle rfl hmute) (hbound hwork) hcalls q' hq'

theorem hurries_leaveLoop (hmute : ¬ q.Mute)
    (hbound : q.hasWork = true → 3 < bound) : Hurries bound (q.leaveLoop, []) := by
  intro hcalls q' hq'
  rw [rearm_leaveLoop] at hq'
  split_ifs at hq'
  next hwork => exact hurries_waitIn [] (answers_of_idle rfl hmute) (hbound hwork) hcalls q' hq'

theorem hurries_afterDebounce (host : RouteHost) (hrun : q.lastRun.isSome = true)
    (hmute : ¬ q.Mute) (force : Bool) : Hurries 3 (q.afterDebounce host force) := by
  have hcases := afterDebounce_cases host q force
  generalize q.afterDebounce host force = next at hcases ⊢
  have hplain : q.items = [] → previewQueueSummaryPrompt q = none → q.dropped = [] := by
    intro hitems hprompt
    by_contra hdropped
    rcases preview_eq_none_iff.mp hprompt with hpolicy | hnone
    · exact hmute ⟨hitems, hdropped, .inl hpolicy⟩
    · exact hdropped hnone
  -- where a collecting drain has dropped messages and no items, they are to be summarized
  have hcollect : ¬ (q.items = [] ∧ (if q.dropPolicy = .summarize then [] else q.dropped) ≠ []) := by
    rintro ⟨hitems, hdropped⟩
    split at hdropped
    · exact hdropped rfl
    · next hpolicy => exact hmute ⟨hitems, hdropped, .inl hpolicy⟩
  cases hcases with
  | skipped hmode _ =>
    refine hurries_waitIn [] (answers_of_idle rfl ?_) (Nat.lt_succ_self 2)
    exact fun hboth => hcollect ⟨hboth.1, hboth.2.1⟩
  | collectNone hmode hitems force =>
    refine hurries_waitIn [] (answers_of_idle rfl ?_) ?_
    · exact fun hboth => hcollect ⟨hboth.1, hboth.2.1⟩
    · simp only [quietBound]
      split
      · omega
      · next hprompt =>
        have hdropped : q.dropped = [] := hplain hitems (by simpa using hprompt)
        rw [if_neg (by simp [hasWork, hitems, hdropped])]
        omega
  | summaryNone hmode prompt hprompt hitems force =>
    exact absurd ⟨hitems, (preview_eq_some hprompt).2, .inr ⟨hmode, hitems⟩⟩ hmute
  | noRun prompt hprompt hnone =>
    rw [hnone] at hrun
    cases hrun
  | plainNone hmode hprompt hitems force =>
    have hdropped := hplain hitems hprompt
    refine hurries_waitIn [] (answers_of_idle rfl ?_) ?_
    · rintro ⟨_, hne, _⟩
      exact hne hdropped
    · simp only [quietBound, reduceCtorEq, false_and, if_false]
      rw [if_neg (by simp [hasWork, hitems, hdropped])]
      omega
  | collectNext | summaryNext | plainNext => exact hurries_of_call _ _

theorem hurries_runSummary (hrun : q.lastRun.isSome = true) (items : List QueuedRun)
    (hnone : previewQueueSummaryPrompt q = none → ¬ q.Mute ∧ (q.hasWork = true → 3 < bound)) :
    Hurries bound (q.runSummary force items) := by
  rcases runSummary_cases q force items with ⟨_, _, _, heq⟩ | ⟨hwhy, heq⟩
  · exact heq ▸ hurries_of_call _ _
  · rw [heq]
    rcases hwhy with hprompt | hlast
    · exact hurries_leaveLoop (hnone hprompt).1 (hnone hprompt).2
    · rw [hlast] at hrun
      exact nomatch hrun

theorem hurries_proceed (host : RouteHost) (hrun : q.lastRun.isSome = true)
    (hanswers : q.Answers d.phase) : Hurries (q.quietBound d.phase) (q.proceed host d) := by
  obtain ⟨phase, force⟩ := d
  obtain ⟨hresolved, hrejected⟩ := hanswers
  cases phase with
  | debouncing => exact hurries_afterDebounce host hrun hresolved force
  | skipped =>
    change Hurries 2 (q.afterSkipped force)
    rcases afterSkipped_cases q force with ⟨hitems, heq⟩ | ⟨_, _, _, _, heq⟩
    · rw [heq]
      refine hurries_runSummary hrun [] fun hprompt => ?_
      have hdropped : q.dropped = [] := by
        by_contra hne
        rcases preview_eq_none_iff.mp hprompt with hpolicy | hnone
        · refine hresolved ⟨hitems, ?_, .inl hpolicy⟩
          simpa only [droppedAtHead, if_neg hpolicy] using hne
        · exact hne hnone
      refine ⟨fun hmute => hmute.2.1 hdropped, fun hwork => ?_⟩
      simp [hasWork, hitems, hdropped] at hwork
    · exact heq ▸ hurries_of_call _ _
  | runningNext use =>
    refine hurries_waitIn (q := { q with items := q.items.tail }) [] (answers_of_idle rfl ?_)
      (Nat.lt_succ_self 4)
    cases use <;> exact hresolved
  | shifted use =>
    cases use with
    | summary =>
      refine hurries_loopHead ?_ fun _ => Nat.lt_succ_self 3
      rintro ⟨_, hdropped, _⟩
      exact hdropped rfl
    | collect => exact hurries_loopHead hresolved fun _ => Nat.lt_succ_self 3
    | plain => exact hurries_loopHead hresolved fun _ => Nat.lt_succ_self 3
  | noItem use =>
    cases use with
    | collect =>
      refine hurries_runSummary hrun q.items fun hprompt => ⟨?_, fun hwork => ?_⟩
      · rintro ⟨hitems, hdropped, _⟩
        rcases preview_eq_none_iff.mp hprompt with hpolicy | hnone
        · refine hresolved ⟨hitems, ?_, .inl hpolicy⟩
          simpa only [droppedAtHead, if_neg hpolicy] using hdropped
        · exact hdropped hnone
      · simp only [quietBound, hprompt, hwork, Option.isSome_none, Bool.false_eq_true, and_false,
          if_false, if_true]
        omega
    | summary =>
      refine hurries_leaveLoop hresolved fun hwork => ?_
      simp only [quietBound, reduceCtorEq, false_and, if_false, hwork, if_true]
      omega
    | plain =>
      refine hurries_leaveLoop hresolved fun hwork => ?_
      simp only [quietBound, reduceCtorEq, false_and, if_false, hwork, if_true]
      omega
  | runningSummary =>
    refine hurries_loopHead ?_ fun _ => show 3 < 5 by decide
    rintro ⟨_, hdropped, _⟩
    exact hdropped rfl
  | runningGroup size rest pendingSummary =>
    change Hurries 5 (q.afterGroup force size rest pendingSummary)
    cases rest with
    | nil =>
      rw [afterGroup_nil]
      refine hurries_loopHead ?_ fun _ => by decide
      rintro ⟨hitems, hdropped, hwhy⟩
      have hheads : q.itemsAtHead (.runningGroup size [] pendingSummary) = [] := by
        simpa [itemsAtHead] using hitems
      refine hresolved ⟨hheads, ?_, ?_⟩
      · have hhead : q.droppedAtHead (.runningGroup size [] pendingSummary) =
            (q.spliced size pendingSummary).dropped := by
          rw [spliced_dropped]
          cases pendingSummary <;> rfl
        exact hhead ▸ hdropped
      · rw [spliced_mode, spliced_dropPolicy] at hwhy
        exact hwhy.imp_right fun hboth => ⟨hboth.1, hheads⟩
    | cons group rest =>
      rw [afterGroup_cons]
      unfold startGroup
      split
      · exact hurries_of_call _ _
      · next hnone =>
        rw [spliced_lastRun, Option.or_eq_none_iff] at hnone
        rw [hnone.2] at hrun
        cases hrun

theorem hurries_resume {outcome : AwaitOutcome} {next : FollowupQueueState × List FollowupCall}
    (hrun : q.lastRun.isSome = true) (hdrain : q.drain = some d) (hanswers : q.Answers d.phase)
    (h : q.resume host outcome = some next) : Hurries (q.quietBound d.phase) next := by
  cases outcome with
  | resolved =>
    rw [resume_resolved hdrain, Option.some.injEq] at h
    exact h ▸ hurries_proceed host hrun hanswers
  | rejected =>
    rw [resume_rejected hdrain] at h
    split_ifs at h
    next hrunning =>
    rw [Option.some.injEq] at h
    have hbound : q.quietBound d.phase = 5 := by
      cases hphase : d.phase <;> rw [hphase] at hrunning <;>
        first | rfl | exact absurd hrunning (by simp [DrainPhase.isRunning])
    rw [← h, hbound]
    exact hurries_leaveLoop (fun hmute => hanswers.2 ⟨hrunning, hmute⟩) fun _ => by decide

/-! ## Steps of a drain that spins -/

/-- What follows on a step of a drain that spins: it spins on, and without calls if it was
`quiet`. -/
def KeepsSpinning (quiet : Prop) (next : FollowupQueueState × List FollowupCall) : Prop :=
  ∃ q' d', next.1.rearm = some q' ∧ q'.drain = some d' ∧ q'.Spins d'.phase ∧
    (quiet → next.2 = [] ∧ q'.items = [] ∧ d'.phase.isRunning = false)

theorem keeps_waitIn {calls : List FollowupCall} (hspins : q.Spins phase)
    (hquiet : quiet → calls = [] ∧ q.items = [] ∧ phase.isRunning = false) :
    KeepsSpinning quiet (q.waitIn phase force, calls) :=
  ⟨_, _, rearm_waitIn phase, rfl, hspins, hquiet⟩

theorem keeps_loopHead (hspins : q.Spins .debouncing)
    (hquiet : quiet → q.items = []) : KeepsSpinning quiet (q.loopHead force, []) := by
  have hwork : q.hasWork = true := hasWork_iff.mpr (.inr hspins.1)
  refine ⟨q.waitIn .debouncing force, _, ?_, rfl, hspins, fun h => ⟨rfl, hquiet h, rfl⟩⟩
  rw [rearm_loopHead, if_pos hwork]

theorem keeps_leaveLoop (hspins : q.Spins .debouncing)
    (hquiet : quiet → q.items = []) : KeepsSpinning quiet (q.leaveLoop, []) := by
  have hwork : q.hasWork = true := hasWork_iff.mpr (.inr hspins.1)
  refine ⟨q.waitIn .debouncing false, _, ?_, rfl, hspins, fun h => ⟨rfl, hquiet h, rfl⟩⟩
  rw [rearm_leaveLoop, if_pos hwork]

theorem keeps_afterDebounce (host : RouteHost) (hrun : q.lastRun.isSome = true)
    (hspins : q.Spins .debouncing) (force : Bool) :
    KeepsSpinning (q.items = []) (q.afterDebounce host force) := by
  have hcases := afterDebounce_cases host q force
  generalize q.afterDebounce host force = next at hcases ⊢
  obtain ⟨hdropped, hwhy⟩ := hspins
  have hcollect : q.mode = .collect → q.dropPolicy ≠ .summarize := fun hmode =>
    hwhy.resolve_right fun hother => hother.1 hmode
  have hmessage : ∀ {item : QueuedRun} {rest : List QueuedRun}, q.items = item :: rest →
      q.dropPolicy ≠ .summarize := fun hitems =>
    hwhy.resolve_right fun hother => by
      have hnone := hother.2
      rw [show q.itemsAtHead .debouncing = q.items from rfl, hitems] at hnone
      exact nomatch hnone
  cases hcases with
  | skipped hmode _ =>
    refine keeps_waitIn ⟨?_, .inl (hcollect hmode)⟩ fun hitems => ⟨rfl, hitems, rfl⟩
    simpa only [droppedAtHead, if_neg (hcollect hmode)] using hdropped
  | collectNone hmode hitems force =>
    refine keeps_waitIn ⟨?_, .inl (hcollect hmode)⟩ fun hitems => ⟨rfl, hitems, rfl⟩
    simpa only [droppedAtHead, if_neg (hcollect hmode)] using hdropped
  | collectNext hmode item rest hitems force =>
    refine keeps_waitIn ⟨hdropped, .inl (hcollect hmode)⟩ fun hnone => ?_
    rw [hitems] at hnone
    exact nomatch hnone
  | summaryNone hmode prompt hprompt hitems force =>
    exact keeps_waitIn ⟨hdropped, .inr ⟨hmode, hitems⟩⟩ fun hitems => ⟨rfl, hitems, rfl⟩
  | summaryNext hmode prompt run hprompt item rest hitems force =>
    exact absurd (preview_eq_some hprompt).1 (hmessage hitems)
  | noRun prompt hprompt hnone =>
    rw [hnone] at hrun
    exact nomatch hrun
  | plainNone hmode hprompt hitems force =>
    exact keeps_waitIn ⟨hdropped, .inr ⟨hmode, hitems⟩⟩ fun hitems => ⟨rfl, hitems, rfl⟩
  | plainNext hmode hprompt item rest hitems force =>
    refine keeps_waitIn ⟨hdropped, .inl (hmessage hitems)⟩ fun hnone => ?_
    rw [hitems] at hnone
    exact nomatch hnone

theorem keeps_runSummary (hpolicy : q.dropPolicy ≠ .summarize) (hdropped : q.dropped ≠ [])
    (items : List QueuedRun) : KeepsSpinning (q.items = []) (q.runSummary force items) := by
  rcases runSummary_cases q force items with ⟨prompt, _, hprompt, _⟩ | ⟨_, heq⟩
  · exact absurd (preview_eq_some hprompt).1 hpolicy
  · exact heq ▸ keeps_leaveLoop ⟨hdropped, .inl hpolicy⟩ id

theorem keeps_proceed (host : RouteHost) (hrun : q.lastRun.isSome = true)
    (hspins : q.Spins d.phase) :
    KeepsSpinning (q.items = [] ∧ d.phase.isRunning = false) (q.proceed host d) := by
  obtain ⟨phase, force⟩ := d
  have hweaken : ∀ {next}, KeepsSpinning (q.items = []) next →
      KeepsSpinning (q.items = [] ∧ phase.isRunning = false) next := by
    rintro next ⟨q', d', hq', hd', hkeeps, hquiet⟩
    exact ⟨q', d', hq', hd', hkeeps, fun hboth => hquiet hboth.1⟩
  -- behind the copy of the items and behind an empty queue only the policy matters
  have hpolicy : ∀ {dropped : List QueuedRun},
      (if q.dropPolicy = .summarize then [] else dropped) ≠ [] →
        q.dropPolicy ≠ .summarize ∧ dropped ≠ [] := by
    intro dropped hne
    split at hne
    · exact absurd rfl hne
    · next hpolicy => exact ⟨hpolicy, hne⟩
  cases phase with
  | debouncing => exact hweaken (keeps_afterDebounce host hrun hspins force)
  | skipped =>
    obtain ⟨hne, hdropped⟩ := hpolicy hspins.1
    refine hweaken ?_
    change KeepsSpinning _ (q.afterSkipped force)
    rcases afterSkipped_cases q force with ⟨_, heq⟩ | ⟨group, rest, hsplit, hgroup, heq⟩
    · exact heq ▸ keeps_runSummary hne hdropped []
    · rw [heq, preview_eq_none_iff.mpr (.inl hne)]
      refine keeps_waitIn ⟨hdropped, .inl hne⟩ fun hitems => ?_
      rw [split_eq_nil_iff.mpr hitems] at hsplit
      exact nomatch hsplit
  | runningNext use =>
    refine keeps_waitIn (q := { q with items := q.items.tail }) ?_ fun hquiet => ?_
    · cases use <;> exact hspins
    · exact absurd hquiet.2 (by simp [DrainPhase.isRunning])
  | shifted use =>
    cases use with
    | summary => exact absurd rfl hspins.1
    | collect => exact hweaken (keeps_loopHead hspins id)
    | plain => exact hweaken (keeps_loopHead hspins id)
  | noItem use =>
    cases use with
    | collect =>
      obtain ⟨hne, hdropped⟩ := hpolicy hspins.1
      exact hweaken (keeps_runSummary hne hdropped _)
    | summary => exact hweaken (keeps_leaveLoop hspins id)
    | plain => exact hweaken (keeps_leaveLoop hspins id)
  | runningSummary => exact absurd rfl hspins.1
  | runningGroup size rest pendingSummary =>
    cases pendingSummary with
    | true => exact absurd rfl hspins.1
    | false =>
      obtain ⟨hdropped, hwhy⟩ := hspins
      change KeepsSpinning _ (q.afterGroup force size rest false)
      cases rest with
      | nil =>
        rw [afterGroup_nil]
        refine keeps_loopHead ⟨hdropped, ?_⟩ fun hquiet => ?_
        · simpa [itemsAtHead] using hwhy
        · exact absurd hquiet.2 (by simp [DrainPhase.isRunning])
      | cons group rest =>
        rw [afterGroup_cons]
        unfold startGroup
        split
        · refine keeps_waitIn ⟨hdropped, ?_⟩ fun hquiet => ?_
          · simpa only [itemsAtHead, spliced_items, spliced_mode, spliced_dropPolicy,
              drop_drop, flatten_cons, length_append] using hwhy
          · exact absurd hquiet.2 (by simp [DrainPhase.isRunning])
        · next hnone =>
          rw [spliced_lastRun, Option.or_eq_none_iff] at hnone
          rw [hnone.2] at hrun
          exact nomatch hrun

/-! ## The drain of a removed queue -/

/-- A step of a drain on its own queue; the label is how its wait settles and what it calls. -/
def LoopStep (host : RouteHost) (q : FollowupQueueState)
    (label : AwaitOutcome × List FollowupCall) (q' : FollowupQueueState) : Prop :=
  q.resume host label.1 = some (q', label.2)

/-- A bound on the steps of the drain of an empty queue. -/
def emptyBound (q : FollowupQueueState) : ℕ :=
  match q.drain with
  | none => 0
  | some d =>
    match d.phase with
    | .debouncing | .runningNext _ => 2
    | .runningGroup _ rest _ => rest.length + 1
    | _ => 1

theorem emptyBound_proceed (host : RouteHost) (h : q.hasWork = false) (hdrain : q.drain = some d) :
    (q.proceed host d).1.emptyBound < q.emptyBound := by
  have hleft : ∀ {next : FollowupQueueState}, next.drain = none →
      next.emptyBound < q.emptyBound := by
    intro next hnone
    simp only [emptyBound, hnone, hdrain]
    split <;> omega
  have hhead : ∀ {next : FollowupQueueState} {force : Bool}, Consumes q next →
      (next.loopHead force).emptyBound < q.emptyBound := by
    intro next force hnext
    refine hleft ?_
    rw [loopHead_of_idle (hnext.hasWork h)]
    rfl
  have hrefl := Consumes.refl q
  obtain ⟨phase, force⟩ := d
  cases phase with
  | debouncing =>
    change (q.afterDebounce host force).1.emptyBound < _
    rcases (afterDebounce_of_idle host h force).2 with heq | ⟨phase, force', hphase, heq⟩
    · exact hleft (heq ▸ rfl)
    · rw [heq]
      simp only [emptyBound, hdrain, waitIn_drain]
      rcases hphase with rfl | ⟨use, rfl⟩ <;> exact Nat.lt_succ_self 1
  | skipped =>
    change (q.afterSkipped force).1.emptyBound < _
    rw [afterSkipped_of_idle h]
    exact hleft rfl
  | runningNext use =>
    simp only [emptyBound, hdrain]
    exact Nat.lt_succ_self 1
  | shifted use =>
    cases use with
    | summary => exact hhead hrefl.clearQueueSummaryState
    | collect => exact hhead hrefl
    | plain => exact hhead hrefl
  | noItem use =>
    cases use with
    | collect =>
      change (q.runSummary force q.items).1.emptyBound < _
      rw [runSummary_of_idle h]
      exact hleft rfl
    | summary => exact hleft rfl
    | plain => exact hleft rfl
  | runningSummary => exact hhead hrefl.clearQueueSummaryState
  | runningGroup size rest pendingSummary =>
    have hspliced := consumes_spliced q size pendingSummary
    cases rest with
    | nil => exact hhead hspliced
    | cons group rest =>
      change ((q.spliced size pendingSummary).startGroup force group rest none).1.emptyBound < _
      unfold startGroup
      split
      · simp only [emptyBound, hdrain, waitIn_drain, length_cons]
        omega
      · exact hhead hspliced

/-- The drain of a queue that was cleared ends, whether its calls resolve or not. -/
theorem removed_bounded (host : RouteHost) (h : q.hasWork = false)
    {labels : List (AwaitOutcome × List FollowupCall)} (hrun : Run (LoopStep host) q labels q') :
    labels.length ≤ q.emptyBound := by
  refine hrun.length_le (fun q => q.hasWork = false) emptyBound ?_ h
  intro q label q' hwork hstep
  obtain ⟨outcome, calls⟩ := label
  have hconsumes := consumes_resume hstep
  refine ⟨hconsumes.hasWork hwork, ?_⟩
  obtain ⟨d, hd⟩ := drain_of_resume hstep
  cases outcome with
  | resolved =>
    have heq := (resume_resolved hd).symm.trans hstep
    rw [Option.some.injEq] at heq
    have hlt := emptyBound_proceed host hwork hd
    rwa [heq] at hlt
  | rejected =>
    have heq := (resume_rejected hd).symm.trans hstep
    split_ifs at heq
    rw [Option.some.injEq, Prod.mk.injEq] at heq
    rw [← heq.1]
    simp only [emptyBound, leaveLoop_drain, hd]
    split <;> omega
end FollowupQueueState

end OpenClaw
