import OpenClaw.Followup.Reach

/-!
# What a drain hands over

The messages whose call is in progress are still in front of the queue, and dropped messages
whose summary is in progress are still counted. What is waiting apart from them is handed over
in order, as long as nothing is dropped in front of a call in progress and no summary takes
the place of a prompt.
-/

namespace OpenClaw

open List Option

/-! ## Prompts -/

/-- The text counts these dropped messages. -/
def SummaryOf (dropped : List QueuedRun) (text : Str) : Prop :=
  dropped ≠ [] ∧ ∃ lines, text = queueSummaryText dropped.length lines

/-- How a call hands over messages and dropped messages: a message as it was queued, messages
in a collected prompt with or without a summary, or a summary without messages. -/
inductive FollowupCall.Delivers (call : FollowupCall) : Prop
  | single (item : QueuedRun) (hmessages : call.messages = [item]) (hdropped : call.dropped = [])
      (hargument : call.argument = item.followup)
  | collected (hmessages : call.messages ≠ []) (hdropped : call.dropped = [])
      (hprompt : call.argument.prompt = buildCollectPrompt call.messages none)
  | collectedWithSummary (hmessages : call.messages ≠ []) (summary : Str)
      (hsummary : SummaryOf call.dropped summary)
      (hprompt : call.argument.prompt = buildCollectPrompt call.messages (some summary))
  | summary (hmessages : call.messages = []) (hsummary : SummaryOf call.dropped call.argument.prompt)

namespace FollowupQueueState

variable {host : RouteHost} {q q' : FollowupQueueState} {d : FollowupDrain} {force : Bool}

theorem summaryOf_preview {prompt : Str} (h : previewQueueSummaryPrompt q = some prompt) :
    SummaryOf q.dropped prompt := by
  refine ⟨(preview_eq_some h).2, q.summaryLines, ?_⟩
  unfold previewQueueSummaryPrompt at h
  split_ifs at h
  exact (some.inj h).symm

theorem delivers_collected {group : List QueuedRun} (hgroup : group ≠ []) (run : FollowupContext) :
    (FollowupCall.collected q group run (previewQueueSummaryPrompt q)).Delivers := by
  cases hprompt : previewQueueSummaryPrompt q with
  | none => exact .collected hgroup rfl rfl
  | some prompt => exact .collectedWithSummary hgroup prompt (summaryOf_preview hprompt) rfl

/-! ## What is in progress and what is waiting -/

variable (q)

/-- How many messages in front of the queue a call in progress is about. -/
def inProgress : ℕ :=
  match q.drain with
  | some ⟨.runningNext _, _⟩ => 1
  | some ⟨.runningGroup size _ _, _⟩ => size
  | _ => 0

/-- The summary was passed to `runFollowup` and is still to be cleared. -/
def summaryInProgress : Bool :=
  match q.drain with
  | some ⟨.runningNext .summary, _⟩ | some ⟨.shifted .summary, _⟩ | some ⟨.runningSummary, _⟩
  | some ⟨.runningGroup _ _ true, _⟩ => true
  | _ => false

/-- The messages that no call was made for. -/
def waiting : List QueuedRun := q.items.drop q.inProgress

/-- The dropped messages that no summary was made for. -/
def unsummarized : List QueuedRun :=
  if q.summaryInProgress then [] else q.dropped

/-- The messages of the groups that the drain has copied and not called yet. -/
def groupsLeft : List QueuedRun :=
  match q.drain with
  | some ⟨.runningGroup _ rest _, _⟩ => rest.flatten
  | _ => []

/-- The drain is not about to take off messages that it did not hand over. -/
def Orderly : Prop :=
  match q.drain with
  | some ⟨.runningNext .summary, _⟩ | some ⟨.shifted .summary, _⟩ => False
  | some ⟨.runningNext _, _⟩ => q.items ≠ []
  | some ⟨.runningGroup size rest _, _⟩ =>
    0 < size ∧ size ≤ q.items.length ∧ rest.flatten <+: q.items.drop size ∧ [] ∉ rest
  | _ => True

variable {q}

theorem inProgress_le_length (h : q.Orderly) : q.inProgress ≤ q.items.length := by
  unfold Orderly at h
  unfold inProgress
  split
  · next use force hdrain =>
    rw [hdrain] at h
    have hitems : q.items ≠ [] := by
      cases use with
      | summary => exact absurd h id
      | collect => exact h
      | plain => exact h
    exact length_pos_iff.mpr hitems
  · next hdrain =>
    rw [hdrain] at h
    exact h.2.1
  · exact Nat.zero_le _

/-- The groups that are left are among the messages that wait. -/
theorem groupsLeft_isPrefix (h : q.Orderly) : q.groupsLeft <+: q.waiting := by
  unfold Orderly at h
  unfold groupsLeft
  split
  · next hdrain =>
    rw [hdrain] at h
    unfold waiting inProgress
    rw [hdrain]
    exact h.2.2.1
  · exact nil_prefix

/-- What waits in a queue that may be gone. -/
def waitingIn (q : Option FollowupQueueState) : List QueuedRun := q.elim [] waiting

def unsummarizedIn (q : Option FollowupQueueState) : List QueuedRun := q.elim [] unsummarized

/-! ## A step of a drain -/

/-- Between two waits the drain hands over the messages that it takes from the waiting ones,
in order, and the dropped messages that it takes from the unsummarized ones. -/
structure HandsOver (q : FollowupQueueState) (next : FollowupQueueState × List FollowupCall) :
    Prop where
  waiting : q.waiting = next.2.flatMap (·.messages) ++ waitingIn next.1.rearm
  unsummarized : q.unsummarized = next.2.flatMap (·.dropped) ++ unsummarizedIn next.1.rearm
  orderly : ∀ q', next.1.rearm = some q' → q'.Orderly
  delivers : ∀ call ∈ next.2, call.Delivers

theorem waitingIn_loopHead : waitingIn (q.loopHead force).rearm = q.items := by
  rw [rearm_loopHead]
  split
  · rfl
  · next hwork => exact (hasWork_eq_false_iff.mp (by simpa using hwork)).1.symm

theorem unsummarizedIn_loopHead : unsummarizedIn (q.loopHead force).rearm = q.dropped := by
  rw [rearm_loopHead]
  split
  · rfl
  · next hwork => exact (hasWork_eq_false_iff.mp (by simpa using hwork)).2.symm

theorem orderly_loopHead (h : (q.loopHead force).rearm = some q') : q'.Orderly := by
  rw [rearm_loopHead] at h
  split_ifs at h
  exact (some.inj h) ▸ trivial

theorem rearm_leaveLoop_eq : q.leaveLoop.rearm = (q.loopHead false).rearm := by
  rw [rearm_leaveLoop, rearm_loopHead]

variable {next : FollowupQueueState}

theorem handsOver_loopHead (hwaiting : q.waiting = next.items)
    (hdropped : q.unsummarized = next.dropped) : HandsOver q (next.loopHead force, []) where
  waiting := by rw [waitingIn_loopHead]; exact hwaiting
  unsummarized := by rw [unsummarizedIn_loopHead]; exact hdropped
  orderly _ h := orderly_loopHead h
  delivers _ h := absurd h (by simp)

theorem handsOver_leaveLoop (hwaiting : q.waiting = next.items)
    (hdropped : q.unsummarized = next.dropped) : HandsOver q (next.leaveLoop, []) where
  waiting := by rw [rearm_leaveLoop_eq, waitingIn_loopHead]; exact hwaiting
  unsummarized := by rw [rearm_leaveLoop_eq, unsummarizedIn_loopHead]; exact hdropped
  orderly _ h := orderly_loopHead (rearm_leaveLoop_eq ▸ h)
  delivers _ h := absurd h (by simp)

theorem handsOver_waitIn {phase : DrainPhase} {calls : List FollowupCall}
    (hwaiting : q.waiting = calls.flatMap (·.messages) ++ (next.waitIn phase force).waiting)
    (hdropped : q.unsummarized =
      calls.flatMap (·.dropped) ++ (next.waitIn phase force).unsummarized)
    (horderly : (next.waitIn phase force).Orderly) (hdelivers : ∀ call ∈ calls, call.Delivers) :
    HandsOver q (next.waitIn phase force, calls) where
  waiting := hwaiting
  unsummarized := hdropped
  orderly _ h := some.inj h ▸ horderly
  delivers := hdelivers

theorem delivers_single (item : QueuedRun) : ∀ call ∈ [FollowupCall.single item], call.Delivers := by
  intro call hcall
  rw [mem_singleton] at hcall
  subst hcall
  exact .single item rfl rfl rfl

/-- The items and the dropped messages of a queue without calls in progress. -/
structure AtRest (q : FollowupQueueState) : Prop where
  waiting : q.waiting = q.items
  unsummarized : q.unsummarized = q.dropped

theorem atRest_of_phase {phase : DrainPhase} (hdrain : q.drain = some ⟨phase, force⟩)
    (hphase : phase.isRunning = false) (hshifted : phase ≠ .shifted .summary) : AtRest q := by
  constructor
  · unfold waiting inProgress
    rw [hdrain]
    cases phase <;> first | rfl | exact absurd hphase (by simp [DrainPhase.isRunning])
  · unfold unsummarized summaryInProgress
    rw [hdrain]
    cases phase with
    | shifted use =>
      cases use with
      | summary => exact absurd rfl hshifted
      | collect => rfl
      | plain => rfl
    | debouncing | skipped | noItem => rfl
    | runningNext | runningSummary | runningGroup =>
      exact absurd hphase (by simp [DrainPhase.isRunning])

theorem handsOver_afterDebounce (host : RouteHost) (hrest : AtRest q)
    (hsafe : q.mode ≠ .collect → (previewQueueSummaryPrompt q).isSome = true → q.items = [])
    (force : Bool) : HandsOver q (q.afterDebounce host force) := by
  have hcases := afterDebounce_cases host q force
  generalize q.afterDebounce host force = next at hcases ⊢
  have hnext : ∀ {item rest} {use : NextItemUse} {force : Bool}, q.items = item :: rest →
      use ≠ .summary →
      HandsOver q (q.waitIn (.runningNext use) force, [.single item]) := by
    intro item rest use force hitems huse
    refine handsOver_waitIn ?_ ?_ ?_ (delivers_single item)
    · rw [hrest.waiting, hitems]
      change item :: rest = [item] ++ q.items.drop 1
      rw [hitems]
      rfl
    · rw [hrest.unsummarized]
      cases use with
      | summary => exact absurd rfl huse
      | collect => rfl
      | plain => rfl
    · have hne : q.items ≠ [] := by rw [hitems]; simp
      cases use with
      | summary => exact absurd rfl huse
      | collect => exact hne
      | plain => exact hne
  cases hcases with
  | skipped | collectNone | summaryNone | plainNone =>
    exact handsOver_waitIn hrest.waiting hrest.unsummarized trivial (by simp)
  | collectNext _ item rest hitems force => exact hnext hitems (by simp)
  | plainNext _ _ item rest hitems force => exact hnext hitems (by simp)
  | summaryNext hmode prompt run hprompt item rest hitems force =>
    have hnone := hsafe hmode (by rw [hprompt]; rfl)
    rw [hnone] at hitems
    exact nomatch hitems
  | noRun => exact handsOver_leaveLoop hrest.waiting hrest.unsummarized

theorem handsOver_runSummary (hrest : AtRest q) (items : List QueuedRun) :
    HandsOver q (q.runSummary force items) := by
  rcases runSummary_cases q force items with ⟨prompt, run, hprompt, heq⟩ | ⟨_, heq⟩
  · rw [heq]
    refine handsOver_waitIn hrest.waiting ?_ trivial ?_
    · rw [hrest.unsummarized]
      exact (append_nil _).symm.trans (by simp [FollowupCall.summaryOnly, unsummarized,
        summaryInProgress])
    · intro call hcall
      rw [mem_singleton] at hcall
      subst hcall
      exact .summary rfl (summaryOf_preview hprompt)
  · exact heq ▸ handsOver_leaveLoop hrest.waiting hrest.unsummarized

theorem handsOver_afterSkipped (hrest : AtRest q) : HandsOver q (q.afterSkipped force) := by
  rcases afterSkipped_cases q force with ⟨_, heq⟩ | ⟨group, rest, hsplit, hgroup, heq⟩
  · exact heq ▸ handsOver_runSummary hrest []
  · rw [heq]
    have hflatten := flatten_splitCollectItemsByAuthorization q.items
    rw [hsplit, flatten_cons] at hflatten
    have hdrop : q.items.drop group.length = rest.flatten := by
      rw [← hflatten, drop_left]
    refine handsOver_waitIn ?_ ?_ ⟨length_pos_iff.mpr hgroup, ?_, ?_, ?_⟩ ?_
    · rw [hrest.waiting]
      change q.items = group ++ [] ++ q.items.drop group.length
      rw [hdrop, append_nil, hflatten]
    · rw [hrest.unsummarized]
      unfold unsummarized summaryInProgress FollowupCall.collected
      cases previewQueueSummaryPrompt q <;> simp
    · have hlength := congrArg List.length hflatten
      rw [length_append] at hlength
      change group.length ≤ q.items.length
      omega
    · change rest.flatten <+: q.items.drop group.length
      rw [hdrop]
    · intro hnil
      exact ne_nil_of_mem_split (hsplit ▸ mem_cons_of_mem _ hnil) rfl
    · intro call hcall
      rw [mem_singleton] at hcall
      exact hcall ▸ delivers_collected hgroup _

theorem handsOver_afterGroup {size : ℕ} {rest : List (List QueuedRun)} {pendingSummary : Bool}
    (hdrain : q.drain = some ⟨.runningGroup size rest pendingSummary, force⟩) (h : q.Orderly) :
    HandsOver q (q.afterGroup force size rest pendingSummary) := by
  have hwaiting : q.waiting = (q.spliced size pendingSummary).items := by
    unfold waiting inProgress
    rw [hdrain, spliced_items]
  have hdropped : q.unsummarized = (q.spliced size pendingSummary).dropped := by
    unfold unsummarized summaryInProgress
    rw [hdrain, spliced_dropped]
    cases pendingSummary <;> rfl
  unfold Orderly at h
  rw [hdrain] at h
  obtain ⟨_, _, hprefix, hnil⟩ := h
  cases rest with
  | nil =>
    rw [afterGroup_nil]
    exact handsOver_loopHead hwaiting hdropped
  | cons group rest =>
    simp only [mem_cons, not_or] at hnil
    rw [afterGroup_cons, startGroup_of_ne_nil force rest none (Ne.symm hnil.1)]
    obtain ⟨later, hlater⟩ := hprefix
    rw [flatten_cons, append_assoc] at hlater
    have hitems : (q.spliced size pendingSummary).items = group ++ (rest.flatten ++ later) := by
      rw [spliced_items, hlater]
    have hdrop : (q.spliced size pendingSummary).items.drop group.length = rest.flatten ++ later := by
      rw [hitems, drop_left]
    refine handsOver_waitIn ?_ ?_ ⟨length_pos_iff.mpr (Ne.symm hnil.1), ?_, ?_, hnil.2⟩ ?_
    · rw [hwaiting]
      change _ = group ++ [] ++ (q.spliced size pendingSummary).items.drop group.length
      rw [hdrop, append_nil, hitems]
    · rw [hdropped]
      rfl
    · change group.length ≤ (q.spliced size pendingSummary).items.length
      rw [hitems, length_append]
      omega
    · change rest.flatten <+: (q.spliced size pendingSummary).items.drop group.length
      rw [hdrop]
      exact prefix_append _ _
    · intro call hcall
      rw [mem_singleton] at hcall
      subst hcall
      exact .collected (Ne.symm hnil.1) rfl rfl

/-- The drain does not put a summary in place of the prompt of a message. -/
def SparesPrompt (q : FollowupQueueState) (phase : DrainPhase) : Prop :=
  phase = .debouncing → q.mode ≠ .collect → (previewQueueSummaryPrompt q).isSome = true →
    q.items = []

theorem handsOver_proceed (host : RouteHost) (hdrain : q.drain = some d) (h : q.Orderly)
    (hsafe : q.SparesPrompt d.phase) : HandsOver q (q.proceed host d) := by
  obtain ⟨phase, force⟩ := d
  cases phase with
  | debouncing =>
    exact handsOver_afterDebounce host (atRest_of_phase hdrain rfl (by simp)) (hsafe rfl) force
  | skipped => exact handsOver_afterSkipped (atRest_of_phase hdrain rfl (by simp))
  | runningNext use =>
    unfold Orderly at h
    rw [hdrain] at h
    have hwaiting : q.waiting = q.items.tail := by
      unfold waiting inProgress
      rw [hdrain, drop_one]
    have hdropped : use ≠ .summary → q.unsummarized = q.dropped := by
      intro huse
      unfold unsummarized summaryInProgress
      rw [hdrain]
      cases use with
      | summary => exact absurd rfl huse
      | collect => rfl
      | plain => rfl
    cases use with
    | summary => exact absurd h id
    | collect => exact handsOver_waitIn hwaiting (hdropped (by simp)) trivial (by simp)
    | plain => exact handsOver_waitIn hwaiting (hdropped (by simp)) trivial (by simp)
  | shifted use =>
    cases use with
    | summary =>
      unfold Orderly at h
      rw [hdrain] at h
      exact absurd h id
    | collect =>
      have hrest := atRest_of_phase hdrain rfl (by simp)
      exact handsOver_loopHead hrest.waiting hrest.unsummarized
    | plain =>
      have hrest := atRest_of_phase hdrain rfl (by simp)
      exact handsOver_loopHead hrest.waiting hrest.unsummarized
  | noItem use =>
    have hrest := atRest_of_phase hdrain rfl (by simp)
    cases use with
    | collect => exact handsOver_runSummary hrest _
    | summary => exact handsOver_leaveLoop hrest.waiting hrest.unsummarized
    | plain => exact handsOver_leaveLoop hrest.waiting hrest.unsummarized
  | runningSummary =>
    refine handsOver_loopHead ?_ ?_
    · unfold waiting inProgress
      rw [hdrain]
      rfl
    · unfold unsummarized summaryInProgress
      rw [hdrain]
      rfl
  | runningGroup size rest pendingSummary => exact handsOver_afterGroup hdrain h

/-! ## A new message -/

variable (q)

/-- The queue with a new message at its end, after `applyQueueDropPolicy` made room for it. -/
def pushed (item : QueuedRun) : FollowupQueueState :=
  { q.dropFront with items := q.dropFront.items ++ [item] }

/-- Making room takes no message of a call in progress, and no message into a count that is
about to be cleared. -/
def OverflowSafe : Prop :=
  q.dropCount = 0 ∨
    (q.inProgress = 0 ∧ (q.dropPolicy = .summarize → q.summaryInProgress = false))

theorem dropFront_items : q.dropFront.items = q.items.drop q.dropCount := by
  unfold dropFront
  dsimp only
  split <;> rfl

theorem dropFront_drain : q.dropFront.drain = q.drain := by
  unfold dropFront
  dsimp only
  split <;> rfl

theorem dropFront_dropped : q.dropFront.dropped =
    q.dropped ++ if q.dropPolicy = .summarize then q.items.take q.dropCount else [] := by
  unfold dropFront
  dsimp only
  split
  · rfl
  · rw [append_nil]

theorem pushed_inProgress (item : QueuedRun) : (q.pushed item).inProgress = q.inProgress := by
  unfold inProgress pushed
  dsimp only
  rw [dropFront_drain]

theorem pushed_summaryInProgress (item : QueuedRun) :
    (q.pushed item).summaryInProgress = q.summaryInProgress := by
  unfold summaryInProgress pushed
  dsimp only
  rw [dropFront_drain]

theorem pushed_items (item : QueuedRun) :
    (q.pushed item).items = q.items.drop q.dropCount ++ [item] := by
  unfold pushed
  dsimp only
  rw [dropFront_items]

variable {q}

/-- Of the waiting messages and the new one, the first ones are dropped and the others wait. -/
theorem waiting_pushed (h : q.Orderly) (hsafe : q.OverflowSafe) (item : QueuedRun) :
    q.waiting ++ [item] = q.items.take q.dropCount ++ (q.pushed item).waiting := by
  unfold waiting
  rw [pushed_inProgress, pushed_items]
  rcases hsafe with hnone | ⟨hidle, _⟩
  · rw [hnone, drop_zero, take_zero, nil_append, drop_append_of_le_length (inProgress_le_length h)]
  · rw [hidle, drop_zero, drop_zero, ← append_assoc, take_append_drop]

theorem unsummarized_pushed (hsafe : q.OverflowSafe) (item : QueuedRun) :
    (q.pushed item).unsummarized =
      q.unsummarized ++ if q.dropPolicy = .summarize then q.items.take q.dropCount else [] := by
  unfold unsummarized
  rw [pushed_summaryInProgress]
  have hdropped : (q.pushed item).dropped = q.dropFront.dropped := rfl
  rw [hdropped, dropFront_dropped]
  cases hprogress : q.summaryInProgress with
  | false => simp
  | true =>
    rcases hsafe with hnone | ⟨_, hclear⟩
    · rw [hnone, take_zero]
      simp
    · rw [if_neg (show ¬ q.dropPolicy = .summarize from fun hpolicy =>
        absurd (hclear hpolicy) (by simp [hprogress]))]
      simp

theorem orderly_pushed (h : q.Orderly) (hsafe : q.OverflowSafe) (item : QueuedRun) :
    (q.pushed item).Orderly := by
  have hitems := pushed_items q item
  have hdrain : (q.pushed item).drain = q.drain := dropFront_drain q
  have hlength := inProgress_le_length h
  unfold Orderly at h ⊢
  rw [hdrain]
  split
  · next heq => simp [heq] at h
  · next heq => simp [heq] at h
  · rw [hitems]
    simp
  · next size rest pendingSummary force heq =>
    rw [heq] at h
    obtain ⟨hpos, hle, hprefix, hnil⟩ := h
    have hprogress : q.inProgress = size := by
      unfold inProgress
      rw [heq]
    have hnone : q.dropCount = 0 := by
      rcases hsafe with hnone | ⟨hidle, _⟩
      · exact hnone
      · omega
    rw [hitems, hnone, drop_zero]
    refine ⟨hpos, ?_, ?_, hnil⟩
    · rw [length_append]
      omega
    · rw [drop_append_of_le_length hle]
      exact hprefix.trans (prefix_append _ _)
  · trivial

/-! ## A removed queue -/

/-- The groups that are left have messages. -/
def GroupsNonempty (q : FollowupQueueState) : Prop :=
  match q.drain with
  | some ⟨.runningGroup _ rest _, _⟩ => [] ∉ rest
  | _ => True

/-- A queue that a clear has emptied. -/
structure Emptied (q : FollowupQueueState) : Prop where
  idle : q.hasWork = false
  groups : q.GroupsNonempty

/-- Between two waits the drain of an emptied queue hands over what is left in its groups. -/
structure HandsLeft (q : FollowupQueueState) (next : FollowupQueueState × List FollowupCall) :
    Prop where
  groupsLeft : q.groupsLeft = next.2.flatMap (·.messages) ++ next.1.groupsLeft
  dropped : next.2.flatMap (·.dropped) = []
  groups : next.1.GroupsNonempty
  delivers : ∀ call ∈ next.2, call.Delivers

/-- A wait in which no group is left. -/
theorem handsLeft_of_none (h : q.groupsLeft = next.groupsLeft)
    (hgroups : next.GroupsNonempty) : HandsLeft q (next, []) :=
  ⟨h, rfl, hgroups, fun _ hcall => absurd hcall (by simp)⟩

theorem handsLeft_proceed (host : RouteHost) (hdrain : q.drain = some d) (h : q.Emptied) :
    HandsLeft q (q.proceed host d) := by
  have hhead : ∀ {next : FollowupQueueState} {force : Bool}, Consumes q next →
      next.loopHead force = next.leaveLoop := fun hnext => loopHead_of_idle (hnext.hasWork h.idle) _
  have hrefl := Consumes.refl q
  have hgroups := h.groups
  have hleft : q.groupsLeft = match d.phase with
      | .runningGroup _ rest _ => rest.flatten
      | _ => [] := by
    unfold groupsLeft
    rw [hdrain]
    obtain ⟨phase, force⟩ := d
    cases phase <;> rfl
  unfold GroupsNonempty at hgroups
  rw [hdrain] at hgroups
  obtain ⟨phase, force⟩ := d
  cases phase with
  | debouncing =>
    change HandsLeft q (q.afterDebounce host force)
    obtain ⟨hcalls, hnext⟩ := afterDebounce_of_idle host h.idle force
    generalize q.afterDebounce host force = next at hcalls hnext ⊢
    obtain ⟨queue, calls⟩ := next
    change calls = [] at hcalls
    subst hcalls
    dsimp only at hnext
    rcases hnext with heq | ⟨phase, force', hphase, heq⟩
    · subst heq
      exact handsLeft_of_none hleft trivial
    · rcases hphase with rfl | ⟨use, rfl⟩ <;> subst heq <;>
        exact handsLeft_of_none hleft trivial
  | skipped =>
    change HandsLeft q (q.afterSkipped force)
    rw [afterSkipped_of_idle h.idle]
    exact handsLeft_of_none hleft trivial
  | runningNext use => exact handsLeft_of_none hleft trivial
  | shifted use =>
    cases use with
    | summary =>
      change HandsLeft q (q.clearQueueSummaryState.loopHead force, [])
      rw [hhead hrefl.clearQueueSummaryState]
      exact handsLeft_of_none hleft trivial
    | collect =>
      change HandsLeft q (q.loopHead force, [])
      rw [hhead hrefl]
      exact handsLeft_of_none hleft trivial
    | plain =>
      change HandsLeft q (q.loopHead force, [])
      rw [hhead hrefl]
      exact handsLeft_of_none hleft trivial
  | noItem use =>
    cases use with
    | collect =>
      change HandsLeft q (q.runSummary force q.items)
      rw [runSummary_of_idle h.idle]
      exact handsLeft_of_none hleft trivial
    | summary => exact handsLeft_of_none hleft trivial
    | plain => exact handsLeft_of_none hleft trivial
  | runningSummary =>
    change HandsLeft q (q.clearQueueSummaryState.loopHead force, [])
    rw [hhead hrefl.clearQueueSummaryState]
    exact handsLeft_of_none hleft trivial
  | runningGroup size rest pendingSummary =>
    have hspliced := consumes_spliced q size pendingSummary
    cases rest with
    | nil =>
      change HandsLeft q ((q.spliced size pendingSummary).loopHead force, [])
      rw [hhead hspliced]
      exact handsLeft_of_none hleft trivial
    | cons group rest =>
      simp only [mem_cons, not_or] at hgroups
      change HandsLeft q ((q.spliced size pendingSummary).startGroup force group rest none)
      rw [startGroup_of_ne_nil force rest none (Ne.symm hgroups.1)]
      refine ⟨?_, rfl, hgroups.2, fun call hcall => ?_⟩
      · rw [hleft]
        change group ++ rest.flatten = group ++ [] ++ rest.flatten
        rw [append_nil]
      · rw [mem_singleton] at hcall
        subst hcall
        exact .collected (Ne.symm hgroups.1) rfl rfl

theorem groupsNonempty_of_orderly (h : q.Orderly) : q.GroupsNonempty := by
  unfold Orderly at h
  unfold GroupsNonempty
  split
  · next hdrain =>
    rw [hdrain] at h
    exact h.2.2.2
  · trivial

end FollowupQueueState

end OpenClaw
