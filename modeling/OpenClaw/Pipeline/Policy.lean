import OpenClaw.Pipeline.Executor

/-!
# Dependencies and the error policy

A step starts in a round whose earlier steps have all settled, so it starts once and after
the steps that it depends on. The error policy is another matter: the `catch` block reads a
name that it does not see, and its error takes the place of the policy. What the policy
promises holds where no step throws, and elsewhere only where it promises nothing.
-/

namespace OpenClaw

open List

/-! ## What a history says -/

variable (history : List PipelineEvent)

/-- The ids of the steps that were started, in order. -/
def startedIds : List Str :=
  history.filterMap fun
    | .started id => some id
    | _ => none

theorem startedIds_append (history events : List PipelineEvent) :
    startedIds (history ++ events) = startedIds history ++ startedIds events :=
  filterMap_append

variable (pipeline : Pipeline)

/-- Before a step starts, the steps that it depends on have completed. -/
def StartsAfter (history : List PipelineEvent) : Prop :=
  ∀ before after, ∀ step ∈ pipeline.steps, history = before ++ .started step.id :: after →
    ∀ dep ∈ step.dependsOn, .completed dep ∈ before

theorem startsAfter_nil : StartsAfter pipeline [] := by
  intro before after step _ hsplit
  simp at hsplit

/-- New events keep the order if what they start depends on what completed before them. -/
theorem StartsAfter.append {pipeline : Pipeline} {history events : List PipelineEvent}
    (h : StartsAfter pipeline history) (hnew : ∀ step ∈ pipeline.steps, .started step.id ∈ events →
      ∀ dep ∈ step.dependsOn, .completed dep ∈ history) :
    StartsAfter pipeline (history ++ events) := by
  intro before after step hstep hsplit dep hdep
  rcases append_eq_append_iff.mp hsplit with ⟨more, hbefore, hevents⟩ | ⟨rest, hold, hrest⟩
  · rw [hbefore]
    apply mem_append_left
    apply hnew step hstep _ dep hdep
    rw [hevents]
    exact mem_append_right _ mem_cons_self
  · cases rest with
    | nil =>
      rw [append_nil] at hold
      rw [← hold]
      apply hnew step hstep _ dep hdep
      rw [nil_append] at hrest
      rw [← hrest]
      exact mem_cons_self
    | cons event rest =>
      obtain ⟨rfl, -⟩ := cons_eq_cons.mp hrest
      exact h before rest step hstep hold dep hdep

/-- The ids of the steps that were compensated, in order. -/
def compensatedIds : List Str :=
  history.filterMap fun
    | .logged entry => if entry.actionVerb = "compensate".toList then some entry.pipelineStep else none
    | _ => none

theorem compensatedIds_append (history events : List PipelineEvent) :
    compensatedIds (history ++ events) = compensatedIds history ++ compensatedIds events :=
  filterMap_append

/-- Every step ranks above the steps that it depends on. -/
def Pipeline.Acyclic : Prop :=
  ∃ rank : Str → ℕ, ∀ step ∈ pipeline.steps, ∀ dep ∈ step.dependsOn, rank dep < rank step.id

/-- A step with a true condition, and with dependencies for which the same holds. -/
inductive Reachable (pipeline : Pipeline) (holds : PipelineStep → Bool) : Str → Prop
  | step (step : PipelineStep) (hstep : step ∈ pipeline.steps) (hholds : holds step = true)
      (hdeps : ∀ dep ∈ step.dependsOn, Reachable pipeline holds dep) :
      Reachable pipeline holds step.id

/-- A step that completed and has a compensating action is compensated exactly once, after
the steps of this kind that depend on it. -/
def CompensatesInOrder (history : List PipelineEvent) : Prop :=
  ∀ step ∈ pipeline.steps, .completed step.id ∈ history → step.compensation?.isSome →
    ∃ before after, compensatedIds history = before ++ step.id :: after ∧
      step.id ∉ before ∧ step.id ∉ after ∧
      ∀ dependent ∈ pipeline.steps, .completed dependent.id ∈ history →
        dependent.compensation?.isSome → step.id ∈ dependent.dependsOn → dependent.id ∈ before

section

variable {V E : Type*} (env : PipelineSurroundings V E) (pipeline : Pipeline)

/-- What a run that is over owes to the dependencies and to the error policy. -/
structure HonoursPolicy (run : PipelineRun V E) : Prop where
  startsOnce : (startedIds run.history).Nodup
  startsAfter : StartsAfter pipeline run.history
  skips : pipeline.onStepFail = .skipContinue → run.phase.isRejected = false ∧
    (env.intentGate ≠ .blocked →
      ∀ id, Reachable pipeline (conditionHolds env pipeline run.ctx) id →
        id ∈ startedIds run.history)
  compensates : pipeline.onStepFail = .compensate →
    (∃ id, .failed id ∈ run.history) → CompensatesInOrder pipeline run.history

/-- Nothing of the run is left to happen. -/
def PipelineRun.IsOver (run : PipelineRun V E) : Prop :=
  (run.phase = .returned ∨ run.phase.isRejected) ∧ run.inFlight = []

def PipelineLabel.throws : PipelineLabel V E → Bool
  | .settle _ (.threw _) => true
  | _ => false

/-- The label of a step that completes and can be compensated. -/
def PipelineLabel.completesCompensable : PipelineLabel V E → Bool
  | .settle step (.returned _) => step.compensation?.isSome
  | _ => false

/-- The error policy is not called for, or has nothing to do. -/
def FailuresHarmless (labels : List (PipelineLabel V E)) : Prop :=
  match pipeline.onStepFail with
  | .skipContinue => ∀ label ∈ labels, label.throws = false
  | .compensate => (∀ label ∈ labels, label.throws = false) ∨
      ∀ label ∈ labels, label.completesCompensable = false
  | .pauseAndNotify => True

/-! ## One step of the executor -/

theorem settleStep_returned (step : PipelineStep) (output : V) (run : PipelineRun V E) :
    settleStep env pipeline step (.returned output) run =
      { run with
        ctx := { run.ctx with
          outputs := Function.update run.ctx.outputs step.outputAs (some output) }
        completed := insert step.id run.completed
        inFlight := run.inFlight.erase step
        history := run.history ++ [.completed step.id] } := rfl

/-- The policy of the pipeline makes no difference to a step that throws. -/
theorem settleStep_threw (step : PipelineStep) (err : E) (run : PipelineRun V E) :
    settleStep env pipeline step (.threw err) run =
      { run with
        inFlight := run.inFlight.erase step
        phase := if run.phase.isRejected then run.phase
          else .rejected (.referenceError "output".toList)
        history := run.history ++ [.failed step.id] } := rfl

theorem mem_getReadySteps {completed : Finset Str} {ctx : StepContext V} {step : PipelineStep} :
    step ∈ getReadySteps env pipeline completed ctx ↔
      step ∈ pipeline.steps ∧ step.id ∉ completed ∧ (∀ dep ∈ step.dependsOn, dep ∈ completed) ∧
        conditionHolds env pipeline ctx step = true := by
  unfold getReadySteps
  rw [mem_filter]
  simp only [Bool.and_eq_true, decide_eq_true_eq, all_eq_true, and_assoc]

/-- What the head of the loop does: the run ends with no step ready, or a round starts. -/
theorem nextRound_cases (hdistinct : (pipeline.steps.map (·.id)).Nodup) {run : PipelineRun V E}
    (hcompleted : ∀ id ∈ run.completed, id ∈ pipeline.steps.map (·.id)) :
    (nextRound env pipeline run = { run with phase := .returned } ∧
      getReadySteps env pipeline run.completed run.ctx = []) ∨
    nextRound env pipeline run =
      { run with
        inFlight := getReadySteps env pipeline run.completed run.ctx
        history := run.history ++ (getReadySteps env pipeline run.completed run.ctx).map
          fun step => .started step.id } := by
  unfold nextRound
  dsimp only
  split_ifs with hcard hready
  · exact .inl ⟨rfl, hready⟩
  · exact .inr rfl
  · refine .inl ⟨rfl, ?_⟩
    have hsub : run.completed ⊆ (pipeline.steps.map (·.id)).toFinset := by
      intro id hid
      rw [mem_toFinset]
      exact hcompleted id hid
    have hall : run.completed = (pipeline.steps.map (·.id)).toFinset := by
      apply Finset.eq_of_subset_of_card_le hsub
      rw [toFinset_card_of_nodup hdistinct, length_map]
      omega
    rw [eq_nil_iff_forall_not_mem]
    intro step hstep
    have hparts := (mem_getReadySteps env pipeline).mp hstep
    apply hparts.2.1
    rw [hall, mem_toFinset]
    exact mem_map_of_mem hparts.1

/-! ## Starts and completions -/

/-- The started steps are the completed ones, those in flight and those that threw. -/
structure Orderly (run : PipelineRun V E) : Prop where
  inFlight_sublist : run.inFlight.Sublist pipeline.steps
  inFlight_started : ∀ step ∈ run.inFlight,
    step.id ∈ startedIds run.history ∧ step.id ∉ run.completed
  startsOnce : (startedIds run.history).Nodup
  startsAfter : StartsAfter pipeline run.history
  started : run.phase.isRejected = false → ∀ id ∈ startedIds run.history,
    id ∈ run.completed ∨ id ∈ run.inFlight.map (·.id)
  completed_started : ∀ id ∈ run.completed, id ∈ startedIds run.history
  completed_mem : ∀ id ∈ run.completed, id ∈ pipeline.steps.map (·.id)
  completed_iff : ∀ id, .completed id ∈ run.history ↔ id ∈ run.completed
  ended : run.phase = .returned → run.inFlight = [] ∧
    (env.intentGate = .blocked ∨ getReadySteps env pipeline run.completed run.ctx = [])

variable {env pipeline} {run run' : PipelineRun V E} {label : PipelineLabel V E}

theorem orderly_start (initialContext : StepContext V) (vars : Option (Str → Option V)) :
    Orderly env pipeline (startPipeline env initialContext vars) := by
  have hempty : ∀ (ctx : StepContext V) (phase : PipelinePhase E),
      (phase = .returned → env.intentGate = .blocked) →
      Orderly env pipeline { ctx := ctx, phase := phase } := by
    intro ctx phase hphase
    constructor
    · exact nil_sublist _
    · intro step hstep
      exact absurd hstep not_mem_nil
    · exact nodup_nil
    · exact startsAfter_nil pipeline
    · intro _ id hid
      exact absurd hid not_mem_nil
    · intro id hid
      exact absurd hid (Finset.notMem_empty id)
    · intro id hid
      exact absurd hid (Finset.notMem_empty id)
    · intro id
      simp
    · exact fun hreturned => ⟨rfl, .inl (hphase hreturned)⟩
  unfold startPipeline
  dsimp only
  cases hgate : env.intentGate with
  | blocked => exact hempty _ _ fun _ => hgate
  | query => exact hempty _ _ fun hreturned => nomatch hreturned
  | passed => exact hempty _ _ fun hreturned => nomatch hreturned
  | failed => exact hempty _ _ fun hreturned => nomatch hreturned

theorem startedIds_round (steps : List PipelineStep) :
    startedIds (steps.map fun step => .started step.id) = steps.map (·.id) := by
  induction steps with
  | nil => rfl
  | cons first rest ih =>
    show first.id :: startedIds (rest.map _) = _
    rw [ih]
    rfl

section

variable (h : Orderly env pipeline run) (hdistinct : (pipeline.steps.map (·.id)).Nodup)
include h hdistinct

theorem Orderly.round (hphase : run.phase = .running)
    (hsettled : run.inFlight = []) : Orderly env pipeline (nextRound env pipeline run) := by
  have hcalm : run.phase.isRejected = false := by rw [hphase]; rfl
  rcases nextRound_cases env pipeline hdistinct h.completed_mem with ⟨heq, hready⟩ | heq
  · rw [heq]
    exact { h with
      started := fun _ => h.started hcalm
      ended := fun _ => ⟨hsettled, .inr hready⟩ }
  · rw [heq]
    set ready := getReadySteps env pipeline run.completed run.ctx
    have hsub : ready.Sublist pipeline.steps := filter_sublist
    have hready : ∀ step ∈ ready, step.id ∉ run.completed ∧
        ∀ dep ∈ step.dependsOn, dep ∈ run.completed := by
      intro step hstep
      have hparts := (mem_getReadySteps env pipeline).mp hstep
      exact ⟨hparts.2.1, hparts.2.2.1⟩
    have hstarted : ∀ id ∈ startedIds run.history, id ∈ run.completed := by
      intro id hid
      rcases h.started hcalm id hid with hdone | hflying
      · exact hdone
      · rw [hsettled] at hflying
        exact absurd hflying not_mem_nil
    have hids : startedIds (run.history ++ ready.map fun step => .started step.id) =
        startedIds run.history ++ ready.map (·.id) := by
      rw [startedIds_append, startedIds_round]
    constructor
    · exact hsub
    · intro step hstep
      refine ⟨?_, (hready step hstep).1⟩
      rw [hids]
      exact mem_append_right _ (mem_map_of_mem hstep)
    · rw [hids]
      refine h.startsOnce.append (hdistinct.sublist (hsub.map _)) ?_
      intro id hold hnew
      obtain ⟨step, hstep, rfl⟩ := mem_map.mp hnew
      exact (hready step hstep).1 (hstarted _ hold)
    · apply h.startsAfter.append
      intro step hstep hnew dep hdep
      obtain ⟨step', hstep', heq'⟩ := mem_map.mp hnew
      have hid : step'.id = step.id := PipelineEvent.started.inj heq'
      have hsame : step' = step := inj_on_of_nodup_map hdistinct (hsub.subset hstep') hstep hid
      rw [h.completed_iff]
      exact (hready step' hstep').2 dep (hsame ▸ hdep)
    · intro _ id hid
      rw [hids] at hid
      rcases mem_append.mp hid with hold | hnew
      · exact .inl (hstarted id hold)
      · exact .inr hnew
    · intro id hid
      rw [hids]
      exact mem_append_left _ (h.completed_started id hid)
    · exact h.completed_mem
    · intro id
      rw [mem_append, h.completed_iff]
      simp
    · intro hreturned
      rw [hphase] at hreturned
      exact nomatch hreturned

theorem Orderly.settle {step : PipelineStep}
    (hstep : step ∈ run.inFlight) (outcome : StepOutcome V E) :
    Orderly env pipeline (settleStep env pipeline step outcome run) := by
  have hnodup : (run.inFlight.map (·.id)).Nodup := hdistinct.sublist (h.inFlight_sublist.map _)
  have hother : ∀ other ∈ run.inFlight.erase step, other.id ≠ step.id := by
    intro other hmem hid
    have hsame := inj_on_of_nodup_map hnodup (mem_of_mem_erase hmem) hstep hid
    rw [hsame] at hmem
    exact (List.Nodup.of_map _ hnodup).not_mem_erase hmem
  have hflying : run.phase ≠ .returned := by
    intro hreturned
    rw [(h.ended hreturned).1] at hstep
    exact absurd hstep not_mem_nil
  cases outcome with
  | returned output =>
    rw [settleStep_returned]
    have hids : startedIds (run.history ++ [.completed step.id]) = startedIds run.history := by
      rw [startedIds_append]
      exact append_nil _
    constructor
    · exact erase_sublist.trans h.inFlight_sublist
    · intro other hmem
      rw [hids]
      have hparts := h.inFlight_started other (mem_of_mem_erase hmem)
      refine ⟨hparts.1, ?_⟩
      rw [Finset.mem_insert]
      exact fun hor => hor.elim (hother other hmem) hparts.2
    · rw [hids]
      exact h.startsOnce
    · apply h.startsAfter.append
      intro _ _ hnew
      simp at hnew
    · intro hcalm id hid
      rw [hids] at hid
      rcases h.started hcalm id hid with hdone | hfly
      · exact .inl (Finset.mem_insert_of_mem hdone)
      · obtain ⟨other, hmem, rfl⟩ := mem_map.mp hfly
        by_cases hsame : other = step
        · rw [hsame]
          exact .inl (Finset.mem_insert_self _ _)
        · exact .inr (mem_map_of_mem ((mem_erase_of_ne hsame).mpr hmem))
    · intro id hid
      rw [hids]
      rcases Finset.mem_insert.mp hid with rfl | hold
      · exact (h.inFlight_started step hstep).1
      · exact h.completed_started id hold
    · intro id hid
      rcases Finset.mem_insert.mp hid with rfl | hold
      · exact mem_map_of_mem (h.inFlight_sublist.subset hstep)
      · exact h.completed_mem id hold
    · intro id
      rw [mem_append, h.completed_iff, Finset.mem_insert]
      simp [or_comm]
    · exact fun hreturned => absurd hreturned hflying
  | threw err =>
    rw [settleStep_threw]
    have hids : startedIds (run.history ++ [.failed step.id]) = startedIds run.history := by
      rw [startedIds_append]
      exact append_nil _
    have hrejected : (if run.phase.isRejected then run.phase
        else PipelinePhase.rejected (E := E) (.referenceError "output".toList)).isRejected = true := by
      split_ifs with hold
      · exact hold
      · rfl
    constructor
    · exact erase_sublist.trans h.inFlight_sublist
    · intro other hmem
      rw [hids]
      exact h.inFlight_started other (mem_of_mem_erase hmem)
    · rw [hids]
      exact h.startsOnce
    · apply h.startsAfter.append
      intro _ _ hnew
      simp at hnew
    · intro hcalm
      rw [hrejected] at hcalm
      exact nomatch hcalm
    · intro id hid
      rw [hids]
      exact h.completed_started id hid
    · exact h.completed_mem
    · intro id
      rw [mem_append, h.completed_iff]
      simp
    · intro hreturned
      dsimp only at hreturned
      rw [hreturned] at hrejected
      exact nomatch hrejected

theorem Orderly.step
    (hstep : ExecutorStep env pipeline run label run') : Orderly env pipeline run' := by
  cases hstep with
  | round hphase hsettled => exact h.round hdistinct hphase hsettled
  | settle hmem outcome => exact h.settle hdistinct hmem outcome

end

/-! ## What the labels say of the history -/

theorem exists_mem_snoc {α : Type*} {p : α → Prop} {as : List α} {a : α} :
    (∃ b ∈ as ++ [a], p b) ↔ (∃ b ∈ as, p b) ∨ p a := by
  simp only [mem_append, mem_singleton, or_and_right, exists_or, exists_eq_left]

variable (pipeline) in
structure Recorded (run : PipelineRun V E) (labels : List (PipelineLabel V E)) : Prop where
  compensated : compensatedIds run.history = []
  rejected : run.phase.isRejected = true ↔ ∃ label ∈ labels, label.throws = true
  failed : (∃ id, .failed id ∈ run.history) ↔ ∃ label ∈ labels, label.throws = true
  completed : (∃ step ∈ pipeline.steps, .completed step.id ∈ run.history ∧
    step.compensation?.isSome) ↔ ∃ label ∈ labels, label.completesCompensable = true

theorem recorded_start (initialContext : StepContext V) (vars : Option (Str → Option V)) :
    Recorded pipeline (startPipeline env initialContext vars) [] := by
  have hcalm : (startPipeline env initialContext vars).phase.isRejected = false ∧
      (startPipeline env initialContext vars).history = [] := by
    unfold startPipeline
    cases env.intentGate <;> exact ⟨rfl, rfl⟩
  constructor
  · rw [hcalm.2]
    rfl
  · simp [hcalm.1]
  · simp [hcalm.2]
  · simp [hcalm.2]

variable {labels : List (PipelineLabel V E)}

theorem Recorded.round (h : Recorded pipeline run labels) (hphase : run.phase = .running)
    (horderly : Orderly env pipeline run) (hdistinct : (pipeline.steps.map (·.id)).Nodup) :
    Recorded pipeline (nextRound env pipeline run) (labels ++ [.round]) := by
  have hcalm : run.phase.isRejected = false := by rw [hphase]; rfl
  have hthrows : (∃ label ∈ labels ++ [.round], label.throws = true) ↔
      ∃ label ∈ labels, label.throws = true := by
    rw [exists_mem_snoc]
    exact or_iff_left Bool.false_ne_true
  have hcompletes : (∃ label ∈ labels ++ [.round], label.completesCompensable = true) ↔
      ∃ label ∈ labels, label.completesCompensable = true := by
    rw [exists_mem_snoc]
    exact or_iff_left Bool.false_ne_true
  rcases nextRound_cases env pipeline hdistinct horderly.completed_mem with ⟨heq, -⟩ | heq
  · rw [heq]
    constructor
    · exact h.compensated
    · rw [hthrows, ← h.rejected, hcalm]
      rfl
    · rw [hthrows, ← h.failed]
    · rw [hcompletes, ← h.completed]
  · rw [heq]
    constructor
    · rw [compensatedIds_append, h.compensated, nil_append]
      generalize getReadySteps env pipeline run.completed run.ctx = ready
      induction ready with
      | nil => rfl
      | cons first rest ih => exact ih
    · rw [hthrows, ← h.rejected]
    · rw [hthrows, ← h.failed]
      simp
    · rw [hcompletes, ← h.completed]
      simp

theorem Recorded.settle (h : Recorded pipeline run labels) {step : PipelineStep}
    (hstep : step ∈ run.inFlight) (horderly : Orderly env pipeline run)
    (hdistinct : (pipeline.steps.map (·.id)).Nodup) (outcome : StepOutcome V E) :
    Recorded pipeline (settleStep env pipeline step outcome run)
      (labels ++ [.settle step outcome]) := by
  have hmem : step ∈ pipeline.steps := horderly.inFlight_sublist.subset hstep
  cases outcome with
  | returned output =>
    rw [settleStep_returned]
    have hthrows : (∃ label ∈ labels ++ [.settle step (.returned output)], label.throws = true) ↔
        ∃ label ∈ labels, label.throws = true := by
      rw [exists_mem_snoc]
      exact or_iff_left Bool.false_ne_true
    constructor
    · rw [compensatedIds_append, h.compensated]
      rfl
    · rw [hthrows, ← h.rejected]
    · rw [hthrows, ← h.failed]
      simp
    · rw [exists_mem_snoc, ← h.completed]
      show _ ↔ _ ∨ step.compensation?.isSome = true
      constructor
      · rintro ⟨other, hother, hcompleted, hsome⟩
        rcases mem_append.mp hcompleted with hold | hnew
        · exact .inl ⟨other, hother, hold, hsome⟩
        · have hid : other.id = step.id := by simpa using hnew
          have hsame := inj_on_of_nodup_map hdistinct hother hmem hid
          exact .inr (hsame ▸ hsome)
      · rintro (⟨other, hother, hold, hsome⟩ | hsome)
        · exact ⟨other, hother, mem_append_left _ hold, hsome⟩
        · exact ⟨step, hmem, mem_append_right _ mem_cons_self, hsome⟩
  | threw err =>
    rw [settleStep_threw]
    have hthrows : ∃ label ∈ labels ++ [.settle step (.threw err)], label.throws = true :=
      ⟨_, mem_append_right _ mem_cons_self, rfl⟩
    constructor
    · rw [compensatedIds_append, h.compensated]
      rfl
    · refine ⟨fun _ => hthrows, fun _ => ?_⟩
      dsimp only
      split_ifs with hold
      · exact hold
      · rfl
    · refine ⟨fun _ => hthrows, fun _ => ⟨step.id, ?_⟩⟩
      exact mem_append_right _ mem_cons_self
    · rw [exists_mem_snoc, ← h.completed]
      simp [PipelineLabel.completesCompensable]

theorem Recorded.step (h : Recorded pipeline run labels) (horderly : Orderly env pipeline run)
    (hdistinct : (pipeline.steps.map (·.id)).Nodup)
    (hstep : ExecutorStep env pipeline run label run') :
    Recorded pipeline run' (labels ++ [label]) := by
  cases hstep with
  | round hphase _ => exact h.round hphase horderly hdistinct
  | settle hmem outcome => exact h.settle hmem horderly hdistinct outcome

theorem orderly_recorded_of_run (hdistinct : (pipeline.steps.map (·.id)).Nodup)
    {initialContext : StepContext V} {vars : Option (Str → Option V)}
    (hrun : Lts.Run (ExecutorStep env pipeline) (startPipeline env initialContext vars)
      labels run) : Orderly env pipeline run ∧ Recorded pipeline run labels := by
  refine hrun.historyInvariant (fun run labels => Orderly env pipeline run ∧
    Recorded pipeline run labels) ?_ ⟨orderly_start _ _, recorded_start _ _⟩
  intro run labels label run' h hstep
  exact ⟨h.1.step hdistinct hstep, h.2.step h.1 hdistinct hstep⟩

/-! ## The error policy -/

/-- When a run ends with no step ready, every reachable step has completed. -/
theorem completed_of_reachable
    (hready : getReadySteps env pipeline run.completed run.ctx = []) {id : Str}
    (hreachable : Reachable pipeline (conditionHolds env pipeline run.ctx) id) :
    id ∈ run.completed := by
  induction hreachable with
  | step step hstep hholds _ hdeps =>
    by_contra hopen
    have hmem : step ∈ getReadySteps env pipeline run.completed run.ctx :=
      (mem_getReadySteps env pipeline).mpr ⟨hstep, hopen, hdeps, hholds⟩
    rw [hready] at hmem
    exact absurd hmem not_mem_nil

/-- A run that is over has honoured the dependencies. It has honoured the error policy if and
only if the policy was not called for or had nothing to do. -/
theorem honoursPolicy_iff (hdistinct : (pipeline.steps.map (·.id)).Nodup)
    {initialContext : StepContext V} {vars : Option (Str → Option V)}
    (hrun : Lts.Run (ExecutorStep env pipeline) (startPipeline env initialContext vars)
      labels run) (hover : run.IsOver) :
    HonoursPolicy env pipeline run ↔ FailuresHarmless pipeline labels := by
  obtain ⟨horderly, hrecorded⟩ := orderly_recorded_of_run hdistinct hrun
  have hcalm : (∀ label ∈ labels, label.throws = false) ↔ run.phase.isRejected = false := by
    rw [← Bool.not_eq_true, hrecorded.rejected]
    simp
  have hskips : (run.phase.isRejected = false ∧ (env.intentGate ≠ .blocked →
      ∀ id, Reachable pipeline (conditionHolds env pipeline run.ctx) id →
        id ∈ startedIds run.history)) ↔ ∀ label ∈ labels, label.throws = false := by
    rw [hcalm]
    refine and_iff_left_of_imp ?_
    intro hphase hopen id hreachable
    have hreturned : run.phase = .returned := by
      rcases hover.1 with hreturned | hrejected
      · exact hreturned
      · rw [hphase] at hrejected
        exact nomatch hrejected
    have hready := (horderly.ended hreturned).2.resolve_left hopen
    exact horderly.completed_started id (completed_of_reachable hready hreachable)
  have hcompensates : ((∃ id, .failed id ∈ run.history) → CompensatesInOrder pipeline run.history) ↔
      (∀ label ∈ labels, label.throws = false) ∨
        ∀ label ∈ labels, label.completesCompensable = false := by
    have hnone : CompensatesInOrder pipeline run.history ↔
        ∀ label ∈ labels, label.completesCompensable = false := by
      have hcount : (∀ label ∈ labels, label.completesCompensable = false) ↔
          ¬ ∃ step ∈ pipeline.steps, .completed step.id ∈ run.history ∧
            step.compensation?.isSome := by
        rw [hrecorded.completed]
        simp
      rw [hcount]
      constructor
      · rintro h ⟨step, hstep, hcompleted, hsome⟩
        obtain ⟨before, after, hids, -⟩ := h step hstep hcompleted hsome
        rw [hrecorded.compensated] at hids
        simp at hids
      · intro h step hstep hcompleted hsome
        exact absurd ⟨step, hstep, hcompleted, hsome⟩ h
    rw [hnone, hrecorded.failed, hcalm, ← Bool.not_eq_true, hrecorded.rejected]
    exact imp_iff_not_or
  constructor
  · intro h
    unfold FailuresHarmless
    cases hpolicy : pipeline.onStepFail with
    | skipContinue => exact hskips.mp (h.skips hpolicy)
    | compensate => exact hcompensates.mp (h.compensates hpolicy)
    | pauseAndNotify => trivial
  · intro h
    unfold FailuresHarmless at h
    refine ⟨horderly.startsOnce, horderly.startsAfter, ?_, ?_⟩
    · intro hpolicy
      rw [hpolicy] at h
      exact hskips.mpr h
    · intro hpolicy
      rw [hpolicy] at h
      exact hcompensates.mpr h

end

/-! ## A step that throws -/

def fetchSurroundings : PipelineSurroundings Unit Unit where
  evaluateCondition _ _ _ := true
  intentGate := .passed
  scanOnly := ()
  errorMsg _ := "fetch failed".toList
  isDispatched _ := false

def emptyContext : StepContext Unit := ⟨fun _ => none, fun _ => none, none⟩

def scanStep : PipelineStep :=
  { id := "scan".toList, outputAs := "scan".toList, compensatingAction := some "undo".toList }

def sendStep : PipelineStep :=
  { id := "send".toList, outputAs := "send".toList, dependsOn := ["scan".toList] }

/-- Two steps, the second of which depends on the first. -/
def scanThenSend (onStepFail : OnStepFail) : Pipeline := ⟨[scanStep, sendStep], onStepFail⟩

/-- The first step throws. -/
def failedScan : PipelineRun Unit Unit :=
  settleStep fetchSurroundings (scanThenSend .skipContinue) scanStep (.threw ())
    (nextRound fetchSurroundings (scanThenSend .skipContinue)
      (startPipeline fetchSurroundings emptyContext none))

theorem run_failedScan : Lts.Run (ExecutorStep fetchSurroundings (scanThenSend .skipContinue))
    (startPipeline fetchSurroundings emptyContext none)
    [.round, .settle scanStep (.threw ())] failedScan :=
  .cons (.round rfl rfl) (.single (.settle (by decide +kernel) _))

theorem failedScan_isOver : failedScan.IsOver := ⟨.inr rfl, rfl⟩

theorem honoursPolicy_iff_failedScan :
    HonoursPolicy fetchSurroundings (scanThenSend .skipContinue) failedScan ↔
      FailuresHarmless (V := Unit) (E := Unit) (scanThenSend .skipContinue)
        [.round, .settle scanStep (.threw ())] :=
  honoursPolicy_iff (by decide +kernel) run_failedScan failedScan_isOver

/-- The first step throws under `skip_continue`, and the run is rejected. -/
theorem not_honoursPolicy : ¬ ∀ (env : PipelineSurroundings Unit Unit) (pipeline : Pipeline)
      (initialContext : StepContext Unit) (labels : List (PipelineLabel Unit Unit))
      (run : PipelineRun Unit Unit), (pipeline.steps.map (·.id)).Nodup → pipeline.Acyclic →
      Lts.Run (ExecutorStep env pipeline) (startPipeline env initialContext none) labels run →
      run.IsOver → HonoursPolicy env pipeline run := by
  intro h
  have hacyclic : (scanThenSend .skipContinue).Acyclic := by
    refine ⟨List.length ∘ List.filter (· = 'd'), ?_⟩
    decide +kernel
  have hpolicy := h fetchSurroundings (scanThenSend .skipContinue) emptyContext _ failedScan
    (by decide +kernel) hacyclic run_failedScan failedScan_isOver
  exact absurd (hpolicy.skips rfl).1 (by decide)

end OpenClaw
