import Mathlib.Data.Finset.Card
import OpenClaw.Lib.Run
import OpenClaw.Text.Basic

/-!
# The pipeline executor

A pipeline is run in rounds. The steps of a round start together, settle in any order, and
the next round begins when all of them have settled. The first error that leaves a step
rejects the run; the other steps of its round still settle.

`executeStep` is the outside world: it returns or throws, when and what it likes.
-/

namespace OpenClaw

/-! ## Pipelines -/

structure PipelineStep where
  id : Str
  skill : Str := []
  dependsOn : List Str := []
  condition : Option Str := none
  outputAs : Str
  compensatingAction : Option Str := none
deriving DecidableEq

/-- `error_policy.on_step_fail`. -/
inductive OnStepFail where
  | compensate | pauseAndNotify | skipContinue
deriving DecidableEq

structure Pipeline where
  steps : List PipelineStep
  onStepFail : OnStepFail

/-- `ctx`, with the values of the outputs, inputs and environment left open. -/
structure StepContext (V : Type*) where
  outputs : Str → Option V
  inputs : Str → Option V
  env : Option (Str → Option V)

/-- What `checkIntentGate` decides, or that it fails. -/
inductive IntentGate where
  | blocked | query | passed | failed
deriving DecidableEq

/-- The functions and constants around the executor. -/
structure PipelineSurroundings (V E : Type*) where
  /-- `evaluateCondition`, given `stepIdToOutputAs` as its last argument. -/
  evaluateCondition : Str → StepContext V → (Str → Option Str) → Bool
  intentGate : IntentGate
  /-- `true` as the value of `scan_only`. -/
  scanOnly : V
  /-- `err.message`, or `String(err)`. -/
  errorMsg : E → Str
  /-- `/dispatched/.test(String(output?.status))`. -/
  isDispatched : V → Bool

/-! ## The log -/

/-- The records that the executor itself hands to `execLog`. -/
structure PipelineLogEntry where
  pipelineStep : Str
  skillId : Str
  actionVerb : Str
  /-- `output.error` or `output.compensating_action`. -/
  output : Str
  failed : Bool
  compensationStatus : Str
deriving DecidableEq

inductive PipelineEvent where
  | started (id : Str)
  | completed (id : Str)
  | failed (id : Str)
  | logged (entry : PipelineLogEntry)
deriving DecidableEq

/-- What leaves the `catch` block. -/
inductive PipelineError (E : Type*) where
  | rethrown (err : E)
  | referenceError (name : Str)

inductive PipelinePhase (E : Type*) where
  | running
  | returned
  | rejected (error : PipelineError E)

def PipelinePhase.isRejected {E : Type*} : PipelinePhase E → Bool
  | rejected _ => true
  | _ => false

/-- A run of `executePipeline`. The history lists what happened, the first event first. -/
structure PipelineRun (V E : Type*) where
  ctx : StepContext V
  completed : Finset Str := ∅
  inFlight : List PipelineStep := []
  phase : PipelinePhase E := .running
  history : List PipelineEvent := []

section

variable {V E : Type*} (env : PipelineSurroundings V E) (pipeline : Pipeline)

/-! ## Rounds -/

/-- A later step of the same id overwrites an earlier one. -/
def Pipeline.stepIdToOutputAs (id : Str) : Option Str :=
  (pipeline.steps.reverse.find? (·.id = id)).map (·.outputAs)

variable (step : PipelineStep)

/-- The condition of a step, where it has one that is not empty. -/
def conditionHolds (ctx : StepContext V) (step : PipelineStep) : Bool :=
  match step.condition with
  | none => true
  | some condition => condition = [] || env.evaluateCondition condition ctx pipeline.stepIdToOutputAs

variable (completed : Finset Str)

def getReadySteps (ctx : StepContext V) : List PipelineStep :=
  pipeline.steps.filter fun step =>
    step.id ∉ completed && step.dependsOn.all (· ∈ completed) && conditionHolds env pipeline ctx step

/-- The head of the `while` loop: a round, or the end of the run. -/
def nextRound (run : PipelineRun V E) : PipelineRun V E :=
  if run.completed.card < pipeline.steps.length then
    let ready := getReadySteps env pipeline run.completed run.ctx
    if ready = [] then { run with phase := .returned }
    else
      { run with
        inFlight := ready
        history := run.history ++ ready.map fun step => .started step.id }
  else { run with phase := .returned }

/-! ## Errors -/

/-- `output` is a constant of the `try` block. The `catch` block does not see it. -/
def outputInCatch : Except (PipelineError E) V := .error (.referenceError "output".toList)

def skippedEntry (errorMsg : Str) : PipelineLogEntry where
  pipelineStep := step.id
  skillId := step.skill
  actionVerb := "skip".toList
  output := errorMsg
  failed := true
  compensationStatus := "skipped".toList

def compensationEntry (action : Str) : PipelineLogEntry where
  pipelineStep := step.id
  skillId := step.skill
  actionVerb := "compensate".toList
  output := action
  failed := false
  compensationStatus := "triggered".toList

def failedEntry (errorMsg : Str) : PipelineLogEntry where
  pipelineStep := step.id
  skillId := step.skill
  actionVerb := "fail".toList
  output := errorMsg
  failed := true
  compensationStatus := "triggered".toList

/-- `step.compensating_action`, where it is not empty. -/
def PipelineStep.compensation? : Option Str :=
  step.compensatingAction.bind nonEmptyText?

/-- The compensations of the completed steps, the last declared first. -/
def compensations : List PipelineLogEntry :=
  (pipeline.steps.filter (·.id ∈ completed)).reverse.filterMap fun step =>
    step.compensation?.map (compensationEntry step)

/-- The `catch` block: the run that it leaves, and what it throws. -/
def catchBlock (output : Except (PipelineError E) V) (step : PipelineStep) (err : E)
    (run : PipelineRun V E) : PipelineRun V E × Option (PipelineError E) :=
  let errorMsg := env.errorMsg err
  -- the classes of errors choose between console messages only
  match output.map env.isDispatched with
  | .error error => (run, some error)
  | .ok _isSpawnSuccess =>
    match pipeline.onStepFail with
    | .skipContinue =>
      ({ run with
          completed := insert step.id run.completed
          history := run.history ++
            [.logged (skippedEntry step errorMsg), .completed step.id] }, none)
    | .compensate =>
      ({ run with
          history := run.history ++ (compensations pipeline run.completed).map .logged ++
            [.logged (failedEntry step errorMsg)] }, some (.rethrown err))
    | .pauseAndNotify => (run, some (.rethrown err))

inductive StepOutcome (V E : Type*) where
  | returned (output : V)
  | threw (err : E)

/-- A step of the round settles. `Promise.all` rejects with the first error. -/
def settleStep (outcome : StepOutcome V E) (run : PipelineRun V E) : PipelineRun V E :=
  let run := { run with inFlight := run.inFlight.erase step }
  match outcome with
  | .returned output =>
    { run with
      ctx := { run.ctx with outputs := Function.update run.ctx.outputs step.outputAs (some output) }
      completed := insert step.id run.completed
      history := run.history ++ [.completed step.id] }
  | .threw err =>
    let failed := { run with history := run.history ++ [.failed step.id] }
    match catchBlock env pipeline outputInCatch step err failed with
    | (run, none) => run
    | (run, some error) =>
      { run with phase := if run.phase.isRejected then run.phase else .rejected error }

/-! ## Runs -/

/-- `executePipeline` up to its loop. -/
def startPipeline (initialContext : StepContext V) (vars : Option (Str → Option V)) :
    PipelineRun V E :=
  let ctx := { initialContext with env := vars <|> initialContext.env }
  match env.intentGate with
  | .blocked => { ctx := ctx, phase := .returned }
  | .query =>
    { ctx := { ctx with
        env := some (Function.update (ctx.env.getD fun _ => none) "scan_only".toList
          (some env.scanOnly)) } }
  | .passed => { ctx := ctx }
  | .failed => { ctx := ctx }

inductive PipelineLabel (V E : Type*) where
  | round
  | settle (step : PipelineStep) (outcome : StepOutcome V E)

inductive ExecutorStep : PipelineRun V E → PipelineLabel V E → PipelineRun V E → Prop
  /-- All steps of the last round have settled without an error. -/
  | round {run : PipelineRun V E} (hphase : run.phase = .running) (hsettled : run.inFlight = []) :
      ExecutorStep run .round (nextRound env pipeline run)
  | settle {run : PipelineRun V E} {step : PipelineStep} (hstep : step ∈ run.inFlight)
      (outcome : StepOutcome V E) :
      ExecutorStep run (.settle step outcome) (settleStep env pipeline step outcome run)

end

end OpenClaw
