import Quorum.BaseIsoTime
import Quorum.CostTypes

/-! The record of a query run: its status, the progress of its stages, and what its stages stored.
The table of allowed transitions says which status may follow which; a terminal status has none. -/

namespace Quorum

open IsoTime

inductive QueryRunStatus
  | draft
  | costReview
  | accepted
  | initialAnswersRunning
  | debateRound1Running
  | debateRound2Running
  | synthesisRunning
  | completed
  | partialResult
  | failed
  | timedOut
  | blockedByCost
  | cancelled
deriving DecidableEq, Repr

namespace QueryRunStatus

/-- `TERMINAL_STATUSES`. -/
def terminalStatuses : List QueryRunStatus :=
  [completed, partialResult, failed, timedOut, blockedByCost, cancelled]

def isTerminal (status : QueryRunStatus) : Bool := status ∈ terminalStatuses

/-- `ALLOWED_TRANSITIONS`. -/
def allowedTransitions : QueryRunStatus → List QueryRunStatus
  | draft => [costReview, cancelled]
  | costReview => [accepted, blockedByCost, cancelled]
  | accepted => [initialAnswersRunning, failed, partialResult, timedOut, cancelled]
  | initialAnswersRunning =>
      [debateRound1Running, completed, partialResult, failed, timedOut, cancelled]
  | debateRound1Running => [debateRound2Running, partialResult, failed, timedOut, cancelled]
  | debateRound2Running => [synthesisRunning, partialResult, failed, timedOut, cancelled]
  | synthesisRunning => [completed, partialResult, failed, timedOut, cancelled]
  | completed | partialResult | failed | timedOut | blockedByCost | cancelled => []

theorem allowedTransitions_of_isTerminal {status : QueryRunStatus} (h : status.isTerminal) :
    status.allowedTransitions = [] := by
  cases status <;> first | rfl | exact absurd h (by decide)

end QueryRunStatus

/-! ### Progress -/

inductive StageName
  | estimate
  | initialAnswers
  | debateRound1
  | debateRound2
  | synthesis
deriving DecidableEq, Repr

inductive StageState
  | pending
  | running
  | completed
  | failed
  | skipped
deriving DecidableEq, Repr

/-- What `failed_steps` and `missing_steps` list. -/
inductive StepName
  | stage (name : StageName)
  | pipeline
deriving DecidableEq, Repr

structure QueryRunStageProgress where
  stage : StageName
  state : StageState
  detail : Option String := none
deriving DecidableEq

def initialProgress : List QueryRunStageProgress :=
  [⟨.estimate, .completed, some "Estimate accepted."⟩, ⟨.initialAnswers, .pending, none⟩,
    ⟨.debateRound1, .pending, none⟩, ⟨.debateRound2, .pending, none⟩, ⟨.synthesis, .pending, none⟩]

/-- `_set_stage_state`: the first stage of that name takes the state and the detail. -/
def setStageState (stageName : StageName) (stageState : StageState) (detail : Option String) :
    List QueryRunStageProgress → List QueryRunStageProgress
  | [] => []
  | stage :: stages =>
      if stage.stage = stageName then { stage with state := stageState, detail := detail } :: stages
      else stage :: setStageState stageName stageState detail stages

/-- The first running stage, or the estimate. -/
def runningStageName : List QueryRunStageProgress → StageName
  | [] => .estimate
  | stage :: stages => if stage.state = .running then stage.stage else runningStageName stages

/-! ### What the stages store -/

structure TokenUsage where
  promptTokens : ℕ
  completionTokens : ℕ
deriving DecidableEq

inductive InitialAnswerStatus
  | completed
  | failed
deriving DecidableEq

inductive BillingClass
  | notBilled
  | possiblyBilled
deriving DecidableEq

structure InitialModelAnswer where
  slotNumber : ℕ
  modelId : String
  answerText : String
  status : InitialAnswerStatus
  tokenUsage : Option TokenUsage := none
  billingClass : Option BillingClass := none
deriving DecidableEq

structure DebateOutput where
  roundNumber : ℕ
  critiqueText : String
deriving DecidableEq

structure FinalSynthesis where
  text : String
deriving DecidableEq

/-- The usages of billed debate calls, each with its round; a call without a usage object has
none. -/
abbrev DebateUsages := List (ℕ × Option TokenUsage)

abbrev SynthesisUsages := List (Option TokenUsage)

inductive BillableStage
  | debate
  | synthesis
deriving DecidableEq

inductive StageBillingState
  | notEntered
  | entered
  | recorded
deriving DecidableEq

/-- The estimate that a run was priced with, and the two reasons for which it must not spend. -/
structure CostEstimate where
  estimatedCostUsd : Usd
  thresholdAction : CostThresholdAction
  globalCeilingReached : Bool := false
  spendMeteringUnavailable : Bool := false
deriving DecidableEq

/-- The previous question and final answer that a follow-up carries. -/
structure RunContext where
  priorQuestion : String
  priorSynthesis : String
deriving DecidableEq

/-- What a request gives a run when it creates it. -/
structure NewRun where
  accountId : Uuid
  queryText : String
  modelSlots : List ModelSlot
  costEstimate : CostEstimate
  context : Option RunContext := none
  mode : Mode := .panel
  spendKey : Option Uuid := none

structure QueryRun where
  queryRunId : Uuid
  accountId : Uuid
  queryText : String
  status : QueryRunStatus
  createdAt : Instant
  updatedAt : Instant
  startedAt : Option Instant
  modelSlots : List ModelSlot
  costEstimate : CostEstimate
  progress : List QueryRunStageProgress
  initialAnswers : List InitialModelAnswer
  debateOutputs : List DebateOutput
  finalSynthesis : Option FinalSynthesis
  failedSteps : List StepName
  missingSteps : List StepName
  debateCallUsages : DebateUsages
  synthesisCallUsages : SynthesisUsages
  context : Option RunContext
  mode : Mode
  historyVerdict : Option String
  spendKey : Uuid
  debateStage : StageBillingState
  synthesisStage : StageBillingState

def QueryRun.isTerminal (run : QueryRun) : Bool := run.status.isTerminal

end Quorum
