import Quorum.BaseHoare
import Quorum.RunActive

/-! The worker of a query run. It runs the stages of one run against the shared repository, and
between any two of its steps other requests may run operations of their own: a cancel of this run,
reads that evict, anything on other runs. What the providers answer, when the clock says that the
budget is spent, and where a step crashes are all parameters. A world keeps, beside the repository,
the status of the run after every operation on it. -/

namespace Quorum

open IsoTime Transaction

/-! ### What the worker does not decide -/

/-- The writes that other requests issue on the run of a worker: a cancel, a stage annotation that
opts into terminal runs, and the verdict of the terminal persist. -/
def RunWrite.ByOthers : RunWrite → Prop
  | .transition _ nextStatus failedSteps missingSteps =>
      nextStatus = .cancelled ∧ failedSteps = none ∧ missingSteps = none
  | .updateStatus _ write => write.allowTerminal = true
  | .keepHistoryVerdict _ => True
  | _ => False

/-- The operations of other requests: on this run only those writes, and no creation draws its
id. -/
def RunOp.ByOthers (queryRunId : Uuid) : RunOp → Prop
  | .create _ _ _ fresh => fresh ≠ queryRunId
  | .writeRun target write => target = queryRunId → write.ByOthers
  | _ => True

/-- How the future of a slot's answer ends when it is collected. -/
inductive FutureOutcome
  | answer (answer : InitialModelAnswer)
  | timeout
  | raised

structure DebateResult where
  debateOutputs : List DebateOutput
  failedSteps : List StepName
  missingSteps : List StepName
  timedOut : Bool
  liveCallUsages : DebateUsages

structure SynthesisResult where
  finalSynthesis : Option FinalSynthesis
  failedSteps : List StepName
  missingSteps : List StepName
  liveCallUsages : SynthesisUsages

/-- What surrounds a worker. The functions of a number are read at the worker's steps, in order. -/
structure Surroundings (queryRunId : Uuid) where
  interference : ℕ → List RunOp
  byOthers : ∀ n, ∀ op ∈ interference n, op.ByOthers queryRunId
  clock : ℕ → Instant
  overBudget : ℕ → Bool
  /-- The type of the exception that the step raises outside the repository. -/
  crashes : ℕ → Option String
  openrouterLiveExecutionEnabled : Bool
  openrouterApiKey : Bool
  /-- The deadline as the degraded stage's detail writes it. -/
  deadlineText : String
  /-- The answer of a slot of a run, asked for with or without a key. -/
  future : QueryRun → ModelSlot → Bool → FutureOutcome
  /-- How often the debate service announces its second round. -/
  announcements : ℕ
  runDebateRounds : QueryRun → List InitialModelAnswer → Bool → Except String DebateResult
  produceFinalSynthesis : QueryRun → List InitialModelAnswer → List DebateOutput → Bool →
    Except String SynthesisResult
  historyVerdict : QueryRun → Option (Option String)

inductive WorkerError
  | repository (error : RepositoryError)
  | crash (typeName : String)
deriving DecidableEq

/-- `type(exc).__name__`. -/
def WorkerError.typeName : WorkerError → String
  | .repository (.keyError _) => "KeyError"
  | .repository .activeQueryRunExists => "ActiveQueryRunExistsError"
  | .repository (.invalidTransition _ _) => "InvalidQueryRunTransitionError"
  | .repository .refused => "HTTPException"
  | .crash typeName => typeName

structure World where
  runs : QueryRuns
  step : ℕ
  /-- The status of the run after each operation, the latest first. -/
  trail : List (Option QueryRunStatus)

abbrev Worker (α : Type) := Script WorkerError World α

section

variable (queryRunId : Uuid)

def statusOf (runs : QueryRuns) : Option QueryRunStatus :=
  (runs.get? queryRunId).map QueryRun.status

/-- The repository after one operation, by whomever. -/
def World.commit (runs : QueryRuns) (w : World) : World :=
  { w with runs := runs, trail := statusOf queryRunId runs :: w.trail }

variable {queryRunId} (env : Surroundings queryRunId)

/-- The operations of other requests before the worker's next step. -/
def interleave (w : World) : World :=
  (env.interference w.step).foldl (fun w op => w.commit queryRunId (op.apply w.runs))
    { w with step := w.step + 1 }

/-- One step of the worker on the repository. -/
def onRepository {α : Type} (script : Instant → Repository α) : Worker α := fun w =>
  let w := interleave env w
  match script (env.clock w.step) w.runs with
  | .ok answer runs => .ok answer (w.commit queryRunId runs)
  | .error raised runs => .error (.repository raised) (w.commit queryRunId runs)

/-- A point of the worker outside the repository, where it may crash: a call of a service, of the
pool or of a recorder, a sleep, a read of the settings. The repository itself is memory and raises
its own errors only. -/
def outside : Worker Unit := fun w =>
  let w := interleave env w
  match env.crashes w.step with
  | some typeName => .error (.crash typeName) w
  | none => .ok () w

/-- What a call outside the repository answers, or what it raises. -/
def answerOf {α : Type} : Except String α → Worker α
  | .ok answer => return answer
  | .error typeName => throw (.crash typeName)

/-- `_budget_remaining() <= 0`. -/
def budgetSpent : Worker Bool := fun w =>
  let w := interleave env w
  .ok (env.overBudget w.step) w

def update (write : StatusWrite) : Worker QueryRun :=
  onRepository env fun now => updateStatus now queryRunId write

def WorkerError.isKeyError : WorkerError → Bool
  | .repository (.keyError _) => true
  | _ => false

/-- `_should_stop`. An absent run stops its worker. -/
def shouldStop : Worker Bool :=
  recover WorkerError.isKeyError true do
    let run ← onRepository env fun now => getRun now queryRunId
    return run.status = .cancelled

/-! ### Ends of a run -/

def downstreamStages (run : QueryRun) : List StepName :=
  if run.mode = .quick then []
  else [.stage .debateRound1, .stage .debateRound2, .stage .synthesis]

def quickSkippedStageDetail : String := "Not part of a quick answer."

def annotation (stageName : StageName) (stageState : StageState) (detail : String) : StatusWrite :=
  { stage := some ⟨stageName, stageState, some detail⟩, allowTerminal := true }

def markRemainingStages (stageNames : List StageName) : Worker Unit :=
  stageNames.forM fun stageName => do
    let _ ← update env ( annotation stageName .skipped
      "Not executed because an earlier stage failed or timed out.")
    return ()

def markAfterTerminal (quick : Bool) : Worker Unit :=
  if quick then
    [StageName.debateRound1, .debateRound2, .synthesis].forM fun stageName => do
      let _ ← update env ( annotation stageName .skipped quickSkippedStageDetail)
      return ()
  else markRemainingStages env [.debateRound1, .debateRound2, .synthesis]

def WorkerError.isInvalidTransition : WorkerError → Bool
  | .repository (.invalidTransition _ _) => true
  | _ => false

/-- `_degrade_run_for_deadline`. A cancel that came first makes the transition raise. -/
def degradeRunForDeadline (stageName : StageName) (failedSteps missingSteps : List StepName) :
    Worker Bool := do
  let flipped ← recover WorkerError.isInvalidTransition false do
    let _ ← onRepository env fun now =>
      transition now queryRunId .timedOut (some failedSteps) (some missingSteps)
    return true
  if flipped then do
    let _ ← update env ( annotation stageName .failed
      ("Run exceeded the " ++ env.deadlineText ++
        "s wall-clock deadline (NFR-004); serving the completed portion."))
    return true
  else return false

/-- A deadline degrade, and the marks behind it when the degrade was applied. -/
def degradeThen (stageName : StageName) (failedSteps missingSteps : List StepName)
    (behind : Worker Unit) : Worker Unit := do
  if ← degradeRunForDeadline env stageName failedSteps missingSteps then behind else return ()

/-- Ends the run with a failed stage, and stamps the stages behind it when that write landed. -/
def halt (statusValue : QueryRunStatus) (stageName : StageName) (detail : String)
    (failedSteps missingSteps : List StepName) (behind : Worker Unit) : Worker Unit := do
  let halted ← update env
    { statusValue := some statusValue
      stage := some ⟨stageName, .failed, some detail⟩
      failedSteps := some failedSteps
      missingSteps := some missingSteps }
  if halted.status = statusValue then behind else return ()

def running (stageName : StageName) (detail : String) : StatusWrite :=
  { stage := some ⟨stageName, .running, some detail⟩ }

/-- The status and the completed stage that a stage boundary writes. -/
def boundary (statusValue : QueryRunStatus) (stageName : StageName) (detail : String) :
    StatusWrite :=
  { statusValue := some statusValue, stage := some ⟨stageName, .completed, some detail⟩ }

/-! ### The synthesis stage -/

def finishSynthesis (result : SynthesisResult) : Worker Unit :=
  match result.finalSynthesis with
  | none =>
      halt env .partialResult .synthesis "Synthesis could not complete from the available evidence."
        result.failedSteps result.missingSteps (return ())
  | some finalSynthesis => do
      let _ ← onRepository env fun now =>
        recordFinalSynthesis now queryRunId finalSynthesis (some result.liveCallUsages)
      let _ ← update env (boundary .completed .synthesis "Synthesis completed.")
      return ()

def produceSynthesis (queryRun : QueryRun) (openrouterKey : Bool) : Worker Unit := do
  let latest ← onRepository env fun now => getRun now queryRunId
  let _ ← onRepository env fun now => markBillableStageEntered now queryRunId .synthesis
  outside env
  let result ← answerOf
    (env.produceFinalSynthesis queryRun latest.initialAnswers latest.debateOutputs openrouterKey)
  let stopped ← shouldStop env
  if stopped ∧ result.liveCallUsages = [] then return () else finishSynthesis env result

def synthesisStage (queryRun : QueryRun) (openrouterKey : Bool) : Worker Unit := do
  let _ ← update env (boundary .synthesisRunning .debateRound2 "Debate round 2 completed.")
  let _ ← update env (running .synthesis "Synthesizing consensus and disagreement.")
  outside env
  if ← shouldStop env then return ()
  else if ← budgetSpent env then
    degradeThen env .synthesis [] [.stage .synthesis] (return ())
  else produceSynthesis env queryRun openrouterKey

/-! ### The debate stage -/

/-- The service's callback at the seam between its two rounds. -/
def announceRoundTwo : Worker Unit := do
  let _ ← update env (boundary .debateRound2Running .debateRound1 "Debate round 1 completed.")
  let _ ← update env (running .debateRound2 "Running debate round 2.")
  return ()

/-- The stage of round 2 is marked here when the service did not announce it. -/
def markRoundTwo : Worker Unit :=
  if env.announcements = 0 then do
    let _ ← update env (running .debateRound2 "Running debate round 2.")
    outside env
  else return ()

def finishDebate (queryRun : QueryRun) (openrouterKey : Bool) (result : DebateResult) :
    Worker Unit :=
  if result.debateOutputs = [] then
    halt env .partialResult .debateRound1
      "Debate could not start because initial answers were unavailable."
      result.failedSteps result.missingSteps (markRemainingStages env [.debateRound2, .synthesis])
  else do
    let _ ← update env (boundary .debateRound2Running .debateRound1 "Debate round 1 completed.")
    if result.timedOut then
      halt env .partialResult .debateRound2 "Debate round 2 timed out."
        result.failedSteps result.missingSteps (markRemainingStages env [.synthesis])
    else do
      markRoundTwo env
      if ← shouldStop env then return () else synthesisStage env queryRun openrouterKey

def runDebate (queryRun refreshed : QueryRun) (openrouterKey : Bool) : Worker Unit := do
  let _ ← onRepository env fun now => markBillableStageEntered now queryRunId .debate
  (List.replicate env.announcements ()).forM fun _ => announceRoundTwo env
  outside env
  let result ← answerOf (env.runDebateRounds queryRun refreshed.initialAnswers openrouterKey)
  let stopped ← shouldStop env
  if stopped ∧ result.liveCallUsages = [] then return ()
  else do
    let _ ← onRepository env fun now =>
      recordDebateOutputs now queryRunId result.debateOutputs (some result.liveCallUsages)
    finishDebate env queryRun openrouterKey result

def debateStage (queryRun refreshed : QueryRun) (openrouterKey : Bool) : Worker Unit := do
  let _ ← update env
      (boundary .debateRound1Running .initialAnswers "Initial model answers collected.")
  let _ ← update env (running .debateRound1 "Running debate round 1.")
  outside env
  if ← shouldStop env then return ()
  else if ← budgetSpent env then
    degradeThen env .debateRound1 []
      [.stage .debateRound1, .stage .debateRound2, .stage .synthesis]
      (markRemainingStages env [.debateRound2, .synthesis])
  else runDebate env queryRun refreshed openrouterKey

/-! ### The initial answers -/

/-- How the collection of the answers ends. -/
inductive Collection
  | stopped
  | collected (deadlineBreached : Bool)

/-- `deadline_exceeded_answer`, for a slot that the deadline cut. -/
def deadlineExceededAnswer (openrouterKey : Bool) (modelSlot : ModelSlot) : InitialModelAnswer where
  slotNumber := modelSlot.slotNumber
  modelId := modelSlot.modelId
  answerText := ""
  status := .failed
  billingClass :=
    some (if env.openrouterLiveExecutionEnabled
      ∧ openrouterKey then .possiblyBilled else .notBilled)

/-- Records a slot's answer and goes on, unless the run is to stop. -/
def recordAnswer (answer : InitialModelAnswer) (rest : Worker Collection) : Worker Collection := do
  if ← shouldStop env then return .stopped
  else do
    let _ ← onRepository env fun now => recordInitialAnswer now queryRunId answer
    rest

/-- The futures of the slots, collected in slot order. A timeout with budget left is the slot's own
failure. -/
def collectInitialAnswers (queryRun : QueryRun) (openrouterKey : Bool) :
    Bool → List ModelSlot → Worker Collection
  | deadlineBreached, [] => return .collected deadlineBreached
  | deadlineBreached, modelSlot :: modelSlots => do
      outside env
      match env.future queryRun modelSlot openrouterKey with
      | .answer answer =>
          recordAnswer env answer
            (collectInitialAnswers queryRun openrouterKey deadlineBreached modelSlots)
      | .raised => collectInitialAnswers queryRun openrouterKey deadlineBreached modelSlots
      | .timeout =>
          if ← budgetSpent env then do
            outside env
            recordAnswer env (deadlineExceededAnswer env openrouterKey modelSlot)
              (collectInitialAnswers queryRun openrouterKey true modelSlots)
          else collectInitialAnswers queryRun openrouterKey deadlineBreached modelSlots

/-- A quick answer ends with its one model answer. -/
def finishQuick : Worker Unit := do
  [StageName.debateRound1, .debateRound2, .synthesis].forM fun stageName => do
    let _ ← update env { stage := some ⟨stageName, .skipped, some quickSkippedStageDetail⟩ }
    return ()
  let _ ← update env (boundary .completed .initialAnswers "Model answer collected.")
  return ()

def afterInitialAnswers (queryRun : QueryRun) (openrouterKey deadlineBreached : Bool) :
    Worker Unit :=
  let quick := decide (queryRun.mode = .quick)
  let downstream := downstreamStages queryRun
  if deadlineBreached then
    degradeThen env .initialAnswers [.stage .initialAnswers] downstream
      (markAfterTerminal env quick)
  else do
    let refreshed ← onRepository env fun now => getRun now queryRunId
    if ¬∃ answer ∈ refreshed.initialAnswers, answer.status = .completed then
      halt env .partialResult .initialAnswers "No usable initial model answers completed."
        (.stage .initialAnswers :: downstream) downstream (markAfterTerminal env quick)
    else if quick then finishQuick env
    else debateStage env queryRun refreshed openrouterKey

/-! ### The worker -/

/-- `panel_size_word`, which raises outside the sizes of a panel. -/
def panelSizeWord : ℕ → Except String String
  | 2 => .ok "Two"
  | 3 => .ok "Three"
  | 4 => .ok "Four"
  | _ => .error "ValueError"

def runningDetail (queryRun : QueryRun) : Except String String :=
  if queryRun.mode = .quick then .ok "Running one model call."
  else (panelSizeWord queryRun.modelSlots.length).map fun word =>
    "Running " ++ word.toLower ++ " initial model calls."

/-- The key of a run that must not spend is empty. -/
def openrouterKeyOf (queryRun : QueryRun) : Bool :=
  env.openrouterApiKey && !(queryRun.costEstimate.globalCeilingReached ||
    queryRun.costEstimate.spendMeteringUnavailable)

/-- `_execute_query_run`. -/
def executeQueryRun : Worker Unit := do
  let queryRun ← onRepository env fun now => getRun now queryRunId
  outside env
  let openrouterKey := openrouterKeyOf env queryRun
  if env.openrouterLiveExecutionEnabled ∧ ¬env.openrouterApiKey then
    halt env .failed
      .initialAnswers "Live execution is enabled but no server-side key is configured."
      (.stage .initialAnswers :: downstreamStages queryRun)
      (.stage .initialAnswers :: downstreamStages queryRun)
      (markAfterTerminal env (queryRun.mode = .quick))
  else do
    let detail ← answerOf (runningDetail queryRun)
    let _ ← update env
      { statusValue := some .initialAnswersRunning
        stage := some ⟨.initialAnswers, .running, some detail⟩
        markStarted := true }
    outside env
    match ← collectInitialAnswers env queryRun openrouterKey false queryRun.modelSlots with
    | .stopped => return ()
    | .collected deadlineBreached => afterInitialAnswers env queryRun openrouterKey deadlineBreached

def pendingStages (progress : List QueryRunStageProgress) : List StepName :=
  (progress.filter fun stage => stage.state = .pending).map fun stage => .stage stage.stage

/-- The last resort of the worker: the run fails. -/
def failUnhandled (raised : WorkerError) : Worker Unit :=
  recover (fun _ => true) () do
    let current ← onRepository env fun now => getRun now queryRunId
    let pending ← onRepository env fun now => getRun now queryRunId
    let _ ← update env
      { statusValue := some .failed
        stage := some ⟨runningStageName current.progress, .failed,
          some ("Unhandled pipeline error: " ++ raised.typeName ++ ".")⟩
        failedSteps := some [.pipeline]
        missingSteps := some (pendingStages pending.progress) }
    return ()

/-- `_persist_terminal_run`, on the repository: it keeps the verdict of the response. -/
def persistTerminalRun : Worker Unit :=
  recover (fun _ => true) () do
    let queryRun ← onRepository env fun now => getRun now queryRunId
    if queryRun.isTerminal then do
      outside env
      match env.historyVerdict queryRun with
      | some verdict => onRepository env fun _ => keepHistoryVerdict queryRunId verdict
      | none => return ()
    else return ()

/-- `_execute_query_run_safely`, the body of the worker's thread. -/
def executeQueryRunSafely : Worker Unit := do
  tryCatch (executeQueryRun env) fun raised => failUnhandled env raised
  persistTerminalRun env

end

end Quorum
