import Quorum.BaseDict
import Quorum.BaseTransaction
import Quorum.RunTypes

/-! The in-memory repository of query runs. Each operation runs under one lock, so it is one script
over the dictionary of runs; a script that raises keeps what it had already evicted. Every clock
reading is a parameter: an operation may read the clock at any time. -/

namespace Quorum

open IsoTime Transaction

abbrev QueryRuns := Dict Uuid QueryRun

inductive RepositoryError
  | keyError (queryRunId : Uuid)
  | activeQueryRunExists
  | invalidTransition (current next : QueryRunStatus)
  | refused
deriving DecidableEq

abbrev Repository (α : Type) := Script RepositoryError QueryRuns α

/-- `QUERY_RUN_TERMINAL_TTL`, one hour in microseconds. -/
def queryRunTerminalTtl : ℕ := 3600 * 1000000

/-- `QUERY_RUN_ACTIVE_TTL`, thirty minutes in microseconds. -/
def queryRunActiveTtl : ℕ := 1800 * 1000000

/-- The age of a run is past the limit of its kind. -/
def expired (now : Instant) (run : QueryRun) : Bool :=
  run.updatedAt.val + (if run.isTerminal then queryRunTerminalTtl else queryRunActiveTtl) < now.val

def evictExpired (now : Instant) (runs : QueryRuns) : QueryRuns :=
  runs.filter fun e => !expired now e.2

/-- `_purge_expired_locked`. -/
def purgeExpiredLocked (now : Instant) : Repository Unit := fun runs =>
  .ok () (evictExpired now runs)

/-! ### Reads -/

/-- A stored run, without a purge. -/
def stored (queryRunId : Uuid) : Repository QueryRun := fun runs =>
  match runs.get? queryRunId with
  | some run => .ok run runs
  | none => .error (.keyError queryRunId) runs

def getRun (now : Instant) (queryRunId : Uuid) : Repository QueryRun := do
  purgeExpiredLocked now
  stored queryRunId

/-- A run of the account, or none when the run is absent or another account's. -/
def getForAccount (now : Instant) (queryRunId accountId : Uuid) :
    Repository (Option QueryRun) := fun runs =>
  let kept := evictExpired now runs
  .ok ((kept.get? queryRunId).filter fun run => run.accountId = accountId) kept

def terminalRunsForAccount (now : Instant) (accountId : Uuid) :
    Repository (List QueryRun) := fun runs =>
  let kept := evictExpired now runs
  .ok (kept.values.filter fun run => run.accountId = accountId ∧ run.isTerminal) kept

/-- The first run of the account that is not terminal. -/
def getActiveForAccount (now : Instant) (accountId : Uuid) :
    Repository (Option QueryRun) := fun runs =>
  let kept := evictExpired now runs
  .ok (kept.values.find? fun run => run.accountId = accountId ∧ ¬run.isTerminal) kept

/-! ### Creation -/

def newQueryRun (request : NewRun) (queryRunId : Uuid) (now : Instant) : QueryRun where
  queryRunId := queryRunId
  accountId := request.accountId
  queryText := request.queryText
  status := .accepted
  createdAt := now
  updatedAt := now
  startedAt := none
  modelSlots := request.modelSlots
  costEstimate := request.costEstimate
  progress := initialProgress
  initialAnswers := []
  debateOutputs := []
  finalSynthesis := none
  failedSteps := []
  missingSteps := []
  debateCallUsages := []
  synthesisCallUsages := []
  context := request.context
  mode := request.mode
  historyVerdict := none
  spendKey := request.spendKey.getD request.accountId
  debateStage := .notEntered
  synthesisStage := .notEntered

/-- The clock readings of an operation that reads the clock more than once, in order. -/
abbrev Clock := ℕ → Instant

def store (run : QueryRun) : Repository Unit := fun runs =>
  .ok () (runs.set run.queryRunId run)

/-- `create`. The admission runs first and may refuse; an account with an active run is refused;
`fresh` is the id that was drawn. -/
def create (admission : Option RepositoryError) (request : NewRun) (clock : Clock) (fresh : Uuid) :
    Repository QueryRun :=
  match admission with
  | some refusal => throw refusal
  | none => do
      purgeExpiredLocked (clock 0)
      match ← getActiveForAccount (clock 1) request.accountId with
      | some _ => throw .activeQueryRunExists
      | none => do
          let run := newQueryRun request fresh (clock 2)
          store run
          return run

/-! ### Writes -/

/-- Reads a run and writes it back changed. -/
def modifyRun (queryRunId : Uuid) (change : QueryRun → QueryRun) :
    Repository QueryRun := fun runs =>
  match runs.get? queryRunId with
  | some run => .ok (change run) (runs.set queryRunId (change run))
  | none => .error (.keyError queryRunId) runs

def QueryRun.transitioned (now : Instant) (nextStatus : QueryRunStatus)
    (failedSteps missingSteps : Option (List StepName)) (run : QueryRun) : QueryRun :=
  { run with
    status := nextStatus
    updatedAt := now
    startedAt := if run.startedAt = none ∧ nextStatus ≠ .accepted then some now else run.startedAt
    failedSteps := failedSteps.getD run.failedSteps
    missingSteps := missingSteps.getD run.missingSteps }

/-- `transition`: the next status must be allowed after the current one. -/
def transition (now : Instant) (queryRunId : Uuid) (nextStatus : QueryRunStatus)
    (failedSteps missingSteps : Option (List StepName)) : Repository QueryRun := do
  let run ← stored queryRunId
  if nextStatus ∈ run.status.allowedTransitions then
    modifyRun queryRunId (QueryRun.transitioned now nextStatus failedSteps missingSteps)
  else throw (.invalidTransition run.status nextStatus)

/-- The name, the new state and the detail of a stage. -/
structure StageWrite where
  stageName : StageName
  stageState : StageState
  detail : Option String := none

/-- The arguments of `update_status`. A write that opts into terminal runs only annotates a
stage. -/
structure StatusWrite where
  statusValue : Option QueryRunStatus := none
  stage : Option StageWrite := none
  failedSteps : Option (List StepName) := none
  missingSteps : Option (List StepName) := none
  markStarted : Bool := false
  allowTerminal : Bool := false
  annotates : allowTerminal = true → statusValue = none ∧ failedSteps = none ∧ missingSteps = none ∧
    markStarted = false := by first | decide | exact fun _ => ⟨rfl, rfl, rfl, rfl⟩ | exact nofun

/-- The stages after the write has marked the stage it names. -/
def StatusWrite.mark (write : StatusWrite) (progress : List QueryRunStageProgress) :
    List QueryRunStageProgress :=
  match write.stage with
  | some stage => setStageState stage.stageName stage.stageState stage.detail progress
  | none => progress

/-- What `update_status` writes when it is not refused. -/
def StatusWrite.apply (write : StatusWrite) (now : Instant) (run : QueryRun) : QueryRun :=
  { run with
    status := write.statusValue.getD run.status
    updatedAt := now
    startedAt := if write.markStarted ∧ run.startedAt = none then some now else run.startedAt
    progress := write.mark run.progress
    failedSteps := write.failedSteps.getD run.failedSteps
    missingSteps := write.missingSteps.getD run.missingSteps }

/-- A write on a terminal run is refused, unless it opts in. -/
def StatusWrite.guarded (write : StatusWrite) (now : Instant) (run : QueryRun) : QueryRun :=
  if run.isTerminal ∧ ¬write.allowTerminal then run else write.apply now run

/-- `update_status`. A refusal is a no-op. -/
def updateStatus (now : Instant) (queryRunId : Uuid) (write : StatusWrite) : Repository QueryRun :=
  modifyRun queryRunId (write.guarded now)

/-- The answers with one slot's answer replaced, in slot order. -/
def replaceAnswer (answer : InitialModelAnswer) (answers : List InitialModelAnswer) :
    List InitialModelAnswer :=
  ((answers.filter fun existing =>
    existing.slotNumber ≠ answer.slotNumber) ++ [answer]).insertionSort
    fun left right => left.slotNumber ≤ right.slotNumber

def QueryRun.withInitialAnswer (now : Instant) (answer : InitialModelAnswer)
    (run : QueryRun) : QueryRun :=
  { run with initialAnswers := replaceAnswer answer run.initialAnswers, updatedAt := now }

def recordInitialAnswer (now : Instant) (queryRunId : Uuid) (answer : InitialModelAnswer) :
    Repository QueryRun :=
  modifyRun queryRunId (QueryRun.withInitialAnswer now answer)

def QueryRun.withStageEntered (now : Instant) (stage : BillableStage) (run : QueryRun) : QueryRun :=
  match stage with
  | .debate => { run with debateStage := .entered, updatedAt := now }
  | .synthesis => { run with synthesisStage := .entered, updatedAt := now }

def markBillableStageEntered (now : Instant) (queryRunId : Uuid) (stage : BillableStage) :
    Repository QueryRun :=
  modifyRun queryRunId (QueryRun.withStageEntered now stage)

def QueryRun.withSpendMeteringUnavailable (now : Instant) (run : QueryRun) : QueryRun :=
  { run with
    costEstimate := { run.costEstimate with spendMeteringUnavailable := true }
    updatedAt := now }

def markSpendMeteringUnavailable (now : Instant) (queryRunId : Uuid) : Repository QueryRun :=
  modifyRun queryRunId (QueryRun.withSpendMeteringUnavailable now)

def QueryRun.withGlobalCeilingReached (now : Instant) (run : QueryRun) : QueryRun :=
  { run with costEstimate := { run.costEstimate with globalCeilingReached := true }, updatedAt := now }

def markGlobalCeilingReached (now : Instant) (queryRunId : Uuid) : Repository QueryRun :=
  modifyRun queryRunId (QueryRun.withGlobalCeilingReached now)

def QueryRun.withDebateOutputs (now : Instant) (debateOutputs : List DebateOutput)
    (liveCallUsages : Option DebateUsages) (run : QueryRun) : QueryRun :=
  { run with
    debateOutputs := debateOutputs
    debateCallUsages := liveCallUsages.getD run.debateCallUsages
    debateStage := .recorded
    updatedAt := now }

def recordDebateOutputs (now : Instant) (queryRunId : Uuid) (debateOutputs : List DebateOutput)
    (liveCallUsages : Option DebateUsages) : Repository QueryRun :=
  modifyRun queryRunId (QueryRun.withDebateOutputs now debateOutputs liveCallUsages)

def QueryRun.withFinalSynthesis (now : Instant) (finalSynthesis : FinalSynthesis)
    (liveCallUsages : Option SynthesisUsages) (run : QueryRun) : QueryRun :=
  { run with
    finalSynthesis := some finalSynthesis
    synthesisCallUsages := liveCallUsages.getD run.synthesisCallUsages
    synthesisStage := .recorded
    updatedAt := now }

def recordFinalSynthesis (now : Instant) (queryRunId : Uuid) (finalSynthesis : FinalSynthesis)
    (liveCallUsages : Option SynthesisUsages) : Repository QueryRun :=
  modifyRun queryRunId (QueryRun.withFinalSynthesis now finalSynthesis liveCallUsages)

def QueryRun.withHistoryVerdict (verdict : Option String) (run : QueryRun) : QueryRun :=
  { run with historyVerdict := verdict }

/-- The verdict that `_persist_terminal_run` keeps on a run it holds, stored or not. -/
def keepHistoryVerdict (queryRunId : Uuid) (verdict : Option String) :
    Repository Unit := fun runs =>
  match runs.get? queryRunId with
  | some run => .ok () (runs.set queryRunId (run.withHistoryVerdict verdict))
  | none => .ok () runs

def clear : Repository Unit := fun _ => .ok () Dict.empty

end Quorum
