import Quorum.BaseFlight
import Quorum.BaseLru
import Quorum.JudgeService

/-! Concurrent reads of terminal runs' evaluations. A read goes from one critical section to the
next, and between two of its sections the other reads take any number of their own. Ghost state: the
log, newest event first, of what each read saw, decided and paid, and of the entries the verdict
memo dropped. -/

namespace Quorum

open IsoTime

structure AgreementSummary where
  aligned : ℕ
  total : ℕ
deriving DecidableEq

/-- What the memo of whole evaluations is keyed by. -/
abbrev EvaluationMemoKey := Uuid × Instant × ℕ × ℕ

structure RunEvaluationResult (Evaluation Trust : Type) where
  evaluation : Evaluation
  trust : Trust

/-- Layer A of the evaluation and the trust score over it. -/
structure EvaluationEngine (Evaluation Trust : Type) where
  evaluateLayerA : JudgedRun → AgreementSummary → Option EvalJudgeVerdict → Evaluation
  buildTrustScore : JudgedRun → Evaluation → Bool → Trust
  withCounts : Evaluation → SourcePageCounts → Evaluation

inductive JudgeSuppressionReason
  | spendRailPreflight
  | inflightOwnerLost
  | inflightTimeout
deriving DecidableEq

/-- Where a read stands between two of its sections. -/
inductive ReadPhase (R : Type)
  | started
  | evaluationHit (cached : R)
  | judging
  | railsDue
  | claiming (sharing : Bool)
  | waiting (owner : ℕ)
  | expired
  | owning
  | called (call : OwnerCall)
  | published (call : OwnerCall)
  | judged (verdict : Option JudgeVerdict) (suppression : Option JudgeSuppressionReason)
  | storing (result : R)
  | served (result : Option R) (suppression : Option JudgeSuppressionReason)
  | raised

/-- How the owner goes on from its call. -/
def OwnerCall.resume {R : Type} (call : OwnerCall) : ReadPhase R :=
  match call.returned with
  | .ok verdict => .judged verdict none
  | .error _ => .raised

/-- What one read does that the log keeps. -/
inductive ReadEvent (R : Type)
  | railsRead (reading : RailReading)
  | sawInFlight
  | claimed
  | dispatched
  | memoised (outcome : JudgeOutcome)
  | suppressed (reason : JudgeSuppressionReason)
  | stored (key : EvaluationMemoKey) (result : R)

inductive JudgeEvent (R : Type)
  | read (reader : ℕ) (queryRunId : Uuid) (event : ReadEvent R)
  | evicted (queryRunId : Uuid)

/-- One read: the run and the agreement it was called with, and where it stands. -/
structure EvaluationRead (R : Type) where
  run : JudgedRun
  agreement : AgreementSummary
  phase : ReadPhase R

def EvaluationRead.key {R : Type} (read : EvaluationRead R) : EvaluationMemoKey :=
  (read.run.queryRunId, read.run.updatedAt, read.agreement.aligned, read.agreement.total)

/-- The memos, the futures in flight by their owner's read and those that are set, and the reads. -/
structure JudgeWorld (R : Type) where
  judgeVerdictMemo : Dict Uuid JudgeOutcome
  judgeInflight : Dict Uuid ℕ
  futures : Dict ℕ JudgeOutcome
  evaluationMemo : Dict EvaluationMemoKey R
  reads : ℕ → Option (EvaluationRead R)
  log : List (JudgeEvent R)

def JudgeWorld.empty {R : Type} : JudgeWorld R :=
  ⟨.empty, .empty, .empty, .empty, fun _ => none, []⟩

def judgeVerdictMemoMax : ℕ := 512

def evaluationMemoMax : ℕ := 512

/-- What surrounds a read's next section: the settings, the rails, the judge call, and the clock's
word on whether the wait for another read's call is over. -/
structure TurnEnv extends OwnerEnv where
  rails : RailReading
  waitExpires : Bool

inductive Turn
  | arrive (reader : ℕ) (run : JudgedRun) (agreement : AgreementSummary)
  | proceed (reader : ℕ) (env : TurnEnv)

section

variable {Evaluation Trust : Type}

variable (engine : EvaluationEngine Evaluation Trust)

/-- `evaluate_run`: a verdict that says so unlocks the numeric score. -/
def EvaluationEngine.evaluateRun (run : JudgedRun) (agreement : AgreementSummary)
    (verdict : Option EvalJudgeVerdict) : RunEvaluationResult Evaluation Trust :=
  let evaluation := engine.evaluateLayerA run agreement verdict
  { evaluation,
    trust := engine.buildTrustScore run evaluation (verdictSupportsVerification verdict) }

def EvaluationEngine.withSourcePages (result : RunEvaluationResult Evaluation Trust)
    (sourcePages : Option SourcePageCounts) : RunEvaluationResult Evaluation Trust :=
  match sourcePages with
  | none => result
  | some counts => { result with evaluation := engine.withCounts result.evaluation counts }

/-- The result of a judged read, from the verdict it was given and the counts it then found. -/
def EvaluationEngine.judgedResult (run : JudgedRun) (agreement : AgreementSummary)
    (verdict : Option JudgeVerdict) (sourcePages : Option SourcePageCounts) :
    RunEvaluationResult Evaluation Trust :=
  engine.withSourcePages (engine.evaluateRun run agreement (verdict.bind JudgeVerdict.panel?))
    sourcePages

end

namespace JudgeWorld

section Sections

variable {R : Type} (world : JudgeWorld R) (reader : ℕ) (read : EvaluationRead R)

/-- The read goes on to a phase, having done the events, newest first. -/
def enter (phase : ReadPhase R) (events : List (ReadEvent R)) : JudgeWorld R :=
  { world with
    reads := Function.update world.reads reader (some { read with phase })
    log := events.map (JudgeEvent.read reader read.run.queryRunId) ++ world.log }

@[simp] theorem enter_judgeVerdictMemo (phase : ReadPhase R) (events : List (ReadEvent R)) :
    (world.enter reader read phase events).judgeVerdictMemo = world.judgeVerdictMemo := rfl

@[simp] theorem enter_judgeInflight (phase : ReadPhase R) (events : List (ReadEvent R)) :
    (world.enter reader read phase events).judgeInflight = world.judgeInflight := rfl

@[simp] theorem enter_futures (phase : ReadPhase R) (events : List (ReadEvent R)) :
    (world.enter reader read phase events).futures = world.futures := rfl

@[simp] theorem enter_evaluationMemo (phase : ReadPhase R) (events : List (ReadEvent R)) :
    (world.enter reader read phase events).evaluationMemo = world.evaluationMemo := rfl

@[simp] theorem enter_reads (phase : ReadPhase R) (events : List (ReadEvent R)) :
    (world.enter reader read phase events).reads =
      Function.update world.reads reader (some { read with phase }) := rfl

@[simp] theorem enter_log (phase : ReadPhase R) (events : List (ReadEvent R)) :
    (world.enter reader read phase events).log =
      events.map (JudgeEvent.read reader read.run.queryRunId) ++ world.log := rfl

/-- `_judge_memo_touch`. -/
def judgeMemoTouch (queryRunId : Uuid) : JudgeWorld R :=
  { world with judgeVerdictMemo := world.judgeVerdictMemo.moveToEnd queryRunId }

/-- The first section of `_memoised_verdict`: the memo, and whether a call is in flight. -/
def lookSection : JudgeWorld R :=
  match world.judgeVerdictMemo.get? read.run.queryRunId with
  | some outcome =>
      (world.judgeMemoTouch read.run.queryRunId).enter reader read (.judged outcome.verdict none) []
  | none =>
      match world.judgeInflight.get? read.run.queryRunId with
      | some _ => world.enter reader read (.claiming true) [.sawInFlight]
      | none => world.enter reader read .railsDue []

/-- The rails, read only by a read that saw no call in flight. -/
def railsSection (rails : RailReading) : JudgeWorld R :=
  if rails.allowDispatch then world.enter reader read (.claiming false) [.railsRead rails]
  else
    world.enter reader read (.judged none (some .spendRailPreflight))
      [.suppressed .spendRailPreflight, .railsRead rails]

/-- The second section: the memo again, and then ride on a call or claim the run. -/
def claimSection (sharing : Bool) : JudgeWorld R :=
  match world.judgeVerdictMemo.get? read.run.queryRunId with
  | some outcome =>
      (world.judgeMemoTouch read.run.queryRunId).enter reader read (.judged outcome.verdict none) []
  | none =>
      match world.judgeInflight.get? read.run.queryRunId with
      | some owner => world.enter reader read (.waiting owner) [.sawInFlight]
      | none =>
          if sharing then
            -- the call that it saw has ended without an entry; nobody read the rails for this read
            world.enter reader read (.judged none (some .inflightOwnerLost))
              [.suppressed .inflightOwnerLost]
          else
            { world with judgeInflight := world.judgeInflight.set read.run.queryRunId reader }.enter
              reader read .owning [.claimed]

/-- `future.result` with its timeout. -/
def waitSection (owner : ℕ) (waitExpires : Bool) : JudgeWorld R :=
  match world.futures.get? owner with
  | some outcome => world.enter reader read (.judged outcome.verdict none) []
  | none => if waitExpires then world.enter reader read .expired [] else world

/-- The memo once more after the wait ran out. -/
def expiredSection : JudgeWorld R :=
  match world.judgeVerdictMemo.get? read.run.queryRunId with
  | some outcome => world.enter reader read (.judged outcome.verdict none) []
  | none =>
      world.enter reader read (.judged none (some .inflightTimeout)) [.suppressed .inflightTimeout]

def callSection (call : OwnerCall) : JudgeWorld R :=
  world.enter reader read (.called call) (if call.dispatched then [.dispatched] else [])

/-- The owner's last section: the outcome is memoised, the oldest entries are dropped, the claim
ends. -/
def publishSection (call : OwnerCall) : JudgeWorld R :=
  let memo := world.judgeVerdictMemo.set read.run.queryRunId call.outcome
  let world := { world with judgeInflight := world.judgeInflight.pop read.run.queryRunId }.enter
    reader read (.published call) [.memoised call.outcome]
  { world with
    judgeVerdictMemo := memo.trim judgeVerdictMemoMax
    log := ((memo.overflow judgeVerdictMemoMax).map JudgeEvent.evicted).reverse ++ world.log }

@[simp] theorem publishSection_evaluationMemo (call : OwnerCall) :
    (world.publishSection reader read call).evaluationMemo = world.evaluationMemo := by
  rw [publishSection]
  simp only [enter_evaluationMemo]

/-- The future is set, and the owner returns or raises. -/
def resolveSection (call : OwnerCall) : JudgeWorld R :=
  { world with futures := world.futures.set reader call.outcome }.enter reader read call.resume []

/-- `_evaluation_memo_store`. -/
def storeSection (result : R) : JudgeWorld R :=
  { world with
    evaluationMemo :=
      ((world.evaluationMemo.set read.key result).moveToEnd read.key).trim evaluationMemoMax }.enter
    reader read (.served (some result) none) [.stored read.key result]

end Sections

section Steps

variable {Evaluation Trust : Type} (engine : EvaluationEngine Evaluation Trust)
variable (world : JudgeWorld (RunEvaluationResult Evaluation Trust)) (reader : ℕ)
variable (read : EvaluationRead (RunEvaluationResult Evaluation Trust))

/-- The memo of whole evaluations, and the gate on the run. -/
def startSection (judgeConfigured : Bool) : JudgeWorld (RunEvaluationResult Evaluation Trust) :=
  if read.run.status.isTerminal = false then world.enter reader read (.served none none) []
  else
    match world.evaluationMemo.get? read.key with
    | some cached =>
        { world with evaluationMemo := world.evaluationMemo.moveToEnd read.key }.enter reader read
          (.evaluationHit cached) []
    | none =>
        if requestPathJudge judgeConfigured read.run then world.enter reader read .judging []
        else
          world.enter reader read (.storing (engine.evaluateRun read.run read.agreement none)) []

/-- The evaluation with the verdict the read was given. A suppressed one is served and not
stored. -/
def evaluateSection (verdict : Option JudgeVerdict) (suppression : Option JudgeSuppressionReason) :
    JudgeWorld (RunEvaluationResult Evaluation Trust) :=
  let result := engine.judgedResult read.run read.agreement verdict
    ((world.judgeVerdictMemo.get? read.run.queryRunId).bind JudgeOutcome.sourcePages)
  match suppression with
  | some reason => world.enter reader read (.served (some result) (some reason)) []
  | none => world.enter reader read (.storing result) []

/-- The next section of a read. -/
def proceed (env : TurnEnv) : JudgeWorld (RunEvaluationResult Evaluation Trust) :=
  match read.phase with
  | .started => startSection engine world reader read env.judgeConfigured
  | .evaluationHit cached =>
      (world.judgeMemoTouch read.run.queryRunId).enter reader read (.served (some cached) none) []
  | .judging => world.lookSection reader read
  | .railsDue => world.railsSection reader read env.rails
  | .claiming sharing => world.claimSection reader read sharing
  | .waiting owner => world.waitSection reader read owner env.waitExpires
  | .expired => world.expiredSection reader read
  | .owning => world.callSection reader read (env.call (read.run.mode = .quick))
  | .called call => world.publishSection reader read call
  | .published call => world.resolveSection reader read call
  | .judged verdict suppression => evaluateSection engine world reader read verdict suppression
  | .storing result => world.storeSection reader read result
  | .served _ _ => world
  | .raised => world

/-- One turn. A read arrives once. -/
def step (turn : Turn) : JudgeWorld (RunEvaluationResult Evaluation Trust) :=
  match turn with
  | .arrive reader run agreement =>
      match world.reads reader with
      | some _ => world
      | none =>
          { world with reads := Function.update world.reads reader (some ⟨run,
            agreement, .started⟩) }
  | .proceed reader env =>
      match world.reads reader with
      | some read => world.proceed engine reader read env
      | none => world

/-- Any number of reads, interleaved in any order. -/
def afterTurns (turns : List Turn) : JudgeWorld (RunEvaluationResult Evaluation Trust) :=
  turns.foldl (step engine) .empty

end Steps

end JudgeWorld

end Quorum
