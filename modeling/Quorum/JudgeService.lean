import Quorum.ProviderReply

/-! The paid evaluation of a terminal run: what one call of the judge does and leaves behind, and
the two gates that stand before it, the one on the run and the one on the spend rails. -/

namespace Quorum

open IsoTime

/-! ### Verdicts -/

inductive HallucinationRisk
  | low
  | medium
  | high
deriving DecidableEq

inductive JudgeClaimSupport
  | supported
  | contradicted
  | unsourced
deriving DecidableEq

/-- The verdict of a panel run's judge. -/
structure EvalJudgeVerdict where
  faithfulness : ℕ
  grounding : ℕ
  disagreementPreserved : Bool
  hallucinationRisk : HallucinationRisk
  rationale : Text
  modelId : Text
  scores : faithfulness ≤ 5 ∧ grounding ≤ 5
deriving DecidableEq

structure EvalJudgeQuickClaim where
  quote : Text
  source : Option ℤ
  support : JudgeClaimSupport
deriving DecidableEq

/-- The verdict of a quick run's judge. -/
structure EvalJudgeQuickVerdict where
  faithfulness : ℕ
  grounding : ℕ
  hallucinationRisk : HallucinationRisk
  rationale : Text
  modelId : Text
  claims : List EvalJudgeQuickClaim
  scores : faithfulness ≤ 5 ∧ grounding ≤ 5
deriving DecidableEq

inductive JudgeVerdict
  | panel (verdict : EvalJudgeVerdict)
  | quick (verdict : EvalJudgeQuickVerdict)
deriving DecidableEq

/-- The verdict, if the panel's evaluation engine may have it. -/
def JudgeVerdict.panel? : JudgeVerdict → Option EvalJudgeVerdict
  | .panel verdict => some verdict
  | .quick _ => none

def judgeSupportMinGrounding : ℕ := 1

def judgeSupportMinFaithfulness : ℕ := 1

/-- `verdict_supports_verification` of a panel verdict. -/
def verdictSupportsVerification : Option EvalJudgeVerdict → Bool
  | none => false
  | some verdict =>
      if verdict.hallucinationRisk = .high then false
      else if verdict.grounding < judgeSupportMinGrounding then false
      else decide (judgeSupportMinFaithfulness ≤ verdict.faithfulness)

/-! ### One call -/

/-- What one judge call did. -/
inductive JudgeCallOutcome
  | verdict
  | noVerdictDispatched
  | noVerdictUnbilled
  | noVerdictError
deriving DecidableEq

/-- What a judge call meets. The prompt's builder, `call_with_prompt` and the parsers may raise. -/
structure JudgeCallEnv where
  judgeConfigured : Bool
  buildPrompt : Except Unit Unit
  callWithPrompt : Except Unit (Option LiveProviderResult)
  parseJudgeVerdict : Text → Except Unit (Option EvalJudgeVerdict)
  parseJudgeQuickVerdict : Text → Except Unit (Option EvalJudgeQuickVerdict)

/-- The service after one call: what it returned or that it raised, its `last_usage` and
`last_outcome`, and whether it asked the provider. -/
structure JudgeServiceRun (V : Type) where
  returned : Except Unit (Option V)
  lastUsage : Option ReportedUsage := none
  lastOutcome : Option JudgeCallOutcome := none
  dispatched : Bool := false

/-- `EvalJudgeService._judge`. -/
def JudgeCallEnv.judge {V : Type} (env : JudgeCallEnv) (parse : Text → Except Unit (Option V)) :
    JudgeServiceRun V :=
  if env.judgeConfigured = false then { returned := .ok none }
  else
    match env.buildPrompt with
    | .error e => { returned := .error e }
    | .ok () =>
        match env.callWithPrompt with
        | .error _ =>
            { returned := .ok none, lastOutcome := some .noVerdictError, dispatched := true }
        | .ok none =>
            { returned := .ok none, lastOutcome := some .noVerdictUnbilled, dispatched := true }
        | .ok (some result) =>
            -- the call counts as dispatched before the reply is parsed
            match parse result.answerText with
            | .error e =>
                { returned := .error e, lastUsage := result.usage
                  lastOutcome := some .noVerdictDispatched, dispatched := true }
            | .ok none =>
                { returned := .ok none, lastUsage := result.usage
                  lastOutcome := some .noVerdictDispatched, dispatched := true }
            | .ok (some verdict) =>
                { returned := .ok (some verdict), lastUsage := result.usage
                  lastOutcome := some .verdict, dispatched := true }

/-- The service names no outcome when it never got as far as the provider, or else exactly what came
back. -/
theorem JudgeCallEnv.judge_lastOutcome {V : Type} (env : JudgeCallEnv)
    (parse : Text → Except Unit (Option V)) :
    (env.judge parse).lastOutcome = none ↔ (env.judge parse).dispatched = false := by
  rw [JudgeCallEnv.judge]
  split
  · exact ⟨fun _ => rfl, fun _ => rfl⟩
  · split
    · exact ⟨fun _ => rfl, fun _ => rfl⟩
    · split
      · exact ⟨nofun, nofun⟩
      · exact ⟨nofun, nofun⟩
      · split <;> exact ⟨nofun, nofun⟩

def JudgeServiceRun.map {V W : Type} (f : V → W) (run : JudgeServiceRun V) : JudgeServiceRun W where
  returned := run.returned.map (Option.map f)
  lastUsage := run.lastUsage
  lastOutcome := run.lastOutcome
  dispatched := run.dispatched

/-- The distinct cited addresses: read, seen, and previewed for the site's rules or for another
reason. -/
structure SourcePageCounts where
  read : ℕ
  cited : ℕ
  preview : ℕ
  previewOther : ℕ
deriving DecidableEq

structure JudgeSourcePages where
  pages : List Text
  counts : SourcePageCounts

/-- What a judge call leaves in the memo: the verdict and its billing facts. -/
structure JudgeOutcome where
  verdict : Option JudgeVerdict
  usage : Option ReportedUsage
  modelId : Text
  status : Option JudgeCallOutcome
  sourcePages : Option SourcePageCounts
deriving DecidableEq

/-- What the owner of a run's call meets. -/
structure OwnerEnv extends JudgeCallEnv where
  judgeReadsPages : Bool
  judgeSourcePages : Except Unit JudgeSourcePages
  judgeModelId : Text

/-- The owner's call: what it returned or that it raised, what it memoises, and whether it paid. -/
structure OwnerCall where
  returned : Except Unit (Option JudgeVerdict)
  outcome : JudgeOutcome
  dispatched : Bool

/-- The `finally` of the owner's branch. A verdict is there only if the call returned. -/
def ownerCallOf (judgeModelId : Text) (sourcePages : Option SourcePageCounts)
    (service : JudgeServiceRun JudgeVerdict) : OwnerCall where
  returned := service.returned
  outcome :=
    { verdict := service.returned.toOption.join, usage := service.lastUsage, modelId := judgeModelId
      status := service.lastOutcome, sourcePages }
  dispatched := service.dispatched

/-- The counts that are memoised when the judge was sent pages. -/
def JudgeSourcePages.sentCounts (reading : JudgeSourcePages) : Option SourcePageCounts :=
  if reading.pages = [] then none else some reading.counts

/-- The owner's branch of `_memoised_verdict`. Only a panel run's judge reads pages. -/
def OwnerEnv.call (env : OwnerEnv) (quick : Bool) : OwnerCall :=
  let evaluate := (env.judge env.parseJudgeVerdict).map JudgeVerdict.panel
  if quick then
    ownerCallOf env.judgeModelId none
      ((env.judge env.parseJudgeQuickVerdict).map JudgeVerdict.quick)
  else if env.judgeReadsPages then
    match env.judgeSourcePages with
    | .error e => ownerCallOf env.judgeModelId none { returned := .error e }
    | .ok reading => ownerCallOf env.judgeModelId reading.sentCounts evaluate
  else ownerCallOf env.judgeModelId none evaluate

/-- What is memoised is what the call returned, or no verdict if it raised. -/
theorem OwnerEnv.call_verdict (env : OwnerEnv) (quick : Bool) :
    (env.call quick).outcome.verdict = (env.call quick).returned.toOption.join := by
  unfold OwnerEnv.call
  split
  · rfl
  · split
    · split <;> rfl
    · rfl

/-! ### The gates -/

def globalDailyCeilingUsd : Usd := 5

def dailyCapUsd : Usd := 2 / 5

/-- What the ledger answers about the rails; every reading of it may raise. -/
structure RailReading where
  feedbackLedgerMayBeMetered : Except Unit Bool
  globalDailySpend : Except Unit Usd
  dailySpendFor : Except Unit Usd

/-- `_judge_money_rails_allow_dispatch`: a rail that cannot answer refuses. -/
def RailReading.allowDispatch (reading : RailReading) : Bool :=
  match reading.feedbackLedgerMayBeMetered with
  | .error _ | .ok false => false
  | .ok true =>
      match reading.globalDailySpend with
      | .error _ => false
      | .ok globalSpend =>
          if globalDailyCeilingUsd ≤ globalSpend then false
          else
            match reading.dailySpendFor with
            | .error _ => false
            | .ok spend => decide (spend < dailyCapUsd)

/-- The rails allow a dispatch exactly when the ledger answers, and has room on both. -/
theorem RailReading.allowDispatch_iff (reading : RailReading) :
    reading.allowDispatch = true ↔
      reading.feedbackLedgerMayBeMetered = .ok true ∧
      (∃ globalSpend,
        reading.globalDailySpend = .ok globalSpend ∧ globalSpend < globalDailyCeilingUsd) ∧
      ∃ spend, reading.dailySpendFor = .ok spend ∧ spend < dailyCapUsd := by
  unfold RailReading.allowDispatch
  cases hmetered : reading.feedbackLedgerMayBeMetered with
  | error e => simp
  | ok metered =>
      cases metered with
      | false => simp
      | true =>
          cases hglobal : reading.globalDailySpend with
          | error e => simp
          | ok globalSpend =>
              by_cases hceiling : globalDailyCeilingUsd ≤ globalSpend
              · simp [hceiling, not_lt.mpr hceiling]
              · cases hspend : reading.dailySpendFor <;> simp [hceiling, not_le.mp hceiling]

/-- What the evaluation reads of a run. -/
structure JudgedRun where
  queryRunId : Uuid
  updatedAt : Instant
  status : QueryRunStatus
  costEstimate : CostEstimate
  mode : Mode
  modelSlots : List ModelSlot
  initialAnswers : List PanelAnswer
  finalSynthesis : Option FinalSynthesis

/-- `_request_path_judge`: may this run be judged at all? -/
def requestPathJudge (judgeConfigured : Bool) (run : JudgedRun) : Bool :=
  judgeConfigured && run.status ∉ [.cancelled, .blockedByCost]
    && !(run.costEstimate.globalCeilingReached || run.costEstimate.spendMeteringUnavailable)
    && run.initialAnswers.any fun answer =>
      answer.status = .completed && answer.modelWasInvoked

end Quorum
