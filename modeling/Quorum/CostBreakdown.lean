import Quorum.BaseDict
import Quorum.CostLines

/-! The two breakdowns of a run's cost, before the run from the estimate and after it from measured
calls. An estimate shows the two debate rounds as equal: when reconciliation gave the odd quantum to
one of them, it moves to the line of the initial answers. That line alone can then hold a quantum
that its own amount does not account for. -/

namespace Quorum

open Apportion

inductive CostStage
  | initialAnswers
  | debateRound1
  | debateRound2
  | synthesis
  | judge
  | sourceFetch
deriving DecidableEq

inductive CostKind
  | model
  | synthesis
  | judge
  | critique
deriving DecidableEq

/-- What a line by model names beside its amount. -/
structure ModelLabel where
  kind : CostKind
  modelId : String
  displayName : String
deriving DecidableEq

abbrev CostLineByModel := CostLine ModelLabel

abbrev CostLineByStage := CostLine CostStage

structure CostBreakdown where
  byModel : List CostLineByModel
  byStage : List CostLineByStage
  total : ℚ
  nonneg : 0 ≤ total

def costBreakdown (byModel : List CostLineByModel) (byStage : List CostLineByStage) (total : ℚ) :
    Except CostError CostBreakdown :=
  if h : 0 ≤ total then .ok ⟨byModel, byStage, total, h⟩ else .error (.lineNegative total)

/-- The row of the debate rounds and the synthesis. -/
def writerLabel : ModelLabel := ⟨.synthesis, "synthesis", "Synthesis"⟩

def judgeLabel (modelId : String) : ModelLabel := ⟨.judge, modelId, "Layer-B judge"⟩

/-! ### The estimate -/

/-- What an estimate is asked for. -/
structure CostRequest where
  queryChars : ℕ
  modelSlots : List ModelSlot
  context : Option ContextSizes := none
  mode : Mode := .panel

section

variable (pricing : Pricing)

/-- The catalog's short name of a model, or its id where there is none. -/
def slotLabel (slot : ModelSlot) : ModelLabel :=
  let displayName := match pricing.lookupShortName slot.modelId with
    | none | some "" => slot.modelId
    | some name => name
  ⟨.model, slot.modelId, displayName⟩

/-- The raw stages of a panel estimate. -/
def estimateStageRaw (parts : CostParts) (args : ComponentArgs) : List (CostStage × ℚ≥0) :=
  [(.initialAnswers, parts.initialTotal), (.debateRound1, parts.debateRoundCost),
    (.debateRound2, parts.debateRoundCost), (.synthesis, parts.synthesisCost)] ++
  (if args.priceJudge then [(.judge, parts.judgeCost)] else []) ++
  (if args.priceJudgePages then [(.sourceFetch, 0)] else [])

/-- The raw models of a panel estimate: a row a slot, the writer, and the judge last. -/
def estimateModelRaw (modelSlots : List ModelSlot) (parts : CostParts) (args : ComponentArgs) :
    List (ModelLabel × ℚ≥0) :=
  (modelSlots.zip parts.initialPerModel).map (fun row => (slotLabel pricing row.1, row.2)) ++
  [(writerLabel, 2 * parts.debateRoundCost + parts.synthesisCost)] ++
  (if args.priceJudge then [(judgeLabel pricing.settings.quorumEvalJudgeModelId,
    parts.judgeCost)] else [])

/-- The two debate rounds share one token model, so the odd quantum of one of them goes to the first
line. -/
def equalizeDebateRounds : List ℚ → List ℚ
  | initial :: one :: two :: rest =>
      if one ≠ two then
        if two < one then
          (initial + costDisplayQuantum) :: (one - costDisplayQuantum) :: two :: rest
        else (initial + costDisplayQuantum) :: one :: (two - costDisplayQuantum) :: rest
      else initial :: one :: two :: rest
  | stageUsd => stageUsd

def quickStageRaw (initialTotal : ℚ≥0) (judge : Option ℚ≥0) : List (CostStage × ℚ≥0) :=
  (.initialAnswers, initialTotal) :: (judge.map fun cost => (CostStage.judge, cost)).toList

def quickModelRaw (slot : ModelSlot) (initialTotal : ℚ≥0) (judge : Option ℚ≥0) :
    List (ModelLabel × ℚ≥0) :=
  (slotLabel pricing slot, initialTotal) ::
    (judge.map fun cost => (judgeLabel pricing.settings.quorumEvalJudgeModelId, cost)).toList

def quickBreakdown (modelSlots : List ModelSlot) (initialTotal : ℚ≥0) (judge : Option ℚ≥0)
    (total : ℚ) :
    Except CostError CostBreakdown :=
  match modelSlots with
  | [slot] => do
      let byStage ← reconciledLines (quickStageRaw initialTotal judge) total
      let byModel ← reconciledLines (quickModelRaw pricing slot initialTotal judge) total
      costBreakdown byModel byStage total
  | _ => .error .unpackSlot

def CostRequest.estimateArgs (request : CostRequest) : ComponentArgs :=
  Quorum.estimateArgs pricing request.queryChars request.context request.mode

def CostRequest.boundArgs (request : CostRequest) : ComponentArgs :=
  Quorum.boundArgs pricing request.context request.mode

def estimateBreakdown (request : CostRequest) : Except CostError CostBreakdown := do
  let args := request.estimateArgs pricing
  let parts ← (costComponents pricing request.queryChars request.modelSlots args).mapError
      .components
  let total := quantize parts.rawTotal
  if request.mode = .quick then
    quickBreakdown pricing request.modelSlots parts.initialTotal
      (if args.priceJudge then some parts.judgeCost else none) total
  else
    let stageRaw := estimateStageRaw parts args
    let stageUsd ← reconcileUsdLines (amounts stageRaw) total
    let byStage ← costLines (stageRaw.map Prod.fst) (equalizeDebateRounds stageUsd)
    let byModel ← reconciledLines (estimateModelRaw pricing request.modelSlots parts args) total
    costBreakdown byModel byStage total

/-- `_estimate_bound_usd`. -/
def estimateBoundUsd (request : CostRequest) : Except CostError ℚ := do
  let parts ← (costComponents pricing request.queryChars request.modelSlots
    (request.boundArgs pricing)).mapError .components
  return quantize parts.rawTotal

end

/-! ### Measured calls -/

/-- The measured costs of a run's calls. -/
structure MeasuredCosts where
  perModelInitial : List (String × String × ℚ≥0)
  debateByRound : Dict ℤ ℚ≥0
  synthesisCost : ℚ≥0
  judge : Option (String × ℚ≥0) := none
  critiqueByModel : List (String × String × ℚ≥0) := []
  quick : Bool := false
  sourceFetch : Bool := false

namespace MeasuredCosts

variable (measured : MeasuredCosts)

def judgeCost : ℚ≥0 := (measured.judge.map Prod.snd).getD 0

def initialTotal : ℚ≥0 := (measured.perModelInitial.map fun line => line.2.2).sum

def debateTotal : ℚ≥0 := measured.debateByRound.values.sum

def critiqueTotal : ℚ≥0 := (measured.critiqueByModel.map fun line => line.2.2).sum

/-- The cost of a round, or zero when the round is absent. -/
def debateRound (round : ℤ) : ℚ≥0 := (measured.debateByRound.get? round).getD 0

/-- The amounts of the models of one kind, each with its id and its display name. -/
def modelRows (kind : CostKind) (lines : List (String × String × ℚ≥0)) : List (ModelLabel × ℚ≥0) :=
  lines.map fun line => (⟨kind, line.1, line.2.1⟩, line.2.2)

def judgeStageRow : List (CostStage × ℚ≥0) :=
  (measured.judge.map fun judge => (CostStage.judge, judge.2)).toList

def judgeModelRow : List (ModelLabel × ℚ≥0) :=
  (measured.judge.map fun judge => (judgeLabel judge.1, judge.2)).toList

def stageRaw : List (CostStage × ℚ≥0) :=
  if measured.quick then (.initialAnswers, measured.initialTotal) :: measured.judgeStageRow
  else
    [(.initialAnswers, measured.initialTotal), (.debateRound1, measured.debateRound 1),
      (.debateRound2, measured.debateRound 2), (.synthesis, measured.synthesisCost)] ++
    measured.judgeStageRow ++ (if measured.sourceFetch then [(.sourceFetch, 0)] else [])

/-- The critics' share comes out of the writer row, which is read only when the debate covers it. -/
def writerCost : ℚ≥0 := measured.debateTotal - measured.critiqueTotal + measured.synthesisCost

def modelRaw : List (ModelLabel × ℚ≥0) :=
  if measured.quick then modelRows .model measured.perModelInitial ++ measured.judgeModelRow
  else
    modelRows .model measured.perModelInitial ++ [(writerLabel, measured.writerCost)] ++
    measured.judgeModelRow ++ modelRows .critique measured.critiqueByModel

/-- What was measured in all; a quick answer has its answer and its judge only. -/
def rawTotal : ℚ≥0 :=
  if measured.quick then measured.initialTotal + measured.judgeCost
  else measured.initialTotal + measured.debateTotal + measured.synthesisCost + measured.judgeCost

end MeasuredCosts

def quickMeasuredBreakdown (measured : MeasuredCosts) : Except CostError CostBreakdown := do
  let total := quantize measured.rawTotal
  let byStage ← reconciledLines measured.stageRaw total
  let byModel ← reconciledLines measured.modelRaw total
  costBreakdown byModel byStage total

def buildMeasuredBreakdown (measured : MeasuredCosts) : Except CostError CostBreakdown :=
  if measured.quick then
    if measured.debateByRound.items ≠ [] ∨ measured.synthesisCost ≠ 0
      ∨ measured.critiqueByModel ≠ [] then
      .error .quickDebateSpend
    else quickMeasuredBreakdown measured
  else do
    let total := quantize measured.rawTotal
    let byStage ← reconciledLines measured.stageRaw total
    if measured.debateTotal < measured.critiqueTotal then
      .error (.critiqueAboveDebate measured.critiqueTotal measured.debateTotal)
    else
      let byModel ← reconciledLines measured.modelRaw total
      costBreakdown byModel byStage total

end Quorum
