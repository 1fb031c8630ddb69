import Quorum.BaseWeighted
import Quorum.CostVerdict
import Quorum.JudgeReads
import Quorum.TrustCensus
import Quorum.TrustRefusal

/-! Layer A of the evaluation (`evaluation`): the signals of a terminal run, the two labels read
from them, and their composite. Ratios are exact. -/

namespace Quorum

/-- A ratio within its bounds, as the signals' fields check it. -/
structure Ratio where
  value : ℚ
  nonneg : 0 ≤ value
  le_one : value ≤ 1
deriving DecidableEq

def Ratio.check (value : ℚ) : Option Ratio :=
  if h : 0 ≤ value ∧ value ≤ 1 then some { value, nonneg := h.1, le_one := h.2 } else none

/-- An optional field passes its check when it is missing. -/
def Ratio.checkOptional : Option ℚ → Option (Option Ratio)
  | none => some none
  | some value => (Ratio.check value).map some

/-- `part / whole`, and nothing of an empty whole. -/
def shareOf (part whole : ℕ) : ℚ := if whole = 0 then 0 else part / whole

def shareOf? (part whole : ℕ) : Option ℚ := if whole = 0 then none else some (part / whole)

/-- An initial answer, as far as the evaluation reads it; `answerCount` is its
`citation_coverage`'s. -/
structure EvaluatedAnswer extends PanelAnswer where
  sources : List SourceReference
  answerCount : ℕ

/-- The final synthesis, as far as the evaluation reads it. -/
structure EvaluatedSynthesis where
  consensus : Text
  disagreement : Text
  sourceSupport : Text
  uncertainty : Text
  recommendation : Text
  sourcedAnswerRatio : ℚ
  falseConsensusPreserved : Bool
  decisionSupportFramingPresent : Bool
  highStakesWarningRequired : Bool
  highStakesNotice : Option Text

structure LayerASignals where
  citationCoverageRatio : Ratio
  citationMarkerGrounding : Option Ratio
  unverifiableMarkerCount : ℕ
  unverifiableMarkerRatio : Option Ratio
  agreementRatio : Ratio
  liveRatio : Ratio
  completeness : Ratio
  falseConsensusPreserved : Bool
  polarDisagreementDetected : Bool
  disagreementSuppressed : Bool
  decisionSupportFramingPresent : Bool
  highStakesWarningRequired : Bool
  highStakesWarningPresent : Bool
  uncertaintySurfaced : Bool
  refusalDetected : Bool
  runWhollyRefused : Bool

inductive FaithfulnessLabel
  | unfaithful
  | partly
  | faithful
deriving DecidableEq

structure RunEvaluation where
  signals : LayerASignals
  faithfulnessLabel : FaithfulnessLabel
  hallucinationRisk : HallucinationRisk
  judge : Option EvalJudgeVerdict

def groundingFabricationThreshold : ℚ := 1 / 2

def groundingGoodThreshold : ℚ := 4 / 5

def refusalMajorityThreshold : ℚ := 1 / 2

/-! ### The classifiers -/

/-- The labels in trust order, the least trusting first; `partly` is the source's `partial`. -/
def faithfulnessTrustOrder : List FaithfulnessLabel := [.unfaithful, .partly, .faithful]

def FaithfulnessLabel.trust (label : FaithfulnessLabel) : ℕ := faithfulnessTrustOrder.idxOf label

def capFaithfulness (label ceiling : FaithfulnessLabel) : FaithfulnessLabel :=
  if label.trust ≤ ceiling.trust then label else ceiling

/-- The label that grounding alone decides. -/
def baseFaithfulness (signals : LayerASignals) : FaithfulnessLabel :=
  match signals.citationMarkerGrounding with
  | none => .partly
  | some grounding =>
      if grounding.value < groundingFabricationThreshold then .unfaithful
      else if signals.liveRatio.value < 1 ∨ signals.completeness.value < 1 then .partly
      else .faithful

def classifyFaithfulness (signals : LayerASignals) : FaithfulnessLabel :=
  if signals.refusalDetected then capFaithfulness (baseFaithfulness signals) .partly
  else baseFaithfulness signals

def classifyHallucinationRisk (signals : LayerASignals) : HallucinationRisk :=
  match signals.citationMarkerGrounding with
  | some grounding =>
      if grounding.value < groundingFabricationThreshold then .high
      else if groundingGoodThreshold ≤ grounding.value then .low
      else .medium
  | none => if signals.refusalDetected then .low else .medium

/-! ### The composite -/

inductive CompositeSignal
  | citationMarkerGrounding
  | liveRatio
  | citationCoverageRatio
  | completeness
  | disagreementIntegrity
  | uncertaintySurfaced
  | decisionSupportFramingPresent
deriving DecidableEq

def layerAWeights : CompositeSignal → ℚ
  | .citationMarkerGrounding => 30 / 100
  | .liveRatio => 20 / 100
  | .citationCoverageRatio => 15 / 100
  | .completeness => 15 / 100
  | .disagreementIntegrity => 10 / 100
  | .uncertaintySurfaced => 5 / 100
  | .decisionSupportFramingPresent => 5 / 100

structure TrustContribution where
  signal : CompositeSignal
  weight : ℚ
  value : ℚ
  contribution : ℚ
deriving DecidableEq

/-- `1.0 if flag else 0.0`. -/
def flagValue (flag : Bool) : ℚ := if flag then 1 else 0

def compositeValues (signals : LayerASignals) : List (CompositeSignal × Option ℚ) :=
  [(.citationMarkerGrounding, signals.citationMarkerGrounding.map Ratio.value),
    (.liveRatio, some signals.liveRatio.value),
    (.citationCoverageRatio, some signals.citationCoverageRatio.value),
    (.completeness, some signals.completeness.value),
    (.disagreementIntegrity, some (flagValue !signals.disagreementSuppressed)),
    (.uncertaintySurfaced, some (flagValue signals.uncertaintySurfaced)),
    (.decisionSupportFramingPresent, some (flagValue signals.decisionSupportFramingPresent))]

/-- The signals whose value is known. -/
def includedValues (signals : LayerASignals) : List (CompositeSignal × ℚ) :=
  (compositeValues signals).filterMap fun entry => entry.2.map fun value => (entry.1, value)

def computeComposite (signals : LayerASignals) : ℚ × List TrustContribution :=
  let included := includedValues signals
  let totalWeight := (included.map fun entry => layerAWeights entry.1).sum
  if totalWeight ≤ 0 then (0, [])
  else
    let contributions := included.map fun entry =>
      { signal := entry.1, weight := layerAWeights entry.1, value := entry.2
        contribution := 100 * layerAWeights entry.1 * entry.2 / totalWeight : TrustContribution }
    (min (max (contributions.map TrustContribution.contribution).sum 0) 100, contributions)

/-! ### The signals -/

/-- `calculate_citation_coverage(..).sourced_answer_ratio`. -/
def sourcedAnswerRatio (answerCount sourcedAnswerCount : ℕ) : ℚ :=
  if answerCount = 0 then 0
  else Estimation.roundHalfEven ((sourcedAnswerCount : ℚ) / answerCount * 100) / 100

def synthesisTexts : Option EvaluatedSynthesis → List Text
  | none => []
  | some synthesis =>
      [synthesis.consensus, synthesis.disagreement, synthesis.sourceSupport, synthesis.uncertainty,
        synthesis.recommendation]

/-- What the signals take of a panel beside the wording of its answers. -/
structure PanelFacts where
  slotCount : ℕ
  liveCount : ℕ
  completedCount : ℕ
  coverageRatio : ℚ
  census : MarkerCensus
deriving DecidableEq

/-- What the signals take of the wording. -/
structure PanelReading where
  polar : Bool
  refusals : ℕ

namespace LayerTables

variable (p : LayerTables)

def uncertaintySurfaced (finalSynthesis : Option EvaluatedSynthesis) : Bool :=
  finalSynthesis.any fun synthesis => 20 ≤ (p.strip synthesis.uncertainty).length

def substantive (answer : EvaluatedAnswer) : Bool :=
  answer.status = .completed && p.isVisible answer.answerText

/-- The scopes of a run: each answer with its own sources, each section of the synthesis with
none. -/
def citationScopes (initialAnswers : List EvaluatedAnswer)
    (finalSynthesis : Option EvaluatedSynthesis) : List CitationScope :=
  (initialAnswers.map fun answer => (answer.answerText, answer.sources))
    ++ (synthesisTexts finalSynthesis).map fun text => (text, [])

def coverageRatio (initialAnswers : List EvaluatedAnswer) : Option EvaluatedSynthesis → ℚ
  | some synthesis => synthesis.sourcedAnswerRatio
  | none =>
      sourcedAnswerRatio (initialAnswers.map EvaluatedAnswer.answerCount).sum
        (initialAnswers.countP fun answer =>
          answer.answerCount ≠ 0 && answer.sources.any fun source => !source.isFallback)

def panelFacts (initialAnswers : List EvaluatedAnswer) (finalSynthesis : Option EvaluatedSynthesis)
    (requestedSlotCount : Option ℕ) : PanelFacts :=
  { slotCount := requestedSlotCount.getD initialAnswers.length
    liveCount := initialAnswers.countP fun answer =>
      answer.providerPath = .openrouterSearch && answer.status = .completed
    completedCount := initialAnswers.countP p.substantive
    coverageRatio := coverageRatio initialAnswers finalSynthesis
    census := p.citationMarkerCensus (citationScopes initialAnswers finalSynthesis) }

def panelReading (initialAnswers : List EvaluatedAnswer) : PanelReading :=
  let completed := initialAnswers.filter p.substantive
  { polar := p.hasPolarDisagreement (completed.map fun answer => answer.answerText)
    refusals := completed.countP fun answer => p.detectRefusal answer.answerText }

/-- The signals, unless a field is out of its bounds. -/
def layerASignals (facts : PanelFacts) (reading : PanelReading)
    (finalSynthesis : Option EvaluatedSynthesis) (agreement : AgreementSummary) :
    Option LayerASignals := do
  let markerTotal := facts.census.resolvable + facts.census.unverifiable
  let preserved := finalSynthesis.any EvaluatedSynthesis.falseConsensusPreserved
  let citationCoverageRatio ← Ratio.check (min (max facts.coverageRatio 0) 1)
  let citationMarkerGrounding ←
    Ratio.checkOptional (shareOf? facts.census.resolved facts.census.resolvable)
  let unverifiableMarkerRatio ← Ratio.checkOptional (shareOf? facts.census.unverifiable markerTotal)
  let agreementRatio ← Ratio.check (shareOf agreement.aligned agreement.total)
  let liveRatio ← Ratio.check (shareOf facts.liveCount facts.slotCount)
  let completeness ← Ratio.check (shareOf facts.completedCount facts.slotCount)
  some
    { citationCoverageRatio, citationMarkerGrounding, unverifiableMarkerRatio,
      agreementRatio, liveRatio
      completeness
      unverifiableMarkerCount := facts.census.unverifiable
      falseConsensusPreserved := preserved
      polarDisagreementDetected := reading.polar
      disagreementSuppressed := reading.polar && !preserved
      decisionSupportFramingPresent :=
        finalSynthesis.any EvaluatedSynthesis.decisionSupportFramingPresent
      highStakesWarningRequired := finalSynthesis.any EvaluatedSynthesis.highStakesWarningRequired
      highStakesWarningPresent := finalSynthesis.any fun synthesis =>
        synthesis.highStakesNotice.any fun notice => p.strip notice ≠ []
      uncertaintySurfaced := p.uncertaintySurfaced finalSynthesis
      refusalDetected := facts.completedCount ≠ 0
        && refusalMajorityThreshold ≤ (reading.refusals : ℚ) / facts.completedCount
      runWhollyRefused := facts.completedCount ≠ 0 && reading.refusals = facts.completedCount }

def evaluateLayerA (initialAnswers : List EvaluatedAnswer)
    (finalSynthesis : Option EvaluatedSynthesis) (agreement : AgreementSummary)
    (judgeVerdict : Option EvalJudgeVerdict) (requestedSlotCount : Option ℕ) :
    Option RunEvaluation :=
  (p.layerASignals (p.panelFacts initialAnswers finalSynthesis requestedSlotCount)
    (p.panelReading initialAnswers)
    finalSynthesis agreement).map fun signals =>
      { signals, faithfulnessLabel := classifyFaithfulness signals
        hallucinationRisk := classifyHallucinationRisk signals, judge := judgeVerdict }

end LayerTables

/-! ### What the labels may read -/

variable {before after : LayerASignals}

theorem capFaithfulness_trust_le (label ceiling : FaithfulnessLabel) :
    (capFaithfulness label ceiling).trust ≤ label.trust := by
  rw [capFaithfulness]
  split_ifs with hle
  · exact le_rfl
  · exact (Nat.lt_of_not_le hle).le

/-- Refusal is a cap: it never lifts the label that grounding decides. -/
theorem classifyFaithfulness_trust_le (signals : LayerASignals) :
    (classifyFaithfulness signals).trust ≤ (baseFaithfulness signals).trust := by
  rw [classifyFaithfulness]
  split_ifs
  · exact capFaithfulness_trust_le _ _
  · exact le_rfl

theorem classifyHallucinationRisk_known
    (hsame : after.citationMarkerGrounding = before.citationMarkerGrounding)
    (hknown : before.citationMarkerGrounding ≠ none) :
    classifyHallucinationRisk after = classifyHallucinationRisk before := by
  obtain ⟨grounding, hgrounding⟩ := Option.ne_none_iff_exists'.mp hknown
  rw [classifyHallucinationRisk, classifyHallucinationRisk, hsame, hgrounding]

/-! ### The composite as a mean -/

def compositeTerms (signals : LayerASignals) : List (ℚ × ℚ) :=
  (includedValues signals).map fun entry => (layerAWeights entry.1, entry.2)

/-- The terms before the disagreement's. -/
def termsBefore (signals : LayerASignals) : List (ℚ × ℚ) :=
  (signals.citationMarkerGrounding.toList.map fun grounding => (30 / 100, grounding.value))
    ++ [(20 / 100, signals.liveRatio.value), (15 / 100, signals.citationCoverageRatio.value),
      (15 / 100, signals.completeness.value)]

def termsAfter (signals : LayerASignals) : List (ℚ × ℚ) :=
  [(5 / 100, flagValue signals.uncertaintySurfaced),
    (5 / 100, flagValue signals.decisionSupportFramingPresent)]

theorem compositeTerms_eq (signals : LayerASignals) :
    compositeTerms signals
      = termsBefore signals ++ (10 / 100,
          flagValue !signals.disagreementSuppressed) :: termsAfter signals := by
  cases hgrounding : signals.citationMarkerGrounding with
  | none =>
      simp [compositeTerms, includedValues, compositeValues, termsBefore, termsAfter, hgrounding,
        layerAWeights]
  | some grounding =>
      simp [compositeTerms, includedValues, compositeValues, termsBefore, termsAfter, hgrounding,
        layerAWeights]

theorem layerAWeights_nonneg (signal : CompositeSignal) : 0 ≤ layerAWeights signal := by
  cases signal <;> norm_num [layerAWeights]

theorem flagValue_unit (flag : Bool) : 0 ≤ flagValue flag ∧ flagValue flag ≤ 1 := by
  cases flag <;> norm_num [flagValue]

theorem includedValues_unit (signals : LayerASignals) :
    ∀ entry ∈ includedValues signals, 0 ≤ entry.2 ∧ entry.2 ≤ 1 := by
  have hratio : ∀ ratio : Ratio, 0 ≤ ratio.value ∧ ratio.value ≤ 1 :=
    fun ratio => ⟨ratio.nonneg, ratio.le_one⟩
  intro entry hentry
  obtain ⟨⟨name, value?⟩, hmem, hvalue⟩ := List.mem_filterMap.mp hentry
  obtain ⟨value, rfl, rfl⟩ := Option.map_eq_some_iff.mp hvalue
  simp only [compositeValues, List.mem_cons, Prod.mk.injEq, List.not_mem_nil, or_false] at hmem
  rcases hmem with ⟨-, h⟩ | ⟨-, h⟩ | ⟨-, h⟩ | ⟨-, h⟩ | ⟨-, h⟩ | ⟨-, h⟩ | ⟨-, h⟩
  · obtain ⟨grounding, -, rfl⟩ := Option.map_eq_some_iff.mp h.symm
    exact hratio grounding
  · exact Option.some.inj h ▸ hratio _
  · exact Option.some.inj h ▸ hratio _
  · exact Option.some.inj h ▸ hratio _
  · exact Option.some.inj h ▸ flagValue_unit _
  · exact Option.some.inj h ▸ flagValue_unit _
  · exact Option.some.inj h ▸ flagValue_unit _

theorem compositeTerms_inUnit (signals : LayerASignals) :
    Weighted.InUnit (compositeTerms signals) := by
  intro term hterm
  obtain ⟨entry, hentry, rfl⟩ := List.mem_map.mp hterm
  exact ⟨layerAWeights_nonneg _, includedValues_unit signals entry hentry⟩

theorem compositeTerms_total_pos (signals : LayerASignals) :
    0 < Weighted.total (compositeTerms signals) := by
  rw [compositeTerms_eq, termsBefore, termsAfter]
  cases signals.citationMarkerGrounding with
  | none => norm_num [Weighted.total]
  | some grounding => norm_num [Weighted.total]

/-- The clamp to `0..100` never acts. -/
theorem computeComposite_fst (signals : LayerASignals) :
    (computeComposite signals).1 = 100 * Weighted.mean (compositeTerms signals) := by
  have htotal : ((includedValues signals).map fun entry => layerAWeights entry.1).sum
      = Weighted.total (compositeTerms signals) := by
    rw [Weighted.total, compositeTerms, List.map_map]
    rfl
  have hpos := compositeTerms_total_pos signals
  have hsum : ((includedValues signals).map fun entry =>
      100 * layerAWeights entry.1 * entry.2 / Weighted.total (compositeTerms signals)).sum
        = 100 * Weighted.mean (compositeTerms signals) := by
    have hterm : (fun entry : CompositeSignal × ℚ =>
        100 * layerAWeights entry.1 * entry.2 / Weighted.total (compositeTerms signals))
          = fun entry => layerAWeights
              entry.1 * entry.2 * (100 / Weighted.total (compositeTerms signals)) := by
      funext entry
      ring
    have hmap : Weighted.sum (compositeTerms signals)
        = ((includedValues signals).map fun entry => layerAWeights entry.1 * entry.2).sum := by
      rw [Weighted.sum, compositeTerms, List.map_map]
      rfl
    rw [hterm, List.sum_map_mul_right, ← hmap, Weighted.mean]
    ring
  have hnonneg := Weighted.mean_nonneg (compositeTerms_inUnit signals)
  have hone := Weighted.mean_le_one (compositeTerms_inUnit signals)
  rw [computeComposite, htotal, if_neg hpos.not_ge]
  simp only [List.map_map, Function.comp_def]
  rw [hsum, max_eq_left (by linarith), min_eq_left (by linarith)]

/-- Of two runs that differ in wording alone, the composites agree when both or neither suppressed a
disagreement. -/
theorem computeComposite_fst_eq_iff (hbefore : termsBefore after = termsBefore before)
    (hafter : termsAfter after = termsAfter before) :
    (computeComposite after).1 = (computeComposite before).1
      ↔ after.disagreementSuppressed = before.disagreementSuppressed := by
  have htotal := (compositeTerms_total_pos before).ne'
  rw [computeComposite_fst, computeComposite_fst, mul_right_inj' (by norm_num), eq_comm]
  rw [compositeTerms_eq] at htotal
  rw [compositeTerms_eq, compositeTerms_eq, hbefore, hafter,
    Weighted.mean_middle_inj (by norm_num) htotal]
  cases after.disagreementSuppressed <;> cases before.disagreementSuppressed <;> simp [flagValue]

end Quorum
