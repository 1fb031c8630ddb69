import Quorum.PanelEvidence
import Quorum.LinkOrdinals
import Quorum.TrustSignals

/-! A refusal earns no trust (`evaluation`): two panels that differ in wording alone, one of them
refused. -/

namespace Quorum

theorem countP_congr_forall₂ {α : Type} {r : α → α → Prop} {pred : α → Bool} {left right : List α}
    (hr : ∀ a b, r a b → pred a = pred b) (h : List.Forall₂ r left right) :
    left.countP pred = right.countP pred := by
  induction h with
  | nil => rfl
  | cons hhead _ ih => rw [List.countP_cons, List.countP_cons, hr _ _ hhead, ih]

theorem map_congr_forall₂ {α β : Type} {r : α → α → Prop} {f : α → β} {left right : List α}
    (hr : ∀ a b, r a b → f a = f b) (h : List.Forall₂ r left right) : left.map f = right.map f := by
  induction h with
  | nil => rfl
  | cons hhead _ ih => rw [List.map_cons, List.map_cons, hr _ _ hhead, ih]

/-- The signals with another reading of the wording. -/
def LayerASignals.withReading (signals : LayerASignals) (facts : PanelFacts)
    (reading : PanelReading) : LayerASignals :=
  { signals with
    polarDisagreementDetected := reading.polar
    disagreementSuppressed := reading.polar && !signals.falseConsensusPreserved
    refusalDetected := facts.completedCount ≠ 0
      && refusalMajorityThreshold ≤ (reading.refusals : ℚ) / facts.completedCount
    runWhollyRefused := facts.completedCount ≠ 0 && reading.refusals = facts.completedCount }

namespace LayerTables

variable {p : LayerTables} {first second : List EvaluatedAnswer}
  {finalSynthesis : Option EvaluatedSynthesis}

/-- The answers differ in their texts alone, which carry the same markers and are both or neither
visible. -/
structure SameButWording (p : LayerTables) (before after : EvaluatedAnswer) : Prop where
  rest : after = { before with answerText := after.answerText }
  markers : p.markersOf before.answerText = p.markersOf after.answerText
  visible : p.isVisible before.answerText = p.isVisible after.answerText

/-- The answer with rows appended to its sources. -/
def AppendsRows (before after : EvaluatedAnswer) : Prop :=
  ∃ rows, after = { before with sources := before.sources ++ rows }

section

variable {before after : EvaluatedAnswer} (h : p.SameButWording before after)
include h

theorem SameButWording.status : before.status = after.status := by
  rw [h.rest]

theorem SameButWording.providerPath : before.providerPath = after.providerPath := by
  rw [h.rest]

theorem SameButWording.sources : before.sources = after.sources := by
  rw [h.rest]

theorem SameButWording.answerCount : before.answerCount = after.answerCount := by
  rw [h.rest]

theorem SameButWording.substantive : p.substantive before = p.substantive after := by
  rw [LayerTables.substantive, LayerTables.substantive, h.status, h.visible]

end

theorem citationScopes_sameScope (h : List.Forall₂ p.SameButWording first second) :
    List.Forall₂ p.SameScope (citationScopes first finalSynthesis)
      (citationScopes second finalSynthesis) := by
  apply List.rel_append
  · rw [List.forall₂_map_left_iff, List.forall₂_map_right_iff]
    exact h.imp fun _ _ hanswer => ⟨hanswer.markers, hanswer.sources⟩
  · exact List.forall₂_same.mpr fun scope _ => SameScope.refl scope

theorem citationScopes_extends (h : List.Forall₂ AppendsRows first second) :
    List.Forall₂ Extends (citationScopes first finalSynthesis)
      (citationScopes second finalSynthesis) := by
  apply List.rel_append
  · rw [List.forall₂_map_left_iff, List.forall₂_map_right_iff]
    exact h.imp fun before after ⟨rows, hafter⟩ => ⟨rows, by rw [hafter]⟩
  · exact List.forall₂_same.mpr fun scope _ => Extends.refl scope

/-- The facts of a panel do not depend on its wording. -/
theorem panelFacts_congr (h : List.Forall₂ p.SameButWording first second)
    (requestedSlotCount : Option ℕ) :
    p.panelFacts first finalSynthesis requestedSlotCount
      = p.panelFacts second finalSynthesis requestedSlotCount := by
  have hlive : (first.countP fun answer =>
      answer.providerPath = .openrouterSearch && answer.status = .completed)
        = second.countP fun answer => answer.providerPath = .openrouterSearch
            && answer.status = .completed :=
    countP_congr_forall₂ (fun _ _ hanswer => by rw [hanswer.providerPath, hanswer.status]) h
  have hcompleted : first.countP p.substantive = second.countP p.substantive :=
    countP_congr_forall₂ (fun _ _ hanswer => hanswer.substantive) h
  have hcounts : first.map EvaluatedAnswer.answerCount = second.map EvaluatedAnswer.answerCount :=
    map_congr_forall₂ (fun _ _ hanswer => hanswer.answerCount) h
  have hsourced : (first.countP fun answer =>
      answer.answerCount ≠ 0 && answer.sources.any fun source => !source.isFallback)
        = second.countP fun answer =>
          answer.answerCount ≠ 0 && answer.sources.any fun source => !source.isFallback :=
    countP_congr_forall₂ (fun _ _ hanswer => by rw [hanswer.answerCount, hanswer.sources]) h
  have hcoverage : coverageRatio first finalSynthesis = coverageRatio second finalSynthesis := by
    cases finalSynthesis with
    | none => rw [coverageRatio, coverageRatio, hcounts, hsourced]
    | some synthesis => rfl
  rw [panelFacts, panelFacts, h.length_eq, hlive, hcompleted, hcoverage,
    citationMarkerCensus_congr (citationScopes_sameScope h)]

/-- What the wording moves in the signals. -/
theorem layerASignals_reading (p : LayerTables) (facts : PanelFacts)
    (reading reading' : PanelReading) (finalSynthesis : Option EvaluatedSynthesis)
    (agreement : AgreementSummary) :
    p.layerASignals facts reading' finalSynthesis agreement
      = (p.layerASignals facts reading finalSynthesis agreement).map fun signals =>
        signals.withReading facts reading' := by
  dsimp only [layerASignals]
  cases Ratio.check (min (max facts.coverageRatio 0) 1) with
  | none => rfl
  | some coverage =>
  cases Ratio.checkOptional (shareOf? facts.census.resolved facts.census.resolvable) with
  | none => rfl
  | some grounding =>
  cases Ratio.checkOptional
      (shareOf? facts.census.unverifiable
        (facts.census.resolvable + facts.census.unverifiable)) with
  | none => rfl
  | some unverifiable =>
  cases Ratio.check (shareOf agreement.aligned agreement.total) with
  | none => rfl
  | some agreementRatio =>
  cases Ratio.check (shareOf facts.liveCount facts.slotCount) with
  | none => rfl
  | some live =>
  cases Ratio.check (shareOf facts.completedCount facts.slotCount) with
  | none => rfl
  | some completeness => rfl

/-- What a refused panel's evaluation is to that of a panel of the same markers that was not
refused. The composite counts a suppressed disagreement, which is read from the wording, and nothing
else of it. -/
structure EarnsNoTrust (p : LayerTables) (first second : List EvaluatedAnswer)
    (finalSynthesis : Option EvaluatedSynthesis) (before after : RunEvaluation) : Prop where
  label : after.faithfulnessLabel.trust ≤ before.faithfulnessLabel.trust
  grounding : after.signals.citationMarkerGrounding = before.signals.citationMarkerGrounding
  counts : p.citationMarkerCensus (citationScopes second finalSynthesis)
    = p.citationMarkerCensus (citationScopes first finalSynthesis)
  unverifiable : after.signals.unverifiableMarkerCount = before.signals.unverifiableMarkerCount
    ∧ after.signals.unverifiableMarkerRatio = before.signals.unverifiableMarkerRatio
  risk : before.signals.citationMarkerGrounding ≠ none →
    after.hallucinationRisk = before.hallucinationRisk
  composite : (computeComposite after.signals).1 = (computeComposite before.signals).1
    ↔ after.signals.disagreementSuppressed = before.signals.disagreementSuppressed

theorem earnsNoTrust_withReading (h : List.Forall₂ p.SameButWording first second)
    (facts : PanelFacts) (reading : PanelReading) (signals : LayerASignals)
    (judge : Option EvalJudgeVerdict) (hanswering : signals.refusalDetected = false) :
    p.EarnsNoTrust first second finalSynthesis
      { signals, faithfulnessLabel := classifyFaithfulness signals
        hallucinationRisk := classifyHallucinationRisk signals, judge }
      { signals := signals.withReading facts reading
        faithfulnessLabel := classifyFaithfulness (signals.withReading facts reading)
        hallucinationRisk := classifyHallucinationRisk (signals.withReading facts reading),
          judge } where
  label := by
    have hbase : classifyFaithfulness signals
        = baseFaithfulness (signals.withReading facts reading) := by
      rw [classifyFaithfulness, hanswering, if_neg Bool.false_ne_true]
      rfl
    change _ ≤ (classifyFaithfulness signals).trust
    rw [hbase]
    exact classifyFaithfulness_trust_le _
  grounding := rfl
  counts := (citationMarkerCensus_congr (citationScopes_sameScope h)).symm
  unverifiable := ⟨rfl, rfl⟩
  risk := fun hknown => classifyHallucinationRisk_known rfl hknown
  composite := computeComposite_fst_eq_iff rfl rfl

/-- Refusing never earns trust, and what resolves does with more rows; an ordinal of the synthesis
never does. -/
theorem evaluateLayerA_earnsNoTrust (p : LayerTables) :
    (∀ first second finalSynthesis agreement judgeVerdict requestedSlotCount,
      List.Forall₂ p.SameButWording first second →
      Option.Rel
        (fun before after => before.signals.refusalDetected = false →
          after.signals.refusalDetected = true →
          p.EarnsNoTrust first second finalSynthesis before after)
        (p.evaluateLayerA first finalSynthesis agreement judgeVerdict requestedSlotCount)
        (p.evaluateLayerA second finalSynthesis agreement judgeVerdict requestedSlotCount))
      ∧ (∀ first second finalSynthesis, List.Forall₂ AppendsRows first second →
        (p.citationMarkerCensus (citationScopes first finalSynthesis)).resolved
          ≤ (p.citationMarkerCensus (citationScopes second finalSynthesis)).resolved)
      ∧ ∀ initialAnswers finalSynthesis,
        (p.citationMarkerCensus (citationScopes initialAnswers finalSynthesis)).resolved
          = (p.citationMarkerCensus (citationScopes initialAnswers none)).resolved
            + ((synthesisTexts finalSynthesis).flatMap p.markersOf).countP fun marker =>
              !p.isOrdinalMarker marker
                && p.canonicalMarkerKey marker ∈ p.runUrls
                  (citationScopes initialAnswers none) := by
  refine ⟨?_, ?_, ?_⟩
  · intro first second finalSynthesis agreement judgeVerdict requestedSlotCount h
    rw [evaluateLayerA, evaluateLayerA, ← panelFacts_congr h,
      p.layerASignals_reading _ (p.panelReading first) (p.panelReading second)]
    cases p.layerASignals (p.panelFacts first finalSynthesis requestedSlotCount)
      (p.panelReading first)
        finalSynthesis agreement with
    | none => exact .none
    | some signals =>
        exact .some fun hanswering _ =>
          earnsNoTrust_withReading h _ _ signals judgeVerdict hanswering
  · intro first second finalSynthesis h
    exact citationMarkerCensus_resolved_le (citationScopes_extends h)
  · intro initialAnswers finalSynthesis
    have hscopes : citationScopes initialAnswers none
        = initialAnswers.map fun answer => (answer.answerText, answer.sources) := by
      rw [citationScopes, synthesisTexts, List.map_nil, List.append_nil]
    rw [hscopes]
    exact citationMarkerCensus_append_nil (synthesisTexts finalSynthesis)

end LayerTables

/-- The tables on ASCII, without code in the prose. -/
def asciiLayerTables : LayerTables :=
  { PanelTables.asciiPanelTables with
    isDecimal := Char.isDigit
    blank := by decide
    brackets := by
      rw [List.forall_mem_cons, List.forall_mem_singleton]
      decide
    isDigit := Char.isDigit
    digitValue := fun ch => ch.toNat - 48
    hostname := fun url =>
      if "https://".toList.isPrefixOf url then some ((url.drop 8).takeWhile (· ≠ '/')) else none
    proseOnly := id }

/-- An answer without sources. -/
def plainAnswer (slotNumber : ℕ) (text : String) : EvaluatedAnswer :=
  { slotNumber, answerText := text.toList, status := .completed, providerPath := .openrouterSearch
    sources := [], answerCount := 1 }

/-- An answer with one source. -/
def citingAnswer (slotNumber : ℕ) (text : String) : EvaluatedAnswer :=
  { plainAnswer slotNumber text with
    sources := [⟨"T".toList, "https://a.test".toList, .openrouterSearch, false, []⟩] }

def opposedPanel : List EvaluatedAnswer := [citingAnswer 1 "yes [1]", plainAnswer 2 "no"]

def decliningPanel : List EvaluatedAnswer := [citingAnswer 1 "i won't [1]", plainAnswer 2 "i won't"]

theorem detectRefusal_plain {text : String}
    (h : (PanelTables.asciiPanelTables.lstrip (PanelTables.asciiPanelTables.normalizeDeclineSpelling
      (PanelTables.asciiPanelTables.lower text.toList))) = text.toList)
    (hone : PanelTables.asciiPanelTables.findBoundary text.toList = none)
    (hword : text.toList.any PanelTables.asciiPanelTables.isWord = true)
    (hplain : PanelTables.asciiPanelTables.isPureApology text.toList = false)
    (hvisible : PanelTables.asciiPanelTables.isVisible text.toList = true) :
    PanelTables.asciiPanelTables.detectRefusal text.toList = declines text.toList := by
  rw [PanelTables.detectRefusal, PanelTables.refusalAnchor_whole, h, hvisible, Bool.true_and]
  · rw [h, hone]
  · rw [h, hword]
  · rw [h, hplain]

theorem panelReading_pair {first second : EvaluatedAnswer} {polar : Bool}
    (hfirst : asciiLayerTables.substantive first = true)
    (hsecond : asciiLayerTables.substantive second = true)
    (hpolar : asciiLayerTables.hasPolarDisagreement [first.answerText, second.answerText] = polar) :
    asciiLayerTables.panelReading [first, second]
      = { polar
          refusals := [first, second].countP fun answer =>
            asciiLayerTables.detectRefusal answer.answerText } := by
  have hall : [first, second].filter asciiLayerTables.substantive = [first, second] := by
    rw [List.filter_cons_of_pos hfirst, List.filter_cons_of_pos hsecond, List.filter_nil]
  rw [LayerTables.panelReading, hall, ← hpolar]
  rfl

/-- The opposed panel's two answers suppress a disagreement, which costs its composite. -/
theorem opposedPanel_evaluated :
    (asciiLayerTables.evaluateLayerA opposedPanel none { aligned := 0, total := 0 } none none).map
      (fun evaluation => (evaluation.signals.refusalDetected, (computeComposite evaluation.signals).1))
      = some (false, 145 / 2) := by
  have hyes : asciiLayerTables.detectRefusal "yes [1]".toList = false := by
    refine (detectRefusal_plain ?_ ?_ ?_ ?_ ?_).trans ?_ <;> decide +kernel
  have hno : asciiLayerTables.detectRefusal "no".toList = false := by
    refine (detectRefusal_plain ?_ ?_ ?_ ?_ ?_).trans ?_ <;> decide +kernel
  have hreading : asciiLayerTables.panelReading opposedPanel = { polar := true, refusals := 0 } := by
    rw [opposedPanel, panelReading_pair (by decide +kernel) (by decide +kernel)
      (show _ = true by decide +kernel), List.countP_cons_of_neg, List.countP_cons_of_neg,
        List.countP_nil]
    · rw [plainAnswer, hno]
      exact Bool.false_ne_true
    · rw [citingAnswer, plainAnswer, hyes]
      exact Bool.false_ne_true
  have hfacts : asciiLayerTables.panelFacts opposedPanel none none
      = { slotCount := 2, liveCount := 2, completedCount := 2, coverageRatio := 1 / 2
          census := { resolved := 1, unresolved := 0, unverifiable := 0 } } := by
    decide +kernel
  rw [LayerTables.evaluateLayerA, hreading, hfacts]
  decide +kernel

theorem decliningPanel_evaluated :
    (asciiLayerTables.evaluateLayerA decliningPanel none { aligned := 0, total := 0 } none none).map
      (fun evaluation => (evaluation.signals.refusalDetected,
        (computeComposite evaluation.signals).1))
      = some (true, 165 / 2) := by
  have hciting : asciiLayerTables.detectRefusal "i won't [1]".toList = true := by
    refine (detectRefusal_plain ?_ ?_ ?_ ?_ ?_).trans ?_ <;> decide +kernel
  have hdeclines : asciiLayerTables.detectRefusal "i won't".toList = true := by
    refine (detectRefusal_plain ?_ ?_ ?_ ?_ ?_).trans ?_ <;> decide +kernel
  have hreading : asciiLayerTables.panelReading decliningPanel = { polar := false, refusals := 2 } := by
    rw [decliningPanel, panelReading_pair (by decide +kernel) (by decide +kernel)
      (show _ = false by decide +kernel), List.countP_cons_of_pos, List.countP_cons_of_pos,
        List.countP_nil]
    · exact hdeclines
    · exact hciting
  have hfacts : asciiLayerTables.panelFacts decliningPanel none none
      = { slotCount := 2, liveCount := 2, completedCount := 2, coverageRatio := 1 / 2
          census := { resolved := 1, unresolved := 0, unverifiable := 0 } } := by
    decide +kernel
  rw [LayerTables.evaluateLayerA, hreading, hfacts]
  decide +kernel

theorem decliningPanel_sameButWording :
    List.Forall₂ asciiLayerTables.SameButWording opposedPanel decliningPanel := by
  refine .cons ⟨rfl, by decide +kernel, by decide +kernel⟩ (.cons ⟨rfl, ?_, ?_⟩ .nil)
  · decide +kernel
  · decide +kernel

/-- The declining panel has the same marker and source, and the greater composite. -/
theorem computeComposite_decliningPanel :
    List.Forall₂ asciiLayerTables.SameButWording opposedPanel decliningPanel
      ∧ (asciiLayerTables.evaluateLayerA opposedPanel none
          { aligned := 0, total := 0 } none none).map
          (fun evaluation => (evaluation.signals.refusalDetected,
            (computeComposite evaluation.signals).1))
        = some (false, 145 / 2)
      ∧ (asciiLayerTables.evaluateLayerA decliningPanel none
          { aligned := 0, total := 0 } none none).map
          (fun evaluation => (evaluation.signals.refusalDetected,
            (computeComposite evaluation.signals).1))
        = some (true, 165 / 2) :=
  ⟨decliningPanel_sameButWording, opposedPanel_evaluated, decliningPanel_evaluated⟩

theorem evaluateLayerA_decliningPanel :
    ∃ before after,
      asciiLayerTables.evaluateLayerA opposedPanel none { aligned := 0, total := 0 } none none
        = some before
        ∧ asciiLayerTables.evaluateLayerA decliningPanel none { aligned := 0, total := 0 } none none
            = some after
        ∧ asciiLayerTables.EarnsNoTrust opposedPanel decliningPanel none before after := by
  have hrel :=
    (LayerTables.evaluateLayerA_earnsNoTrust asciiLayerTables).1 opposedPanel decliningPanel none
    { aligned := 0, total := 0 } none none decliningPanel_sameButWording
  obtain ⟨before, hbefore, hopposed⟩ := Option.map_eq_some_iff.mp opposedPanel_evaluated
  obtain ⟨after, hafter, hdeclining⟩ := Option.map_eq_some_iff.mp decliningPanel_evaluated
  rw [hbefore, hafter, Option.rel_some_some] at hrel
  exact ⟨before, after, hbefore, hafter,
    hrel (congrArg Prod.fst hopposed) (congrArg Prod.fst hdeclining)⟩

end Quorum
