import Quorum.CostPartition

/-! The fail-safe bound. The token model is monotone in the figures it is given, so the estimate,
which prices typical figures, is at most the bound, which prices their caps. A run whose calls each
stay within the caps costs at most the bound before it is rounded. The bound is rounded half up like
every amount that is shown, so it covers such a run at the precision of the receipt. -/

namespace Quorum

open Apportion

/-! ### Monotonicity of the token model -/

section

variable (pricing : Pricing)

theorem cost_le_cost (modelId : String) {prompt prompt' output output' : ℚ≥0}
    (hprompt : prompt ≤ prompt') (houtput : output ≤ output') :
    pricing.cost modelId prompt output ≤ pricing.cost modelId prompt' output' := by
  show _ * _ / _ + _ * _ / _ ≤ _ * _ / _ + _ * _ / _
  gcongr

theorem cost_add (modelId : String) (prompt more output : ℚ≥0) :
    pricing.cost modelId (prompt + more) output =
      pricing.cost modelId prompt output + pricing.cost modelId more 0 := by
  rw [Pricing.cost, Pricing.cost, Pricing.cost]
  ring

theorem criticsCost_le_criticsCost (modelSlots : List ModelSlot)
    {prompt prompt' output output' : ℚ≥0} (hprompt : prompt ≤ prompt')
    (houtput : output ≤ output') :
    criticsCost pricing modelSlots prompt output ≤
      criticsCost pricing modelSlots prompt' output' := by
  have hmoderator := cost_le_cost pricing pricing.settings.debateModelId hprompt houtput
  rw [criticsCost, criticsCost]
  split_ifs
  · refine max_le_max (List.sum_le_sum fun slot _ => ?_) hmoderator
    exact cost_le_cost pricing slot.modelId hprompt houtput
  · exact hmoderator

/-- Reading more text in a round costs at most what reading it alone costs. -/
theorem criticsCost_add_le (modelSlots : List ModelSlot) (prompt more output : ℚ≥0) :
    criticsCost pricing modelSlots (prompt + more) output ≤
      criticsCost pricing modelSlots prompt output + criticsCost pricing modelSlots more 0 := by
  rw [criticsCost, criticsCost, criticsCost]
  simp only [cost_add]
  split_ifs
  · rw [List.sum_map_add]
    exact max_le (add_le_add (le_max_left _ _) (le_max_left _ _))
      (add_le_add (le_max_right _ _) (le_max_right _ _))
  · exact le_rfl

theorem judgeCost_typical_le (slotCount : ℕ) (query : ℚ≥0) (pages typical : Bool) :
    judgeCost pricing slotCount query pages typical ≤
      judgeCost pricing slotCount query pages false := by
  cases typical with
  | false => exact le_rfl
  | true =>
      show pricing.cost _ (min _ _) (min _ _) ≤ pricing.cost _ _ _
      exact cost_le_cost pricing _ (min_le_right _ _) (min_le_right _ _)

/-- The second arguments price at least what the first do, on the same follow-up and in the same
mode. -/
structure PricesAtMost (args args' : ComponentArgs) : Prop where
  init : args.initOutputTokens ≤ args'.initOutputTokens
  sections : args.synthesisSections ≤ args'.synthesisSections
  debate : debateOutputTokens pricing args ≤ debateOutputTokens pricing args'
  search : searchTokens pricing args ≤ searchTokens pricing args'
  followUp : args.followUp = args'.followUp
  prior : args.priceRoundTwoPriorCritique → args'.priceRoundTwoPriorCritique
  judge : args.priceJudge = args'.priceJudge
  pages : args.priceJudgePages = args'.priceJudgePages
  typical : args'.judgeTypical = false
  quick : args.quick = args'.quick

variable {pricing} {args args' : ComponentArgs} (hle : PricesAtMost pricing args args')
  (queryChars : ℕ) (modelSlots : List ModelSlot)

include hle

theorem slotCost_mono (slot : ModelSlot) :
    slotCost pricing queryChars args slot ≤ slotCost pricing queryChars args' slot := by
  have hprompt : slotPromptTokens pricing queryChars args slot ≤
      slotPromptTokens pricing queryChars args' slot := by
    rw [slotPromptTokens, slotPromptTokens, hle.followUp]
    have hsearch := hle.search
    split_ifs
    · gcongr
    · exact le_rfl
  exact add_le_add_left (cost_le_cost pricing slot.modelId hprompt hle.init) _

theorem upstreamAnswersTokens_mono :
    upstreamAnswersTokens modelSlots args ≤ upstreamAnswersTokens modelSlots args' :=
  mul_le_mul' le_rfl hle.init

theorem debatePromptTokens_mono : debatePromptTokens pricing queryChars modelSlots args ≤
    debatePromptTokens pricing queryChars modelSlots args' := by
  have hupstream := upstreamAnswersTokens_mono hle modelSlots
  rw [debatePromptTokens, debatePromptTokens, hle.followUp]
  gcongr

theorem synthesisPromptTokens_mono : synthesisPromptTokens pricing queryChars modelSlots args ≤
    synthesisPromptTokens pricing queryChars modelSlots args' := by
  have hupstream := upstreamAnswersTokens_mono hle modelSlots
  have hdebate := hle.debate
  rw [synthesisPromptTokens, synthesisPromptTokens, hle.followUp]
  gcongr

theorem debateRoundCost_mono : (costParts pricing queryChars modelSlots args).debateRoundCost ≤
    (costParts pricing queryChars modelSlots args').debateRoundCost := by
  show ite _ _ _ ≤ ite _ _ _
  rw [hle.quick]
  split_ifs
  · exact le_rfl
  · exact criticsCost_le_criticsCost pricing modelSlots
      (debatePromptTokens_mono hle queryChars modelSlots) hle.debate

theorem synthesisCost_mono : (costParts pricing queryChars modelSlots args).synthesisCost ≤
    (costParts pricing queryChars modelSlots args').synthesisCost := by
  show ite _ _ _ ≤ ite _ _ _
  rw [hle.quick]
  split_ifs
  · exact le_rfl
  · exact mul_le_mul' hle.sections
      (cost_le_cost pricing _ (synthesisPromptTokens_mono hle queryChars modelSlots) le_rfl)

theorem judgeCost_mono : (costParts pricing queryChars modelSlots args).judgeCost ≤
    (costParts pricing queryChars modelSlots args').judgeCost := by
  show ite _ _ _ ≤ ite _ _ _
  rw [hle.judge, hle.pages, hle.typical]
  split_ifs
  · exact judgeCost_typical_le pricing _ _ _ _
  · exact le_rfl

theorem initialTotal_mono : (costParts pricing queryChars modelSlots args).initialTotal ≤
    (costParts pricing queryChars modelSlots args').initialTotal :=
  List.sum_le_sum fun slot _ => slotCost_mono hle queryChars slot

theorem priorCritique_mono :
    (if args.quick ∨ ¬args.priceRoundTwoPriorCritique then 0
      else criticsCost pricing modelSlots (debateOutputTokens pricing args) 0) ≤
    if args'.quick ∨ ¬args'.priceRoundTwoPriorCritique then 0
      else criticsCost pricing modelSlots (debateOutputTokens pricing args') 0 := by
  by_cases hskip : args.quick ∨ ¬args.priceRoundTwoPriorCritique
  · rw [if_pos hskip]
    exact zero_le
  · have hskip' : ¬(args'.quick ∨ ¬args'.priceRoundTwoPriorCritique) := by
      rw [← hle.quick]
      intro h
      exact hskip (h.imp_right fun hno hyes => hno (hle.prior hyes))
    rw [if_neg hskip, if_neg hskip']
    exact criticsCost_le_criticsCost pricing modelSlots hle.debate le_rfl

/-- The whole token model is monotone. -/
theorem rawTotal_mono : (costParts pricing queryChars modelSlots args).rawTotal ≤
    (costParts pricing queryChars modelSlots args').rawTotal := by
  refine add_le_add (add_le_add (add_le_add (add_le_add ?_ ?_) ?_) ?_) ?_
  · exact initialTotal_mono hle queryChars modelSlots
  · exact mul_le_mul' le_rfl (debateRoundCost_mono hle queryChars modelSlots)
  · exact priorCritique_mono hle modelSlots
  · exact synthesisCost_mono hle queryChars modelSlots
  · exact judgeCost_mono hle queryChars modelSlots

end

/-! ### Runs within the caps -/

/-- The tokens of one call, as the provider reports them. -/
structure CallTokens where
  promptTokens : ℕ
  completionTokens : ℕ

def CallTokens.Within (call : CallTokens) (prompt completion : ℚ≥0) : Prop :=
  call.promptTokens ≤ prompt ∧ call.completionTokens ≤ completion

/-- The calls of one debate round: one of the moderator, or one of each eligible slot. -/
inductive DebateCalls
  | moderator (call : Option CallTokens)
  | critics (calls : List (Option CallTokens))

/-- The calls of a run. A call that was not made, or not billed, is absent; the answers are in slot
order. -/
structure RunCalls where
  answers : List (Option CallTokens)
  roundOne : DebateCalls := .moderator none
  roundTwo : DebateCalls := .moderator none
  synthesis : List CallTokens := []
  judge : Option CallTokens := none

section

variable (pricing : Pricing)

/-- `measured_call_cost_usd`. -/
def measuredCallCostUsd (modelId : String) (call : CallTokens) : ℚ≥0 :=
  pricing.cost modelId call.promptTokens call.completionTokens

/-- A call that was not made costs nothing. -/
def optionalCallCost (modelId : String) (call : Option CallTokens) : ℚ≥0 :=
  call.elim 0 (measuredCallCostUsd pricing modelId)

/-- A slot that searched pays the search fee beside its call. -/
def answerCost (slot : ModelSlot) (call : Option CallTokens) : ℚ≥0 :=
  call.elim 0 fun tokens => measuredCallCostUsd pricing slot.modelId tokens + searchFee pricing slot

def DebateCalls.cost (modelSlots : List ModelSlot) : DebateCalls → ℚ≥0
  | .moderator call => optionalCallCost pricing pricing.settings.debateModelId call
  | .critics calls =>
      (List.zipWith (fun slot call => optionalCallCost pricing slot.modelId call)
        modelSlots calls).sum

/-- The price of a run: every call at its reported tokens, and the search fees. -/
def RunCalls.cost (modelSlots : List ModelSlot) (run : RunCalls) : ℚ≥0 :=
  (List.zipWith (answerCost pricing) modelSlots run.answers).sum +
    run.roundOne.cost pricing modelSlots +
    run.roundTwo.cost pricing modelSlots +
    (run.synthesis.map (measuredCallCostUsd pricing pricing.settings.synthesisModelId)).sum +
    optionalCallCost pricing pricing.settings.quorumEvalJudgeModelId run.judge

/-- The calls of a round stay within its caps. Critics are asked only with peer critique on. -/
def DebateCalls.Within (modelSlots : List ModelSlot) (prompt completion : ℚ≥0) : DebateCalls → Prop
  | .moderator call => ∀ tokens ∈ call, tokens.Within prompt completion
  | .critics calls => pricing.settings.peerCritiqueEnabled ∧
      List.Forall₂ (fun _ call => ∀ tokens ∈ call,
        CallTokens.Within tokens prompt completion) modelSlots calls

/-- A round with no call. -/
def DebateCalls.Silent : DebateCalls → Prop
  | .moderator call => call = none
  | .critics calls => ∀ call ∈ calls, call = none

/-- The calls of a run stay within the caps that the bound is modelled on: an answer a slot, two
debate rounds of which the second also reads the first's critique, the sections of the synthesis,
and the judge. -/
structure RunCalls.Within (request : CostRequest) (run : RunCalls) : Prop where
  answers : List.Forall₂ (fun slot call => ∀ tokens ∈ call, CallTokens.Within tokens
    (slotPromptTokens pricing request.queryChars (request.boundArgs pricing) slot)
    pricing.settings.initialAnswerMaxTokens) request.modelSlots run.answers
  roundOne : run.roundOne.Within pricing request.modelSlots
    (debatePromptTokens pricing request.queryChars request.modelSlots (request.boundArgs pricing))
    pricing.settings.costDebateOutputTokensCap
  roundTwo : run.roundTwo.Within pricing request.modelSlots
    (debatePromptTokens pricing request.queryChars request.modelSlots (request.boundArgs pricing) +
      pricing.settings.costDebateOutputTokensCap) pricing.settings.costDebateOutputTokensCap
  sections : run.synthesis.length ≤ pricing.settings.costSynthesisSections
  synthesis : ∀ tokens ∈ run.synthesis, tokens.Within
    (synthesisPromptTokens pricing request.queryChars request.modelSlots
      (request.boundArgs pricing))
    pricing.settings.costSynthesisOutputTokens
  judge : ∀ tokens ∈ run.judge, pricing.settings.judgeConfigured ∧ tokens.Within
    (judgeInputTokens pricing request.modelSlots.length (queryTokens request.queryChars)
      (request.boundArgs pricing).priceJudgePages) pricing.settings.quorumEvalJudgeMaxTokens
  quick : request.mode = .quick → run.roundOne.Silent ∧ run.roundTwo.Silent ∧ run.synthesis = []

variable {pricing}

theorem measuredCallCostUsd_le {modelId : String} {call : CallTokens} {prompt completion : ℚ≥0}
    (h : call.Within prompt completion) :
    measuredCallCostUsd pricing modelId call ≤ pricing.cost modelId prompt completion :=
  cost_le_cost pricing modelId h.1 h.2

theorem optionalCallCost_le (modelId : String) {call : Option CallTokens} {prompt completion : ℚ≥0}
    (h : ∀ tokens ∈ call, tokens.Within prompt completion) :
    optionalCallCost pricing modelId call ≤ pricing.cost modelId prompt completion := by
  cases call with
  | none => exact zero_le
  | some tokens => exact measuredCallCostUsd_le (h tokens rfl)

/-- Prices in slot order sum to at most the slots' own bounds. -/
theorem sum_zipWith_le {modelSlots : List ModelSlot} {calls : List (Option CallTokens)}
    {price : ModelSlot → Option CallTokens → ℚ≥0} {bound : ModelSlot → ℚ≥0}
    (h : List.Forall₂ (fun slot call => price slot call ≤ bound slot) modelSlots calls) :
    (List.zipWith price modelSlots calls).sum ≤ (modelSlots.map bound).sum := by
  induction h with
  | nil => exact le_rfl
  | cons hslot _ ih => exact add_le_add hslot ih

theorem DebateCalls.cost_le {modelSlots : List ModelSlot} {prompt completion : ℚ≥0}
    {calls : DebateCalls} (h : calls.Within pricing modelSlots prompt completion) :
    calls.cost pricing modelSlots ≤ criticsCost pricing modelSlots prompt completion := by
  cases calls with
  | moderator call =>
      have hmoderator : optionalCallCost pricing pricing.settings.debateModelId call ≤
          pricing.cost pricing.settings.debateModelId prompt completion := optionalCallCost_le _ h
      rw [criticsCost]
      split_ifs
      · exact hmoderator.trans (le_max_right _ _)
      · exact hmoderator
  | critics calls =>
      obtain ⟨hpeer, hcalls⟩ := h
      rw [criticsCost, if_pos hpeer]
      refine le_trans (sum_zipWith_le (hcalls.imp fun slot call hcall => ?_)) (le_max_left _ _)
      exact optionalCallCost_le _ hcall

theorem DebateCalls.cost_silent {modelSlots : List ModelSlot} {calls : DebateCalls}
    (h : calls.Silent) :
    calls.cost pricing modelSlots = 0 := by
  cases calls with
  | moderator call => rw [show call = none from h]; rfl
  | critics calls =>
      refine List.sum_eq_zero fun price hprice => ?_
      obtain ⟨i, hi, rfl⟩ := List.mem_iff_getElem.mp hprice
      rw [List.getElem_zipWith, h _ (List.getElem_mem _)]
      rfl

variable {request : CostRequest} {run : RunCalls} (h : run.Within pricing request)

include h

theorem RunCalls.Within.answers_le :
    (List.zipWith (answerCost pricing) request.modelSlots run.answers).sum ≤
    (costParts pricing request.queryChars request.modelSlots
      (request.boundArgs pricing)).initialTotal := by
  refine sum_zipWith_le (h.answers.imp fun slot call hcall => ?_)
  cases call with
  | none => exact zero_le
  | some tokens => exact add_le_add (measuredCallCostUsd_le (hcall tokens rfl)) le_rfl

theorem RunCalls.Within.synthesis_le :
    (run.synthesis.map (measuredCallCostUsd pricing pricing.settings.synthesisModelId)).sum ≤
      pricing.settings.costSynthesisSections * pricing.cost pricing.settings.synthesisModelId
        (synthesisPromptTokens pricing request.queryChars request.modelSlots
          (request.boundArgs pricing))
        pricing.settings.costSynthesisOutputTokens := by
  have hsum := List.sum_le_card_nsmul
    (run.synthesis.map (measuredCallCostUsd pricing pricing.settings.synthesisModelId)) _
      fun price hprice => by
      obtain ⟨tokens, htokens, rfl⟩ := List.mem_map.mp hprice
      exact measuredCallCostUsd_le (h.synthesis tokens htokens)
  rw [List.length_map, nsmul_eq_mul] at hsum
  exact hsum.trans (mul_le_mul' (Nat.cast_le.mpr h.sections) le_rfl)

theorem RunCalls.Within.judge_le :
    optionalCallCost pricing pricing.settings.quorumEvalJudgeModelId run.judge ≤
      (costParts pricing request.queryChars request.modelSlots
        (request.boundArgs pricing)).judgeCost := by
  cases hjudge : run.judge with
  | none => exact zero_le
  | some tokens =>
      obtain ⟨hconfigured, hwithin⟩ := h.judge tokens (hjudge ▸ rfl)
      have hpriced : (request.boundArgs pricing).priceJudge = true := hconfigured
      show _ ≤ ite _ _ _
      rw [if_pos hpriced]
      exact measuredCallCostUsd_le hwithin

/-- A quick run within the caps makes its answer and its judge call only. -/
theorem RunCalls.Within.cost_le_quick (hmode : request.mode = .quick) :
    run.cost pricing request.modelSlots ≤
      (costParts pricing request.queryChars request.modelSlots
        (request.boundArgs pricing)).rawTotal := by
  obtain ⟨hone, htwo, hsynthesis⟩ := h.quick hmode
  calc run.cost pricing request.modelSlots
      = (List.zipWith (answerCost pricing) request.modelSlots run.answers).sum +
        optionalCallCost pricing pricing.settings.quorumEvalJudgeModelId run.judge := by
        rw [RunCalls.cost, DebateCalls.cost_silent hone, DebateCalls.cost_silent htwo, hsynthesis,
          List.map_nil, List.sum_nil, add_zero, add_zero, add_zero]
    _ ≤ (costParts pricing request.queryChars request.modelSlots
      (request.boundArgs pricing)).initialTotal +
        (costParts pricing request.queryChars request.modelSlots
          (request.boundArgs pricing)).judgeCost :=
        add_le_add h.answers_le h.judge_le
    _ ≤ _ :=
      add_le_add
        (((le_add_right le_rfl).trans (le_add_right le_rfl)).trans (le_add_right le_rfl)) le_rfl

theorem RunCalls.Within.cost_le_panel (hmode : request.mode ≠ .quick) :
    run.cost pricing request.modelSlots ≤
      (costParts pricing request.queryChars request.modelSlots
        (request.boundArgs pricing)).rawTotal := by
  set args := request.boundArgs pricing with hargs
  set prompt := debatePromptTokens pricing request.queryChars request.modelSlots args with hprompt
  set cap := (pricing.settings.costDebateOutputTokensCap : ℚ≥0) with hcap
  have hquick : ¬args.quick = true := fun hq => hmode (of_decide_eq_true hq)
  have hround : (costParts pricing request.queryChars request.modelSlots args).debateRoundCost =
      criticsCost pricing request.modelSlots prompt cap := if_neg hquick
  have hprior : (if args.quick ∨ ¬args.priceRoundTwoPriorCritique then 0
      else criticsCost pricing request.modelSlots (debateOutputTokens pricing args) 0) =
      criticsCost pricing request.modelSlots cap 0 := if_neg (not_or.mpr ⟨hquick, not_not.mpr rfl⟩)
  have hsynthesis : (costParts pricing request.queryChars request.modelSlots args).synthesisCost =
      pricing.settings.costSynthesisSections * pricing.cost pricing.settings.synthesisModelId
        (synthesisPromptTokens pricing request.queryChars request.modelSlots args)
        pricing.settings.costSynthesisOutputTokens := if_neg hquick
  have htwo := (DebateCalls.cost_le h.roundTwo).trans
    (criticsCost_add_le pricing request.modelSlots prompt cap cap)
  have hsections := h.synthesis_le
  rw [← hargs, ← hsynthesis] at hsections
  calc run.cost pricing request.modelSlots
      ≤ (costParts pricing request.queryChars request.modelSlots args).initialTotal +
        criticsCost pricing request.modelSlots prompt cap +
        (criticsCost pricing request.modelSlots prompt cap +
          criticsCost pricing request.modelSlots cap 0) +
        (costParts pricing request.queryChars request.modelSlots args).synthesisCost +
        (costParts pricing request.queryChars request.modelSlots args).judgeCost :=
        add_le_add
          (add_le_add (add_le_add (add_le_add h.answers_le (DebateCalls.cost_le h.roundOne)) htwo)
          hsections) h.judge_le
    _ = (costParts pricing request.queryChars request.modelSlots args).initialTotal +
        2 * (costParts pricing request.queryChars request.modelSlots args).debateRoundCost +
        criticsCost pricing request.modelSlots cap 0 +
        (costParts pricing request.queryChars request.modelSlots args).synthesisCost +
        (costParts pricing request.queryChars request.modelSlots args).judgeCost := by
        rw [hround]
        ring
    _ = _ := by
        rw [← hprior]
        rfl

/-- Before rounding, no run within the caps costs more than the bound. -/
theorem RunCalls.Within.cost_le : run.cost pricing request.modelSlots ≤
    (costParts pricing request.queryChars request.modelSlots
      (request.boundArgs pricing)).rawTotal := by
  by_cases hmode : request.mode = .quick
  · exact h.cost_le_quick hmode
  · exact h.cost_le_panel hmode

end

/-! ### The estimate, the bound and the run -/

/-- Each typical figure of the settings that the estimate does not clamp is at most its cap. -/
structure TypicalWithinCaps (settings : CostSettings) : Prop where
  debate : settings.costDebateOutputTokens ≤ settings.costDebateOutputTokensCap
  search : settings.costWebSearchContextTokens ≤ boundWebSearchContextTokens

theorem pricesAtMost_bound (pricing : Pricing) (request : CostRequest)
    (hcaps : TypicalWithinCaps pricing.settings) :
    PricesAtMost pricing (request.estimateArgs pricing) (request.boundArgs pricing) where
  init := min_le_right _ _
  sections := le_rfl
  debate := Nat.cast_le.mpr hcaps.debate
  search := Nat.cast_le.mpr hcaps.search
  followUp := rfl
  prior := fun h => absurd h Bool.false_ne_true
  judge := rfl
  pages := rfl
  typical := rfl
  quick := rfl

theorem estimateBoundUsd_ok (pricing : Pricing) (request : CostRequest)
    (hslots : admitted request.modelSlots (request.mode = .quick)) :
    estimateBoundUsd pricing request = .ok (quantize
      (costParts pricing request.queryChars request.modelSlots
        (request.boundArgs pricing)).rawTotal) := by
  have hparts : costComponents pricing request.queryChars request.modelSlots
      (request.boundArgs pricing) =
      .ok _ := costComponents_admitted pricing hslots
  rw [estimateBoundUsd, hparts]
  rfl

/-- The estimate is at most the bound, and the bound covers every run within the caps at the
precision of the receipt: the run's price, rounded as the receipt rounds it, is at most the
bound. -/
theorem estimate_le_bound_covers_runs (pricing : Pricing) (request : CostRequest)
    (hslots : admitted request.modelSlots (request.mode = .quick)) :
    ∃ b bound, estimateBreakdown pricing request = .ok b ∧
      estimateBoundUsd pricing request = .ok bound ∧
      (TypicalWithinCaps pricing.settings → b.total ≤ bound) ∧
      ∀ run : RunCalls, run.Within pricing request →
        quantize (run.cost pricing request.modelSlots) ≤ bound ∧
        (run.cost pricing request.modelSlots : ℚ) < bound + costDisplayQuantum / 2 := by
  obtain ⟨b, hb, hpartition⟩ := estimateBreakdown_partition pricing request hslots
  refine ⟨b, _, hb, estimateBoundUsd_ok pricing request hslots, fun hcaps => ?_,
    fun run hrun => ⟨?_, ?_⟩⟩
  · rw [hpartition.total]
    exact quantize_le_quantize (NNRat.coe_nonneg _) (NNRat.coe_le_coe.mpr
      (rawTotal_mono (pricesAtMost_bound pricing request hcaps) request.queryChars
        request.modelSlots))
  · exact quantize_le_quantize (NNRat.coe_nonneg _) (NNRat.coe_le_coe.mpr hrun.cost_le)
  · exact lt_of_le_of_lt (NNRat.coe_le_coe.mpr hrun.cost_le)
      (lt_quantize_add_half (NNRat.coe_nonneg _))

/-- One slot at the default price, without a search. -/
def quickRequest : CostRequest where
  queryChars := 220
  modelSlots := [⟨1, "vendor/model", false, slotNumber_one_range⟩]
  mode := .quick

/-- A quick answer that uses its whole prompt and its whole output. -/
def fullQuickRun : RunCalls where
  answers := [some ⟨405, 2000⟩]

theorem fullQuickRun_within : fullQuickRun.Within freePricing quickRequest where
  answers := by
    refine .cons (fun tokens htokens => ?_) .nil
    obtain rfl := Option.mem_some_iff.mp htokens
    constructor
    · decide +kernel
    · decide +kernel
  roundOne := fun _ h => absurd h (Option.not_mem_none _)
  roundTwo := fun _ h => absurd h (Option.not_mem_none _)
  sections := Nat.zero_le _
  synthesis := fun _ h => absurd h List.not_mem_nil
  judge := fun _ h => absurd h (Option.not_mem_none _)
  quick := fun _ => ⟨rfl, rfl, rfl⟩

theorem estimate_le_bound_covers_runs_quick :
    ∃ b bound, estimateBreakdown freePricing quickRequest = .ok b ∧
      estimateBoundUsd freePricing quickRequest = .ok bound ∧ b.total ≤ bound ∧
      quantize (fullQuickRun.cost freePricing quickRequest.modelSlots) ≤ bound := by
  obtain ⟨b, bound, hb, hbound, hle, hruns⟩ :=
    estimate_le_bound_covers_runs freePricing quickRequest (by decide)
  exact ⟨b, bound, hb, hbound, hle ⟨by decide, by decide⟩,
    (hruns fullQuickRun fullQuickRun_within).1⟩

/-- The bound is rounded half up, so a run that uses its caps can cost a fraction of a quantum
more. -/
theorem fullQuickRun_above_bound : fullQuickRun.Within freePricing quickRequest ∧
    ∃ bound, estimateBoundUsd freePricing quickRequest = .ok bound ∧
      bound < fullQuickRun.cost freePricing quickRequest.modelSlots := by
  refine ⟨fullQuickRun_within, _, estimateBoundUsd_ok freePricing quickRequest (by decide), ?_⟩
  decide +kernel

end Quorum
