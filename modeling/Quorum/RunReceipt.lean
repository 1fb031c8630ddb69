import Mathlib.Data.String.Basic
import Quorum.BaseTotals
import Quorum.CostBound
import Quorum.DebatePeer
import Quorum.JudgeService
import Quorum.RunFinality

/-! The receipt of a run (`query_run_orchestration._actual_cost`): measured where every call that
may have been billed reported its tokens, and otherwise the estimate. The markers of the billable
stages, which the repository keeps, say whether a list of usages is the whole of its stage. -/

namespace Quorum

open IsoTime Transaction

/-! ### The stages of a stored run -/

/-- A stage that was never entered has no usage. -/
structure QueryRun.Handshake (run : QueryRun) : Prop where
  debate : run.debateStage = .notEntered → run.debateCallUsages = []
  synthesis : run.synthesisStage = .notEntered → run.synthesisCallUsages = []

theorem RunWrite.handshake_change (write : RunWrite) {run : QueryRun} (h : run.Handshake) :
    (write.change run).Handshake := by
  cases write with
  | transition now nextStatus failedSteps missingSteps =>
      rw [RunWrite.change]
      split_ifs
      · exact ⟨h.debate, h.synthesis⟩
      · exact h
  | updateStatus now write =>
      rw [RunWrite.change, StatusWrite.guarded]
      split_ifs
      · exact h
      · exact ⟨h.debate, h.synthesis⟩
  | markBillableStageEntered now stage =>
      cases stage with
      | debate => exact ⟨fun hstage => (by cases hstage), h.synthesis⟩
      | synthesis => exact ⟨h.debate, fun hstage => by cases hstage⟩
  | recordDebateOutputs now outputs usages => exact ⟨fun hstage => (by cases hstage), h.synthesis⟩
  | recordFinalSynthesis now final usages => exact ⟨h.debate, fun hstage => by cases hstage⟩
  | _ => exact ⟨h.debate, h.synthesis⟩

def AllHandshake (runs : QueryRuns) : Prop := ∀ j run, runs.get? j = some run → run.Handshake

/-- In every reachable repository a stage that was not entered has no usage. -/
theorem handshake_of_runOps (ops : List RunOp) : AllHandshake (runOps ops) := by
  rw [runOps]
  refine List.foldlRecOn ops RunOp.apply (fun j run hrun => ?_)
    fun runs hruns op _ j run' hrun' => ?_
  · rw [Dict.get?_empty] at hrun
    cases hrun
  · rcases RunOp.get?_apply hrun' with ⟨run, hrun, rfl | ⟨write, -, rfl⟩⟩ |
      ⟨admission, request, clock, -, rfl, -⟩
    · exact hruns j run' hrun
    · exact write.handshake_change (hruns j run hrun)
    · exact ⟨fun _ => rfl, fun _ => rfl⟩

/-! ### What a receipt is made from -/

/-- `TokenUsage`, with the model that it was billed against where its caller stamped one. -/
structure BilledUsage extends TokenUsage where
  modelId : Option String := none

structure ReceiptAnswer where
  slotNumber : ℕ
  modelId : String
  displayName : String := ""
  providerPath : ProviderPath
  status : InitialAnswerStatus
  tokenUsage : Option TokenUsage
  searched : Bool

/-- `_JudgeOutcome`, as far as the receipt reads it. -/
structure ReceiptJudge where
  modelId : String
  usage : Option TokenUsage
  status : Option JudgeCallOutcome
  sourcePages : Bool

structure BillingSnapshot where
  estimatedCostUsd : ℚ
  breakdown : Option CostBreakdown
  modelSlots : List ModelSlot
  initialAnswers : List ReceiptAnswer
  debateCallUsages : List (ℕ × Option BilledUsage)
  peerDebateRounds : List ℕ
  synthesisCallUsages : List (Option TokenUsage)
  debateStage : StageBillingState
  synthesisStage : StageBillingState
  judgeOutcome : Option ReceiptJudge

/-- What `billing_snapshot` copies of a stored run's stages. -/
structure BillingSnapshot.TakenFrom (snapshot : BillingSnapshot) (run : QueryRun) : Prop where
  debateStage : snapshot.debateStage = run.debateStage
  synthesisStage : snapshot.synthesisStage = run.synthesisStage
  debate : snapshot.debateCallUsages.map (fun usage => (usage.1,
    usage.2.map fun billed => billed.toTokenUsage)) =
    run.debateCallUsages
  synthesis : snapshot.synthesisCallUsages = run.synthesisCallUsages

inductive CostSource
  | estimated
  | measured

structure ActualCost where
  usd : ℚ
  breakdown : Option CostBreakdown
  source : CostSource

/-- `_stage_captured`. -/
def stageCaptured (stage : StageBillingState) (usagesCaptured : Bool) : Bool :=
  match stage with
  | .notEntered => true
  | .entered => false
  | .recorded => usagesCaptured

namespace BillingSnapshot

variable (snapshot : BillingSnapshot)

def initialFullyCaptured : Bool :=
  !snapshot.modelSlots.isEmpty && snapshot.initialAnswers.length = snapshot.modelSlots.length &&
    snapshot.initialAnswers.all fun answer =>
      answer.providerPath = .openrouterSearch && answer.status = .completed
        && answer.tokenUsage.isSome

def judgeCaptured : Bool :=
  snapshot.judgeOutcome.all fun outcome => outcome.usage.isSome
    || outcome.status = some .noVerdictUnbilled

/-- The strict gate. -/
def captured : Bool :=
  snapshot.initialFullyCaptured &&
    stageCaptured snapshot.debateStage (snapshot.debateCallUsages.all fun usage =>
      usage.2.isSome) &&
    stageCaptured snapshot.synthesisStage (snapshot.synthesisCallUsages.all Option.isSome)
      && snapshot.judgeCaptured

section

variable (pricing : Pricing)

def usageCost (modelId : String) (usage : TokenUsage) : ℚ≥0 :=
  measuredCallCostUsd pricing modelId ⟨usage.promptTokens, usage.completionTokens⟩

/-- A call that searched pays the flat fee beside its tokens. -/
def slotCostOf (answer : ReceiptAnswer) (usage : TokenUsage) : ℚ≥0 :=
  usageCost pricing answer.modelId usage +
    if answer.searched then pricing.settings.costWebSearchRequestFeeUsd else 0

/-- The model that a debate call is priced at. -/
def callModelId (usage : BilledUsage) : String :=
  (usage.modelId.filter (· ≠ "")).getD pricing.settings.debateModelId

/-- The debate calls with a usage, each with its round, its model and its price. -/
def debateCosts : List (ℕ × String × ℚ≥0) :=
  snapshot.debateCallUsages.filterMap fun usage => usage.2.map fun billed =>
    (usage.1, callModelId pricing billed,
      usageCost pricing (callModelId pricing billed) billed.toTokenUsage)

def perModelInitial : List (String × String × ℚ≥0) :=
  (snapshot.initialAnswers.insertionSort fun left right =>
    left.slotNumber ≤ right.slotNumber).filterMap fun answer =>
    answer.tokenUsage.map fun usage =>
      (answer.modelId, if answer.displayName = "" then answer.modelId else answer.displayName,
        slotCostOf pricing answer usage)

def synthesisCost : ℚ≥0 :=
  ((snapshot.synthesisCallUsages.filterMap id).map
    (usageCost pricing pricing.settings.synthesisModelId)).sum

/-- The peer critics' share of the debate, by model, in the order of the model ids. -/
def critiqueByModel : List (String × String × ℚ≥0) :=
  let costs :=
    Dict.totals
      (((snapshot.debateCosts pricing).filter fun call => call.1 ∈ snapshot.peerDebateRounds).map
    Prod.snd)
  (costs.items.insertionSort fun left right => left.1 ≤ right.1).map fun line =>
    (line.1,
      ((pricing.lookupShortName line.1).filter (· ≠ "")).getD line.1 ++ " (critique)", line.2)

def measuredCosts (quick : Bool) : MeasuredCosts where
  perModelInitial := snapshot.perModelInitial pricing
  debateByRound :=
    Dict.totals ((snapshot.debateCosts pricing).map fun call => ((call.1 : ℤ), call.2.2))
  synthesisCost := snapshot.synthesisCost pricing
  judge := snapshot.judgeOutcome.bind fun outcome => outcome.usage.map fun usage =>
    (outcome.modelId, usageCost pricing outcome.modelId usage)
  critiqueByModel := snapshot.critiqueByModel pricing
  quick
  sourceFetch := snapshot.judgeOutcome.any fun outcome => outcome.sourcePages

/-- `_actual_cost`. -/
def actualCost (quick : Bool) : ActualCost :=
  if snapshot.captured then
    match buildMeasuredBreakdown (snapshot.measuredCosts pricing quick) with
    | .ok breakdown => ⟨breakdown.total, some breakdown, .measured⟩
    | .error _ => ⟨snapshot.estimatedCostUsd, snapshot.breakdown, .estimated⟩
  else ⟨snapshot.estimatedCostUsd, snapshot.breakdown, .estimated⟩

/-- The price of every call that the snapshot records, with its search fees. -/
def spent : ℚ≥0 :=
  (snapshot.initialAnswers.map fun answer =>
    answer.tokenUsage.elim 0 (slotCostOf pricing answer)).sum +
    (snapshot.debateCallUsages.map fun usage => usage.2.elim 0 fun billed =>
      usageCost pricing (callModelId pricing billed) billed.toTokenUsage).sum +
    (snapshot.synthesisCallUsages.map fun usage =>
      usage.elim 0 (usageCost pricing pricing.settings.synthesisModelId)).sum +
    snapshot.judgeOutcome.elim 0 fun outcome =>
      outcome.usage.elim 0 (usageCost pricing outcome.modelId)

end

/-- Every call that may have been billed reported its tokens. -/
structure Reported : Prop where
  slots : snapshot.modelSlots ≠ [] ∧ snapshot.initialAnswers.length = snapshot.modelSlots.length
  answers : ∀ answer ∈ snapshot.initialAnswers,
    answer.providerPath = .openrouterSearch ∧ answer.status = .completed ∧ answer.tokenUsage ≠ none
  debate : snapshot.debateStage ≠ .entered ∧ ∀ usage ∈ snapshot.debateCallUsages, usage.2 ≠ none
  synthesis : snapshot.synthesisStage ≠ .entered ∧
    ∀ usage ∈ snapshot.synthesisCallUsages, usage ≠ none
  judge : ∀ outcome ∈ snapshot.judgeOutcome, outcome.usage ≠ none
    ∨ outcome.status = some .noVerdictUnbilled

end BillingSnapshot

/-! ### The gate -/

theorem stageCaptured_iff {stage : StageBillingState} {α : Type} {usages : List α}
    {reported : α → Bool} (h : stage = .notEntered → usages = []) :
    stageCaptured stage (usages.all reported) = true ↔
    stage ≠ .entered ∧ ∀ usage ∈ usages, reported usage = true := by
  cases stage with
  | notEntered => simp [stageCaptured, h rfl]
  | entered => simp [stageCaptured]
  | recorded => simp [stageCaptured]

namespace BillingSnapshot

variable {snapshot : BillingSnapshot} {pricing : Pricing}

theorem captured_iff (hdebate : snapshot.debateStage = .notEntered → snapshot.debateCallUsages = [])
    (hsynthesis : snapshot.synthesisStage = .notEntered → snapshot.synthesisCallUsages = []) :
    snapshot.captured = true ↔ snapshot.Reported := by
  have hjudge : snapshot.judgeCaptured = true ↔
      ∀ outcome ∈ snapshot.judgeOutcome, outcome.usage ≠ none
        ∨ outcome.status = some .noVerdictUnbilled := by
    rw [judgeCaptured]
    cases snapshot.judgeOutcome with
    | none => simp
    | some outcome => simp [Option.isSome_iff_ne_none]
  rw [captured, Bool.and_eq_true, Bool.and_eq_true, Bool.and_eq_true, stageCaptured_iff hdebate,
    stageCaptured_iff hsynthesis, hjudge, initialFullyCaptured]
  simp only [Bool.and_eq_true, Bool.not_eq_true', List.isEmpty_eq_false_iff, decide_eq_true_eq,
    List.all_eq_true, Option.isSome_iff_ne_none]
  constructor
  · rintro ⟨⟨⟨⟨hslots, hanswers⟩, hdebate⟩, hsynthesis⟩, hjudge⟩
    exact ⟨hslots, fun answer h => and_assoc.mp (hanswers answer h), hdebate, hsynthesis, hjudge⟩
  · intro h
    have hanswers := fun answer hanswer => and_assoc.mpr (h.answers answer hanswer)
    exact ⟨⟨⟨⟨h.slots, hanswers⟩, h.debate⟩, h.synthesis⟩, h.judge⟩

/-! ### What was measured -/

variable (snapshot pricing)

theorem initialTotal_measured (quick : Bool) : (snapshot.measuredCosts pricing quick).initialTotal =
    (snapshot.initialAnswers.map fun answer =>
      answer.tokenUsage.elim 0 (slotCostOf pricing answer)).sum := by
  have hsorted :=
    (List.perm_insertionSort (fun left right : ReceiptAnswer => left.slotNumber ≤ right.slotNumber)
    snapshot.initialAnswers).map fun answer => answer.tokenUsage.elim 0 (slotCostOf pricing answer)
  rw [← hsorted.sum_eq]
  show ((snapshot.perModelInitial pricing).map fun line => line.2.2).sum = _
  rw [perModelInitial, sum_filterMap_elim]
  refine congrArg List.sum (List.map_congr_left fun answer _ => ?_)
  cases answer.tokenUsage <;> rfl

theorem sum_debateCosts : ((snapshot.debateCosts pricing).map fun call => call.2.2).sum =
    (snapshot.debateCallUsages.map fun usage => usage.2.elim 0 fun billed =>
      usageCost pricing (callModelId pricing billed) billed.toTokenUsage).sum := by
  rw [debateCosts, sum_filterMap_elim]
  refine congrArg List.sum (List.map_congr_left fun usage _ => ?_)
  cases usage.2 <;> rfl

theorem debateTotal_measured (quick : Bool) : (snapshot.measuredCosts pricing quick).debateTotal =
    ((snapshot.debateCosts pricing).map fun call => call.2.2).sum := by
  show (Dict.totals ((snapshot.debateCosts pricing).map fun call =>
    ((call.1 : ℤ), call.2.2))).values.sum = _
  rw [Dict.sum_values_totals, List.map_map]
  rfl

/-- The critics' share is part of the debate, so the receipt never meets more critique than
debate. -/
theorem critiqueTotal_le (quick : Bool) : (snapshot.measuredCosts pricing quick).critiqueTotal ≤
    (snapshot.measuredCosts pricing quick).debateTotal := by
  have hsorted : (snapshot.measuredCosts pricing quick).critiqueTotal =
      (((snapshot.debateCosts pricing).filter fun call => call.1 ∈ snapshot.peerDebateRounds).map
        fun call => call.2.2).sum := by
    show ((snapshot.critiqueByModel pricing).map fun line => line.2.2).sum = _
    rw [critiqueByModel, List.map_map]
    have hperm := List.perm_insertionSort (fun left right : String × ℚ≥0 => left.1 ≤ right.1)
      (Dict.totals
        (((snapshot.debateCosts pricing).filter fun call => call.1 ∈ snapshot.peerDebateRounds).map
        Prod.snd)).items
    have hsum := (hperm.map Prod.snd).sum_eq
    have htotals := Dict.sum_values_totals
      (((snapshot.debateCosts pricing).filter fun call =>
        call.1 ∈ snapshot.peerDebateRounds).map Prod.snd)
    rw [List.map_map] at htotals
    exact hsum.trans htotals
  rw [hsorted, snapshot.debateTotal_measured pricing quick]
  exact (List.filter_sublist.map _).sum_le_sum fun _ _ => zero_le

theorem synthesisCost_measured :
    snapshot.synthesisCost pricing = (snapshot.synthesisCallUsages.map fun usage =>
    usage.elim 0 (usageCost pricing pricing.settings.synthesisModelId)).sum := by
  rw [synthesisCost, sum_filterMap_elim]
  rfl

theorem judgeCost_measured (quick : Bool) : (snapshot.measuredCosts pricing quick).judgeCost =
    snapshot.judgeOutcome.elim 0 fun outcome =>
      outcome.usage.elim 0 (usageCost pricing outcome.modelId) := by
  show ((snapshot.judgeOutcome.bind fun outcome => outcome.usage.map fun usage =>
    (outcome.modelId, usageCost pricing outcome.modelId usage)).map Prod.snd).getD 0 = _
  rcases snapshot.judgeOutcome with _ | ⟨modelId, usage, status, sourcePages⟩
  · rfl
  · cases usage <;> rfl

/-- A quick answer has no debate and no synthesis to pay for. -/
def Direct (quick : Bool) : Prop :=
  quick = true → snapshot.debateCallUsages = [] ∧ snapshot.synthesisCost pricing = 0

variable {snapshot pricing}

theorem coherent_iff {quick : Bool}
    (hreported : ∀ usage ∈ snapshot.debateCallUsages, usage.2 ≠ none) :
    (snapshot.measuredCosts pricing quick).Coherent ↔ snapshot.Direct pricing quick := by
  have hempty : snapshot.debateCosts pricing = [] ↔ snapshot.debateCallUsages = [] := by
    rw [debateCosts, List.filterMap_eq_nil_iff, List.eq_nil_iff_forall_not_mem]
    refine forall_congr' fun usage => ?_
    constructor
    · intro h hmem
      exact hreported usage hmem (Option.map_eq_none_iff.mp (h hmem))
    · exact fun h hmem => absurd hmem h
  have hcritique : snapshot.debateCosts pricing = [] → snapshot.critiqueByModel pricing = [] := by
    intro h
    rw [critiqueByModel, h]
    rfl
  rw [MeasuredCosts.Coherent, Direct]
  cases quick with
  | false => simpa [measuredCosts] using snapshot.critiqueTotal_le pricing false
  | true =>
      show (Dict.totals _).items = [] ∧ snapshot.synthesisCost pricing = 0 ∧
        snapshot.critiqueByModel pricing = [] ↔ _
      rw [Dict.totals_items_eq_nil, List.map_eq_nil_iff, hempty]
      constructor
      · exact fun h _ => ⟨h.1, h.2.1⟩
      · intro h
        obtain ⟨hdebate, hsynthesis⟩ := h rfl
        exact ⟨hdebate, hsynthesis, hcritique (hempty.mpr hdebate)⟩

theorem rawTotal_measured {quick : Bool} (hdirect : snapshot.Direct pricing quick) :
    (snapshot.measuredCosts pricing quick).rawTotal = snapshot.spent pricing := by
  rw [MeasuredCosts.rawTotal, spent, ← snapshot.initialTotal_measured pricing quick,
    ← snapshot.judgeCost_measured pricing quick, ← snapshot.synthesisCost_measured pricing,
    ← snapshot.sum_debateCosts pricing, ← snapshot.debateTotal_measured pricing quick]
  cases quick with
  | false => rfl
  | true =>
      obtain ⟨hdebate, hsynthesis⟩ := hdirect rfl
      have hnone : (snapshot.measuredCosts pricing true).debateTotal = 0 := by
        rw [debateTotal_measured, debateCosts, hdebate]
        rfl
      rw [hnone, hsynthesis, add_zero, add_zero]
      rfl

end BillingSnapshot

/-- The receipt of a run in any reachable repository. It is measured exactly where every call that
may have been billed reported its tokens, of a quick answer with nothing but its answer and its
judge; it is then the price of every call that was recorded, with the search fees, rounded once, and
its lines by model and by stage sum to it. Everywhere else it is the estimate as it stood. -/
theorem actual_cost_receipt (pricing : Pricing) (quick : Bool) {ops : List RunOp}
    {queryRunId : Uuid} {run : QueryRun} {snapshot : BillingSnapshot}
    (hrun : (runOps ops).get? queryRunId = some run) (htaken : snapshot.TakenFrom run)
    (hrounds : ∀ usage ∈ run.debateCallUsages, usage.1 = 1 ∨ usage.1 = 2) :
    (snapshot.Reported ∧ snapshot.Direct pricing quick → ∃ b,
      snapshot.actualCost pricing quick = ⟨b.total, some b, .measured⟩ ∧
      b.total = quantize (snapshot.spent pricing) ∧
        (b.byModel.map CostLine.usd).sum = b.total ∧ (b.byStage.map CostLine.usd).sum = b.total) ∧
    (¬(snapshot.Reported ∧ snapshot.Direct pricing quick) →
      snapshot.actualCost pricing quick = ⟨snapshot.estimatedCostUsd,
        snapshot.breakdown, .estimated⟩) := by
  have hshake := handshake_of_runOps ops queryRunId run hrun
  have hcaptured : snapshot.captured = true ↔ snapshot.Reported := by
    refine BillingSnapshot.captured_iff (fun hstage => ?_) fun hstage => ?_
    · have hnone := hshake.debate (htaken.debateStage ▸ hstage)
      rw [← htaken.debate, List.map_eq_nil_iff] at hnone
      exact hnone
    · rw [htaken.synthesis]
      exact hshake.synthesis (htaken.synthesisStage ▸ hstage)
  have hkeys : ∀ round ∈ (snapshot.measuredCosts pricing quick).debateByRound.keys,
      round = 1 ∨ round = 2 := by
    intro round hround
    obtain ⟨entry, hentry, rfl⟩ := List.mem_map.mp (Dict.mem_keys_totals.mp hround)
    obtain ⟨call, hcall, rfl⟩ := List.mem_map.mp hentry
    obtain ⟨usage, husage, hbilled⟩ := List.mem_filterMap.mp hcall
    obtain ⟨billed, -, rfl⟩ := Option.map_eq_some_iff.mp hbilled
    have hmem : (usage.1,
        usage.2.map fun billed => billed.toTokenUsage) ∈ run.debateCallUsages := by
      rw [← htaken.debate]
      exact List.mem_map_of_mem husage
    have hround : usage.1 = 1 ∨ usage.1 = 2 := hrounds _ hmem
    show (usage.1 : ℤ) = 1 ∨ (usage.1 : ℤ) = 2
    exact_mod_cast hround
  constructor
  · rintro ⟨hreported, hdirect⟩
    obtain ⟨b, hb, htotal, hmodel, hstage⟩ := buildMeasuredBreakdown_partition _ hkeys
      ((BillingSnapshot.coherent_iff hreported.debate.2).mpr hdirect)
    refine ⟨b, ?_, ?_, hmodel.sum, hstage.sum⟩
    · rw [BillingSnapshot.actualCost, if_pos (hcaptured.mpr hreported), hb]
    · rw [htotal, BillingSnapshot.rawTotal_measured hdirect]
  · intro hnot
    rw [BillingSnapshot.actualCost]
    by_cases hreported : snapshot.Reported
    · rw [if_pos (hcaptured.mpr hreported)]
      cases hb : buildMeasuredBreakdown (snapshot.measuredCosts pricing quick) with
      | error raised => rfl
      | ok b =>
          refine absurd hb
            (buildMeasuredBreakdown_incoherent _ (fun hcoherent => hnot ⟨hreported, ?_⟩) b)
          exact (BillingSnapshot.coherent_iff hreported.debate.2).mp hcoherent
    · rw [if_neg fun h => hreported (hcaptured.mp h)]

/-- A run whose first debate round a critic wrote. -/
def receiptOps : List RunOp :=
  [.create none oneRun (fun _ => instantAt 1) 1,
    .writeRun 1 (.recordDebateOutputs (instantAt 1) [] (some [(1, some ⟨100, 20⟩)]))]

def receiptRun : QueryRun :=
  (newQueryRun oneRun 1 (instantAt 1)).withDebateOutputs (instantAt 1) []
    (some [(1, some ⟨100, 20⟩)])

def receiptSnapshot : BillingSnapshot where
  estimatedCostUsd := 1
  breakdown := none
  modelSlots := oneRun.modelSlots
  initialAnswers := [⟨2, "vendor/model", "", .openrouterSearch, .completed, some ⟨100, 20⟩, true⟩,
    ⟨1, "vendor/model", "Model", .openrouterSearch, .completed, some ⟨100, 20⟩, false⟩]
  debateCallUsages :=
    [(1, some { promptTokens := 100, completionTokens := 20, modelId := some "vendor/critic" })]
  peerDebateRounds := [1]
  synthesisCallUsages := []
  debateStage := .recorded
  synthesisStage := .notEntered
  judgeOutcome := none

theorem receiptRun_stored : (runOps receiptOps).get? 1 = some receiptRun := rfl

theorem receiptSnapshot_taken : receiptSnapshot.TakenFrom receiptRun := ⟨rfl, rfl, rfl, rfl⟩

theorem receiptSnapshot_reported : receiptSnapshot.Reported where
  slots := ⟨by simp [receiptSnapshot, oneRun], rfl⟩
  answers := by simp [receiptSnapshot]
  debate := by simp [receiptSnapshot]
  synthesis := by simp [receiptSnapshot]
  judge := by simp [receiptSnapshot]

theorem receiptSnapshot_direct : receiptSnapshot.Direct freePricing false := fun h => by cases h

theorem actual_cost_receipt_measured : ∃ b,
    receiptSnapshot.actualCost freePricing false = ⟨b.total, some b, .measured⟩ ∧
      b.total = quantize (receiptSnapshot.spent freePricing) := by
  have hrounds : ∀ usage ∈ receiptRun.debateCallUsages, usage.1 = 1 ∨ usage.1 = 2 := by
    simp [receiptRun, QueryRun.withDebateOutputs]
  obtain ⟨b, hb, htotal, -⟩ :=
    (actual_cost_receipt freePricing false receiptRun_stored receiptSnapshot_taken
    hrounds).1 ⟨receiptSnapshot_reported, receiptSnapshot_direct⟩
  exact ⟨b, hb, htotal⟩

end Quorum
