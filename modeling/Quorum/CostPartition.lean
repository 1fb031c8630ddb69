import Quorum.CostBreakdown

/-! Both breakdowns of a cost partition its total: by model and by stage every line shows its own
raw amount, and the lines sum to the total. The equalizer of the debate rounds is the one exception,
and only to the line of the initial answers of a panel estimate. -/

namespace Quorum

open Apportion

/-! ### Sums of raw amounts -/

section

variable {Label : Type}

theorem sum_amounts (raw : List (Label × ℚ≥0)) :
    (amounts raw).sum = ((raw.map Prod.snd).sum : ℚ≥0) := by
  induction raw with
  | nil => rfl
  | cons line raw ih =>
      rw [List.map_cons, List.sum_cons, NNRat.cast_add, ← ih]
      rfl

theorem map_snd_toList (label : Label) (judge : Option ℚ≥0) :
    ((judge.map fun cost => (label, cost)).toList.map Prod.snd).sum = judge.getD 0 := by
  cases judge <;> simp

end

/-! ### The equalizer -/

/-- Lines reconciled with equal debate amounts end with equal debate lines, what one of them gave up
moves to the first line, and then both stand below their amount. -/
theorem equalizeDebateRounds_spec {debate one two : ℚ} (initial : ℚ) (rest : List ℚ)
    (hdebate : 0 ≤ debate) (hone : Apportioned debate one) (htwo : Apportioned debate two) :
    ∃ moved round, equalizeDebateRounds (initial :: one :: two :: rest) =
        (initial + moved) :: round :: round :: rest ∧
      LineOf debate round ∧ moved + round + round = one + two ∧
      (moved = 0 ∨ moved = costDisplayQuantum) := by
  rcases lt_trichotomy one two with hlt | heq | hgt
  · have hstep := Apportioned.eq_or_apart htwo hone hlt
    refine ⟨costDisplayQuantum, one, ?_, hone.lineOf hdebate, ?_, Or.inr rfl⟩
    · rw [equalizeDebateRounds, if_pos hlt.ne, if_neg hlt.not_gt, hstep, add_sub_cancel_right]
    · rw [hstep]
      ring
  · refine ⟨0, one, ?_, hone.lineOf hdebate, ?_, Or.inl rfl⟩
    · rw [equalizeDebateRounds, if_neg (not_not.mpr heq), ← heq, add_zero]
    · rw [heq]
      ring
  · have hstep := Apportioned.eq_or_apart hone htwo hgt
    refine ⟨costDisplayQuantum, two, ?_, htwo.lineOf hdebate, ?_, Or.inr rfl⟩
    · rw [equalizeDebateRounds, if_pos hgt.ne', if_pos hgt, hstep, add_sub_cancel_right]
    · rw [hstep]
      ring

/-! ### The estimate -/

section

variable (pricing : Pricing)

theorem sum_estimateStageRaw (parts : CostParts) (args : ComponentArgs)
    (hjudge : args.priceJudge = false → parts.judgeCost = 0) :
    ((estimateStageRaw parts args).map Prod.snd).sum =
      parts.initialTotal + 2 * parts.debateRoundCost + parts.synthesisCost + parts.judgeCost := by
  have hfetch : (((if args.priceJudgePages then [(CostStage.sourceFetch, (0 : ℚ≥0))] else []).map
      Prod.snd).sum : ℚ≥0) = 0 := by
    split_ifs <;> simp
  rw [estimateStageRaw, List.map_append, List.sum_append, hfetch, add_zero, List.map_append,
    List.sum_append]
  cases hprice : args.priceJudge with
  | false =>
      rw [hjudge hprice]
      simp [two_mul, add_assoc]
  | true => simp [two_mul, add_assoc]

theorem sum_estimateModelRaw (modelSlots : List ModelSlot) (parts : CostParts)
    (args : ComponentArgs) (hlength : parts.initialPerModel.length = modelSlots.length)
    (hinitial : parts.initialPerModel.sum = parts.initialTotal)
    (hjudge : args.priceJudge = false → parts.judgeCost = 0) :
    ((estimateModelRaw pricing modelSlots parts args).map Prod.snd).sum =
      parts.initialTotal + 2 * parts.debateRoundCost + parts.synthesisCost + parts.judgeCost := by
  have hslots : ((modelSlots.zip parts.initialPerModel).map
      fun row => (slotLabel pricing row.1, row.2)).map Prod.snd = parts.initialPerModel := by
    rw [List.map_map]
    exact List.map_snd_zip hlength.le
  rw [estimateModelRaw, List.map_append, List.map_append, hslots, List.sum_append, List.sum_append,
    hinitial]
  cases hprice : args.priceJudge with
  | false =>
      rw [hjudge hprice]
      simp [add_assoc]
  | true => simp [add_assoc]

theorem sum_quickRaw {Label : Type} (label judgeLabel : Label) (parts : CostParts)
    (args : ComponentArgs) (hjudge : args.priceJudge = false → parts.judgeCost = 0) :
    (((label, parts.initialTotal) :: ((if args.priceJudge then some parts.judgeCost else none).map
      fun cost => (judgeLabel, cost)).toList).map Prod.snd).sum = parts.initialTotal +
        parts.judgeCost := by
  rw [List.map_cons, List.sum_cons, map_snd_toList]
  cases hprice : args.priceJudge with
  | false => rw [hjudge hprice]; rfl
  | true => rfl

/-- The exact costs of the displayed estimate. -/
def estimateParts (request : CostRequest) : CostParts :=
  costParts pricing request.queryChars request.modelSlots (request.estimateArgs pricing)

/-- The raw amounts of an estimate by stage: a quick answer has its answer and its judge. -/
def estimateStages (request : CostRequest) : List (CostStage × ℚ≥0) :=
  let args := request.estimateArgs pricing
  let parts := estimateParts pricing request
  if request.mode = .quick then
    quickStageRaw parts.initialTotal (if args.priceJudge then some parts.judgeCost else none)
  else estimateStageRaw parts args

/-- The raw amounts of an estimate by model. -/
def estimateModels (request : CostRequest) : List (ModelLabel × ℚ≥0) :=
  let args := request.estimateArgs pricing
  let parts := estimateParts pricing request
  if request.mode = .quick then
    request.modelSlots.flatMap fun slot => quickModelRaw pricing slot parts.initialTotal
      (if args.priceJudge then some parts.judgeCost else none)
  else estimateModelRaw pricing request.modelSlots parts args

theorem judgeCost_estimateParts (request : CostRequest)
    (h : (request.estimateArgs pricing).priceJudge = false) :
    (estimateParts pricing request).judgeCost = 0 := by
  show ite _ _ _ = _
  rw [if_neg (by rw [h]; exact Bool.false_ne_true)]

/-- The total of the displayed estimate has no round-two term. -/
theorem rawTotal_estimateParts (request : CostRequest) :
    (estimateParts pricing request).rawTotal =
      (estimateParts pricing request).initialTotal +
        2 * (estimateParts pricing request).debateRoundCost +
        (estimateParts pricing request).synthesisCost +
          (estimateParts pricing request).judgeCost := by
  have hprior : (request.estimateArgs pricing).quick = true ∨
      ¬(request.estimateArgs pricing).priceRoundTwoPriorCritique = true := Or.inr Bool.false_ne_true
  show _ + _ + ite _ _ _ + _ + _ = _
  rw [if_pos hprior, add_zero]
  rfl

/-- A quick answer prices neither the debate nor the synthesis. -/
theorem rawTotal_quick (request : CostRequest) (hmode : request.mode = .quick) :
    (estimateParts pricing request).rawTotal =
      (estimateParts pricing request).initialTotal + (estimateParts pricing request).judgeCost := by
  have hquick : (request.estimateArgs pricing).quick = true := decide_eq_true hmode
  have hdebate : (estimateParts pricing request).debateRoundCost = 0 := if_pos hquick
  have hsynthesis : (estimateParts pricing request).synthesisCost = 0 := if_pos hquick
  rw [rawTotal_estimateParts, hdebate, hsynthesis, mul_zero, add_zero, add_zero]

/-- What the breakdown of an estimate shows. A panel estimate moves at most one quantum to the line
of the initial answers, and shows its debate rounds as equal. -/
structure EstimatePartition (request : CostRequest) (b : CostBreakdown) : Prop where
  total : b.total = quantize (estimateParts pricing request).rawTotal
  byModel : ExactPartition (estimateModels pricing request) b.total b.byModel
  byStage : ∃ moved, (moved = 0 ∨ moved = costDisplayQuantum ∧ request.mode = .panel) ∧
    Partition (estimateStages pricing request) (fun stage =>
      if stage = .initialAnswers then moved else 0)
      b.total b.byStage
  rounds : ∀ one ∈ b.byStage, ∀ two ∈ b.byStage, one.label = .debateRound1 →
    two.label = .debateRound2 →
    one.usd = two.usd

theorem reconciledLines_of_sum {Label : Type} {raw : List (Label × ℚ≥0)} {total : ℚ≥0}
    (hsum : (raw.map Prod.snd).sum = total) :
    ∃ lines, reconciledLines raw (quantize total) = .ok lines ∧
      ExactPartition raw (quantize total) lines := by
  rw [← hsum, ← sum_amounts]
  exact reconciledLines_spec raw

theorem costBreakdown_ok (byModel : List CostLineByModel) (byStage : List CostLineByStage)
    (total : ℚ≥0) :
    costBreakdown byModel byStage (quantize total) =
      .ok ⟨byModel, byStage, quantize total, quantize_nonneg total.coe_nonneg⟩ :=
  dif_pos (quantize_nonneg total.coe_nonneg)

theorem costComponents_estimate (request : CostRequest)
    (hslots : admitted request.modelSlots (request.mode = .quick)) :
    costComponents pricing request.queryChars request.modelSlots (request.estimateArgs pricing) =
      .ok (estimateParts pricing request) :=
  costComponents_admitted pricing hslots

theorem debateRound1_notMem_quick (initialTotal : ℚ≥0) (judge : Option ℚ≥0) :
    CostStage.debateRound1 ∉ (quickStageRaw initialTotal judge).map Prod.fst := by
  cases judge <;> simp [quickStageRaw]

theorem estimateBreakdown_quick (request : CostRequest) (hmode : request.mode = .quick)
    (hslots : admitted request.modelSlots (request.mode = .quick)) :
    ∃ b, estimateBreakdown pricing request = .ok b ∧ EstimatePartition pricing request b := by
  have hparts := costComponents_estimate pricing request hslots
  have hjudge := judgeCost_estimateParts pricing request
  rw [decide_eq_true hmode] at hslots
  obtain ⟨slot, hslot⟩ := List.length_eq_one_iff.mp hslots
  have hstages : ((estimateStages pricing request).map Prod.snd).sum =
      (estimateParts pricing request).rawTotal := by
    rw [estimateStages, if_pos hmode, rawTotal_quick pricing request hmode]
    exact sum_quickRaw _ _ _ _ hjudge
  have hmodels : ((estimateModels pricing request).map Prod.snd).sum =
      (estimateParts pricing request).rawTotal := by
    rw [estimateModels, if_pos hmode, rawTotal_quick pricing request hmode, hslot,
      List.flatMap_singleton]
    exact sum_quickRaw _ _ _ _ hjudge
  obtain ⟨byStage, hstage, hstagePartition⟩ := reconciledLines_of_sum hstages
  obtain ⟨byModel, hmodel, hmodelPartition⟩ := reconciledLines_of_sum hmodels
  refine ⟨⟨byModel, byStage, quantize (estimateParts pricing request).rawTotal,
    quantize_nonneg (NNRat.coe_nonneg _)⟩, ?_, rfl, hmodelPartition, ?_, ?_⟩
  · rw [estimateStages, if_pos hmode] at hstage
    rw [estimateModels, if_pos hmode, hslot, List.flatMap_singleton] at hmodel
    rw [hslot] at hparts
    simp only [estimateBreakdown, quickBreakdown, if_pos hmode, hslot, hparts, Except.mapError,
      bind, Except.bind, hstage, hmodel]
    exact costBreakdown_ok byModel byStage _
  · exact ⟨0, Or.inl rfl, by simpa using hstagePartition⟩
  · -- a quick answer has no debate rounds
    intro one hone two _ hlabel
    have hmem : one.label ∈ byStage.map CostLine.label := List.mem_map_of_mem hone
    rw [hstagePartition.labels, estimateStages, if_pos hmode, hlabel] at hmem
    exact absurd hmem (debateRound1_notMem_quick _ _)

/-- The lines of a list of amounts after the equalizer, where only the first is labelled as the
initial answers and only the next two as debate rounds. -/
theorem equalized_lines {initialTotal debate : ℚ≥0} {rest : List (CostStage × ℚ≥0)} {usd : List ℚ}
    (hrest : ∀ line ∈ rest,
      line.1 ≠ .initialAnswers ∧ line.1 ≠ .debateRound1 ∧ line.1 ≠ .debateRound2)
    (happ : List.Forall₂ Apportioned
      (amounts ((.initialAnswers, initialTotal) :: (.debateRound1, debate) ::
      (.debateRound2, debate) :: rest)) usd) :
    ∃ moved lines, (moved = 0 ∨ moved = costDisplayQuantum) ∧
      costLines (.initialAnswers :: .debateRound1 :: .debateRound2 :: rest.map Prod.fst)
        (equalizeDebateRounds usd) = .ok lines ∧
      Partition ((.initialAnswers, initialTotal) :: (.debateRound1, debate) :: (.debateRound2,
        debate) :: rest)
        (fun stage => if stage = .initialAnswers then moved else 0) usd.sum lines ∧
      ∀ one ∈ lines, ∀ two ∈ lines, one.label = .debateRound1 → two.label = .debateRound2 →
        one.usd = two.usd := by
  obtain ⟨initial, usd1, hinitial, happ1, rfl⟩ := List.forall₂_cons_left_iff.mp happ
  obtain ⟨one, usd2, hone, happ2, rfl⟩ := List.forall₂_cons_left_iff.mp happ1
  obtain ⟨two, usd, htwo, happ3, rfl⟩ := List.forall₂_cons_left_iff.mp happ2
  obtain ⟨moved, round, hequal, hround, hsum, hmoved⟩ :=
    equalizeDebateRounds_spec initial usd (NNRat.coe_nonneg debate) hone htwo
  have hshow : List.Forall₂ (fun (amount : CostStage × ℚ≥0) u => LineOf amount.2 u) rest usd :=
    (List.forall₂_map_left_iff.mp happ3).imp fun amount _ h => h.lineOf amount.2.coe_nonneg
  have hfirst := hinitial.lineOf (NNRat.coe_nonneg initialTotal)
  have hmoved0 : 0 ≤ moved := by
    rcases hmoved with rfl | rfl
    · exact le_rfl
    · exact costDisplayQuantum_pos.le
  have hnonneg : ∀ u ∈ (initial + moved) :: round :: round :: usd, 0 ≤ u := by
    simp only [List.forall_mem_cons]
    refine ⟨add_nonneg hfirst.nonneg hmoved0, hround.nonneg, hround.nonneg, fun u hu => ?_⟩
    obtain ⟨i, hi, rfl⟩ := List.mem_iff_getElem.mp hu
    exact ((List.forall₂_iff_get.mp hshow).2 i (hshow.length_eq ▸ hi) hi).nonneg
  obtain ⟨lines, hlines, hlabels, husd⟩ := costLines_ok
    (.initialAnswers :: .debateRound1 :: .debateRound2 :: rest.map Prod.fst) _
    (by simp [hshow.length_eq]) hnonneg
  have hdebate : ∀ line ∈ lines, line.label = .debateRound1 ∨ line.label = .debateRound2 →
      line.usd = round := by
    intro line hline hlabel
    have hmem : (line.label, line.usd) ∈ (lines.map CostLine.label).zip
        (lines.map CostLine.usd) := by
      rw [List.zip_map']
      exact List.mem_map_of_mem hline
    rw [hlabels, husd, List.zip_cons_cons, List.zip_cons_cons, List.zip_cons_cons] at hmem
    rcases List.mem_cons.mp hmem with heq | hmem
    · have hfirstLabel : line.label = .initialAnswers := congrArg Prod.fst heq
      rw [hfirstLabel] at hlabel
      rcases hlabel with h | h <;> cases h
    rcases List.mem_cons.mp hmem with heq | hmem
    · exact congrArg Prod.snd heq
    rcases List.mem_cons.mp hmem with heq | hmem
    · exact congrArg Prod.snd heq
    · obtain ⟨amount, hamount, heq⟩ := List.mem_map.mp (List.of_mem_zip hmem).1
      obtain ⟨-, hnot1, hnot2⟩ := hrest amount hamount
      rcases hlabel with h | h
      · exact absurd (heq.trans h) hnot1
      · exact absurd (heq.trans h) hnot2
  refine ⟨moved, lines, hmoved, by rw [hequal, hlines], partition_of_map hlabels ?_ ?_, ?_⟩
  · rw [husd]
    refine .cons ?_ (.cons ?_ (.cons ?_ ?_))
    · simpa using hfirst
    · simpa using hround
    · simpa using hround
    · refine ((List.forall₂_and_left _ _).mpr ⟨hrest, hshow⟩).imp fun line u h => ?_
      rw [if_neg h.1.1, sub_zero]
      exact h.2
  · rw [husd, List.sum_cons, List.sum_cons, List.sum_cons, List.sum_cons, List.sum_cons,
      List.sum_cons]
    linarith
  · intro one' hone' two' htwo' hl1 hl2
    rw [hdebate one' hone' (.inl hl1), hdebate two' htwo' (.inr hl2)]

theorem estimate_stage_lines (parts : CostParts) (args : ComponentArgs) {usd : List ℚ}
    (happ : List.Forall₂ Apportioned (amounts (estimateStageRaw parts args)) usd) :
    ∃ moved lines, (moved = 0 ∨ moved = costDisplayQuantum) ∧
      costLines ((estimateStageRaw parts args).map Prod.fst) (equalizeDebateRounds usd) =
        .ok lines ∧
      Partition (estimateStageRaw parts args) (fun stage =>
        if stage = .initialAnswers then moved else 0)
        usd.sum lines ∧
      ∀ one ∈ lines, ∀ two ∈ lines, one.label = .debateRound1 → two.label = .debateRound2 →
        one.usd = two.usd := by
  refine equalized_lines ?_ happ
  split_ifs <;> simp

theorem estimateBreakdown_panel (request : CostRequest) (hmode : request.mode ≠ .quick)
    (hslots : admitted request.modelSlots (request.mode = .quick)) :
    ∃ b, estimateBreakdown pricing request = .ok b ∧ EstimatePartition pricing request b := by
  have hparts := costComponents_estimate pricing request hslots
  have hjudge := judgeCost_estimateParts pricing request
  have hstages :=
    sum_estimateStageRaw (estimateParts pricing request) (request.estimateArgs pricing) hjudge
  have hmodels := sum_estimateModelRaw pricing request.modelSlots (estimateParts pricing request)
    (request.estimateArgs pricing) (List.length_map _) rfl hjudge
  rw [← rawTotal_estimateParts] at hstages hmodels
  obtain ⟨usd, hreconcile, happ, husd⟩ := reconcileUsdLines_spec _ (amounts_nonneg
    (estimateStageRaw (estimateParts pricing request) (request.estimateArgs pricing)))
  rw [sum_amounts, hstages] at hreconcile husd
  obtain ⟨moved, byStage, hmoved, hstage, hstagePartition, hrounds⟩ := estimate_stage_lines _ _ happ
  rw [husd] at hstagePartition
  obtain ⟨byModel, hmodel, hmodelPartition⟩ := reconciledLines_of_sum hmodels
  have hpanel : request.mode = .panel := by
    cases h : request.mode with
    | panel => rfl
    | quick => exact absurd h hmode
  refine ⟨⟨byModel, byStage, quantize (estimateParts pricing request).rawTotal,
    quantize_nonneg (NNRat.coe_nonneg _)⟩, ?_, rfl, ?_, ⟨moved, ?_, ?_⟩, hrounds⟩
  · simp only [estimateBreakdown, if_neg hmode, hparts, Except.mapError, bind, Except.bind,
      hreconcile, hstage, hmodel]
    exact costBreakdown_ok byModel byStage _
  · rw [estimateModels, if_neg hmode]
    exact hmodelPartition
  · exact hmoved.imp_right fun h => ⟨h, hpanel⟩
  · rw [estimateStages, if_neg hmode]
    exact hstagePartition

/-- Every request of an admitted size gets a breakdown that partitions its total. -/
theorem estimateBreakdown_partition (request : CostRequest)
    (hslots : admitted request.modelSlots (request.mode = .quick)) :
    ∃ b, estimateBreakdown pricing request = .ok b ∧ EstimatePartition pricing request b := by
  by_cases hmode : request.mode = .quick
  · exact estimateBreakdown_quick pricing request hmode hslots
  · exact estimateBreakdown_panel pricing request hmode hslots

end

/-! ### Measured calls -/

namespace MeasuredCosts

variable (measured : MeasuredCosts)

/-- What the receipt accepts: a quick answer without debate, synthesis or critique, or a panel run
whose critique is part of its debate. -/
def Coherent : Prop :=
  if measured.quick then
    measured.debateByRound.items = [] ∧ measured.synthesisCost = 0 ∧ measured.critiqueByModel = []
  else measured.critiqueTotal ≤ measured.debateTotal

theorem sum_modelRows (kind : CostKind) (lines : List (String × String × ℚ≥0)) :
    ((modelRows kind lines).map Prod.snd).sum = (lines.map fun line => line.2.2).sum := by
  rw [modelRows, List.map_map]
  rfl

theorem sum_judgeStageRow : (measured.judgeStageRow.map Prod.snd).sum = measured.judgeCost := by
  rw [judgeStageRow, judgeCost]
  cases measured.judge <;> simp

theorem sum_judgeModelRow : (measured.judgeModelRow.map Prod.snd).sum = measured.judgeCost := by
  rw [judgeModelRow, judgeCost]
  cases measured.judge <;> simp

theorem debateTotal_eq (hrounds : ∀ round ∈ measured.debateByRound.keys, round = 1 ∨ round = 2) :
    measured.debateTotal = measured.debateRound 1 + measured.debateRound 2 := by
  rw [debateTotal, measured.debateByRound.sum_values [1, 2] (by decide) (by simpa using hrounds)]
  simp [debateRound]

theorem sum_stageRaw (hrounds : ∀ round ∈ measured.debateByRound.keys, round = 1 ∨ round = 2) :
    (measured.stageRaw.map Prod.snd).sum = measured.rawTotal := by
  have hjudge := measured.sum_judgeStageRow
  rw [stageRaw, rawTotal]
  split_ifs
  · rw [List.map_cons, List.sum_cons, hjudge]
  all_goals
    rw [List.map_append, List.map_append, List.sum_append, List.sum_append, hjudge,
      measured.debateTotal_eq hrounds]
    simp [add_assoc]

theorem sum_modelRaw (hcoherent : measured.Coherent) :
    (measured.modelRaw.map Prod.snd).sum = measured.rawTotal := by
  have hjudge := measured.sum_judgeModelRow
  rw [Coherent] at hcoherent
  rw [modelRaw, rawTotal]
  split_ifs at hcoherent ⊢ with hquick
  · rw [List.map_append, List.sum_append, sum_modelRows, hjudge, initialTotal]
  · rw [List.map_append, List.map_append, List.map_append, List.sum_append, List.sum_append,
      List.sum_append, sum_modelRows, sum_modelRows, hjudge]
    calc measured.initialTotal + ([(writerLabel, measured.writerCost)].map Prod.snd).sum +
          measured.judgeCost + measured.critiqueTotal
        = measured.initialTotal +
            (measured.debateTotal - measured.critiqueTotal + measured.critiqueTotal) +
          measured.synthesisCost + measured.judgeCost := by
          rw [List.map_singleton, List.sum_singleton, writerCost]
          ring
      _ = _ := by rw [tsub_add_cancel_of_le hcoherent]

end MeasuredCosts

theorem buildMeasuredBreakdown_partition (measured : MeasuredCosts)
    (hrounds : ∀ round ∈ measured.debateByRound.keys, round = 1 ∨ round = 2)
    (hcoherent : measured.Coherent) :
    ∃ b, buildMeasuredBreakdown measured = .ok b ∧ b.total = quantize measured.rawTotal ∧
      ExactPartition measured.modelRaw b.total b.byModel ∧
      ExactPartition measured.stageRaw b.total b.byStage := by
  obtain ⟨byStage, hstage, hstagePartition⟩ :=
    reconciledLines_of_sum (measured.sum_stageRaw hrounds)
  obtain ⟨byModel, hmodel, hmodelPartition⟩ :=
    reconciledLines_of_sum (measured.sum_modelRaw hcoherent)
  refine ⟨⟨byModel, byStage, quantize measured.rawTotal, quantize_nonneg (NNRat.coe_nonneg _)⟩,
    ?_, rfl,
    hmodelPartition, hstagePartition⟩
  have hbuilt := costBreakdown_ok byModel byStage measured.rawTotal
  rw [MeasuredCosts.Coherent] at hcoherent
  rw [buildMeasuredBreakdown]
  by_cases hquick : measured.quick
  · rw [if_pos hquick] at hcoherent ⊢
    rw [if_neg (by tauto)]
    simp only [quickMeasuredBreakdown, hstage, hmodel, bind, Except.bind]
    exact hbuilt
  · rw [if_neg hquick] at hcoherent ⊢
    simp only [hstage, hmodel, bind, Except.bind, if_neg hcoherent.not_gt]
    exact hbuilt

/-- Incoherent costs get no breakdown. -/
theorem buildMeasuredBreakdown_incoherent (measured : MeasuredCosts)
    (hcoherent : ¬measured.Coherent) (b : CostBreakdown) :
    buildMeasuredBreakdown measured ≠ .ok b := by
  intro hok
  rw [MeasuredCosts.Coherent] at hcoherent
  rw [buildMeasuredBreakdown] at hok
  by_cases hquick : measured.quick
  · rw [if_pos hquick] at hcoherent hok
    rw [if_pos (by tauto)] at hok
    cases hok
  · rw [if_neg hquick] at hcoherent hok
    simp only [if_pos (not_le.mp hcoherent), bind, Except.bind] at hok
    cases hstage : reconciledLines measured.stageRaw (quantize measured.rawTotal) with
    | error e =>
        rw [hstage] at hok
        cases hok
    | ok byStage =>
        rw [hstage] at hok
        cases hok

/-! ### Every breakdown -/

/-- Every estimate of an admitted size and every measured breakdown partitions its total, by model
and by stage. Only a panel estimate moves a quantum, from one debate round to the initial
answers. -/
theorem cost_breakdown_partition (pricing : Pricing) :
    (∀ request : CostRequest, admitted request.modelSlots (request.mode = .quick) →
      ∃ b, estimateBreakdown pricing request = .ok b ∧ EstimatePartition pricing request b) ∧
    ∀ measured : MeasuredCosts, (∀ round ∈ measured.debateByRound.keys, round = 1 ∨ round = 2) →
      (measured.Coherent → ∃ b, buildMeasuredBreakdown measured = .ok b) ∧
      ∀ b, buildMeasuredBreakdown measured = .ok b → b.total = quantize measured.rawTotal ∧
        ExactPartition measured.modelRaw b.total b.byModel ∧
        ExactPartition measured.stageRaw b.total b.byStage := by
  refine ⟨fun request hslots => estimateBreakdown_partition pricing request hslots,
    fun measured hrounds => ⟨fun hcoherent => ?_, fun b hb => ?_⟩⟩
  · obtain ⟨b, hb, -⟩ := buildMeasuredBreakdown_partition measured hrounds hcoherent
    exact ⟨b, hb⟩
  · by_cases hcoherent : measured.Coherent
    · obtain ⟨b', hb', hpartition⟩ := buildMeasuredBreakdown_partition measured hrounds hcoherent
      obtain rfl : b' = b := Except.ok.inj (hb'.symm.trans hb)
      exact hpartition
    · exact absurd hb (buildMeasuredBreakdown_incoherent measured hcoherent b)

/-- A catalog with one free model, every other model at the default price. -/
def freePricing : Pricing where
  settings := {}
  sizes := ⟨0, 0, 0⟩
  priceIndex := fun modelId => if modelId = "free/model" then some ⟨0, 0⟩ else none
  lookupShortName := fun _ => none

/-- Two free slots that do not search. -/
def freeRequest : CostRequest where
  queryChars := 4
  modelSlots := [⟨1, "free/model", false, slotNumber_one_range⟩,
    ⟨2, "free/model", false, slotNumber_two_range⟩]

/-- A run whose first debate round was billed, half of it by a critic. -/
def billedRoundOne : MeasuredCosts where
  perModelInitial := [("free/model", "Free", 1 / 30000)]
  debateByRound := ⟨[(1, 1 / 60000)], by decide⟩
  synthesisCost := 1 / 70000
  critiqueByModel := [("free/model", "Free", 1 / 120000)]

theorem cost_breakdown_partition_free :
    (∃ b, estimateBreakdown freePricing freeRequest = .ok b ∧
      EstimatePartition freePricing freeRequest b) ∧
    ∃ b, buildMeasuredBreakdown billedRoundOne = .ok b := by
  have hcoherent : billedRoundOne.Coherent := by
    show billedRoundOne.critiqueTotal ≤ billedRoundOne.debateTotal
    decide +kernel
  exact ⟨(cost_breakdown_partition freePricing).1 freeRequest (by decide),
    ((cost_breakdown_partition freePricing).2 billedRoundOne (by decide)).1 hcoherent⟩

/-- The answers of free models cost nothing, and their line shows the quantum that the equalizer
moved. -/
theorem freeRequest_moved : ∃ b, estimateBreakdown freePricing freeRequest = .ok b ∧
    ¬ExactPartition (estimateStages freePricing freeRequest) b.total b.byStage := by
  obtain ⟨b, hb, -⟩ := estimateBreakdown_partition freePricing freeRequest (by decide)
  have hfirst : (estimateBreakdown freePricing freeRequest).toOption.bind (fun b =>
      b.byStage.head?.map CostLine.usd) = some costDisplayQuantum := by decide +kernel
  have hraw : (estimateStages freePricing freeRequest).head? = some (.initialAnswers, 0) := by
    decide +kernel
  refine ⟨b, hb, fun hexact => ?_⟩
  rw [hb] at hfirst
  obtain ⟨line, hline, husd⟩ :=
    Option.map_eq_some_iff.mp (show b.byStage.head?.map CostLine.usd = _ from hfirst)
  obtain ⟨rest, hrest⟩ := List.head?_eq_some_iff.mp hline
  obtain ⟨raws, hraws⟩ := List.head?_eq_some_iff.mp hraw
  have hamounts := hexact.amounts
  rw [hrest, hraws] at hamounts
  obtain ⟨⟨-, hshow⟩, -⟩ := List.forall₂_cons.mp hamounts
  have hzero := hshow.zero rfl
  rw [sub_zero, husd] at hzero
  exact costDisplayQuantum_pos.ne' hzero

end Quorum
