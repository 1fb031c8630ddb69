import Quorum.RunActive

/-! A terminal run is final. No operation moves its status, its failed and missing steps, its start
or what the request gave it; they stay until the run is evicted. What may still change is named
field by field: an opted-in annotation marks a stage, and the recording of an answer or of a billed
stage lands on a cancelled run too, as an unrecorded billed call would be the worse defect. -/

namespace Quorum

open IsoTime

/-! ### Fields -/

/-- The fields that some operation still writes on a terminal run. -/
inductive RunField
  | progress
  | updatedAt
  | initialAnswers
  | debate
  | debateStage
  | synthesis
  | synthesisStage
  | degradeFlags
  | historyVerdict
deriving DecidableEq

/-- Two records of a run have the same content in a field. -/
def QueryRun.Agree (run run' : QueryRun) : RunField → Prop
  | .progress => run'.progress = run.progress
  | .updatedAt => run'.updatedAt = run.updatedAt
  | .initialAnswers => run'.initialAnswers = run.initialAnswers
  | .debate => run'.debateOutputs = run.debateOutputs ∧ run'.debateCallUsages = run.debateCallUsages
  | .debateStage => run'.debateStage = run.debateStage
  | .synthesis =>
      run'.finalSynthesis = run.finalSynthesis ∧ run'.synthesisCallUsages = run.synthesisCallUsages
  | .synthesisStage => run'.synthesisStage = run.synthesisStage
  | .degradeFlags => run'.costEstimate.globalCeilingReached = run.costEstimate.globalCeilingReached ∧
      run'.costEstimate.spendMeteringUnavailable = run.costEstimate.spendMeteringUnavailable
  | .historyVerdict => run'.historyVerdict = run.historyVerdict

/-- The fields that no operation writes on a terminal run. -/
structure QueryRun.Frozen (run run' : QueryRun) : Prop where
  status : run'.status = run.status
  failedSteps : run'.failedSteps = run.failedSteps
  missingSteps : run'.missingSteps = run.missingSteps
  startedAt : run'.startedAt = run.startedAt
  queryRunId : run'.queryRunId = run.queryRunId
  accountId : run'.accountId = run.accountId
  queryText : run'.queryText = run.queryText
  createdAt : run'.createdAt = run.createdAt
  modelSlots : run'.modelSlots = run.modelSlots
  estimatedCostUsd : run'.costEstimate.estimatedCostUsd = run.costEstimate.estimatedCostUsd
  thresholdAction : run'.costEstimate.thresholdAction = run.costEstimate.thresholdAction
  context : run'.context = run.context
  mode : run'.mode = run.mode
  spendKey : run'.spendKey = run.spendKey

theorem QueryRun.Frozen.refl (run : QueryRun) : run.Frozen run :=
  ⟨rfl, rfl, rfl, rfl, rfl, rfl, rfl, rfl, rfl, rfl, rfl, rfl, rfl, rfl⟩

theorem QueryRun.Frozen.trans {first second third : QueryRun} (h : first.Frozen second)
    (h' : second.Frozen third) : first.Frozen third where
  status := h'.status.trans h.status
  failedSteps := h'.failedSteps.trans h.failedSteps
  missingSteps := h'.missingSteps.trans h.missingSteps
  startedAt := h'.startedAt.trans h.startedAt
  queryRunId := h'.queryRunId.trans h.queryRunId
  accountId := h'.accountId.trans h.accountId
  queryText := h'.queryText.trans h.queryText
  createdAt := h'.createdAt.trans h.createdAt
  modelSlots := h'.modelSlots.trans h.modelSlots
  estimatedCostUsd := h'.estimatedCostUsd.trans h.estimatedCostUsd
  thresholdAction := h'.thresholdAction.trans h.thresholdAction
  context := h'.context.trans h.context
  mode := h'.mode.trans h.mode
  spendKey := h'.spendKey.trans h.spendKey

theorem QueryRun.Agree.refl (run : QueryRun) (field : RunField) : run.Agree run field := by
  cases field <;> first | rfl | exact ⟨rfl, rfl⟩

theorem QueryRun.Agree.trans {first second third : QueryRun} {field : RunField}
    (h : first.Agree second field) (h' : second.Agree third field) : first.Agree third field := by
  cases field with
  | debate => exact ⟨h'.1.trans h.1, h'.2.trans h.2⟩
  | synthesis => exact ⟨h'.1.trans h.1, h'.2.trans h.2⟩
  | degradeFlags => exact ⟨h'.1.trans h.1, h'.2.trans h.2⟩
  | _ => exact Eq.trans h' h

/-- The two kinds of field are all of a run. -/
theorem QueryRun.eq_of_frozen_of_agree {run run' : QueryRun} (hfrozen : run.Frozen run')
    (hagree : ∀ field, run.Agree run' field) : run' = run := by
  have hdebate := hagree .debate
  have hsynthesis := hagree .synthesis
  have hflags := hagree .degradeFlags
  have hcost : run'.costEstimate = run.costEstimate := by
    cases hc : run.costEstimate
    cases hc' : run'.costEstimate
    have h1 := hfrozen.estimatedCostUsd
    have h2 := hfrozen.thresholdAction
    rw [QueryRun.Agree, hc, hc'] at hflags
    rw [hc, hc'] at h1 h2
    obtain ⟨h3, h4⟩ := hflags
    simp only at h1 h2 h3 h4
    rw [h1, h2, h3, h4]
  cases run
  cases run'
  obtain ⟨rfl, rfl, rfl, rfl, rfl, rfl, rfl, rfl, rfl, -, -, rfl, rfl, rfl⟩ := hfrozen
  obtain ⟨rfl, rfl⟩ := hdebate
  obtain ⟨rfl, rfl⟩ := hsynthesis
  obtain rfl := hcost
  obtain rfl := hagree .progress
  obtain rfl := hagree .updatedAt
  obtain rfl := hagree .initialAnswers
  obtain rfl := hagree .debateStage
  obtain rfl := hagree .synthesisStage
  obtain rfl := hagree .historyVerdict
  rfl

/-! ### One write -/

/-- The fields that a write reaches on a terminal run. -/
def RunWrite.touches : RunWrite → List RunField
  | .transition .. => []
  | .updateStatus _ write => if write.allowTerminal then [.progress, .updatedAt] else []
  | .recordInitialAnswer .. => [.initialAnswers, .updatedAt]
  | .markBillableStageEntered _ .debate => [.debateStage, .updatedAt]
  | .markBillableStageEntered _ .synthesis => [.synthesisStage, .updatedAt]
  | .markSpendMeteringUnavailable _ => [.degradeFlags, .updatedAt]
  | .markGlobalCeilingReached _ => [.degradeFlags, .updatedAt]
  | .recordDebateOutputs .. => [.debate, .debateStage, .updatedAt]
  | .recordFinalSynthesis .. => [.synthesis, .synthesisStage, .updatedAt]
  | .keepHistoryVerdict _ => [.historyVerdict]

/-- What an opted-in write does to a run: its stage is marked, and the clock is read. -/
theorem StatusWrite.apply_of_allowTerminal (write : StatusWrite)
    (hopts : write.allowTerminal = true) (now : Instant) (run : QueryRun) :
    write.apply now run = { run with updatedAt := now, progress := write.mark run.progress } := by
  obtain ⟨hstatus, hfailed, hmissing, hstarted⟩ := write.annotates hopts
  rw [StatusWrite.apply, hstatus, hfailed, hmissing, hstarted]
  simp

/-- A write on a terminal run keeps the frozen fields, and every other field that it does not
reach. -/
theorem RunWrite.change_of_isTerminal (write : RunWrite) {run : QueryRun} (h : run.isTerminal) :
    run.Frozen (write.change run) ∧ ∀ field ∉ write.touches,
      run.Agree (write.change run) field := by
  cases write with
  | transition now nextStatus failedSteps missingSteps =>
      rw [RunWrite.change, QueryRunStatus.allowedTransitions_of_isTerminal h,
        if_neg List.not_mem_nil]
      exact ⟨.refl run, fun field _ => .refl run field⟩
  | updateStatus now write =>
      cases hopts : write.allowTerminal with
      | false =>
          have hsame : write.guarded now run = run :=
            if_pos ⟨h, by rw [hopts]; exact Bool.false_ne_true⟩
          rw [RunWrite.change, hsame]
          exact ⟨.refl run, fun field _ => .refl run field⟩
      | true =>
          have happly : write.guarded now run = write.apply now run :=
            if_neg fun hboth => hboth.2 hopts
          rw [RunWrite.change, happly, write.apply_of_allowTerminal hopts]
          refine ⟨⟨rfl, rfl, rfl, rfl, rfl, rfl, rfl, rfl, rfl, rfl, rfl, rfl, rfl, rfl⟩,
            fun field hfield => ?_⟩
          rw [RunWrite.touches, if_pos hopts] at hfield
          cases field <;> first | rfl | exact ⟨rfl, rfl⟩ | simp at hfield
  | markBillableStageEntered now stage =>
      cases stage
        <;> refine ⟨⟨rfl, rfl, rfl, rfl, rfl, rfl, rfl, rfl, rfl, rfl, rfl, rfl, rfl, rfl⟩, ?_⟩ <;>
        intro field hfield <;> cases field <;>
        first | rfl | exact ⟨rfl, rfl⟩ | simp [RunWrite.touches] at hfield
  | _ =>
      refine ⟨⟨rfl, rfl, rfl, rfl, rfl, rfl, rfl, rfl, rfl, rfl, rfl, rfl, rfl, rfl⟩,
        fun field hfield => ?_⟩
      cases field <;> first | rfl | exact ⟨rfl, rfl⟩ | simp [RunWrite.touches] at hfield

/-! ### Any sequence of operations -/

/-- The fields of a run that an operation reaches when the run is terminal. -/
def RunOp.touches (queryRunId : Uuid) : RunOp → List RunField
  | .writeRun target write => if target = queryRunId then write.touches else []
  | _ => []

/-- The id that a creation draws. -/
def RunOp.draws : RunOp → Option Uuid
  | .create _ _ _ fresh => some fresh
  | _ => none

/-- One operation evicts a terminal run, or keeps it in every field that it does not reach. -/
theorem RunOp.apply_of_isTerminal {op : RunOp} {runs : QueryRuns} {queryRunId : Uuid}
    {run run' : QueryRun} (hdraws : op.draws ≠ some queryRunId)
    (hrun : runs.get? queryRunId = some run) (h : run.isTerminal)
    (hrun' : (op.apply runs).get? queryRunId = some run') :
    run.Frozen run' ∧ ∀ field ∉ op.touches queryRunId, run.Agree run' field := by
  rcases RunOp.get?_apply hrun' with ⟨before, hbefore, rfl | ⟨write, rfl, rfl⟩⟩ |
    ⟨_, _, _, rfl, -, -⟩
  · obtain rfl : run' = run := Option.some.inj (hbefore.symm.trans hrun)
    exact ⟨.refl run', fun field _ => .refl run' field⟩
  · obtain rfl : before = run := Option.some.inj (hbefore.symm.trans hrun)
    obtain ⟨hfrozen, hagree⟩ := write.change_of_isTerminal h
    refine ⟨hfrozen, fun field hfield => hagree field ?_⟩
    rwa [RunOp.touches, if_pos rfl] at hfield
  · exact absurd rfl hdraws

/-- An evicted run does not come back without its id being drawn again. -/
theorem RunOp.get?_apply_none {op : RunOp} {runs : QueryRuns} {queryRunId : Uuid}
    (hdraws : op.draws ≠ some queryRunId) (hrun : runs.get? queryRunId = none) :
    (op.apply runs).get? queryRunId = none := by
  cases hrun' : (op.apply runs).get? queryRunId with
  | none => rfl
  | some run' =>
      rcases RunOp.get?_apply hrun' with ⟨before, hbefore, -⟩ | ⟨_, _, _, rfl, -, -⟩
      · rw [hrun] at hbefore
        cases hbefore
      · exact absurd rfl hdraws

theorem get?_foldl_none {queryRunId : Uuid} (ops : List RunOp) (runs : QueryRuns)
    (hdraws : ∀ op ∈ ops, op.draws ≠ some queryRunId) (hrun : runs.get? queryRunId = none) :
    (ops.foldl RunOp.apply runs).get? queryRunId = none := by
  induction ops generalizing runs with
  | nil => exact hrun
  | cons op ops ih =>
      refine ih _ (fun o ho => hdraws o (List.mem_cons_of_mem op ho)) ?_
      exact RunOp.get?_apply_none (hdraws op List.mem_cons_self) hrun

/-- Over any operations that do not draw its id again, a terminal run keeps its status and every
other frozen field, and each further field that no operation reaches, for as long as it is
stored. -/
theorem terminal_run_final (ops : List RunOp) (runs : QueryRuns) (queryRunId : Uuid)
    (run : QueryRun) (hrun : runs.get? queryRunId = some run) (h : run.isTerminal)
    (hdraws : ∀ op ∈ ops, op.draws ≠ some queryRunId) :
    ∀ run', (ops.foldl RunOp.apply runs).get? queryRunId = some run' →
      run.Frozen run' ∧
      (∀ field, (∀ op ∈ ops, field ∉ op.touches queryRunId) → run.Agree run' field) ∧
      ((∀ op ∈ ops, op.touches queryRunId = []) → run' = run) := by
  suffices hfields : ∀ run', (ops.foldl RunOp.apply runs).get? queryRunId = some run' →
      run.Frozen run' ∧ ∀ field, (∀ op ∈ ops, field ∉ op.touches queryRunId) →
        run.Agree run' field by
    intro run' hrun'
    obtain ⟨hfrozen, hagree⟩ := hfields run' hrun'
    refine ⟨hfrozen, hagree, fun hnone => QueryRun.eq_of_frozen_of_agree hfrozen fun field => ?_⟩
    exact hagree field fun op hop => by rw [hnone op hop]; exact List.not_mem_nil
  induction ops generalizing runs run with
  | nil =>
      intro run' hrun'
      obtain rfl : run' = run := Option.some.inj (hrun'.symm.trans hrun)
      exact ⟨.refl run', fun field _ => .refl run' field⟩
  | cons op ops ih =>
      intro run' hrun'
      have hop := hdraws op List.mem_cons_self
      have hrest : ∀ o ∈ ops, o.draws ≠ some queryRunId :=
        fun o ho => hdraws o (List.mem_cons_of_mem op ho)
      rw [List.foldl_cons] at hrun'
      cases hnext : (op.apply runs).get? queryRunId with
      | none =>
          rw [get?_foldl_none ops _ hrest hnext] at hrun'
          cases hrun'
      | some next =>
          obtain ⟨hfrozen, hagree⟩ := RunOp.apply_of_isTerminal hop hrun h hnext
          have hterminal : next.isTerminal := by
            rw [QueryRun.isTerminal, hfrozen.status]
            exact h
          obtain ⟨hfrozen', hagree'⟩ := ih _ next hnext hterminal hrest run' hrun'
          refine ⟨hfrozen.trans hfrozen',
            fun field hfield => (hagree field (hfield op List.mem_cons_self)).trans ?_⟩
          exact hagree' field fun o ho => hfield o (List.mem_cons_of_mem op ho)

scoped instance neZero_thousand : NeZero 1000 := inferInstance

/-- An instant in the first millisecond of the calendar. -/
def instantAt (micros : Fin 1000) : Instant :=
  ⟨micros, micros.isLt.trans_le (by norm_num [maxDays, microsPerDay])⟩

def oneRun : NewRun where
  accountId := 7
  queryText := "q"
  modelSlots := [⟨1, "vendor/model", true, slotNumber_one_range⟩,
    ⟨2, "vendor/model", true, slotNumber_two_range⟩]
  costEstimate := { estimatedCostUsd := 1 / 20, thresholdAction := .allow }

theorem starts_annotates : false = true → some QueryRunStatus.initialAnswersRunning = none
    ∧ (none : Option (List StepName)) = none ∧ (none : Option (List StepName)) = none ∧
    true = false :=
  nofun

theorem skips_annotates : true = true → (none : Option QueryRunStatus) = none
    ∧ (none : Option (List StepName)) = none ∧ (none : Option (List StepName)) = none ∧
    false = false :=
  fun _ => ⟨rfl, rfl, rfl, rfl⟩

/-- A worker reaches its debate stage, and the cancel endpoint then ends the run. -/
def cancelledInDebate : List RunOp :=
  [.create none oneRun (fun _ => instantAt 1) 1,
    .writeRun 1 (.updateStatus (instantAt 2)
      { statusValue := some .initialAnswersRunning, markStarted := true,
        annotates := starts_annotates }),
    .writeRun 1 (.recordInitialAnswer (instantAt 3) ⟨1, "vendor/model", "a",
      .completed, none, none⟩),
    .writeRun 1 (.updateStatus (instantAt 4) { statusValue := some .debateRound1Running }),
    .writeRun 1 (.markBillableStageEntered (instantAt 5) .debate),
    .writeRun 1 (.transition (instantAt 6) .cancelled none none),
    .writeRun 1 (.updateStatus (instantAt 7)
      { stage := some ⟨.debateRound1, .skipped, some "Cancelled by the user."⟩,
        allowTerminal := true,
        annotates := skips_annotates })]

/-- The debate call that was in flight was billed, so the worker records it. -/
def lateDebate : RunOp :=
  .writeRun 1 (.recordDebateOutputs (instantAt 8) [⟨1, "critique"⟩] (some [(1, none)]))

theorem get?_cancelledInDebate : ((runOps cancelledInDebate).get? 1).map (fun run =>
    (run.isTerminal, run.debateOutputs, run.updatedAt)) = some (true, [], instantAt 7) := by
  decide +kernel

theorem get?_lateDebate : ((lateDebate.apply (runOps cancelledInDebate)).get? 1).map (fun run =>
    (run.debateOutputs, run.updatedAt)) = some ([⟨1, "critique"⟩], instantAt 8) := by
  decide +kernel

theorem terminal_run_final_cancelled :
    ∃ run run', (runOps cancelledInDebate).get? 1 = some run ∧
      (lateDebate.apply (runOps cancelledInDebate)).get? 1 = some run' ∧ run.Frozen run' := by
  obtain ⟨run, hrun, hfields⟩ := Option.map_eq_some_iff.mp get?_cancelledInDebate
  obtain ⟨run', hrun', -⟩ := Option.map_eq_some_iff.mp get?_lateDebate
  have hterminal : run.isTerminal = true := congrArg Prod.fst hfields
  exact ⟨run, run', hrun, hrun',
    (terminal_run_final [lateDebate] _ 1 run hrun hterminal (by decide) run' hrun').1⟩

/-- A cancelled run takes the outputs of the debate call that was in flight, and its clock moves. -/
theorem cancelled_run_records_debate :
    ∃ run run', (runOps cancelledInDebate).get? 1 = some run ∧ run.isTerminal ∧
      (lateDebate.apply (runOps cancelledInDebate)).get? 1 = some run' ∧
      run'.debateOutputs ≠ run.debateOutputs ∧ run'.updatedAt ≠ run.updatedAt := by
  obtain ⟨run, hrun, hfields⟩ := Option.map_eq_some_iff.mp get?_cancelledInDebate
  obtain ⟨run', hrun', hfields'⟩ := Option.map_eq_some_iff.mp get?_lateDebate
  have hterminal : run.isTerminal = true := congrArg Prod.fst hfields
  have houtputs : run.debateOutputs = [] := congrArg (fun fields => fields.2.1) hfields
  have hupdated : run.updatedAt = instantAt 7 := congrArg (fun fields => fields.2.2) hfields
  have houtputs' : run'.debateOutputs = [⟨1, "critique"⟩] := congrArg Prod.fst hfields'
  have hupdated' : run'.updatedAt = instantAt 8 := congrArg Prod.snd hfields'
  refine ⟨run, run', hrun, hterminal, hrun', ?_, ?_⟩
  · rw [houtputs, houtputs']
    exact List.cons_ne_nil _ _
  · rw [hupdated, hupdated']
    decide +kernel

end Quorum
