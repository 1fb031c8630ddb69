import Quorum.RunRepository

/-! Runs of the repository by any number of requests and workers. An operation is atomic, so an
interleaving is a list of operations. The rule that an account has at most one active run is checked
when a run is created; every other operation keeps a terminal run terminal, so it holds of every
reachable repository. -/

namespace Quorum

open IsoTime Transaction

/-! ### Operations -/

/-- A write to one run. -/
inductive RunWrite
  | transition (now : Instant) (nextStatus : QueryRunStatus)
      (failedSteps missingSteps : Option (List StepName))
  | updateStatus (now : Instant) (write : StatusWrite)
  | recordInitialAnswer (now : Instant) (answer : InitialModelAnswer)
  | markBillableStageEntered (now : Instant) (stage : BillableStage)
  | markSpendMeteringUnavailable (now : Instant)
  | markGlobalCeilingReached (now : Instant)
  | recordDebateOutputs (now : Instant) (debateOutputs : List DebateOutput)
      (usages : Option DebateUsages)
  | recordFinalSynthesis (now : Instant) (finalSynthesis : FinalSynthesis)
      (usages : Option SynthesisUsages)
  | keepHistoryVerdict (verdict : Option String)

/-- What a repository script does, without its answer. -/
def discard {α : Type} (script : Repository α) : Repository Unit := do
  let _ ← script
  return ()

def RunWrite.perform (queryRunId : Uuid) : RunWrite → Repository Unit
  | .transition now nextStatus failedSteps missingSteps =>
      discard (Quorum.transition now queryRunId nextStatus failedSteps missingSteps)
  | .updateStatus now write => discard (Quorum.updateStatus now queryRunId write)
  | .recordInitialAnswer now answer => discard (Quorum.recordInitialAnswer now queryRunId answer)
  | .markBillableStageEntered now stage =>
      discard (Quorum.markBillableStageEntered now queryRunId stage)
  | .markSpendMeteringUnavailable now =>
      discard (Quorum.markSpendMeteringUnavailable now queryRunId)
  | .markGlobalCeilingReached now => discard (Quorum.markGlobalCeilingReached now queryRunId)
  | .recordDebateOutputs now debateOutputs usages =>
      discard (Quorum.recordDebateOutputs now queryRunId debateOutputs usages)
  | .recordFinalSynthesis now finalSynthesis usages =>
      discard (Quorum.recordFinalSynthesis now queryRunId finalSynthesis usages)
  | .keepHistoryVerdict verdict => Quorum.keepHistoryVerdict queryRunId verdict

/-- What a write does to the run it names. -/
def RunWrite.change : RunWrite → QueryRun → QueryRun
  | .transition now nextStatus failedSteps missingSteps, run =>
      if nextStatus ∈ run.status.allowedTransitions then
        run.transitioned now nextStatus failedSteps missingSteps else run
  | .updateStatus now write, run => write.guarded now run
  | .recordInitialAnswer now answer, run => run.withInitialAnswer now answer
  | .markBillableStageEntered now stage, run => run.withStageEntered now stage
  | .markSpendMeteringUnavailable now, run => run.withSpendMeteringUnavailable now
  | .markGlobalCeilingReached now, run => run.withGlobalCeilingReached now
  | .recordDebateOutputs now debateOutputs usages, run =>
      run.withDebateOutputs now debateOutputs usages
  | .recordFinalSynthesis now finalSynthesis usages, run =>
      run.withFinalSynthesis now finalSynthesis usages
  | .keepHistoryVerdict verdict, run => run.withHistoryVerdict verdict

inductive RunOp
  | create (admission : Option RepositoryError) (request : NewRun) (clock : Clock) (fresh : Uuid)
  | getRun (now : Instant) (queryRunId : Uuid)
  | getForAccount (now : Instant) (queryRunId accountId : Uuid)
  | terminalRunsForAccount (now : Instant) (accountId : Uuid)
  | getActiveForAccount (now : Instant) (accountId : Uuid)
  | writeRun (queryRunId : Uuid) (write : RunWrite)
  | clear

def RunOp.perform : RunOp → Repository Unit
  | .create admission request clock fresh => discard (Quorum.create admission request clock fresh)
  | .getRun now queryRunId => discard (Quorum.getRun now queryRunId)
  | .getForAccount now queryRunId accountId =>
      discard (Quorum.getForAccount now queryRunId accountId)
  | .terminalRunsForAccount now accountId => discard (Quorum.terminalRunsForAccount now accountId)
  | .getActiveForAccount now accountId => discard (Quorum.getActiveForAccount now accountId)
  | .writeRun queryRunId write => write.perform queryRunId
  | .clear => Quorum.clear

/-- The repository after an operation, whether it answered or raised. -/
def RunOp.apply (runs : QueryRuns) (op : RunOp) : QueryRuns := after op.perform runs

theorem after_discard {α : Type} (script : Repository α) (runs : QueryRuns) :
    after (discard script) runs = after script runs :=
  after_map script (fun _ => ()) runs

/-! ### What an operation does to the stored runs -/

theorem get?_modifyRun (queryRunId : Uuid) (change : QueryRun → QueryRun) (runs : QueryRuns)
    (j : Uuid) :
    (after (modifyRun queryRunId change) runs).get? j =
      if j = queryRunId then (runs.get? j).map change else runs.get? j := by
  rw [after, modifyRun]
  cases hrun : runs.get? queryRunId with
  | none =>
      show runs.get? j = _
      split_ifs with hj
      · rw [hj, hrun]
        rfl
      · rfl
  | some run =>
      show (runs.set queryRunId (change run)).get? j = _
      rw [Dict.get?_set]
      split_ifs with hj
      · rw [hj, hrun]
        rfl
      · rfl

theorem stored_some {queryRunId : Uuid} {runs : QueryRuns} {run : QueryRun}
    (h : runs.get? queryRunId = some run) : stored queryRunId runs = .ok run runs := by
  rw [stored, h]

theorem stored_none {queryRunId : Uuid} {runs : QueryRuns} (h : runs.get? queryRunId = none) :
    stored queryRunId runs = .error (.keyError queryRunId) runs := by
  rw [stored, h]

theorem after_transition_none {now : Instant} {queryRunId : Uuid} {nextStatus : QueryRunStatus}
    {failedSteps missingSteps : Option (List StepName)} {runs : QueryRuns}
    (h : runs.get? queryRunId = none) :
    after (transition now queryRunId nextStatus failedSteps missingSteps) runs = runs :=
  after_bind_error _ (stored_none h)

theorem after_transition_some {now : Instant} {queryRunId : Uuid} {nextStatus : QueryRunStatus}
    {failedSteps missingSteps : Option (List StepName)} {runs : QueryRuns} {run : QueryRun}
    (h : runs.get? queryRunId = some run) :
    after (transition now queryRunId nextStatus failedSteps missingSteps) runs =
      if nextStatus ∈ run.status.allowedTransitions then
        after (modifyRun queryRunId (QueryRun.transitioned now nextStatus failedSteps missingSteps))
          runs
      else runs := by
  rw [transition, after_bind_ok _ (stored_some h)]
  by_cases hallowed : nextStatus ∈ run.status.allowedTransitions
  · rw [if_pos hallowed, if_pos hallowed]
  · rw [if_neg hallowed, if_neg hallowed]
    rfl

/-- A write changes the run it names and no other. -/
theorem RunWrite.get?_perform (write : RunWrite) (queryRunId : Uuid) (runs : QueryRuns) (j : Uuid) :
    (after (write.perform queryRunId) runs).get? j =
      if j = queryRunId then (runs.get? j).map write.change else runs.get? j := by
  cases write with
  | transition now nextStatus failedSteps missingSteps =>
      rw [RunWrite.perform, after_discard]
      cases hrun : runs.get? queryRunId with
      | none =>
          rw [after_transition_none hrun]
          split_ifs with hj
          · rw [hj, hrun]
            rfl
          · rfl
      | some run =>
          rw [after_transition_some hrun]
          by_cases hallowed : nextStatus ∈ run.status.allowedTransitions
          · rw [if_pos hallowed, get?_modifyRun]
            split_ifs with hj
            · rw [hj, hrun]
              simp [RunWrite.change, hallowed]
            · rfl
          · rw [if_neg hallowed]
            split_ifs with hj
            · rw [hj, hrun]
              simp [RunWrite.change, hallowed]
            · rfl
  | keepHistoryVerdict verdict =>
      have hsame : after (Quorum.keepHistoryVerdict queryRunId verdict) runs =
          after (modifyRun queryRunId (QueryRun.withHistoryVerdict verdict)) runs := by
        rw [after, after, Quorum.keepHistoryVerdict, modifyRun]
        cases runs.get? queryRunId <;> rfl
      rw [RunWrite.perform, hsame]
      exact get?_modifyRun _ _ _ _
  | updateStatus now write => rw [RunWrite.perform, after_discard]; exact get?_modifyRun _ _ _ _
  | recordInitialAnswer now answer =>
      rw [RunWrite.perform, after_discard]; exact get?_modifyRun _ _ _ _
  | markBillableStageEntered now stage =>
      rw [RunWrite.perform, after_discard]; exact get?_modifyRun _ _ _ _
  | markSpendMeteringUnavailable now =>
      rw [RunWrite.perform, after_discard]; exact get?_modifyRun _ _ _ _
  | markGlobalCeilingReached now =>
      rw [RunWrite.perform, after_discard]; exact get?_modifyRun _ _ _ _
  | recordDebateOutputs now outputs usages =>
      rw [RunWrite.perform, after_discard]; exact get?_modifyRun _ _ _ _
  | recordFinalSynthesis now final usages =>
      rw [RunWrite.perform, after_discard]; exact get?_modifyRun _ _ _ _

theorem get?_evictExpired {now : Instant} {runs : QueryRuns} {j : Uuid} {run : QueryRun}
    (h : (evictExpired now runs).get? j = some run) : runs.get? j = some run := by
  rw [evictExpired, Dict.get?_filter] at h
  exact Option.eq_some_of_filter_eq_some h

/-- The account has no active run. -/
def NoActive (accountId : Uuid) (runs : QueryRuns) : Prop :=
  ∀ j run, runs.get? j = some run → run.accountId = accountId → run.isTerminal

theorem noActive_of_find? {accountId : Uuid} {runs : QueryRuns}
    (h : (runs.values.find? fun run => run.accountId = accountId ∧ ¬run.isTerminal) = none) :
    NoActive accountId runs := by
  intro j run hrun haccount
  have hmem : run ∈ runs.values := List.mem_map.mpr ⟨(j, run), Dict.get?_eq_some_iff.mp hrun, rfl⟩
  have hnot := List.find?_eq_none.mp h run hmem
  simpa [haccount] using hnot

/-- A creation evicts, and stores the new run when the account has no active run then. -/
theorem after_create (admission : Option RepositoryError) (request : NewRun) (clock : Clock)
    (fresh : Uuid) (runs : QueryRuns) :
    (∀ j run, (after (create admission request clock fresh) runs).get? j = some run →
      runs.get? j = some run) ∨
      ∃ kept : QueryRuns, (∀ j run, kept.get? j = some run → runs.get? j = some run) ∧
        NoActive request.accountId kept ∧
        after (create admission request clock fresh) runs =
          kept.set fresh (newQueryRun request fresh (clock 2)) := by
  cases admission with
  | some refusal => exact .inl fun j run h => h
  | none =>
      set kept := evictExpired (clock 1) (evictExpired (clock 0) runs) with hkept
      have hsub : ∀ j run, kept.get? j = some run → runs.get? j = some run := fun j run h =>
        get?_evictExpired (get?_evictExpired h)
      have hpurge : purgeExpiredLocked (clock 0) runs = .ok () (evictExpired (clock 0) runs) := rfl
      rw [create, after_bind_ok _ hpurge]
      cases hfind : kept.values.find? fun run =>
          run.accountId = request.accountId ∧ ¬run.isTerminal with
      | some active =>
          have hread : getActiveForAccount (clock 1) request.accountId
              (evictExpired (clock 0) runs) =
              .ok (some active) kept := by
            rw [getActiveForAccount, ← hfind]
          rw [after_bind_ok _ hread]
          exact .inl hsub
      | none =>
          have hread : getActiveForAccount (clock 1) request.accountId
              (evictExpired (clock 0) runs) =
              .ok none kept := by
            rw [getActiveForAccount, ← hfind]
          rw [after_bind_ok _ hread]
          exact .inr ⟨kept, hsub, noActive_of_find? hfind, rfl⟩

/-- Where a stored run comes from: it was stored before, perhaps as another write left it, or this
operation created it while its account had no active run. -/
theorem RunOp.get?_apply {op : RunOp} {runs : QueryRuns} {j : Uuid} {run' : QueryRun}
    (h : (op.apply runs).get? j = some run') :
    (∃ run, runs.get? j = some run ∧
      (run' = run ∨ ∃ write, op = .writeRun j write ∧ run' = write.change run)) ∨
    ∃ admission request clock, op = .create admission request clock j ∧
      run' = newQueryRun request j (clock 2) ∧
      ∀ i other, i ≠ j → (op.apply runs).get? i = some other → other.accountId = request.accountId →
        other.isTerminal := by
  cases op with
  | create admission request clock fresh =>
      have hafter : RunOp.apply runs (.create admission request clock fresh) =
          after (Quorum.create admission request clock fresh) runs := after_discard _ _
      rw [hafter] at h ⊢
      rcases after_create admission request clock fresh runs with hsub | ⟨kept, hsub, hactive, hset⟩
      · exact .inl ⟨run', hsub j run' h, .inl rfl⟩
      · rw [hset] at h ⊢
        rw [Dict.get?_set] at h
        split_ifs at h with hj
        · obtain rfl := hj
          refine .inr ⟨admission, request, clock, rfl, (Option.some.inj h).symm,
            fun i other hi hother => ?_⟩
          rw [Dict.get?_set_of_ne _ _ hi] at hother
          exact hactive i other hother
        · exact .inl ⟨run', hsub j run' h, .inl rfl⟩
  | getRun now queryRunId =>
      have hafter : RunOp.apply runs (.getRun now queryRunId) = evictExpired now runs := by
        have hpurge : purgeExpiredLocked now runs = .ok () (evictExpired now runs) := rfl
        rw [RunOp.apply, RunOp.perform, after_discard, Quorum.getRun, after_bind_ok _ hpurge, after,
          stored]
        cases (evictExpired now runs).get? queryRunId <;> rfl
      rw [hafter] at h
      exact .inl ⟨run', get?_evictExpired h, .inl rfl⟩
  | getForAccount now queryRunId accountId => exact .inl ⟨run', get?_evictExpired h, .inl rfl⟩
  | terminalRunsForAccount now accountId => exact .inl ⟨run', get?_evictExpired h, .inl rfl⟩
  | getActiveForAccount now accountId => exact .inl ⟨run', get?_evictExpired h, .inl rfl⟩
  | writeRun queryRunId write =>
      rw [RunOp.apply, RunOp.perform, RunWrite.get?_perform] at h
      split_ifs at h with hj
      · obtain rfl := hj
        obtain ⟨run, hrun, rfl⟩ := Option.map_eq_some_iff.mp h
        exact .inl ⟨run, hrun, .inr ⟨write, rfl, rfl⟩⟩
      · exact .inl ⟨run', h, .inl rfl⟩
  | clear =>
      have hempty : RunOp.apply runs .clear = Dict.empty := rfl
      rw [hempty, Dict.get?_empty] at h
      cases h

/-! ### At most one active run -/

theorem RunWrite.accountId_change (write : RunWrite) (run : QueryRun) :
    (write.change run).accountId = run.accountId := by
  cases write with
  | transition now nextStatus failedSteps missingSteps =>
      rw [RunWrite.change]
      split_ifs <;> rfl
  | updateStatus now write =>
      rw [RunWrite.change, StatusWrite.guarded]
      split_ifs <;> rfl
  | markBillableStageEntered now stage => cases stage <;> rfl
  | _ => rfl

/-- A write on a terminal run leaves its status. -/
theorem RunWrite.status_change_of_isTerminal (write : RunWrite) {run : QueryRun}
    (h : run.isTerminal) :
    (write.change run).status = run.status := by
  cases write with
  | transition now nextStatus failedSteps missingSteps =>
      rw [RunWrite.change, QueryRunStatus.allowedTransitions_of_isTerminal h,
        if_neg List.not_mem_nil]
  | updateStatus now write =>
      rw [RunWrite.change, StatusWrite.guarded]
      split_ifs with hrefused
      · rfl
      · have hopts : write.allowTerminal = true := by
          simpa [h] using hrefused
        rw [StatusWrite.apply, (write.annotates hopts).1]
        rfl
  | markBillableStageEntered now stage => cases stage <;> rfl
  | _ => rfl

theorem RunWrite.isTerminal_change (write : RunWrite) {run : QueryRun} (h : run.isTerminal) :
    (write.change run).isTerminal := by
  rw [QueryRun.isTerminal, write.status_change_of_isTerminal h]
  exact h

/-- Two active runs of one account are the same run. -/
def OneActive (runs : QueryRuns) : Prop :=
  ∀ i j first second, runs.get? i = some first → runs.get? j = some second →
    first.accountId = second.accountId → ¬first.isTerminal → ¬second.isTerminal → i = j

/-- A run that is active after an operation was active before it, or was created by it. -/
theorem RunOp.active_before {op : RunOp} {runs : QueryRuns} {j : Uuid} {run' : QueryRun}
    (h : (op.apply runs).get? j = some run') (hactive : ¬run'.isTerminal) :
    (∃ run, runs.get? j = some run ∧ run.accountId = run'.accountId ∧ ¬run.isTerminal) ∨
      ∀ i other, i ≠ j → (op.apply runs).get? i = some other → other.accountId = run'.accountId →
        other.isTerminal := by
  rcases RunOp.get?_apply h with ⟨run, hrun, rfl | ⟨write, -, rfl⟩⟩ | ⟨admission, request, clock,
    -, rfl, hothers⟩
  · exact .inl ⟨run', hrun, rfl, hactive⟩
  · exact .inl ⟨run, hrun, (write.accountId_change run).symm,
      fun h => hactive (write.isTerminal_change h)⟩
  · exact .inr hothers

theorem OneActive.apply {runs : QueryRuns} (h : OneActive runs) (op : RunOp) :
    OneActive (op.apply runs) := by
  intro i j first second hfirst hsecond haccount hactive hactive'
  by_contra hne
  rcases RunOp.active_before hfirst hactive with ⟨run, hrun, hrunAccount, hrunActive⟩ | hothers
  · rcases RunOp.active_before hsecond hactive' with ⟨run', hrun',
      hrunAccount', hrunActive'⟩ | hothers
    · refine hne (h i j run run' hrun hrun' ?_ hrunActive hrunActive')
      rw [hrunAccount, hrunAccount', haccount]
    · exact hactive (hothers i first hne hfirst haccount)
  · exact hactive' (hothers j second (Ne.symm hne) hsecond haccount.symm)

/-- The repository after a run of operations from an empty one. -/
def runOps (ops : List RunOp) : QueryRuns := ops.foldl RunOp.apply Dict.empty

/-- In every reachable repository an account owns at most one run that is not terminal. -/
theorem at_most_one_active_run (ops : List RunOp) : OneActive (runOps ops) := by
  rw [runOps]
  refine List.foldlRecOn ops RunOp.apply ?_ fun runs hruns op _ => hruns.apply op
  intro i j first second hfirst
  rw [Dict.get?_empty] at hfirst
  cases hfirst

end Quorum
