import Quorum.BaseIsoTime
import Quorum.BaseRows
import Quorum.BaseTransaction
import Quorum.SessionStore

/-! The run history: one row a terminal run, upserted with its metrics, then given its evaluation.
Over every run of the four writers a row keeps the metrics of its last terminal write and the
verdict that was last attached to it. -/

open IsoTime Transaction

namespace Quorum

/-- A terminal run as the pipeline hands it over. -/
structure RunHistoryRow (Json Decimal : Type) where
  queryRunId : Text
  accountId : Option Text
  correlationId : Text
  status : Text
  createdAt : Instant
  completedAt : Instant
  elapsedTimeMs : ℤ
  modelIds : List Text
  demoMode : Bool
  liveCount : ℤ
  localCount : ℤ
  materialClaimCount : ℤ
  agreementAligned : ℤ
  agreementTotal : ℤ
  citationRatio : Option Decimal
  costSource : Text
  estimatedCostUsd : Decimal
  actualCostUsd : Decimal
  failedSteps : List Text
  missingSteps : List Text
  evalJson : Option Json
  trustJson : Option Json
  mode : Text := "panel".toList

/-- A row of the table `runs`, whose key is the run. -/
structure StoredRun where
  queryRunId : Text
  accountId : Option Text
  correlationId : Text
  status : Text
  createdAt : Text
  completedAt : Text
  elapsedTimeMs : ℤ
  modelIds : Text
  demoMode : ℤ
  liveCount : ℤ
  localCount : ℤ
  materialClaimCount : ℤ
  agreementAligned : ℤ
  agreementTotal : ℤ
  citationRatio : Option Text
  costSource : Text
  estimatedCostUsd : Text
  actualCostUsd : Text
  failedSteps : Text
  missingSteps : Text
  evalJson : Option Text
  trustJson : Option Text
  mode : Text

/-- The texts of a row's values: `json.dumps` of a mapping and of a list of texts, `str` of a
decimal. -/
structure RowTexts (Json Decimal : Type) where
  dumps : Json → Text
  dumpsTexts : List Text → Text
  decimalText : Decimal → Text

variable {Json Decimal : Type} (t : RowTexts Json Decimal)

/-- The values of the insert. -/
def RowTexts.stored (row : RunHistoryRow Json Decimal) : StoredRun where
  queryRunId := row.queryRunId
  accountId := row.accountId
  correlationId := row.correlationId
  status := row.status
  createdAt := isoformat row.createdAt
  completedAt := isoformat row.completedAt
  elapsedTimeMs := row.elapsedTimeMs
  modelIds := t.dumpsTexts row.modelIds
  demoMode := if row.demoMode then 1 else 0
  liveCount := row.liveCount
  localCount := row.localCount
  materialClaimCount := row.materialClaimCount
  agreementAligned := row.agreementAligned
  agreementTotal := row.agreementTotal
  citationRatio := row.citationRatio.map t.decimalText
  costSource := row.costSource
  estimatedCostUsd := t.decimalText row.estimatedCostUsd
  actualCostUsd := t.decimalText row.actualCostUsd
  failedSteps := t.dumpsTexts row.failedSteps
  missingSteps := t.dumpsTexts row.missingSteps
  evalJson := row.evalJson.map t.dumps
  trustJson := row.trustJson.map t.dumps
  mode := row.mode

/-- The arm of the upsert for a run that has a row. -/
def StoredRun.onConflict (kept excluded : StoredRun) : StoredRun :=
  { kept with
    accountId := excluded.accountId
    correlationId := excluded.correlationId
    status := excluded.status
    createdAt := excluded.createdAt
    completedAt := excluded.completedAt
    elapsedTimeMs := excluded.elapsedTimeMs
    modelIds := excluded.modelIds
    demoMode := excluded.demoMode
    liveCount := excluded.liveCount
    localCount := excluded.localCount
    materialClaimCount := excluded.materialClaimCount
    agreementAligned := excluded.agreementAligned
    agreementTotal := excluded.agreementTotal
    citationRatio := excluded.citationRatio
    costSource := excluded.costSource
    estimatedCostUsd := excluded.estimatedCostUsd
    actualCostUsd := excluded.actualCostUsd
    failedSteps := excluded.failedSteps
    missingSteps := excluded.missingSteps
    mode := excluded.mode }

def StoredRun.withEvaluation (evalJson trustJson : Option Text) (run : StoredRun) : StoredRun :=
  { run with evalJson := evalJson, trustJson := trustJson }

def StoredRun.withLayerA (evalJson : Option Text) (run : StoredRun) : StoredRun :=
  { run with evalJson := evalJson }

def StoredRun.withoutAccount (run : StoredRun) : StoredRun := { run with accountId := none }

abbrev RunTable := List StoredRun

/-- The writers of the table. -/
inductive RunHistoryOp (Json Decimal : Type)
  | recordTerminalRun (row : RunHistoryRow Json Decimal)
  | updateEvaluation (queryRunId : Text) (evalJson trustJson : Option Json)
  | fillLayerAEvaluationIfAbsent (queryRunId : Text) (evalJson : Option Json)
  | forgetAccount (accountId : Text)

section
variable (faults : Faults Raised)

def recordTerminalRun (row : RunHistoryRow Json Decimal) : Script Raised RunTable Unit :=
  execute faults 0 fun runs => ((),
    Rows.upsert StoredRun.queryRunId StoredRun.onConflict (t.stored row) runs)

def updateEvaluation (queryRunId : Text) (evalJson trustJson : Option Json) :
    Script Raised RunTable Unit :=
  execute faults 0 fun runs => ((), Rows.updateWhere (fun run => run.queryRunId = queryRunId)
    (.withEvaluation (evalJson.map t.dumps) (trustJson.map t.dumps)) runs)

def fillLayerAEvaluationIfAbsent (queryRunId : Text) (evalJson : Option Json) :
    Script Raised RunTable Unit :=
  execute faults 0 fun runs => ((),
    Rows.updateWhere (fun run => run.queryRunId = queryRunId ∧ run.evalJson = none)
    (.withLayerA (evalJson.map t.dumps)) runs)

/-- Answers how many rows it changed. -/
def forgetAccount (accountId : Text) : Script Raised RunTable ℕ :=
  execute faults 0 fun runs => (runs.countP fun run => run.accountId = some accountId,
    Rows.updateWhere (fun run => run.accountId = some accountId) .withoutAccount runs)

end

/-- A call of a writer, with what its statement raises; the callers swallow what is raised. -/
structure HistoryWrite (Json Decimal : Type) where
  op : RunHistoryOp Json Decimal
  faults : Faults Raised := fun _ => none

def HistoryWrite.apply (write : HistoryWrite Json Decimal) (runs : RunTable) : RunTable :=
  match write.op with
  | .recordTerminalRun row => after (recordTerminalRun t write.faults row) runs
  | .updateEvaluation queryRunId evalJson trustJson =>
      after (updateEvaluation t write.faults queryRunId evalJson trustJson) runs
  | .fillLayerAEvaluationIfAbsent queryRunId evalJson =>
      after (fillLayerAEvaluationIfAbsent t write.faults queryRunId evalJson) runs
  | .forgetAccount accountId => after (forgetAccount write.faults accountId) runs

/-- The table that a sequence of writes leaves. -/
def runHistoryAfter (writes : List (HistoryWrite Json Decimal)) : RunTable :=
  writes.foldl (fun runs write => write.apply t runs) []

/-- The write of a judged evaluation: none without a result, Layer A alone where the verdict was
suppressed. -/
def evaluationWrite {Suppression : Type} (queryRunId : Text) (result : Option (Json × Json))
    (suppression : Option Suppression) : Option (RunHistoryOp Json Decimal) :=
  result.map fun (evalJson, trustJson) =>
    match suppression with
    | none => .updateEvaluation queryRunId (some evalJson) (some trustJson)
    | some _ => .fillLayerAEvaluationIfAbsent queryRunId (some evalJson)

/-! ### Writes that land -/

namespace HistoryWrite

variable (write : HistoryWrite Json Decimal)

/-- The statement of the write does not raise. -/
def Lands : Prop := write.faults 0 = none

/-- A terminal write of the run that lands. -/
def Records (queryRunId : Text) : Prop :=
  write.Lands ∧ ∃ row, write.op = .recordTerminalRun row ∧ row.queryRunId = queryRunId

/-- An evaluation of the run that lands. -/
def Evaluates (queryRunId : Text) : Prop :=
  write.Lands ∧ ∃ evalJson trustJson, write.op = .updateEvaluation queryRunId evalJson trustJson

/-- A deletion of the account that lands. -/
def Forgets (accountId : Text) : Prop := write.Lands ∧ write.op = .forgetAccount accountId

end HistoryWrite

/-- What a write makes of the row of one run. -/
def RunHistoryOp.effect (queryRunId : Text) (run : Option StoredRun) : RunHistoryOp Json Decimal →
    Option StoredRun
  | .recordTerminalRun row =>
      if row.queryRunId = queryRunId then
        some (run.elim (t.stored row) (·.onConflict (t.stored row))) else run
  | .updateEvaluation evaluated evalJson trustJson =>
      if evaluated = queryRunId then
        run.map (·.withEvaluation (evalJson.map t.dumps) (trustJson.map t.dumps))
      else run
  | .fillLayerAEvaluationIfAbsent evaluated evalJson =>
      if evaluated = queryRunId then
        run.map fun run =>
          if run.evalJson = none then run.withLayerA (evalJson.map t.dumps) else run
      else run
  | .forgetAccount accountId =>
      run.map fun run => if run.accountId = some accountId then run.withoutAccount else run

variable {t} {queryRunId : Text} {runs : RunTable} {write : HistoryWrite Json Decimal}

/-- The row of a run, read at the table's key. -/
abbrev runOf (queryRunId : Text) (runs : RunTable) : Option StoredRun :=
  Rows.rowOf StoredRun.queryRunId queryRunId runs

theorem after_execute {σ ε α : Type} (faults : Faults ε) (n : ℕ) (statement : σ → α × σ) (s : σ) :
    after (execute faults n statement) s = if faults n = none then (statement s).2 else s := by
  unfold after execute
  cases faults n <;> rfl

/-- What a write leaves where its statement runs. -/
def RunHistoryOp.statement (t : RowTexts Json Decimal) (runs : RunTable) :
    RunHistoryOp Json Decimal → RunTable
  | .recordTerminalRun row =>
      Rows.upsert StoredRun.queryRunId StoredRun.onConflict (t.stored row) runs
  | .updateEvaluation evaluated evalJson trustJson =>
      Rows.updateWhere (fun run => run.queryRunId = evaluated)
        (.withEvaluation (evalJson.map t.dumps) (trustJson.map t.dumps)) runs
  | .fillLayerAEvaluationIfAbsent evaluated evalJson =>
      Rows.updateWhere (fun run => run.queryRunId = evaluated ∧ run.evalJson = none)
        (.withLayerA (evalJson.map t.dumps)) runs
  | .forgetAccount accountId =>
      Rows.updateWhere (fun run => run.accountId = some accountId) .withoutAccount runs

open Classical in
theorem HistoryWrite.apply_eq (write : HistoryWrite Json Decimal) (runs : RunTable) :
    write.apply t runs = if write.Lands then write.op.statement t runs else runs := by
  unfold HistoryWrite.apply
  cases write.op with
  | recordTerminalRun row => exact (after_execute _ _ _ _).trans (if_congr Iff.rfl rfl rfl)
  | updateEvaluation evaluated evalJson trustJson =>
      exact (after_execute _ _ _ _).trans (if_congr Iff.rfl rfl rfl)
  | fillLayerAEvaluationIfAbsent evaluated evalJson =>
      exact (after_execute _ _ _ _).trans (if_congr Iff.rfl rfl rfl)
  | forgetAccount accountId => exact (after_execute _ _ _ _).trans (if_congr Iff.rfl rfl rfl)

theorem HistoryWrite.apply_of_fault (h : ¬write.Lands) (runs : RunTable) :
    write.apply t runs = runs := by
  rw [apply_eq, if_neg h]

theorem nodup_statement (op : RunHistoryOp Json Decimal)
    (h : (runs.map StoredRun.queryRunId).Nodup) :
    ((op.statement t runs).map StoredRun.queryRunId).Nodup := by
  cases op with
  | recordTerminalRun row => exact Rows.nodup_upsert (fun _ _ => rfl) h
  | updateEvaluation evaluated evalJson trustJson =>
      exact Rows.nodup_updateWhere
        (f := .withEvaluation (evalJson.map t.dumps) (trustJson.map t.dumps)) (fun _ _ => rfl) h
  | fillLayerAEvaluationIfAbsent evaluated evalJson =>
      exact Rows.nodup_updateWhere (f := .withLayerA (evalJson.map t.dumps)) (fun _ _ => rfl) h
  | forgetAccount accountId =>
      exact Rows.nodup_updateWhere (f := StoredRun.withoutAccount) (fun _ _ => rfl) h

/-- An update that names its run, seen at one run. -/
theorem runOf_updateWhere {f : StoredRun → StoredRun}
    (hf : ∀ run, (f run).queryRunId = run.queryRunId) (evaluated queryRunId : Text)
    (p : StoredRun → Bool) (runs : RunTable) :
    runOf queryRunId
      (Rows.updateWhere (fun run => run.queryRunId = evaluated ∧ p run = true) f runs)
      = if evaluated = queryRunId then (runOf queryRunId runs).map fun run =>
          if p run then f run else run
        else runOf queryRunId runs := by
  unfold runOf
  rw [Rows.rowOf_updateWhere fun run _ => hf run]
  cases hrun : Rows.rowOf StoredRun.queryRunId queryRunId runs with
  | none => split_ifs <;> rfl
  | some run =>
      obtain ⟨-, rfl⟩ := Rows.rowOf_mem hrun
      by_cases hkey : evaluated = run.queryRunId
      · simp [hkey]
      · simp [hkey, Ne.symm hkey]

/-- A statement seen at one run. -/
theorem runOf_statement (op : RunHistoryOp Json Decimal) (queryRunId : Text) (runs : RunTable) :
    runOf queryRunId (op.statement t runs) = op.effect t queryRunId (runOf queryRunId runs) := by
  cases op with
  | recordTerminalRun row => exact Rows.rowOf_upsert (fun _ _ => rfl) queryRunId runs
  | updateEvaluation evaluated evalJson trustJson =>
      have hupdate :=
        runOf_updateWhere (f := .withEvaluation (evalJson.map t.dumps) (trustJson.map t.dumps))
        (fun _ => rfl) evaluated queryRunId (fun _ => true) runs
      simpa [RunHistoryOp.statement, RunHistoryOp.effect] using hupdate
  | fillLayerAEvaluationIfAbsent evaluated evalJson =>
      have hfill := runOf_updateWhere (f := .withLayerA (evalJson.map t.dumps))
        (fun _ => rfl) evaluated queryRunId (fun run => run.evalJson = none) runs
      simpa [RunHistoryOp.statement, RunHistoryOp.effect] using hfill
  | forgetAccount accountId =>
      have hkey : ∀ run : StoredRun, decide (run.accountId = some accountId) = true →
        StoredRun.queryRunId run.withoutAccount = StoredRun.queryRunId run := fun _ _ => rfl
      have hforget := Rows.rowOf_updateWhere hkey queryRunId runs
      simpa only [RunHistoryOp.statement, RunHistoryOp.effect, decide_eq_true_eq] using hforget

theorem runHistoryAfter_concat (writes : List (HistoryWrite Json Decimal))
    (write : HistoryWrite Json Decimal) :
    runHistoryAfter t (writes ++ [write]) = write.apply t (runHistoryAfter t writes) := by
  rw [runHistoryAfter, List.foldl_append]
  rfl

theorem nodup_runHistoryAfter (writes : List (HistoryWrite Json Decimal)) :
    ((runHistoryAfter t writes).map StoredRun.queryRunId).Nodup := by
  induction writes using List.reverseRecOn with
  | nil => exact List.nodup_nil
  | append_singleton writes write ih =>
      rw [runHistoryAfter_concat]
      by_cases hlands : write.Lands
      · rw [HistoryWrite.apply_eq, if_pos hlands]
        exact nodup_statement write.op ih
      · rw [HistoryWrite.apply_of_fault hlands]
        exact ih

/-- Where the row of a run after a write comes from. -/
theorem effect_cases {op : RunHistoryOp Json Decimal} {kept : Option StoredRun} {run : StoredRun}
    (h : op.effect t queryRunId kept = some run) :
    (∃ row, op = .recordTerminalRun row ∧ row.queryRunId = queryRunId ∧
      run = kept.elim (t.stored row) (·.onConflict (t.stored row))) ∨
    ∃ old, kept = some old ∧
      ((∃ evalJson trustJson, op = .updateEvaluation queryRunId evalJson trustJson ∧
          run = old.withEvaluation (evalJson.map t.dumps) (trustJson.map t.dumps)) ∨
        (∃ evalJson, op = .fillLayerAEvaluationIfAbsent queryRunId evalJson ∧ old.evalJson = none ∧
          run = old.withLayerA (evalJson.map t.dumps)) ∨
        (∃ accountId, op = .forgetAccount accountId ∧ old.accountId = some accountId ∧
          run = old.withoutAccount) ∨
        (run = old ∧ (∀ row, op = .recordTerminalRun row → row.queryRunId ≠ queryRunId) ∧
          (∀ evalJson trustJson, op ≠ .updateEvaluation queryRunId evalJson trustJson) ∧
          ∀ accountId, op = .forgetAccount accountId → old.accountId ≠ some accountId)) := by
  cases op with
  | recordTerminalRun row =>
      rw [RunHistoryOp.effect] at h
      split_ifs at h with hrun
      · exact .inl ⟨row, rfl, hrun, (Option.some.inj h).symm⟩
      · exact .inr ⟨run, h, .inr (.inr (.inr ⟨rfl, by simpa using hrun, by simp, by simp⟩))⟩
  | updateEvaluation evaluated evalJson trustJson =>
      rw [RunHistoryOp.effect] at h
      split_ifs at h with hrun
      · obtain ⟨old, hold, rfl⟩ := Option.map_eq_some_iff.mp h
        exact .inr ⟨old, hold, .inl ⟨evalJson, trustJson, by rw [hrun], rfl⟩⟩
      · exact .inr ⟨run, h, .inr (.inr (.inr ⟨rfl, by simp, by simp [hrun], by simp⟩))⟩
  | fillLayerAEvaluationIfAbsent evaluated evalJson =>
      rw [RunHistoryOp.effect] at h
      split_ifs at h with hrun
      · obtain ⟨old, hold, hfilled⟩ := Option.map_eq_some_iff.mp h
        split_ifs at hfilled with habsent
        · exact .inr ⟨old, hold, .inr (.inl ⟨evalJson, by rw [hrun], habsent, hfilled.symm⟩)⟩
        · exact .inr ⟨old, hold, .inr (.inr (.inr ⟨hfilled.symm, by simp, by simp, by simp⟩))⟩
      · exact .inr ⟨run, h, .inr (.inr (.inr ⟨rfl, by simp, by simp, by simp⟩))⟩
  | forgetAccount accountId =>
      obtain ⟨old, hold, hforgot⟩ := Option.map_eq_some_iff.mp h
      split_ifs at hforgot with haccount
      · exact .inr ⟨old, hold, .inr (.inr (.inl ⟨accountId, rfl, haccount, hforgot.symm⟩))⟩
      · exact .inr ⟨old, hold,
          .inr (.inr (.inr ⟨hforgot.symm, by simp, by simp, by simpa using haccount⟩))⟩

/-! ### What the table keeps -/

/-- The columns of a row that a terminal write sets, the account aside. -/
def StoredRun.metrics (run : StoredRun) : StoredRun :=
  { run with accountId := none, evalJson := none, trustJson := none }

variable (t) in
/-- The row has the metrics of the last terminal write of its run, and its account where no later
deletion took it. -/
def FromLastWrite (writes : List (HistoryWrite Json Decimal)) (run : StoredRun) : Prop :=
  ∃ before last later row, writes = before ++ last :: later ∧ last.Lands ∧
    last.op = .recordTerminalRun row ∧
    row.queryRunId = run.queryRunId ∧ (∀ write ∈ later, ¬write.Records run.queryRunId) ∧
    run.metrics = (t.stored row).metrics ∧
    ((run.accountId = row.accountId ∧ ∀ write ∈ later, ∀ accountId,
      row.accountId = some accountId → ¬write.Forgets accountId) ∨
      (run.accountId = none ∧ ∃ write ∈ later, ∃ accountId,
        row.accountId = some accountId ∧ write.Forgets accountId))

/-- The trust column of the last evaluation among `later`, that of the insert where there is
none. -/
def TrustAfter (t : RowTexts Json Decimal) (inserted : RunHistoryRow Json Decimal)
    (later : List (HistoryWrite Json Decimal)) (trustJson : Option Text) : Prop :=
  (trustJson = (t.stored inserted).trustJson ∧ ∀ write ∈ later,
    ¬write.Evaluates inserted.queryRunId) ∨
    ∃ before last rest evalJson given, later = before ++ last :: rest ∧ last.Lands ∧
      last.op = .updateEvaluation inserted.queryRunId evalJson given ∧
      (∀ write ∈ rest, ¬write.Evaluates inserted.queryRunId) ∧ trustJson = given.map t.dumps

variable (t) in
/-- The row has the trust column of the last evaluation after its first insert, or of that
insert. -/
def TrustFromLast (writes : List (HistoryWrite Json Decimal)) (run : StoredRun) : Prop :=
  ∃ before first later row, writes = before ++ first :: later ∧ first.Lands ∧
    first.op = .recordTerminalRun row ∧
    row.queryRunId = run.queryRunId ∧ (∀ write ∈ before, ¬write.Records run.queryRunId) ∧
    TrustAfter t row later run.trustJson

theorem runOf_runHistoryAfter_none {writes : List (HistoryWrite Json Decimal)}
    (h : runOf queryRunId (runHistoryAfter t writes) = none) : ∀ write ∈ writes,
      ¬write.Records queryRunId := by
  induction writes using List.reverseRecOn with
  | nil => exact fun _ hwrite => absurd hwrite List.not_mem_nil
  | append_singleton writes write ih =>
      rw [runHistoryAfter_concat, HistoryWrite.apply_eq] at h
      intro other hother
      rcases List.mem_append.mp hother with hother | hother
      · refine ih ?_ other hother
        split_ifs at h with hlands
        · rw [runOf_statement] at h
          cases hop : write.op with
          | recordTerminalRun row =>
              rw [hop, RunHistoryOp.effect] at h
              split_ifs at h
              exact h
          | updateEvaluation evaluated evalJson trustJson =>
              rw [hop, RunHistoryOp.effect] at h
              split_ifs at h
              · exact Option.map_eq_none_iff.mp h
              · exact h
          | fillLayerAEvaluationIfAbsent evaluated evalJson =>
              rw [hop, RunHistoryOp.effect] at h
              split_ifs at h
              · exact Option.map_eq_none_iff.mp h
              · exact h
          | forgetAccount accountId =>
              rw [hop, RunHistoryOp.effect] at h
              exact Option.map_eq_none_iff.mp h
        · exact h
      · rw [List.mem_singleton.mp hother]
        rintro ⟨hlands, row, hop, hrow⟩
        rw [if_pos hlands, runOf_statement, hop, RunHistoryOp.effect, if_pos hrow] at h
        cases h

section
variable {writes : List (HistoryWrite Json Decimal)} {run old : StoredRun}

theorem FromLastWrite.keep (h : FromLastWrite t writes old) (hid : run.queryRunId = old.queryRunId)
    (hrecords : ¬write.Records old.queryRunId)
    (hforgets : ∀ accountId, old.accountId = some accountId → ¬write.Forgets accountId)
    (hmetrics : run.metrics = old.metrics) (haccount : run.accountId = old.accountId) :
    FromLastWrite t (writes ++ [write]) run := by
  obtain ⟨before, last, later, row, rfl, hlands, hop, hrow, hlater, hold, hkept⟩ := h
  refine ⟨before, last, later ++ [write], row,
    by simp, hlands, hop, hrow.trans hid.symm, ?_, hmetrics.trans hold, ?_⟩
  · intro other hother
    rw [hid]
    rcases List.mem_append.mp hother with hother | hother
    · exact hlater other hother
    · exact List.mem_singleton.mp hother ▸ hrecords
  · rcases hkept with ⟨hkept, hnone⟩ | ⟨hkept, other, hother, hforgot⟩
    · refine .inl ⟨haccount.trans hkept, fun other hother accountId hof => ?_⟩
      rcases List.mem_append.mp hother with hother | hother
      · exact hnone other hother accountId hof
      · exact List.mem_singleton.mp hother ▸ hforgets accountId (hkept.trans hof)
    · exact .inr ⟨haccount.trans hkept, other, List.mem_append_left _ hother, hforgot⟩

theorem FromLastWrite.forget (h : FromLastWrite t writes old) {accountId : Text}
    (hforgets : write.Forgets accountId) (hold : old.accountId = some accountId) :
    FromLastWrite t (writes ++ [write]) old.withoutAccount := by
  obtain ⟨before, last, later, row, rfl, hlands, hop, hrow, hlater, hmetrics, hkept⟩ := h
  refine ⟨before, last, later ++ [write], row,
    by simp, hlands, hop, hrow, ?_, hmetrics, .inr ⟨rfl, write, by simp, ?_⟩⟩
  · intro other hother
    rcases List.mem_append.mp hother with hother | hother
    · exact hlater other hother
    · rintro ⟨-, found, hfound, -⟩
      rw [List.mem_singleton.mp hother, hforgets.2] at hfound
      cases hfound
  · rcases hkept with ⟨hkept, -⟩ | ⟨hkept, -⟩
    · exact ⟨accountId, hkept.symm.trans hold, hforgets⟩
    · exact absurd (hkept.symm.trans hold) (by simp)

theorem TrustAfter.keep {inserted : RunHistoryRow Json Decimal}
    {later : List (HistoryWrite Json Decimal)} {trustJson : Option Text}
    (h : TrustAfter t inserted later trustJson)
    (hevaluates : ¬write.Evaluates inserted.queryRunId) :
    TrustAfter t inserted (later ++ [write]) trustJson := by
  have hsingle : ∀ other ∈ [write], ¬other.Evaluates inserted.queryRunId := fun other hother =>
    List.mem_singleton.mp hother ▸ hevaluates
  rcases h with ⟨htrust, hnone⟩ | ⟨before, last, rest, evalJson, given, rfl, hlands,
    hop, hrest, htrust⟩
  · refine .inl ⟨htrust, fun other hother => ?_⟩
    rcases List.mem_append.mp hother with hother | hother
    · exact hnone other hother
    · exact hsingle other hother
  · refine .inr ⟨before, last, rest ++ [write], evalJson, given,
      by simp, hlands, hop, fun other hother => ?_, htrust⟩
    rcases List.mem_append.mp hother with hother | hother
    · exact hrest other hother
    · exact hsingle other hother

theorem TrustFromLast.keep (h : TrustFromLast t writes old) (hid : run.queryRunId = old.queryRunId)
    (hevaluates : ¬write.Evaluates old.queryRunId) (htrust : run.trustJson = old.trustJson) :
    TrustFromLast t (writes ++ [write]) run := by
  obtain ⟨before, first, later, row, rfl, hlands, hop, hrow, hbefore, hafter⟩ := h
  refine ⟨before, first, later ++ [write], row,
    by simp, hlands, hop, hrow.trans hid.symm, hid ▸ hbefore, ?_⟩
  rw [htrust]
  exact hafter.keep (hrow ▸ hevaluates)

theorem TrustFromLast.evaluate (h : TrustFromLast t writes old) (hlands : write.Lands)
    {evalJson trustJson : Option Json}
    (hop : write.op = .updateEvaluation old.queryRunId evalJson trustJson) :
    TrustFromLast t (writes ++ [write])
      (old.withEvaluation (evalJson.map t.dumps) (trustJson.map t.dumps)) := by
  obtain ⟨before, first, later, row, rfl, hfirst, hinsert, hrow, hbefore, -⟩ := h
  refine ⟨before, first, later ++ [write], row, by simp, hfirst, hinsert, hrow, hbefore, .inr ?_⟩
  exact ⟨later, write, [], evalJson, trustJson, rfl, hlands, hrow ▸ hop,
    fun _ hother => absurd hother List.not_mem_nil, rfl⟩

/-- A run's row after each write goes on as the write says. -/
theorem fromLast_runOf (writes : List (HistoryWrite Json Decimal)) (queryRunId : Text)
    {run : StoredRun} (h : runOf queryRunId (runHistoryAfter t writes) = some run) :
    FromLastWrite t writes run ∧ TrustFromLast t writes run := by
  induction writes using List.reverseRecOn generalizing run with
  | nil => cases h
  | append_singleton writes write ih =>
      rw [runHistoryAfter_concat] at h
      by_cases hlands : write.Lands
      · rw [HistoryWrite.apply_eq, if_pos hlands, runOf_statement] at h
        rcases effect_cases h with ⟨row, hop, hrow, hrun⟩ | ⟨old, hold, hcases⟩
        · have hid : row.queryRunId = run.queryRunId := by
            rw [hrun]
            cases hkept : runOf queryRunId (runHistoryAfter t writes) with
            | none => rfl
            | some kept => exact hrow.trans (Rows.rowOf_mem hkept).2.symm
          have hevaluates : ∀ queryRunId, ¬write.Evaluates queryRunId := by
            rintro found ⟨-, evalJson, trustJson, hfound⟩
            rw [hop] at hfound
            cases hfound
          refine ⟨⟨writes, write, [], row, rfl, hlands, hop, hid,
            fun _ hother => absurd hother List.not_mem_nil, ?_,
            .inl ⟨?_, fun _ hother => absurd hother List.not_mem_nil⟩⟩, ?_⟩
          · rw [hrun]
            cases hkept : runOf queryRunId (runHistoryAfter t writes) with
            | none => rfl
            | some kept =>
                have hkey : kept.queryRunId = row.queryRunId :=
                  (Rows.rowOf_mem hkept).2.trans hrow.symm
                simp only [Option.elim_some, StoredRun.onConflict, StoredRun.metrics,
                  RowTexts.stored, hkey]
          · rw [hrun]
            cases runOf queryRunId (runHistoryAfter t writes) <;> rfl
          · cases hkept : runOf queryRunId (runHistoryAfter t writes) with
            | none =>
                have hbefore : ∀ other ∈ writes, ¬other.Records row.queryRunId := by
                  rw [hrow]
                  exact runOf_runHistoryAfter_none hkept
                rw [hkept] at hrun
                subst hrun
                exact ⟨writes, write, [], row, rfl, hlands, hop, rfl, hbefore,
                  .inl ⟨rfl, fun _ hother => absurd hother List.not_mem_nil⟩⟩
            | some kept =>
                rw [hkept] at hrun
                subst hrun
                exact (ih hkept).2.keep rfl (hevaluates _) rfl
        · obtain ⟨-, hkey⟩ := Rows.rowOf_mem hold
          obtain ⟨hlast, htrust⟩ := ih hold
          rcases hcases with ⟨evalJson, trustJson, hop, rfl⟩ | ⟨evalJson, hop, -, rfl⟩ |
            ⟨accountId, hop, haccount, rfl⟩ |
            ⟨rfl, hrecords, hevaluates, hforgets⟩
          · refine ⟨hlast.keep rfl ?_ ?_ rfl rfl, htrust.evaluate hlands (hkey.symm ▸ hop)⟩
            · rintro ⟨-, row, hfound, -⟩
              cases hop.symm.trans hfound
            · rintro accountId - ⟨-, hfound⟩
              cases hop.symm.trans hfound
          · refine ⟨hlast.keep rfl ?_ ?_ rfl rfl, htrust.keep rfl ?_ rfl⟩
            · rintro ⟨-, row, hfound, -⟩
              cases hop.symm.trans hfound
            · rintro accountId - ⟨-, hfound⟩
              cases hop.symm.trans hfound
            · rintro ⟨-, found, trustJson, hfound⟩
              cases hop.symm.trans hfound
          · refine ⟨hlast.forget ⟨hlands, hop⟩ haccount, htrust.keep rfl ?_ rfl⟩
            rintro ⟨-, found, trustJson, hfound⟩
            cases hop.symm.trans hfound
          · refine ⟨hlast.keep rfl ?_ ?_ rfl rfl, htrust.keep rfl ?_ rfl⟩
            · rintro ⟨-, row, hfound, hrow⟩
              exact hrecords row hfound (hrow.trans hkey)
            · rintro accountId haccount ⟨-, hfound⟩
              exact hforgets accountId hfound haccount
            · rintro ⟨-, evalJson, trustJson, hfound⟩
              exact hevaluates evalJson trustJson (hkey ▸ hfound)
      · rw [HistoryWrite.apply_of_fault hlands] at h
        obtain ⟨hlast, htrust⟩ := ih h
        exact ⟨hlast.keep rfl (fun hrecords => hlands hrecords.1) (fun _ _ hforgets =>
          hlands hforgets.1) rfl rfl,
          htrust.keep rfl (fun hevaluates => hlands hevaluates.1) rfl⟩

end

/-- A row goes on to one row: its own, as the write leaves it. -/
theorem mem_apply (hrun : (runs.map StoredRun.queryRunId).Nodup) {run : StoredRun} (h : run ∈ runs)
    (write : HistoryWrite Json Decimal) :
    ∃ run' ∈ write.apply t runs, run'.queryRunId = run.queryRunId ∧
      (run' = run ∨ write.op.effect t run.queryRunId (some run) = some run') := by
  have hfound := Rows.rowOf_eq_some hrun h
  by_cases hlands : write.Lands
  · rw [HistoryWrite.apply_eq, if_pos hlands]
    have hleft := runOf_statement (t := t) write.op run.queryRunId runs
    rw [show runOf run.queryRunId runs = some run from hfound] at hleft
    have hsome : ∃ run', write.op.effect t run.queryRunId (some run) = some run' := by
      cases write.op with
      | recordTerminalRun row =>
          rw [RunHistoryOp.effect]
          split_ifs
          · exact ⟨_, rfl⟩
          · exact ⟨_, rfl⟩
      | updateEvaluation evaluated evalJson trustJson =>
          rw [RunHistoryOp.effect]
          split_ifs
          · exact ⟨_, rfl⟩
          · exact ⟨_, rfl⟩
      | fillLayerAEvaluationIfAbsent evaluated evalJson =>
          rw [RunHistoryOp.effect]
          split_ifs
          · exact ⟨_, rfl⟩
          · exact ⟨_, rfl⟩
      | forgetAccount accountId => exact ⟨_, rfl⟩
    obtain ⟨run', heffect⟩ := hsome
    obtain ⟨hmem, hkey⟩ := Rows.rowOf_mem (hleft.trans heffect)
    exact ⟨run', hmem, hkey, .inr heffect⟩
  · rw [HistoryWrite.apply_of_fault hlands]
    exact ⟨run, h, rfl, .inl rfl⟩

/-- A terminal write leaves every attached evaluation and verdict. -/
theorem recordTerminalRun_keeps (hruns : (runs.map StoredRun.queryRunId).Nodup) {run : StoredRun}
    (h : run ∈ runs) (row : RunHistoryRow Json Decimal) (faults : Faults Raised) :
    ∃ run' ∈ HistoryWrite.apply t ⟨.recordTerminalRun row, faults⟩ runs,
      run'.queryRunId = run.queryRunId ∧
      run'.evalJson = run.evalJson ∧ run'.trustJson = run.trustJson := by
  obtain ⟨run', hmem, hkey, rfl | heffect⟩ := mem_apply hruns h ⟨.recordTerminalRun row, faults⟩
  · exact ⟨run', hmem, rfl, rfl, rfl⟩
  · rw [RunHistoryOp.effect] at heffect
    split_ifs at heffect
    · cases heffect
      exact ⟨_, hmem, hkey, rfl, rfl⟩
    · cases heffect
      exact ⟨_, hmem, hkey, rfl, rfl⟩

/-- Filling Layer A leaves every verdict, and every evaluation that is there. -/
theorem fillLayerA_keeps (hruns : (runs.map StoredRun.queryRunId).Nodup) {run : StoredRun}
    (h : run ∈ runs) (evaluated : Text) (evalJson : Option Json) (faults : Faults Raised) :
    ∃ run' ∈ HistoryWrite.apply t ⟨.fillLayerAEvaluationIfAbsent evaluated evalJson, faults⟩ runs,
      run'.queryRunId = run.queryRunId ∧ run'.trustJson = run.trustJson ∧
        (run.evalJson ≠ none → run'.evalJson = run.evalJson) := by
  obtain ⟨run', hmem, hkey, rfl | heffect⟩ :=
    mem_apply hruns h ⟨.fillLayerAEvaluationIfAbsent evaluated evalJson, faults⟩
  · exact ⟨run', hmem, rfl, rfl, fun _ => rfl⟩
  · rw [RunHistoryOp.effect, Option.map_some] at heffect
    split_ifs at heffect with hrun habsent
    · cases heffect
      exact ⟨_, hmem, hkey, rfl, fun hattached => absurd habsent hattached⟩
    · cases heffect
      exact ⟨_, hmem, hkey, rfl, fun _ => rfl⟩
    · cases heffect
      exact ⟨_, hmem, hkey, rfl, fun _ => rfl⟩

/-- A persist whose verdict was suppressed leaves every verdict, and every evaluation that is
there. -/
theorem evaluationWrite_keeps {Suppression : Type} (hruns : (runs.map StoredRun.queryRunId).Nodup)
    {run : StoredRun} (h : run ∈ runs) {result : Option (Json × Json)} {suppression : Suppression}
    {op : RunHistoryOp Json Decimal}
    (hop : evaluationWrite queryRunId result (some suppression) = some op)
    (faults : Faults Raised) :
    ∃ run' ∈ HistoryWrite.apply t ⟨op, faults⟩ runs, run'.queryRunId = run.queryRunId ∧
      run'.trustJson = run.trustJson ∧ (run.evalJson ≠ none → run'.evalJson = run.evalJson) := by
  obtain ⟨⟨evalJson, trustJson⟩, -, rfl⟩ := Option.map_eq_some_iff.mp hop
  exact fillLayerA_keeps hruns h queryRunId (some evalJson) faults

/-- Whatever the writes and their order, a run that a terminal write recorded has one row, with the
metrics of its last terminal write and the verdict that was last attached to it. -/
theorem runHistory_keeps (t : RowTexts Json Decimal) (writes : List (HistoryWrite Json Decimal)) :
    ((runHistoryAfter t writes).map StoredRun.queryRunId).Nodup ∧
    (∀ write ∈ writes, ∀ queryRunId, write.Records queryRunId →
      ∃ run ∈ runHistoryAfter t writes, run.queryRunId = queryRunId) ∧
    (∀ run ∈ runHistoryAfter t writes, FromLastWrite t writes run ∧ TrustFromLast t writes run) ∧
    (∀ run ∈ runHistoryAfter t writes, ∀ row faults,
      ∃ run' ∈ HistoryWrite.apply t ⟨.recordTerminalRun row, faults⟩ (runHistoryAfter t writes),
        run'.queryRunId = run.queryRunId ∧ run'.evalJson = run.evalJson ∧
          run'.trustJson = run.trustJson) ∧
    ∀ run ∈ runHistoryAfter t writes, ∀ evaluated evalJson faults,
      ∃ run' ∈ HistoryWrite.apply t ⟨.fillLayerAEvaluationIfAbsent evaluated evalJson, faults⟩
        (runHistoryAfter t writes),
        run'.queryRunId = run.queryRunId ∧ run'.trustJson = run.trustJson ∧
          (run.evalJson ≠ none → run'.evalJson = run.evalJson) := by
  have hruns := nodup_runHistoryAfter (t := t) writes
  refine ⟨hruns, ?_, ?_, ?_, ?_⟩
  · intro write hwrite queryRunId hrecords
    cases hrun : runOf queryRunId (runHistoryAfter t writes) with
    | none => exact absurd hrecords (runOf_runHistoryAfter_none hrun write hwrite)
    | some run => exact ⟨run, Rows.rowOf_mem hrun⟩
  · intro run hrun
    exact fromLast_runOf writes run.queryRunId (Rows.rowOf_eq_some hruns hrun)
  · intro run hrun row faults
    exact recordTerminalRun_keeps hruns hrun row faults
  · intro run hrun evaluated evalJson faults
    exact fillLayerA_keeps hruns hrun evaluated evalJson faults

/-! ### A run whose account was deleted -/

def plainTexts : RowTexts Text Text := ⟨id, fun _ => "[]".toList, id⟩

def finishedRun : RunHistoryRow Text Text where
  queryRunId := "run".toList
  accountId := some "account".toList
  correlationId := "correlation".toList
  status := "completed".toList
  createdAt := ⟨0, instants_pos⟩
  completedAt := ⟨0, instants_pos⟩
  elapsedTimeMs := 0
  modelIds := []
  demoMode := true
  liveCount := 0
  localCount := 0
  materialClaimCount := 0
  agreementAligned := 0
  agreementTotal := 0
  citationRatio := none
  costSource := "estimate".toList
  estimatedCostUsd := "0".toList
  actualCostUsd := "0".toList
  failedSteps := []
  missingSteps := []
  evalJson := none
  trustJson := none

/-- The columns that the upsert sets on a conflict are not those of the last terminal write once the
account is deleted. -/
theorem forgotten_run_differs :
    ∃ run ∈ runHistoryAfter plainTexts [⟨.recordTerminalRun finishedRun, fun _ => none⟩,
        ⟨.forgetAccount "account".toList, fun _ => none⟩],
      run.queryRunId = finishedRun.queryRunId ∧
      run.onConflict (plainTexts.stored finishedRun) ≠ run := by
  refine ⟨(plainTexts.stored finishedRun).withoutAccount, List.mem_singleton.mpr rfl,
    rfl, fun h => ?_⟩
  have haccount := congrArg StoredRun.accountId h
  cases haccount

end Quorum
