import Mathlib.Data.Prod.Lex
import Quorum.BaseNewest
import Quorum.SessionStore

/-! The history of the signed-in accounts. Its keep rules, the newest runs of an account and none
too old, are in the statements of the save, of the read and of the sweep; the sweep removes only
what no read shows. -/

namespace Quorum

open IsoTime Transaction

/-! ### The statements -/

/-- The columns that the history is ordered by. -/
def HistoryRow.position (row : HistoryRow) : Text ×ₗ Text := toLex (row.completedAt, row.queryRunId)

/-- `ORDER BY completed_at DESC, query_run_id DESC`. -/
def newestFirst (rows : List HistoryRow) : List HistoryRow := Newest.sorted HistoryRow.position rows

/-- Insert the row of a run where its account has a row. The run's row is updated where it is the
account's. -/
def upsertHistory (row : HistoryRow) (db : SessionDb) : Unit × SessionDb :=
  if ¬db.accounts.any fun account => account.accountId = row.accountId then ((), db)
  else if db.history.any fun other => other.queryRunId = row.queryRunId then
    ((), { db with history := db.history.map fun other =>
      if other.queryRunId = row.queryRunId ∧ other.accountId = row.accountId then row else other })
  else ((), { db with history := db.history ++ [row] })

/-- `DELETE FROM history WHERE ...`, with the number of rows that went. -/
def deleteHistory (goes : HistoryRow → Bool) (db : SessionDb) : ℕ × SessionDb :=
  (db.history.countP goes, { db with history := db.history.filter fun row => ¬goes row })

/-- `query_run_id NOT IN (SELECT ... ORDER BY ... LIMIT ?)` of the account. -/
def beyondNewest (accountId : Uuid) (keepCount : ℕ) (rows : List HistoryRow)
    (row : HistoryRow) : Bool :=
  row.accountId = accountId ∧
    row.queryRunId ∉ ((newestFirst (rows.filter fun other =>
      other.accountId = accountId)).take keepCount).map
      HistoryRow.queryRunId

/-- `ROW_NUMBER() OVER (PARTITION BY account_id ORDER BY ...)`. -/
def rowNumber (rows : List HistoryRow) (row : HistoryRow) : ℕ :=
  (newestFirst (rows.filter fun other => other.accountId = row.accountId)).idxOf row + 1

/-- `query_run_id IN (SELECT query_run_id FROM (...) WHERE place > ?)`. -/
def placedBeyond (keepCount : ℕ) (rows : List HistoryRow) (row : HistoryRow) : Bool :=
  row.queryRunId ∈ (rows.filter fun other => rowNumber rows other > keepCount).map
    HistoryRow.queryRunId

/-! ### The operations -/

/-- A finished run of an account. -/
structure HistoryEntry where
  queryRunId : Text
  accountId : Uuid
  question : Text
  status : Text
  mode : Text
  modelCount : ℕ
  costUsd : Usd
  completedAt : Instant
  verdict : Option Text

def HistoryEntry.row (entry : HistoryEntry) : HistoryRow where
  queryRunId := entry.queryRunId
  accountId := entry.accountId
  question := entry.question
  status := entry.status
  mode := entry.mode
  modelCount := entry.modelCount
  costUsd := entry.costUsd
  completedAt := isoformat entry.completedAt
  verdict := entry.verdict

/-- The entry of a row, none where its time does not parse. -/
def HistoryRow.entry (row : HistoryRow) : Option HistoryEntry :=
  (fromisoformat row.completedAt).map fun completedAt =>
    { queryRunId := row.queryRunId
      accountId := row.accountId
      question := row.question
      status := row.status
      mode := row.mode
      modelCount := row.modelCount
      costUsd := row.costUsd
      completedAt := completedAt
      verdict := row.verdict }

/-- The text before which a run is too old. -/
def historyCutoff (keepDays : ℕ) (now : Instant) : Text :=
  isoformat (now.back (keepDays * microsPerDay))

def recordHistory (handle : StoreHandle) (faults : SqlFaults) (entry : HistoryEntry)
    (keepCount keepDays : ℕ) (now : Instant) : Sql Bool :=
  if ¬handle.historyReady ∨ handle.closed then pure false
  else
    recover isSqliteError false <| transaction faults 4 do
      execute faults 1 (upsertHistory entry.row)
      let _ ← execute faults 2 (deleteHistory fun row =>
        row.accountId = entry.accountId ∧ row.completedAt < historyCutoff keepDays now)
      let _ ← execute faults 3 fun db =>
          deleteHistory (beyondNewest entry.accountId keepCount db.history) db
      return .commit true

/-- The rows that a read shows. -/
def shownHistory (accountId : Uuid) (keepCount keepDays : ℕ) (now : Instant) (db : SessionDb) :
    List HistoryRow :=
  (newestFirst (db.history.filter fun row =>
    row.accountId = accountId ∧ historyCutoff keepDays now ≤ row.completedAt)).take keepCount

/-- The entries of the rows that were read. A time that does not parse raises. -/
def decodeHistory : Option (List HistoryRow) → Sql (Option (List HistoryEntry))
  | none => return none
  | some rows =>
      match rows.mapM HistoryRow.entry with
      | none => throw .valueError
      | some entries => return some entries

/-- The account's history, newest first; none when it could not be read. -/
def historyFor (handle : StoreHandle) (faults : SqlFaults) (accountId : Uuid)
    (keepCount keepDays : ℕ) (now : Instant) : Sql (Option (List HistoryEntry)) :=
  if ¬handle.historyReady ∨ handle.closed then pure none
  else do
    let rows ← recover isSqliteError none
      (execute faults 0 fun db => (some (shownHistory accountId keepCount keepDays now db), db))
    decodeHistory rows

/-- Some row is too old, or some account has too many. -/
def historyDue (keepCount keepDays : ℕ) (now : Instant) (db : SessionDb) : Bool :=
  (db.history.any fun row => row.completedAt < historyCutoff keepDays now) ||
    db.history.any fun row => keepCount < db.history.countP fun other =>
      other.accountId = row.accountId

/-- The statements of the sweep. Statement 4 is the read that comes first. -/
def sweepLocked (faults : SqlFaults) (keepCount keepDays : ℕ) (now : Instant) : Sql (ℕ × ℕ) := do
  let due ← execute faults 4 fun db => (historyDue keepCount keepDays now db, db)
  if due then
    transaction faults 3 do
      let aged ← execute faults 1 (deleteHistory fun row =>
          row.completedAt < historyCutoff keepDays now)
      let beyond ← execute faults 2 fun db => deleteHistory (placedBeyond keepCount db.history) db
      return .commit (aged, beyond)
  else return (0, 0)

/-- The rows that went, too old and too many. -/
def sweepHistory (handle : StoreHandle) (faults : SqlFaults) (keepCount keepDays : ℕ)
    (now : Instant) : Sql (ℕ × ℕ) :=
  if ¬handle.historyReady ∨ handle.closed then pure (0, 0)
  else recover isSqliteError (0, 0) (sweepLocked faults keepCount keepDays now)

/-! ### The keep rule -/

/-- `query_run_id` is the primary key. -/
def SessionDb.KeyedHistory (db : SessionDb) : Prop := Newest.Keyed HistoryRow.queryRunId db.history

/-- The rows of an account that are not too old. -/
def currentHistory (accountId : Uuid) (keepDays : ℕ) (now : Instant) (rows : List HistoryRow) :
    List HistoryRow :=
  rows.filter fun row => row.accountId = accountId ∧ historyCutoff keepDays now ≤ row.completedAt

section
variable {rows : List HistoryRow} {accountId : Uuid} {keepCount keepDays : ℕ} {now : Instant}

theorem keyed_position (h : Newest.Keyed HistoryRow.queryRunId rows) :
    Newest.Keyed HistoryRow.position rows := by
  apply List.Nodup.of_map fun position : Text ×ₗ Text => (ofLex position).2
  rw [List.map_map]
  exact h

theorem mem_map_queryRunId {kept : List HistoryRow} (h : Newest.Keyed HistoryRow.queryRunId rows)
    (hkept : ∀ row ∈ kept, row ∈ rows) {row : HistoryRow} (hrow : row ∈ rows) :
    row.queryRunId ∈ kept.map HistoryRow.queryRunId ↔ row ∈ kept := by
  constructor
  · intro hmem
    obtain ⟨other, hother, heq⟩ := List.mem_map.mp hmem
    rw [← h.eq (hkept other hother) hrow heq]
    exact hother
  · exact List.mem_map_of_mem

theorem mem_of_mem_newest {k : ℕ} {row : HistoryRow}
    (h : row ∈ Newest.newest HistoryRow.position k rows) :
    row ∈ rows := (Newest.sorted_perm rows).subset (List.mem_of_mem_take h)

/-- The row beyond the newest of its account, as the save has it. -/
theorem beyondNewest_iff (h : Newest.Keyed HistoryRow.queryRunId rows) {row : HistoryRow}
    (hrow : row ∈ rows) (haccount : row.accountId = accountId) :
    beyondNewest accountId keepCount rows row ↔
      row ∉ Newest.newest HistoryRow.position keepCount (rows.filter fun other =>
        other.accountId = accountId) := by
  rw [beyondNewest, decide_eq_true_eq, ← mem_map_queryRunId h (fun other hother => ?_) hrow]
  · exact ⟨And.right, fun hnot => ⟨haccount, hnot⟩⟩
  · exact List.mem_of_mem_filter (mem_of_mem_newest hother)

/-- And as the sweep has it. -/
theorem placedBeyond_iff (h : Newest.Keyed HistoryRow.queryRunId rows) {row : HistoryRow}
    (hrow : row ∈ rows) :
    placedBeyond keepCount rows row ↔
      row ∉ Newest.newest HistoryRow.position keepCount
        (rows.filter fun other => other.accountId = row.accountId) := by
  have hmem : row ∈ Newest.sorted HistoryRow.position (rows.filter fun other =>
      other.accountId = row.accountId) :=
    (Newest.sorted_perm _).mem_iff.mpr (List.mem_filter.mpr ⟨hrow, decide_eq_true rfl⟩)
  rw [placedBeyond, decide_eq_true_eq,
    mem_map_queryRunId h (fun other hother => List.mem_of_mem_filter hother) hrow, List.mem_filter,
    decide_eq_true_eq, rowNumber, Newest.newest, List.mem_take_iff_idxOf_lt hmem]
  show _ ∧ keepCount < _ + 1 ↔ ¬(newestFirst _).idxOf row < keepCount
  rw [Nat.lt_succ_iff, not_lt]
  exact ⟨And.right, fun hplace => ⟨hrow, hplace⟩⟩

end

/-! ### The three statements of the rule -/

section
variable {rows : List HistoryRow} {accountId : Uuid} {keepCount keepDays : ℕ} {now : Instant}

/-- What the rule keeps of an account. -/
def keptHistory (accountId : Uuid) (keepCount keepDays : ℕ) (now : Instant)
    (rows : List HistoryRow) : List HistoryRow :=
  (currentHistory accountId keepDays now rows).filter fun row =>
    row ∈ Newest.newest HistoryRow.position keepCount (currentHistory accountId keepDays now rows)

theorem keyed_current (h : Newest.Keyed HistoryRow.queryRunId rows) (accountId : Uuid)
    (keepDays : ℕ) (now : Instant) :
    Newest.Keyed HistoryRow.position (currentHistory accountId keepDays now rows) :=
  keyed_position (h.sublist List.filter_sublist)

/-- The rule keeps the newest rows of the account that are not too old. -/
theorem keptHistory_perm (h : Newest.Keyed HistoryRow.queryRunId rows) :
    (keptHistory accountId keepCount keepDays now rows).Perm
      (Newest.newest HistoryRow.position keepCount (currentHistory accountId keepDays now rows)) :=
  (keyed_current h accountId keepDays now).filter_newest_perm keepCount

theorem ownHistory_of_aged (rows : List HistoryRow) :
    (rows.filter fun row =>
      ¬(decide (row.accountId = accountId ∧
        row.completedAt < historyCutoff keepDays now) = true)).filter
        (fun row => row.accountId = accountId)
      = currentHistory accountId keepDays now rows := by
  rw [List.filter_filter, currentHistory]
  refine List.filter_congr fun row _ => ?_
  by_cases haccount : row.accountId = accountId <;> simp [haccount]

theorem currentHistory_of_aged (rows : List HistoryRow) :
    (rows.filter fun row => ¬(decide (row.completedAt < historyCutoff keepDays now) = true)).filter
        (fun row => row.accountId = accountId)
      = currentHistory accountId keepDays now rows := by
  rw [List.filter_filter, currentHistory]
  refine List.filter_congr fun row _ => ?_
  by_cases haccount : row.accountId = accountId <;> simp [haccount]

/-- The two deletes of the save leave what the rule keeps of its account. -/
theorem savedHistory_own (h : Newest.Keyed HistoryRow.queryRunId rows) {aged : List HistoryRow}
    (haged : aged = rows.filter fun row =>
      ¬(decide (row.accountId = accountId ∧ row.completedAt < historyCutoff keepDays now) = true)) :
    (aged.filter fun row => ¬(beyondNewest accountId keepCount aged row = true)).filter
        (fun row => row.accountId = accountId)
      = keptHistory accountId keepCount keepDays now rows := by
  have hkeyed : Newest.Keyed HistoryRow.queryRunId aged := haged ▸ h.sublist List.filter_sublist
  have hown : (aged.filter fun row => row.accountId = accountId) = currentHistory accountId
      keepDays now rows :=
    haged ▸ ownHistory_of_aged rows
  rw [List.filter_comm, hown, keptHistory]
  refine List.filter_congr fun row hrow => ?_
  rw [← hown] at hrow
  obtain ⟨hmem, haccount⟩ := List.mem_filter.mp hrow
  rw [decide_eq_decide, beyondNewest_iff hkeyed hmem (of_decide_eq_true haccount), not_not, hown]

/-- And the two deletes of the sweep, of every account. -/
theorem sweptHistory_own (h : Newest.Keyed HistoryRow.queryRunId rows) {aged : List HistoryRow}
    (haged : aged = rows.filter fun row =>
      ¬(decide (row.completedAt < historyCutoff keepDays now) = true))
    (accountId : Uuid) :
    (aged.filter fun row => ¬(placedBeyond keepCount aged row = true)).filter (fun row =>
      row.accountId = accountId)
      = keptHistory accountId keepCount keepDays now rows := by
  have hkeyed : Newest.Keyed HistoryRow.queryRunId aged := haged ▸ h.sublist List.filter_sublist
  have hown : (aged.filter fun row => row.accountId = accountId) = currentHistory accountId
      keepDays now rows :=
    haged ▸ currentHistory_of_aged rows
  rw [List.filter_comm, hown, keptHistory]
  refine List.filter_congr fun row hrow => ?_
  rw [← hown] at hrow
  obtain ⟨hmem, haccount⟩ := List.mem_filter.mp hrow
  rw [decide_eq_decide, placedBeyond_iff hkeyed hmem, not_not, of_decide_eq_true haccount, hown]

/-- What the rule keeps reads as before. -/
theorem shownHistory_of_kept {db db' : SessionDb} (h : db.KeyedHistory)
    (hkept : (db'.history.filter fun row => row.accountId = accountId)
      = keptHistory accountId keepCount keepDays now db.history) :
    shownHistory accountId keepCount keepDays now db'
      = shownHistory accountId keepCount keepDays now db := by
  have hcurrent : currentHistory accountId keepDays now db'.history
      = keptHistory accountId keepCount keepDays now db.history := by
    have hsplit : currentHistory accountId keepDays now db'.history
        = (db'.history.filter fun row => row.accountId = accountId).filter
          fun row => historyCutoff keepDays now ≤ row.completedAt := by
      rw [List.filter_filter, currentHistory]
      exact List.filter_congr fun row _ => by rw [Bool.decide_and, Bool.and_comm]
    rw [hsplit, hkept, List.filter_eq_self]
    intro row hrow
    exact decide_eq_true (of_decide_eq_true (List.mem_filter.mp (List.mem_of_mem_filter hrow)).2).2
  have hnewest := (keyed_current h accountId keepDays now).newest_prune (k := keepCount)
    (@keptHistory_perm _ accountId keepCount keepDays now h)
  rw [← hcurrent] at hnewest
  exact hnewest

end

/-! ### What the operations do -/

section
variable {db : SessionDb} {handle : StoreHandle} {faults : SqlFaults} {entry : HistoryEntry}
  {keepCount keepDays : ℕ} {now : Instant}

/-- The rows after a save. -/
def savedHistory (entry : HistoryEntry) (keepCount keepDays : ℕ) (now : Instant) (db : SessionDb) :
    List HistoryRow :=
  let aged := (upsertHistory entry.row db).2.history.filter fun row =>
    ¬(decide (row.accountId = entry.accountId ∧
      row.completedAt < historyCutoff keepDays now) = true)
  aged.filter fun row => ¬(beyondNewest entry.accountId keepCount aged row = true)

/-- The rows after a sweep. -/
def sweptHistory (keepCount keepDays : ℕ) (now : Instant) (rows : List HistoryRow) :
    List HistoryRow :=
  let aged := rows.filter fun row => ¬(decide (row.completedAt < historyCutoff keepDays now) = true)
  aged.filter fun row => ¬(placedBeyond keepCount aged row = true)

theorem answered_recover_error {α : Type} {fallback : α} {x : Sql α} {raised : Raised}
    {db : SessionDb} (h : x db = .error raised db) :
    answered (recover isSqliteError fallback x) db = some fallback ∨
      answered (recover isSqliteError fallback x) db = none := by
  rw [answered]
  rcases recover_error isSqliteError fallback h with hrun | hrun
  · rw [hrun]
    exact .inl rfl
  · rw [hrun]
    exact .inr rfl

/-- A save reports failure, or raises, and changes nothing, or it reports that it wrote and both
deletes are done. -/
theorem recordHistory_cases (handle : StoreHandle) (faults : SqlFaults) (entry : HistoryEntry)
    (keepCount keepDays : ℕ) (now : Instant) (db : SessionDb) :
    answered (recordHistory handle faults entry keepCount keepDays now) db ≠ some true ∧
        after (recordHistory handle faults entry keepCount keepDays now) db = db ∨
      answered (recordHistory handle faults entry keepCount keepDays now) db = some true ∧
        after (recordHistory handle faults entry keepCount keepDays now) db
          = { db with history := savedHistory entry keepCount keepDays now db } := by
  rw [recordHistory]
  split_ifs with hready
  · exact .inl ⟨fun hyes => Bool.false_ne_true (Option.some.inj hyes), rfl⟩
  · rw [after_recover]
    rcases transaction_cases faults 4 (do
        execute faults 1 (upsertHistory entry.row)
        let _ ← execute faults 2 (deleteHistory fun row =>
          row.accountId = entry.accountId ∧ row.completedAt < historyCutoff keepDays now)
        let _ ← execute faults 3 fun db =>
            deleteHistory (beyondNewest entry.accountId keepCount db.history) db
        return Finish.commit true) db with ⟨raised, hrun⟩ | ⟨answer, db', hbody, hrun⟩ | ⟨answer,
          db', hbody, hrun⟩
    · refine .inl ⟨?_, after_of_error hrun⟩
      rcases @answered_recover_error _ false _ _ _ hrun with hanswer | hanswer
      · rw [hanswer]
        decide
      · rw [hanswer]
        decide
    all_goals
      obtain ⟨_, db₁, hupsert, hbody⟩ := bind_ok hbody
      obtain ⟨_, db₂, haged, hbody⟩ := bind_ok hbody
      obtain ⟨_, db₃, hbeyond, hbody⟩ := bind_ok hbody
      obtain ⟨hanswer, hdone⟩ := pure_ok hbody
    · cases hanswer
    · cases hanswer
      refine .inr ⟨by rw [answered, recover_ok hrun], ?_⟩
      rw [after_of_ok hrun, hdone, (execute_ok hbeyond).2, (execute_ok haged).2,
        (execute_ok hupsert).2]
      have haccounts : ∀ row db,
          (upsertHistory row db).2 = { db with history := (upsertHistory row db).2.history } := by
        intro row db
        rw [upsertHistory]
        split_ifs <;> rfl
      rw [haccounts]
      rfl

theorem filter_of_countP_eq_zero {rows : List HistoryRow} {goes : HistoryRow → Bool}
    (h : rows.countP goes = 0) :
    (rows.filter fun row => ¬(goes row = true)) = rows := by
  rw [List.filter_eq_self]
  exact fun row hrow => decide_eq_true (List.countP_eq_zero.mp h row hrow)

/-- The statements of a sweep change nothing, or both deletes are done and counted. -/
theorem sweepLocked_cases (faults : SqlFaults) (keepCount keepDays : ℕ) (now : Instant)
    (db : SessionDb) :
    (∃ raised, sweepLocked faults keepCount keepDays now db = .error raised db) ∨
      sweepLocked faults keepCount keepDays now db = .ok (0, 0) db ∨
      ∃ counts, sweepLocked faults keepCount keepDays now db
          = .ok counts { db with history := sweptHistory keepCount keepDays now db.history } ∧
        (counts = (0, 0) → sweptHistory keepCount keepDays now db.history = db.history) := by
  rw [sweepLocked]
  cases hfault : faults 4 with
  | some raised =>
      have hdue : execute faults 4 (fun db : SessionDb =>
          (historyDue keepCount keepDays now db, db)) db
          = .error raised db := by
        rw [execute, hfault]
      exact .inl ⟨raised, bind_of_error _ hdue⟩
  | none =>
      have hdue : execute faults 4 (fun db : SessionDb =>
          (historyDue keepCount keepDays now db, db)) db
          = .ok (historyDue keepCount keepDays now db) db := by
        rw [execute, hfault]
      rw [bind_of_ok _ hdue]
      by_cases hdueNow : historyDue keepCount keepDays now db = true
      · rw [if_pos hdueNow]
        rcases transaction_cases faults 3 (do
            let aged ← execute faults 1 (deleteHistory fun row =>
                row.completedAt < historyCutoff keepDays now)
            let beyond ← execute faults 2 fun db =>
                deleteHistory (placedBeyond keepCount db.history) db
            return Finish.commit (aged, beyond)) db with
          ⟨raised, hrun⟩ | ⟨counts, db', hbody, hrun⟩ | ⟨counts, db', hbody, hrun⟩
        · exact .inl ⟨raised, hrun⟩
        all_goals
          obtain ⟨aged, db₁, haged, hbody⟩ := bind_ok hbody
          obtain ⟨beyond, db₂, hbeyond, hbody⟩ := bind_ok hbody
          obtain ⟨hanswer, hdone⟩ := pure_ok hbody
        · cases hanswer
        · cases hanswer
          obtain ⟨hcount, rfl⟩ := execute_ok haged
          obtain ⟨hcount', rfl⟩ := execute_ok hbeyond
          refine .inr (.inr ⟨(aged, beyond), by rw [hrun, hdone]; rfl, fun hzero => ?_⟩)
          obtain ⟨rfl, rfl⟩ := Prod.mk.inj hzero
          have hsame := filter_of_countP_eq_zero hcount.symm
          have hsame' := filter_of_countP_eq_zero hcount'.symm
          exact hsame'.trans hsame
      · rw [if_neg hdueNow]
        exact .inr (.inl rfl)

/-- A sweep changes nothing, or does both its deletes and reports how many rows went. -/
theorem sweepHistory_cases (handle : StoreHandle) (faults : SqlFaults) (keepCount keepDays : ℕ)
    (now : Instant) (db : SessionDb) :
    after (sweepHistory handle faults keepCount keepDays now) db = db ∨
      ∃ counts, answered (sweepHistory handle faults keepCount keepDays now) db = some counts ∧
        after (sweepHistory handle faults keepCount keepDays now) db
          = { db with history := sweptHistory keepCount keepDays now db.history } ∧
        (counts = (0, 0) → sweptHistory keepCount keepDays now db.history = db.history) := by
  rw [sweepHistory]
  split_ifs with hready
  · exact .inl rfl
  · rw [after_recover]
    rcases sweepLocked_cases faults keepCount keepDays now db with ⟨raised, hrun⟩ | hrun |
      ⟨counts, hrun, hzero⟩
    · exact .inl (after_of_error hrun)
    · exact .inl (after_of_ok hrun)
    · exact .inr ⟨counts, by rw [answered, recover_ok hrun], after_of_ok hrun, hzero⟩

/-! ### The write of a save -/

/-- A save writes the rows of its account alone. -/
theorem upsertHistory_others (row : HistoryRow) (db : SessionDb) :
    (upsertHistory row db).2.history.filter (fun other => other.accountId ≠ row.accountId)
      = db.history.filter fun other => other.accountId ≠ row.accountId := by
  rw [upsertHistory]
  split_ifs with haccount hrun
  · dsimp only
    induction db.history with
    | nil => rfl
    | cons first rest ih =>
        rw [List.map_cons, List.filter_cons, List.filter_cons, ih]
        by_cases hsame : first.queryRunId = row.queryRunId ∧ first.accountId = row.accountId
        · rw [if_pos hsame]
          simp [hsame.2]
        · rw [if_neg hsame]
  · dsimp only
    rw [List.filter_append, List.filter_singleton]
    simp
  · rfl

theorem upsertHistory_keyed {row : HistoryRow} {db : SessionDb} (h : db.KeyedHistory) :
    (upsertHistory row db).2.KeyedHistory := by
  rw [upsertHistory]
  split_ifs with haccount hrun
  · have hids : (db.history.map fun other =>
        if other.queryRunId = row.queryRunId ∧
          other.accountId = row.accountId then row else other).map
          HistoryRow.queryRunId = db.history.map HistoryRow.queryRunId := by
      rw [List.map_map]
      refine List.map_congr_left fun other _ => ?_
      show (if _ then row else other).queryRunId = other.queryRunId
      split_ifs with hsame
      · exact hsame.1.symm
      · rfl
    unfold SessionDb.KeyedHistory Newest.Keyed
    rw [hids]
    exact h
  · unfold SessionDb.KeyedHistory Newest.Keyed
    rw [List.map_append, List.map_singleton, List.nodup_append]
    refine ⟨h, List.nodup_singleton _, fun id hid other hother heq => hrun ?_⟩
    rw [List.mem_singleton] at hother
    obtain ⟨found, hfound, rfl⟩ := List.mem_map.mp hid
    exact List.any_eq_true.mpr ⟨found, hfound, decide_eq_true (heq.trans hother)⟩
  · exact h

/-- A known account's row is in the table after its insert, if its run is not another account's. -/
theorem mem_upsertHistory {row : HistoryRow} {db : SessionDb}
    (haccount : ∃ account ∈ db.accounts, account.accountId = row.accountId)
    (hown : ∀ other ∈ db.history,
      other.queryRunId = row.queryRunId → other.accountId = row.accountId) :
    row ∈ (upsertHistory row db).2.history := by
  obtain ⟨account, hmem, hid⟩ := haccount
  have hknown : (db.accounts.any fun account => account.accountId = row.accountId) = true :=
    List.any_eq_true.mpr ⟨account, hmem, decide_eq_true hid⟩
  rw [upsertHistory, if_neg (not_not.mpr hknown)]
  split_ifs with hrun
  · obtain ⟨other, hother, hsame⟩ := List.any_eq_true.mp hrun
    have hreplaced := of_decide_eq_true hsame
    exact List.mem_map.mpr ⟨other, hother, if_pos ⟨hreplaced, hown other hother hreplaced⟩⟩
  · exact List.mem_append_right _ (List.mem_singleton_self row)

theorem upsertHistory_unknown {row : HistoryRow} {db : SessionDb}
    (h : ∀ account ∈ db.accounts, account.accountId ≠ row.accountId) :
    (upsertHistory row db).2 = db := by
  rw [upsertHistory, if_pos]
  rw [List.any_eq_true]
  rintro ⟨account, hmem, hid⟩
  exact h account hmem (of_decide_eq_true hid)

/-- A save leaves the rows of the other accounts. -/
theorem savedHistory_others (entry : HistoryEntry) (keepCount keepDays : ℕ) (now : Instant)
    (db : SessionDb) :
    (savedHistory entry keepCount keepDays now db).filter (fun row =>
      row.accountId ≠ entry.accountId)
      = db.history.filter fun row => row.accountId ≠ entry.accountId := by
  refine Eq.trans ?_ (upsertHistory_others entry.row db)
  rw [savedHistory, List.filter_filter, List.filter_filter]
  refine List.filter_congr fun row _ => ?_
  by_cases haccount : row.accountId = entry.accountId
  · simp [haccount, HistoryEntry.row]
  · simp [haccount, beyondNewest, HistoryEntry.row]

end

/-! ### The rules together -/

theorem decodeHistory_reads (rows : Option (List HistoryRow)) (db : SessionDb) :
    after (decodeHistory rows) db = db ∧ ∀ db',
      answered (decodeHistory rows) db' = answered (decodeHistory rows) db := by
  cases rows with
  | none => exact ⟨rfl, fun _ => rfl⟩
  | some rows =>
      rw [decodeHistory]
      cases rows.mapM HistoryRow.entry with
      | none => exact ⟨rfl, fun _ => rfl⟩
      | some entries => exact ⟨rfl, fun _ => rfl⟩

/-- The read of the rows answers them, or none, or raises, and changes nothing. -/
theorem readHistory_cases (faults : SqlFaults) :
    (∀ (shown : SessionDb → List HistoryRow) db,
        recover isSqliteError none (execute faults 0 fun db => (some (shown db), db)) db = .ok
          (some (shown db)) db) ∨
      (∀ (shown : SessionDb → List HistoryRow) db,
        recover isSqliteError none (execute faults 0 fun db => (some (shown db), db))
          db = .ok none db) ∨
      ∃ raised, ∀ (shown : SessionDb → List HistoryRow) db,
        recover isSqliteError none (execute faults 0 fun db => (some (shown db), db)) db = .error
          raised db := by
  unfold recover execute
  cases faults 0 with
  | none => exact .inl fun _ _ => rfl
  | some raised =>
      cases hcatches : isSqliteError raised with
      | true => exact .inr (.inl fun _ _ => by simp [hcatches])
      | false => exact .inr (.inr ⟨raised, fun _ _ => by simp [hcatches]⟩)

/-- What a read answers depends on the rows that it shows, and it changes nothing. -/
theorem historyFor_reads {db db' : SessionDb} {accountId : Uuid} {keepCount keepDays : ℕ}
    {now : Instant}
    (h : shownHistory accountId keepCount keepDays now db'
      = shownHistory accountId keepCount keepDays now db)
    (handle : StoreHandle) (faults : SqlFaults) :
    after (historyFor handle faults accountId keepCount keepDays now) db = db ∧
      answered (historyFor handle faults accountId keepCount keepDays now) db'
        = answered (historyFor handle faults accountId keepCount keepDays now) db := by
  rw [historyFor]
  split_ifs with hready
  · exact ⟨rfl, rfl⟩
  · rcases readHistory_cases faults with hread | hread | ⟨raised, hread⟩
    · rw [after_bind_ok _ (hread _ db), answered, answered, bind_of_ok _ (hread _ db),
        bind_of_ok _ (hread _ db'), h]
      exact ⟨(decodeHistory_reads _ db).1, (decodeHistory_reads _ db).2 db'⟩
    · rw [after_bind_ok _ (hread _ db), answered, answered, bind_of_ok _ (hread _ db),
        bind_of_ok _ (hread _ db')]
      exact ⟨(decodeHistory_reads none db).1, (decodeHistory_reads none db).2 db'⟩
    · rw [after_bind_error _ (hread _ db), answered, answered, bind_of_error _ (hread _ db),
        bind_of_error _ (hread _ db')]
      exact ⟨rfl, rfl⟩

/-- The keep rules of a table of the history. -/
structure HistoryRules (db : SessionDb) : Prop where
  sweepUnseen : ∀ handle faults keepCount keepDays now reader readFaults accountId,
    answered (historyFor reader readFaults accountId keepCount keepDays now)
        (after (sweepHistory handle faults keepCount keepDays now) db)
      = answered (historyFor reader readFaults accountId keepCount keepDays now) db
  saved : ∀ handle faults entry keepCount keepDays now,
    answered (recordHistory handle faults entry keepCount keepDays now) db = some true →
    ((after (recordHistory handle faults entry keepCount keepDays now) db).history.filter fun row =>
        row.accountId = entry.accountId).Perm
      (Newest.newest HistoryRow.position keepCount
        (currentHistory entry.accountId keepDays now (upsertHistory entry.row db).2.history))
  savedRow : ∀ handle faults entry keepCount keepDays now,
    answered (recordHistory handle faults entry keepCount keepDays now) db = some true →
    (∃ account ∈ db.accounts, account.accountId = entry.accountId) →
    (∀ row ∈ db.history, row.queryRunId = entry.queryRunId → row.accountId = entry.accountId) →
    historyCutoff keepDays now ≤ entry.row.completedAt →
    ((currentHistory entry.accountId keepDays now (upsertHistory entry.row db).2.history).countP
      fun row =>
        entry.row.position < row.position) < keepCount →
    entry.row ∈ (after (recordHistory handle faults entry keepCount keepDays now) db).history
  othersKept : ∀ handle faults entry keepCount keepDays now,
    ((after (recordHistory handle faults entry keepCount keepDays now) db).history.filter fun row =>
        row.accountId ≠ entry.accountId)
      = db.history.filter fun row => row.accountId ≠ entry.accountId
  unknownUnwritten : ∀ handle faults entry keepCount keepDays now,
    (∀ account ∈ db.accounts, account.accountId ≠ entry.accountId) →
    ∀ row ∈ (after (recordHistory handle faults entry keepCount keepDays now) db).history,
      row ∈ db.history
  failedSave : ∀ handle faults entry keepCount keepDays now,
    answered (recordHistory handle faults entry keepCount keepDays now) db ≠ some true →
    after (recordHistory handle faults entry keepCount keepDays now) db = db
  idleSweep : ∀ handle faults keepCount keepDays now,
    (∀ counts, answered (sweepHistory handle faults keepCount keepDays now) db = some counts →
      counts = (0, 0)) →
    after (sweepHistory handle faults keepCount keepDays now) db = db
  readOnly : ∀ handle faults accountId keepCount keepDays now,
    after (historyFor handle faults accountId keepCount keepDays now) db = db

theorem sweepHistory_shown {db : SessionDb} (h : db.KeyedHistory) (handle : StoreHandle)
    (faults : SqlFaults) (keepCount keepDays : ℕ) (now : Instant) (accountId : Uuid) :
    shownHistory accountId keepCount keepDays now
      (after (sweepHistory handle faults keepCount keepDays now) db)
      = shownHistory accountId keepCount keepDays now db := by
  rcases sweepHistory_cases handle faults keepCount keepDays now db with hsame | ⟨_, -, hswept, -⟩
  · rw [hsame]
  · rw [hswept]
    exact shownHistory_of_kept h (sweptHistory_own h rfl accountId)

/-- After a save that wrote, the account has its newest current rows. -/
theorem recordHistory_saved {db : SessionDb} (h : db.KeyedHistory) {handle : StoreHandle}
    {faults : SqlFaults} {entry : HistoryEntry} {keepCount keepDays : ℕ} {now : Instant}
    (hwrote : answered (recordHistory handle faults entry keepCount keepDays now) db = some true) :
    ((after (recordHistory handle faults entry keepCount keepDays now) db).history.filter fun row =>
        row.accountId = entry.accountId).Perm
      (Newest.newest HistoryRow.position keepCount
        (currentHistory entry.accountId keepDays now (upsertHistory entry.row db).2.history)) := by
  rcases recordHistory_cases handle faults entry keepCount keepDays now db with
    ⟨hfailed, -⟩ | ⟨-, hsaved⟩
  · exact absurd hwrote hfailed
  · have hkeyed : (upsertHistory entry.row db).2.KeyedHistory := upsertHistory_keyed h
    rw [hsaved]
    exact (List.Perm.of_eq (savedHistory_own hkeyed rfl)).trans (keptHistory_perm hkeyed)

/-- The three statements of the keep rules agree on every table. -/
theorem historyRules {db : SessionDb} (h : db.KeyedHistory) : HistoryRules db where
  sweepUnseen handle faults keepCount keepDays now reader readFaults accountId :=
    (historyFor_reads (sweepHistory_shown h handle faults keepCount keepDays now accountId)
      reader readFaults).2
  saved _ _ _ _ _ _ := recordHistory_saved h
  savedRow handle faults entry keepCount keepDays now hwrote haccount hown hcurrent hnewest := by
    have hrow : entry.row ∈ currentHistory entry.accountId keepDays now
        (upsertHistory entry.row db).2.history :=
      List.mem_filter.mpr ⟨mem_upsertHistory haccount hown, decide_eq_true ⟨rfl, hcurrent⟩⟩
    have hkept :=
      ((keyed_current (upsertHistory_keyed h) entry.accountId keepDays now).mem_newest_iff keepCount
      entry.row).mpr ⟨hrow, hnewest⟩
    exact List.mem_of_mem_filter ((recordHistory_saved h hwrote).mem_iff.mpr hkept)
  othersKept handle faults entry keepCount keepDays now := by
    rcases recordHistory_cases handle faults entry keepCount keepDays now db with
      ⟨-, hsame⟩ | ⟨-, hsaved⟩
    · rw [hsame]
    · rw [hsaved]
      exact savedHistory_others entry keepCount keepDays now db
  unknownUnwritten handle faults entry keepCount keepDays now hunknown row hrow := by
    rcases recordHistory_cases handle faults entry keepCount keepDays now db with
      ⟨-, hsame⟩ | ⟨-, hsaved⟩
    · rw [hsame] at hrow
      exact hrow
    · rw [hsaved] at hrow
      have hupsert : (upsertHistory entry.row db).2 = db := upsertHistory_unknown hunknown
      have hmem : row ∈ (upsertHistory entry.row db).2.history :=
        List.mem_of_mem_filter (List.mem_of_mem_filter hrow)
      rw [hupsert] at hmem
      exact hmem
  failedSave handle faults entry keepCount keepDays now hfailed := by
    rcases recordHistory_cases handle faults entry keepCount keepDays now db with
      ⟨-, hsame⟩ | ⟨hwrote, -⟩
    · exact hsame
    · exact absurd hwrote hfailed
  idleSweep handle faults keepCount keepDays now hzero := by
    rcases sweepHistory_cases handle faults keepCount keepDays now db with hsame |
      ⟨counts, hcounts, hswept, hidle⟩
    · exact hsame
    · rw [hswept, hidle (hzero counts hcounts)]
  readOnly handle faults accountId keepCount keepDays now := (historyFor_reads rfl handle faults).1

/-- Two runs of an account that finished at one instant, and a run of another account. -/
def tiedHistory : SessionDb where
  sessions := []
  accounts :=
    [⟨1, "one".toList, "one@mail.test".toList, [], [], none, none⟩,
      ⟨2, "two".toList, "two@mail.test".toList, [], [], none, none⟩]
  spendKeyCarry := []
  history :=
    [⟨['a'], 1, [], [], [], 4, 0, "2026-01-01T12:00:00+00:00".toList, none⟩,
      ⟨['b'], 1, [], [], [], 4, 0, "2026-01-01T12:00:00+00:00".toList, none⟩,
      ⟨['c'], 2, [], [], [], 4, 0, "2026-01-01T12:00:00+00:00".toList, none⟩]
  signInEvents := []

/-- The day of the two runs, and a run of the first account a second later. -/
def tiedNoon : Instant := ⟨63902865600 * 1000000, by decide⟩

def tiedEntry : HistoryEntry := ⟨['d'], 1, [], [], [], 4, 0, tiedNoon.ahead 1000000, none⟩

def readyHandle : StoreHandle := ⟨true, true, true, false⟩

/-- A save of a third run, of which two are kept, has its row. -/
theorem historyRules_tied :
    HistoryRules tiedHistory
      ∧ tiedEntry.row ∈ (after
          (recordHistory readyHandle (fun _ => none) tiedEntry 2 30 (tiedNoon.ahead 1000000))
          tiedHistory).history := by
  have hkeyed : tiedHistory.KeyedHistory := by
    unfold SessionDb.KeyedHistory Newest.Keyed
    decide +kernel
  refine ⟨historyRules hkeyed, (historyRules hkeyed).savedRow _ _ _ _ _ _ ?_ ?_ ?_ ?_ ?_⟩
  · decide +kernel
  · decide +kernel
  · decide +kernel
  · decide +kernel
  · decide +kernel

end Quorum
