import Quorum.LedgerWipe

/-! Runs of the ledger by any number of accounts. The operations of the store are atomic, so an
interleaving is a list of operations, with the time passing between them. Where each run is charged
once and its corrections come after the charge, for its account, the rows stay in causal order and
the meter reads what the runs really cost. -/

namespace Quorum

open IsoTime Transaction

/-! ### Operations -/

/-- A ledger, the clock that its operations read, and the charges that it recorded, the latest
first. -/
structure LedgerWorld where
  store : FeedbackStore
  clock : Instant
  charges : List ChargeRequest

def LedgerWorld.start (clock : Instant) : LedgerWorld := ⟨.empty, clock, []⟩

/-- A step of the run: time that passes, an operation on charges, a session mint, an event of
another kind, a wipe. -/
inductive LedgerOp
  | tick (span : ℕ)
  | charge (request : ChargeRequest) (attempt : WriteAttempt)
  | reconcile (request : Reconciliation) (attempt : WriteAttempt)
  | void (accountId queryRunId : Uuid) (attempt : WriteAttempt)
  | mint (ip : String) (accountId : Uuid) (cap : ℕ) (attempt : WriteAttempt)
  | record (recorder : Recorder) (name : String) (accountId queryRunId : Option Uuid)
      (payload : EventPayload)
      (attempt : WriteAttempt)
  | wipe (faults : Faults LedgerError)

/-- The row of an event that no meter names. -/
def otherRow (recorder : Recorder) (name : String) (accountId queryRunId : Option Uuid)
    (payload : EventPayload) (now : Instant) : EventRow :=
  ⟨recorder, .other name, accountId, queryRunId, isoformat now, some payload⟩

section

-- SQLite's `julianday` of a text.
variable (julianday : Text → Option ℚ)

def LedgerOp.apply (w : LedgerWorld) : LedgerOp → LedgerWorld
  | .tick span => { w with clock := w.clock.ahead span }
  | .charge request attempt =>
      match tryRecordCostCharge w.clock attempt request w.store with
      | .ok .recorded store => { w with store := store, charges := request :: w.charges }
      | .ok _ store => { w with store := store }
      | .error _ store => { w with store := store }
  | .reconcile request attempt =>
      { w with store := after (tryRecordCostReconciliation w.clock attempt request) w.store }
  | .void accountId queryRunId attempt =>
      { w with store := after (voidCostCharge w.clock attempt accountId queryRunId) w.store }
  | .mint ip accountId cap attempt =>
      { w with store := after (tryRecordSessionMint w.clock attempt ip accountId cap) w.store }
  | .record recorder name accountId queryRunId payload attempt =>
      { w with store := after (insertEvent attempt
          (otherRow recorder name accountId queryRunId payload w.clock)) w.store }
  | .wipe faults =>
      { w with store := after (wipeExpiredIdentifiers julianday faults w.clock) w.store }

def runLedger (start : Instant) (ops : List LedgerOp) : LedgerWorld :=
  ops.foldl (LedgerOp.apply julianday) (.start start)

theorem runLedger_concat (start : Instant) (ops : List LedgerOp) (op : LedgerOp) :
    runLedger julianday start (ops ++ [op]) =
      op.apply julianday (runLedger julianday start ops) := by
  rw [runLedger, List.foldl_append]
  rfl

end

/-- The account and the run that a charge names. -/
def LedgerOp.charges : LedgerOp → Option (Uuid × Uuid)
  | .charge request _ => some (request.accountId, request.queryRunId)
  | _ => none

/-- The account and the run that a correction names. -/
def LedgerOp.corrects : LedgerOp → Option (Uuid × Uuid)
  | .reconcile request _ => some (request.accountId, request.queryRunId)
  | .void accountId queryRunId _ => some (accountId, queryRunId)
  | _ => none

/-- A run is charged once, and its corrections follow, for the account of the charge. -/
structure LedgerOp.InOrder (earlier later : LedgerOp) : Prop where
  once : ∀ first second, earlier.charges = some first → later.charges = some second →
    first.2 ≠ second.2
  chargedFirst : ∀ first second, earlier.corrects = some first → later.charges = some second →
    first.2 ≠ second.2
  sameAccount : ∀ first second, earlier.charges = some first → later.corrects = some second →
    first.2 = second.2 → first.1 = second.1

/-! ### What an operation writes -/

theorem insertEvent_ok (attempt : WriteAttempt) (row : EventRow) (store : FeedbackStore) :
    ∃ store', insertEvent attempt row store = .ok attempt.lands store' ∧
      store'.events = if attempt.lands then store.events ++ [row] else store.events := by
  rw [insertEvent]
  cases attempt.lands with
  | false => exact ⟨_, rfl, rfl⟩
  | true => exact ⟨_, rfl, rfl⟩

theorem after_insertEvent (attempt : WriteAttempt) (row : EventRow) (store : FeedbackStore) :
    (after (insertEvent attempt row) store).events =
      if attempt.lands then store.events ++ [row] else store.events := by
  obtain ⟨store', hinsert, hevents⟩ := insertEvent_ok attempt row store
  rw [after_of_ok hinsert, hevents]

theorem after_voidCostCharge (now : Instant) (attempt : WriteAttempt) (accountId queryRunId : Uuid)
    (store : FeedbackStore) :
    (after (voidCostCharge now attempt accountId queryRunId) store).events =
      if attempt.lands then store.events ++ [voidRow accountId queryRunId now]
      else store.events := by
  rw [voidCostCharge, after_map]
  exact after_insertEvent attempt _ store

theorem after_tryRecordCostReconciliation (now : Instant) (attempt : WriteAttempt)
    (request : Reconciliation) (store : FeedbackStore) :
    (after (tryRecordCostReconciliation now attempt request) store).events =
      if admitsReconciliation now request.queryRunId store ∧ attempt.lands then
        store.events ++ [request.row now] else store.events := by
  have hget : (get : Ledger FeedbackStore) store = .ok store store := rfl
  rw [tryRecordCostReconciliation, after_bind_ok _ hget]
  by_cases hadmits : admitsReconciliation now request.queryRunId store
  · rw [if_pos hadmits, after_map, after_insertEvent]
    simp [hadmits]
  · rw [if_neg hadmits]
    simp [hadmits, after_pure]

/-- A charge leaves the rows alone, or it passed both rails and its row landed. -/
theorem tryRecordCostCharge_cases (now : Instant) (attempt : WriteAttempt) (request : ChargeRequest)
    (store : FeedbackStore) :
    (∃ raised, tryRecordCostCharge now attempt request store = .error raised store) ∨
      (∃ outcome store', tryRecordCostCharge now attempt request store = .ok outcome store' ∧
        outcome ≠ .recorded ∧ store'.events = store.events) ∨
      ∃ already globalSpent store', dailySpendFor request.accountId now store = .ok already ∧
        already + request.estimatedCostUsd ≤ request.dailyCapUsd ∧
        globalDailySpend now store = .ok globalSpent ∧ globalSpent < request.globalCeilingUsd ∧
        tryRecordCostCharge now attempt request store = .ok .recorded store' ∧
        store'.events = store.events ++ [request.row now] := by
  rw [tryRecordCostCharge]
  cases hdaily : dailySpendFor request.accountId now store with
  | error raised =>
      have hread : reading (dailySpendFor request.accountId now) store = .error raised store := by
        rw [reading, hdaily]
      exact .inl ⟨raised, bind_of_error _ hread⟩
  | ok already =>
      have hread : reading (dailySpendFor request.accountId now) store = .ok already store := by
        rw [reading, hdaily]
      rw [bind_of_ok _ hread]
      by_cases hcap : already + request.estimatedCostUsd > request.dailyCapUsd
      · rw [if_pos hcap]
        exact .inr (.inl ⟨.overDailyCap, store, rfl, by decide, rfl⟩)
      · rw [if_neg hcap]
        cases hglobal : globalDailySpend now store with
        | error raised =>
            have hread : reading (globalDailySpend now) store = .error raised store := by
              rw [reading, hglobal]
            exact .inl ⟨raised, bind_of_error _ hread⟩
        | ok globalSpent =>
            have hread : reading (globalDailySpend now) store = .ok globalSpent store := by
              rw [reading, hglobal]
            rw [bind_of_ok _ hread]
            by_cases hceiling : globalSpent ≥ request.globalCeilingUsd
            · rw [if_pos hceiling]
              exact .inr (.inl ⟨.overGlobalCeiling, store, rfl, by decide, rfl⟩)
            · rw [if_neg hceiling]
              obtain ⟨store', hinsert, hevents⟩ := insertEvent_ok attempt (request.row now) store
              rw [bind_of_ok _ hinsert]
              cases hlands : attempt.lands with
              | false =>
                  rw [hlands] at hevents
                  exact .inr (.inl ⟨.meteringUnavailable, store', rfl, by decide, hevents⟩)
              | true =>
                  rw [hlands] at hevents
                  exact .inr (.inr ⟨already, globalSpent, store', rfl, not_lt.mp hcap, rfl,
                    not_le.mp hceiling, rfl, hevents⟩)

/-- The row that an operation may write, and when. -/
def LedgerOp.Writes (w : LedgerWorld) (row : EventRow) : LedgerOp → Prop
  | .charge request _ => row = request.row w.clock ∧
      ∃ already globalSpent, dailySpendFor request.accountId w.clock w.store = .ok already ∧
        already + request.estimatedCostUsd ≤ request.dailyCapUsd ∧
        globalDailySpend w.clock w.store = .ok globalSpent ∧ globalSpent < request.globalCeilingUsd
  | .reconcile request _ =>
      row = request.row w.clock ∧ admitsReconciliation w.clock request.queryRunId w.store
  | .void accountId queryRunId _ => row = voidRow accountId queryRunId w.clock
  | .mint ip accountId _ _ => row = mintRow ip accountId w.clock
  | .record recorder name accountId queryRunId payload _ =>
      row = otherRow recorder name accountId queryRunId payload w.clock
  | _ => False

/-- The charges that an operation adds when it writes. -/
def LedgerOp.recorded : LedgerOp → List ChargeRequest
  | .charge request _ => [request]
  | _ => []

/-- An operation lets time pass, leaves the rows alone, appends one row, or wipes. -/
inductive LedgerOp.Effect (julianday : Text → Option ℚ) (w : LedgerWorld) (op : LedgerOp)
    (w' : LedgerWorld) : Prop
  | idle (events : w'.store.events = w.store.events) (clock : w.clock ≤ w'.clock)
      (charges : w'.charges = w.charges)
  | append (row : EventRow) (writes : op.Writes w row)
      (events : w'.store.events = w.store.events ++ [row])
      (clock : w'.clock = w.clock) (charges : w'.charges = op.recorded ++ w.charges)
  | wipe (events : w'.store.events =
      w.store.events.map (EventRow.wipe julianday (w.clock.back identifierKeep)))
      (clock : w'.clock = w.clock) (charges : w'.charges = w.charges)

theorem after_tryRecordSessionMint (now : Instant) (attempt : WriteAttempt) (ip : String)
    (accountId : Uuid) (cap : ℕ) (store : FeedbackStore) :
    (after (tryRecordSessionMint now attempt ip accountId cap) store).events = store.events ∨
      (after (tryRecordSessionMint now attempt ip accountId cap) store).events =
        store.events ++ [mintRow ip accountId now] := by
  rw [tryRecordSessionMint]
  cases hcount : sessionMintCountForIp ip now store with
  | error raised =>
      have hread : reading (sessionMintCountForIp ip now) store = .error raised store := by
        rw [reading, hcount]
      rw [after_bind_error _ hread]
      exact .inl rfl
  | ok count =>
      have hread : reading (sessionMintCountForIp ip now) store = .ok count store := by
        rw [reading, hcount]
      rw [after_bind_ok _ hread]
      by_cases hcap : count ≥ cap
      · rw [if_pos hcap]
        exact .inl rfl
      · rw [if_neg hcap, after_map, after_insertEvent]
        split_ifs
        · exact .inr rfl
        · exact .inl rfl

theorem LedgerOp.effect (julianday : Text → Option ℚ) (w : LedgerWorld) (op : LedgerOp) :
    op.Effect julianday w (op.apply julianday w) := by
  cases op with
  | tick span => exact .idle rfl (Instant.le_ahead w.clock span) rfl
  | charge request attempt =>
      rw [LedgerOp.apply]
      rcases tryRecordCostCharge_cases w.clock attempt request w.store with
        ⟨raised, hrun⟩ | ⟨outcome, store', hrun, hother, hevents⟩ |
          ⟨already, globalSpent, store', hdaily, hcap, hglobal, hceiling, hrun, hevents⟩
      · rw [hrun]
        exact .idle rfl le_rfl rfl
      · rw [hrun]
        cases outcome with
        | recorded => exact absurd rfl hother
        | overDailyCap => exact .idle hevents le_rfl rfl
        | overGlobalCeiling => exact .idle hevents le_rfl rfl
        | meteringUnavailable => exact .idle hevents le_rfl rfl
      · rw [hrun]
        exact .append _ ⟨rfl, already, globalSpent, hdaily, hcap, hglobal, hceiling⟩ hevents rfl rfl
  | reconcile request attempt =>
      have hevents := after_tryRecordCostReconciliation w.clock attempt request w.store
      split_ifs at hevents with hboth
      · exact .append _ ⟨rfl, hboth.1⟩ hevents rfl rfl
      · exact .idle hevents le_rfl rfl
  | void accountId queryRunId attempt =>
      have hevents := after_voidCostCharge w.clock attempt accountId queryRunId w.store
      split_ifs at hevents
      · exact .append _ rfl hevents rfl rfl
      · exact .idle hevents le_rfl rfl
  | mint ip accountId cap attempt =>
      rcases after_tryRecordSessionMint w.clock attempt ip accountId cap w.store with
        hevents | hevents
      · exact .idle hevents le_rfl rfl
      · exact .append _ rfl hevents rfl rfl
  | record recorder name accountId queryRunId payload attempt =>
      have hevents := after_insertEvent attempt
        (otherRow recorder name accountId queryRunId payload w.clock) w.store
      split_ifs at hevents
      · exact .append _ rfl hevents rfl rfl
      · exact .idle hevents le_rfl rfl
  | wipe faults =>
      rcases wipeExpiredIdentifiers_cases julianday faults w.clock w.store with hsame | hwiped
      · exact .idle (congrArg FeedbackStore.events hsame) le_rfl rfl
      · exact .wipe (congrArg FeedbackStore.events hwiped) rfl rfl

/-! ### The rows as entries -/

theorem chargeEventType_kind (liveExecution : Bool) :
    chargeEventType liveExecution ∈ accountChargeEvents ∧
    chargeEventType liveExecution ∉ correctionEvents := by
  cases liveExecution <;> decide

theorem ChargeRequest.row_charge (request : ChargeRequest) (now : Instant) :
    (request.row now).charge = some (request.queryRunId, request.estimatedCostUsd) := by
  rw [EventRow.charge, if_pos ⟨rfl, (chargeEventType_kind request.liveExecution).1⟩]
  rfl

theorem Reconciliation.row_reconciliation (request : Reconciliation) (now : Instant) :
    (request.row now).reconciliation = some (request.queryRunId, request.actualCostUsd) := rfl

theorem Reconciliation.row_correction (request : Reconciliation) (now : Instant) :
    (request.row now).correction = some (request.queryRunId, request.actualCostUsd) := rfl

theorem voidRow_correction (accountId queryRunId : Uuid) (now : Instant) :
    (voidRow accountId queryRunId now).correction = some (queryRunId, 0) := rfl

theorem ChargeRequest.row_wellFormed (request : ChargeRequest) (now : Instant) :
    (request.row now).WellFormed :=
  ⟨fun _ _ => by rw [request.row_charge]; rfl,
    fun _ htype => absurd htype (chargeEventType_kind request.liveExecution).2⟩

theorem Reconciliation.row_wellFormed (request : Reconciliation) (now : Instant) :
    (request.row now).WellFormed :=
  ⟨fun _ htype => absurd htype (show EventType.costReconciled ∉ accountChargeEvents by decide),
    fun _ _ => rfl⟩

theorem voidRow_wellFormed (accountId queryRunId : Uuid) (now : Instant) :
    (voidRow accountId queryRunId now).WellFormed :=
  ⟨fun _ htype => absurd htype (show EventType.costChargeVoided ∉ accountChargeEvents by decide),
    fun _ _ => rfl⟩

theorem EventRow.charge_eq_none_of_correction {row : EventRow} {entry : Uuid × Amount}
    (h : row.correction = some entry) : row.charge = none := by
  cases hcharge : row.charge with
  | none => rfl
  | some charge =>
      have htype := (row.of_charge hcharge).2.1
      have htype' := (row.correction_kind h).2.1
      rw [accountChargeEvents, List.mem_pair] at htype
      rw [correctionEvents, List.mem_pair] at htype'
      rcases htype with htype | htype <;> rw [htype] at htype' <;> simp at htype'

theorem EventRow.correction_eq_none_of_charge {row : EventRow} {entry : Uuid × Amount}
    (h : row.charge = some entry) : row.correction = none := by
  cases hcorrection : row.correction with
  | none => rfl
  | some correction =>
      rw [row.charge_eq_none_of_correction hcorrection] at h
      cases h

/-! ### Ledgers in causal order -/

/-- What holds of two rows in the order of their ids. -/
structure EventRow.Causal (earlier later : EventRow) : Prop where
  time : earlier.recordedAt ≤ later.recordedAt
  once : ∀ first second, earlier.charge = some first → later.charge = some second →
    first.1 ≠ second.1
  chargedFirst : ∀ first second, earlier.correction = some first → later.charge = some second →
    first.1 ≠ second.1
  sameAccount : ∀ first second, earlier.charge = some first → later.correction = some second →
    first.1 = second.1 →
    earlier.accountId = none ∨ later.accountId = none ∨ later.accountId = earlier.accountId
  reconciledFirst : ReconciledFirst earlier later

/-- The rows are well formed, in causal order and not of the future, and only old ones have lost
their account. -/
structure LedgerWorld.Sound (w : LedgerWorld) : Prop where
  rows : ∀ row ∈ w.store.events, row.WellFormed
  stamps : ∀ row ∈ w.store.events, utcOffset <:+ row.recordedAt
  times : ∀ row ∈ w.store.events, row.recordedAt ≤ isoformat w.clock
  accounts : ∀ row ∈ w.store.events, (row.charge.isSome ∨ row.correction.isSome) →
    row.accountId = none →
    row.recordedAt < isoformat (w.clock.back identifierKeep)
  causal : w.store.events.Pairwise EventRow.Causal

namespace LedgerWorld.Sound

variable {w : LedgerWorld}

/-- Two rows of a sound ledger are in causal order, one way or the other. -/
theorem causal_or (h : w.Sound) {row other : EventRow} (hrow : row ∈ w.store.events)
    (hother : other ∈ w.store.events) (hne : row ≠ other) :
    row.Causal other ∨ other.Causal row := by
  have hsym : w.store.events.Pairwise fun row other => row.Causal other ∨ other.Causal row :=
    h.causal.imp .inl
  have : Std.Symm fun row other : EventRow => row.Causal other ∨ other.Causal row :=
    ⟨fun _ _ => Or.symm⟩
  exact hsym.forall hrow hother hne

/-- A correction comes after the charge of its run. -/
theorem causal_of_correction (h : w.Sound) {row later : EventRow} (hrow : row ∈ w.store.events)
    (hlater : later ∈ w.store.events) {entry correction : Uuid × Amount}
    (hcharge : row.charge = some entry) (hcorrection : later.correction = some correction)
    (hrun : correction.1 = entry.1) : row.Causal later := by
  have hne : row ≠ later := fun heq => by
    rw [← heq, row.correction_eq_none_of_charge hcharge] at hcorrection
    cases hcorrection
  rcases h.causal_or hrow hlater hne with hcausal | hcausal
  · exact hcausal
  · exact absurd hrun (hcausal.chargedFirst _ _ hcorrection hcharge)

theorem runs_nodup (h : w.Sound) :
    ((w.store.events.filterMap EventRow.charge).map Prod.fst).Nodup := by
  rw [List.Nodup, List.pairwise_map, List.pairwise_filterMap]
  exact h.causal.imp fun hcausal first hfirst second hsecond =>
    hcausal.once first second hfirst hsecond

theorem spendWindow_le_identifierKeep : spendWindow ≤ identifierKeep := by
  unfold spendWindow identifierKeep microsPerDay
  omega

/-- A row that a meter still sees has its account. -/
theorem account_of_window (h : w.Sound) {row : EventRow} (hrow : row ∈ w.store.events)
    (hkind : row.charge.isSome ∨ row.correction.isSome) {now : Instant} (hnow : w.clock ≤ now)
    (hwindow : isoformat (now.back spendWindow) ≤ row.recordedAt) : row.accountId ≠ none := by
  intro hnone
  have hold := h.accounts row hrow hkind hnone
  have hback := isoformat_le_iff.mpr (Instant.back_le_back hnow spendWindow_le_identifierKeep)
  exact absurd (lt_of_lt_of_le hold hback) (not_lt.mpr hwindow)

/-- The window that shows a charge shows its corrections. -/
theorem window_corrections (h : w.Sound) {now : Instant} (hnow : w.clock ≤ now)
    {accountId : Option Uuid} {eventTypes : List EventType} {row later : EventRow}
    (hrow : row ∈ w.store.events)
    (hmetered : row.metered (now.back spendWindow) accountId eventTypes)
    {entry correction : Uuid × Amount} (hcharge : row.charge = some entry)
    (hlater : later ∈ w.store.events) (hcorrection : later.correction = some correction)
    (hrun : correction.1 = entry.1) :
    later.metered (now.back spendWindow) accountId correctionEvents := by
  have hcausal := h.causal_of_correction hrow hlater hcharge hcorrection hrun
  simp only [EventRow.metered, decide_eq_true_eq] at hmetered ⊢
  obtain ⟨-, -, hof, hwindow⟩ := hmetered
  have hlaterWindow : isoformat (now.back spendWindow) ≤ later.recordedAt :=
    hwindow.trans hcausal.time
  obtain ⟨hrecorder, htype, -⟩ := later.correction_kind hcorrection
  refine ⟨hrecorder, htype, ?_, hlaterWindow⟩
  cases accountId with
  | none => rfl
  | some accountId =>
      have haccount : row.accountId = some accountId := by simpa [EventRow.ofAccount] using hof
      have hlaterAccount : later.accountId ≠ none :=
        h.account_of_window hlater (.inr (by simp [hcorrection])) hnow hlaterWindow
      have hsame : later.accountId = row.accountId := by
        rcases hcausal.sameAccount _ _ hcharge hcorrection hrun.symm with hnone | hnone | hsame
        · rw [haccount] at hnone
          cases hnone
        · exact absurd hnone hlaterAccount
        · exact hsame
      simp [EventRow.ofAccount, hsame, haccount]

/-- On a sound ledger a meter sums what the charged runs really cost. -/
theorem spendTotalLocked (h : w.Sound) {now : Instant} (hnow : w.clock ≤ now)
    (accountId : Option Uuid) {eventTypes : List EventType} (hne : eventTypes ≠ [])
    (hsub : eventTypes ⊆ accountChargeEvents) :
    Quorum.spendTotalLocked (now.back spendWindow) accountId eventTypes w.store.events =
      .ok (meteredSpend (now.back spendWindow) accountId eventTypes w.store.events) :=
  spendTotalLocked_eq hne hsub h.rows h.runs_nodup (h.causal.imp fun hcausal =>
    hcausal.reconciledFirst)
    fun _ hrow hmetered _ hcharge _ hlater _ hcorrection hrun =>
      h.window_corrections hnow hrow hmetered hcharge hlater hcorrection hrun

end LedgerWorld.Sound

/-! ### Runs -/

/-- Each row of the meters was written by an operation of the run, for the account of that
operation. -/
structure LedgerWorld.Explained (ops : List LedgerOp) (w : LedgerWorld) : Prop where
  charge : ∀ row ∈ w.store.events, ∀ entry, row.charge = some entry →
    ∃ request attempt, LedgerOp.charge request attempt ∈ ops ∧
      (request.queryRunId, request.estimatedCostUsd) = entry ∧
      (row.accountId = none ∨ row.accountId = some request.accountId)
  correction : ∀ row ∈ w.store.events, ∀ entry, row.correction = some entry →
    ∃ op ∈ ops, ∃ accountId, op.corrects = some (accountId, entry.1) ∧
      (row.accountId = none ∨ row.accountId = some accountId)

/-- A wipe takes identifiers from a row and nothing that a meter sums. -/
theorem EventRow.wipe_correction (julianday : Text → Option ℚ) (cut : Instant) (row : EventRow) :
    (row.wipe julianday cut).correction = row.correction := by
  obtain ⟨-, hvoid, hreconciliation⟩ := (row.wipe_sameButIdentifiers julianday cut).entries
  rw [EventRow.correction, hvoid, hreconciliation, EventRow.correction]

theorem EventRow.wipe_account {julianday : Text → Option ℚ} {cut : Instant} {row : EventRow}
    {accountId : Uuid} (h : row.accountId = none ∨ row.accountId = some accountId) :
    (row.wipe julianday cut).accountId = none ∨
    (row.wipe julianday cut).accountId = some accountId := by
  rcases row.wipe_cases julianday cut with hsame | ⟨-, -, ⟨-, hnone⟩ | ⟨-, -, hsame⟩⟩
  · rwa [hsame]
  · exact .inl hnone
  · rwa [hsame]

/-- A wiped row has its account as before, or none. -/
theorem EventRow.wipe_account_cases (julianday : Text → Option ℚ) (cut : Instant) (row : EventRow) :
    (row.wipe julianday cut).accountId = row.accountId ∨
    (row.wipe julianday cut).accountId = none := by
  rcases row.wipe_cases julianday cut with hsame | ⟨-, -, ⟨-, hnone⟩ | ⟨-, -, hsame⟩⟩
  · exact .inl (congrArg EventRow.accountId hsame)
  · exact .inr hnone
  · exact .inl hsame

namespace LedgerWorld.Sound

variable {w w' : LedgerWorld}

theorem idle (h : w.Sound) (hevents : w'.store.events = w.store.events)
    (hclock : w.clock ≤ w'.clock) : w'.Sound where
  rows := by rw [hevents]; exact h.rows
  stamps := by rw [hevents]; exact h.stamps
  times := by
    rw [hevents]
    exact fun row hrow => (h.times row hrow).trans (isoformat_le_iff.mpr hclock)
  accounts := by
    rw [hevents]
    exact fun row hrow hkind hnone => (h.accounts row hrow hkind hnone).trans_le
      (isoformat_le_iff.mpr (Instant.back_mono hclock identifierKeep))
  causal := by rw [hevents]; exact h.causal

theorem append (h : w.Sound) {row : EventRow} (hevents : w'.store.events = w.store.events ++ [row])
    (hclock : w'.clock = w.clock) (hwell : row.WellFormed)
    (htime : row.recordedAt = isoformat w.clock)
    (haccount : row.charge.isSome ∨ row.correction.isSome → row.accountId ≠ none)
    (hcausal : ∀ earlier ∈ w.store.events, earlier.Causal row) : w'.Sound where
  rows := by
    rw [hevents]
    intro other hother
    rcases List.mem_append.mp hother with hold | hnew
    · exact h.rows other hold
    · rwa [List.mem_singleton.mp hnew]
  stamps := by
    rw [hevents]
    intro other hother
    rcases List.mem_append.mp hother with hold | hnew
    · exact h.stamps other hold
    · rw [List.mem_singleton.mp hnew, htime]
      exact utcOffset_suffix_isoformat w.clock
  times := by
    rw [hevents, hclock]
    intro other hother
    rcases List.mem_append.mp hother with hold | hnew
    · exact h.times other hold
    · rw [List.mem_singleton.mp hnew, htime]
  accounts := by
    rw [hevents, hclock]
    intro other hother hkind hnone
    rcases List.mem_append.mp hother with hold | hnew
    · exact h.accounts other hold hkind hnone
    · rw [List.mem_singleton.mp hnew] at hkind hnone
      exact absurd hnone (haccount hkind)
  causal := by
    rw [hevents]
    refine List.pairwise_append.mpr ⟨h.causal, List.pairwise_singleton _ _,
      fun earlier hearlier later hlater => ?_⟩
    rw [List.mem_singleton.mp hlater]
    exact hcausal earlier hearlier

theorem wipe {julianday : Text → Option ℚ} (h : w.Sound)
    (hevents : w'.store.events =
      w.store.events.map (EventRow.wipe julianday (w.clock.back identifierKeep)))
    (hclock : w'.clock = w.clock) : w'.Sound where
  rows := by
    rw [hevents]
    intro other hother
    obtain ⟨row, hrow, rfl⟩ := List.mem_map.mp hother
    have hsame := row.wipe_sameButIdentifiers julianday (w.clock.back identifierKeep)
    have hwell := h.rows row hrow
    refine ⟨fun hr ht => ?_, fun hr ht => ?_⟩
    · rw [hsame.entries.1]
      exact hwell.charge (hsame.recorder ▸ hr) (hsame.eventType ▸ ht)
    · rw [row.wipe_correction]
      exact hwell.correction (hsame.recorder ▸ hr) (hsame.eventType ▸ ht)
  stamps := by
    rw [hevents]
    intro other hother
    obtain ⟨row, hrow, rfl⟩ := List.mem_map.mp hother
    rw [(row.wipe_sameButIdentifiers _ _).recordedAt]
    exact h.stamps row hrow
  times := by
    rw [hevents, hclock]
    intro other hother
    obtain ⟨row, hrow, rfl⟩ := List.mem_map.mp hother
    rw [(row.wipe_sameButIdentifiers _ _).recordedAt]
    exact h.times row hrow
  accounts := by
    rw [hevents, hclock]
    intro other hother hkind hnone
    obtain ⟨row, hrow, rfl⟩ := List.mem_map.mp hother
    rcases row.wipe_cases julianday (w.clock.back identifierKeep) with hsame | ⟨hold, hsame, -⟩
    · rw [hsame] at hkind hnone ⊢
      exact h.accounts row hrow hkind hnone
    · rw [hsame.recordedAt]
      exact (olderThanCut_of_utc (h.stamps row hrow)).mp hold
  causal := by
    rw [hevents, List.pairwise_map]
    refine h.causal.imp fun {earlier later} hcausal => ?_
    have hsame := earlier.wipe_sameButIdentifiers julianday (w.clock.back identifierKeep)
    have hsame' := later.wipe_sameButIdentifiers julianday (w.clock.back identifierKeep)
    obtain ⟨hcharge, -, -⟩ := hsame.entries
    obtain ⟨hcharge', -, hreconciliation'⟩ := hsame'.entries
    have hcorrection := earlier.wipe_correction julianday (w.clock.back identifierKeep)
    have hcorrection' := later.wipe_correction julianday (w.clock.back identifierKeep)
    refine ⟨by rw [hsame.recordedAt, hsame'.recordedAt]; exact hcausal.time,
      by rw [hcharge, hcharge']; exact hcausal.once,
      by rw [hcorrection, hcharge']; exact hcausal.chargedFirst, ?_,
      by rw [ReconciledFirst, hcorrection, hreconciliation']; exact hcausal.reconciledFirst⟩
    rw [hcharge, hcorrection']
    intro first second hfirst hsecond hrun
    rcases earlier.wipe_account_cases julianday (w.clock.back identifierKeep) with hsame | hnone
    · rcases later.wipe_account_cases julianday (w.clock.back identifierKeep) with hsame' | hnone
      · rw [hsame, hsame']
        exact hcausal.sameAccount first second hfirst hsecond hrun
      · exact .inr (.inl hnone)
    · exact .inl hnone

end LedgerWorld.Sound

namespace LedgerWorld.Explained

variable {ops : List LedgerOp} {w w' : LedgerWorld}

theorem congr (h : w.Explained ops) (hevents : w'.store.events = w.store.events) :
    w'.Explained ops where
  charge := by rw [hevents]; exact h.charge
  correction := by rw [hevents]; exact h.correction

theorem idle (h : w.Explained ops) (op : LedgerOp) (hevents : w'.store.events = w.store.events) :
    w'.Explained (ops ++ [op]) where
  charge := by
    rw [hevents]
    intro row hrow entry hentry
    obtain ⟨request, attempt, hmem, hrequest⟩ := h.charge row hrow entry hentry
    exact ⟨request, attempt, List.mem_append_left _ hmem, hrequest⟩
  correction := by
    rw [hevents]
    intro row hrow entry hentry
    obtain ⟨earlier, hmem, hcorrects⟩ := h.correction row hrow entry hentry
    exact ⟨earlier, List.mem_append_left _ hmem, hcorrects⟩

theorem wipe {julianday : Text → Option ℚ} (h : w.Explained ops) (op : LedgerOp) {cut : Instant}
    (hevents : w'.store.events = w.store.events.map (EventRow.wipe julianday cut)) :
    w'.Explained (ops ++ [op]) where
  charge := by
    rw [hevents]
    intro other hother entry hentry
    obtain ⟨row, hrow, rfl⟩ := List.mem_map.mp hother
    rw [(row.wipe_sameButIdentifiers julianday cut).entries.1] at hentry
    obtain ⟨request, attempt, hmem, hrequest, haccount⟩ := h.charge row hrow entry hentry
    exact ⟨request, attempt, List.mem_append_left _ hmem, hrequest, EventRow.wipe_account haccount⟩
  correction := by
    rw [hevents]
    intro other hother entry hentry
    obtain ⟨row, hrow, rfl⟩ := List.mem_map.mp hother
    rw [row.wipe_correction julianday cut] at hentry
    obtain ⟨earlier, hmem, accountId, hcorrects, haccount⟩ := h.correction row hrow entry hentry
    exact ⟨earlier, List.mem_append_left _ hmem, accountId, hcorrects,
      EventRow.wipe_account haccount⟩

theorem append (h : w.Explained ops) {op : LedgerOp} {row : EventRow}
    (hevents : w'.store.events = w.store.events ++ [row])
    (hcharge : ∀ entry, row.charge = some entry → ∃ request attempt, op = .charge request attempt ∧
      (request.queryRunId, request.estimatedCostUsd) = entry ∧
        row.accountId = some request.accountId)
    (hcorrection : ∀ entry, row.correction = some entry → ∃ accountId,
      op.corrects = some (accountId, entry.1) ∧ row.accountId = some accountId) :
    w'.Explained (ops ++ [op]) where
  charge := by
    rw [hevents]
    intro other hother entry hentry
    rcases List.mem_append.mp hother with hold | hnew
    · obtain ⟨request, attempt, hmem, hrequest⟩ := h.charge other hold entry hentry
      exact ⟨request, attempt, List.mem_append_left _ hmem, hrequest⟩
    · rw [List.mem_singleton.mp hnew] at hentry ⊢
      obtain ⟨request, attempt, rfl, hrequest, haccount⟩ := hcharge entry hentry
      exact ⟨request, attempt, List.mem_append_right _ (List.mem_singleton.mpr rfl),
        hrequest, .inr haccount⟩
  correction := by
    rw [hevents]
    intro other hother entry hentry
    rcases List.mem_append.mp hother with hold | hnew
    · obtain ⟨earlier, hmem, hcorrects⟩ := h.correction other hold entry hentry
      exact ⟨earlier, List.mem_append_left _ hmem, hcorrects⟩
    · rw [List.mem_singleton.mp hnew] at hentry ⊢
      obtain ⟨accountId, hcorrects, haccount⟩ := hcorrection entry hentry
      exact ⟨op, List.mem_append_right _ (List.mem_singleton.mpr rfl), accountId,
        hcorrects, .inr haccount⟩

/-- A charge in order is the first row of its run. -/
theorem causal_charge (h : w.Explained ops) {request : ChargeRequest} {attempt : WriteAttempt}
    (horder : ∀ op ∈ ops, op.InOrder (.charge request attempt)) {earlier : EventRow}
    (hearlier : earlier ∈ w.store.events) {now : Instant}
    (htime : earlier.recordedAt ≤ isoformat now) :
    earlier.Causal (request.row now) := by
  have hcharge := request.row_charge now
  have hcorrection := (request.row now).correction_eq_none_of_charge hcharge
  refine ⟨htime, fun first second hfirst hsecond => ?_, fun first second hfirst hsecond => ?_,
    fun _ _ _ hsecond => ?_, fun _ second _ hsecond => ?_⟩
  · obtain ⟨request', attempt', hmem, rfl, -⟩ := h.charge earlier hearlier first hfirst
    rw [hcharge] at hsecond
    cases hsecond
    exact (horder _ hmem).once _ _ rfl rfl
  · obtain ⟨op, hmem, accountId, hcorrects, -⟩ := h.correction earlier hearlier first hfirst
    rw [hcharge] at hsecond
    cases hsecond
    exact (horder op hmem).chargedFirst _ _ hcorrects rfl
  · rw [hcorrection] at hsecond
    cases hsecond
  · rw [EventRow.correction, Option.or_eq_none_iff] at hcorrection
    rw [hcorrection.2] at hsecond
    cases hsecond

/-- A correction in order has the account of its run's charge. -/
theorem sameAccount (h : w.Explained ops) {op : LedgerOp}
    (horder : ∀ earlier ∈ ops, earlier.InOrder op) {earlier row : EventRow}
    (hearlier : earlier ∈ w.store.events) {first : Uuid × Amount}
    (hcharge : earlier.charge = some first) {accountId : Uuid}
    (hcorrects : op.corrects = some (accountId, first.1))
    (haccount : row.accountId = some accountId) :
    earlier.accountId = none ∨ row.accountId = none ∨ row.accountId = earlier.accountId := by
  obtain ⟨request, attempt, hmem, hentry, hnone | hsome⟩ := h.charge earlier hearlier first hcharge
  · exact .inl hnone
  · have hrun : request.queryRunId = first.1 := congrArg Prod.fst hentry
    have hsame : request.accountId = accountId := (horder _ hmem).sameAccount _ _ rfl hcorrects hrun
    rw [haccount, hsome, hsame]
    exact .inr (.inr rfl)

end LedgerWorld.Explained

theorem seen_iff (now : Instant) (queryRunId : Uuid) (eventType : EventType)
    (store : FeedbackStore) :
    seen now queryRunId eventType store ↔ ∃ row ∈ store.events, row.recorder = .cost ∧
      row.queryRunId = some queryRunId ∧ isoformat (now.back spendWindow) ≤ row.recordedAt ∧
      row.eventType = eventType := by
  simp only [seen, List.any_eq_true, decide_eq_true_eq]

/-- A run that the store lets reconcile has a charge in the window. -/
theorem charged_of_admits {w : LedgerWorld} (h : w.Sound) {queryRunId : Uuid}
    (hadmits : admitsReconciliation w.clock queryRunId w.store) :
    ∃ row ∈ w.store.events, isoformat (w.clock.back spendWindow) ≤ row.recordedAt ∧
      row.eventType = .costAccepted ∧
      ∃ estimate, row.charge = some (queryRunId, estimate) := by
  simp only [admitsReconciliation, decide_eq_true_eq] at hadmits
  obtain ⟨row, hrow, hrecorder, hrun, hwindow, htype⟩ := (seen_iff _ _ _ _).mp hadmits.1
  have hsome := (h.rows row hrow).charge hrecorder (by rw [htype]; decide)
  obtain ⟨entry, hentry⟩ := Option.isSome_iff_exists.mp hsome
  have hentryRun := (row.of_charge hentry).2.2.1
  rw [hrun, Option.some.injEq] at hentryRun
  subst hentryRun
  exact ⟨row, hrow, hwindow, htype, entry.2, hentry⟩

/-- A run that the store lets reconcile has no correction yet. -/
theorem uncorrected_of_admits {w : LedgerWorld} (h : w.Sound) {queryRunId : Uuid}
    (hadmits : admitsReconciliation w.clock queryRunId w.store) :
    ∀ row ∈ w.store.events, ∀ entry, row.correction = some entry → entry.1 ≠ queryRunId := by
  intro row hrow entry hcorrection hrun
  obtain ⟨charge, hcharge, hwindow, -, estimate, hentry⟩ := charged_of_admits h hadmits
  have hcausal := h.causal_of_correction hcharge hrow hentry hcorrection hrun
  obtain ⟨hrecorder, htype, hrow'⟩ := row.correction_kind hcorrection
  have hseen : ∀ eventType, row.eventType = eventType → seen w.clock queryRunId eventType w.store :=
    fun eventType htype => (seen_iff _ _ _ _).mpr
      ⟨row, hrow, hrecorder, by rw [hrow', hrun], hwindow.trans hcausal.time, htype⟩
  simp only [admitsReconciliation, decide_eq_true_eq] at hadmits
  rw [correctionEvents, List.mem_pair] at htype
  rcases htype with htype | htype
  · exact hadmits.2.1 (hseen _ htype)
  · exact hadmits.2.2 (hseen _ htype)

/-- An event of another kind is no entry of a meter. -/
theorem EventRow.unmetered {row : EventRow} (hcharges : row.eventType ∉ accountChargeEvents)
    (hcorrections : row.eventType ∉ correctionEvents) :
    row.charge = none ∧ row.correction = none ∧ row.WellFormed := by
  have hcharge : row.charge = none := Option.eq_none_iff_forall_ne_some.mpr fun entry hentry =>
    hcharges (row.of_charge hentry).2.1
  have hcorrection : row.correction = none :=
    Option.eq_none_iff_forall_ne_some.mpr fun entry hentry =>
    hcorrections (row.correction_kind hentry).2.1
  exact ⟨hcharge, hcorrection, fun _ htype => absurd htype hcharges,
    fun _ htype => absurd htype hcorrections⟩

/-- An event of another kind keeps the ledger sound and explained. -/
theorem sound_append_unmetered {ops : List LedgerOp} {w w' : LedgerWorld} (op : LedgerOp)
    {row : EventRow} (h : w.Sound) (hexplained : w.Explained ops)
    (hevents : w'.store.events = w.store.events ++ [row]) (hclock : w'.clock = w.clock)
    (htime : row.recordedAt = isoformat w.clock) (hcharges : row.eventType ∉ accountChargeEvents)
    (hcorrections : row.eventType ∉ correctionEvents) :
    w'.Sound ∧ w'.Explained (ops ++ [op]) := by
  obtain ⟨hcharge, hcorrection, hwell⟩ := row.unmetered hcharges hcorrections
  have hreconciliation : row.reconciliation = none := by
    rw [EventRow.correction, Option.or_eq_none_iff] at hcorrection
    exact hcorrection.2
  refine ⟨h.append hevents hclock hwell htime ?_ fun earlier hearlier =>
    ⟨htime ▸ h.times earlier hearlier,
    ?_, ?_, ?_, ?_⟩, hexplained.append hevents ?_ ?_⟩
  · rw [hcharge, hcorrection]
    simp
  · rw [hcharge]
    exact fun _ _ _ hsecond => by cases hsecond
  · rw [hcharge]
    exact fun _ _ _ hsecond => by cases hsecond
  · rw [hcorrection]
    exact fun _ _ _ hsecond => by cases hsecond
  · rw [ReconciledFirst, hreconciliation]
    exact fun _ _ _ hsecond => by cases hsecond
  · rw [hcharge]
    exact fun _ hentry => by cases hentry
  · rw [hcorrection]
    exact fun _ hentry => by cases hentry

/-- The row of a correction comes after the charge of its run and, if it reconciles, before every
other correction. -/
theorem LedgerWorld.Explained.causal_correction {ops : List LedgerOp} {w : LedgerWorld}
    (h : w.Explained ops) {op : LedgerOp} (horder : ∀ earlier ∈ ops, earlier.InOrder op)
    {earlier row : EventRow} (hearlier : earlier ∈ w.store.events)
    (htime : earlier.recordedAt ≤ row.recordedAt) {entry : Uuid × Amount}
    (hcorrection : row.correction = some entry) {accountId : Uuid}
    (hcorrects : op.corrects = some (accountId, entry.1))
    (haccount : row.accountId = some accountId) (hfirst : ReconciledFirst earlier row) :
    earlier.Causal row := by
  have hcharge := row.charge_eq_none_of_correction hcorrection
  refine ⟨htime, fun _ _ _ hsecond => ?_, fun _ _ _ hsecond => ?_,
    fun first second hcharged hsecond hrun => ?_,
    hfirst⟩
  · rw [hcharge] at hsecond
    cases hsecond
  · rw [hcharge] at hsecond
    cases hsecond
  · rw [hcorrection] at hsecond
    cases hsecond
    rw [← hrun] at hcorrects
    exact h.sameAccount horder hearlier hcharged hcorrects haccount

/-- One operation in order keeps the ledger sound and its rows explained. -/
theorem sound_apply (julianday : Text → Option ℚ) {ops : List LedgerOp} {w : LedgerWorld}
    {op : LedgerOp} (h : w.Sound) (hexplained : w.Explained ops)
    (horder : ∀ earlier ∈ ops, earlier.InOrder op) :
    (op.apply julianday w).Sound ∧ (op.apply julianday w).Explained (ops ++ [op]) := by
  cases op.effect julianday w with
  | idle events clock charges => exact ⟨h.idle events clock, hexplained.idle op events⟩
  | wipe events clock charges => exact ⟨h.wipe events clock, hexplained.wipe op events⟩
  | append row writes events clock charges =>
      cases op with
      | tick span => exact writes.elim
      | wipe => exact writes.elim
      | charge request attempt =>
          obtain ⟨rfl, -⟩ := writes
          have hcharge := request.row_charge w.clock
          have hcorrection := (request.row w.clock).correction_eq_none_of_charge hcharge
          refine ⟨h.append events clock (request.row_wellFormed w.clock) rfl (fun _ =>
            Option.some_ne_none _)
            fun earlier hearlier =>
              hexplained.causal_charge horder hearlier (h.times earlier hearlier), ?_⟩
          refine hexplained.append events (fun entry hentry => ?_) fun entry hentry => ?_
          · rw [hcharge] at hentry
            exact ⟨request, attempt, rfl, Option.some.inj hentry, rfl⟩
          · rw [hcorrection] at hentry
            cases hentry
      | reconcile request attempt =>
          obtain ⟨rfl, hadmits⟩ := writes
          have hcorrection := request.row_correction w.clock
          refine ⟨h.append events clock (request.row_wellFormed w.clock) rfl
            (fun _ => Option.some_ne_none _) fun earlier hearlier => ?_, ?_⟩
          · refine hexplained.causal_correction horder hearlier (h.times earlier hearlier)
              hcorrection rfl rfl ?_
            intro first second hfirst hsecond
            rw [request.row_reconciliation] at hsecond
            cases hsecond
            exact uncorrected_of_admits h hadmits earlier hearlier first hfirst
          · refine hexplained.append events (fun entry hentry => ?_) fun entry hentry => ?_
            · rw [(request.row w.clock).charge_eq_none_of_correction hcorrection] at hentry
              cases hentry
            · rw [hcorrection] at hentry
              cases hentry
              exact ⟨request.accountId, rfl, rfl⟩
      | void accountId queryRunId attempt =>
          have hrow : row = voidRow accountId queryRunId w.clock := writes
          subst hrow
          have hcorrection := voidRow_correction accountId queryRunId w.clock
          refine ⟨h.append events clock (voidRow_wellFormed accountId queryRunId w.clock) rfl
            (fun _ => Option.some_ne_none _) fun earlier hearlier => ?_, ?_⟩
          · refine hexplained.causal_correction horder hearlier (h.times earlier hearlier)
              hcorrection rfl rfl ?_
            intro first second hfirst hsecond
            cases hsecond
          · refine hexplained.append events (fun entry hentry => ?_) fun entry hentry => ?_
            · rw [(voidRow accountId queryRunId w.clock).charge_eq_none_of_correction
                hcorrection] at hentry
              cases hentry
            · rw [hcorrection] at hentry
              cases hentry
              exact ⟨accountId, rfl, rfl⟩
      | mint ip accountId cap attempt =>
          have hrow : row = mintRow ip accountId w.clock := writes
          subst hrow
          exact sound_append_unmetered _ h hexplained events clock rfl
            (show EventType.sessionMinted ∉ accountChargeEvents by decide)
            (show EventType.sessionMinted ∉ correctionEvents by decide)
      | record recorder name accountId queryRunId payload attempt =>
          have hrow : row = otherRow recorder name accountId queryRunId payload w.clock := writes
          subst hrow
          exact sound_append_unmetered _ h hexplained events clock rfl
            (show EventType.other name ∉ accountChargeEvents by simp [accountChargeEvents])
            (show EventType.other name ∉ correctionEvents by simp [correctionEvents])

/-- Every run in order leaves a sound ledger. -/
theorem sound_runLedger (julianday : Text → Option ℚ) (start : Instant) (ops : List LedgerOp)
    (horder : ops.Pairwise LedgerOp.InOrder) :
    (runLedger julianday start ops).Sound ∧ (runLedger julianday start ops).Explained ops := by
  induction ops using List.reverseRecOn with
  | nil =>
      refine ⟨⟨?_, ?_, ?_, ?_, List.Pairwise.nil⟩, ⟨?_, ?_⟩⟩
        <;> exact fun row hrow => absurd hrow List.not_mem_nil
  | append_singleton ops op ih =>
      obtain ⟨hops, -, hlast⟩ := List.pairwise_append.mp horder
      obtain ⟨hsound, hexplained⟩ := ih hops
      rw [runLedger_concat]
      exact sound_apply julianday hsound hexplained fun earlier hearlier =>
        hlast earlier hearlier op (List.mem_singleton.mpr rfl)

end Quorum
