import Quorum.LedgerRuns

/-! The spend rails over a run. Where no measured cost is above its estimate, no operation but a
charge raises a meter: time takes charges out of the window, corrections lower what a run counts
for, and a wipe reaches no row of the window. So the check that a charge passed still holds of the
meter at every later time. -/

namespace Quorum

open IsoTime Transaction

/-! ### What one operation does to a meter -/

section

variable {cutoff : Instant} {accountId : Option Uuid} {eventTypes : List EventType}
  {events : List EventRow}

/-- A later window sees less. -/
theorem meteredSpend_antitone {cutoff' : Instant} (h : cutoff ≤ cutoff') :
    meteredSpend cutoff' accountId eventTypes events ≤
      meteredSpend cutoff accountId eventTypes events := by
  have hseen : ∀ row : EventRow, row.metered cutoff' accountId eventTypes →
      row.metered cutoff accountId eventTypes := by
    intro row hrow
    simp only [EventRow.metered, decide_eq_true_eq] at hrow ⊢
    exact ⟨hrow.1, hrow.2.1, hrow.2.2.1, (isoformat_le_iff.mpr h).trans hrow.2.2.2⟩
  have hsub := List.monotone_filter_right events hseen
  exact ((hsub.filterMap EventRow.charge).map (settledAmount events)).sum_le_sum fun _ _ => zero_le

theorem voided_concat (row : EventRow) (queryRunId : Uuid) :
    voided (events ++ [row]) queryRunId =
      (voided events queryRunId || decide (row.void = some queryRunId)) := by
  rw [voided, List.any_append, List.any_cons, List.any_nil, Bool.or_false]
  rfl

theorem reconciledActual_concat_of_ne {row : EventRow} {queryRunId : Uuid}
    (h : ∀ entry, row.reconciliation = some entry → entry.1 ≠ queryRunId) :
    reconciledActual (events ++ [row]) queryRunId = reconciledActual events queryRunId := by
  have hrow : reconciledActual [row] queryRunId = none := reconciledActual_cons_of_ne [] h
  rw [reconciledActual, List.findSome?_append]
  show (reconciledActual events queryRunId).or (reconciledActual [row] queryRunId) = _
  rw [hrow, Option.or_none]

/-- A row that corrects nothing of a run leaves what the run cost. -/
theorem settledAmount_concat_of_ne {row : EventRow} {entry : Uuid × Amount}
    (h : ∀ correction, row.correction = some correction → correction.1 ≠ entry.1) :
    settledAmount (events ++ [row]) entry = settledAmount events entry := by
  have hvoid : row.void ≠ some entry.1 := fun hvoid =>
    h (entry.1, 0) (by rw [EventRow.correction, hvoid]; rfl) rfl
  have hreconciliation : ∀ correction, row.reconciliation = some correction →
      correction.1 ≠ entry.1 := by
    intro correction hrow
    cases hvoided : row.void with
    | some queryRunId =>
        have htype := (row.of_void hvoided).2.1
        rw [(row.of_reconciliation hrow).2.1] at htype
        cases htype
    | none => exact h correction (by rw [EventRow.correction, hvoided, hrow]; rfl)
  rw [settledAmount, voided_concat, reconciledActual_concat_of_ne hreconciliation, settledAmount]
  simp [hvoid]

/-- A correction at or below the estimate never raises what a run counts for. -/
theorem settledAmount_concat_le {row : EventRow} {entry : Uuid × Amount}
    (h : ∀ correction, row.reconciliation = some correction → correction.1 = entry.1 →
      correction.2 ≤ entry.2) :
    settledAmount (events ++ [row]) entry ≤ settledAmount events entry := by
  by_cases hother : ∀ correction, row.correction = some correction → correction.1 ≠ entry.1
  · exact (settledAmount_concat_of_ne hother).le
  push Not at hother
  obtain ⟨correction, hcorrection, hrun⟩ := hother
  rw [settledAmount, settledAmount, voided_concat]
  rcases row.of_correction hcorrection with ⟨hvoid, -⟩ | ⟨hvoid, hreconciliation⟩
  · simp [hvoid, hrun]
  · have hself : reconciledActual [row] entry.1 = some correction.2 := by
      have := reconciledActual_cons_self [] hreconciliation
      rwa [hrun] at this
    have hboth : reconciledActual (events ++ [row]) entry.1 =
        (reconciledActual events entry.1).or (some correction.2) := by
      rw [reconciledActual, List.findSome?_append, ← hself]
      rfl
    rw [hboth, hvoid]
    cases voided events entry.1 with
    | true => simp
    | false =>
        cases reconciledActual events entry.1 with
        | some actual => simp
        | none => simpa using h correction hreconciliation hrun

/-- A row that is no charge raises no meter. -/
theorem meteredSpend_concat_le {row : EventRow} (hcharge : row.charge = none)
    (h : ∀ entry ∈ events.filterMap EventRow.charge, ∀ correction,
      row.reconciliation = some correction →
      correction.1 = entry.1 → correction.2 ≤ entry.2) :
    meteredSpend cutoff accountId eventTypes (events ++ [row]) ≤
      meteredSpend cutoff accountId eventTypes events := by
  have hcharges : ((events ++ [row]).filter
      (EventRow.metered cutoff accountId eventTypes)).filterMap
      EventRow.charge = (events.filter (EventRow.metered cutoff accountId eventTypes)).filterMap
      EventRow.charge := by
    rw [List.filter_append, List.filterMap_append]
    have hnil : ([row].filter (EventRow.metered cutoff accountId eventTypes)).filterMap
        EventRow.charge = [] := by
      refine List.filterMap_eq_nil_iff.mpr fun other hother => ?_
      rw [List.mem_singleton.mp (List.mem_of_mem_filter hother), hcharge]
    rw [hnil, List.append_nil]
  rw [meteredSpend, meteredSpend, hcharges]
  refine List.sum_le_sum fun entry hentry => settledAmount_concat_le ?_
  exact h entry ((List.filter_sublist.filterMap _).subset hentry)

/-- A run without corrections is neither voided nor reconciled. -/
theorem settled_of_uncorrected {queryRunId : Uuid}
    (hnew : ∀ other ∈ events, ∀ correction,
      other.correction = some correction → correction.1 ≠ queryRunId) :
    voided events queryRunId = false ∧ reconciledActual events queryRunId = none := by
  constructor
  · rw [voided, List.any_eq_false]
    intro other hother hvoid
    have hcorrects : other.correction = some (queryRunId, 0) := by
      rw [EventRow.correction, decide_eq_true_eq.mp hvoid]
      rfl
    exact hnew other hother _ hcorrects rfl
  · rw [reconciledActual, List.findSome?_eq_none_iff]
    intro other hother
    cases hreconciliation : other.reconciliation with
    | none => rfl
    | some correction =>
        have hne : correction.1 ≠ queryRunId := by
          cases hvoided : other.void with
          | some voidedRun =>
              have htype := (other.of_void hvoided).2.1
              rw [(other.of_reconciliation hreconciliation).2.1] at htype
              cases htype
          | none =>
              exact hnew other hother correction (by
                rw [EventRow.correction, hvoided, hreconciliation]
                rfl)
        simp [Option.filter, hne]

/-- The charge of a run without corrections counts for its estimate, where the meter sees it. -/
theorem meteredSpend_concat_charge {row : EventRow} {entry : Uuid × Amount}
    (hcharge : row.charge = some entry)
    (hnew : ∀ other ∈ events, ∀ correction,
      other.correction = some correction → correction.1 ≠ entry.1) :
    meteredSpend cutoff accountId eventTypes (events ++ [row]) =
      meteredSpend cutoff accountId eventTypes events +
        if row.metered cutoff accountId eventTypes then entry.2 else 0 := by
  have hcorrection := row.correction_eq_none_of_charge hcharge
  have hsettled : settledAmount (events ++ [row]) = settledAmount events := by
    funext other
    exact settledAmount_concat_of_ne fun correction hrow => by rw [hcorrection] at hrow; cases hrow
  have hself : settledAmount events entry = entry.2 := by
    obtain ⟨hvoid, hactual⟩ := settled_of_uncorrected hnew
    rw [settledAmount, hvoid, hactual]
    rfl
  rw [meteredSpend, meteredSpend, hsettled, List.filter_append, List.filterMap_append,
    List.map_append, List.sum_append]
  congr 1
  cases hmetered : row.metered cutoff accountId eventTypes with
  | true => simp [hmetered, hcharge, hself]
  | false => simp [hmetered]

/-- A row outside of the meter's window, account or event types changes it only by correcting. -/
theorem meteredSpend_concat_other {row : EventRow} {entry : Uuid × Amount}
    (hcharge : row.charge = some entry)
    (hnew : ∀ other ∈ events, ∀ correction,
      other.correction = some correction → correction.1 ≠ entry.1)
    (hother : ¬row.metered cutoff accountId eventTypes) :
    meteredSpend cutoff accountId eventTypes (events ++ [row]) =
      meteredSpend cutoff accountId eventTypes events := by
  rw [meteredSpend_concat_charge hcharge hnew, if_neg hother, add_zero]

theorem meteredSpend_concat_charge_le {row : EventRow} {entry : Uuid × Amount}
    (hcharge : row.charge = some entry)
    (hnew : ∀ other ∈ events, ∀ correction,
      other.correction = some correction → correction.1 ≠ entry.1) :
    meteredSpend cutoff accountId eventTypes (events ++ [row]) ≤
      meteredSpend cutoff accountId eventTypes events + entry.2 := by
  rw [meteredSpend_concat_charge hcharge hnew]
  split_ifs
  · exact le_rfl
  · exact add_le_add_right zero_le _

variable {julianday : Text → Option ℚ}

theorem voided_wipe (cut : Instant) (queryRunId : Uuid) :
    voided (events.map (EventRow.wipe julianday cut)) queryRunId = voided events queryRunId := by
  rw [voided, voided, List.any_map]
  refine congrArg (List.any events) (funext fun row => ?_)
  show decide ((row.wipe julianday cut).void = some queryRunId) = _
  rw [(row.wipe_sameButIdentifiers julianday cut).entries.2.1]

theorem settledAmount_wipe (cut : Instant) :
    settledAmount (events.map (EventRow.wipe julianday cut)) = settledAmount events := by
  have hactual : ∀ queryRunId,
      reconciledActual (events.map (EventRow.wipe julianday cut)) queryRunId =
      reconciledActual events queryRunId := by
    intro queryRunId
    rw [reconciledActual, reconciledActual, List.findSome?_map]
    refine congrArg (List.findSome? · events) (funext fun row => ?_)
    show ((row.wipe julianday cut).reconciliation.filter _).map _ = _
    rw [(row.wipe_sameButIdentifiers julianday cut).entries.2.2]
  funext entry
  rw [settledAmount, settledAmount, voided_wipe, hactual]

/-- A wipe changes no meter of its time or later. -/
theorem meteredSpend_wipe {now later : Instant} (hlater : now ≤ later)
    (hstamps : StampsSort julianday events) :
    meteredSpend (later.back spendWindow) accountId eventTypes
        (events.map (EventRow.wipe julianday (now.back identifierKeep))) =
      meteredSpend (later.back spendWindow) accountId eventTypes events := by
  have hwindow : ∀ row : EventRow, row.metered (later.back spendWindow) accountId eventTypes →
      isoformat (later.back microsPerDay) ≤ row.recordedAt := by
    intro row hrow
    simp only [EventRow.metered, decide_eq_true_eq] at hrow
    exact hrow.2.2.2
  rw [meteredSpend, meteredSpend, filter_wipe hlater hstamps hwindow, settledAmount_wipe]

end

/-! ### The meters of a sound ledger -/

namespace LedgerWorld.Sound

variable {w : LedgerWorld} {now : Instant}

theorem dailySpendFor (h : w.Sound) (hnow : w.clock ≤ now) (accountId : Uuid) :
    Quorum.dailySpendFor accountId now w.store =
      .ok (meteredSpend (now.back spendWindow) (some accountId) accountChargeEvents
        w.store.events) :=
  h.spendTotalLocked hnow (some accountId) (by decide) (List.Subset.refl _)

theorem globalDailySpend (h : w.Sound) (hnow : w.clock ≤ now) :
    Quorum.globalDailySpend now w.store =
      .ok (meteredSpend (now.back spendWindow) none liveChargeEvents w.store.events) :=
  h.spendTotalLocked hnow none (by decide) (by decide)

end LedgerWorld.Sound

/-! ### The rails that were checked -/

/-- No run is reconciled above its estimate. -/
def WithinEstimates (ops : List LedgerOp) : Prop :=
  ∀ charge attempt reconciliation attempt', LedgerOp.charge charge attempt ∈ ops →
    LedgerOp.reconcile reconciliation attempt' ∈ ops →
    reconciliation.queryRunId = charge.queryRunId →
    reconciliation.actualCostUsd ≤ charge.estimatedCostUsd

/-- The daily cap that the account's latest charge was checked against. -/
def LedgerWorld.dailyCapChecked (w : LedgerWorld) (accountId : Uuid) : Amount :=
  ((w.charges.find? fun request => request.accountId = accountId).map
    ChargeRequest.dailyCapUsd).getD 0

/-- The global ceiling that the latest live charge was checked against, and its estimate. -/
def LedgerWorld.liveRail (w : LedgerWorld) : Option Amount :=
  (w.charges.find? ChargeRequest.liveExecution).map fun request =>
    request.globalCeilingUsd + request.estimatedCostUsd

/-- Without a live charge there is no live spend. -/
def BelowRail (rail : Option Amount) (spend : Amount) : Prop :=
  match rail with
  | none => spend = 0
  | some limit => spend < limit

theorem BelowRail.of_le {rail : Option Amount} {spend spend' : Amount} (h : BelowRail rail spend)
    (hle : spend' ≤ spend) : BelowRail rail spend' := by
  cases rail with
  | none => exact le_antisymm (hle.trans_eq h) zero_le
  | some limit => exact hle.trans_lt h

/-- At every time from the clock on, each account is within the cap and the live spend below the
rail. -/
structure LedgerWorld.Railed (w : LedgerWorld) : Prop where
  account : ∀ now, w.clock ≤ now → ∀ accountId,
    meteredSpend (now.back spendWindow) (some accountId) accountChargeEvents w.store.events ≤
      w.dailyCapChecked accountId
  live : ∀ now, w.clock ≤ now →
    BelowRail w.liveRail (meteredSpend (now.back spendWindow) none liveChargeEvents w.store.events)

/-- What raises no meter and records no charge keeps the rails. -/
theorem LedgerWorld.Railed.of_le {w w' : LedgerWorld} (h : w.Railed) (hclock : w.clock ≤ w'.clock)
    (hcharges : w'.charges = w.charges)
    (hle : ∀ now, w'.clock ≤ now → ∀ accountId eventTypes,
      meteredSpend (now.back spendWindow) accountId eventTypes w'.store.events ≤
        meteredSpend (now.back spendWindow) accountId eventTypes w.store.events) : w'.Railed where
  account now hnow accountId := by
    rw [dailyCapChecked, hcharges]
    exact (hle now hnow _ _).trans (h.account now (hclock.trans hnow) accountId)
  live now hnow := by
    rw [liveRail, hcharges]
    exact (h.live now (hclock.trans hnow)).of_le (hle now hnow _ _)

/-- A charge that passed both checks keeps the rails. -/
theorem LedgerWorld.Railed.charge {w w' : LedgerWorld} (h : w.Railed) {request : ChargeRequest}
    (hevents : w'.store.events = w.store.events ++ [request.row w.clock])
    (hclock : w'.clock = w.clock)
    (hcharges : w'.charges = request :: w.charges)
    (hnew : ∀ other ∈ w.store.events, ∀ correction, other.correction = some correction →
      correction.1 ≠ request.queryRunId)
    (hcap : meteredSpend (w.clock.back spendWindow) (some request.accountId) accountChargeEvents
      w.store.events +
      request.estimatedCostUsd ≤ request.dailyCapUsd)
    (hceiling : meteredSpend (w.clock.back spendWindow) none liveChargeEvents w.store.events <
      request.globalCeilingUsd) : w'.Railed where
  account now hnow accountId := by
    rw [hclock] at hnow
    rw [hevents, dailyCapChecked, hcharges]
    have hcharge := request.row_charge w.clock
    by_cases haccount : request.accountId = accountId
    · rw [List.find?_cons_of_pos (by simp [haccount])]
      subst haccount
      calc meteredSpend (now.back spendWindow) (some request.accountId) accountChargeEvents
              (w.store.events ++ [request.row w.clock])
          ≤ meteredSpend (now.back spendWindow) (some request.accountId) accountChargeEvents
              w.store.events +
              request.estimatedCostUsd := meteredSpend_concat_charge_le hcharge hnew
        _ ≤ meteredSpend (w.clock.back spendWindow) (some request.accountId) accountChargeEvents
              w.store.events + request.estimatedCostUsd :=
            add_le_add_left (meteredSpend_antitone (Instant.back_mono hnow spendWindow)) _
        _ ≤ request.dailyCapUsd := hcap
    · rw [List.find?_cons_of_neg (by simp [haccount])]
      have hother : ¬(request.row w.clock).metered (now.back spendWindow) (some accountId)
          accountChargeEvents := by
        simp [EventRow.metered, EventRow.ofAccount, ChargeRequest.row, haccount]
      rw [meteredSpend_concat_other hcharge hnew hother]
      exact h.account now hnow accountId
  live now hnow := by
    rw [hclock] at hnow
    rw [hevents, liveRail, hcharges]
    have hcharge := request.row_charge w.clock
    cases hlive : request.liveExecution with
    | true =>
        rw [List.find?_cons_of_pos hlive]
        calc meteredSpend (now.back spendWindow) none liveChargeEvents
              (w.store.events ++ [request.row w.clock])
            ≤ meteredSpend (now.back spendWindow) none liveChargeEvents w.store.events +
                request.estimatedCostUsd := meteredSpend_concat_charge_le hcharge hnew
          _ ≤ meteredSpend (w.clock.back spendWindow) none liveChargeEvents w.store.events +
                request.estimatedCostUsd :=
              add_le_add_left (meteredSpend_antitone (Instant.back_mono hnow spendWindow)) _
          _ < request.globalCeilingUsd + request.estimatedCostUsd := add_lt_add_left hceiling _
    | false =>
        rw [List.find?_cons_of_neg (by simp [hlive])]
        have hother : ¬(request.row w.clock).metered (now.back spendWindow) none
            liveChargeEvents := by
          simp [EventRow.metered, ChargeRequest.row, hlive, chargeEventType, liveChargeEvents]
        rw [meteredSpend_concat_other hcharge hnew hother]
        exact h.live now hnow

/-- One operation in order keeps the rails. -/
theorem railed_apply (julianday : Text → Option ℚ) {ops : List LedgerOp} {w : LedgerWorld}
    {op : LedgerOp} (h : w.Railed) (hsound : w.Sound) (hexplained : w.Explained ops)
    (horder : ∀ earlier ∈ ops, earlier.InOrder op) (hwithin : WithinEstimates (ops ++ [op])) :
    (op.apply julianday w).Railed := by
  have hstamps : StampsSort julianday w.store.events := fun row hrow hutc =>
    absurd (hsound.stamps row hrow) hutc
  have hcorrects : ∀ {w' : LedgerWorld} {row : EventRow},
      w'.store.events = w.store.events ++ [row] →
      w'.clock = w.clock → w'.charges = w.charges → row.charge = none →
      (∀ entry ∈ w.store.events.filterMap EventRow.charge, ∀ correction,
        row.reconciliation = some correction →
        correction.1 = entry.1 → correction.2 ≤ entry.2) → w'.Railed := by
    intro w' row hevents hclock hcharges hcharge hle
    refine h.of_le hclock.ge hcharges fun now _ accountId eventTypes => ?_
    rw [hevents]
    exact meteredSpend_concat_le hcharge hle
  cases op.effect julianday w with
  | idle events clock charges =>
      refine h.of_le clock charges fun now _ accountId eventTypes => ?_
      rw [events]
  | wipe events clock charges =>
      refine h.of_le clock.ge charges fun now hnow accountId eventTypes => ?_
      rw [events, meteredSpend_wipe (clock ▸ hnow) hstamps]
  | append row writes events clock charges =>
      cases op with
      | tick span => exact writes.elim
      | wipe => exact writes.elim
      | charge request attempt =>
          obtain ⟨rfl, already, globalSpent, hdaily, hcap, hglobal, hceiling⟩ := writes
          rw [hsound.dailySpendFor le_rfl] at hdaily
          rw [hsound.globalDailySpend le_rfl] at hglobal
          cases hdaily
          cases hglobal
          refine h.charge events clock charges
            (fun other hother correction hcorrection => ?_) hcap hceiling
          exact ((hexplained.causal_charge horder hother
            (hsound.times other hother)).chargedFirst _ _
            hcorrection (request.row_charge w.clock))
      | reconcile request attempt =>
          obtain ⟨rfl, -⟩ := writes
          refine hcorrects events clock charges
            ((request.row w.clock).charge_eq_none_of_correction (request.row_correction w.clock)) ?_
          intro entry hentry correction hcorrection hrun
          rw [request.row_reconciliation] at hcorrection
          cases hcorrection
          obtain ⟨row, hrow, hcharge⟩ := List.mem_filterMap.mp hentry
          obtain ⟨charge, attempt', hmem, hcharged, -⟩ := hexplained.charge row hrow entry hcharge
          subst hcharged
          exact hwithin charge attempt' request attempt (List.mem_append_left _ hmem)
            (List.mem_append_right _ (List.mem_singleton.mpr rfl)) hrun
      | void accountId queryRunId attempt =>
          have hrow : row = voidRow accountId queryRunId w.clock := writes
          subst hrow
          refine hcorrects events clock charges
            (EventRow.charge_eq_none_of_correction
              (voidRow_correction accountId queryRunId w.clock)) ?_
          intro entry _ correction hcorrection
          cases hcorrection
      | mint ip accountId cap attempt =>
          have hrow : row = mintRow ip accountId w.clock := writes
          subst hrow
          refine hcorrects events clock charges rfl fun entry _ correction hcorrection => ?_
          cases hcorrection
      | record recorder name accountId queryRunId payload attempt =>
          have hrow : row = otherRow recorder name accountId queryRunId payload w.clock := writes
          subst hrow
          obtain ⟨hcharge, hcorrection, -⟩ :=
            (otherRow recorder name accountId queryRunId payload w.clock).unmetered
              (show EventType.other name ∉ accountChargeEvents by simp [accountChargeEvents])
              (show EventType.other name ∉ correctionEvents by simp [correctionEvents])
          refine hcorrects events clock charges hcharge fun entry _ correction hreconciliation => ?_
          rw [EventRow.correction, Option.or_eq_none_iff] at hcorrection
          rw [hcorrection.2] at hreconciliation
          cases hreconciliation

theorem railed_runLedger (julianday : Text → Option ℚ) (start : Instant) (ops : List LedgerOp)
    (horder : ops.Pairwise LedgerOp.InOrder) (hwithin : WithinEstimates ops) :
    (runLedger julianday start ops).Railed := by
  induction ops using List.reverseRecOn with
  | nil => exact ⟨fun _ _ _ => zero_le, fun _ _ => rfl⟩
  | append_singleton ops op ih =>
      obtain ⟨hops, -, hlast⟩ := List.pairwise_append.mp horder
      obtain ⟨hsound, hexplained⟩ := sound_runLedger julianday start ops hops
      have hbefore : WithinEstimates ops :=
        fun charge attempt reconciliation attempt' hcharge hreconcile =>
        hwithin charge attempt reconciliation attempt' (List.mem_append_left _ hcharge)
          (List.mem_append_left _ hreconcile)
      rw [runLedger_concat]
      exact railed_apply julianday (ih hops hbefore) hsound hexplained
        (fun earlier hearlier => hlast earlier hearlier op (List.mem_singleton.mpr rfl)) hwithin

/-! ### Recorded charges and their rows -/

/-- The run and the estimate that the row of a charge holds. -/
def ChargeRequest.entry (request : ChargeRequest) : Uuid × Amount :=
  (request.queryRunId, request.estimatedCostUsd)

/-- An operation other than a charge writes no charge row. -/
theorem LedgerOp.Writes.charges {w : LedgerWorld} {op : LedgerOp} {row : EventRow}
    (h : op.Writes w row) :
    [row].filterMap EventRow.charge = op.recorded.map ChargeRequest.entry := by
  have hnone : ∀ {other : EventRow}, other.charge = none →
      [other].filterMap EventRow.charge = [] := by
    intro other hcharge
    rw [List.filterMap_cons_none hcharge, List.filterMap_nil]
  cases op with
  | tick span => exact h.elim
  | charge request attempt =>
      rw [h.1, List.filterMap_cons_some (request.row_charge w.clock)]
      rfl
  | reconcile request attempt =>
      rw [h.1]
      exact hnone (EventRow.charge_eq_none_of_correction (request.row_correction w.clock))
  | void accountId queryRunId attempt =>
      rw [show row = voidRow accountId queryRunId w.clock from h]
      exact hnone
        (EventRow.charge_eq_none_of_correction (voidRow_correction accountId queryRunId w.clock))
  | mint ip accountId cap attempt =>
      rw [show row = mintRow ip accountId w.clock from h]
      exact hnone ((mintRow ip accountId w.clock).unmetered
        (show EventType.sessionMinted ∉ accountChargeEvents by decide)
        (show EventType.sessionMinted ∉ correctionEvents by decide)).1
  | record recorder name accountId queryRunId payload attempt =>
      rw [show row = otherRow recorder name accountId queryRunId payload w.clock from h]
      exact hnone ((otherRow recorder name accountId queryRunId payload w.clock).unmetered
        (show EventType.other name ∉ accountChargeEvents by simp [accountChargeEvents])
        (show EventType.other name ∉ correctionEvents by simp [correctionEvents])).1
  | wipe faults => exact h.elim

/-- The charge rows are those of the recorded charges, in order. -/
def LedgerWorld.Booked (w : LedgerWorld) : Prop :=
  w.store.events.filterMap EventRow.charge = w.charges.reverse.map ChargeRequest.entry

theorem LedgerWorld.Booked.apply {w : LedgerWorld} (h : w.Booked) (julianday : Text → Option ℚ)
    (op : LedgerOp) :
    (op.apply julianday w).Booked := by
  rw [LedgerWorld.Booked]
  cases op.effect julianday w with
  | idle events clock charges => rw [events, charges, h]
  | append row writes events clock charges =>
      have hrecorded : op.recorded.reverse = op.recorded := by cases op <;> rfl
      rw [events, charges, List.filterMap_append, h, writes.charges, List.reverse_append, hrecorded,
        List.map_append]
  | wipe events clock charges =>
      have hkept : EventRow.charge ∘ EventRow.wipe julianday (w.clock.back identifierKeep) =
          EventRow.charge := by
        funext row
        exact (row.wipe_sameButIdentifiers julianday _).entries.1
      rw [events, charges, List.filterMap_map, hkept, h]

theorem booked_runLedger (julianday : Text → Option ℚ) (start : Instant) (ops : List LedgerOp) :
    (runLedger julianday start ops).Booked := by
  induction ops using List.reverseRecOn with
  | nil => rfl
  | append_singleton ops op ih =>
      rw [runLedger_concat]
      exact ih.apply julianday op

/-- In any interleaving where each run is charged once and corrected after the charge for its
account, from the clock on each meter shows what the runs charged in its window really cost; and
where no run is reconciled above its estimate, each account stays within the daily cap that its
latest charge was checked against, and the live spend of all accounts below the checked ceiling and
the estimate of the latest live charge. Every charge that was recorded has its row. -/
theorem ledger_spend_and_rails (julianday : Text → Option ℚ) (start : Instant) (ops : List LedgerOp)
    (horder : ops.Pairwise LedgerOp.InOrder) :
    (∀ now, (runLedger julianday start ops).clock ≤ now →
      (∀ accountId, dailySpendFor accountId now (runLedger julianday start ops).store =
        .ok (meteredSpend (now.back spendWindow) (some accountId) accountChargeEvents
          (runLedger julianday start ops).store.events)) ∧
      globalDailySpend now (runLedger julianday start ops).store =
        .ok (meteredSpend (now.back spendWindow) none liveChargeEvents
          (runLedger julianday start ops).store.events)) ∧
      (WithinEstimates ops → (runLedger julianday start ops).Railed) ∧
      (runLedger julianday start ops).Booked := by
  have hsound := (sound_runLedger julianday start ops horder).1
  refine ⟨fun now hnow => ⟨fun accountId => hsound.dailySpendFor hnow accountId,
    hsound.globalDailySpend hnow⟩, ?_⟩
  exact ⟨railed_runLedger julianday start ops horder, booked_runLedger julianday start ops⟩

/-! A void that names another account than the charge of its run. -/

def strayVoidOps : List LedgerOp :=
  [.charge ⟨1, 7, 1 / 5, 1, 5, true⟩ ⟨true, 0⟩, .void 2 7 ⟨true, 1⟩]

/-- The account still pays for the voided run. -/
theorem strayVoid_counted :
    let w := runLedger sampleJulianday noonOfJanuary strayVoidOps
    voided w.store.events 7 ∧ dailySpendFor 1 noonOfJanuary w.store = .ok (1 / 5) ∧
      meteredSpend (noonOfJanuary.back spendWindow) (some 1) accountChargeEvents
        w.store.events = 0 := by
  decide +kernel

def settledOps : List LedgerOp :=
  [.charge ⟨1, 7, 1 / 5, 1, 5, true⟩ ⟨true, 0⟩, .reconcile ⟨1, 7, 1 / 5, 1 / 10⟩ ⟨true, 1⟩]

theorem ledger_spend_and_rails_settled :
    let w := runLedger sampleJulianday noonOfJanuary settledOps
    dailySpendFor 1 noonOfJanuary w.store = .ok (1 / 10) ∧ w.Railed ∧
      w.store.events.filterMap EventRow.charge = [(7, 1 / 5)] := by
  have horder : settledOps.Pairwise LedgerOp.InOrder := by
    refine List.pairwise_pair.mpr ⟨fun _ _ _ hsecond => ?_, fun _ _ _ hsecond => ?_,
      fun _ _ hfirst hsecond _ => ?_⟩
    · cases hsecond
    · cases hsecond
    · cases hfirst
      cases hsecond
      rfl
  have hwithin : WithinEstimates settledOps := by
    intro charge attempt reconciliation attempt' hcharge hreconcile _
    rcases List.mem_pair.mp hcharge with heq | heq
    · rcases List.mem_pair.mp hreconcile with heq' | heq'
      · cases heq'
      · cases heq
        cases heq'
        decide +kernel
    · cases heq
  obtain ⟨hspend, hrails, hbooked⟩ :=
    ledger_spend_and_rails sampleJulianday noonOfJanuary settledOps horder
  refine ⟨?_, hrails hwithin, ?_⟩
  · rw [(hspend noonOfJanuary (by decide +kernel)).1 1]
    decide +kernel
  · rw [hbooked]
    decide +kernel

end Quorum
