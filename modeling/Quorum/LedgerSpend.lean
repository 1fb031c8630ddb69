import Quorum.LedgerStore

/-! What the meter of the ledger sums. On a ledger whose rows are in causal order the two queries of
the meter and their two loops come to one sum: over the charges in the window, nothing for a run
that was voided, its measured cost if it was reconciled, and its estimate otherwise. -/

namespace Quorum

open IsoTime Transaction

/-! ### Rows as entries -/

/-- The run and the estimate of an opening charge. -/
def EventRow.charge (row : EventRow) : Option (Uuid × Amount) :=
  if row.recorder = .cost ∧ row.eventType ∈ accountChargeEvents then
    row.queryRunId.bind fun queryRunId =>
      (row.payload.bind EventPayload.estimatedCostUsd).map fun estimate => (queryRunId, estimate)
  else none

/-- The run and the measured cost of a reconciliation. -/
def EventRow.reconciliation (row : EventRow) : Option (Uuid × Amount) :=
  if row.recorder = .cost ∧ row.eventType = .costReconciled then
    row.queryRunId.bind fun queryRunId =>
      (row.payload.bind EventPayload.actualCostUsd).map fun actual => (queryRunId, actual)
  else none

/-- The run of a void. -/
def EventRow.void (row : EventRow) : Option Uuid :=
  if row.recorder = .cost ∧ row.eventType = .costChargeVoided then row.queryRunId else none

/-- What a correction puts in the place of an estimate. -/
def EventRow.correction (row : EventRow) : Option (Uuid × Amount) :=
  (row.void.map fun queryRunId => (queryRunId, 0)).or row.reconciliation

/-- The event types of the corrections. -/
def correctionEvents : List EventType := [.costReconciled, .costChargeVoided]

/-- A row of the meters is one that the store can have written. -/
structure EventRow.WellFormed (row : EventRow) : Prop where
  charge : row.recorder = .cost → row.eventType ∈ accountChargeEvents → row.charge.isSome
  correction : row.recorder = .cost → row.eventType ∈ correctionEvents → row.correction.isSome

theorem EventRow.of_charge {row : EventRow} {entry : Uuid × Amount} (h : row.charge = some entry) :
    row.recorder = .cost ∧ row.eventType ∈ accountChargeEvents ∧ row.queryRunId = some entry.1 ∧
      ∃ payload, row.payload = some payload ∧ payload.estimatedCostUsd = some entry.2 := by
  rw [EventRow.charge] at h
  split_ifs at h with hkind
  obtain ⟨queryRunId, hrun, h⟩ := Option.bind_eq_some_iff.mp h
  obtain ⟨estimate, hestimate, rfl⟩ := Option.map_eq_some_iff.mp h
  exact ⟨hkind.1, hkind.2, hrun, Option.bind_eq_some_iff.mp hestimate⟩

theorem EventRow.of_reconciliation {row : EventRow} {entry : Uuid × Amount}
    (h : row.reconciliation = some entry) :
    row.recorder = .cost ∧ row.eventType = .costReconciled ∧ row.queryRunId = some entry.1 ∧
      ∃ payload, row.payload = some payload ∧ payload.actualCostUsd = some entry.2 := by
  rw [EventRow.reconciliation] at h
  split_ifs at h with hkind
  obtain ⟨queryRunId, hrun, h⟩ := Option.bind_eq_some_iff.mp h
  obtain ⟨actual, hactual, rfl⟩ := Option.map_eq_some_iff.mp h
  exact ⟨hkind.1, hkind.2, hrun, Option.bind_eq_some_iff.mp hactual⟩

theorem EventRow.of_void {row : EventRow} {queryRunId : Uuid} (h : row.void = some queryRunId) :
    row.recorder = .cost ∧ row.eventType = .costChargeVoided ∧
    row.queryRunId = some queryRunId := by
  rw [EventRow.void] at h
  split_ifs at h with hkind
  exact ⟨hkind.1, hkind.2, h⟩

/-- A correction is a void or a reconciliation. -/
theorem EventRow.of_correction {row : EventRow} {entry : Uuid × Amount}
    (h : row.correction = some entry) :
    (row.void = some entry.1 ∧ entry.2 = 0)
    ∨ (row.void = none ∧ row.reconciliation = some entry) := by
  rw [EventRow.correction, Option.or_eq_some_iff] at h
  rcases h with hvoid | ⟨hvoid, hreconciliation⟩
  · obtain ⟨queryRunId, hrun, rfl⟩ := Option.map_eq_some_iff.mp hvoid
    exact .inl ⟨hrun, rfl⟩
  · exact .inr ⟨Option.map_eq_none_iff.mp hvoid, hreconciliation⟩

theorem EventRow.correction_kind {row : EventRow} {entry : Uuid × Amount}
    (h : row.correction = some entry) :
    row.recorder = .cost ∧ row.eventType ∈ correctionEvents ∧ row.queryRunId = some entry.1 := by
  rcases row.of_correction h with ⟨hvoid, -⟩ | ⟨-, hreconciliation⟩
  · obtain ⟨hrecorder, htype, hrun⟩ := row.of_void hvoid
    exact ⟨hrecorder, by rw [htype]; decide, hrun⟩
  · obtain ⟨hrecorder, htype, hrun, -⟩ := row.of_reconciliation hreconciliation
    exact ⟨hrecorder, by rw [htype]; decide, hrun⟩

/-! ### The loops of the meter -/

/-- A loop that never raises is a fold over the entries of its rows. -/
theorem foldlM_entries {σ : Type} {entryOf : EventRow → Option (Uuid × Amount)}
    {rows : List EventRow} {f : σ → EventRow → Except LedgerError σ} {g : σ → Uuid × Amount → σ}
    (h : ∀ row ∈ rows, ∃ entry, entryOf row = some entry ∧ ∀ s, f s row = .ok (g s entry)) (s : σ) :
    rows.foldlM f s = .ok ((rows.filterMap entryOf).foldl g s) := by
  induction rows generalizing s with
  | nil => rfl
  | cons row rows ih =>
      obtain ⟨entry, hentry, hstep⟩ := h row List.mem_cons_self
      rw [List.foldlM_cons, hstep s, List.filterMap_cons_some hentry, List.foldl_cons]
      exact ih (fun r hr => h r (List.mem_cons_of_mem row hr)) (g s entry)

theorem addCharge_of_charge {row : EventRow} {entry : Uuid × Amount} (h : row.charge = some entry)
    (totals : Dict Uuid Amount × Amount) :
    addCharge totals row = .ok (Tally.add totals.1 entry, totals.2) := by
  obtain ⟨-, -, hrun, payload, hpayload, hestimate⟩ := row.of_charge h
  rw [addCharge, loads, hpayload, hrun]
  show Except.ok (Tally.add totals.1 (entry.1, payload.estimatedCostUsd.getD 0), totals.2) = _
  rw [hestimate]
  rfl

theorem applyCorrection_of_correction {row : EventRow} {entry : Uuid × Amount}
    (h : row.correction = some entry) (charged : Dict Uuid Amount) :
    applyCorrection charged row = .ok (Tally.replace charged entry) := by
  have hrun := (row.correction_kind h).2.2
  rw [applyCorrection, hrun, Tally.replace]
  cases hget : charged.get? entry.1 with
  | none => simp [hget, pure, Except.pure]
  | some amount =>
      rcases row.of_correction h with ⟨hvoid, hzero⟩ | ⟨-, hreconciliation⟩
      · obtain ⟨-, htype, -⟩ := row.of_void hvoid
        simp [hget, htype, hzero, pure, Except.pure]
      · obtain ⟨-, htype, -, payload, hpayload, hactual⟩ := row.of_reconciliation hreconciliation
        simp [hget, htype, loads, hpayload, hactual, pure, Except.pure, bind, Except.bind]

/-! ### What a run really cost -/

def voided (events : List EventRow) (queryRunId : Uuid) : Bool :=
  events.any fun row => row.void = some queryRunId

/-- The measured cost of the run's reconciliation. -/
def reconciledActual (events : List EventRow) (queryRunId : Uuid) : Option Amount :=
  events.findSome? fun row =>
    (row.reconciliation.filter fun entry => entry.1 = queryRunId).map Prod.snd

/-- Nothing for a voided run, its measured cost for a reconciled one, its estimate otherwise. -/
def settledAmount (events : List EventRow) (entry : Uuid × Amount) : Amount :=
  if voided events entry.1 then 0 else (reconciledActual events entry.1).getD entry.2

/-- The sum of the meter, over the charges that it sees. -/
def meteredSpend (cutoff : Instant) (accountId : Option Uuid) (eventTypes : List EventType)
    (events : List EventRow) : Amount :=
  (((events.filter (EventRow.metered cutoff accountId eventTypes)).filterMap EventRow.charge).map
    (settledAmount events)).sum

theorem voided_cons (row : EventRow) (events : List EventRow) (queryRunId : Uuid) :
    voided (row :: events) queryRunId =
      (decide (row.void = some queryRunId) || voided events queryRunId) :=
  List.any_cons

theorem reconciledActual_cons_self {row : EventRow} {entry : Uuid × Amount} (events : List EventRow)
    (h : row.reconciliation = some entry) :
    reconciledActual (row :: events) entry.1 = some entry.2 := by
  simp [reconciledActual, h, Option.filter]

theorem reconciledActual_cons_of_ne {row : EventRow} {queryRunId : Uuid} (events : List EventRow)
    (h : ∀ entry, row.reconciliation = some entry → entry.1 ≠ queryRunId) :
    reconciledActual (row :: events) queryRunId = reconciledActual events queryRunId := by
  cases hentry : row.reconciliation with
  | none => simp [reconciledActual, hentry]
  | some entry => simp [reconciledActual, hentry, Option.filter, h entry hentry]

theorem EventRow.void_eq_none_of_correction {row : EventRow} (h : row.correction = none) :
    row.void = none := by
  rw [EventRow.correction, Option.or_eq_none_iff] at h
  exact Option.map_eq_none_iff.mp h.1

/-- Corrections without a reconciliation of the run: a void takes everything. -/
theorem settle_of_no_reconciliation {events : List EventRow} {queryRunId : Uuid}
    (h : ∀ row ∈ events, ∀ entry, row.reconciliation = some entry → entry.1 ≠ queryRunId)
    (amount : Amount) :
    Tally.settle queryRunId amount (events.filterMap EventRow.correction) =
      if voided events queryRunId then 0 else amount := by
  induction events generalizing amount with
  | nil => rfl
  | cons row events ih =>
      have hrest := ih fun r hr => h r (List.mem_cons_of_mem row hr)
      rw [voided_cons]
      cases hcorrection : row.correction with
      | none =>
          rw [List.filterMap_cons_none hcorrection, hrest,
            row.void_eq_none_of_correction hcorrection]
          rfl
      | some entry =>
          rw [List.filterMap_cons_some hcorrection]
          show Tally.settle queryRunId (if entry.1 = queryRunId then entry.2 else amount) _ = _
          rw [hrest]
          rcases row.of_correction hcorrection with ⟨hvoid, hzero⟩ | ⟨hvoid, hreconciliation⟩
          · by_cases hrun : entry.1 = queryRunId
            · simp [hvoid, hrun, hzero]
            · simp [hvoid, hrun]
          · have hne := h row List.mem_cons_self entry hreconciliation
            simp [hvoid, hne]

/-- No reconciliation of a run follows another correction of it. -/
def ReconciledFirst (earlier later : EventRow) : Prop :=
  ∀ entry entry', earlier.correction = some entry → later.reconciliation = some entry' →
    entry.1 ≠ entry'.1

/-- The corrections of a run come to what the run really cost. -/
theorem settle_corrections {events : List EventRow} (h : events.Pairwise ReconciledFirst)
    (entry : Uuid × Amount) :
    Tally.settle entry.1 entry.2 (events.filterMap EventRow.correction) =
      settledAmount events entry := by
  induction events with
  | nil => rfl
  | cons row events ih =>
      obtain ⟨hfirst, hrest⟩ := List.pairwise_cons.mp h
      rw [settledAmount, voided_cons]
      cases hcorrection : row.correction with
      | none =>
          have hnone : ∀ e, row.reconciliation = some e → e.1 ≠ entry.1 := by
            intro e he
            rw [EventRow.correction, Option.or_eq_none_iff] at hcorrection
            rw [hcorrection.2] at he
            cases he
          rw [List.filterMap_cons_none hcorrection, ih hrest,
            row.void_eq_none_of_correction hcorrection, reconciledActual_cons_of_ne events hnone]
          rfl
      | some correction =>
          rw [List.filterMap_cons_some hcorrection]
          show Tally.settle entry.1 (if correction.1 = entry.1 then correction.2 else entry.2) _ = _
          by_cases hrun : correction.1 = entry.1
          · have hlater : ∀ r ∈ events, ∀ e, r.reconciliation = some e → e.1 ≠ entry.1 :=
              fun r hr e he => by
              rw [← hrun]
              exact (hfirst r hr correction e hcorrection he).symm
            rw [if_pos hrun, settle_of_no_reconciliation hlater]
            rcases row.of_correction hcorrection with ⟨hvoid, hzero⟩ | ⟨hvoid, hreconciliation⟩
            · simp [hvoid, hrun, hzero]
            · have hself := reconciledActual_cons_self events hreconciliation
              rw [hrun] at hself
              simp [hvoid, hself]
          · rw [if_neg hrun, ih hrest, settledAmount]
            rcases row.of_correction hcorrection with ⟨hvoid, -⟩ | ⟨hvoid, hreconciliation⟩
            · have hnone : ∀ e, row.reconciliation = some e → e.1 ≠ entry.1 := by
                intro e he
                obtain ⟨-, htype, -⟩ := row.of_void hvoid
                obtain ⟨-, htype', -⟩ := row.of_reconciliation he
                rw [htype] at htype'
                cases htype'
              simp [hvoid, hrun, reconciledActual_cons_of_ne events hnone]
            · have hnone : ∀ e, row.reconciliation = some e → e.1 ≠ entry.1 := by
                intro e he
                rw [hreconciliation] at he
                cases he
                exact hrun
              simp [hvoid, reconciledActual_cons_of_ne events hnone]

theorem foldl_add_fst (entries : List (Uuid × Amount)) (totals : Dict Uuid Amount × Amount) :
    entries.foldl (fun totals entry => (Tally.add totals.1 entry, totals.2)) totals =
      (entries.foldl Tally.add totals.1, totals.2) := by
  induction entries generalizing totals with
  | nil => rfl
  | cons entry entries ih => rw [List.foldl_cons, ih, List.foldl_cons]

theorem eq_nil_of_foldl_add {entries : List (Uuid × Amount)} (hruns : (entries.map Prod.fst).Nodup)
    (h : (entries.foldl Tally.add Dict.empty).items = []) : entries = [] := by
  refine List.eq_nil_iff_forall_not_mem.mpr fun entry hentry => ?_
  have hget := Tally.get?_foldl_add entries Dict.empty hruns (fun _ _ => rfl) hentry
  rw [Dict.get?_eq_some_iff, h] at hget
  exact List.not_mem_nil hget

/-- Where every row is well formed, no run is charged twice, no reconciliation follows another
correction, and the window that shows a charge shows its corrections, the meter sums what the
charged runs really cost. -/
theorem spendTotalLocked_eq {cutoff : Instant} {accountId : Option Uuid}
    {eventTypes : List EventType}
    {events : List EventRow} (hne : eventTypes ≠ []) (hsub : eventTypes ⊆ accountChargeEvents)
    (hrows : ∀ row ∈ events, row.WellFormed)
    (hruns : ((events.filterMap EventRow.charge).map Prod.fst).Nodup)
    (hfirst : events.Pairwise ReconciledFirst)
    (hwindow : ∀ row ∈ events, row.metered cutoff accountId eventTypes →
      ∀ entry, row.charge = some entry → ∀ later ∈ events, ∀ entry',
        later.correction = some entry' →
        entry'.1 = entry.1 → later.metered cutoff accountId correctionEvents) :
    spendTotalLocked cutoff accountId eventTypes events =
      .ok (meteredSpend cutoff accountId eventTypes events) := by
  set charges := events.filter (EventRow.metered cutoff accountId eventTypes) with hcharges
  set corrections :=
    events.filter (EventRow.metered cutoff accountId correctionEvents) with hcorrections
  have hmetered : ∀ types, ∀ row : EventRow, row.metered cutoff accountId types →
      row.recorder = .cost ∧ row.eventType ∈ types := by
    intro types row h
    simp only [EventRow.metered, decide_eq_true_eq] at h
    exact ⟨h.1, h.2.1⟩
  have hchargeLoop : charges.foldlM addCharge (Dict.empty, 0) =
      .ok ((charges.filterMap EventRow.charge).foldl Tally.add Dict.empty, 0) := by
    rw [foldlM_entries (g := fun totals entry => (Tally.add totals.1 entry, totals.2))
      fun row hrow => ?_,
      foldl_add_fst]
    obtain ⟨hmem, hseen⟩ := List.mem_filter.mp hrow
    obtain ⟨hrecorder, htype⟩ := hmetered _ row hseen
    obtain ⟨entry, hentry⟩ :=
      Option.isSome_iff_exists.mp ((hrows row hmem).charge hrecorder (hsub htype))
    exact ⟨entry, hentry, addCharge_of_charge hentry⟩
  have hcorrectionLoop : ∀ charged, corrections.foldlM applyCorrection charged =
      .ok ((corrections.filterMap EventRow.correction).foldl Tally.replace charged) := by
    intro charged
    refine foldlM_entries (fun row hrow => ?_) charged
    obtain ⟨hmem, hseen⟩ := List.mem_filter.mp hrow
    obtain ⟨hrecorder, htype⟩ := hmetered _ row hseen
    obtain ⟨entry, hentry⟩ :=
      Option.isSome_iff_exists.mp ((hrows row hmem).correction hrecorder htype)
    exact ⟨entry, hentry, applyCorrection_of_correction hentry⟩
  have hnodup : ((charges.filterMap EventRow.charge).map Prod.fst).Nodup :=
    hruns.sublist ((List.filter_sublist.filterMap _).map _)
  have hsum : ((corrections.filterMap EventRow.correction).foldl Tally.replace
      ((charges.filterMap EventRow.charge).foldl Tally.add Dict.empty)).values.sum =
      meteredSpend cutoff accountId eventTypes events := by
    rw [Tally.sum_values_settled _ _ hnodup, meteredSpend]
    refine congrArg List.sum (List.map_congr_left fun entry hentry => ?_)
    obtain ⟨row, hrow, hcharge⟩ := List.mem_filterMap.mp hentry
    obtain ⟨hmem, hseen⟩ := List.mem_filter.mp hrow
    rw [← settle_corrections hfirst]
    exact Tally.settle_filter _ _ _ _ _ (hwindow row hmem hseen entry hcharge)
  rw [spendTotalLocked, if_neg hne]
  show (charges.foldlM addCharge (Dict.empty, 0) >>= _) = _
  rw [hchargeLoop]
  show (if ((charges.filterMap EventRow.charge).foldl Tally.add Dict.empty).items = [] then pure 0
    else corrections.foldlM applyCorrection _ >>= _) = _
  split_ifs with hempty
  · have hnil := eq_nil_of_foldl_add hnodup hempty
    rw [meteredSpend, ← hcharges, hnil]
    rfl
  · rw [hcorrectionLoop]
    show Except.ok (0 + _) = _
    rw [hsum, zero_add]

end Quorum
