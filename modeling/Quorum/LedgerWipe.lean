import Quorum.LedgerSpend

/-! The identifier wipe. A pass rewrites rows past their keep time in place and reads no amount, so
what a later window of a meter shows is as before: a stamp in UTC is compared as text both by the
pass and by the meters, and the two days of the keep time leave a day for stamps in any other
zone. -/

namespace Quorum

open IsoTime Transaction

section

variable (julianday : Text → Option ℚ)

/-! ### One row -/

/-- A row after both updates of a pass. -/
def EventRow.wipe (cut : Instant) (row : EventRow) : EventRow :=
  (row.wipeCostKey julianday cut).wipeMintAddress julianday cut

/-- What an update leaves of a row: all but the identifiers and, where it is not JSON, the
payload. -/
structure EventRow.SameButIdentifiers (row row' : EventRow) : Prop where
  recorder : row'.recorder = row.recorder
  eventType : row'.eventType = row.eventType
  queryRunId : row'.queryRunId = row.queryRunId
  recordedAt : row'.recordedAt = row.recordedAt
  payload : ∀ payload, row.payload = some payload → ∃ payload', row'.payload = some payload' ∧
    payload'.estimatedCostUsd = payload.estimatedCostUsd ∧
    payload'.actualCostUsd = payload.actualCostUsd
  unreadable : row.payload = none → row'.payload = none ∨
    row'.payload = some unreadablePayloadMarker

theorem EventRow.SameButIdentifiers.refl (row : EventRow) : row.SameButIdentifiers row :=
  ⟨rfl, rfl, rfl, rfl, fun payload h => ⟨payload, h, rfl, rfl⟩, .inl⟩

/-- No amount of a row is an identifier. -/
theorem EventRow.SameButIdentifiers.entries {row row' : EventRow}
    (h : row.SameButIdentifiers row') :
    row'.charge = row.charge ∧ row'.void = row.void ∧ row'.reconciliation = row.reconciliation := by
  have hamounts : row'.payload.bind EventPayload.estimatedCostUsd =
      row.payload.bind EventPayload.estimatedCostUsd ∧
      row'.payload.bind EventPayload.actualCostUsd =
        row.payload.bind EventPayload.actualCostUsd := by
    cases hpayload : row.payload with
    | none =>
        rcases h.unreadable hpayload with hnone | hmarker <;> simp [*, unreadablePayloadMarker]
    | some payload =>
        obtain ⟨payload', hpayload', hestimate, hactual⟩ := h.payload payload hpayload
        simp [hpayload', hestimate, hactual]
  rw [EventRow.charge, EventRow.charge, EventRow.void, EventRow.void, EventRow.reconciliation,
    EventRow.reconciliation, h.recorder, h.eventType, h.queryRunId, hamounts.1, hamounts.2]
  exact ⟨rfl, rfl, rfl⟩

variable {julianday}

theorem EventRow.costKeyDue_older {cut : Instant} {row : EventRow}
    (h : row.costKeyDue julianday cut) :
    row.recorder = .cost ∧ olderThanCut julianday cut row.recordedAt := by
  simp only [EventRow.costKeyDue, decide_eq_true_eq] at h
  exact ⟨h.1, h.2.1⟩

theorem EventRow.mintAddressDue_older {cut : Instant} {row : EventRow}
    (h : row.mintAddressDue julianday cut) :
    row.recorder = .session ∧ row.eventType = .sessionMinted ∧
    olderThanCut julianday cut row.recordedAt := by
  simp only [EventRow.mintAddressDue, decide_eq_true_eq] at h
  exact ⟨h.1, h.2.1, h.2.2.1⟩

/-- The two updates reach rows of two recorders. -/
theorem EventRow.wipe_of_cost {cut : Instant} {row : EventRow} (h : row.recorder = .cost) :
    row.wipe julianday cut = row.wipeCostKey julianday cut := by
  have hrecorder : (row.wipeCostKey julianday cut).recorder = .cost := by
    rw [EventRow.wipeCostKey]
    split_ifs <;> exact h
  refine if_neg fun hdue => ?_
  rw [(EventRow.mintAddressDue_older hdue).1] at hrecorder
  cases hrecorder

theorem EventRow.wipe_of_not_cost {cut : Instant} {row : EventRow} (h : row.recorder ≠ .cost) :
    row.wipe julianday cut = row.wipeMintAddress julianday cut := by
  have hsame : row.wipeCostKey julianday cut = row :=
    if_neg fun hdue => h (EventRow.costKeyDue_older hdue).1
  rw [EventRow.wipe, hsame]

/-- A pass leaves a row alone, or the row is older than the cut and loses only identifiers. -/
theorem EventRow.wipe_cases (julianday : Text → Option ℚ) (cut : Instant) (row : EventRow) :
    row.wipe julianday cut = row ∨
      (olderThanCut julianday cut row.recordedAt ∧ row.SameButIdentifiers (row.wipe julianday cut) ∧
        ((row.recorder = .cost ∧ (row.wipe julianday cut).accountId = none) ∨
          (row.recorder = .session ∧ row.eventType = .sessionMinted ∧
            (row.wipe julianday cut).accountId = row.accountId))) := by
  by_cases hcost : row.recorder = .cost
  · rw [EventRow.wipe_of_cost hcost, EventRow.wipeCostKey]
    split_ifs with hdue
    · refine .inr ⟨(EventRow.costKeyDue_older hdue).2,
        ⟨rfl, rfl, rfl, rfl, fun payload h => ?_, fun h => ?_⟩,
        .inl ⟨hcost, rfl⟩⟩
      · rw [h]
        exact ⟨_, rfl, rfl, rfl⟩
      · rw [h]
        exact .inr rfl
    · exact .inl rfl
  · rw [EventRow.wipe_of_not_cost hcost, EventRow.wipeMintAddress]
    split_ifs with hdue
    · obtain ⟨hrecorder, htype, holder⟩ := EventRow.mintAddressDue_older hdue
      refine .inr ⟨holder, ⟨rfl, rfl, rfl, rfl, fun payload h => ?_, fun h => ?_⟩,
        .inr ⟨hrecorder, htype, rfl⟩⟩
      · rw [h]
        exact ⟨_, rfl, rfl, rfl⟩
      · rw [h]
        exact .inr rfl
    · exact .inl rfl

theorem EventRow.wipe_sameButIdentifiers (julianday : Text → Option ℚ) (cut : Instant)
    (row : EventRow) :
    row.SameButIdentifiers (row.wipe julianday cut) := by
  rcases row.wipe_cases julianday cut with hsame | ⟨-, hsame, -⟩
  · rw [hsame]
    exact .refl row
  · exact hsame

/-- After a pass no row is due. -/
theorem EventRow.not_due_wipe (julianday : Text → Option ℚ) (cut : Instant) (row : EventRow) :
    ¬(row.wipe julianday cut).costKeyDue julianday cut ∧
      ¬(row.wipe julianday cut).mintAddressDue julianday cut := by
  by_cases hcost : row.recorder = .cost
  · rw [EventRow.wipe_of_cost hcost]
    have hrecorder : (row.wipeCostKey julianday cut).recorder = .cost := by
      rw [EventRow.wipeCostKey]
      split_ifs <;> exact hcost
    refine ⟨?_, fun hdue => by
      rw [(EventRow.mintAddressDue_older hdue).1] at hrecorder
      cases hrecorder⟩
    rw [EventRow.wipeCostKey]
    split_ifs with hdue
    · cases hpayload : row.payload <;> simp [EventRow.costKeyDue, unreadablePayloadMarker]
    · exact hdue
  · rw [EventRow.wipe_of_not_cost hcost]
    have hrecorder : (row.wipeMintAddress julianday cut).recorder ≠ .cost := by
      rw [EventRow.wipeMintAddress]
      split_ifs <;> exact hcost
    refine ⟨fun hdue => hrecorder (EventRow.costKeyDue_older hdue).1, ?_⟩
    rw [EventRow.wipeMintAddress]
    split_ifs with hdue
    · cases hpayload : row.payload <;> simp [EventRow.mintAddressDue, unreadablePayloadMarker]
    · exact hdue

theorem EventRow.wipe_of_not_due {cut : Instant} {row : EventRow}
    (hcost : ¬row.costKeyDue julianday cut) (hmint : ¬row.mintAddressDue julianday cut) :
    row.wipe julianday cut = row := by
  have hsame : row.wipeCostKey julianday cut = row := if_neg hcost
  rw [EventRow.wipe, hsame]
  exact if_neg hmint

/-! ### A pass -/

theorem map_wipe_of_none_due {cut : Instant} {events : List EventRow}
    (h : ¬events.any fun row => row.costKeyDue julianday cut || row.mintAddressDue julianday cut) :
    events.map (EventRow.wipe julianday cut) = events := by
  have hnone : ∀ row ∈ events, row.wipe julianday cut = row := by
    intro row hrow
    have hdue : ¬(row.costKeyDue julianday cut || row.mintAddressDue julianday cut) = true :=
      fun hdue =>
      h (List.any_eq_true.mpr ⟨row, hrow, hdue⟩)
    rw [Bool.or_eq_true, not_or] at hdue
    exact EventRow.wipe_of_not_due hdue.1 hdue.2
  calc events.map (EventRow.wipe julianday cut) = events.map id := List.map_congr_left hnone
    _ = events := List.map_id events

/-- The store after a pass that committed. -/
def FeedbackStore.wiped (julianday : Text → Option ℚ) (cut : Instant) (store : FeedbackStore) :
    FeedbackStore :=
  { store with events := store.events.map (EventRow.wipe julianday cut) }

theorem execute_fault {α : Type} {faults : Faults LedgerError} {n : ℕ} {raised : LedgerError}
    (h : faults n = some raised) (statement : FeedbackStore → α × FeedbackStore)
    (store : FeedbackStore) :
    execute faults n statement store = .error raised store := by
  rw [execute, h]

theorem execute_run {α : Type} {faults : Faults LedgerError} {n : ℕ} (h : faults n = none)
    (statement : FeedbackStore → α × FeedbackStore) (store : FeedbackStore) :
    execute faults n statement store = .ok (statement store).1 (statement store).2 := by
  rw [execute, h]

/-- A pass raises and changes nothing, or it rewrites every due row. -/
theorem wipeLocked_cases (julianday : Text → Option ℚ) (faults : Faults LedgerError) (cut : Instant)
    (store : FeedbackStore) :
    (∃ raised, wipeLocked julianday faults cut store = .error raised store) ∨
      ∃ result, wipeLocked julianday faults cut store = .ok result (store.wiped julianday cut) := by
  rw [wipeLocked]
  cases hcount : faults 5 with
  | some raised => exact .inl ⟨raised, bind_of_error _ (execute_fault hcount _ store)⟩
  | none =>
      rw [bind_of_ok _ (execute_run hcount _ store)]
      by_cases hdue : store.events.any fun row => row.costKeyDue julianday cut
        || row.mintAddressDue julianday cut
      · rw [if_pos hdue]
        rcases transaction_cases faults 4 _ store with ⟨raised, hrun⟩ | ⟨answer, s, hbody, -⟩ |
          ⟨answer, s, hbody, hrun⟩
        · exact .inl ⟨raised, hrun⟩
        · obtain ⟨malformed, s₁, -, hbody⟩ := bind_ok hbody
          obtain ⟨cost, s₂, -, hbody⟩ := bind_ok hbody
          obtain ⟨mint, s₃, -, hbody⟩ := bind_ok hbody
          cases (pure_ok hbody).1
        · obtain ⟨malformed, s₁, hmalformed, hbody⟩ := bind_ok hbody
          obtain ⟨cost, s₂, hcost, hbody⟩ := bind_ok hbody
          obtain ⟨mint, s₃, hmint, hbody⟩ := bind_ok hbody
          obtain ⟨-, hs₁⟩ := execute_ok hmalformed
          obtain ⟨-, hs₂⟩ := execute_ok hcost
          obtain ⟨-, hs₃⟩ := execute_ok hmint
          obtain ⟨-, hs⟩ := pure_ok hbody
          have hwiped : s = store.wiped julianday cut := by
            rw [hs, hs₃, hs₂, hs₁, FeedbackStore.wiped, rewriteEvents, rewriteEvents]
            simp only [List.map_map]
            rfl
          rw [hwiped] at hrun
          exact .inr ⟨answer, hrun⟩
      · rw [if_neg hdue]
        have hwiped : store.wiped julianday cut = store := by
          rw [FeedbackStore.wiped, map_wipe_of_none_due hdue]
        rw [hwiped]
        exact .inr ⟨_, rfl⟩

/-- Where no statement raises, a pass commits. -/
theorem wipeLocked_of_no_fault (julianday : Text → Option ℚ) {faults : Faults LedgerError}
    (h : ∀ n, faults n = none) (cut : Instant) (store : FeedbackStore) :
    ∃ result, wipeLocked julianday faults cut store = .ok result (store.wiped julianday cut) := by
  rcases wipeLocked_cases julianday faults cut store with ⟨raised, hraise⟩ | hok
  · exfalso
    rw [wipeLocked, bind_of_ok _ (execute_run (h 5) _ store)] at hraise
    split_ifs at hraise with hdue
    · simp [transaction, execute, h, Bind.bind, EStateM.bind, Pure.pure, EStateM.pure] at hraise
    · cases hraise
  · exact hok

/-- The public method answers either way. -/
theorem wipeExpiredIdentifiers_cases (julianday : Text → Option ℚ) (faults : Faults LedgerError)
    (now : Instant) (store : FeedbackStore) :
    after (wipeExpiredIdentifiers julianday faults now) store = store ∨
      after (wipeExpiredIdentifiers julianday faults now) store =
        store.wiped julianday (now.back identifierKeep) := by
  rw [wipeExpiredIdentifiers, after_recover]
  rcases wipeLocked_cases julianday faults (now.back identifierKeep) store with ⟨raised, hrun⟩ |
    ⟨result, hrun⟩
  · exact .inl (after_of_error hrun)
  · exact .inr (after_of_ok hrun)

theorem wiped_wiped (cut : Instant) (store : FeedbackStore) :
    (store.wiped julianday cut).wiped julianday cut = store.wiped julianday cut := by
  have hnone : ¬(store.wiped julianday cut).events.any fun row =>
      row.costKeyDue julianday cut || row.mintAddressDue julianday cut := by
    intro hdue
    obtain ⟨row', hrow', hdue⟩ := List.any_eq_true.mp hdue
    obtain ⟨row, -, rfl⟩ := List.mem_map.mp hrow'
    obtain ⟨hcost, hmint⟩ := row.not_due_wipe julianday cut
    simp [hcost, hmint] at hdue
  rw [FeedbackStore.wiped, map_wipe_of_none_due hnone]

/-! ### The windows of the meters -/

/-- A stamp in another zone sorts among the UTC texts within a day of where its instant belongs. -/
def SortsWithinADay (julianday : Text → Option ℚ) (recordedAt : Text) : Prop :=
  ∀ (t : Instant) (day cutDay : ℚ), isoformat t ≤ recordedAt → julianday recordedAt = some day →
    julianday (isoformat (t.back microsPerDay)) = some cutDay → cutDay ≤ day

/-- The stamps of a ledger are UTC texts, or they sort within a day of their instants. -/
def StampsSort (julianday : Text → Option ℚ) (events : List EventRow) : Prop :=
  ∀ row ∈ events, ¬utcOffset <:+ row.recordedAt → SortsWithinADay julianday row.recordedAt

theorem olderThanCut_of_utc {cut : Instant} {recordedAt : Text} (h : utcOffset <:+ recordedAt) :
    olderThanCut julianday cut recordedAt ↔ recordedAt < isoformat cut := by
  rw [olderThanCut, if_pos h, decide_eq_true_eq]

theorem olderThanCut_isoformat (cut t : Instant) : olderThanCut julianday cut (isoformat t)
    ↔ t < cut := by
  rw [olderThanCut_of_utc (utcOffset_suffix_isoformat t), isoformat_lt_iff]

theorem back_back (t : Instant) :
    (t.back microsPerDay).back microsPerDay = t.back identifierKeep := by
  ext
  show t.val - microsPerDay - microsPerDay = t.val - identifierKeep
  rw [Nat.sub_sub, identifierKeep, Nat.two_mul]

/-- A row past its keep time is before every window of a day. -/
theorem lt_window_of_older {now later : Instant} {row : EventRow} (hlater : now ≤ later)
    (hstamp : ¬utcOffset <:+ row.recordedAt → SortsWithinADay julianday row.recordedAt)
    (h : olderThanCut julianday (now.back identifierKeep) row.recordedAt) :
    row.recordedAt < isoformat (later.back microsPerDay) := by
  have hmono : isoformat (now.back microsPerDay) ≤ isoformat (later.back microsPerDay) :=
    isoformat_le_iff.mpr (Instant.back_mono hlater microsPerDay)
  refine lt_of_lt_of_le ?_ hmono
  rw [olderThanCut] at h
  split_ifs at h with hutc
  · refine (decide_eq_true_eq.mp h).trans_le (isoformat_le_iff.mpr ?_)
    exact Instant.back_le_back le_rfl (by unfold identifierKeep; omega)
  · by_contra hnot
    rw [not_lt] at hnot
    rw [← back_back] at h
    cases hday : julianday row.recordedAt with
    | none => simp [hday] at h
    | some day =>
        cases hcut : julianday (isoformat ((now.back microsPerDay).back microsPerDay)) with
        | none => simp [hcut] at h
        | some cutDay =>
            have hle := hstamp hutc (now.back microsPerDay) day cutDay hnot hday hcut
            simp only [hday, hcut, decide_eq_true_eq] at h
            exact absurd h (not_lt.mpr hle)

/-- A query over a later window reads the same rows before and after a pass. -/
theorem filter_wipe {now later : Instant} (hlater : now ≤ later) {events : List EventRow}
    (hstamps : StampsSort julianday events) {p : EventRow → Bool}
    (hp : ∀ row, p row → isoformat (later.back microsPerDay) ≤ row.recordedAt) :
    (events.map (EventRow.wipe julianday (now.back identifierKeep))).filter p =
      events.filter p := by
  induction events with
  | nil => rfl
  | cons row events ih =>
      have hrest := ih fun r hr => hstamps r (List.mem_cons_of_mem row hr)
      rw [List.map_cons]
      rcases row.wipe_cases julianday (now.back identifierKeep) with hsame | ⟨holder, hsame, -⟩
      · rw [hsame, List.filter_cons, List.filter_cons, hrest]
      · have hbefore := lt_window_of_older hlater (hstamps row List.mem_cons_self) holder
        have hout : ∀ r : EventRow, r.recordedAt = row.recordedAt → ¬p r := fun r hr hin =>
          absurd (hr ▸ hp r hin) (not_le.mpr hbefore)
        rw [List.filter_cons_of_neg (hout _ hsame.recordedAt), List.filter_cons_of_neg (hout _ rfl),
          hrest]

theorem spendTotalLocked_wipe {now later : Instant} (hlater : now ≤ later) {events : List EventRow}
    (hstamps : StampsSort julianday events) (accountId : Option Uuid)
    (eventTypes : List EventType) :
    spendTotalLocked (later.back spendWindow) accountId eventTypes
        (events.map (EventRow.wipe julianday (now.back identifierKeep))) =
      spendTotalLocked (later.back spendWindow) accountId eventTypes events := by
  have hmetered : ∀ types, ∀ row : EventRow, row.metered (later.back spendWindow) accountId types →
      isoformat (later.back microsPerDay) ≤ row.recordedAt := by
    intro types row hrow
    simp only [EventRow.metered, decide_eq_true_eq] at hrow
    exact hrow.2.2.2
  rw [spendTotalLocked, spendTotalLocked, filter_wipe hlater hstamps (hmetered _),
    filter_wipe hlater hstamps (hmetered _)]

theorem sessionMintCountForIp_wipe {now later : Instant} (hlater : now ≤ later)
    (store : FeedbackStore) (hstamps : StampsSort julianday store.events) (ip : String) :
    sessionMintCountForIp ip later (store.wiped julianday (now.back identifierKeep)) =
      sessionMintCountForIp ip later store := by
  have hminted : ∀ row : EventRow, row.minted (later.back sessionMintWindow) →
      isoformat (later.back microsPerDay) ≤ row.recordedAt := by
    intro row hrow
    simp only [EventRow.minted, decide_eq_true_eq] at hrow
    exact hrow.2.2
  rw [sessionMintCountForIp, sessionMintCountForIp, FeedbackStore.wiped,
    filter_wipe hlater hstamps hminted]

/-- A cost row without its account and a mint without its address. -/
structure EventRow.Anonymous (row : EventRow) : Prop where
  cost : row.recorder = .cost → row.accountId = none ∧
    row.payload.map EventPayload.accountId = some none
  mint : row.recorder = .session → row.eventType = .sessionMinted →
    row.payload.map EventPayload.ip = some none

theorem EventRow.anonymous_of_not_due {cut : Instant} {row : EventRow}
    (hcost : ¬row.costKeyDue julianday cut) (hmint : ¬row.mintAddressDue julianday cut)
    (holder : olderThanCut julianday cut row.recordedAt) : row.Anonymous where
  cost hrecorder := by
    simp only [EventRow.costKeyDue, decide_eq_true_eq] at hcost
    constructor
    · by_contra haccount
      exact hcost ⟨hrecorder, holder, .inl haccount⟩
    · by_contra hpayload
      exact hcost ⟨hrecorder, holder, .inr hpayload⟩
  mint hrecorder htype := by
    simp only [EventRow.mintAddressDue, decide_eq_true_eq] at hmint
    by_contra hpayload
    exact hmint ⟨hrecorder, htype, holder, hpayload⟩

theorem after_wipe_of_error {faults : Faults LedgerError} {now : Instant} {store s : FeedbackStore}
    {raised : LedgerError}
    (h : wipeLocked julianday faults (now.back identifierKeep) store = .error raised s) :
    s = store ∧ after (wipeExpiredIdentifiers julianday faults now) store = store := by
  rcases wipeLocked_cases julianday faults (now.back identifierKeep) store with ⟨raised', hrun⟩ |
    ⟨result, hrun⟩
  · rw [hrun] at h
    cases h
    refine ⟨rfl, ?_⟩
    rw [wipeExpiredIdentifiers, after_recover]
    exact after_of_error hrun
  · rw [hrun] at h
    cases h

/-- A pass after a pass that committed finds nothing due. -/
theorem after_wipe_wiped (faults : Faults LedgerError) (now : Instant) (store : FeedbackStore) :
    after (wipeExpiredIdentifiers julianday faults now)
      (store.wiped julianday (now.back identifierKeep)) =
      store.wiped julianday (now.back identifierKeep) := by
  rcases wipeExpiredIdentifiers_cases julianday faults now
    (store.wiped julianday (now.back identifierKeep)) with hsame | hwiped
  · exact hsame
  · rw [hwiped, wiped_wiped]

end

/-! ### Wipes and money -/

/-- What the meters and the mint limit show at a time is the same in both stores. -/
structure FeedbackStore.SameTotals (later : Instant) (store store' : FeedbackStore) : Prop where
  account : ∀ accountId, dailySpendFor accountId later store' = dailySpendFor accountId later store
  live : globalDailySpend later store' = globalDailySpend later store
  simulated : globalDailySimulatedSpend later store' = globalDailySimulatedSpend later store
  mints : ∀ ip, sessionMintCountForIp ip later store' = sessionMintCountForIp ip later store

theorem FeedbackStore.sameTotals_wiped {julianday : Text → Option ℚ} {now later : Instant}
    (hlater : now ≤ later) {store : FeedbackStore} (hstamps : StampsSort julianday store.events) :
    store.SameTotals later (store.wiped julianday (now.back identifierKeep)) where
  account accountId := spendTotalLocked_wipe hlater hstamps (some accountId) accountChargeEvents
  live := spendTotalLocked_wipe hlater hstamps none liveChargeEvents
  simulated := spendTotalLocked_wipe hlater hstamps none [.costAcceptedSimulated]
  mints ip := sessionMintCountForIp_wipe hlater store hstamps ip

/-- A pass changes no total at its time or later, reaches only rows past the keep time, takes the
account keys of the cost rows and the addresses of the mints among them, finds nothing more the next
time, and changes nothing where it raises. A stamp in UTC is past the keep time exactly when its
instant is. -/
theorem identifier_wipe_money_neutral (julianday : Text → Option ℚ) (faults : Faults LedgerError)
    (now : Instant) (store : FeedbackStore) (hstamps : StampsSort julianday store.events) :
    (∀ later, now ≤ later →
        store.SameTotals later (after (wipeExpiredIdentifiers julianday faults now) store)) ∧
      List.Forall₂ (fun row row' => row' = row ∨
          (olderThanCut julianday (now.back identifierKeep) row.recordedAt ∧
            row.SameButIdentifiers row'))
        store.events (after (wipeExpiredIdentifiers julianday faults now) store).events ∧
      (∀ t, olderThanCut julianday (now.back identifierKeep) (isoformat t)
        ↔ t < now.back identifierKeep) ∧
      ((∀ n, faults n = none) →
        (∀ row ∈ (after (wipeExpiredIdentifiers julianday faults now) store).events,
          olderThanCut julianday (now.back identifierKeep) row.recordedAt → row.Anonymous) ∧
        ∀ faults', after (wipeExpiredIdentifiers julianday faults' now)
            (after (wipeExpiredIdentifiers julianday faults now) store) =
          after (wipeExpiredIdentifiers julianday faults now) store) ∧
      after (wipeExpiredIdentifiers julianday faults now)
          (after (wipeExpiredIdentifiers julianday faults now) store) =
        after (wipeExpiredIdentifiers julianday faults now) store ∧
      ∀ raised s, wipeLocked julianday faults (now.back identifierKeep) store = .error raised s →
        s = store ∧ after (wipeExpiredIdentifiers julianday faults now) store = store := by
  have hcases := wipeExpiredIdentifiers_cases julianday faults now store
  refine ⟨fun later hlater => ?_, ?_, fun t => olderThanCut_isoformat _ t, fun hfaults => ?_, ?_,
    fun raised s hraise => after_wipe_of_error hraise⟩
  · rcases hcases with hsame | hwiped
    · rw [hsame]
      exact ⟨fun _ => rfl, rfl, rfl, fun _ => rfl⟩
    · rw [hwiped]
      exact FeedbackStore.sameTotals_wiped hlater hstamps
  · rcases hcases with hsame | hwiped
    · rw [hsame]
      exact List.forall₂_same.mpr fun row _ => .inl rfl
    · rw [hwiped, FeedbackStore.wiped, List.forall₂_map_right_iff, List.forall₂_same]
      intro row _
      rcases row.wipe_cases julianday (now.back identifierKeep) with hsame | ⟨holder, hsame, -⟩
      · exact .inl hsame
      · exact .inr ⟨holder, hsame⟩
  · obtain ⟨result, hrun⟩ := wipeLocked_of_no_fault julianday hfaults
      (now.back identifierKeep) store
    have hwiped : after (wipeExpiredIdentifiers julianday faults now) store =
        store.wiped julianday (now.back identifierKeep) := by
      rw [wipeExpiredIdentifiers, after_recover]
      exact after_of_ok hrun
    rw [hwiped]
    refine ⟨fun row' hrow' holder => ?_, fun faults' => after_wipe_wiped faults' now store⟩
    obtain ⟨row, -, rfl⟩ := List.mem_map.mp hrow'
    obtain ⟨hcost, hmint⟩ := row.not_due_wipe julianday (now.back identifierKeep)
    exact EventRow.anonymous_of_not_due hcost hmint holder
  · rcases hcases with hsame | hwiped
    · rw [hsame, hsame]
    · rw [hwiped, after_wipe_wiped]

/-! A row whose stamp SQLite reads as a Julian day of 1858 while its text sorts after every year of
ours. -/

/-- Noon of January 10, 2026. -/
def noonOfJanuary : Instant :=
  ⟨739625 * microsPerDay + 12 * 3600 * microsPerSecond,
    by unfold microsPerDay microsPerSecond maxDays; omega⟩

/-- `julianday` of the texts that `isoformat` writes, and of one text that is a number of days. -/
def sampleJulianday (recordedAt : Text) : Option ℚ :=
  match fromisoformat recordedAt with
  | some t => some (1721425 + 1 / 2 + t.val / microsPerDay)
  | none => if recordedAt = "2400000.5".toList then some (2400000 + 1 / 2) else none

def julianCharge : EventRow where
  recorder := .cost
  eventType := .costAccepted
  accountId := some 1
  queryRunId := some 7
  recordedAt := "2400000.5".toList
  payload := some { accountId := some 1, estimatedCostUsd := some (1 / 5) }

def oldMint : EventRow := mintRow "192.0.2.1" 3 (noonOfJanuary.back (3 * microsPerDay))

/-- A pass takes the charge with the odd stamp out of the account's spend, and an old mint keeps its
account. -/
theorem julianCharge_wiped :
    let store : FeedbackStore := { FeedbackStore.empty with events := [julianCharge, oldMint] }
    let wiped := after (wipeExpiredIdentifiers sampleJulianday (fun _ => none) noonOfJanuary) store
    (dailySpendFor 1 noonOfJanuary store = .ok (1 / 5) ∧
      dailySpendFor 1 noonOfJanuary wiped = .ok 0) ∧
      olderThanCut sampleJulianday (noonOfJanuary.back identifierKeep) oldMint.recordedAt ∧
      wiped.events.map EventRow.accountId = [none, some 3] := by
  decide +kernel

def oldCharge : EventRow :=
  ChargeRequest.row ⟨1, 7, 1 / 5, 1, 5, true⟩ (noonOfJanuary.back (3 * microsPerDay))

theorem identifier_wipe_money_neutral_sample :
    let store : FeedbackStore := { FeedbackStore.empty with events := [oldCharge, oldMint] }
    let wiped := after (wipeExpiredIdentifiers sampleJulianday (fun _ => none) noonOfJanuary) store
    store.SameTotals noonOfJanuary wiped ∧
    wiped.events.map EventRow.accountId = [none, some 3] := by
  have hstamps : StampsSort sampleJulianday [oldCharge, oldMint] := by
    intro row hrow hutc
    rcases List.mem_pair.mp hrow with rfl | rfl
    · exact absurd (utcOffset_suffix_isoformat _) hutc
    · exact absurd (utcOffset_suffix_isoformat _) hutc
  have hwipe := identifier_wipe_money_neutral sampleJulianday (fun _ => none) noonOfJanuary
    { FeedbackStore.empty with events := [oldCharge, oldMint] } hstamps
  exact ⟨hwipe.1 noonOfJanuary le_rfl, by decide +kernel⟩

end Quorum
