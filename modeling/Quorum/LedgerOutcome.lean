import Quorum.LedgerRing

/-! What a charge of a run reports, with the identifier wipe that its write may start. It reports a
charge as recorded with its row in the ledger and itself in the ring, and leaves the charges of both
alone otherwise. -/

namespace Quorum

open IsoTime Transaction

/-- Whether a write starts a pass of the wipe, when, and how the pass goes. -/
structure WipePass where
  due : Bool
  clock : Instant
  faults : Faults LedgerError

section

-- SQLite's `julianday` of a text.
variable (julianday : Text → Option ℚ)

/-- `_maybe_wipe_identifiers`. -/
def maybeWipeIdentifiers (pass : WipePass) : Ledger Unit := do
  if pass.due then do
    let _ ← wipeExpiredIdentifiers julianday pass.faults pass.clock
    return ()
  else return ()

/-- `try_record_cost_charge`. The pass starts after the lock of the check and the insert. -/
def tryRecordCostChargeWiping (now : Instant) (attempt : WriteAttempt) (pass : WipePass)
    (request : ChargeRequest) : Ledger ChargeOutcome := do
  let outcome ← tryRecordCostCharge now attempt request
  if outcome = .recorded then do
    maybeWipeIdentifiers julianday pass
    return outcome
  else return outcome

/-- `record` of the store. -/
def recordEvent (attempt : WriteAttempt) (pass : WipePass) (row : EventRow) : Ledger Bool := do
  let landed ← insertEvent attempt row
  if landed then do
    maybeWipeIdentifiers julianday pass
    return landed
  else return landed

/-- `record_guardrail_event` of a run that the ceiling sends to simulation. -/
def recordDegraded (now : Instant) (attempt : WriteAttempt) (pass : WipePass)
    (request : ChargeRequest) : Rails Unit := do
  onRing (CostEventRing.record request.degradedEvent)
  let _ ← onStore false (recordEvent julianday attempt pass (request.degradedEvent.row now))
  return ()

/-- What the call does on the outcome of the store. The row of a recorded charge is in the ledger
already. -/
def followOutcome (now : Instant) (degradeAttempt : WriteAttempt) (pass : WipePass)
    (request : ChargeRequest) :
    ChargeOutcome → Rails Unit
  | .recorded => onRing (CostEventRing.record request.event)
  | .overGlobalCeiling => recordDegraded julianday now degradeAttempt pass request
  | .overDailyCap => return ()
  | .meteringUnavailable => return ()

/-- `try_record_run_charge`, with the passes of its writes. -/
def tryRecordRunChargeWiping (now : Instant) (attempt degradeAttempt : WriteAttempt)
    (pass : WipePass) (request : ChargeRequest) (globalCeilingReached : Bool) :
    Rails ChargeOutcome := do
  if globalCeilingReached then do
    recordDegraded julianday now degradeAttempt pass request
    return .overGlobalCeiling
  else do
    let rails ← get
    if rails.store.all fun store => !feedbackLedgerMayBeMetered store then
      return .meteringUnavailable
    else do
      let outcome ← onStore .meteringUnavailable
          (tryRecordCostChargeWiping julianday now attempt pass request)
      followOutcome julianday now degradeAttempt pass request outcome
      return outcome

end

/-! ### Without a pass -/

section
variable (julianday : Text → Option ℚ) (clock : Instant) (faults : Faults LedgerError)

theorem tryRecordCostChargeWiping_undue (now : Instant) (attempt : WriteAttempt)
    (request : ChargeRequest) :
    tryRecordCostChargeWiping julianday now attempt ⟨false, clock, faults⟩ request
      = tryRecordCostCharge now attempt request := by
  simp [tryRecordCostChargeWiping, maybeWipeIdentifiers]

theorem recordDegraded_undue (now : Instant) (attempt : WriteAttempt) (request : ChargeRequest) :
    recordDegraded julianday now attempt ⟨false, clock, faults⟩ request
      = recordPersisted now attempt request.degradedEvent := by
  simp [recordDegraded, recordEvent, maybeWipeIdentifiers, recordPersisted]

/-- A charge whose write starts no pass is the charge as the rails of a run have it. -/
theorem tryRecordRunChargeWiping_undue (now : Instant) (attempt degradeAttempt : WriteAttempt)
    (request : ChargeRequest) (globalCeilingReached : Bool) :
    tryRecordRunChargeWiping julianday now attempt degradeAttempt ⟨false, clock, faults⟩ request
      globalCeilingReached
      = tryRecordRunCharge now attempt degradeAttempt false request globalCeilingReached := by
  rw [tryRecordRunChargeWiping, tryRecordRunCharge, tryRecordCostChargeWiping_undue,
    recordDegraded_undue]
  congr 1
  apply bind_congr
  intro rails
  congr 1
  apply bind_congr
  intro outcome
  cases outcome with
  | recorded => rfl
  | overDailyCap => rfl
  | overGlobalCeiling => rw [followOutcome, recordDegraded_undue]
  | meteringUnavailable => rfl

end

/-! ### The charges of both rails -/

/-- The runs that the ledger charges, each with its amount. -/
def FeedbackStore.charges (store : FeedbackStore) : List (Uuid × Amount) :=
  store.events.filterMap EventRow.charge

/-- The charges of the ring. -/
def CostEventRing.charges (ring : CostEventRing) : List CostGuardrailEvent :=
  ring.events.filter fun event => event.eventType ∈ ringChargeEventTypes

/-- The charges of the ledger that there is, and none without one. -/
def SpendRails.charges (rails : SpendRails) : List (Uuid × Amount) :=
  (rails.store.map FeedbackStore.charges).getD []

/-- Both rails hold for a charge: with it the account stays within the daily cap, and the live spend
is under the ceiling. -/
structure ChargeRequest.RailsHold (request : ChargeRequest) (now : Instant)
    (store : FeedbackStore) : Prop where
  dailyCap : ∃ already, dailySpendFor request.accountId now store = .ok already ∧
    already + request.estimatedCostUsd ≤ request.dailyCapUsd
  globalCeiling : ∃ globalSpent, globalDailySpend now store = .ok globalSpent ∧
    globalSpent < request.globalCeilingUsd

/-- A charge was made: on rails that held its row is in the ledger, and the ring has it as the
newest event, its oldest one gone if it was full. -/
structure ChargeMade (now : Instant) (request : ChargeRequest)
    (rails rails' : SpendRails) : Prop where
  railsHeld : ∃ store, rails.store = some store ∧ request.RailsHold now store
  row : ∃ store', rails'.store = some store' ∧
    ∃ row ∈ store'.events, EventRow.SameButIdentifiers (request.row now) row
  ledger : rails'.charges = rails.charges ++ [(request.queryRunId, request.estimatedCostUsd)]
  ring : rails'.ring.events
    = (if rails.ring.events.length
        = maxRingEvents then rails.ring.events.tail else rails.ring.events)
      ++ [request.event]

/-- The ledger has the charges that it had, and the ring has no other ones. -/
structure ChargesKept (rails rails' : SpendRails) : Prop where
  ledger : rails'.charges = rails.charges
  ring : rails'.ring.charges <:+ rails.ring.charges

theorem ChargesKept.refl (rails : SpendRails) : ChargesKept rails rails := ⟨rfl, List.suffix_rfl⟩

theorem ChargesKept.trans {rails rails₁ rails₂ : SpendRails} (h : ChargesKept rails rails₁)
    (h' : ChargesKept rails₁ rails₂) : ChargesKept rails rails₂ :=
  ⟨h'.ledger.trans h.ledger, h'.ring.trans h.ring⟩

/-! ### The ring -/

/-- A full ring loses its oldest event to a new one. -/
theorem CostEventRing.record_events (event : CostGuardrailEvent) (ring : CostEventRing) :
    (ring.record event).events
      = (if ring.events.length = maxRingEvents then ring.events.tail else ring.events)
          ++ [event] := by
  have hbounded := ring.bounded
  have hpositive : 0 < maxRingEvents := by decide
  show newestEvents (ring.events ++ [event]) = _
  unfold newestEvents
  generalize maxRingEvents = bound at hbounded hpositive ⊢
  rw [List.length_append, List.length_singleton]
  by_cases hfull : ring.events.length = bound
  · have hone : ring.events.length + 1 - bound = 1 := by omega
    have hevent : 1 ≤ ring.events.length := by omega
    rw [if_pos hfull, hone, List.drop_append_of_le_length hevent, List.drop_one]
  · have hzero : ring.events.length + 1 - bound = 0 := by omega
    rw [if_neg hfull, hzero, List.drop_zero]

/-- An event that is no charge brings none. -/
theorem CostEventRing.record_charges {event : CostGuardrailEvent}
    (h : event.eventType ∉ ringChargeEventTypes) (ring : CostEventRing) :
    (ring.record event).charges <:+ ring.charges := by
  have hsuffix : (ring.record event).events <:+ ring.events ++ [event] := by
    show newestEvents (ring.events ++ [event]) <:+ _
    unfold newestEvents
    exact List.drop_suffix _ _
  have hnone : (ring.events ++ [event]).filter (fun event => event.eventType ∈ ringChargeEventTypes)
      = ring.charges := by
    rw [List.filter_append, List.filter_singleton, decide_eq_false h]
    exact List.append_nil _
  rw [CostEventRing.charges, ← hnone]
  exact hsuffix.filter _

section
variable {julianday : Text → Option ℚ}

/-- A pass leaves the rows alone, or rewrites each of them in place. -/
theorem maybeWipeIdentifiers_ok (pass : WipePass) (store : FeedbackStore) :
    ∃ store', maybeWipeIdentifiers julianday pass store = .ok () store' ∧
      (store'.events = store.events ∨
        store'.events
          = store.events.map (EventRow.wipe julianday (pass.clock.back identifierKeep))) := by
  rw [maybeWipeIdentifiers]
  by_cases hdue : pass.due
  · rw [if_pos hdue]
    have hanswers : ∃ result store', wipeExpiredIdentifiers julianday pass.faults pass.clock store
        = .ok result store' := by
      unfold wipeExpiredIdentifiers recover
      cases wipeLocked julianday pass.faults (pass.clock.back identifierKeep) store with
      | ok result store' => exact ⟨_, _, rfl⟩
      | error raised store' => exact ⟨_, _, rfl⟩
    obtain ⟨result, store', hwipe⟩ := hanswers
    have hafter := after_of_ok (x := wipeExpiredIdentifiers julianday pass.faults pass.clock) hwipe
    refine ⟨store', by rw [bind_of_ok _ hwipe]; rfl, ?_⟩
    rcases wipeExpiredIdentifiers_cases julianday pass.faults pass.clock store with hsame | hwiped
    · exact .inl (by rw [← hafter, hsame])
    · exact .inr (by rw [← hafter, hwiped]; rfl)
  · rw [if_neg hdue]
    exact ⟨store, rfl, .inl rfl⟩

/-- No pass takes a charge from the ledger or gives it one. -/
theorem charges_of_pass {pass : WipePass} {store store' : FeedbackStore}
    (h : maybeWipeIdentifiers julianday pass store = .ok () store') :
    store'.charges = store.charges := by
  obtain ⟨found, hfound, hevents⟩ := @maybeWipeIdentifiers_ok julianday pass store
  rw [hfound] at h
  cases h
  rcases hevents with hsame | hwiped
  · rw [FeedbackStore.charges, hsame, FeedbackStore.charges]
  · rw [FeedbackStore.charges, hwiped, List.filterMap_map, FeedbackStore.charges]
    congr 1
    funext row
    exact (row.wipe_sameButIdentifiers julianday _).entries.1

/-- A pass leaves each row but for its identifiers. -/
theorem rows_of_pass {pass : WipePass} {store store' : FeedbackStore}
    (h : maybeWipeIdentifiers julianday pass store = .ok () store') {row : EventRow}
    (hrow : row ∈ store.events) :
    ∃ row' ∈ store'.events, row.SameButIdentifiers row' := by
  obtain ⟨found, hfound, hevents⟩ := @maybeWipeIdentifiers_ok julianday pass store
  rw [hfound] at h
  cases h
  rcases hevents with hsame | hwiped
  · exact ⟨row, by rw [hsame]; exact hrow, .refl row⟩
  · exact ⟨_,
      by rw [hwiped]; exact List.mem_map_of_mem hrow, row.wipe_sameButIdentifiers julianday _⟩

/-! ### The ledger -/

/-- A charge raises, or leaves the rows alone, or its rails held and its row is there before the
pass. -/
theorem tryRecordCostChargeWiping_cases (now : Instant) (attempt : WriteAttempt) (pass : WipePass)
    (request : ChargeRequest) (store : FeedbackStore) :
    (∃ raised,
      tryRecordCostChargeWiping julianday now attempt pass request store = .error raised store) ∨
      (∃ outcome store',
        tryRecordCostChargeWiping julianday now attempt pass request store = .ok outcome store' ∧
        outcome ≠ .recorded ∧ store'.events = store.events) ∨
      ∃ written store', tryRecordCostChargeWiping julianday now attempt pass request store
        = .ok .recorded store' ∧
        request.RailsHold now store ∧ written.events = store.events ++ [request.row now] ∧
        maybeWipeIdentifiers julianday pass written = .ok () store' := by
  rw [tryRecordCostChargeWiping]
  rcases tryRecordCostCharge_cases now attempt request store with
    ⟨raised, hrun⟩ | ⟨outcome, store', hrun, hother, hevents⟩ |
      ⟨already, globalSpent, written, hdaily, hcap, hglobal, hceiling, hrun, hevents⟩
  · exact .inl ⟨raised, bind_of_error _ hrun⟩
  · refine .inr (.inl ⟨outcome, store', ?_, hother, hevents⟩)
    rw [bind_of_ok _ hrun, if_neg hother]
    rfl
  · obtain ⟨store', hpass, -⟩ := @maybeWipeIdentifiers_ok julianday pass written
    refine .inr (.inr ⟨written, store', ?_,
      ⟨⟨already, hdaily, hcap⟩, globalSpent, hglobal, hceiling⟩, hevents, hpass⟩)
    rw [bind_of_ok _ hrun, if_pos rfl, bind_of_ok _ hpass]
    rfl

/-- A recorded event that is no charge leaves the charges of the ledger alone. -/
theorem recordEvent_charges {row : EventRow} (h : row.charge = none) (attempt : WriteAttempt)
    (pass : WipePass) (store : FeedbackStore) :
    ∃ landed store', recordEvent julianday attempt pass row store = .ok landed store' ∧
      store'.charges = store.charges := by
  rw [recordEvent]
  obtain ⟨written, hinsert, hevents⟩ := insertEvent_ok attempt row store
  have hwritten : written.charges = store.charges := by
    rw [FeedbackStore.charges, hevents, FeedbackStore.charges]
    split_ifs
    · rw [List.filterMap_append, List.filterMap_cons_none h, List.filterMap_nil, List.append_nil]
    · rfl
  rw [bind_of_ok _ hinsert]
  by_cases hlands : attempt.lands
  · obtain ⟨store', hpass, -⟩ := @maybeWipeIdentifiers_ok julianday pass written
    refine ⟨attempt.lands, store', ?_, (charges_of_pass hpass).trans hwritten⟩
    rw [if_pos hlands, bind_of_ok _ hpass]
    rfl
  · rw [if_neg hlands]
    exact ⟨attempt.lands, written, rfl, hwritten⟩

/-- A run that the ceiling sends to simulation is charged nowhere. -/
theorem recordDegraded_kept (now : Instant) (attempt : WriteAttempt) (pass : WipePass)
    (request : ChargeRequest) (rails : SpendRails) :
    ∃ rails', recordDegraded julianday now attempt pass request rails = .ok () rails' ∧
      ChargesKept rails rails' := by
  obtain ⟨hcharges, hcorrections, hring⟩ := other_unmetered "cost_guardrail_degraded_to_simulation"
  obtain ⟨ring, store⟩ := rails
  have hsuffix := @CostEventRing.record_charges request.degradedEvent hring ring
  cases store with
  | none => exact ⟨⟨ring.record request.degradedEvent, none⟩, rfl, rfl, hsuffix⟩
  | some store =>
      obtain ⟨landed, store', hrecord, hkept⟩ := @recordEvent_charges julianday
        (request.degradedEvent.row now) (EventRow.unmetered hcharges hcorrections).1
          attempt pass store
      refine ⟨⟨ring.record request.degradedEvent, some store'⟩, ?_, hkept, hsuffix⟩
      have honRing : onRing (CostEventRing.record request.degradedEvent) ⟨ring, some store⟩
          = .ok () ⟨ring.record request.degradedEvent, some store⟩ := rfl
      rw [recordDegraded, bind_of_ok _ honRing, bind_of_ok _ (onStore_ok false _ hrecord)]
      rfl

end

/-! ### What the call reports -/

/-- A charge is reported as recorded only if both rails held and it is on both of them, and
otherwise, reported or raised, no rail got or lost a charge. -/
theorem tryRecordRunCharge_reports (julianday : Text → Option ℚ) (now : Instant)
    (attempt degradeAttempt : WriteAttempt) (pass : WipePass) (request : ChargeRequest)
    (globalCeilingReached : Bool) (rails : SpendRails) :
    match tryRecordRunChargeWiping julianday now attempt degradeAttempt pass request
      globalCeilingReached rails with
    | .ok .recorded rails' => ChargeMade now request rails rails'
    | .ok _ rails' => ChargesKept rails rails'
    | .error _ rails' => ChargesKept rails rails' := by
  have hget : (get : Rails SpendRails) rails = .ok rails rails := rfl
  rw [tryRecordRunChargeWiping]
  obtain ⟨degraded, hdegraded, hkept⟩ :=
    @recordDegraded_kept julianday now degradeAttempt pass request rails
  cases globalCeilingReached with
  | true =>
      rw [if_pos rfl, bind_of_ok _ hdegraded]
      exact hkept
  | false =>
      rw [if_neg Bool.false_ne_true, bind_of_ok _ hget]
      by_cases hunmetered : rails.store.all fun store => !feedbackLedgerMayBeMetered store
      · rw [if_pos hunmetered]
        exact ChargesKept.refl rails
      · rw [if_neg hunmetered]
        obtain ⟨ring, store⟩ := rails
        cases store with
        | none => exact absurd rfl hunmetered
        | some store =>
            rcases @tryRecordCostChargeWiping_cases julianday now attempt pass request store with
              ⟨raised, hrun⟩ | ⟨outcome, store', hrun, hother, hevents⟩ |
                ⟨written, store', hrun, hheld, hevents, hpass⟩
            · rw [bind_of_error _ (onStore_error _ ring hrun)]
              exact ChargesKept.refl _
            · have hcharges : ChargesKept ⟨ring, some store⟩ ⟨ring, some store'⟩ :=
                ⟨congrArg (List.filterMap EventRow.charge) hevents, List.suffix_rfl⟩
              rw [bind_of_ok _ (onStore_ok _ ring hrun)]
              cases outcome with
              | recorded => exact absurd rfl hother
              | overDailyCap => exact hcharges
              | meteringUnavailable => exact hcharges
              | overGlobalCeiling =>
                  obtain ⟨degraded, hdegraded, hkept⟩ :=
                    @recordDegraded_kept julianday now degradeAttempt pass request
                      ⟨ring, some store'⟩
                  rw [followOutcome, bind_of_ok _ hdegraded]
                  exact hcharges.trans hkept
            · rw [bind_of_ok _ (onStore_ok _ ring hrun)]
              have hrow : request.row now ∈ written.events := by
                rw [hevents]
                exact List.mem_append_right _ (List.mem_singleton_self _)
              refine ⟨⟨store, rfl, hheld⟩, ⟨store', rfl, rows_of_pass hpass hrow⟩, ?_,
                CostEventRing.record_events request.event ring⟩
              show store'.charges = store.charges ++ _
              rw [charges_of_pass hpass, FeedbackStore.charges, hevents, List.filterMap_append,
                List.filterMap_cons_some (request.row_charge now)]
              rfl

end Quorum
