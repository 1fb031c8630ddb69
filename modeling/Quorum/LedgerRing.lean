import Quorum.LedgerRails

/-! The ring of recent charges in the process, the other spend rail. A charge goes to the ledger and
to the ring, a void takes it from both, and a reconciliation corrects the ring when the store
answers that it wrote. The store answers so whether or not the row landed, so a failed INSERT
corrects the ring alone. -/

namespace Quorum

open IsoTime Transaction

/-! ### The ring -/

/-- A guardrail event, with what the meter of the ring reads. -/
structure CostGuardrailEvent where
  eventType : EventType
  accountId : Uuid
  queryRunId : Option Uuid
  estimatedCostUsd : Amount
deriving DecidableEq

/-- `_RING_CHARGE_EVENT_TYPES`. -/
def ringChargeEventTypes : List EventType := [.costAccepted, .costAcceptedSimulated]

/-- `MAX_EVENTS`. -/
def maxRingEvents : ℕ := 1024

/-- `InMemoryCostEventRecorder`, the oldest event first. -/
@[ext] structure CostEventRing where
  events : List CostGuardrailEvent
  bounded : events.length ≤ maxRingEvents

def CostEventRing.empty : CostEventRing := ⟨[], Nat.zero_le _⟩

/-- The oldest events beyond the bound go. -/
@[irreducible] def newestEvents (events : List CostGuardrailEvent) : List CostGuardrailEvent :=
  events.drop (events.length - maxRingEvents)

theorem length_newestEvents (events : List CostGuardrailEvent) :
    (newestEvents events).length ≤ maxRingEvents := by
  unfold newestEvents
  simp only [List.length_drop]
  omega

theorem mem_of_mem_newestEvents {event : CostGuardrailEvent} {events : List CostGuardrailEvent}
    (h : event ∈ newestEvents events) : event ∈ events := by
  unfold newestEvents at h
  exact List.mem_of_mem_drop h

def CostEventRing.record (event : CostGuardrailEvent) (ring : CostEventRing) : CostEventRing :=
  ⟨newestEvents (ring.events ++ [event]), length_newestEvents _⟩

def CostGuardrailEvent.charges (queryRunId : Uuid) (event : CostGuardrailEvent) : Bool :=
  event.queryRunId = some queryRunId ∧ event.eventType ∈ ringChargeEventTypes

def CostEventRing.discardChargeForRun (queryRunId : Uuid) (ring : CostEventRing) :
    CostEventRing where
  events := ring.events.filter fun event => !event.charges queryRunId
  bounded := (List.length_filter_le _ _).trans ring.bounded

def CostGuardrailEvent.reconcile (queryRunId : Uuid) (actualCostUsd : Amount)
    (event : CostGuardrailEvent) : CostGuardrailEvent :=
  if event.charges queryRunId then { event with estimatedCostUsd := actualCostUsd } else event

def CostEventRing.reconcileChargeForRun (queryRunId : Uuid) (actualCostUsd : Amount)
    (ring : CostEventRing) : CostEventRing where
  events := ring.events.map (CostGuardrailEvent.reconcile queryRunId actualCostUsd)
  bounded := by
    rw [List.length_map]
    exact ring.bounded

/-- The charges of an account in the ring. -/
def CostEventRing.chargesOf (accountId : Uuid) (ring : CostEventRing) : List CostGuardrailEvent :=
  ring.events.filter fun event => event.accountId = accountId ∧
    event.eventType ∈ ringChargeEventTypes

/-- `_cumulative_spend_for`. -/
def cumulativeSpendFor (accountId : Uuid) (ring : CostEventRing) : Amount :=
  ((ring.chargesOf accountId).map CostGuardrailEvent.estimatedCostUsd).sum

/-! ### Both rails -/

/-- The ring and the store, where there is one. -/
structure SpendRails where
  ring : CostEventRing
  store : Option FeedbackStore

abbrev Rails (α : Type) := Script LedgerError SpendRails α

/-- An operation of the store, or the answer where there is none. -/
def onStore {α : Type} (absent : α) (x : Ledger α) : Rails α := fun rails =>
  match rails.store with
  | none => .ok absent rails
  | some store =>
      match x store with
      | .ok answer store => .ok answer { rails with store := some store }
      | .error raised store => .error raised { rails with store := some store }

theorem onStore_ok {α : Type} (absent : α) {x : Ledger α} (ring : CostEventRing)
    {store store' : FeedbackStore} {answer : α} (h : x store = .ok answer store') :
    onStore absent x ⟨ring, some store⟩ = .ok answer ⟨ring, some store'⟩ := by
  simp only [onStore, h]

theorem onStore_error {α : Type} (absent : α) {x : Ledger α} (ring : CostEventRing)
    {store store' : FeedbackStore} {raised : LedgerError} (h : x store = .error raised store') :
    onStore absent x ⟨ring, some store⟩ = .error raised ⟨ring, some store'⟩ := by
  simp only [onStore, h]

def onRing (change : CostEventRing → CostEventRing) : Rails Unit := fun rails =>
  .ok () { rails with ring := change rails.ring }

theorem after_onRing {α : Type} (change : CostEventRing → CostEventRing) (x : Unit → Rails α)
    (rails : SpendRails) :
    after (onRing change >>= x) rails = after (x ()) { rails with ring := change rails.ring } := rfl

def CostGuardrailEvent.row (event : CostGuardrailEvent) (now : Instant) : EventRow where
  recorder := .cost
  eventType := event.eventType
  accountId := some event.accountId
  queryRunId := event.queryRunId
  recordedAt := isoformat now
  payload := some { accountId := some event.accountId, estimatedCostUsd := some event.estimatedCostUsd }

/-- `record` of the ring, with the row that it persists. -/
def recordPersisted (now : Instant) (attempt : WriteAttempt) (event : CostGuardrailEvent) :
    Rails Unit := do
  onRing (CostEventRing.record event)
  let _ ← onStore false (insertEvent attempt (event.row now))
  return ()

/-- The event of a run that the global ceiling sends to simulation. -/
def ChargeRequest.degradedEvent (request : ChargeRequest) : CostGuardrailEvent where
  eventType := .other "cost_guardrail_degraded_to_simulation"
  accountId := request.accountId
  queryRunId := some request.queryRunId
  estimatedCostUsd := request.estimatedCostUsd

def ChargeRequest.event (request : ChargeRequest) : CostGuardrailEvent where
  eventType := chargeEventType request.liveExecution
  accountId := request.accountId
  queryRunId := some request.queryRunId
  estimatedCostUsd := request.estimatedCostUsd

/-- `try_record_run_charge`. Its append to the ring may be interrupted. -/
def tryRecordRunCharge (now : Instant) (attempt degradeAttempt : WriteAttempt) (interrupted : Bool)
    (request : ChargeRequest) (globalCeilingReached : Bool) : Rails ChargeOutcome := do
  if globalCeilingReached then do
    recordPersisted now degradeAttempt request.degradedEvent
    return .overGlobalCeiling
  else do
    let rails ← get
    if rails.store.all fun store => !feedbackLedgerMayBeMetered store then
      return .meteringUnavailable
    else do
      let outcome ← onStore .meteringUnavailable (tryRecordCostCharge now attempt request)
      match outcome with
      | .recorded =>
          -- The row is in the ledger already.
          if interrupted then throw .interrupted
          else do
            onRing (CostEventRing.record request.event)
            return outcome
      | .overGlobalCeiling => do
          recordPersisted now degradeAttempt request.degradedEvent
          return outcome
      | _ => return outcome

/-- `reconcile_run_charge`. The ring follows the answer of the store. -/
def reconcileRunCharge (now : Instant) (attempt : WriteAttempt) (request : Reconciliation) :
    Rails Bool := do
  let written ← onStore false (tryRecordCostReconciliation now attempt request)
  if written then do
    onRing (CostEventRing.reconcileChargeForRun request.queryRunId request.actualCostUsd)
    return written
  else return written

/-- `void_run_charge`. -/
def voidRunCharge (now : Instant) (attempt : WriteAttempt) (accountId queryRunId : Uuid) :
    Rails Unit := do
  onRing (CostEventRing.discardChargeForRun queryRunId)
  onStore () (voidCostCharge now attempt accountId queryRunId)

/-! ### One reconciliation -/

/-- The row of the reconciliation is in the ledger after the call. -/
def ReconciliationRecorded (now : Instant) (request : Reconciliation)
    (rails rails' : SpendRails) : Prop :=
  ∃ store store', rails.store = some store ∧ rails'.store = some store' ∧
    store'.events = store.events ++ [request.row now]

/-- The ring has the measured cost if the ledger has the row, and is as before otherwise. -/
def RingFollows (now : Instant) (request : Reconciliation) (rails rails' : SpendRails) : Prop :=
  (ReconciliationRecorded now request rails rails' →
    rails'.ring = rails.ring.reconcileChargeForRun request.queryRunId request.actualCostUsd) ∧
  (¬ReconciliationRecorded now request rails rails' → rails'.ring = rails.ring)

/-- The INSERT of a reconciliation that the store admits is lost, and the ring holds another amount
for the run. -/
def LostReconciliation (now : Instant) (attempt : WriteAttempt) (request : Reconciliation)
    (rails : SpendRails) : Prop :=
  (∃ store, rails.store = some store ∧ admitsReconciliation now request.queryRunId store) ∧
    attempt.lands = false ∧
    ∃ event ∈ rails.ring.events, event.charges request.queryRunId ∧
      event.estimatedCostUsd ≠ request.actualCostUsd

/-- A ring without a charge of the run at another amount is as before. -/
theorem reconcileChargeForRun_eq_self_iff (queryRunId : Uuid) (actualCostUsd : Amount)
    (ring : CostEventRing) :
    ring.reconcileChargeForRun queryRunId actualCostUsd = ring ↔
      ¬∃ event ∈ ring.events, event.charges queryRunId ∧
      event.estimatedCostUsd ≠ actualCostUsd := by
  rw [CostEventRing.ext_iff]
  show ring.events.map (CostGuardrailEvent.reconcile queryRunId actualCostUsd) = ring.events ↔ _
  nth_rewrite 2 [← List.map_id ring.events]
  rw [List.map_inj_left]
  constructor
  · rintro hsame ⟨event, hevent, hcharges, hne⟩
    have heq := hsame event hevent
    rw [CostGuardrailEvent.reconcile, if_pos hcharges] at heq
    exact hne (congrArg CostGuardrailEvent.estimatedCostUsd heq).symm
  · intro hnone event hevent
    rw [CostGuardrailEvent.reconcile]
    split_ifs with hcharges
    · by_contra hne
      refine hnone ⟨event, hevent, hcharges, fun heq => hne ?_⟩
      rw [← heq]
      rfl
    · rfl

/-- What a reconciliation leaves of both rails. -/
theorem after_reconcileRunCharge (now : Instant) (attempt : WriteAttempt) (request : Reconciliation)
    (ring : CostEventRing) (store : FeedbackStore) :
    after (reconcileRunCharge now attempt request) ⟨ring, some store⟩ =
      if admitsReconciliation now request.queryRunId store then
        ⟨ring.reconcileChargeForRun request.queryRunId request.actualCostUsd,
          some (after (tryRecordCostReconciliation now attempt request) store)⟩
      else ⟨ring, some store⟩ := by
  have hget : (get : Ledger FeedbackStore) store = .ok store store := rfl
  by_cases hadmits : admitsReconciliation now request.queryRunId store
  · obtain ⟨store', hinsert, -⟩ := insertEvent_ok attempt (request.row now) store
    have hwritten : tryRecordCostReconciliation now attempt request store = .ok true store' := by
      rw [tryRecordCostReconciliation, bind_of_ok _ hget, if_pos hadmits, bind_of_ok _ hinsert]
      rfl
    rw [reconcileRunCharge, after_bind_ok _ (onStore_ok false ring hwritten), if_pos hadmits,
      after_of_ok hwritten]
    rfl
  · have hrefused : tryRecordCostReconciliation now attempt request store = .ok false store := by
      rw [tryRecordCostReconciliation, bind_of_ok _ hget, if_neg hadmits]
      rfl
    rw [reconcileRunCharge, after_bind_ok _ (onStore_ok false ring hrefused), if_neg hadmits]
    rfl

/-- The ring follows the ledger exactly where no reconciliation is lost. -/
theorem ringFollows_iff (now : Instant) (attempt : WriteAttempt) (request : Reconciliation)
    (rails : SpendRails) :
    RingFollows now request rails (after (reconcileRunCharge now attempt request) rails) ↔
      ¬LostReconciliation now attempt request rails := by
  obtain ⟨ring, store | store⟩ := rails
  · constructor
    · rintro - ⟨⟨store, hstore, -⟩, -⟩
      cases hstore
    · intro _
      refine ⟨?_, fun _ => rfl⟩
      rintro ⟨store, store', hstore, -⟩
      cases hstore
  rw [after_reconcileRunCharge]
  have hevents := after_tryRecordCostReconciliation now attempt request store
  by_cases hadmits : admitsReconciliation now request.queryRunId store
  · rw [if_pos hadmits]
    cases hlands : attempt.lands with
    | true =>
        rw [if_pos ⟨hadmits, hlands⟩] at hevents
        have hrecorded : ReconciliationRecorded now request ⟨ring, some store⟩
            ⟨ring.reconcileChargeForRun request.queryRunId request.actualCostUsd,
              some (after (tryRecordCostReconciliation now attempt request) store)⟩ :=
          ⟨store, _, rfl, rfl, hevents⟩
        constructor
        · rintro - ⟨-, hlost, -⟩
          rw [hlost] at hlands
          cases hlands
        · exact fun _ => ⟨fun _ => rfl, fun hnot => absurd hrecorded hnot⟩
    | false =>
        rw [if_neg fun hboth =>
          by rw [hlands] at hboth; exact Bool.false_ne_true hboth.2] at hevents
        have hnot : ¬ReconciliationRecorded now request ⟨ring, some store⟩
            ⟨ring.reconcileChargeForRun request.queryRunId request.actualCostUsd,
              some (after (tryRecordCostReconciliation now attempt request) store)⟩ := by
          rintro ⟨store₁, store₂, hstore₁, hstore₂, happend⟩
          cases hstore₁
          cases hstore₂
          rw [hevents] at happend
          simpa using congrArg List.length happend
        constructor
        · rintro hfollows ⟨-, -, hother⟩
          exact (reconcileChargeForRun_eq_self_iff _ _ _).mp (hfollows.2 hnot) hother
        · intro hlost
          refine ⟨fun hrecorded => absurd hrecorded hnot, fun _ => ?_⟩
          refine (reconcileChargeForRun_eq_self_iff _ _ _).mpr fun hother => ?_
          exact hlost ⟨⟨store, rfl, hadmits⟩, hlands, hother⟩
  · rw [if_neg hadmits]
    constructor
    · rintro - ⟨⟨store', hstore', hadmits'⟩, -⟩
      cases hstore'
      exact hadmits hadmits'
    · intro _
      refine ⟨?_, fun _ => rfl⟩
      rintro ⟨store₁, store₂, hstore₁, hstore₂, happend⟩
      cases hstore₁
      cases hstore₂
      simpa using congrArg List.length happend

/-! ### Runs of both rails -/

/-- The ring of the process beside the ledger and its clock. -/
structure RailWorld where
  ring : CostEventRing
  ledger : LedgerWorld

def RailWorld.start (clock : Instant) : RailWorld := ⟨.empty, .start clock⟩

def RailWorld.rails (w : RailWorld) : SpendRails := ⟨w.ring, some w.ledger.store⟩

/-- The world with both rails as a call left them. -/
def RailWorld.set (w : RailWorld) (rails : SpendRails) : RailWorld where
  ring := rails.ring
  ledger := { w.ledger with store := rails.store.getD w.ledger.store }

/-- A step of the process: a call on both rails, an event that charges nothing, a restart, which
empties the ring, or an operation of the store alone. -/
inductive RailOp
  | charge (request : ChargeRequest) (globalCeilingReached interrupted : Bool)
      (attempt degradeAttempt : WriteAttempt)
  | reconcile (request : Reconciliation) (attempt : WriteAttempt)
  | void (accountId queryRunId : Uuid) (attempt : WriteAttempt)
  | guardrail (name : String) (accountId : Uuid) (queryRunId : Option Uuid)
      (estimatedCostUsd : Amount)
      (attempt : WriteAttempt)
  | restart
  | ledger (op : LedgerOp) (neither : op.charges = none ∧ op.corrects = none)

section

variable (julianday : Text → Option ℚ)

def RailOp.apply (w : RailWorld) : RailOp → RailWorld
  | .charge request globalCeilingReached interrupted attempt degradeAttempt =>
      w.set (after (tryRecordRunCharge w.ledger.clock attempt degradeAttempt interrupted request
        globalCeilingReached) w.rails)
  | .reconcile request attempt =>
      w.set (after (reconcileRunCharge w.ledger.clock attempt request) w.rails)
  | .void accountId queryRunId attempt =>
      w.set (after (voidRunCharge w.ledger.clock attempt accountId queryRunId) w.rails)
  | .guardrail name accountId queryRunId estimatedCostUsd attempt =>
      w.set (after (recordPersisted w.ledger.clock attempt
        ⟨.other name, accountId, queryRunId, estimatedCostUsd⟩) w.rails)
  | .restart => { w with ring := .empty }
  | .ledger op _ => { w with ledger := op.apply julianday w.ledger }

def runRails (start : Instant) (ops : List RailOp) : RailWorld :=
  ops.foldl (RailOp.apply julianday) (.start start)

theorem runRails_concat (start : Instant) (ops : List RailOp) (op : RailOp) :
    runRails julianday start (ops ++ [op]) = op.apply julianday (runRails julianday start ops) := by
  rw [runRails, List.foldl_append]
  rfl

/-- What a step is for the ledger: its charge, its correction or neither. -/
def RailOp.onLedger : RailOp → LedgerOp
  | .charge request _ _ attempt _ => .charge request attempt
  | .reconcile request attempt => .reconcile request attempt
  | .void accountId queryRunId attempt => .void accountId queryRunId attempt
  | .guardrail .. => .tick 0
  | .restart => .tick 0
  | .ledger op _ => op

/-- The step loses no reconciliation. -/
def RailOp.Follows (w : RailWorld) : RailOp → Prop
  | .reconcile request attempt => ¬LostReconciliation w.ledger.clock attempt request w.rails
  | _ => True

/-- No step of the run loses a reconciliation. -/
def AllFollow (start : Instant) (ops : List RailOp) : Prop :=
  ∀ earlier op later, ops = earlier ++ op :: later → op.Follows (runRails julianday start earlier)

end

/-! ### What the rails agree on -/

/-- A charge of the ring is one of the ledger that is not voided, at what its run counts for
there. -/
def CostGuardrailEvent.Agrees (events : List EventRow) (event : CostGuardrailEvent) : Prop :=
  event.eventType ∈ ringChargeEventTypes →
    ∃ entry ∈ events.filterMap EventRow.charge, event.queryRunId = some entry.1 ∧
      voided events entry.1 = false ∧ event.estimatedCostUsd = settledAmount events entry

def RingAgrees (ring : CostEventRing) (events : List EventRow) : Prop :=
  ∀ event ∈ ring.events, event.Agrees events

/-- A row that corrects another run. -/
theorem CostGuardrailEvent.Agrees.append {event : CostGuardrailEvent} {events : List EventRow}
    (h : event.Agrees events) {row : EventRow}
    (hrow : event.eventType ∈ ringChargeEventTypes → ∀ correction,
      row.correction = some correction →
      event.queryRunId ≠ some correction.1) : event.Agrees (events ++ [row]) := by
  intro htype
  obtain ⟨entry, hentry, hrun, hvoided, hamount⟩ := h htype
  have hother : ∀ correction, row.correction = some correction → correction.1 ≠ entry.1 := by
    rintro correction hcorrection heq
    exact hrow htype correction hcorrection (by rw [hrun, heq])
  refine ⟨entry, ?_, hrun, ?_, ?_⟩
  · rw [List.filterMap_append]
    exact List.mem_append_left _ hentry
  · have hvoid : row.void ≠ some entry.1 := fun hvoid =>
      hother (entry.1, 0) (by rw [EventRow.correction, hvoid]; rfl) rfl
    rw [voided_concat, hvoided]
    simp [hvoid]
  · rw [hamount, settledAmount_concat_of_ne hother]

theorem CostEventRing.mem_record {event other : CostGuardrailEvent} {ring : CostEventRing}
    (h : other ∈ (ring.record event).events) : other ∈ ring.events ∨ other = event := by
  rcases List.mem_append.mp (mem_of_mem_newestEvents h) with hold | hnew
  · exact .inl hold
  · exact .inr (List.mem_singleton.mp hnew)

namespace RingAgrees

variable {ring : CostEventRing} {events : List EventRow}

theorem of_subset (h : RingAgrees ring events) {ring' : CostEventRing}
    (hsub : ∀ event ∈ ring'.events, event.eventType ∈ ringChargeEventTypes → event ∈ ring.events) :
    RingAgrees ring' events :=
  fun event hevent htype => h event (hsub event hevent htype) htype

/-- An event that is no charge. -/
theorem record_other (h : RingAgrees ring events) {event : CostGuardrailEvent}
    (htype : event.eventType ∉ ringChargeEventTypes) : RingAgrees (ring.record event) events := by
  refine h.of_subset fun other hother hcharge => ?_
  rcases CostEventRing.mem_record hother with hold | rfl
  · exact hold
  · exact absurd hcharge htype

theorem append_uncorrecting (h : RingAgrees ring events) {row : EventRow}
    (hrow : row.correction = none) :
    RingAgrees ring (events ++ [row]) :=
  fun event hevent => (h event hevent).append fun _ correction hcorrection => by
    rw [hrow] at hcorrection
    cases hcorrection

theorem wipe {julianday : Text → Option ℚ} (h : RingAgrees ring events) (cut : Instant) :
    RingAgrees ring (events.map (EventRow.wipe julianday cut)) := by
  intro event hevent htype
  obtain ⟨entry, hentry, hrun, hvoided, hamount⟩ := h event hevent htype
  obtain ⟨row, hrow, hcharge⟩ := List.mem_filterMap.mp hentry
  refine ⟨entry,
    List.mem_filterMap.mpr ⟨row.wipe julianday cut, List.mem_map_of_mem hrow, ?_⟩, hrun, ?_, ?_⟩
  · rw [(row.wipe_sameButIdentifiers julianday cut).entries.1, hcharge]
  · rw [voided_wipe, hvoided]
  · rw [hamount, settledAmount_wipe]

/-- A charge that both rails record. -/
theorem charge (h : RingAgrees ring events) {request : ChargeRequest} {now : Instant}
    (hnew : ∀ other ∈ events, ∀ correction, other.correction = some correction →
      correction.1 ≠ request.queryRunId) :
    RingAgrees (ring.record request.event) (events ++ [request.row now]) := by
  have hcharge := request.row_charge now
  have hcorrection := (request.row now).correction_eq_none_of_charge hcharge
  have hold := h.append_uncorrecting hcorrection
  intro event hevent htype
  rcases CostEventRing.mem_record hevent with hbefore | rfl
  · exact hold event hbefore htype
  · have hnew' : ∀ other ∈ events ++ [request.row now], ∀ correction,
        other.correction = some correction →
        correction.1 ≠ request.queryRunId := by
      intro other hother correction hrow
      rcases List.mem_append.mp hother with hbefore | hself
      · exact hnew other hbefore correction hrow
      · rw [List.mem_singleton.mp hself, hcorrection] at hrow
        cases hrow
    obtain ⟨hvoided, hactual⟩ := settled_of_uncorrected hnew'
    refine ⟨(request.queryRunId, request.estimatedCostUsd), ?_, rfl, hvoided, ?_⟩
    · rw [List.filterMap_append, List.filterMap_cons_some hcharge]
      exact List.mem_append_right _ List.mem_cons_self
    · rw [settledAmount, hvoided, hactual]
      rfl

/-- A reconciliation that both rails record. -/
theorem reconcile (h : RingAgrees ring events) {request : Reconciliation} {now : Instant}
    (hnew : ∀ other ∈ events, ∀ correction, other.correction = some correction →
      correction.1 ≠ request.queryRunId) :
    RingAgrees (ring.reconcileChargeForRun request.queryRunId request.actualCostUsd)
      (events ++ [request.row now]) := by
  intro event' hevent' htype
  obtain ⟨event, hevent, rfl⟩ := List.mem_map.mp hevent'
  rw [CostGuardrailEvent.reconcile] at htype ⊢
  have hcorrection := request.row_correction now
  split_ifs at htype ⊢ with hcharges
  · simp only [CostGuardrailEvent.charges, decide_eq_true_eq] at hcharges
    obtain ⟨entry, hentry, hrun, hvoided, -⟩ := h event hevent hcharges.2
    have hsame : entry.1 = request.queryRunId := by
      rw [hcharges.1, Option.some.injEq] at hrun
      exact hrun.symm
    have hactual : reconciledActual (events ++ [request.row now]) entry.1 =
        some request.actualCostUsd := by
      obtain ⟨-, hnone⟩ := settled_of_uncorrected hnew
      have hself := reconciledActual_cons_self [] (request.row_reconciliation now)
      rw [hsame, reconciledActual, List.findSome?_append]
      show (reconciledActual events request.queryRunId).or
        (reconciledActual [request.row now] _) = _
      rw [hnone, hself]
      rfl
    have hvoided' : voided (events ++ [request.row now]) entry.1 = false := by
      rw [voided_concat, hvoided]
      rfl
    refine ⟨entry, ?_, hrun, hvoided', ?_⟩
    · rw [List.filterMap_append]
      exact List.mem_append_left _ hentry
    · rw [settledAmount, hvoided', hactual]
      rfl
  · refine (h event hevent).append (fun _ correction hrow heq => ?_) htype
    rw [hcorrection, Option.some.injEq] at hrow
    apply hcharges
    simp only [CostGuardrailEvent.charges, decide_eq_true_eq]
    exact ⟨by rw [heq, ← hrow], htype⟩

/-- A void takes the charge from the ring, whether or not its row lands. -/
theorem discard (h : RingAgrees ring events) (accountId queryRunId : Uuid) (now : Instant) :
    RingAgrees (ring.discardChargeForRun queryRunId) events ∧
      RingAgrees (ring.discardChargeForRun queryRunId)
        (events ++ [voidRow accountId queryRunId now]) := by
  have hbefore : RingAgrees (ring.discardChargeForRun queryRunId) events :=
    h.of_subset fun event hevent _ => List.mem_of_mem_filter hevent
  refine ⟨hbefore,
    fun event hevent => (hbefore event hevent).append fun htype correction hcorrection hrun => ?_⟩
  rw [voidRow_correction, Option.some.injEq] at hcorrection
  subst hcorrection
  have hkept := (List.mem_filter.mp hevent).2
  simp [CostGuardrailEvent.charges, hrun, htype] at hkept

end RingAgrees

/-! ### One step -/

theorem after_recordPersisted (now : Instant) (attempt : WriteAttempt) (event : CostGuardrailEvent)
    (ring : CostEventRing) (store : FeedbackStore) :
    after (recordPersisted now attempt event) ⟨ring, some store⟩ =
      ⟨ring.record event, some (after (insertEvent attempt (event.row now)) store)⟩ := by
  obtain ⟨store', hinsert, -⟩ := insertEvent_ok attempt (event.row now) store
  rw [after_of_ok hinsert, recordPersisted, after_onRing, after_map,
    after_of_ok (onStore_ok false (ring.record event) hinsert)]

theorem after_voidRunCharge (now : Instant) (attempt : WriteAttempt) (accountId queryRunId : Uuid)
    (ring : CostEventRing) (store : FeedbackStore) :
    after (voidRunCharge now attempt accountId queryRunId) ⟨ring, some store⟩ =
      ⟨ring.discardChargeForRun queryRunId,
        some (after (voidCostCharge now attempt accountId queryRunId) store)⟩ := by
  rw [voidRunCharge, after_onRing]
  cases hrun : voidCostCharge now attempt accountId queryRunId store with
  | ok answer store' => rw [after_of_ok (onStore_ok () _ hrun), after_of_ok hrun]
  | error raised store' => rw [after_of_error (onStore_error () _ hrun), after_of_error hrun]

/-- A degraded run leaves an event that charges nothing, in the ring and, where it lands, in the
ledger. -/
theorem after_degraded (now : Instant) (attempt : WriteAttempt) (request : ChargeRequest)
    (ring : CostEventRing) (store : FeedbackStore) :
    ∃ store', after (recordPersisted now attempt request.degradedEvent) ⟨ring, some store⟩ =
        ⟨ring.record request.degradedEvent, some store'⟩ ∧
      (store'.events = store.events ∨
        store'.events = store.events ++ [request.degradedEvent.row now]) := by
  refine ⟨_, after_recordPersisted now attempt request.degradedEvent ring store, ?_⟩
  rw [after_insertEvent]
  split_ifs
  · exact .inr rfl
  · exact .inl rfl

/-- No rail gets a charge, or the ledger gets it and, unless it is interrupted, the ring. -/
theorem after_tryRecordRunCharge (now : Instant) (attempt degradeAttempt : WriteAttempt)
    (interrupted : Bool) (request : ChargeRequest) (globalCeilingReached : Bool)
    (ring : CostEventRing) (store : FeedbackStore) :
    (∃ ring' store',
      after (tryRecordRunCharge now attempt degradeAttempt interrupted request globalCeilingReached)
        ⟨ring, some store⟩ = ⟨ring', some store'⟩ ∧
      (ring' = ring ∨ ring' = ring.record request.degradedEvent) ∧
      (store'.events = store.events ∨
        store'.events = store.events ++ [request.degradedEvent.row now])) ∨
    ∃ ring' store',
      after (tryRecordRunCharge now attempt degradeAttempt interrupted request globalCeilingReached)
        ⟨ring, some store⟩ = ⟨ring', some store'⟩ ∧
      (ring' = ring ∨ ring' = ring.record request.event) ∧
      tryRecordCostCharge now attempt request store = .ok .recorded store' ∧
      store'.events = store.events ++ [request.row now] := by
  have hget : (get : Rails SpendRails) ⟨ring, some store⟩ =
      .ok ⟨ring, some store⟩ ⟨ring, some store⟩ := rfl
  rw [tryRecordRunCharge]
  cases globalCeilingReached with
  | true =>
      obtain ⟨store', hafter, hevents⟩ := after_degraded now degradeAttempt request ring store
      rw [if_pos rfl, after_map]
      exact .inl ⟨_, store', hafter, .inr rfl, hevents⟩
  | false =>
      rw [if_neg Bool.false_ne_true, after_bind_ok _ hget]
      by_cases hunmetered : (SpendRails.mk ring (some store)).store.all fun store =>
        !feedbackLedgerMayBeMetered store
      · rw [if_pos hunmetered]
        exact .inl ⟨ring, store, rfl, .inl rfl, .inl rfl⟩
      · rw [if_neg hunmetered]
        rcases tryRecordCostCharge_cases now attempt request store with
          ⟨raised, hrun⟩ | ⟨outcome, store', hrun, hother, hevents⟩ | ⟨_, _, store', -, -, -,
            -, hrun, hevents⟩
        · rw [after_bind_error _ (onStore_error _ ring hrun)]
          exact .inl ⟨ring, store, rfl, .inl rfl, .inl rfl⟩
        · rw [after_bind_ok _ (onStore_ok _ ring hrun)]
          cases outcome with
          | recorded => exact absurd rfl hother
          | overDailyCap => exact .inl ⟨ring, store', rfl, .inl rfl, .inl hevents⟩
          | meteringUnavailable => exact .inl ⟨ring, store', rfl, .inl rfl, .inl hevents⟩
          | overGlobalCeiling =>
              obtain ⟨store'', hafter, hevents'⟩ :=
                after_degraded now degradeAttempt request ring store'
              rw [hevents] at hevents'
              refine .inl ⟨_, store'', ?_, .inr rfl, hevents'⟩
              exact (after_map _ _ _).trans hafter
        · rw [after_bind_ok _ (onStore_ok _ ring hrun)]
          cases interrupted with
          | true => exact .inr ⟨ring, store', rfl, .inl rfl, hrun, hevents⟩
          | false => exact .inr ⟨_, store', rfl, .inr rfl, hrun, hevents⟩

/-- What holds of both rails along a run. -/
structure RailWorld.Consistent (ops : List LedgerOp) (w : RailWorld) : Prop where
  sound : w.ledger.Sound
  explained : w.ledger.Explained ops
  agrees : RingAgrees w.ring w.ledger.store.events

/-- The row of a guardrail event that charges nothing, or no row. -/
theorem RailWorld.Consistent.unmetered {ops : List LedgerOp} {w w' : RailWorld}
    (h : w.Consistent ops)
    (op : LedgerOp) (row : EventRow) (htime : row.recordedAt = isoformat w.ledger.clock)
    (hcharges : row.eventType ∉ accountChargeEvents)
    (hcorrections : row.eventType ∉ correctionEvents)
    (hevents : w'.ledger.store.events = w.ledger.store.events ∨
      w'.ledger.store.events = w.ledger.store.events ++ [row])
    (hclock : w'.ledger.clock = w.ledger.clock)
    (hring : ∀ events, RingAgrees w.ring events → RingAgrees w'.ring events) :
    w'.Consistent (ops ++ [op]) := by
  rcases hevents with hsame | happend
  · refine ⟨h.sound.idle hsame hclock.ge, h.explained.idle op hsame, ?_⟩
    rw [hsame]
    exact hring _ h.agrees
  · obtain ⟨hsound, hexplained⟩ :=
      sound_append_unmetered op h.sound h.explained happend hclock htime
      hcharges hcorrections
    refine ⟨hsound, hexplained, ?_⟩
    rw [happend]
    exact hring _ (h.agrees.append_uncorrecting (row.unmetered hcharges hcorrections).2.1)

theorem other_unmetered (name : String) :
    EventType.other name ∉ accountChargeEvents ∧ EventType.other name ∉ correctionEvents ∧
      EventType.other name ∉ ringChargeEventTypes := by
  simp [accountChargeEvents, correctionEvents, ringChargeEventTypes]

/-- One step in order that loses no reconciliation keeps the rails consistent. -/
theorem consistent_apply (julianday : Text → Option ℚ) {ops : List LedgerOp} {w : RailWorld}
    {op : RailOp} (h : w.Consistent ops) (horder : ∀ earlier ∈ ops, earlier.InOrder op.onLedger)
    (hfollows : op.Follows w) :
    (op.apply julianday w).Consistent (ops ++ [op.onLedger]) := by
  have happly := sound_apply julianday h.sound h.explained horder
  cases op with
  | charge request globalCeilingReached interrupted attempt degradeAttempt =>
      obtain ⟨hcharges, hcorrections, hring⟩ :=
        other_unmetered "cost_guardrail_degraded_to_simulation"
      rcases after_tryRecordRunCharge w.ledger.clock attempt degradeAttempt interrupted request
        globalCeilingReached w.ring w.ledger.store with
        ⟨ring', store', hafter, hring', hevents⟩ | ⟨ring', store', hafter, hring', hrun, hevents⟩
      · refine h.unmetered _ (request.degradedEvent.row w.ledger.clock) rfl hcharges
          hcorrections ?_ rfl ?_
        · rw [RailOp.apply, RailWorld.rails, hafter]
          exact hevents
        · intro events hagrees
          rw [RailOp.apply, RailWorld.rails, hafter]
          rcases hring' with rfl | rfl
          · exact hagrees
          · exact hagrees.record_other hring
      · have hstore : (LedgerOp.apply julianday w.ledger (.charge request attempt)).store =
            store' := by
          simp only [LedgerOp.apply, hrun]
        have hledger : LedgerOp.apply julianday w.ledger (.charge request attempt) =
            { w.ledger with store := store', charges := request :: w.ledger.charges } := by
          simp only [LedgerOp.apply, hrun]
        have hnew : ∀ other ∈ w.ledger.store.events, ∀ correction,
            other.correction = some correction →
            correction.1 ≠ request.queryRunId := by
          intro other hother correction hcorrection
          exact (h.explained.causal_charge horder hother
            (h.sound.times other hother)).chargedFirst _ _
            hcorrection (request.row_charge w.ledger.clock)
        rw [RailOp.onLedger, hledger] at happly
        rw [RailOp.apply, RailWorld.rails, hafter]
        refine ⟨happly.1.idle rfl le_rfl, happly.2.congr rfl, ?_⟩
        show RingAgrees ring' store'.events
        rw [hevents]
        rcases hring' with rfl | rfl
        · exact h.agrees.append_uncorrecting
            ((request.row w.ledger.clock).correction_eq_none_of_charge
              (request.row_charge w.ledger.clock))
        · exact h.agrees.charge hnew
  | reconcile request attempt =>
      have hboth := after_reconcileRunCharge w.ledger.clock attempt request w.ring w.ledger.store
      have hrows := after_tryRecordCostReconciliation w.ledger.clock attempt request w.ledger.store
      rw [RailOp.apply, RailWorld.rails, hboth]
      by_cases hadmits : admitsReconciliation w.ledger.clock request.queryRunId w.ledger.store
      · rw [if_pos hadmits]
        refine ⟨happly.1.idle rfl le_rfl, happly.2.congr rfl, ?_⟩
        show RingAgrees (w.ring.reconcileChargeForRun request.queryRunId request.actualCostUsd)
          (after (tryRecordCostReconciliation w.ledger.clock attempt request) w.ledger.store).events
        cases hlands : attempt.lands with
        | true =>
            rw [hrows, if_pos ⟨hadmits, hlands⟩]
            exact h.agrees.reconcile (uncorrected_of_admits h.sound hadmits)
        | false =>
            have hring : w.ring.reconcileChargeForRun request.queryRunId request.actualCostUsd =
                w.ring :=
              (reconcileChargeForRun_eq_self_iff _ _ _).mpr fun hother =>
                hfollows ⟨⟨w.ledger.store, rfl, hadmits⟩, hlands, hother⟩
            rw [hrows,
              if_neg fun hboth => by rw [hlands] at hboth; exact Bool.false_ne_true hboth.2, hring]
            exact h.agrees
      · rw [if_neg hadmits]
        rw [if_neg fun hboth => hadmits hboth.1] at hrows
        exact ⟨happly.1.idle hrows.symm le_rfl, happly.2.congr hrows.symm, h.agrees⟩
  | void accountId queryRunId attempt =>
      obtain ⟨hbefore, hafter⟩ := h.agrees.discard accountId queryRunId w.ledger.clock
      have hrows := after_voidCostCharge w.ledger.clock attempt accountId queryRunId w.ledger.store
      rw [RailOp.apply, RailWorld.rails, after_voidRunCharge]
      refine ⟨happly.1.idle rfl le_rfl, happly.2.congr rfl, ?_⟩
      show RingAgrees (w.ring.discardChargeForRun queryRunId)
        (after (voidCostCharge w.ledger.clock attempt accountId queryRunId) w.ledger.store).events
      rw [hrows]
      split_ifs
      · exact hafter
      · exact hbefore
  | guardrail name accountId queryRunId estimatedCostUsd attempt =>
      obtain ⟨hcharges, hcorrections, hring⟩ := other_unmetered name
      have hrows := after_insertEvent attempt
        (CostGuardrailEvent.row ⟨.other name, accountId, queryRunId,
          estimatedCostUsd⟩ w.ledger.clock)
        w.ledger.store
      refine h.unmetered _ (CostGuardrailEvent.row ⟨.other name, accountId, queryRunId,
        estimatedCostUsd⟩
        w.ledger.clock) rfl hcharges hcorrections ?_ rfl ?_
      · rw [RailOp.apply, RailWorld.rails, after_recordPersisted]
        split_ifs at hrows
        · exact .inr hrows
        · exact .inl hrows
      · intro events hagrees
        rw [RailOp.apply, RailWorld.rails, after_recordPersisted]
        exact hagrees.record_other hring
  | restart =>
      exact ⟨h.sound, h.explained.idle _ rfl, fun event hevent => absurd hevent List.not_mem_nil⟩
  | ledger op neither =>
      refine ⟨happly.1, happly.2, ?_⟩
      show RingAgrees w.ring (op.apply julianday w.ledger).store.events
      cases op.effect julianday w.ledger with
      | idle events clock charges =>
          rw [events]
          exact h.agrees
      | wipe events clock charges =>
          rw [events]
          exact h.agrees.wipe _
      | append row writes events clock charges =>
          rw [events]
          refine h.agrees.append_uncorrecting ?_
          cases op with
          | tick span => exact writes.elim
          | wipe => exact writes.elim
          | charge request attempt => cases neither.1
          | reconcile request attempt => cases neither.2
          | void accountId queryRunId attempt => cases neither.2
          | mint ip accountId cap attempt =>
              have hrow : row = mintRow ip accountId w.ledger.clock := writes
              rw [hrow]
              rfl
          | record recorder name accountId queryRunId payload attempt =>
              have hrow : row =
                  otherRow recorder name accountId queryRunId payload w.ledger.clock := writes
              subst hrow
              obtain ⟨hcharges, hcorrections, -⟩ := other_unmetered name
              exact (EventRow.unmetered hcharges hcorrections).2.1

/-- Every run in order that loses no reconciliation leaves the rails consistent. -/
theorem consistent_runRails (julianday : Text → Option ℚ) (start : Instant) (ops : List RailOp)
    (horder : (ops.map RailOp.onLedger).Pairwise LedgerOp.InOrder)
    (hfollow : AllFollow julianday start ops) :
    (runRails julianday start ops).Consistent (ops.map RailOp.onLedger) := by
  induction ops using List.reverseRecOn with
  | nil =>
      obtain ⟨hsound, hexplained⟩ := sound_runLedger julianday start [] List.Pairwise.nil
      exact ⟨hsound, hexplained, fun event hevent => absurd hevent List.not_mem_nil⟩
  | append_singleton ops op ih =>
      rw [List.map_append, List.map_singleton] at horder ⊢
      obtain ⟨hops, -, hlast⟩ := List.pairwise_append.mp horder
      have hbefore : AllFollow julianday start ops := by
        intro earlier op' later hsplit
        exact hfollow earlier op' (later ++ [op])
          (by rw [hsplit, List.append_assoc, List.cons_append])
      rw [runRails_concat]
      exact consistent_apply julianday (ih hops hbefore)
        (fun earlier hearlier => hlast earlier hearlier _ (List.mem_singleton.mpr rfl))
          (hfollow ops op [] rfl)

/-! ### What the rails report -/

/-- The runs that the ring charges to an account. -/
def CostEventRing.runsOf (accountId : Uuid) (ring : CostEventRing) : List Uuid :=
  (ring.chargesOf accountId).filterMap CostGuardrailEvent.queryRunId

/-- The charges in the window of the account's meter that are not voided. -/
def openCharges (accountId : Uuid) (now : Instant) (events : List EventRow) :
    List (Uuid × Amount) :=
  ((events.filter
    (EventRow.metered (now.back spendWindow) (some accountId) accountChargeEvents)).filterMap
    EventRow.charge).filter fun entry => !voided events entry.1

theorem meteredSpend_eq_openCharges (accountId : Uuid) (now : Instant) (events : List EventRow) :
    meteredSpend (now.back spendWindow) (some accountId) accountChargeEvents events =
      ((openCharges accountId now events).map (settledAmount events)).sum := by
  rw [meteredSpend, openCharges]
  induction (events.filter (EventRow.metered (now.back spendWindow) (some accountId)
    accountChargeEvents)).filterMap EventRow.charge with
  | nil => rfl
  | cons entry entries ih =>
      rw [List.map_cons, List.sum_cons, ih, List.filter_cons]
      cases hvoided : voided events entry.1 with
      | true => simp [settledAmount, hvoided]
      | false => simp

/-- What the ledger counts a run for. -/
def settledRun (events : List EventRow) (queryRunId : Uuid) : Amount :=
  ((events.filterMap EventRow.charge).find? fun entry => entry.1 = queryRunId).elim 0
    (settledAmount events)

theorem settledRun_of_mem {events : List EventRow}
    (hruns : ((events.filterMap EventRow.charge).map Prod.fst).Nodup) {entry : Uuid × Amount}
    (h : entry ∈ events.filterMap EventRow.charge) :
    settledRun events entry.1 = settledAmount events entry := by
  have hfind : (events.filterMap EventRow.charge).find? (fun other => other.1 = entry.1) =
      some entry := by
    have hsome : ((events.filterMap EventRow.charge).find? fun other =>
        other.1 = entry.1).isSome := by
      rw [List.find?_isSome]
      exact ⟨entry, h, decide_eq_true rfl⟩
    obtain ⟨other, hother⟩ := Option.isSome_iff_exists.mp hsome
    have hrun : other.1 = entry.1 := by simpa using List.find?_some hother
    rw [hother, List.inj_on_of_nodup_map hruns (List.mem_of_find?_eq_some hother) h hrun]
  rw [settledRun, hfind]
  rfl

/-- Both rails record the same charges of the account: the same runs, each as often. -/
def SameCharges (accountId : Uuid) (now : Instant) (w : RailWorld) : Prop :=
  (w.ring.runsOf accountId).Perm ((openCharges accountId now w.ledger.store.events).map Prod.fst)

/-- The ring sums what the ledger counts its runs for. -/
theorem cumulativeSpendFor_eq {ring : CostEventRing} {events : List EventRow}
    (h : RingAgrees ring events) (hruns : ((events.filterMap EventRow.charge).map Prod.fst).Nodup)
    (accountId : Uuid) :
    cumulativeSpendFor accountId ring = ((ring.runsOf accountId).map (settledRun events)).sum := by
  rw [cumulativeSpendFor, CostEventRing.runsOf]
  have hcharges : ∀ event ∈ ring.chargesOf accountId, ∃ entry ∈ events.filterMap EventRow.charge,
      event.queryRunId = some entry.1 ∧ event.estimatedCostUsd = settledAmount events entry := by
    intro event hevent
    obtain ⟨hmem, hcharge⟩ := List.mem_filter.mp hevent
    obtain ⟨entry, hentry, hrun, -, hamount⟩ :=
      h event hmem (by simpa using (decide_eq_true_eq.mp hcharge).2)
    exact ⟨entry, hentry, hrun, hamount⟩
  generalize ring.chargesOf accountId = charges at hcharges
  induction charges with
  | nil => rfl
  | cons event charges ih =>
      obtain ⟨entry, hentry, hrun, hamount⟩ := hcharges event List.mem_cons_self
      rw [List.map_cons, List.sum_cons, List.filterMap_cons_some hrun, List.map_cons, List.sum_cons,
        ih fun e he => hcharges e (List.mem_cons_of_mem _ he), settledRun_of_mem hruns hentry,
        hamount]

/-- Consistent rails with the same charges report the same spend. -/
theorem RailWorld.Consistent.same_spend {ops : List LedgerOp} {w : RailWorld} (h : w.Consistent ops)
    {accountId : Uuid} {now : Instant} (hnow : w.ledger.clock ≤ now)
    (hsame : SameCharges accountId now w) :
    dailySpendFor accountId now w.ledger.store = .ok (cumulativeSpendFor accountId w.ring) := by
  have hruns := h.sound.runs_nodup
  have hopen : (openCharges accountId now w.ledger.store.events).map
      (settledAmount w.ledger.store.events) =
      ((openCharges accountId now w.ledger.store.events).map Prod.fst).map
        (settledRun w.ledger.store.events) := by
    rw [List.map_map]
    refine List.map_congr_left fun entry hentry => (settledRun_of_mem hruns ?_).symm
    exact (List.filter_sublist.filterMap _).subset (List.mem_of_mem_filter hentry)
  rw [h.sound.dailySpendFor hnow, meteredSpend_eq_openCharges, hopen,
    cumulativeSpendFor_eq h.agrees hruns]
  exact congrArg Except.ok (hsame.map _).sum_eq.symm

/-- A reconciliation corrects the ring if and only if its row is in the ledger, exactly unless its
INSERT is lost while the store admits it and the ring holds another amount; and in every run in
order that loses none, where both rails record the same charges of an account they report the same
spend. -/
theorem ring_follows_ledger (julianday : Text → Option ℚ) (start : Instant) (ops : List RailOp) :
    (∀ now attempt request rails,
      RingFollows now request rails (after (reconcileRunCharge now attempt request) rails) ↔
        ¬LostReconciliation now attempt request rails) ∧
    ((ops.map RailOp.onLedger).Pairwise LedgerOp.InOrder → AllFollow julianday start ops →
      ∀ accountId now, (runRails julianday start ops).ledger.clock ≤ now →
        SameCharges accountId now (runRails julianday start ops) →
        dailySpendFor accountId now (runRails julianday start ops).ledger.store =
          .ok (cumulativeSpendFor accountId (runRails julianday start ops).ring)) := by
  refine ⟨ringFollows_iff, fun horder hfollow accountId now hnow hsame => ?_⟩
  exact (consistent_runRails julianday start ops horder hfollow).same_spend hnow hsame

/-! A charge of $0.20 whose reconciliation to $0.10 is lost. -/

def chargedRails : SpendRails :=
  (runRails sampleJulianday noonOfJanuary [.charge ⟨1, 7,
    1 / 5, 1, 5, true⟩ false false ⟨true, 0⟩ ⟨true, 0⟩]).rails

def lostOps : List RailOp :=
  [.charge ⟨1, 7, 1 / 5, 1, 5, true⟩ false false ⟨true, 0⟩ ⟨true, 0⟩,
    .reconcile ⟨1, 7, 1 / 5, 1 / 10⟩ ⟨false, 1⟩]

/-- The ring takes the measured cost without its row, and the rails report two spends of the same
charge. -/
theorem lostReconciliation_apart :
    (¬RingFollows noonOfJanuary ⟨1, 7, 1 / 5, 1 / 10⟩ chargedRails
        (after (reconcileRunCharge noonOfJanuary ⟨false, 1⟩ ⟨1, 7, 1 / 5, 1 / 10⟩) chargedRails)) ∧
      SameCharges 1 noonOfJanuary (runRails sampleJulianday noonOfJanuary lostOps) ∧
      dailySpendFor 1 noonOfJanuary (runRails sampleJulianday noonOfJanuary lostOps).ledger.store =
        .ok (1 / 5) ∧
      cumulativeSpendFor 1 (runRails sampleJulianday noonOfJanuary lostOps).ring = 1 / 10 := by
  refine ⟨?_, ?_⟩
  · rw [ringFollows_iff, not_not]
    exact ⟨⟨_, rfl, by decide +kernel⟩, rfl, by decide +kernel⟩
  · unfold SameCharges
    decide +kernel

def landedOps : List RailOp :=
  [.charge ⟨1, 7, 1 / 5, 1, 5, true⟩ false false ⟨true, 0⟩ ⟨true, 0⟩,
    .reconcile ⟨1, 7, 1 / 5, 1 / 10⟩ ⟨true, 1⟩]

theorem ring_follows_ledger_landed :
    dailySpendFor 1 noonOfJanuary (runRails sampleJulianday noonOfJanuary landedOps).ledger.store =
      .ok (cumulativeSpendFor 1 (runRails sampleJulianday noonOfJanuary landedOps).ring) := by
  have horder : (landedOps.map RailOp.onLedger).Pairwise LedgerOp.InOrder := by
    refine List.pairwise_pair.mpr ⟨fun _ _ _ hsecond => ?_, fun _ _ _ hsecond => ?_,
      fun _ _ hfirst hsecond _ => ?_⟩
    · cases hsecond
    · cases hsecond
    · cases hfirst
      cases hsecond
      rfl
  have hfollow : AllFollow sampleJulianday noonOfJanuary landedOps := by
    intro earlier op later hsplit
    have hop : op ∈ landedOps := by
      rw [hsplit]
      exact List.mem_append_right _ List.mem_cons_self
    rcases List.mem_pair.mp hop with rfl | rfl
    · trivial
    · exact fun hlost => Bool.false_ne_true hlost.2.1.symm
  refine (ring_follows_ledger sampleJulianday noonOfJanuary landedOps).2 horder hfollow 1
    noonOfJanuary ?_ ?_
  · decide +kernel
  · unfold SameCharges
    decide +kernel

end Quorum
