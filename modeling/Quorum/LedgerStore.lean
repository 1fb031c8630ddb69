import Quorum.BaseIsoTime
import Quorum.BaseTally
import Quorum.BaseTransaction
import Quorum.CostTypes

/-! The feedback store as the ledger of what runs cost. A run's charge is a row that carries its
estimate; a later row of the same run corrects it to a measured cost or voids it, and no row is ever
deleted. The check of the two spend rails and the insert of a charge are one hold of the store's
lock. -/

namespace Quorum

open IsoTime Transaction

/-- An amount of US dollars that is booked. Estimates are nonnegative by their model, measured costs
by their prices. -/
abbrev Amount := ℚ≥0

inductive Recorder
  | synthesis
  | provider
  | modelSlot
  | cost
  | safety
  | debate
  | session
  | evaluation
deriving DecidableEq

/-- The event types that the meters and the wipe name, and every other one. -/
inductive EventType
  | costAccepted
  | costAcceptedSimulated
  | costReconciled
  | costChargeVoided
  | sessionMinted
  | other (name : String)
deriving DecidableEq

/-- `_ACCOUNT_CHARGE_EVENTS`. -/
def accountChargeEvents : List EventType := [.costAccepted, .costAcceptedSimulated]

/-- `_LIVE_CHARGE_EVENTS`. -/
def liveChargeEvents : List EventType := [.costAccepted]

def chargeEventType (liveExecution : Bool) : EventType :=
  if liveExecution then .costAccepted else .costAcceptedSimulated

/-- The keys of a payload that a meter or the wipe reads. -/
structure EventPayload where
  accountId : Option Uuid := none
  estimatedCostUsd : Option Amount := none
  actualCostUsd : Option Amount := none
  ip : Option String := none
  payloadUnreadableWiped : Bool := false
deriving DecidableEq

/-- A row of the `events` table. The table's order is that of its ids. A time is a column of text,
and a payload that is not JSON is none. -/
structure EventRow where
  recorder : Recorder
  eventType : EventType
  accountId : Option Uuid
  queryRunId : Option Uuid
  recordedAt : Text
  payload : Option EventPayload
deriving DecidableEq

/-- How an INSERT goes: whether it lands, and the monotonic clock behind it. -/
structure WriteAttempt where
  lands : Bool
  monotonic : ℕ

structure FeedbackStore where
  events : List EventRow
  lastWriteSuccessAt : Option ℕ
  lastWriteFailureAt : Option ℕ
  lostBilledWrites : ℕ

def FeedbackStore.empty : FeedbackStore := ⟨[], none, none, 0⟩

inductive LedgerError
  | emptyMeter
  | jsonDecodeError
  | sqliteError
  | interrupted
deriving DecidableEq

abbrev Ledger (α : Type) := Script LedgerError FeedbackStore α

/-! ### Writes -/

/-- `_METERED_WRITES`. -/
def meteredWrites : List (Recorder × EventType) :=
  [(.cost, .costAccepted), (.cost, .costAcceptedSimulated), (.cost, .costReconciled)]

/-- `_insert_event`: whether the row landed. A failed write raises nothing. -/
def insertEvent (attempt : WriteAttempt) (row : EventRow) : Ledger Bool := fun store =>
  if attempt.lands then
    .ok true { store with events := store.events ++ [row], lastWriteSuccessAt := some attempt.monotonic }
  else
    .ok false { store with
      lastWriteFailureAt := some attempt.monotonic
      lostBilledWrites :=
        if (row.recorder, row.eventType) ∈ meteredWrites then store.lostBilledWrites + 1
        else store.lostBilledWrites }

inductive WriteHealth
  | ok
  | failing
  | unverified
deriving DecidableEq

/-- A tie of the two stamps is a failure. -/
def writeHealth (store : FeedbackStore) : WriteHealth :=
  match store.lastWriteFailureAt, store.lastWriteSuccessAt with
  | none, none => .unverified
  | none, some _ => .ok
  | some _, none => .failing
  | some failedAt, some succeededAt => if failedAt ≥ succeededAt then .failing else .ok

/-- `feedback_ledger_may_be_metered`: no evidence that the rows miss money. -/
def feedbackLedgerMayBeMetered (store : FeedbackStore) : Bool :=
  writeHealth store ≠ .failing ∧ store.lostBilledWrites = 0

/-! ### The meter -/

/-- The row belongs to the account; without one, every row does. -/
def EventRow.ofAccount (accountId : Option Uuid) (row : EventRow) : Bool :=
  match accountId with
  | some accountId => row.accountId = some accountId
  | none => true

/-- The row of a meter: of the cost recorder, one of the event types, of the account and not before
the cutoff. -/
def EventRow.metered (cutoff : Instant) (accountId : Option Uuid) (eventTypes : List EventType)
    (row : EventRow) : Bool :=
  row.recorder = .cost ∧ row.eventType ∈ eventTypes ∧ row.ofAccount accountId ∧
    isoformat cutoff ≤ row.recordedAt

def loads (row : EventRow) : Except LedgerError EventPayload :=
  match row.payload with
  | some payload => return payload
  | none => throw .jsonDecodeError

/-- One opening charge. A charge without a run cannot be corrected. -/
def addCharge (totals : Dict Uuid Amount × Amount) (row : EventRow) :
    Except LedgerError (Dict Uuid Amount × Amount) := do
  let payload ← loads row
  let amount := payload.estimatedCostUsd.getD 0
  match row.queryRunId with
  | none => return (totals.1, totals.2 + amount)
  | some queryRunId => return (Tally.add totals.1 (queryRunId, amount), totals.2)

/-- One correction. A reconciliation without a measured figure corrects nothing. -/
def applyCorrection (charged : Dict Uuid Amount) (row : EventRow) :
    Except LedgerError (Dict Uuid Amount) :=
  match row.queryRunId with
  | none => return charged
  | some queryRunId =>
      if (charged.get? queryRunId).isNone then return charged
      else if row.eventType = .costChargeVoided then return charged.set queryRunId 0
      else do
        let payload ← loads row
        match payload.actualCostUsd with
        | none => return charged
        | some actual => return charged.set queryRunId actual

/-- `_spend_total_locked`. -/
def spendTotalLocked (cutoff : Instant) (accountId : Option Uuid)
    (chargeEventTypes : List EventType) (events : List EventRow) : Except LedgerError Amount :=
  if chargeEventTypes = [] then throw .emptyMeter
  else do
    let (charged, total) ←
      (events.filter (EventRow.metered cutoff accountId chargeEventTypes)).foldlM addCharge
        (Dict.empty, 0)
    if charged.items = [] then return total
    else do
      let charged ←
        (events.filter (EventRow.metered cutoff accountId [.costReconciled,
          .costChargeVoided])).foldlM
          applyCorrection charged
      return total + charged.values.sum

/-- The rolling window of the meters, 24 hours in microseconds. -/
def spendWindow : ℕ := microsPerDay

def dailySpendFor (accountId : Uuid) (now : Instant) (store : FeedbackStore) :
    Except LedgerError Amount :=
  spendTotalLocked (now.back spendWindow) (some accountId) accountChargeEvents store.events

def globalDailySpend (now : Instant) (store : FeedbackStore) : Except LedgerError Amount :=
  spendTotalLocked (now.back spendWindow) none liveChargeEvents store.events

def globalDailySimulatedSpend (now : Instant) (store : FeedbackStore) : Except LedgerError Amount :=
  spendTotalLocked (now.back spendWindow) none [.costAcceptedSimulated] store.events

/-! ### Operations -/

inductive ChargeOutcome
  | recorded
  | overDailyCap
  | overGlobalCeiling
  | meteringUnavailable
deriving DecidableEq

/-- What a read of the store answers, or what it raises. -/
def reading {α : Type} (read : FeedbackStore → Except LedgerError α) : Ledger α := fun store =>
  match read store with
  | .ok answer => .ok answer store
  | .error raised => .error raised store

/-- The arguments of a charge. -/
structure ChargeRequest where
  accountId : Uuid
  queryRunId : Uuid
  estimatedCostUsd : Amount
  dailyCapUsd : Amount
  globalCeilingUsd : Amount
  liveExecution : Bool

def ChargeRequest.row (request : ChargeRequest) (now : Instant) : EventRow where
  recorder := .cost
  eventType := chargeEventType request.liveExecution
  accountId := some request.accountId
  queryRunId := some request.queryRunId
  recordedAt := isoformat now
  payload := some { accountId := some request.accountId, estimatedCostUsd := some request.estimatedCostUsd }

/-- `_check_rails_and_charge_locked`, under one hold of the lock. -/
def tryRecordCostCharge (now : Instant) (attempt : WriteAttempt) (request : ChargeRequest) :
    Ledger ChargeOutcome := do
  let already ← reading (dailySpendFor request.accountId now)
  if already + request.estimatedCostUsd > request.dailyCapUsd then return .overDailyCap
  else do
    let globalSpent ← reading (globalDailySpend now)
    if globalSpent ≥ request.globalCeilingUsd then return .overGlobalCeiling
    else do
      let landed ← insertEvent attempt (request.row now)
      if landed then return .recorded else return .meteringUnavailable

/-- The arguments of a reconciliation. -/
structure Reconciliation where
  accountId : Uuid
  queryRunId : Uuid
  estimatedCostUsd : Amount
  actualCostUsd : Amount

def Reconciliation.row (request : Reconciliation) (now : Instant) : EventRow where
  recorder := .cost
  eventType := .costReconciled
  accountId := some request.accountId
  queryRunId := some request.queryRunId
  recordedAt := isoformat now
  payload := some
    { accountId := some request.accountId
      estimatedCostUsd := some request.estimatedCostUsd
      actualCostUsd := some request.actualCostUsd }

/-- The run has a row of the type in the window. -/
def seen (now : Instant) (queryRunId : Uuid) (eventType : EventType)
    (store : FeedbackStore) : Bool :=
  store.events.any fun row =>
    row.recorder = .cost ∧ row.queryRunId = some queryRunId ∧
      isoformat (now.back spendWindow) ≤ row.recordedAt ∧ row.eventType = eventType

/-- The run has an open live charge in the window. -/
def admitsReconciliation (now : Instant) (queryRunId : Uuid) (store : FeedbackStore) : Bool :=
  seen now queryRunId .costAccepted store ∧ ¬seen now queryRunId .costReconciled store ∧
    ¬seen now queryRunId .costChargeVoided store

/-- `try_record_cost_reconciliation`. It answers that it wrote whether or not the row landed. -/
def tryRecordCostReconciliation (now : Instant) (attempt : WriteAttempt)
    (request : Reconciliation) : Ledger Bool := do
  let store ← get
  if admitsReconciliation now request.queryRunId store then do
    let _ ← insertEvent attempt (request.row now)
    return true
  else return false

def voidRow (accountId queryRunId : Uuid) (now : Instant) : EventRow where
  recorder := .cost
  eventType := .costChargeVoided
  accountId := some accountId
  queryRunId := some queryRunId
  recordedAt := isoformat now
  payload := some { accountId := some accountId }

/-- `void_cost_charge`. It checks nothing. -/
def voidCostCharge (now : Instant) (attempt : WriteAttempt) (accountId queryRunId : Uuid) :
    Ledger Unit := do
  let _ ← insertEvent attempt (voidRow accountId queryRunId now)
  return ()

/-! ### Session mints -/

/-- `SESSION_MINT_WINDOW`, 24 hours in microseconds. -/
def sessionMintWindow : ℕ := microsPerDay

/-- The row of a mint in the window. -/
def EventRow.minted (cutoff : Instant) (row : EventRow) : Bool :=
  row.recorder = .session ∧ row.eventType = .sessionMinted ∧ isoformat cutoff ≤ row.recordedAt

def sessionMintCountForIp (ip : String) (now : Instant) (store : FeedbackStore) :
    Except LedgerError ℕ := do
  let payloads ← (store.events.filter (EventRow.minted (now.back sessionMintWindow))).mapM loads
  return payloads.countP fun payload => payload.ip = some ip

def mintRow (ip : String) (accountId : Uuid) (now : Instant) : EventRow where
  recorder := .session
  eventType := .sessionMinted
  accountId := some accountId
  queryRunId := none
  recordedAt := isoformat now
  payload := some { ip := some ip }

/-- `try_record_session_mint`. A mint under the cap is let through whether or not its row landed. -/
def tryRecordSessionMint (now : Instant) (attempt : WriteAttempt) (ip : String) (accountId : Uuid)
    (cap : ℕ) : Ledger Bool := do
  let count ← reading (sessionMintCountForIp ip now)
  if count ≥ cap then return false
  else do
    let _ ← insertEvent attempt (mintRow ip accountId now)
    return true

/-! ### The identifier wipe -/

/-- `IDENTIFIER_KEEP`, 48 hours in microseconds. -/
def identifierKeep : ℕ := 2 * microsPerDay

/-- `UNREADABLE_PAYLOAD_MARKER`. -/
def unreadablePayloadMarker : EventPayload := { payloadUnreadableWiped := true }

section

-- SQLite's `julianday` of a text, where it reads one.
variable (julianday : Text → Option ℚ)

/-- `_OLDER_THAN_CUT`. A stamp in UTC is compared as text, any other one as an instant. -/
def olderThanCut (cut : Instant) (recordedAt : Text) : Bool :=
  if utcOffset <:+ recordedAt then recordedAt < isoformat cut
  else match julianday recordedAt, julianday (isoformat cut) with
    | some day, some cutDay => day < cutDay
    | _, _ => false

/-- `_COST_KEY_DUE`. -/
def EventRow.costKeyDue (cut : Instant) (row : EventRow) : Bool :=
  row.recorder = .cost ∧ olderThanCut julianday cut row.recordedAt ∧
    (row.accountId ≠ none ∨ (row.payload.map EventPayload.accountId) ≠ some none)

/-- `_MINT_ADDRESS_DUE`. -/
def EventRow.mintAddressDue (cut : Instant) (row : EventRow) : Bool :=
  row.recorder = .session ∧ row.eventType = .sessionMinted ∧
    olderThanCut julianday cut row.recordedAt ∧
    (row.payload.map EventPayload.ip) ≠ some none

/-- A due cost row loses its key, in the column and in the payload. -/
def EventRow.wipeCostKey (cut : Instant) (row : EventRow) : EventRow :=
  if row.costKeyDue julianday cut then
    { row with
      accountId := none
      payload := match row.payload with
        | none => some unreadablePayloadMarker
        | some payload => some { payload with accountId := none } }
  else row

/-- A due mint loses its address. -/
def EventRow.wipeMintAddress (cut : Instant) (row : EventRow) : EventRow :=
  if row.mintAddressDue julianday cut then
    { row with
      payload := match row.payload with
        | none => some unreadablePayloadMarker
        | some payload => some { payload with ip := none } }
  else row

structure WipeResult where
  costKeysWiped : ℕ
  sessionAddressesWiped : ℕ
  malformedPayloads : ℕ
deriving DecidableEq

/-- Rewrite every row, and count the rows of a kind before. -/
def rewriteEvents (counts : EventRow → Bool) (rewrite : EventRow → EventRow)
    (store : FeedbackStore) : ℕ × FeedbackStore :=
  (store.events.countP counts, { store with events := store.events.map rewrite })

/-- `_wipe_locked`. Statement 0 is the BEGIN, statement 4 the COMMIT, and statement 5 the count that
comes first. -/
def wipeLocked (faults : Faults LedgerError) (cut : Instant) : Ledger WipeResult := do
  let due ← execute faults 5 fun store =>
    (store.events.any fun row => row.costKeyDue julianday cut
      || row.mintAddressDue julianday cut, store)
  if due then
    transaction faults 4 do
      let malformed ← execute faults 1 fun store =>
        (store.events.countP fun row =>
          (row.costKeyDue julianday cut || row.mintAddressDue julianday cut)
            && row.payload.isNone, store)
      let cost ← execute faults 2
        (rewriteEvents (EventRow.costKeyDue julianday cut) (EventRow.wipeCostKey julianday cut))
      let mint ← execute faults 3
        (rewriteEvents (EventRow.mintAddressDue julianday cut)
          (EventRow.wipeMintAddress julianday cut))
      return .commit ⟨cost, mint, malformed⟩
  else return ⟨0, 0, 0⟩

/-- `wipe_expired_identifiers`. It takes the store's lock anew after the write that starts it, and
never raises. -/
def wipeExpiredIdentifiers (faults : Faults LedgerError) (now : Instant) : Ledger WipeResult :=
  recover (fun _ => true) ⟨0, 0, 0⟩ (wipeLocked julianday faults (now.back identifierKeep))

end

end Quorum
