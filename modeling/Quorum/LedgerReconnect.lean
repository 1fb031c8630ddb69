import Mathlib.Logic.Function.Basic
import Quorum.LedgerStore

/-! The reconnect of the spend ledger (`store_reconnect`) and the two places that meter against it.
Priced requests, background reopens and ledger writes take turns; a request or a reopen stops
between any two of its readings. A predicate on a handle reads two counters in turn, and as losses
only grow it answers as one reading of the handle at one of the two moments would, so here it is
one. -/

namespace Quorum

/-! ### Handles -/

/-- A store handle: its two stamps on the process's clock, and its count of lost billed writes. -/
structure LedgerHandle where
  lastWriteSuccessAt : Option ℕ
  lastWriteFailureAt : Option ℕ
  lostBilledWrites : ℕ
deriving DecidableEq

namespace LedgerHandle

def writeHealth (handle : LedgerHandle) : WriteHealth :=
  match handle.lastWriteFailureAt, handle.lastWriteSuccessAt with
  | none, none => .unverified
  | none, some _ => .ok
  | some _, none => .failing
  | some failedAt, some succeededAt => if failedAt ≥ succeededAt then .failing else .ok

/-- A handle that was just opened, with what its own writes at the open did. -/
def opened (now : ℕ) (landed failed : Bool) : LedgerHandle where
  lastWriteSuccessAt := if landed then some now else none
  lastWriteFailureAt := if failed then some now else none
  lostBilledWrites := 0

/-- `_insert_event`. -/
def insertEvent (handle : LedgerHandle) (now : ℕ) (billed landed : Bool) : LedgerHandle :=
  if landed then { handle with lastWriteSuccessAt := some now }
  else
    { handle with
      lastWriteFailureAt := some now
      lostBilledWrites := handle.lostBilledWrites + if billed then 1 else 0 }

/-- A landed write, and no billed write lost. -/
def Sound (handle : LedgerHandle) : Prop := handle.writeHealth = .ok ∧ handle.lostBilledWrites = 0

end LedgerHandle

/-- What the reconnect sees of a store. -/
def FeedbackStore.handle (store : FeedbackStore) : LedgerHandle :=
  ⟨store.lastWriteSuccessAt, store.lastWriteFailureAt, store.lostBilledWrites⟩

theorem writeHealth_handle (store : FeedbackStore) :
    store.handle.writeHealth = writeHealth store := rfl

/-- An insert into the store is an insert of its handle, billed if a meter reads the row. -/
theorem insertEvent_handle (attempt : WriteAttempt) (row : EventRow) (store : FeedbackStore) :
    (Transaction.after (insertEvent attempt row) store).handle =
      store.handle.insertEvent attempt.monotonic ((row.recorder, row.eventType) ∈ meteredWrites)
        attempt.lands := by
  rw [Transaction.after, insertEvent, LedgerHandle.insertEvent]
  cases attempt.lands with
  | true => rfl
  | false =>
      by_cases hbilled : (row.recorder, row.eventType) ∈ meteredWrites
      · simp [FeedbackStore.handle, hbilled]
      · simp [FeedbackStore.handle, hbilled]

namespace StoreReconnect

def feedbackLedgerIsStale : Option LedgerHandle → Bool
  | none => true
  | some handle => handle.writeHealth = .failing

def feedbackLedgerMayBeMetered : Option LedgerHandle → Bool
  | none => false
  | some handle => !feedbackLedgerIsStale (some handle) && handle.lostBilledWrites = 0

def feedbackLedgerIsTrustworthy : Option LedgerHandle → Bool
  | none => false
  | some handle => handle.writeHealth = .ok && handle.lostBilledWrites = 0

theorem mayBeMetered_handle (store : FeedbackStore) :
    feedbackLedgerMayBeMetered (some store.handle) = Quorum.feedbackLedgerMayBeMetered store := by
  have hlost : store.handle.lostBilledWrites = store.lostBilledWrites := rfl
  rw [feedbackLedgerMayBeMetered, feedbackLedgerIsStale, Quorum.feedbackLedgerMayBeMetered,
    writeHealth_handle, hlost]
  cases writeHealth store <;> simp

theorem sound_of_isTrustworthy {handle : LedgerHandle}
    (h : feedbackLedgerIsTrustworthy (some handle) = true) : handle.Sound := by
  simpa [feedbackLedgerIsTrustworthy, LedgerHandle.Sound] using h

theorem mayBeMetered_of_isTrustworthy {store : Option LedgerHandle}
    (h : feedbackLedgerIsTrustworthy store = true) : feedbackLedgerMayBeMetered store = true := by
  cases store with
  | none => exact h
  | some handle =>
      obtain ⟨hhealth, hlost⟩ := sound_of_isTrustworthy h
      simp [feedbackLedgerMayBeMetered, feedbackLedgerIsStale, hhealth, hlost]

end StoreReconnect

open StoreReconnect (feedbackLedgerIsTrustworthy)

/-! ### Turns -/

structure ReconnectSettings where
  dailyCapFailClosed : Bool
  storeReconnectCooldown : ℕ
  cooldown_pos : 0 < storeReconnectCooldown

inductive LedgerDecision
  | blocked
  | degraded
  | metered
deriving DecidableEq

/-- Where an estimate or a charge stands. `tried` is its snapshot of the flag, `store` a handle it
fetched. -/
inductive PricedPhase
  | snapshotted (tried : Bool)
  | fetched (tried : Bool) (store : Option ℕ)
  | flagRead (tried : Bool) (store : Option ℕ) (flag : Bool)
  | recovered (tried : Bool) (store : Option ℕ)
  | triggering (tried : Bool) (store : Option ℕ)
  | due (tried : Bool)
  | spawning (tried : Bool)
  | deciding (tried : Bool)
  | checking (tried : Bool) (store : Option ℕ)
  | judged (tried : Bool) (store : Option ℕ) (trustworthy : Bool)
  | charging (store : Option ℕ)
  | metering (handle : ℕ)
  | decided (decision : LedgerDecision)
deriving DecidableEq

/-- Where a background reopen stands. -/
inductive ReopenPhase
  | opening
  | configuring (handle : ℕ)
  | judging (handle : ℕ)
  | concluding (trustworthy : Bool)
  | ended
deriving DecidableEq

/-- A request, or the reopen that it started. -/
inductive LedgerActor
  | request (request : ℕ)
  | reopen (request : ℕ)
deriving DecidableEq

inductive LedgerEvent
  | snapshot (request : ℕ) (tried : Bool)
  | started (request : ℕ)
  | observed (actor : LedgerActor) (handle : LedgerHandle)
  | checked (request : ℕ) (handle : ℕ)
  | metered (request : ℕ) (handle : ℕ)
  | blocked (request : ℕ)
  | lost (handle : ℕ)
deriving DecidableEq

/-- The process: its clock, every handle it has opened, the installed one, the flag and the cooldown
stamp of `store_reconnect`, the requests and their reopens. Ghost state: the log, newest event
first. -/
structure ReconnectWorld where
  clock : ℕ
  handles : List LedgerHandle
  installed : Option ℕ
  triedWithoutRecovery : Bool
  lastAttemptAt : Option ℕ
  requests : ℕ → Option PricedPhase
  reopens : ℕ → Option ReopenPhase
  log : List LedgerEvent

/-- What an open of the store comes to: it raises, or it returns a handle after writes of its
own. -/
inductive OpenOutcome
  | raised
  | returned (landed failed : Bool)
deriving DecidableEq

inductive LedgerTurn
  | tick (span : ℕ)
  | write (handle : ℕ) (billed landed : Bool)
  | record (billed landed : Bool)
  | estimate (request : ℕ)
  | charge (request : ℕ)
  | request (request : ℕ) (threadStarts : Bool)
  | reopen (request : ℕ) (outcome : OpenOutcome)
deriving DecidableEq

namespace ReconnectWorld

/-- A process at its start, whose one open at import came to the outcome. -/
def boot : OpenOutcome → ReconnectWorld
  | .raised => ⟨0, [], none, false, none, fun _ => none, fun _ => none, []⟩
  | .returned landed failed =>
      ⟨0, [LedgerHandle.opened 0 landed failed], some 0, false, none, fun _ => none,
        fun _ => none, []⟩

variable (settings : ReconnectSettings) (world : ReconnectWorld) (request : ℕ)

/-- The handle behind what a reader fetched. -/
def fetch (store : Option ℕ) : Option LedgerHandle :=
  store.bind fun handle => world.handles[handle]?

def enter (phase : PricedPhase) (events : List LedgerEvent) : ReconnectWorld :=
  { world with
    requests := Function.update world.requests request (some phase)
    log := events ++ world.log }

def enterReopen (phase : ReopenPhase) (events : List LedgerEvent) : ReconnectWorld :=
  { world with
    reopens := Function.update world.reopens request (some phase)
    log := events ++ world.log }

section Enter

variable (phase : PricedPhase) (reopenPhase : ReopenPhase) (events : List LedgerEvent)

@[simp] theorem requests_enter : (world.enter request phase events).requests =
    Function.update world.requests request (some phase) := rfl

@[simp] theorem reopens_enter : (world.enter request phase events).reopens = world.reopens := rfl

@[simp] theorem handles_enter : (world.enter request phase events).handles = world.handles := rfl

@[simp] theorem installed_enter :
    (world.enter request phase events).installed = world.installed := rfl

@[simp] theorem tried_enter :
    (world.enter request phase events).triedWithoutRecovery = world.triedWithoutRecovery := rfl

@[simp] theorem clock_enter : (world.enter request phase events).clock = world.clock := rfl

@[simp] theorem lastAttemptAt_enter :
    (world.enter request phase events).lastAttemptAt = world.lastAttemptAt := rfl

@[simp] theorem log_enter : (world.enter request phase events).log = events ++ world.log := rfl

@[simp] theorem requests_enterReopen :
    (world.enterReopen request reopenPhase events).requests = world.requests := rfl

@[simp] theorem reopens_enterReopen : (world.enterReopen request reopenPhase events).reopens =
    Function.update world.reopens request (some reopenPhase) := rfl

@[simp] theorem handles_enterReopen :
    (world.enterReopen request reopenPhase events).handles = world.handles := rfl

@[simp] theorem installed_enterReopen :
    (world.enterReopen request reopenPhase events).installed = world.installed := rfl

@[simp] theorem tried_enterReopen :
    (world.enterReopen request reopenPhase events).triedWithoutRecovery =
      world.triedWithoutRecovery := rfl

@[simp] theorem clock_enterReopen :
    (world.enterReopen request reopenPhase events).clock = world.clock := rfl

@[simp] theorem lastAttemptAt_enterReopen :
    (world.enterReopen request reopenPhase events).lastAttemptAt = world.lastAttemptAt := rfl

@[simp] theorem log_enterReopen :
    (world.enterReopen request reopenPhase events).log = events ++ world.log := rfl

end Enter

/-- A write through a handle. -/
def writeTo (handle : ℕ) (billed landed : Bool) : ReconnectWorld :=
  { world with
    handles := world.handles.modify handle fun held => held.insertEvent world.clock billed landed
    log :=
      if billed && !landed && decide (handle < world.handles.length) then .lost handle :: world.log
      else world.log }

@[simp] theorem handles_writeTo (handle : ℕ) (billed landed : Bool) :
    (world.writeTo handle billed landed).handles =
      world.handles.modify handle fun held => held.insertEvent world.clock billed landed := rfl

/-- A handle that is sound is read in full; the log keeps what was seen. -/
def sightings (actor : LedgerActor) (store : Option LedgerHandle) : List LedgerEvent :=
  match store with
  | some handle =>
      if feedbackLedgerIsTrustworthy (some handle) then [.observed actor handle] else []
  | none => []

/-- The gate of a meter: the handle may be metered at this moment. -/
def gate (store : Option ℕ) : ReconnectWorld :=
  match store with
  | some handle =>
      if StoreReconnect.feedbackLedgerMayBeMetered (world.fetch store) then
        world.enter request (.metering handle) [.checked request handle]
      else world.enter request (.decided .degraded) []
  | none => world.enter request (.decided .degraded) []

/-- The cooldown's critical section. -/
def cooldownSection (tried : Bool) : ReconnectWorld :=
  match world.lastAttemptAt with
  | some last =>
      if world.clock < last + settings.storeReconnectCooldown then
        world.enter request (.deciding tried) []
      else { world with lastAttemptAt := some world.clock }.enter request (.spawning tried) []
  | none => { world with lastAttemptAt := some world.clock }.enter request (.spawning tried) []

/-- `_spawn`: a reopen that cannot be started has been tried. -/
def spawn (tried threadStarts : Bool) : ReconnectWorld :=
  if threadStarts then
    (world.enterReopen request .opening [.started request]).enter request (.deciding tried) []
  else { world with triedWithoutRecovery := true }.enter request (.deciding tried) []

/-- The next reading of a priced request: `maybe_reconnect_feedback_store`, and then the ledger
branch. -/
def proceed (phase : PricedPhase) (threadStarts : Bool) : ReconnectWorld :=
  match phase with
  | .snapshotted tried => world.enter request (.fetched tried world.installed) []
  | .fetched tried store =>
      world.enter request (.flagRead tried store world.triedWithoutRecovery) []
  | .flagRead tried store flag =>
      if flag && feedbackLedgerIsTrustworthy (world.fetch store) then
        world.enter request (.recovered tried store)
          (sightings (.request request) (world.fetch store))
      else world.enter request (.triggering tried store) []
  | .recovered tried store =>
      { world with triedWithoutRecovery := false }.enter request (.triggering tried store) []
  | .triggering tried store =>
      if StoreReconnect.feedbackLedgerMayBeMetered (world.fetch store) then
        world.enter request (.deciding tried) []
      else world.enter request (.due tried) []
  | .due tried => world.cooldownSection settings request tried
  | .spawning tried => world.spawn request tried threadStarts
  | .deciding tried => world.enter request (.checking tried world.installed) []
  | .checking tried store =>
      world.enter request (.judged tried store (feedbackLedgerIsTrustworthy (world.fetch store))) []
  | .judged tried store trustworthy =>
      if settings.dailyCapFailClosed && tried && !trustworthy then
        world.enter request (.decided .blocked) [.blocked request]
      else world.gate request store
  | .charging store => world.gate request store
  | .metering handle => world.enter request (.decided .metered) [.metered request handle]
  | .decided _ => world

/-- The next step of `_reopen_feedback_store`. -/
def proceedReopen (phase : ReopenPhase) (outcome : OpenOutcome) : ReconnectWorld :=
  match phase with
  | .opening =>
      match outcome with
      | .raised => { world with triedWithoutRecovery := true }.enterReopen request .ended []
      | .returned landed failed =>
          { world with handles := world.handles
            ++ [LedgerHandle.opened world.clock landed failed] }.enterReopen request
            (.configuring world.handles.length) []
  | .configuring handle =>
      { world with installed := some handle }.enterReopen request (.judging handle) []
  | .judging handle =>
      world.enterReopen request
        (.concluding (feedbackLedgerIsTrustworthy (world.fetch (some handle))))
        (sightings (.reopen request) (world.fetch (some handle)))
  | .concluding trustworthy =>
      { world with triedWithoutRecovery := !trustworthy }.enterReopen request .ended []
  | .ended => world

/-- One turn. A request arrives once, to price a run or to charge it. -/
def step (turn : LedgerTurn) : ReconnectWorld :=
  match turn with
  | .tick span => { world with clock := world.clock + span }
  | .write handle billed landed => world.writeTo handle billed landed
  | .record billed landed =>
      match world.installed with
      | some handle => world.writeTo handle billed landed
      | none => world
  | .estimate request =>
      match world.requests request with
      | some _ => world
      | none =>
          world.enter request (.snapshotted world.triedWithoutRecovery)
            [.snapshot request world.triedWithoutRecovery]
  | .charge request =>
      match world.requests request with
      | some _ => world
      | none => world.enter request (.charging world.installed) []
  | .request request threadStarts =>
      match world.requests request with
      | some phase => world.proceed settings request phase threadStarts
      | none => world
  | .reopen request outcome =>
      match world.reopens request with
      | some phase => world.proceedReopen request phase outcome
      | none => world

section Step

variable {world request}

theorem step_estimate (hnew : world.requests request = none) :
    world.step settings (.estimate request) =
    world.enter request (.snapshotted world.triedWithoutRecovery)
      [.snapshot request world.triedWithoutRecovery] := by
  rw [step, hnew]

theorem step_request {phase : PricedPhase} (hphase : world.requests request = some phase)
    (threadStarts : Bool) : world.step settings (.request request threadStarts) =
      world.proceed settings request phase threadStarts := by
  rw [step, hphase]

theorem step_reopen {phase : ReopenPhase} (hphase : world.reopens request = some phase)
    (outcome : OpenOutcome) : world.step settings (.reopen request outcome) =
      world.proceedReopen request phase outcome := by
  rw [step, hphase]

theorem step_record {handle : ℕ} (hinstalled : world.installed = some handle)
    (billed landed : Bool) :
    world.step settings (.record billed landed) = world.writeTo handle billed landed := by
  rw [step, hinstalled]

end Step

/-- The process after turns, oldest first. -/
def after (turns : List LedgerTurn) : ReconnectWorld := turns.foldl (step settings) world

end ReconnectWorld

end Quorum
