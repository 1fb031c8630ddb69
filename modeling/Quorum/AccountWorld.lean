import Quorum.SessionLookup
import Quorum.SessionWorld

/-! The accounts of one process: lookups of sessions, spend meters and deletions of accounts as
threads that take turns, over the session repository and the store. Any turn may also use, write,
revoke or make a session, run another operation of the store, or raise a readiness flag. Session
tokens and ids of accounts are random, so one drawn is one that nothing has yet. -/

namespace Quorum

open IsoTime Transaction

/-! ### Threads -/

/-- What a request knows of its session. -/
structure SessionContext where
  sessionId : Text
  accountId : Uuid
  signInOnly : Bool
  legacy : Bool

inductive SpendRefusal
  | signInRequired
  | sessionUnchecked (kind : Unchecked)
  | sessionEnded
  | spendKeyUnavailable
  | sessionExpired
  | raised
deriving DecidableEq

/-- `SpendMeter`, or the refusal of the request. -/
inductive SpendOutcome
  | meter (key : Uuid) (sharedByNetwork : Bool)
  | refused (refusal : SpendRefusal)
deriving DecidableEq

inductive SpendPhase
  | starting
  | looking (phase : LookupPhase)
  | keying
  | kinding
  | going (anonymous : Option Bool)
  | answered (outcome : SpendOutcome)

/-- A call of `spend_meter_for`. Ghost state: the account's row when the call read its key. -/
structure SpendCall where
  context : SessionContext
  phase : SpendPhase
  keyRow : Option (Option AccountRow)

/-- Where a `delete_account` stands. -/
inductive DeletionPhase
  | beginning
  | deletingRows
  | readingClock
  | refusing (now : Instant)
  | cleaning
  | ending (answer : Bool)
  | ended (answer : Bool)
deriving DecidableEq

/-- Between its begin and its end. -/
def DeletionPhase.underWay : DeletionPhase → Bool
  | .beginning | .ended _ => false
  | _ => true

/-- The process and its threads. Ghost state: every id given to an account or a session, the account
of every session token by its digest, the ids that have had an account row, and the refusals of
deleted accounts. -/
structure AccountWorld extends AuthProcess where
  lookups : List (Text × LookupPhase)
  spends : List SpendCall
  deletions : List (Uuid × DeletionPhase)
  named : List Uuid
  owner : Text → Option Uuid
  held : List Uuid
  refusals : List (Uuid × Instant)

/-- Operations of the store by anyone else: no save of a session and no delete of an account. -/
def SessionOp.other : SessionOp → Bool
  | .save _ | .deleteAccount _ _ => false
  | _ => true

inductive AccountTurn
  | tick (span : ℕ)
  | operate (op : SessionOp) (faults : SqlFaults)
  | refresh (accountsOk safetyOk : Bool)
  | mint (sessionId csrfToken : Text) (accountId : Uuid) (signInOnly : Bool)
  | signIn (sessionId csrfToken : Text) (accountId : Uuid)
  | use (object : ℕ) (csrfToken : Option Text)
  | persist (object : ℕ) (faults : SqlFaults)
  | revoke (sessionId : Text) (faults : SqlFaults)
  | endSessions (accountId : Uuid) (cutoff now : Instant)
  | purge
  | prune
  | visit (sessionId : Text)
  | look (lookup : ℕ) (faults : SqlFaults)
  | spend (context : SessionContext)
  | meter (call : ℕ) (faults : SqlFaults) (networkKey : Uuid)
  | delete (accountId : Uuid)
  | deletion (deletion : ℕ) (faults : SqlFaults) (wall : Instant)

namespace AccountWorld

section

variable (sha256Hexdigest : Text → Text) (accountIdFor : Text → Uuid) (settings : SessionSettings)
variable (world : AccountWorld)

/-! ### The store -/

/-- The database after a script of its store. -/
def withDb (run : OpenStore → SessionDb) : AccountWorld :=
  { world with store := world.store.map fun store => { store with db := run store } }

/-- The ids that an operation draws are new. -/
def operate (op : SessionOp) (faults : SqlFaults) : AccountWorld :=
  if op.other && op.draws.all (· ∉ world.named) then
    let written := world.withDb fun store =>
      after (op.perform sha256Hexdigest accountIdFor store.handle faults) store.db
    { written with
      named := op.draws.toList ++ world.named
      held := ((written.store.map fun store => store.db.accounts.map AccountRow.accountId).getD [])
        ++ world.held }
  else world

/-- `refresh_readiness`: flags are raised, never lowered. -/
def refresh (accountsOk safetyOk : Bool) : AccountWorld :=
  { world with
    store := world.store.map fun store =>
      { store with
        handle := { store.handle with
          accountsReady := store.handle.accountsReady || accountsOk
          safetyReady := store.handle.safetyReady || (accountsOk && safetyOk) } } }

/-! ### Sessions -/

/-- A session under a new token. -/
def issue (session : HeldSession) : AccountWorld :=
  { world with
    repository := world.repository.create session world.clock
    named := session.accountId :: world.named
    owner := Function.update world.owner (sha256Hexdigest session.sessionId)
      (some session.accountId) }

/-- An anonymous session, under a new id. -/
def mint (sessionId csrfToken : Text) (accountId : Uuid) (signInOnly : Bool) : AccountWorld :=
  if world.owner (sha256Hexdigest sessionId) = none ∧ accountId ∉ world.named then
    world.issue sha256Hexdigest
      ⟨sessionId, accountId, csrfToken, world.clock, world.clock, sessionTtl, signInOnly,
        anonymousMaxAge, true⟩
  else world

/-- The session of a sign-in, for an id that a sign-in was answered. -/
def signIn (sessionId csrfToken : Text) (accountId : Uuid) : AccountWorld :=
  if world.owner (sha256Hexdigest sessionId) = none ∧ accountId ∈ world.held then
    world.issue sha256Hexdigest
      ⟨sessionId, accountId, csrfToken, world.clock, world.clock, settings.signedInIdleLimit, false,
        signedInMaxAge, true⟩
  else world

def persist (object : ℕ) (faults : SqlFaults) : AccountWorld :=
  match world.repository.persistable object with
  | some session =>
      world.withDb fun store =>
        after (save sha256Hexdigest store.handle faults session.toStored) store.db
  | none => world

def revoke (sessionId : Text) (faults : SqlFaults) : AccountWorld :=
  { world with repository := world.repository.revoke sessionId world.clock }.withDb fun store =>
    after (Quorum.delete sha256Hexdigest store.handle faults sessionId) store.db

/-! ### Lookups -/

def look (lookup : ℕ) (faults : SqlFaults) : AccountWorld :=
  match world.lookups[lookup]? with
  | some (sessionId, phase) =>
      let (repository, phase) :=
        lookupStep sha256Hexdigest settings world.toAuthProcess faults sessionId phase
      { world with repository := repository, lookups := world.lookups.set lookup (sessionId, phase) }
  | none => world

/-! ### The spend meter -/

/-- What a finished lookup means for the meter. -/
def spendLooked (lookup : Lookup) : SpendPhase :=
  match lookup with
  | .found _ => if world.store.isSome then .keying else .going (some true)
  | .unchecked kind => .answered (.refused (.sessionUnchecked kind))
  | .refused => .answered (.refused .sessionEnded)

def spendKeying (store : OpenStore) (faults : SqlFaults) (accountId : Uuid) : SpendPhase :=
  match answered (spendKeyFor store.handle faults accountId) store.db with
  | some (some key) => if key ≠ accountId then .answered (.meter key false) else .kinding
  | some none => .answered (.refused .spendKeyUnavailable)
  | none => .answered (.refused .raised)

def spendKinding (store : OpenStore) (faults : SqlFaults) (accountId : Uuid) : SpendPhase :=
  match answered (kindOf store.handle faults accountId) store.db with
  | some anonymous => .going anonymous
  | none => .answered (.refused .raised)

/-- The deletion check comes after the reads. -/
def spendGoing (accountId networkKey : Uuid) (anonymous : Option Bool) : SpendOutcome :=
  if world.repository.accountIsGoing accountId world.clock then .refused .sessionExpired
  else
    match anonymous with
    | none => .refused .spendKeyUnavailable
    | some false => .meter accountId false
    | some true => .meter networkKey true

/-- The account's row at this moment. -/
def rowNow (accountId : Uuid) : Option AccountRow :=
  world.store.bind fun store => accountOf accountId store.db

/-- The next step of a call of `spend_meter_for`: what it makes of the repository, and the call. -/
def spendStep (faults : SqlFaults) (networkKey : Uuid) (call : SpendCall) :
    SessionRepository × SpendCall :=
  let accountId := call.context.accountId
  match call.phase with
  | .starting =>
      (world.repository,
        if call.context.legacy then { call with phase := .answered (.meter accountId false) }
        else if call.context.signInOnly then
          { call with phase := .answered (.refused .signInRequired) }
        else { call with phase := .looking .entering })
  | .looking (.answered lookup) =>
      (world.repository, { call with phase := world.spendLooked lookup })
  | .looking phase =>
      let (repository, phase) :=
        lookupStep sha256Hexdigest settings world.toAuthProcess faults call.context.sessionId phase
      (repository, { call with phase := .looking phase })
  | .keying =>
      (world.repository,
        { call with
          phase := world.store.elim (.answered (.refused .raised)) fun store =>
            spendKeying store faults accountId
          keyRow := some (world.rowNow accountId) })
  | .kinding =>
      (world.repository,
        { call with
          phase := world.store.elim (.answered (.refused .raised)) fun store =>
            spendKinding store faults accountId })
  | .going anonymous =>
      (world.repository,
        { call with phase := .answered (world.spendGoing accountId networkKey anonymous) })
  | .answered outcome => (world.repository, { call with phase := .answered outcome })

def meter (call : ℕ) (faults : SqlFaults) (networkKey : Uuid) : AccountWorld :=
  match world.spends[call]? with
  | some current =>
      let (repository, next) := world.spendStep sha256Hexdigest settings faults networkKey current
      { world with repository := repository, spends := world.spends.set call next }
  | none => world

/-! ### Deletions -/

/-- The next step of a `delete_account`. -/
def deletionStep (faults : SqlFaults) (wall : Instant) (accountId : Uuid) (phase : DeletionPhase) :
    AccountWorld × DeletionPhase :=
  match phase with
  | .beginning =>
      ({ world with repository := world.repository.beginDeletion accountId }, .deletingRows)
  | .deletingRows =>
      (world.withDb fun store =>
        after (deleteAccount accountIdFor store.handle faults accountId wall) store.db,
        if (world.store.bind fun store =>
          answered (deleteAccount accountIdFor store.handle faults accountId wall) store.db)
            = some true
        then .readingClock else .ending false)
  | .readingClock => (world, .refusing world.clock)
  | .refusing now =>
      ({ world with
          repository := world.repository.revokeAccount accountId now
          refusals := (accountId, now) :: world.refusals }, .cleaning)
  | .cleaning =>
      (world.withDb fun store =>
        after (deleteSessionsOf store.handle faults accountId) store.db, .ending true)
  | .ending answer =>
      ({ world with repository := world.repository.endDeletion accountId }, .ended answer)
  | .ended answer => (world, .ended answer)

def deletion (index : ℕ) (faults : SqlFaults) (wall : Instant) : AccountWorld :=
  match world.deletions[index]? with
  | some (accountId, phase) =>
      let (next, phase) := world.deletionStep accountIdFor faults wall accountId phase
      { next with deletions := next.deletions.set index (accountId, phase) }
  | none => world

/-! ### Turns -/

def step (turn : AccountTurn) : AccountWorld :=
  match turn with
  | .tick span => { world with clock := world.clock.ahead span }
  | .operate op faults => world.operate sha256Hexdigest accountIdFor op faults
  | .refresh accountsOk safetyOk => world.refresh accountsOk safetyOk
  | .mint sessionId csrfToken accountId signInOnly =>
      world.mint sha256Hexdigest sessionId csrfToken accountId signInOnly
  | .signIn sessionId csrfToken accountId =>
      world.signIn sha256Hexdigest settings sessionId csrfToken accountId
  | .use object csrfToken =>
      { world with repository := world.repository.use object world.clock csrfToken }
  | .persist object faults => world.persist sha256Hexdigest object faults
  | .revoke sessionId faults => world.revoke sha256Hexdigest sessionId faults
  | .endSessions accountId cutoff now =>
      if now ≤ world.clock then
        { world with repository := world.repository.endSessionsOf accountId cutoff now }
      else world
  | .purge => { world with repository := world.repository.purgeExpired world.clock }
  | .prune => { world with repository := world.repository.pruneEndedIds world.clock }
  | .visit sessionId => { world with lookups := world.lookups ++ [(sessionId, .entering)] }
  | .look lookup faults => world.look sha256Hexdigest settings lookup faults
  | .spend context =>
      if context.legacy ∨ world.owner (sha256Hexdigest context.sessionId)
        = some context.accountId then
        { world with spends := world.spends ++ [⟨context, .starting, none⟩] }
      else world
  | .meter call faults networkKey => world.meter sha256Hexdigest settings call faults networkKey
  | .delete accountId => { world with deletions := world.deletions ++ [(accountId, .beginning)] }
  | .deletion index faults wall => world.deletion accountIdFor index faults wall

/-- The process after turns, oldest first. -/
def after (turns : List AccountTurn) : AccountWorld :=
  turns.foldl (step sha256Hexdigest accountIdFor settings) world

end

/-- A process at its start, over the database that it opened. -/
def boot (clock : Instant) (store : Option OpenStore) : AccountWorld where
  clock := clock
  store := store
  repository := .empty
  lookups := []
  spends := []
  deletions := []
  named := (store.map fun store =>
    store.db.accounts.map AccountRow.accountId
      ++ store.db.sessions.map SessionRow.accountId).getD []
  owner := fun digest => store.bind fun store =>
    (store.db.sessions.find? fun row => row.sessionDigest = digest).map SessionRow.accountId
  held := (store.map fun store => store.db.accounts.map AccountRow.accountId).getD []
  refusals := []

end AccountWorld

end Quorum
