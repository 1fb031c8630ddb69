import Quorum.SessionRepository

/-! A lookup of a session (`auth.SessionRepository.lookup`), one reading or critical section at a
time: the cache, the durable cutoff of a cached session, and the restore of a session from its row.
A script that raises ends its request without a session. -/

namespace Quorum

open IsoTime Transaction

/-! ### Phases -/

structure SessionSettings where
  signedInIdleLimit : ℕ
  signedInIdleLimit_le : signedInIdleLimit ≤ sessionTtl

/-- The store of a process: its handle and the database behind it. -/
structure OpenStore where
  handle : StoreHandle
  db : SessionDb

/-- What the session code of a process reads: the clock, the store if it has one, the repository. -/
structure AuthProcess where
  clock : Instant
  store : Option OpenStore
  repository : SessionRepository

/-- Whether the session that could not be checked is known to be signed in. -/
inductive Unchecked
  | signedIn
  | unknownKind
deriving DecidableEq

inductive Lookup
  | found (object : ℕ)
  | unchecked (kind : Unchecked)
  | refused
deriving DecidableEq

inductive LookupPhase
  | entering
  | checking (object : ℕ)
  | ending (accountId : Uuid) (cutoff : Instant)
  | endingAt (accountId : Uuid) (cutoff now : Instant)
  | unread (object : ℕ)
  | restoring
  | fetching (now : Instant)
  | kinding (stored : StoredSession)
  | judging (session : HeldSession) (anonymous : Option Bool)
  | cutoffReading (session : HeldSession) (anonymous : Option Bool)
  | expiring (session : HeldSession) (anonymous : Option Bool)
  | admitting (session : HeldSession)
  | answered (lookup : Lookup)

/-! ### Steps -/

section

variable (sha256Hexdigest : Text → Text) (settings : SessionSettings) (process : AuthProcess)

def uncheckedKind (anonymous : Option Bool) : Unchecked :=
  if anonymous = some false then .signedIn else .unknownKind

/-- A row read back. A kind that could not be read gets the signed-in limits, the shorter ones. -/
def restoredSession (stored : StoredSession) (anonymous : Option Bool) : HeldSession where
  sessionId := stored.sessionId
  accountId := stored.accountId
  csrfToken := stored.csrfToken
  createdAt := stored.createdAt
  lastUsedAt := stored.lastUsedAt
  idleLimit := if anonymous = some true then sessionTtl else settings.signedInIdleLimit
  signInOnly := false
  maxAge := if anonymous = some true then anonymousMaxAge else signedInMaxAge
  kindKnown := anonymous.isSome

/-- The first section: the purge, the cache, and the sessions that were seen to end. -/
def lookupEntering (sessionId : Text) : SessionRepository × LookupPhase :=
  let purged := process.repository.purgeExpired process.clock
  match purged.sessions.get? sessionId with
  | some object => (purged, .checking object)
  | none =>
      if (purged.endedIds.get? sessionId).isSome then (purged, .answered .refused)
      else (purged, .restoring)

/-- `_check_cached`: an anonymous session never reads the store. -/
def lookupChecking (faults : SqlFaults) (object : ℕ) : LookupPhase :=
  match process.repository.objects[object]? with
  | none => .answered .refused
  | some session =>
      if session.maxAge = anonymousMaxAge then .answered (.found object)
      else
        match process.store with
        | none => .answered (.found object)
        | some store =>
            match answered (sessionsValidAfter store.handle faults session.accountId) store.db with
            | some (true, some cutoff) =>
                if session.createdAt ≤ cutoff then .ending session.accountId cutoff
                else .answered (.found object)
            | some (true, none) => .answered (.found object)
            | some (false, _) => .unread object
            | none => .answered .refused

/-- A session that ended while its cutoff could not be read has ended; otherwise it is unchecked. -/
def lookupUnread (object : ℕ) : SessionRepository × LookupPhase :=
  match process.repository.objects[object]? with
  | none => (process.repository, .answered .refused)
  | some session =>
      if session.kindKnown && session.isExpired process.clock then
        if process.repository.sessions.get? session.sessionId = some object then
          (process.repository.dropEnded process.clock session, .answered .refused)
        else (process.repository, .answered .refused)
      else if (process.repository.endedIds.get? session.sessionId).isSome then
        (process.repository, .answered .refused)
      else (process.repository,
        .answered (.unchecked (if session.kindKnown then .signedIn else .unknownKind)))

/-- The row, if it is inside the longest limits. -/
def lookupFetching (store : OpenStore) (faults : SqlFaults) (sessionId : Text) (now : Instant) :
    LookupPhase :=
  match answered (fetchChecked sha256Hexdigest store.handle faults sessionId (now.back sessionTtl)
      (some (now.back anonymousMaxAge)) process.clock) store.db with
  | some (true, some stored) => .kinding stored
  | some (true, none) => .answered .refused
  | some (false, _) => .answered (.unchecked .unknownKind)
  | none => .answered .refused

def lookupKinding (store : OpenStore) (faults : SqlFaults) (stored : StoredSession) : LookupPhase :=
  match answered (kindOf store.handle faults stored.accountId) store.db with
  | some anonymous => .judging (restoredSession settings stored anonymous) anonymous
  | none => .answered .refused

/-- Ends that this process knows of come before anything that makes a session unchecked. -/
def lookupJudging (session : HeldSession) (anonymous : Option Bool) : LookupPhase :=
  if anonymous = some false && session.isExpired process.clock then .answered .refused
  else if process.repository.accountWasDeleted session.accountId process.clock
      || process.repository.beforeCutoff session then .answered .refused
  else if anonymous = some true then .expiring session anonymous
  else .cutoffReading session anonymous

def lookupCutoff (store : OpenStore) (faults : SqlFaults) (session : HeldSession)
    (anonymous : Option Bool) : LookupPhase :=
  if ¬store.handle.safetyReady then .answered (.unchecked (uncheckedKind anonymous))
  else
    match answered (sessionsValidAfter store.handle faults session.accountId) store.db with
    | some (read, cutoff) =>
        if cutoff.any (session.createdAt ≤ ·) then .answered .refused
        else if read then .expiring session anonymous
        else if anonymous = some false && session.isExpired process.clock then .answered .refused
        else .answered (.unchecked (uncheckedKind anonymous))
    | none => .answered .refused

def lookupExpiring (session : HeldSession) (anonymous : Option Bool) : LookupPhase :=
  if session.isExpired process.clock then
    .answered (if anonymous = none then .unchecked .unknownKind else .refused)
  else .admitting session

def lookupAdmitting (session : HeldSession) : SessionRepository × LookupPhase :=
  let admitted := process.repository.admitRestored session process.clock
  (admitted.1, .answered (admitted.2.elim .refused .found))

/-- The next step of a lookup: what it makes of the repository, and where it stands. -/
def lookupStep (faults : SqlFaults) (sessionId : Text) (phase : LookupPhase) :
    SessionRepository × LookupPhase :=
  match phase with
  | .entering => lookupEntering process sessionId
  | .checking object => (process.repository, lookupChecking process faults object)
  | .ending accountId cutoff => (process.repository, .endingAt accountId cutoff process.clock)
  | .endingAt accountId cutoff now =>
      (process.repository.endSessionsOf accountId cutoff now, .answered .refused)
  | .unread object => lookupUnread process object
  | .restoring =>
      (process.repository,
        if process.store.isSome then .fetching process.clock else .answered .refused)
  | .fetching now =>
      (process.repository,
        process.store.elim (.answered .refused) fun store =>
          lookupFetching sha256Hexdigest process store faults sessionId now)
  | .kinding stored =>
      (process.repository,
        process.store.elim (.answered .refused) fun store =>
          lookupKinding settings store faults stored)
  | .judging session anonymous => (process.repository, lookupJudging process session anonymous)
  | .cutoffReading session anonymous =>
      (process.repository,
        process.store.elim (.answered .refused) fun store =>
          lookupCutoff process store faults session anonymous)
  | .expiring session anonymous => (process.repository, lookupExpiring process session anonymous)
  | .admitting session => lookupAdmitting process session
  | .answered lookup => (process.repository, .answered lookup)

end

end Quorum
