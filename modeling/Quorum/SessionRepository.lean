import Quorum.BaseDict
import Quorum.SessionReads

/-! The session repository of one process (`auth.SessionRepository`): the cached sessions, the
sessions and accounts that it has seen end, and what each critical section under its lock does to
them. A cached session is an object that its users share, so the cache holds references. -/

namespace Quorum

open IsoTime

/-- `SESSION_TTL`, two hours. -/
def sessionTtl : ℕ := 7200 * microsPerSecond

/-- `SIGNED_IN_MAX_AGE`, twelve hours. -/
def signedInMaxAge : ℕ := 43200 * microsPerSecond

/-- `ANONYMOUS_MAX_AGE`, twenty-four hours. -/
def anonymousMaxAge : ℕ := 86400 * microsPerSecond

/-- A session object. -/
structure HeldSession where
  sessionId : Text
  accountId : Uuid
  csrfToken : Text
  createdAt : Instant
  lastUsedAt : Instant
  idleLimit : ℕ
  signInOnly : Bool
  maxAge : ℕ
  kindKnown : Bool

/-- Alive at exactly its limits. -/
def HeldSession.isExpired (session : HeldSession) (now : Instant) : Bool :=
  session.lastUsedAt.val + session.idleLimit < now.val
    ∨ session.createdAt.val + session.maxAge < now.val

def HeldSession.toStored (session : HeldSession) : StoredSession :=
  ⟨session.sessionId, session.accountId, session.csrfToken, session.createdAt, session.lastUsedAt⟩

/-- The objects that were ever cached, the cache, and what the process has seen end: sessions,
sessions signed out, cutoffs of accounts, deleted accounts and deletes under way. -/
structure SessionRepository where
  objects : List HeldSession
  sessions : Dict Text ℕ
  endedIds : Dict Text Instant
  signedOutIds : Dict Text Instant
  validAfter : Dict Uuid Instant
  deletedAccounts : Dict Uuid Instant
  deleting : Dict Uuid ℕ

namespace SessionRepository

def empty : SessionRepository := ⟨[], .empty, .empty, .empty, .empty, .empty, .empty⟩

variable (repository : SessionRepository)

/-! ### Deleted accounts -/

/-- `account_was_deleted`. -/
def accountWasDeleted (accountId : Uuid) (now : Instant) : Bool :=
  (repository.deletedAccounts.get? accountId).any (now < ·)

def beginDeletion (accountId : Uuid) : SessionRepository :=
  { repository with
    deleting := repository.deleting.set accountId
      ((repository.deleting.get? accountId).getD 0 + 1) }

def endDeletion (accountId : Uuid) : SessionRepository :=
  let left := (repository.deleting.get? accountId).getD 0 - 1
  { repository with
    deleting := if 0 < left then repository.deleting.set accountId
      left else repository.deleting.pop accountId }

def accountIsGoing (accountId : Uuid) (now : Instant) : Bool :=
  (repository.deleting.get? accountId).isSome || repository.accountWasDeleted accountId now

/-! ### Ends -/

/-- `_record_ended_locked`: a session that may only sign in has no row to come back from. -/
def recordEnded (session : HeldSession) (now : Instant) : SessionRepository :=
  if session.signInOnly then repository
  else { repository with endedIds := repository.endedIds.set session.sessionId now }

/-- `_drop_ended_locked`: an end by limits that were given for want of the session's kind is not
remembered. -/
def dropEnded (now : Instant) (session : HeldSession) : SessionRepository :=
  let dropped := { repository with sessions := repository.sessions.pop session.sessionId }
  if session.kindKnown then dropped.recordEnded session now else dropped

/-- The cached objects that a test accepts. -/
def cachedWhere (accepts : HeldSession → Bool) : List HeldSession :=
  repository.sessions.items.filterMap fun entry => (repository.objects[entry.2]?).filter accepts

/-- `_purge_expired_locked`. -/
def purgeExpired (now : Instant) : SessionRepository :=
  (repository.cachedWhere fun session => session.isExpired now).foldl (fun left =>
    left.dropEnded now) repository

/-- `_prune_ended_ids_locked`. -/
def pruneEndedIds (now : Instant) : SessionRepository :=
  let kept := fun entry : Text × Instant => entry.2.val + anonymousMaxAge ≥ now.val
  { repository with
    endedIds := repository.endedIds.filter kept
    signedOutIds := repository.signedOutIds.filter kept }

/-- Sessions that end together, remembered as ended whatever their kind. -/
def endAll (now : Instant) (ended : List HeldSession) : SessionRepository :=
  ended.foldl (fun left session =>
    SessionRepository.recordEnded
      { left with sessions := left.sessions.pop session.sessionId } session now) repository

/-- `revoke_account`, with the clock as it read it before it took the lock. -/
def revokeAccount (accountId : Uuid) (now : Instant) : SessionRepository :=
  let marked := { repository with
    deletedAccounts := (repository.deletedAccounts.filter fun entry => ¬entry.2 ≤ now).set accountId
      (now.ahead sessionTtl) }
  marked.endAll now (repository.cachedWhere fun session => session.accountId = accountId)

/-- `end_sessions_of`: the cutoff never moves back. -/
def endSessionsOf (accountId : Uuid) (cutoff now : Instant) : SessionRepository :=
  let kept := repository.validAfter.filter fun entry => ¬entry.2.ahead sessionTtl ≤ now
  let marked := { repository with
    validAfter := kept.set accountId (((kept.get? accountId).map (max · cutoff)).getD cutoff) }
  marked.endAll now
    (repository.cachedWhere fun session => session.accountId = accountId
      && session.createdAt ≤ cutoff)

def beforeCutoff (session : HeldSession) : Bool :=
  (repository.validAfter.get? session.accountId).any (session.createdAt ≤ ·)

/-- The cache's part of `revoke`. -/
def revoke (sessionId : Text) (now : Instant) : SessionRepository :=
  let dropped := (repository.sessions.get? sessionId).bind fun object => repository.objects[object]?
  let ended := match dropped with
    | some session =>
        { repository with sessions := repository.sessions.pop sessionId }.recordEnded session now
    | none => { repository with sessions := repository.sessions.pop sessionId }
  if dropped.any (·.signInOnly) then ended
  else { ended with signedOutIds := ended.signedOutIds.set sessionId now }

/-! ### Uses -/

/-- A new session, cached. -/
def create (session : HeldSession) (now : Instant) : SessionRepository :=
  let purged := repository.purgeExpired now
  { purged with
    objects := purged.objects ++ [session]
    sessions := purged.sessions.set session.sessionId purged.objects.length }

/-- `use`: the object is used if it is still the cached one and has not ended by now. -/
def use (object : ℕ) (now : Instant) (csrfToken : Option Text) : SessionRepository :=
  match repository.objects[object]? with
  | none => repository
  | some session =>
      if repository.sessions.get? session.sessionId ≠ some object then repository
      else if session.isExpired now then repository.dropEnded now session
      else
        { repository with
          objects := repository.objects.set object
            { session with lastUsedAt := now, csrfToken := csrfToken.getD session.csrfToken } }

/-- The object that `_persist` writes: the cached one of its session, unless it may only sign in. -/
def persistable (object : ℕ) : Option HeldSession :=
  (repository.objects[object]?).filter fun session =>
    !session.signInOnly && repository.sessions.get? session.sessionId = some object

/-- The last section of a restore: the session is refused, or cached unless another restore was
first. -/
def admitRestored (session : HeldSession) (now : Instant) : SessionRepository × Option ℕ :=
  if repository.accountWasDeleted session.accountId now || repository.beforeCutoff session
      || (repository.endedIds.get? session.sessionId).isSome
      || (repository.signedOutIds.get? session.sessionId).isSome then (repository, none)
  else
    match repository.sessions.get? session.sessionId with
    | some object => (repository, some object)
    | none =>
        ({ repository with
            objects := repository.objects ++ [session]
            sessions := repository.sessions.set session.sessionId repository.objects.length },
          some repository.objects.length)

end SessionRepository

end Quorum
