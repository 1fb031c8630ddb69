import Quorum.BaseIsoTime
import Quorum.BaseTransaction
import Quorum.CostTypes

/-! The durable session store: the tables of its database, the statements that read and write them,
and the operations that a process runs through its handle. Timestamps are columns of text and are
compared as text. An operation is a script of statements, each of which may raise; one that writes
more than one statement runs them in a transaction, and one that fails answers so. -/

namespace Quorum

open IsoTime Transaction

/-! ### Tables -/

/-- A session row, keyed by the digest of the session identifier. -/
structure SessionRow where
  sessionDigest : Text
  accountId : Uuid
  csrfToken : Text
  createdAt : Text
  lastUsedAt : Text
  deriving DecidableEq

/-- An account row. `sessionsValidAfter` is the cutoff of its sessions, null until one is set. -/
structure AccountRow where
  accountId : Uuid
  googleSub : Text
  email : Text
  createdAt : Text
  lastSignInAt : Text
  spendKey : Option Uuid
  sessionsValidAfter : Option Text
  deriving DecidableEq

/-- The spend key of a deleted account, kept under the keyed hash of its Google subject. -/
structure SpendKeyCarryRow where
  subjectKey : Uuid
  spendKey : Uuid
  until' : Text
  deriving DecidableEq

structure HistoryRow where
  queryRunId : Text
  accountId : Uuid
  question : Text
  status : Text
  mode : Text
  modelCount : Nat
  costUsd : Usd
  completedAt : Text
  verdict : Option Text
  deriving DecidableEq

structure SignInEventRow where
  accountId : Uuid
  at' : Text
  outcome : Text
  deriving DecidableEq

structure SessionDb where
  sessions : List SessionRow
  accounts : List AccountRow
  spendKeyCarry : List SpendKeyCarryRow
  history : List HistoryRow
  signInEvents : List SignInEventRow

def SessionDb.empty : SessionDb := ⟨[], [], [], [], []⟩

/-- What a statement can raise: an error of SQLite, a value error, or anything else. -/
inductive Raised where
  | sqliteError
  | valueError
  | baseException
  deriving DecidableEq

abbrev Sql := Script Raised SessionDb

abbrev SqlFaults := Faults Raised

def isSqliteError (raised : Raised) : Bool := raised = .sqliteError

/-- One process's handle on the database, with the readiness flags it has raised. -/
structure StoreHandle where
  accountsReady : Bool
  safetyReady : Bool
  historyReady : Bool
  closed : Bool

structure StoredSession where
  sessionId : Text
  accountId : Uuid
  csrfToken : Text
  createdAt : Instant
  lastUsedAt : Instant

section

/- `sha256Hexdigest` stands for the digest of a session identifier and `accountIdFor` for the keyed
hash of a Google subject; nothing is assumed of either. -/
variable (sha256Hexdigest : Text → Text) (accountIdFor : Text → Uuid)

/-! ### Sign out everywhere -/

/-- `MAX(COALESCE(sessions_valid_after, ''), ?)`. -/
def raisedCutoff (old : Option Text) (stamp : Text) : Text := max (old.getD []) stamp

def AccountRow.raiseCutoff (stamp : Text) (key : Uuid) (account : AccountRow) : AccountRow :=
  if account.accountId = key then
    { account with sessionsValidAfter := some (raisedCutoff account.sessionsValidAfter stamp) }
  else account

/-- Raise the cutoff of an account, never lower it; the answer is the number of rows updated. -/
def raiseSessionsCutoff (stamp : Text) (key : Uuid) (db : SessionDb) : Nat × SessionDb :=
  (db.accounts.countP fun account => account.accountId = key,
    { db with accounts := db.accounts.map (AccountRow.raiseCutoff stamp key) })

def deleteSessionsBefore (key : Uuid) (stamp : Text) (db : SessionDb) : Unit × SessionDb :=
  ((), { db with sessions := db.sessions.filter fun row =>
    ¬(row.accountId = key ∧ row.createdAt ≤ stamp) })

inductive EndOutcome where
  | ended
  | noAccount
  | failed
  deriving DecidableEq

def endSessionsBefore (handle : StoreHandle) (faults : SqlFaults) (accountId : Uuid)
    (cutoff : Instant) : Sql EndOutcome :=
  if ¬handle.safetyReady ∨ handle.closed then pure .failed
  else
    recover isSqliteError .failed <| transaction faults 3 do
      let updated ← execute faults 1 (raiseSessionsCutoff (isoformat cutoff) accountId)
      if updated ≠ 1 then
        return .rollback .noAccount
      execute faults 2 (deleteSessionsBefore accountId (isoformat cutoff))
      return .commit .ended

/-! ### Saving a session -/

def sessionRow (session : StoredSession) : SessionRow where
  sessionDigest := sha256Hexdigest session.sessionId
  accountId := session.accountId
  csrfToken := session.csrfToken
  createdAt := isoformat session.createdAt
  lastUsedAt := isoformat session.lastUsedAt

/-- `INSERT OR REPLACE`: the row takes the place of the one with its key. -/
def insertOrReplace (row : SessionRow) (db : SessionDb) : Nat × SessionDb :=
  (1, { db with
    sessions := (db.sessions.filter fun other =>
      other.sessionDigest ≠ row.sessionDigest) ++ [row] })

/-- The account has a cutoff that the creation of the row does not come after. A null cutoff
compares false. -/
def cutOff (row : SessionRow) (account : AccountRow) : Bool :=
  account.accountId = row.accountId ∧ account.sessionsValidAfter.any (row.createdAt ≤ ·)

/-- `INSERT OR REPLACE ... WHERE NOT EXISTS`, the condition in the statement that writes. -/
def insertUnlessCutOff (row : SessionRow) (db : SessionDb) : Nat × SessionDb :=
  if db.accounts.any (cutOff row) then (0, db) else insertOrReplace row db

/-- The number of rows a statement wrote, none when the handle is closed or SQLite raised. -/
def writeCount (handle : StoreHandle) (faults : SqlFaults) (n : Nat)
    (statement : SessionDb → Nat × SessionDb) : Sql (Option Nat) :=
  if handle.closed then pure none
  else recover isSqliteError none (execute faults n fun db => (some (statement db).1,
    (statement db).2))

/-- Whether an id is in no accounts row, none when that cannot be read. -/
def noAccountRow (handle : StoreHandle) (faults : SqlFaults) (n : Nat) (accountId : Uuid) :
    Sql (Option Bool) :=
  if handle.closed then pure none
  else recover isSqliteError none
    (execute faults n fun db =>
      (some (¬db.accounts.any fun account => account.accountId = accountId), db))

/-- Insert or replace a session. While the cutoffs cannot be read, only an id that is in no accounts
row is written, after a read of its own. -/
def save (handle : StoreHandle) (faults : SqlFaults) (session : StoredSession) : Sql Bool :=
  if ¬handle.safetyReady then do
    let unnamed ← noAccountRow handle faults 0 session.accountId
    if unnamed ≠ some true then
      return false
    let written ← writeCount handle faults 1 (insertOrReplace (sessionRow sha256Hexdigest session))
    return written = some 1
  else do
    let written ← writeCount handle faults 0
        (insertUnlessCutOff (sessionRow sha256Hexdigest session))
    return written = some 1

/-! ### Deletes -/

/-- Run one statement that deletes session rows; the answer says whether it ran. -/
def deleteRows (handle : StoreHandle) (faults : SqlFaults) (goes : SessionRow → Bool) : Sql Bool :=
  if handle.closed then pure false
  else recover isSqliteError false
    (execute faults 0 fun db => (true,
      { db with sessions := db.sessions.filter fun row => ¬goes row }))

def delete (handle : StoreHandle) (faults : SqlFaults) (sessionId : Text) : Sql Bool :=
  deleteRows handle faults fun row => row.sessionDigest = sha256Hexdigest sessionId

def deleteAll (handle : StoreHandle) (faults : SqlFaults) : Sql Bool :=
  deleteRows handle faults fun _ => true

def deleteSessionsOf (handle : StoreHandle) (faults : SqlFaults) (accountId : Uuid) : Sql Bool :=
  deleteRows handle faults fun row => row.accountId = accountId

/-- `now + (now - cutoff)`, kept inside the calendar. -/
def mirrored (now cutoff : Instant) : Instant :=
  ⟨min (2 * now.val - cutoff.val) (maxDays * microsPerDay - 1),
    by unfold maxDays microsPerDay; omega⟩

/-- Delete the rows last used before `cutoff`, created before `createdCutoff`, or dated implausibly
far in the future; the answer is how many. -/
def purgeExpired (handle : StoreHandle) (faults : SqlFaults) (cutoff : Instant)
    (createdCutoff : Option Instant) (now : Instant) : Sql Nat :=
  if handle.closed then pure 0
  else
    let future := isoformat (mirrored now cutoff)
    let created := (createdCutoff.map isoformat).getD []
    let goes : SessionRow → Bool := fun row =>
      row.lastUsedAt < isoformat cutoff ∨ row.lastUsedAt > future ∨ row.createdAt < created ∨
        row.createdAt > future
    recover isSqliteError 0 (execute faults 0 fun db =>
      (db.sessions.countP goes, { db with sessions := db.sessions.filter fun row => ¬goes row }))

/-! ### Reading a session back -/

def isImplausiblyFuture (stamp now : Instant) (tolerance : Int) : Bool :=
  (stamp.val : Int) - now.val > tolerance

/-- Decode a row. One that does not parse, or is dated implausibly far in the future, is as
absent. -/
def decodeRow (sessionId : Text) (row : SessionRow) (now notUsedBefore : Instant) :
    Option StoredSession := do
  let tolerance := (now.val : Int) - notUsedBefore.val
  let lastUsedAt ← fromisoformat row.lastUsedAt
  let createdAt ← fromisoformat row.createdAt
  if isImplausiblyFuture lastUsedAt now tolerance ∨
    isImplausiblyFuture createdAt now tolerance then none
  else some ⟨sessionId, row.accountId, row.csrfToken, createdAt, lastUsedAt⟩

/-- Whether the read ran, and the session it found. -/
def fetchChecked (handle : StoreHandle) (faults : SqlFaults) (sessionId : Text)
    (notUsedBefore : Instant) (notCreatedBefore : Option Instant) (now : Instant) :
    Sql (Bool × Option StoredSession) :=
  if handle.closed then pure (false, none)
  else
    recover isSqliteError (false, none) do
      let row ← execute faults 0 fun db =>
        (db.sessions.find? fun row =>
          row.sessionDigest = sha256Hexdigest sessionId ∧ isoformat notUsedBefore ≤ row.lastUsedAt ∧
            (notCreatedBefore.map isoformat).getD [] ≤ row.createdAt, db)
      return (true, row.bind fun row => decodeRow sessionId row now notUsedBefore)

/-! ### Accounts -/

/-- Twenty-four hours. -/
def spendKeyCarry : Nat := microsPerDay

def purgeLapsedCarry (now : Instant) (db : SessionDb) : Unit × SessionDb :=
  ((), { db with spendKeyCarry := db.spendKeyCarry.filter fun row => ¬row.until' ≤ isoformat now })

def accountOf (accountId : Uuid) (db : SessionDb) : Option AccountRow :=
  db.accounts.find? fun account => account.accountId = accountId

/-- The insert of a new account raises when its id or its Google subject is taken. -/
def insertAccount (faults : SqlFaults) (n : Nat) (account : AccountRow) : Sql Unit := do
  let db ← get
  if db.accounts.any fun other => other.accountId = account.accountId ∨
    other.googleSub = account.googleSub then
    throw .sqliteError
  else
    execute faults n fun db => ((), { db with accounts := db.accounts ++ [account] })

def AccountRow.signIn (googleSub email stamp : Text) (account : AccountRow) : AccountRow :=
  if account.googleSub = googleSub then { account with email := email, lastSignInAt := stamp } else account

/-- The account of a Google subject, made with the random id `fresh` when the subject has none.
`wall` is the reading of the clock inside the transaction. -/
def upsertGoogleAccount (handle : StoreHandle) (faults : SqlFaults) (googleSub email : Text)
    (now wall : Instant) (fresh : Uuid) : Sql (Option Uuid) :=
  if ¬(handle.accountsReady ∧ handle.safetyReady) ∨ handle.closed then pure none
  else
    recover (fun raised => raised = .sqliteError ∨ raised = .valueError) none <|
      transaction faults 5 do
      let row ← execute faults 1 fun db =>
          (db.accounts.find? fun account => account.googleSub = googleSub, db)
      execute faults 2 (purgeLapsedCarry wall)
      match row with
      | none =>
          let subjectKey := accountIdFor googleSub
          let carried ← execute faults 3 fun db =>
            (db.spendKeyCarry.find? fun row => row.subjectKey = subjectKey, db)
          let spendKey := (carried.map SpendKeyCarryRow.spendKey).getD subjectKey
          insertAccount faults 4
            ⟨fresh, googleSub, email, isoformat now, isoformat now, some spendKey, none⟩
          return .commit (some fresh)
      | some row =>
          execute faults 4 fun db =>
            ((), { db with accounts := db.accounts.map (AccountRow.signIn googleSub email (isoformat now)) })
          return .commit (some row.accountId)

/-- Keep the spend key of an account for its re-creation, and drop the lapsed ones. -/
def carrySpendKey (faults : SqlFaults) (accountId : Uuid) (now : Instant) : Sql Unit := do
  execute faults 1 (purgeLapsedCarry now)
  let row ← execute faults 2 fun db => (accountOf accountId db, db)
  match row with
  | none => return ()
  | some account =>
      let carry : SpendKeyCarryRow :=
        ⟨accountIdFor account.googleSub, account.spendKey.getD accountId,
          isoformat (now.ahead spendKeyCarry)⟩
      execute faults 3 fun db => ((), { db with
        spendKeyCarry := (db.spendKeyCarry.filter fun other =>
          other.subjectKey ≠ carry.subjectKey) ++ [carry] })

def deleteAccount (handle : StoreHandle) (faults : SqlFaults) (accountId : Uuid)
    (now : Instant) : Sql Bool :=
  if ¬handle.accountsReady ∨ handle.closed then pure false
  else
    recover isSqliteError false <| transaction faults 8 do
      carrySpendKey accountIdFor faults accountId now
      executeWhen handle.historyReady faults 4 fun db =>
        ((), { db with history := db.history.filter fun row => row.accountId ≠ accountId })
      executeWhen handle.safetyReady faults 5 fun db =>
        ((),
          { db with signInEvents := db.signInEvents.filter fun row => row.accountId ≠ accountId })
      execute faults 6 fun db =>
        ((), { db with sessions := db.sessions.filter fun row => row.accountId ≠ accountId })
      execute faults 7 fun db =>
        ((),
          { db with accounts := db.accounts.filter fun account => account.accountId ≠ accountId })
      return .commit true

end

end Quorum
