import Quorum.AccountRows
import Quorum.LedgerKeys

/-! The lives of the accounts of one Google subject. Each sign-in of the subject without an account
makes one, with a new id and the spend key that the last account left behind or the keyed hash of
the subject; a delete leaves the key behind for a day. Runs are charged under the key that was read
for them. Others sign in, delete their accounts and are charged in between. -/

namespace Quorum

open IsoTime Transaction

/-- The key that the account is metered under. -/
def AccountRow.meteredKey (account : AccountRow) : Uuid := account.spendKey.getD account.accountId

/-- The key that the pointers of a database keep for a subject. -/
def carriedKey (subjectKey : Uuid) (carry : List SpendKeyCarryRow) : Uuid :=
  ((carry.find? fun row => row.subjectKey = subjectKey).map SpendKeyCarryRow.spendKey).getD
    subjectKey

/-- The pointers that have not lapsed. -/
def unlapsed (now : Instant) (db : SessionDb) : List SpendKeyCarryRow :=
  db.spendKeyCarry.filter fun row => ¬row.until' ≤ isoformat now

/-! ### What a sign-in and a delete do to the accounts and the pointers -/

/-- A sign-in fails and changes nothing, updates the subject's account, or makes one. -/
inductive SignsIn (subjectKey : Uuid) (googleSub email : Text) (now wall : Instant) (fresh : Uuid)
    (db db' : SessionDb) : Prop
  | idle (same : db' = db)
  | again (account : AccountRow)
      (found : db.accounts.find? (fun row => row.googleSub = googleSub) = some account)
      (accounts : db'.accounts =
        db.accounts.map (AccountRow.signIn googleSub email (isoformat now)))
      (carry : db'.spendKeyCarry = unlapsed wall db)
  | created (absent : db.accounts.find? (fun row => row.googleSub = googleSub) = none)
      (free : ∀ account ∈ db.accounts, account.accountId ≠ fresh ∧ account.googleSub ≠ googleSub)
      (accounts : db'.accounts = db.accounts ++
        [⟨fresh, googleSub, email, isoformat now, isoformat now,
          some (carriedKey subjectKey (unlapsed wall db)), none⟩])
      (carry : db'.spendKeyCarry = unlapsed wall db)

theorem insertAccount_free {faults : SqlFaults} {n : ℕ} {account : AccountRow} {db db' : SessionDb}
    {answer : Unit} (h : insertAccount faults n account db = .ok answer db') :
    ∀ other ∈ db.accounts, other.accountId ≠ account.accountId ∧
      other.googleSub ≠ account.googleSub := by
  unfold insertAccount at h
  obtain ⟨read, db₁, hget, h⟩ := bind_ok h
  cases hget
  split_ifs at h with hclash
  · cases h
  · intro other hother
    by_contra hsame
    refine hclash (List.any_eq_true.mpr ⟨other, hother, decide_eq_true ?_⟩)
    tauto

theorem upsertGoogleAccount_signsIn (accountIdFor : Text → Uuid) (handle : StoreHandle)
    (faults : SqlFaults) (googleSub email : Text) (now wall : Instant) (fresh : Uuid)
    (db : SessionDb) :
    SignsIn (accountIdFor googleSub) googleSub email now wall fresh db
      (after (upsertGoogleAccount accountIdFor handle faults googleSub email
        now wall fresh) db) := by
  unfold upsertGoogleAccount
  split_ifs
  · exact .idle rfl
  · rw [after_recover]
    rcases transaction_cases faults 5 _ db with ⟨raised, hrun⟩ | ⟨answer, s, -, hrun⟩ |
      ⟨answer, db', hbody, hrun⟩
    · rw [after_of_error hrun]
      exact .idle rfl
    · rw [after_of_ok hrun]
      exact .idle rfl
    · rw [after_of_ok hrun]
      obtain ⟨row, db₁, hselect, hbody₁⟩ := bind_ok hbody
      obtain ⟨_, db₂, hpurge, hbody₂⟩ := bind_ok hbody₁
      obtain ⟨hrow, hdb₁⟩ := execute_ok hselect
      have hdb₂ : db₂ = (purgeLapsedCarry wall db).2 := by
        rw [(execute_ok hpurge).2, hdb₁]
      cases row with
      | none =>
          obtain ⟨carried, db₃, hcarried, hbody₃⟩ := bind_ok hbody₂
          obtain ⟨_, db₄, hinsert, hbody₄⟩ := bind_ok hbody₃
          obtain ⟨hcarriedRow, hdb₃⟩ := execute_ok hcarried
          have hfree := insertAccount_free hinsert
          rw [hdb₃, hdb₂] at hfree
          rw [(pure_ok hbody₄).2, insertAccount_ok hinsert, hdb₃, hcarriedRow, hdb₂]
          exact .created hrow.symm hfree rfl rfl
      | some row =>
          obtain ⟨_, db₃, hupdate, hbody₃⟩ := bind_ok hbody₂
          rw [(pure_ok hbody₃).2, (execute_ok hupdate).2, hdb₂]
          exact .again row hrow.symm rfl rfl

/-- What the pointers are after a delete of an account, by the row that it found. -/
def carriedAfter (accountIdFor : Text → Uuid) (accountId : Uuid) (now : Instant) (db : SessionDb) :
    List SpendKeyCarryRow :=
  match accountOf accountId db with
  | none => unlapsed now db
  | some account =>
      ((unlapsed now db).filter fun other => other.subjectKey ≠ accountIdFor account.googleSub) ++
        [⟨accountIdFor account.googleSub, account.spendKey.getD accountId,
          isoformat (now.ahead spendKeyCarry)⟩]

theorem carrySpendKey_ok {accountIdFor : Text → Uuid} {faults : SqlFaults} {accountId : Uuid}
    {now : Instant} {db db' : SessionDb} {answer : Unit}
    (h : carrySpendKey accountIdFor faults accountId now db = .ok answer db') :
    db'.spendKeyCarry = carriedAfter accountIdFor accountId now db := by
  unfold carrySpendKey at h
  obtain ⟨_, db₁, hpurge, h₁⟩ := bind_ok h
  obtain ⟨row, db₂, hselect, h₂⟩ := bind_ok h₁
  obtain ⟨hrow, hdb₂⟩ := execute_ok hselect
  have hdb₁ : db₁ = (purgeLapsedCarry now db).2 := (execute_ok hpurge).2
  have hfound : row = accountOf accountId db := by
    rw [hrow, hdb₁]
    rfl
  rw [carriedAfter, ← hfound]
  cases row with
  | none =>
      rw [(pure_ok h₂).2, hdb₂, hdb₁]
      rfl
  | some account =>
      rw [(execute_ok h₂).2, hdb₂, hdb₁]
      rfl

/-- The pointers are the same. -/
def SameCarry (db db' : SessionDb) : Prop := db'.spendKeyCarry = db.spendKeyCarry

instance : Std.Refl SameCarry := ⟨fun _ => rfl⟩

instance : IsTrans SessionDb SameCarry := ⟨fun _ _ _ h h' => h'.trans h⟩

/-- A delete that ran has left the key of the account behind. -/
theorem deleteAccount_carry {accountIdFor : Text → Uuid} {handle : StoreHandle} {faults : SqlFaults}
    {accountId : Uuid} {now : Instant} {db : SessionDb}
    (h : answered (deleteAccount accountIdFor handle faults accountId now) db = some true) :
    (after (deleteAccount accountIdFor handle faults accountId now) db).spendKeyCarry =
      carriedAfter accountIdFor accountId now db := by
  obtain ⟨last, hrun⟩ := answered_eq_some.mp h
  rw [after_of_ok hrun]
  unfold deleteAccount at hrun
  split_ifs at hrun
  · cases (pure_ok hrun).1
  · rcases eq_of_recover_ok hrun with hrun | hfalse
    · rcases transaction_cases faults 8 _ db with ⟨raised, hx⟩ | ⟨answer, s, hbody, hx⟩ |
        ⟨answer, s, hbody, hx⟩
      · cases hrun.symm.trans hx
      · obtain ⟨_, db₁, -, hbody₁⟩ := bind_ok hbody
        obtain ⟨_, db₂, -, hbody₂⟩ := bind_ok hbody₁
        obtain ⟨_, db₃, -, hbody₃⟩ := bind_ok hbody₂
        obtain ⟨_, db₄, -, hbody₄⟩ := bind_ok hbody₃
        obtain ⟨_, db₅, -, hbody₅⟩ := bind_ok hbody₄
        cases (pure_ok hbody₅).1
      · cases hrun.symm.trans hx
        obtain ⟨_, db₁, hcarry, hbody₁⟩ := bind_ok hbody
        obtain ⟨_, db₂, hhistory, hbody₂⟩ := bind_ok hbody₁
        obtain ⟨_, db₃, hevents, hbody₃⟩ := bind_ok hbody₂
        obtain ⟨_, db₄, hsessions, hbody₄⟩ := bind_ok hbody₃
        obtain ⟨_, db₅, haccounts, hbody₅⟩ := bind_ok hbody₄
        have hsame₂ : SameCarry db₁ db₂ :=
          (Moves.executeWhen (R := SameCarry) handle.historyReady faults 4
            fun _ => by exact rfl).of_ok hhistory
        have hsame₃ : SameCarry db₂ db₃ :=
          (Moves.executeWhen (R := SameCarry) handle.safetyReady faults 5
            fun _ => by exact rfl).of_ok hevents
        rw [(pure_ok hbody₅).2, (execute_ok haccounts).2, (execute_ok hsessions).2]
        exact (hsame₃.trans hsame₂).trans (carrySpendKey_ok hcarry)
    · cases hfalse

/-! ### The lives of a subject -/

/-- A ledger and a store of accounts. Ghost state: the runs of the subject's accounts with the keys
that were read for them, the ids and keys that its accounts have had, and when the last of them was
deleted. -/
structure LivesWorld extends LedgerWorld where
  db : SessionDb
  runs : List (Uuid × Uuid)
  keys : List Uuid
  deletedAt : Option Instant

/-- A turn: a sign-in or a delete by anyone, the start of a run of the subject, an operation on the
ledger. -/
inductive LivesTurn
  | signIn (handle : StoreHandle) (faults : SqlFaults) (googleSub email : Text) (fresh : Uuid)
  | delete (handle : StoreHandle) (faults : SqlFaults) (accountId : Uuid)
  | start (handle : StoreHandle) (faults : SqlFaults) (queryRunId : Uuid)
  | book (op : LedgerOp)

section

variable (accountIdFor : Text → Uuid) (julianday : Text → Option ℚ) (subject : Text)

/-- The account of the subject. -/
def subjectAccount (db : SessionDb) : Option AccountRow :=
  db.accounts.find? fun account => account.googleSub = subject

namespace LivesWorld

variable (world : LivesWorld)

/-- The row names a run of the subject. -/
def mine (row : EventRow) : Bool := world.runs.any fun run => row.queryRunId = some run.1

/-- What the runs of the subject have cost in the window, under whatever key. -/
def livesSpend : Except LedgerError Amount :=
  spendTotalLocked (world.clock.back spendWindow) none accountChargeEvents
    (world.store.events.filter world.mine)

/-- An account id is drawn at random, and the keyed hash tells subjects apart. -/
def signIn (handle : StoreHandle) (faults : SqlFaults) (googleSub email : Text)
    (fresh : Uuid) : LivesWorld :=
  if fresh ∉ world.keys ∧ (∀ row ∈ world.store.events, row.accountId ≠ some fresh) ∧
      (accountIdFor googleSub = accountIdFor subject → googleSub = subject) then
    { world with
      db :=
        after (upsertGoogleAccount accountIdFor handle faults googleSub email world.clock
          world.clock fresh) world.db
      keys := if googleSub = subject then fresh :: world.keys else world.keys }
  else world

def delete (handle : StoreHandle) (faults : SqlFaults) (accountId : Uuid) : LivesWorld :=
  let removal := deleteAccount accountIdFor handle faults accountId world.clock
  { world with
    db := after removal world.db
    deletedAt :=
      if answered removal world.db = some true ∧
          (accountOf accountId world.db).any fun account =>
            account.googleSub = subject then some world.clock
      else world.deletedAt }

/-- A run of the subject's account, with a new id, under the key that is read for the account. -/
def start (handle : StoreHandle) (faults : SqlFaults) (queryRunId : Uuid) : LivesWorld :=
  match subjectAccount subject world.db with
  | none => world
  | some account =>
      match answered (spendKeyFor handle faults account.accountId) world.db with
      | some (some key) =>
          if queryRunId ∉ world.runs.map Prod.fst ∧ ∀ row ∈ world.store.events,
            row.queryRunId ≠ some queryRunId then
            { world with runs := (queryRunId, key) :: world.runs }
          else world
      | _ => world

/-- The subject's runs are charged and corrected under their own keys, and others' runs under other
keys. The calendar has a day left. -/
def MayBook : LedgerOp → Prop
  | .tick span => world.clock.val + span + spendKeyCarry < maxDays * microsPerDay
  | op => ∀ entry ∈ op.charges <|> op.corrects,
      (entry.2, entry.1) ∈ world.runs ∨ (entry.1 ∉ world.keys ∧ entry.2 ∉ world.runs.map Prod.fst)

instance : DecidablePred world.MayBook := fun op => by
  cases op <;> unfold MayBook
  case tick span => infer_instance
  all_goals exact Option.decidableForallMem _

def step : LivesTurn → LivesWorld
  | .signIn handle faults googleSub email fresh =>
      world.signIn accountIdFor subject handle faults googleSub email fresh
  | .delete handle faults accountId => world.delete accountIdFor subject handle faults accountId
  | .start handle faults queryRunId => world.start subject handle faults queryRunId
  | .book op =>
      if world.MayBook op then
        { world with toLedgerWorld := op.apply julianday world.toLedgerWorld } else world

/-- The world after turns, oldest first. -/
def after (turns : List LivesTurn) : LivesWorld :=
  turns.foldl (step accountIdFor julianday subject) world

theorem after_concat (turns : List LivesTurn) (turn : LivesTurn) :
    world.after accountIdFor julianday subject (turns ++ [turn]) =
      (world.after accountIdFor julianday subject turns).step accountIdFor julianday
        subject turn := by
  rw [after, after, List.foldl_append]
  rfl

/-- A ledger and a store of accounts before the subject's first run. -/
def boot (clock : Instant) (store : FeedbackStore) (db : SessionDb) : LivesWorld where
  store := store
  clock := clock
  charges := []
  db := db
  runs := []
  keys := accountIdFor subject ::
    (subjectAccount subject db).elim [] fun account => [account.accountId, account.meteredKey]
  deletedAt := none

/-- A charge under another key than the keyed hash of the subject is recorded while the account of
that key exists, and no account is made a day to the instant after a delete at whose instant such a
charge was recorded. -/
def Timely : LivesTurn → Prop
  | .book op => ∀ entry ∈ op.charges, (entry.2, entry.1) ∈ world.runs →
      entry.1 = accountIdFor subject
      ∨ (subjectAccount subject world.db).map AccountRow.meteredKey = some entry.1
  | .signIn _ _ googleSub _ _ => googleSub = subject → subjectAccount subject world.db = none →
      ∀ deletedAt ∈ world.deletedAt, world.clock = deletedAt.ahead spendKeyCarry →
        ∀ row ∈ world.store.events, world.mine row → row.recorder = .cost →
          row.eventType ∈ accountChargeEvents →
          row.recordedAt = isoformat deletedAt → row.accountId = some (accountIdFor subject)
  | _ => True

end LivesWorld

end

end Quorum
