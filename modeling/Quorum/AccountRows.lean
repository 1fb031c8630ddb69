import Quorum.AccountMarks

/-! What the operations of the store do to the account rows: a sign-in may add one, a delete of an
account that reports it has run removes its row, and all else keeps the ids. Only a save adds a
session row. -/

namespace Quorum

open IsoTime Transaction

/-- The ids of the accounts are the same, and session rows may have gone. -/
def KeepsAccounts (db db' : SessionDb) : Prop :=
  db'.accounts.map AccountRow.accountId = db.accounts.map AccountRow.accountId ∧
    ∀ row ∈ db'.sessions, row ∈ db.sessions

instance : Std.Refl KeepsAccounts := ⟨fun _ => ⟨rfl, fun _ h => h⟩⟩

instance : IsTrans SessionDb KeepsAccounts :=
  ⟨fun _ _ _ h h' => ⟨h'.1.trans h.1, fun row hrow => h.2 row (h'.2 row hrow)⟩⟩

/-- The ids of the accounts are the same, and the row may have been written. -/
def Writes (row : SessionRow) (db db' : SessionDb) : Prop :=
  db'.accounts = db.accounts ∧ ∀ other ∈ db'.sessions, other = row ∨ other ∈ db.sessions

instance (row : SessionRow) : Std.Refl (Writes row) := ⟨fun _ => ⟨rfl, fun _ h => .inr h⟩⟩

instance (row : SessionRow) : IsTrans SessionDb (Writes row) :=
  ⟨fun _ _ _ h h' => ⟨h'.1.trans h.1,
    fun other hother => (h'.2 other hother).elim .inl (h.2 other)⟩⟩

theorem keepsAccounts_filter (keeps : SessionRow → Bool) (db : SessionDb) :
    KeepsAccounts db { db with sessions := db.sessions.filter keeps } :=
  ⟨rfl, fun _ h => (List.mem_filter.mp h).1⟩

theorem deleteRows_keepsAccounts (handle : StoreHandle) (faults : SqlFaults)
    (goes : SessionRow → Bool) :
    Moves KeepsAccounts (deleteRows handle faults goes) := by
  unfold deleteRows
  split_ifs
  · exact Moves.pure false
  · exact (Moves.execute faults 0 fun db => keepsAccounts_filter _ db).recover _ _

theorem purgeExpired_keepsAccounts (handle : StoreHandle) (faults : SqlFaults) (cutoff : Instant)
    (createdCutoff : Option Instant) (now : Instant) :
    Moves KeepsAccounts (purgeExpired handle faults cutoff createdCutoff now) := by
  unfold purgeExpired
  split_ifs
  · exact Moves.pure 0
  · exact (Moves.execute faults 0 fun db => keepsAccounts_filter _ db).recover _ _

theorem accountId_raiseCutoff (stamp : Text) (key : Uuid) (account : AccountRow) :
    (account.raiseCutoff stamp key).accountId = account.accountId := by
  rw [AccountRow.raiseCutoff]
  split <;> rfl

theorem accountId_signIn (googleSub email stamp : Text) (account : AccountRow) :
    (account.signIn googleSub email stamp).accountId = account.accountId := by
  rw [AccountRow.signIn]
  split <;> rfl

theorem endSessionsBefore_keepsAccounts (handle : StoreHandle) (faults : SqlFaults)
    (accountId : Uuid) (cutoff : Instant) :
    Moves KeepsAccounts (endSessionsBefore handle faults accountId cutoff) := by
  unfold endSessionsBefore
  split_ifs
  · exact Moves.pure _
  · refine (Moves.transaction faults 3 ?_).recover _ _
    refine Moves.bind (Moves.execute faults 1 fun db => ⟨?_, fun _ h => h⟩) fun updated => ?_
    · rw [raiseSessionsCutoff, List.map_map]
      exact List.map_congr_left fun account _ => accountId_raiseCutoff _ _ account
    · split_ifs
      · exact Moves.pure _
      · exact Moves.bind (Moves.execute faults 2 fun db => keepsAccounts_filter _ db) fun _ =>
          Moves.pure _

theorem insertOrReplace_writes (row : SessionRow) (db : SessionDb) :
    Writes row db (insertOrReplace row db).2 := by
  refine ⟨rfl, fun other hother => ?_⟩
  rcases List.mem_append.mp hother with hother | hother
  · exact .inr (List.mem_filter.mp hother).1
  · exact .inl (List.mem_singleton.mp hother)

theorem writeCount_writes (handle : StoreHandle) (faults : SqlFaults) (n : ℕ) {row : SessionRow}
    {statement : SessionDb → ℕ × SessionDb} (h : ∀ db, Writes row db (statement db).2) :
    Moves (Writes row) (writeCount handle faults n statement) := by
  unfold writeCount
  split_ifs
  · exact Moves.pure _
  · refine Moves.recover (Moves.execute faults n fun db => ?_) _ _
    exact h db

theorem save_writes (sha256Hexdigest : Text → Text) (handle : StoreHandle) (faults : SqlFaults)
    (session : StoredSession) :
    Moves (Writes (sessionRow sha256Hexdigest session))
      (save sha256Hexdigest handle faults session) := by
  have hread : Moves (Writes (sessionRow sha256Hexdigest session))
      (noAccountRow handle faults 0 session.accountId) := by
    intro db
    rw [noAccountRow_reads handle faults 0 session.accountId db]
    exact refl db
  unfold save
  split_ifs
  · refine Moves.bind (writeCount_writes handle faults 0 fun db => ?_) fun _ => Moves.pure _
    rw [insertUnlessCutOff]
    split_ifs
    · exact refl db
    · exact insertOrReplace_writes _ db
  · refine Moves.bind hread fun unnamed => ?_
    split_ifs
    · exact Moves.pure _
    · exact Moves.bind (writeCount_writes handle faults 1 fun db => insertOrReplace_writes _ db)
        fun _ => Moves.pure _

/-- The ids of the accounts are the same or the new one was added, and the sessions are the same. -/
def AddsAccount (fresh : Uuid) (db db' : SessionDb) : Prop :=
  (db'.accounts.map AccountRow.accountId = db.accounts.map AccountRow.accountId ∨
    db'.accounts.map AccountRow.accountId = db.accounts.map AccountRow.accountId ++ [fresh]) ∧
  db'.sessions = db.sessions

instance (fresh : Uuid) : Std.Refl (AddsAccount fresh) := ⟨fun _ => ⟨.inl rfl, rfl⟩⟩

theorem upsertGoogleAccount_adds (accountIdFor : Text → Uuid) (handle : StoreHandle)
    (faults : SqlFaults) (googleSub email : Text) (now wall : Instant) (fresh : Uuid)
    (db : SessionDb) :
    AddsAccount fresh db
      (after (upsertGoogleAccount accountIdFor handle faults googleSub email
        now wall fresh) db) := by
  unfold upsertGoogleAccount
  split_ifs
  · exact refl db
  · rw [after_recover]
    refine after_transaction faults 5 fun answer db' hbody => ?_
    obtain ⟨row, db₁, hselect, hbody₁⟩ := bind_ok hbody
    obtain ⟨_, db₂, hpurge, hbody₂⟩ := bind_ok hbody₁
    have hdb₂ : db₂ = (purgeLapsedCarry wall db).2 := by
      rw [(execute_ok hpurge).2, (execute_ok hselect).2]
    cases row with
    | none =>
        obtain ⟨carried, db₃, hcarried, hbody₃⟩ := bind_ok hbody₂
        obtain ⟨_, db₄, hinsert, hbody₄⟩ := bind_ok hbody₃
        rw [(pure_ok hbody₄).2, insertAccount_ok hinsert, (execute_ok hcarried).2, hdb₂]
        exact ⟨.inr List.map_append, rfl⟩
    | some row =>
        obtain ⟨_, db₃, hupdate, hbody₃⟩ := bind_ok hbody₂
        rw [(pure_ok hbody₃).2, (execute_ok hupdate).2, hdb₂]
        refine ⟨.inl ?_, rfl⟩
        rw [List.map_map]
        exact List.map_congr_left fun account _ => accountId_signIn _ _ _ account

/-- What an operation by anyone else can do. -/
theorem SessionOp.other_rows (sha256Hexdigest : Text → Text) (accountIdFor : Text → Uuid)
    (handle : StoreHandle) (faults : SqlFaults) {op : SessionOp} (hother : op.other = true)
    (db : SessionDb) :
    let db' := Transaction.after (op.perform sha256Hexdigest accountIdFor handle faults) db
    KeepsAccounts db db' ∨ ∃ fresh ∈ op.draws, AddsAccount fresh db db' := by
  cases op with
  | save session => exact absurd hother Bool.false_ne_true
  | deleteAccount accountId now => exact absurd hother Bool.false_ne_true
  | delete sessionId => exact .inl (deleteRows_keepsAccounts handle faults _ db)
  | deleteAll => exact .inl (deleteRows_keepsAccounts handle faults _ db)
  | deleteSessionsOf accountId => exact .inl (deleteRows_keepsAccounts handle faults _ db)
  | purgeExpired cutoff createdCutoff now =>
      rw [SessionOp.perform, after_map]
      exact .inl (purgeExpired_keepsAccounts handle faults cutoff createdCutoff now db)
  | endSessionsBefore accountId cutoff =>
      rw [SessionOp.perform, after_map]
      exact .inl (endSessionsBefore_keepsAccounts handle faults accountId cutoff db)
  | upsertGoogleAccount googleSub email now wall fresh =>
      rw [SessionOp.perform, after_map]
      exact .inr ⟨fresh, rfl,
        upsertGoogleAccount_adds accountIdFor handle faults googleSub email now wall fresh db⟩

/-! ### Deletes of accounts -/

variable (accountIdFor : Text → Uuid) {handle : StoreHandle} {faults : SqlFaults} {accountId : Uuid}
  {wall : Instant} {db : SessionDb}

/-- A delete that does not report that it ran has changed nothing. -/
theorem deleteAccount_undone
    (h : answered (deleteAccount accountIdFor handle faults accountId wall) db ≠ some true) :
    after (deleteAccount accountIdFor handle faults accountId wall) db = db := by
  rcases deleteAccount_guarded accountIdFor handle faults accountId wall db with
    ⟨answer, db', hrun, hdone | hsame⟩ | ⟨raised, hrun⟩
  · exact absurd (answered_eq_some.mpr ⟨db', hdone ▸ hrun⟩) h
  · rw [after_of_ok hrun, hsame]
  · exact after_of_error hrun

/-- The accounts and the sessions are the same. -/
def SameRows (db db' : SessionDb) : Prop := db'.accounts = db.accounts ∧ db'.sessions = db.sessions

instance : Std.Refl SameRows := ⟨fun _ => ⟨rfl, rfl⟩⟩

instance : IsTrans SessionDb SameRows := ⟨fun _ _ _ h h' => ⟨h'.1.trans h.1, h'.2.trans h.2⟩⟩

theorem carrySpendKey_sameRows (faults : SqlFaults) (accountId : Uuid) (now : Instant) :
    Moves SameRows (carrySpendKey accountIdFor faults accountId now) := by
  unfold carrySpendKey
  refine Moves.bind (Moves.execute faults 1 fun _ => ⟨rfl, rfl⟩) fun _ => ?_
  refine Moves.bind (Moves.execute faults 2 fun _ => ⟨rfl, rfl⟩) fun row => ?_
  cases row with
  | none => exact Moves.pure ()
  | some account => exact Moves.execute faults 3 fun _ => ⟨rfl, rfl⟩

/-- A delete that ran has removed the account's row and its sessions. -/
theorem deleteAccount_done
    (h : answered (deleteAccount accountIdFor handle faults accountId wall) db = some true) :
    let db' := after (deleteAccount accountIdFor handle faults accountId wall) db
    db'.accounts = db.accounts.filter (fun account => account.accountId ≠ accountId) ∧
      db'.sessions = db.sessions.filter (fun row => row.accountId ≠ accountId) := by
  intro db'
  obtain ⟨last, hrun⟩ := answered_eq_some.mp h
  have hlast : db' = last := after_of_ok hrun
  rw [hlast]
  unfold deleteAccount at hrun
  split_ifs at hrun
  · cases (pure_ok hrun).1
  · rcases eq_of_recover_ok hrun with hrun | hfalse
    · rcases transaction_cases faults 8 _ db with ⟨raised, hx⟩ | ⟨answer, s, hbody, hx⟩ |
        ⟨answer, s, hbody, hx⟩
      · cases hrun.symm.trans hx
      · obtain ⟨_, db₁, -, hbody₁⟩ := bind_ok hbody
        obtain ⟨_, db₂, -, hbody₂⟩ := bind_ok hbody₁
        obtain ⟨_, db₃, -, hbody₃⟩ := bind_ok hbody₂
        obtain ⟨_, db₄, -, hbody₄⟩ := bind_ok hbody₃
        obtain ⟨_, db₅, -, hbody₅⟩ := bind_ok hbody₄
        cases (pure_ok hbody₅).1
      · cases hrun.symm.trans hx
        obtain ⟨_, db₁, hcarry, hbody₁⟩ := bind_ok hbody
        obtain ⟨_, db₂, hhistory, hbody₂⟩ := bind_ok hbody₁
        obtain ⟨_, db₃, hevents, hbody₃⟩ := bind_ok hbody₂
        obtain ⟨_, db₄, hsessions, hbody₄⟩ := bind_ok hbody₃
        obtain ⟨_, db₅, haccounts, hbody₅⟩ := bind_ok hbody₄
        have hsame₁ : SameRows db db₁ :=
          (carrySpendKey_sameRows accountIdFor faults accountId wall).of_ok hcarry
        have hsame₂ : SameRows db₁ db₂ :=
          (Moves.executeWhen handle.historyReady faults 4 fun _ => ⟨rfl, rfl⟩).of_ok hhistory
        have hsame₃ : SameRows db₂ db₃ :=
          (Moves.executeWhen handle.safetyReady faults 5 fun _ => ⟨rfl, rfl⟩).of_ok hevents
        have haccounts₃ : db₃.accounts = db.accounts := (hsame₃.1.trans hsame₂.1).trans hsame₁.1
        have hsessions₃ : db₃.sessions = db.sessions := (hsame₃.2.trans hsame₂.2).trans hsame₁.2
        rw [(pure_ok hbody₅).2, (execute_ok haccounts).2, (execute_ok hsessions).2, haccounts₃,
          hsessions₃]
        exact ⟨rfl, rfl⟩
    · cases hfalse

end Quorum
