import Quorum.SessionStore

/-! The finality of a sessions cutoff. What an operation can do to the sessions and the accounts is
one of five effects; each keeps the invariant that every session row was created after the cutoff of
its account, and none lowers a cutoff. The processes that share the database interleave whole
operations, except that a save through a handle whose cutoffs cannot be read is two steps: the read
of the accounts, and the write. -/

namespace Quorum

open IsoTime Transaction

/-! ### What an operation can do -/

/-- The account has no cutoff that the row does not come after. -/
def ClearOf (row : SessionRow) (account : AccountRow) : Prop :=
  account.accountId = row.accountId → ∀ cutoff ∈ account.sessionsValidAfter, cutoff < row.createdAt

/-- Rows and accounts may have gone, and nothing else has changed. -/
def Shrinks (db db' : SessionDb) : Prop :=
  (∀ row ∈ db'.sessions, row ∈ db.sessions) ∧ db'.accounts.Sublist db.accounts

instance : Std.Refl Shrinks := ⟨fun _ => ⟨fun _ h => h, List.Sublist.refl _⟩⟩

instance : IsTrans SessionDb Shrinks :=
  ⟨fun _ _ _ h h' => ⟨fun row hrow => h.1 row (h'.1 row hrow), h'.2.trans h.2⟩⟩

/-- The effects of an operation that draws the id `fresh`, when it draws one. -/
inductive Effect (fresh : Option Uuid) (db db' : SessionDb) : Prop where
  | shrink (h : Shrinks db db')
  | write (row : SessionRow) (hsessions : ∀ other ∈ db'.sessions, other = row ∨ other ∈ db.sessions)
      (haccounts : db'.accounts = db.accounts) (hclear : ∀ account ∈ db.accounts,
        ClearOf row account)
  | cut (stamp : Text) (key : Uuid)
      (hsessions : db'.sessions =
        db.sessions.filter fun row => ¬(row.accountId = key ∧ row.createdAt ≤ stamp))
      (haccounts : db'.accounts = db.accounts.map (AccountRow.raiseCutoff stamp key))
  | refresh (googleSub email stamp : Text) (hsessions : db'.sessions = db.sessions)
      (haccounts : db'.accounts = db.accounts.map (AccountRow.signIn googleSub email stamp))
  | create (account : AccountRow) (hfresh : fresh = some account.accountId)
      (hcutoff : account.sessionsValidAfter = none) (hsessions : db'.sessions = db.sessions)
      (haccounts : db'.accounts = db.accounts ++ [account])

instance (fresh : Option Uuid) : Std.Refl (Effect fresh) := ⟨fun db => .shrink (refl db)⟩

theorem endSessionsBefore_effect (handle : StoreHandle) (faults : SqlFaults) (accountId : Uuid)
    (cutoff : Instant) (db : SessionDb) :
    Effect none db (after (endSessionsBefore handle faults accountId cutoff) db) := by
  unfold endSessionsBefore
  split_ifs with hready
  · exact refl db
  · rw [after_recover]
    refine after_transaction faults 3 fun answer db' hbody => ?_
    obtain ⟨updated, db₁, hraise, hbody⟩ := bind_ok hbody
    obtain ⟨-, rfl⟩ := execute_ok hraise
    split_ifs at hbody with hone
    · cases (pure_ok hbody).1
    · obtain ⟨_, db₂, hdelete, hbody⟩ := bind_ok hbody
      obtain ⟨-, rfl⟩ := execute_ok hdelete
      rw [(pure_ok hbody).2]
      exact .cut (isoformat cutoff) accountId rfl rfl

/-- A change of the other tables is no change here. -/
theorem shrinks_of_eq {db db' : SessionDb} (hsessions : db'.sessions = db.sessions)
    (haccounts : db'.accounts = db.accounts) : Shrinks db db' :=
  ⟨fun _ h => hsessions ▸ h, haccounts ▸ List.Sublist.refl _⟩

theorem shrinks_filter (keeps : SessionRow → Bool) (db : SessionDb) :
    Shrinks db { db with sessions := db.sessions.filter keeps } :=
  ⟨fun _ h => (List.mem_filter.1 h).1, List.Sublist.refl _⟩

theorem deleteRows_shrinks (handle : StoreHandle) (faults : SqlFaults) (goes : SessionRow → Bool) :
    Moves Shrinks (deleteRows handle faults goes) := by
  unfold deleteRows
  split_ifs
  · exact Moves.pure false
  · exact (Moves.execute faults 0 fun db => shrinks_filter _ db).recover _ _

theorem purgeExpired_shrinks (handle : StoreHandle) (faults : SqlFaults) (cutoff : Instant)
    (createdCutoff : Option Instant) (now : Instant) :
    Moves Shrinks (purgeExpired handle faults cutoff createdCutoff now) := by
  unfold purgeExpired
  split_ifs
  · exact Moves.pure 0
  · exact (Moves.execute faults 0 fun db => shrinks_filter _ db).recover _ _

theorem carrySpendKey_shrinks (accountIdFor : Text → Uuid) (faults : SqlFaults) (accountId : Uuid)
    (now : Instant) : Moves Shrinks (carrySpendKey accountIdFor faults accountId now) := by
  unfold carrySpendKey
  refine Moves.bind (Moves.execute faults 1 fun _ => shrinks_of_eq rfl rfl) fun _ => ?_
  refine Moves.bind (Moves.execute faults 2 fun _ => shrinks_of_eq rfl rfl) fun row => ?_
  cases row with
  | none => exact Moves.pure ()
  | some account => exact Moves.execute faults 3 fun _ => shrinks_of_eq rfl rfl

theorem deleteAccount_shrinks (accountIdFor : Text → Uuid) (handle : StoreHandle)
    (faults : SqlFaults) (accountId : Uuid) (now : Instant) :
    Moves Shrinks (deleteAccount accountIdFor handle faults accountId now) := by
  unfold deleteAccount
  split_ifs with hready
  · exact Moves.pure false
  · refine (Moves.transaction faults 8 ?_).recover _ _
    refine Moves.bind (carrySpendKey_shrinks accountIdFor faults accountId now) fun _ => ?_
    refine Moves.bind ?_ fun _ => Moves.bind ?_ fun _ =>
      Moves.bind ?_ fun _ => Moves.bind ?_ fun _ => Moves.pure _
    · exact Moves.executeWhen handle.historyReady faults 4 fun _ => shrinks_of_eq rfl rfl
    · exact Moves.executeWhen handle.safetyReady faults 5 fun _ => shrinks_of_eq rfl rfl
    · exact Moves.execute faults 6 fun db => shrinks_filter _ db
    · exact Moves.execute faults 7 fun db => ⟨fun _ h => h, List.filter_sublist⟩

theorem insertOrReplace_effect {row : SessionRow} {db : SessionDb}
    (hclear : ∀ account ∈ db.accounts, ClearOf row account) :
    Effect none db (insertOrReplace row db).2 := by
  refine .write row (fun other h => ?_) rfl hclear
  rcases List.mem_append.1 h with h | h
  · exact .inr (List.mem_filter.1 h).1
  · exact .inl (List.mem_singleton.1 h)

theorem writeCount_effect (handle : StoreHandle) (faults : SqlFaults) (n : Nat)
    {statement : SessionDb → Nat × SessionDb} (db : SessionDb)
    (h : Effect none db (statement db).2) :
    Effect none db (after (writeCount handle faults n statement) db) := by
  unfold writeCount
  split_ifs with hclosed
  · exact refl db
  · rw [after_recover]
    unfold after execute
    cases faults n with
    | some raised => exact refl db
    | none => exact h

theorem insertUnlessCutOff_effect (row : SessionRow) (db : SessionDb) :
    Effect none db (insertUnlessCutOff row db).2 := by
  unfold insertUnlessCutOff
  split_ifs with hcut
  · exact refl db
  · refine insertOrReplace_effect fun account hmem hid cutoff hcutoff => ?_
    by_contra hle
    refine hcut (List.any_eq_true.2 ⟨account, hmem, ?_⟩)
    rw [Option.mem_def] at hcutoff
    simpa [cutOff, hid, hcutoff] using hle


/-- The read behind a save changes nothing. -/
theorem noAccountRow_reads (handle : StoreHandle) (faults : SqlFaults) (n : Nat)
    (accountId : Uuid) :
    Reads (noAccountRow handle faults n accountId) := by
  intro db
  unfold noAccountRow
  split_ifs
  · rfl
  · rw [after_recover]
    unfold after execute
    cases faults n <;> rfl

/-- A definite answer of that read holds of the accounts it read. -/
theorem noAccountRow_true {handle : StoreHandle} {faults : SqlFaults} {n : Nat} {accountId : Uuid}
    {db db' : SessionDb} (h : noAccountRow handle faults n accountId db = .ok (some true) db') :
    ∀ account ∈ db.accounts, account.accountId ≠ accountId := by
  intro account hmem hid
  unfold noAccountRow at h
  split_ifs at h
  · cases h
  · unfold recover execute at h
    cases hfault : faults n with
    | some raised =>
        simp only [hfault] at h
        split_ifs at h
        cases h
    | none =>
        have hany : db.accounts.any (fun account => account.accountId = accountId) = true :=
          List.any_eq_true.2 ⟨account, hmem, by simpa using hid⟩
        simp [hfault, hany] at h

theorem save_effect (sha256Hexdigest : Text → Text) (handle : StoreHandle) (faults : SqlFaults)
    (session : StoredSession) (db : SessionDb) :
    Effect none db (after (save sha256Hexdigest handle faults session) db) := by
  unfold save
  split_ifs with hready
  · rw [after_map]
    exact writeCount_effect handle faults 0 db (insertUnlessCutOff_effect _ db)
  · have hsame := noAccountRow_reads handle faults 0 session.accountId db
    cases hread : noAccountRow handle faults 0 session.accountId db with
    | error raised db' =>
        rw [after_bind_error _ hread, ← after_of_error hread, hsame]
        exact refl db
    | ok unnamed db' =>
        cases (after_of_ok hread).symm.trans hsame
        rw [after_bind_ok _ hread]
        by_cases hunnamed : unnamed ≠ some true
        · rw [if_pos hunnamed]
          exact refl db
        · rw [if_neg hunnamed, after_map]
          rw [not_not.1 hunnamed] at hread
          exact writeCount_effect handle faults 1 db (insertOrReplace_effect fun account hmem hid =>
            absurd hid (noAccountRow_true hread account hmem))

theorem insertAccount_ok {faults : SqlFaults} {n : Nat} {account : AccountRow} {db db' : SessionDb}
    {answer : Unit} (h : insertAccount faults n account db = .ok answer db') :
    db' = { db with accounts := db.accounts ++ [account] } := by
  unfold insertAccount at h
  obtain ⟨read, db₁, hget, h⟩ := bind_ok h
  cases hget
  split_ifs at h
  · cases h
  · exact (execute_ok h).2

theorem upsertGoogleAccount_effect (accountIdFor : Text → Uuid) (handle : StoreHandle)
    (faults : SqlFaults) (googleSub email : Text) (now wall : Instant) (fresh : Uuid)
    (db : SessionDb) :
    Effect (some fresh) db
      (after (upsertGoogleAccount accountIdFor handle faults googleSub email
        now wall fresh) db) := by
  unfold upsertGoogleAccount
  split_ifs with hready
  · exact refl db
  · rw [after_recover]
    refine after_transaction faults 5 fun answer db' hbody => ?_
    obtain ⟨row, db₁, hselect, hbody₁⟩ := bind_ok hbody
    obtain ⟨_, db₂, hpurge, hbody₂⟩ := bind_ok hbody₁
    have hdb₂ : db₂ = (purgeLapsedCarry wall db).2 := by
      rw [(execute_ok hpurge).2, (execute_ok hselect).2]
    cases row with
    | none =>
        obtain ⟨carried, db₃, hcarried, hbody₃⟩ := bind_ok hbody₂
        obtain ⟨_, db₄, hinsert, hbody₄⟩ := bind_ok hbody₃
        rw [(pure_ok hbody₄).2, insertAccount_ok hinsert, (execute_ok hcarried).2, hdb₂]
        exact .create _ rfl rfl rfl rfl
    | some row =>
        obtain ⟨_, db₃, hupdate, hbody₃⟩ := bind_ok hbody₂
        rw [(pure_ok hbody₃).2, (execute_ok hupdate).2, hdb₂]
        exact .refresh googleSub email (isoformat now) rfl rfl

end Quorum
