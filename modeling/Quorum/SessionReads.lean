import Quorum.SessionCutoff

/-! What a process reads of the accounts in its session store: a spend key, whether an id is in no
accounts row, a sessions cutoff. Each answer says what the rows were, and a read that could not run
says so. -/

namespace Quorum

open IsoTime Transaction

/-! ### Reads -/

/-- `spend_key_for`: the stored key; the id itself for an id in no row or a row without one; none
when it cannot be read. -/
def spendKeyFor (handle : StoreHandle) (faults : SqlFaults) (accountId : Uuid) :
    Sql (Option Uuid) :=
  if ¬handle.accountsReady then pure (some accountId)
  else if handle.closed then pure none
  else
    recover isSqliteError none (execute faults 0 fun db =>
      (some (((accountOf accountId db).bind AccountRow.spendKey).getD accountId), db))

/-- Answered only while the accounts feature is available. -/
def isAnonymous (handle : StoreHandle) (faults : SqlFaults) (accountId : Uuid) :
    Sql (Option Bool) :=
  if ¬handle.accountsReady then pure none else noAccountRow handle faults 0 accountId

def hasNoAccountRow (handle : StoreHandle) (faults : SqlFaults) (accountId : Uuid) :
    Sql (Option Bool) :=
  noAccountRow handle faults 0 accountId

/-- The read that the sessions and the spend meter ask about an id. -/
def kindOf (handle : StoreHandle) (faults : SqlFaults) (accountId : Uuid) : Sql (Option Bool) :=
  if handle.accountsReady then isAnonymous handle faults accountId
  else hasNoAccountRow handle faults accountId

/-- Whether the cutoff of an account could be read, and the cutoff. While the session-safety tables
are not ready, only an id in no accounts row has none for certain. -/
def sessionsValidAfter (handle : StoreHandle) (faults : SqlFaults) (accountId : Uuid) :
    Sql (Bool × Option Instant) :=
  if handle.closed then pure (false, none)
  else if ¬handle.safetyReady then do
    let unnamed ← noAccountRow handle faults 0 accountId
    return (unnamed = some true, none)
  else
    recover isSqliteError (false, none) (execute faults 0 fun db =>
      (match (accountOf accountId db).bind AccountRow.sessionsValidAfter with
        | none => (true, none)
        | some stamp =>
            match fromisoformat stamp with
            | some cutoff => (true, some cutoff)
            | none => (false, none), db))

/-! ### Answers -/

/-- The accounts have a row of this id. -/
def SessionDb.HasAccount (db : SessionDb) (accountId : Uuid) : Prop :=
  ∃ account ∈ db.accounts, account.accountId = accountId

theorem hasAccount_of_accountOf {accountId : Uuid} {db : SessionDb} {account : AccountRow}
    (h : accountOf accountId db = some account) : db.HasAccount accountId := by
  rw [accountOf] at h
  have hid := List.find?_some h
  exact ⟨account, List.mem_of_find?_eq_some h, of_decide_eq_true hid⟩

theorem exists_accountOf {accountId : Uuid} {db : SessionDb} (h : db.HasAccount accountId) :
    ∃ account, accountOf accountId db = some account := by
  rcases hfind : accountOf accountId db with _ | account
  · obtain ⟨account, hmem, hid⟩ := h
    rw [accountOf, List.find?_eq_none] at hfind
    exact absurd (decide_eq_true hid) (hfind account hmem)
  · exact ⟨account, rfl⟩

variable {handle : StoreHandle} {faults : SqlFaults} {accountId : Uuid} {db : SessionDb}

/-- A statement that answered, and not with the answer of a failed read, ran. -/
theorem answered_recover_execute {α : Type} {fallback answer : α} {n : ℕ}
    {statement : SessionDb → α × SessionDb}
    (h : answered (recover isSqliteError fallback (execute faults n statement)) db = some answer)
    (hne : answer ≠ fallback) : answer = (statement db).1 := by
  obtain ⟨db', hrun⟩ := answered_eq_some.mp h
  rcases eq_of_recover_ok hrun with hrun | heq
  · exact (execute_ok hrun).1
  · exact absurd heq hne

theorem noAccountRow_answer {n : ℕ} {unnamed : Bool}
    (h : answered (noAccountRow handle faults n accountId) db = some (some unnamed)) :
    unnamed = true ↔ ¬db.HasAccount accountId := by
  rw [noAccountRow] at h
  split at h
  · cases h
  · have hread := answered_recover_execute h (Option.some_ne_none unnamed)
    rw [Option.some.inj hread, decide_eq_true_iff, List.any_eq_true]
    simp only [decide_eq_true_eq, SessionDb.HasAccount]

theorem kindOf_answer {unnamed : Bool}
    (h : answered (kindOf handle faults accountId) db = some (some unnamed)) :
    unnamed = true ↔ ¬db.HasAccount accountId := by
  rw [kindOf, isAnonymous, hasNoAccountRow] at h
  split at h
  · exact noAccountRow_answer h
  · exact noAccountRow_answer h

theorem spendKeyFor_answer {key : Uuid} (hready : handle.accountsReady = true)
    (h : answered (spendKeyFor handle faults accountId) db = some (some key)) :
    key = ((accountOf accountId db).bind AccountRow.spendKey).getD accountId := by
  rw [spendKeyFor, if_neg (not_not.mpr hready)] at h
  split at h
  · cases h
  · exact Option.some.inj (answered_recover_execute h (Option.some_ne_none key))

/-- The cutoff of an account that has a row is read only while the session-safety tables are
ready. -/
theorem safetyReady_of_sessionsValidAfter {cutoff : Option Instant}
    (haccount : db.HasAccount accountId)
    (h : answered (sessionsValidAfter handle faults accountId) db = some (true, cutoff)) :
    handle.safetyReady = true := by
  by_contra hready
  rw [sessionsValidAfter] at h
  split at h
  · cases h
  · obtain ⟨db', hrun⟩ := answered_eq_some.mp h
    obtain ⟨unnamed, db₁, hread, hanswer⟩ := bind_ok hrun
    have hunnamed : unnamed = some true := by
      have hpair := congrArg Prod.fst (pure_ok hanswer).1
      exact of_decide_eq_true hpair.symm
    subst hunnamed
    exact (noAccountRow_answer (answered_eq_some.mpr ⟨db₁, hread⟩)).mp rfl haccount

end Quorum
