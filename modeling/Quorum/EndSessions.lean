import Quorum.SessionReads

/-! The command that ends sessions (`end_sessions.main`): a write that raises the cutoffs of the
matched accounts and deletes their rows, and a read-back, each in one transaction, with whatever
other processes write in between. An exit code says what the command did to the file. -/

namespace Quorum

open IsoTime Transaction

/-! ### Arguments and reports -/

inductive SqliteError
  | busy
  | other
deriving DecidableEq

/-- What `argparse` makes of the arguments; a repeated `--email` is kept. -/
inductive EndArguments
  | help
  | unparsed
  | all
  | email (addresses : List Text)

inductive EndSelection
  | all
  | email (wanted : Text)

/-- What a run says: what stopped it, or what it did. -/
inductive EndReport
  | help
  | usage
  | pathNotSet
  | unreadable
  | notOwner
  | unopened
  | busy
  | notMigrated
  | noAccounts
  | noMatch
  | notEnded
  | unchecked
  | undone (found lower : ℕ)
  | ended (accounts sessions : ℕ)
deriving DecidableEq

/-- The exit code. -/
def EndReport.code : EndReport → ℕ
  | .help | .ended _ _ => 0
  | .noAccounts | .noMatch => 1
  | .usage => 2
  | .pathNotSet | .unreadable | .notOwner | .unopened | .busy | .notMigrated | .notEnded => 3
  | .unchecked | .undone _ _ => 4

/-- What the command finds of its host, and of the migrations of the file. -/
structure CommandHost where
  pathSet : Bool
  statOk : Bool
  owner : Bool
  connects : Bool
  migrated : Bool

/-- A run: what it says, the accounts it matched, and the database before and after each
transaction. -/
structure EndRun where
  report : EndReport
  matched : List Uuid
  transactions : List (SessionDb × SessionDb)

/-! ### Statements -/

section

/- `fold` stands for `str.strip` and `str.casefold` of an email. -/
variable (fold : Text → Text)

def EndArguments.select (arguments : EndArguments) : Except EndReport EndSelection :=
  match arguments with
  | .help => .error .help
  | .unparsed => .error .usage
  | .all => .ok .all
  | .email [address] =>
      if (fold address).count '@' ≠ 1 then .error .usage else .ok (.email (fold address))
  | .email _ => .error .usage

/-- Every account, or every account with the email as of its last sign-in. -/
def matchedAccounts (selection : EndSelection) (db : SessionDb) : List Uuid :=
  match selection with
  | .all => db.accounts.map AccountRow.accountId
  | .email wanted =>
      (db.accounts.filter fun account => fold account.email = wanted).map AccountRow.accountId

/-- `RAISE_ALL_CUTOFFS_SQL`. -/
def raiseAllCutoffs (stamp : Text) (db : SessionDb) : Unit × SessionDb :=
  ((), { db with accounts := db.accounts.map fun account =>
    { account with sessionsValidAfter := some (raisedCutoff account.sessionsValidAfter stamp) } })

/-- A delete of rows; the answer is how many. -/
def deleteCounted (goes : SessionRow → Bool) (db : SessionDb) : ℕ × SessionDb :=
  (db.sessions.countP goes, { db with sessions := db.sessions.filter fun row => ¬goes row })

/-- `DELETE_SESSIONS_BEFORE_SQL`. -/
def createdBefore (stamp : Text) (key : Uuid) (row : SessionRow) : Bool :=
  row.accountId = key && row.createdAt ≤ stamp

/-- `DELETE_ALL_SIGNED_IN_BEFORE_SQL`: a row whose id is in no accounts row is left alone. -/
def deleteAllSignedInBefore (stamp : Text) (db : SessionDb) : ℕ × SessionDb :=
  deleteCounted (fun row =>
    row.createdAt ≤ stamp && db.accounts.any fun account => account.accountId = row.accountId) db

/-! ### The two transactions -/

abbrev EndSql := Script SqliteError SessionDb

def endEach (faults : Faults SqliteError) (stamp : Text) : ℕ → List Uuid → EndSql ℕ
  | _, [] => pure 0
  | n, key :: keys => do
      let _ ← execute faults n (raiseSessionsCutoff stamp key)
      let ended ← execute faults (n + 1) (deleteCounted (createdBefore stamp key))
      let rest ← endEach faults stamp (n + 2) keys
      return ended + rest

def deleteEach (faults : Faults SqliteError) (stamp : Text) : ℕ → List Uuid → EndSql ℕ
  | _, [] => pure 0
  | n, key :: keys => do
      let found ← execute faults n (deleteCounted (createdBefore stamp key))
      let rest ← deleteEach faults stamp (n + 1) keys
      return found + rest

/-- Raise the cutoffs of the matched accounts and delete their rows; the answer is how many. -/
def endSelected (faults : Faults SqliteError) (selection : EndSelection) (stamp : Text)
    (matched : List Uuid) : EndSql ℕ :=
  match selection with
  | .all => do
      let _ ← execute faults 4 (raiseAllCutoffs stamp)
      execute faults 5 (deleteAllSignedInBefore stamp)
  | .email _ => endEach faults stamp 4 matched

/-- Delete the rows of the matched accounts again. -/
def deleteSelected (faults : Faults SqliteError) (selection : EndSelection) (stamp : Text)
    (matched : List Uuid) : EndSql ℕ :=
  match selection with
  | .all => execute faults 4 (deleteAllSignedInBefore stamp)
  | .email _ => deleteEach faults stamp 4 matched

/-- The write. `COMMIT` is statement 2 and the `ROLLBACK` of a run that matches nothing is statement
3. -/
def endWrite (faults : Faults SqliteError) (selection : EndSelection) (stamp : Text) :
    EndSql (Option (List Uuid × ℕ)) :=
  transaction faults 2 do
    let matched ← execute faults 1 fun db => (matchedAccounts fold selection db, db)
    if matched = [] then
      execute faults 3 fun db => ((), db)
      return .rollback none
    else
      let ended ← endSelected faults selection stamp matched
      return .commit (some (matched, ended))

/-- `_read_back`: the rows that were put back, and the matched accounts that have a lower cutoff. -/
def readBack (faults : Faults SqliteError) (selection : EndSelection) (matched : List Uuid)
    (stamp : Text) :
    EndSql (Option (ℕ × ℕ)) :=
  recover (fun _ => true) none <| transaction faults 2 do
    let found ← deleteSelected faults selection stamp matched
    let stored ← execute faults 3 fun db => (db.accounts, db)
    let lower := matched.countP fun key =>
      stored.any fun account => account.accountId = key
        && account.sessionsValidAfter.getD [] < stamp
    return .commit (some (found, lower))

/-! ### A run -/

def quiet (report : EndReport) : EndRun := ⟨report, [], []⟩

/-- The read-back of a run that has committed its write. -/
def endChecked (faults : Faults SqliteError) (selection : EndSelection) (stamp : Text)
    (matched : List Uuid) (ended : ℕ) (written : SessionDb × SessionDb) (db : SessionDb) :
    EndRun where
  report := match answered (readBack faults selection matched stamp) db with
    | some (some (found, lower)) =>
        if found ≠ 0 ∨ lower ≠ 0 then .undone found lower else .ended matched.length ended
    | _ => .unchecked
  matched := matched
  transactions := [written, (db, after (readBack faults selection matched stamp) db)]

/-- `_end`, with the database at its first transaction and what other processes write before its
second. The faults of each part count its statements. -/
def endRun (host : CommandHost) (marker write check : Faults SqliteError) (selection : EndSelection)
    (cutoff : Instant) (db : SessionDb) (others : SessionDb → SessionDb) : EndRun :=
  let stamp := isoformat cutoff
  match (marker 0 <|> marker 1) with
  | some .busy => quiet .busy
  | some .other => quiet .unreadable
  | none =>
      if ¬host.migrated then quiet .notMigrated
      else
        match endWrite fold write selection stamp db with
        | .error raised db' => ⟨if raised = .busy then .busy else .notEnded, [], [(db, db')]⟩
        | .ok none db' =>
            ⟨match selection with | .all => .noAccounts | .email _ => .noMatch, [], [(db, db')]⟩
        | .ok (some (matched, ended)) db' =>
            endChecked check selection stamp matched ended (db, db') (others db')

def endMain (host : CommandHost) (marker write check : Faults SqliteError)
    (arguments : EndArguments) (cutoff : Instant) (db : SessionDb)
    (others : SessionDb → SessionDb) : EndRun :=
  match arguments.select fold with
  | .error report => quiet report
  | .ok selection =>
      if ¬host.pathSet then quiet .pathNotSet
      else if ¬host.statOk then quiet .unreadable
      else if ¬host.owner then quiet .notOwner
      else if ¬host.connects then quiet .unopened
      else endRun fold host marker write check selection cutoff db others

end

/-! ### What a transaction can do -/

/-- The same account, with a cutoff that is no lower. -/
def NotLower (account account' : AccountRow) : Prop :=
  account'.accountId = account.accountId ∧
    ∀ cutoff ∈ account.sessionsValidAfter, ∃ cutoff' ∈ account'.sessionsValidAfter, cutoff ≤ cutoff'

/-- No cutoff is lower, and only rows created at or before the stamp have gone, of accounts that
have a row or are among the keys. -/
structure Ends (stamp : Text) (keys : List Uuid) (db db' : SessionDb) : Prop where
  accounts : List.Forall₂ NotLower db.accounts db'.accounts
  sessions : db'.sessions.Sublist db.sessions
  deleted : ∀ row ∈ db.sessions, row ∉ db'.sessions →
    row.createdAt ≤ stamp ∧ (db.HasAccount row.accountId ∨ row.accountId ∈ keys)

theorem notLower_refl (account : AccountRow) : NotLower account account :=
  ⟨rfl, fun cutoff h => ⟨cutoff, h, le_rfl⟩⟩

theorem NotLower.trans {account account' account'' : AccountRow} (h : NotLower account account')
    (h' : NotLower account' account'') : NotLower account account'' := by
  refine ⟨h'.1.trans h.1, fun cutoff hcutoff => ?_⟩
  obtain ⟨cutoff', hcutoff', hle⟩ := h.2 cutoff hcutoff
  obtain ⟨cutoff'', hcutoff'', hle'⟩ := h'.2 cutoff' hcutoff'
  exact ⟨cutoff'', hcutoff'', hle.trans hle'⟩

theorem notLower_trans {accounts accounts' accounts'' : List AccountRow}
    (h : List.Forall₂ NotLower accounts accounts')
    (h' : List.Forall₂ NotLower accounts' accounts'') :
    List.Forall₂ NotLower accounts accounts'' := by
  induction h generalizing accounts'' with
  | nil => exact h'
  | cons hraise _ ih =>
      cases h' with
      | cons hraise' htail => exact .cons (hraise.trans hraise') (ih htail)

theorem ids_of_notLower {accounts accounts' : List AccountRow}
    (h : List.Forall₂ NotLower accounts accounts') :
    accounts'.map AccountRow.accountId = accounts.map AccountRow.accountId := by
  induction h with
  | nil => rfl
  | cons hraise _ ih => rw [List.map_cons, List.map_cons, hraise.1, ih]

theorem hasAccount_iff_mem_ids {db : SessionDb} {accountId : Uuid} :
    db.HasAccount accountId ↔ accountId ∈ db.accounts.map AccountRow.accountId := List.mem_map.symm

theorem Ends.hasAccount_iff {stamp : Text} {keys : List Uuid} {db db' : SessionDb}
    (h : Ends stamp keys db db') (accountId : Uuid) :
    db'.HasAccount accountId ↔ db.HasAccount accountId := by
  rw [hasAccount_iff_mem_ids, hasAccount_iff_mem_ids, ids_of_notLower h.accounts]

instance (stamp : Text) (keys : List Uuid) : Std.Refl (Ends stamp keys) :=
  ⟨fun _ => ⟨List.forall₂_same.mpr fun account _ => notLower_refl account, List.Sublist.refl _,
    fun _ hrow hgone => absurd hrow hgone⟩⟩

instance (stamp : Text) (keys : List Uuid) : IsTrans SessionDb (Ends stamp keys) where
  trans db db' db'' h h' := by
    refine ⟨?_, h'.sessions.trans h.sessions, fun row hrow hgone => ?_⟩
    · exact notLower_trans h.accounts h'.accounts
    · by_cases hkept : row ∈ db'.sessions
      · obtain ⟨hcreated, howned⟩ := h'.deleted row hkept hgone
        exact ⟨hcreated, howned.imp_left (h.hasAccount_iff _).mp⟩
      · exact h.deleted row hrow hkept

theorem notLower_raisedCutoff (account : AccountRow) (stamp : Text) :
    NotLower account { account with sessionsValidAfter := some (raisedCutoff account.sessionsValidAfter stamp) } := by
  refine ⟨rfl, fun cutoff hcutoff => ⟨_, rfl, ?_⟩⟩
  rw [raisedCutoff, Option.mem_def.mp hcutoff, Option.getD_some]
  exact le_max_left cutoff stamp

theorem ends_of_accounts {stamp : Text} {keys : List Uuid} {db : SessionDb}
    {f : AccountRow → AccountRow} (h : ∀ account, NotLower account (f account)) :
    Ends stamp keys db { db with accounts := db.accounts.map f } where
  accounts := List.forall₂_map_right_iff.mpr (List.forall₂_same.mpr fun account _ => h account)
  sessions := List.Sublist.refl _
  deleted := fun _ hrow hgone => absurd hrow hgone

theorem ends_deleteCounted {stamp : Text} {keys : List Uuid} {db : SessionDb}
    {goes : SessionRow → Bool}
    (h : ∀ row, goes row = true → row.createdAt ≤ stamp ∧
      (db.HasAccount row.accountId ∨ row.accountId ∈ keys)) :
    Ends stamp keys db (deleteCounted goes db).2 where
  accounts := List.forall₂_same.mpr fun account _ => notLower_refl account
  sessions := List.filter_sublist
  deleted := fun row hrow hgone => by
    refine h row (by_contra fun hkept => hgone (List.mem_filter.mpr ⟨hrow, ?_⟩))
    exact decide_eq_true hkept

theorem raiseSessionsCutoff_ends (stamp : Text) (keys : List Uuid) (key : Uuid) (db : SessionDb) :
    Ends stamp keys db (raiseSessionsCutoff stamp key db).2 := by
  refine ends_of_accounts fun account => ?_
  rw [AccountRow.raiseCutoff]
  split
  · exact notLower_raisedCutoff account stamp
  · exact notLower_refl account

theorem deleteBefore_ends {stamp : Text} {keys : List Uuid} {key : Uuid} (hkey : key ∈ keys)
    (db : SessionDb) :
    Ends stamp keys db (deleteCounted (createdBefore stamp key) db).2 := by
  refine ends_deleteCounted fun row hgoes => ?_
  rw [createdBefore, Bool.and_eq_true, decide_eq_true_eq, decide_eq_true_eq] at hgoes
  exact ⟨hgoes.2, .inr (hgoes.1 ▸ hkey)⟩

theorem deleteAll_ends (stamp : Text) (keys : List Uuid) (db : SessionDb) :
    Ends stamp keys db (deleteAllSignedInBefore stamp db).2 := by
  refine ends_deleteCounted fun row hgoes => ?_
  rw [Bool.and_eq_true, decide_eq_true_eq, List.any_eq_true] at hgoes
  obtain ⟨hcreated, account, hmem, hid⟩ := hgoes
  exact ⟨hcreated, .inl ⟨account, hmem, of_decide_eq_true hid⟩⟩

theorem endEach_ends (faults : Faults SqliteError) {stamp : Text} {matched keys : List Uuid}
    (hkeys : ∀ key ∈ keys, key ∈ matched) (n : ℕ) :
    Moves (Ends stamp matched) (endEach faults stamp n keys) := by
  induction keys generalizing n with
  | nil => exact Moves.pure 0
  | cons key keys ih =>
      obtain ⟨hkey, hrest⟩ := List.forall_mem_cons.mp hkeys
      unfold endEach
      refine Moves.bind (Moves.execute faults n (raiseSessionsCutoff_ends stamp matched key))
        fun _ => ?_
      refine Moves.bind (Moves.execute faults (n + 1) (deleteBefore_ends hkey)) fun ended => ?_
      exact Moves.bind (ih hrest (n + 2)) fun rest => Moves.pure _

theorem deleteEach_ends (faults : Faults SqliteError) {stamp : Text} {matched keys : List Uuid}
    (hkeys : ∀ key ∈ keys, key ∈ matched) (n : ℕ) :
    Moves (Ends stamp matched) (deleteEach faults stamp n keys) := by
  induction keys generalizing n with
  | nil => exact Moves.pure 0
  | cons key keys ih =>
      obtain ⟨hkey, hrest⟩ := List.forall_mem_cons.mp hkeys
      unfold deleteEach
      refine Moves.bind (Moves.execute faults n (deleteBefore_ends hkey)) fun found => ?_
      exact Moves.bind (ih hrest (n + 1)) fun rest => Moves.pure _

/-- The accounts whose rows a read-back deletes whether or not they still have a row. -/
def EndSelection.keys (selection : EndSelection) (matched : List Uuid) : List Uuid :=
  match selection with
  | .all => []
  | .email _ => matched

theorem readBack_ends (faults : Faults SqliteError) (selection : EndSelection) (matched : List Uuid)
    (stamp : Text) :
    Moves (Ends stamp (selection.keys matched)) (readBack faults selection matched stamp) := by
  unfold readBack
  refine (Moves.transaction faults 2 ?_).recover _ _
  have hread : Moves (Ends stamp (selection.keys matched)) (execute faults 3 fun db =>
      (db.accounts, db)) :=
    Moves.execute faults 3 fun db => refl db
  refine Moves.bind ?_ fun found => Moves.bind hread fun stored => Moves.pure _
  cases selection with
  | all => exact Moves.execute faults 4 (deleteAll_ends stamp [])
  | email wanted => exact deleteEach_ends faults (fun _ h => h) 4

/-- A write that was answered matched the accounts of the database, and ended their sessions if
there were any. -/
theorem endWrite_ok {fold : Text → Text} {faults : Faults SqliteError} {selection : EndSelection}
    {stamp : Text} {db db' : SessionDb} {answer : Option (List Uuid × ℕ)}
    (h : endWrite fold faults selection stamp db = .ok answer db') :
    (answer = none ∧ db' = db) ∨
      ∃ ended, answer = some (matchedAccounts fold selection db, ended) ∧
        Ends stamp (matchedAccounts fold selection db) db db' := by
  unfold endWrite at h
  rcases transaction_cases faults 2 _ db with ⟨raised, hx⟩ | ⟨rolled, s, hbody, hx⟩ |
    ⟨committed, s, hbody, hx⟩
  · cases h.symm.trans hx
  · cases h.symm.trans hx
    obtain ⟨matched, db₁, hread, hbody₁⟩ := bind_ok hbody
    split_ifs at hbody₁
    · obtain ⟨_, db₂, -, hbody₂⟩ := bind_ok hbody₁
      cases (pure_ok hbody₂).1
      exact .inl ⟨rfl, rfl⟩
    · obtain ⟨ended, db₂, -, hbody₂⟩ := bind_ok hbody₁
      cases (pure_ok hbody₂).1
  · cases h.symm.trans hx
    obtain ⟨matched, db₁, hread, hbody₁⟩ := bind_ok hbody
    obtain ⟨hmatched, hdb₁⟩ := execute_ok hread
    subst hmatched hdb₁
    split_ifs at hbody₁
    · obtain ⟨_, db₂, -, hbody₂⟩ := bind_ok hbody₁
      cases (pure_ok hbody₂).1
    · obtain ⟨ended, db₂, hends, hbody₂⟩ := bind_ok hbody₁
      obtain ⟨hanswer, rfl⟩ := pure_ok hbody₂
      cases hanswer
      refine .inr ⟨ended, rfl, ?_⟩
      cases selection with
      | all =>
          obtain ⟨_, db₃, hraise, hdelete⟩ := bind_ok hends
          have hraised : Ends stamp (matchedAccounts fold .all db₁) db₁ db₃ := by
            rw [(execute_ok hraise).2]
            exact ends_of_accounts fun account => notLower_raisedCutoff account stamp
          have hdeleted : Ends stamp (matchedAccounts fold .all db₁) db₃ db' := by
            rw [(execute_ok hdelete).2]
            exact deleteAll_ends stamp _ db₃
          exact IsTrans.trans _ _ _ hraised hdeleted
      | email wanted => exact (endEach_ends faults (fun _ h => h) 4).of_ok hends

/-! ### What a read-back finds -/

/-- A delete that found nothing changed nothing. -/
theorem deleteCounted_zero {goes : SessionRow → Bool} {db : SessionDb}
    (h : (deleteCounted goes db).1 = 0) :
    (deleteCounted goes db).2 = db ∧ ∀ row ∈ db.sessions, goes row = false := by
  have hnone : ∀ row ∈ db.sessions, goes row = false := fun row hrow =>
    Bool.eq_false_iff.mpr (List.countP_eq_zero.mp h row hrow)
  refine ⟨?_, hnone⟩
  have hsame : (db.sessions.filter fun row => ¬goes row) = db.sessions :=
    List.filter_eq_self.mpr fun row hrow =>
      decide_eq_true (by rw [hnone row hrow]; exact Bool.false_ne_true)
  rw [deleteCounted, hsame]

theorem deleteEach_zero {faults : Faults SqliteError} {stamp : Text} {keys : List Uuid} {n : ℕ}
    {db db' : SessionDb} (h : deleteEach faults stamp n keys db = .ok 0 db') :
    db' = db ∧ ∀ key ∈ keys, ∀ row ∈ db.sessions, createdBefore stamp key row = false := by
  induction keys generalizing n db with
  | nil => exact ⟨(pure_ok h).2, fun _ hkey => absurd hkey List.not_mem_nil⟩
  | cons key keys ih =>
      unfold deleteEach at h
      obtain ⟨found, db₁, hfound, h₁⟩ := bind_ok h
      obtain ⟨rest, db₂, hrest, h₂⟩ := bind_ok h₁
      obtain ⟨hsum, rfl⟩ := pure_ok h₂
      obtain ⟨rfl, rfl⟩ : found = 0 ∧ rest = 0 := by omega
      obtain ⟨hzero, rfl⟩ := execute_ok hfound
      obtain ⟨hsame, hnone⟩ := deleteCounted_zero hzero.symm
      rw [hsame] at hrest
      obtain ⟨rfl, hnones⟩ := ih hrest
      exact ⟨rfl, List.forall_mem_cons.mpr ⟨hnone, hnones⟩⟩

/-- The rows that a read-back deletes if it finds any. -/
def PutBack (selection : EndSelection) (stamp : Text) (key : Uuid) (db : SessionDb)
    (row : SessionRow) : Prop :=
  row.accountId = key ∧ row.createdAt ≤ stamp ∧ (selection = .all → db.HasAccount key)

theorem deleteSelected_zero {faults : Faults SqliteError} {selection : EndSelection} {stamp : Text}
    {matched : List Uuid} {db db' : SessionDb}
    (h : deleteSelected faults selection stamp matched db = .ok 0 db') :
    db' = db ∧ ∀ key ∈ matched, ∀ row ∈ db.sessions, ¬PutBack selection stamp key db row := by
  cases selection with
  | all =>
      obtain ⟨hzero, rfl⟩ := execute_ok h
      obtain ⟨hsame, hnone⟩ := deleteCounted_zero hzero.symm
      refine ⟨hsame, fun key _ row hrow hback => ?_⟩
      obtain ⟨rfl, hcreated, haccount⟩ := hback
      obtain ⟨account, hmem, hid⟩ := haccount rfl
      have hgoes := hnone row hrow
      rw [Bool.and_eq_false_iff, decide_eq_false_iff_not, List.any_eq_false] at hgoes
      rcases hgoes with hcreated' | haccount
      · exact hcreated' hcreated
      · exact haccount account hmem (decide_eq_true hid)
  | email wanted =>
      obtain ⟨hsame, hnone⟩ := deleteEach_zero h
      refine ⟨hsame, fun key hkey row hrow hback => ?_⟩
      have hgoes := hnone key hkey row hrow
      rw [createdBefore, Bool.and_eq_false_iff, decide_eq_false_iff_not,
        decide_eq_false_iff_not] at hgoes
      exact hgoes.elim (absurd hback.1) (absurd hback.2.1)

theorem isoformat_ne_nil (t : Instant) : isoformat t ≠ [] := by
  intro h
  have hback := fromisoformat_isoformat t
  have hempty : fromisoformat [] = none := by decide
  rw [h, hempty] at hback
  cases hback

/-- A read-back that found no row and no lower cutoff. -/
theorem readBack_clean {faults : Faults SqliteError} {selection : EndSelection} {stamp : Text}
    {matched : List Uuid} {db : SessionDb} (hstamp : stamp ≠ [])
    (h : answered (readBack faults selection matched stamp) db = some (some (0, 0))) :
    let db' := after (readBack faults selection matched stamp) db
    db' = db ∧ (∀ key ∈ matched, ∀ row ∈ db.sessions, ¬PutBack selection stamp key db row) ∧
      ∀ key ∈ matched, ∀ account ∈ db.accounts, account.accountId = key →
        ∃ cutoff ∈ account.sessionsValidAfter, stamp ≤ cutoff := by
  intro db'
  obtain ⟨last, hrun⟩ := answered_eq_some.mp h
  have hlast : db' = last := after_of_ok hrun
  rw [hlast]
  unfold readBack at hrun
  rcases eq_of_recover_ok hrun with hrun | hnone
  · rcases transaction_cases faults 2 _ db with ⟨raised, hx⟩ | ⟨rolled, s, hbody, hx⟩ |
      ⟨committed, s, hbody, hx⟩
    · cases hrun.symm.trans hx
    · obtain ⟨found, db₁, -, hbody₁⟩ := bind_ok hbody
      obtain ⟨stored, db₂, -, hbody₂⟩ := bind_ok hbody₁
      cases (pure_ok hbody₂).1
    · cases hrun.symm.trans hx
      obtain ⟨found, db₁, hfound, hbody₁⟩ := bind_ok hbody
      obtain ⟨stored, db₂, hstored, hbody₂⟩ := bind_ok hbody₁
      obtain ⟨hanswer, rfl⟩ := pure_ok hbody₂
      obtain ⟨hstored, rfl⟩ := execute_ok hstored
      have hcounts := Option.some.inj (Finish.commit.inj hanswer)
      obtain ⟨rfl, hlower⟩ := Prod.mk.inj hcounts
      obtain ⟨rfl, hclear⟩ := deleteSelected_zero hfound
      refine ⟨rfl, hclear, fun key hkey account hmem hid => ?_⟩
      have hkept := List.countP_eq_zero.mp hlower.symm key hkey
      have hnotLower : ¬account.sessionsValidAfter.getD [] < stamp := by
        intro hlt
        refine hkept (List.any_eq_true.mpr ⟨account, hstored ▸ hmem, ?_⟩)
        rw [Bool.and_eq_true, decide_eq_true_eq, decide_eq_true_eq]
        exact ⟨hid, hlt⟩
      cases hcutoff : account.sessionsValidAfter with
      | none =>
          rw [hcutoff, Option.getD_none] at hnotLower
          obtain ⟨first, rest, rfl⟩ := List.exists_cons_of_ne_nil hstamp
          exact absurd (List.nil_lt_cons first rest) hnotLower
      | some cutoff =>
          rw [hcutoff, Option.getD_some] at hnotLower
          exact ⟨cutoff, rfl, not_lt.mp hnotLower⟩
  · cases hnone

/-! ### What an exit code says -/

theorem mem_matchedAccounts {fold : Text → Text} {selection : EndSelection} {db : SessionDb}
    {key : Uuid} (h : key ∈ matchedAccounts fold selection db) : db.HasAccount key := by
  cases selection with
  | all => exact List.mem_map.mp h
  | email wanted =>
      obtain ⟨account, hmem, hid⟩ := List.mem_map.mp h
      exact ⟨account, (List.mem_filter.mp hmem).1, hid⟩

/-- A run that stops before its read-back has changed nothing; any other has committed its write. -/
theorem endRun_cases (fold : Text → Text) (host : CommandHost)
    (marker write check : Faults SqliteError) (selection : EndSelection) (cutoff : Instant)
    (db : SessionDb) (others : SessionDb → SessionDb) :
    let run := endRun fold host marker write check selection cutoff db others
    let stamp := isoformat cutoff
    (run.report.code ≠ 0 ∧ ∀ part ∈ run.transactions, part.2 = part.1) ∨
      ∃ ended written, Ends stamp (matchedAccounts fold selection db) db written ∧
        run = endChecked check selection stamp (matchedAccounts fold selection db)
          ended (db, written)
          (others written) := by
  intro run stamp
  have hquiet : ∀ report : EndReport, report.code ≠ 0 → run = quiet report →
      (run.report.code ≠ 0 ∧ ∀ part ∈ run.transactions, part.2 = part.1) := by
    intro report hcode hrun
    rw [hrun]
    exact ⟨hcode, fun _ hpart => absurd hpart List.not_mem_nil⟩
  have hstopped : ∀ report : EndReport, report.code ≠ 0 → run = ⟨report, [], [(db, db)]⟩ →
      (run.report.code ≠ 0 ∧ ∀ part ∈ run.transactions, part.2 = part.1) := by
    intro report hcode hrun
    rw [hrun]
    refine ⟨hcode, fun part hpart => ?_⟩
    rw [List.mem_singleton.mp hpart]
  have hrun : run = endRun fold host marker write check selection cutoff db others := rfl
  unfold endRun at hrun
  dsimp only at hrun
  split at hrun
  · exact .inl (hquiet .busy (by decide) hrun)
  · exact .inl (hquiet .unreadable (by decide) hrun)
  · split at hrun
    · exact .inl (hquiet .notMigrated (by decide) hrun)
    · split at hrun
      · rename_i raised db' hwrite
        have hsame : db' = db := by
          rcases transaction_cases write 2 _ db with ⟨_, hx⟩ | ⟨_, _, -, hx⟩ | ⟨_, _, -, hx⟩
          · cases hwrite.symm.trans hx
            rfl
          · cases hwrite.symm.trans hx
          · cases hwrite.symm.trans hx
        subst hsame
        refine .inl (hstopped _ ?_ hrun)
        split <;> decide
      · rename_i db' hwrite
        rcases endWrite_ok hwrite with ⟨-, rfl⟩ | ⟨ended, hanswer, -⟩
        · refine .inl (hstopped _ ?_ hrun)
          split <;> decide
        · cases hanswer
      · rename_i matched ended db' hwrite
        rcases endWrite_ok hwrite with ⟨hanswer, -⟩ | ⟨ended, hanswer, hends⟩
        · cases hanswer
        · cases hanswer
          exact .inr ⟨ended, db', hends, hrun⟩

theorem endChecked_code (check : Faults SqliteError) (selection : EndSelection) (stamp : Text)
    (matched : List Uuid) (ended : ℕ) (written : SessionDb × SessionDb) (db : SessionDb) :
    let run := endChecked check selection stamp matched ended written db
    (run.report.code = 0 ∧ answered (readBack check selection matched stamp) db
      = some (some (0, 0))) ∨
      run.report.code = 4 := by
  intro run
  have hrun : run.report = (endChecked check selection stamp matched ended written db).report := rfl
  rw [endChecked] at hrun
  dsimp only at hrun
  split at hrun
  · rename_i found lower hanswer
    split at hrun
    · exact .inr (hrun ▸ rfl)
    · rename_i hclean
      obtain ⟨rfl, rfl⟩ : found = 0 ∧ lower = 0 := by omega
      exact .inl ⟨hrun ▸ rfl, hanswer⟩
  · exact .inr (hrun ▸ rfl)

/-- What a run that reads the database did. -/
theorem endRun_truth (fold : Text → Text) (host : CommandHost)
    (marker write check : Faults SqliteError) (selection : EndSelection) (cutoff : Instant)
    (db : SessionDb) (others : SessionDb → SessionDb) :
    let run := endRun fold host marker write check selection cutoff db others
    let stamp := isoformat cutoff
    (run.report.code = 0 → ∃ written checked, run.transactions = [written, checked] ∧
      run.matched = matchedAccounts fold selection written.1 ∧ ∀ key ∈ run.matched,
        (∀ account ∈ checked.2.accounts, account.accountId = key →
          ∃ stored ∈ account.sessionsValidAfter, stamp ≤ stored) ∧
        ∀ row ∈ checked.2.sessions, ¬PutBack selection stamp key checked.2 row) ∧
    (run.report.code = 1 ∨ run.report.code = 2 ∨ run.report.code = 3 →
      ∀ part ∈ run.transactions, part.2 = part.1) ∧
    ∀ part ∈ run.transactions,
      Ends stamp (selection.keys (matchedAccounts fold selection db)) part.1 part.2 ∧
      (part.2 = part.1 ∨ run.matched = matchedAccounts fold selection db) := by
  intro run stamp
  rcases endRun_cases fold host marker write check selection cutoff db others with
    ⟨hcode, hsame⟩ | ⟨ended, written, hends, hrun⟩
  · refine ⟨fun hzero => absurd hzero hcode, fun _ => hsame,
      fun part hpart => ⟨?_, .inl (hsame part hpart)⟩⟩
    rw [hsame part hpart]
    exact refl part.1
  · have hrun' : run = _ := hrun
    rw [hrun']
    have hfirst : Ends stamp (selection.keys (matchedAccounts fold selection db)) db written := by
      refine ⟨hends.accounts, hends.sessions, fun row hrow hgone => ?_⟩
      obtain ⟨hcreated, howned⟩ := hends.deleted row hrow hgone
      exact ⟨hcreated, .inl (howned.elim id mem_matchedAccounts)⟩
    have hsecond :=
      readBack_ends check selection (matchedAccounts fold selection db) stamp (others written)
    have hchecked :=
      endChecked_code check selection stamp (matchedAccounts fold selection db) ended (db, written)
      (others written)
    refine ⟨fun hzero => ?_, fun hcode => ?_, fun part hpart => ⟨?_, .inr rfl⟩⟩
    · rcases hchecked with ⟨-, hanswer⟩ | hfour
      · obtain ⟨hsame, hclear, hcut⟩ := readBack_clean (isoformat_ne_nil cutoff) hanswer
        refine ⟨_, _, rfl, rfl, fun key hkey => ⟨?_, ?_⟩⟩
        · rw [hsame]
          exact hcut key hkey
        · rw [hsame]
          exact hclear key hkey
      · exact absurd (hfour.symm.trans hzero) (by decide)
    · rcases hchecked with ⟨hzero, -⟩ | hfour
      · rw [hzero] at hcode
        omega
      · rw [hfour] at hcode
        omega
    · rcases List.mem_pair.mp hpart with rfl | rfl
      · exact hfirst
      · exact hsecond

theorem select_error {fold : Text → Text} {arguments : EndArguments} {report : EndReport}
    (h : arguments.select fold = .error report) (hcode : report.code = 0) :
    arguments = .help ∧ report = .help := by
  rw [EndArguments.select.eq_def] at h
  split at h
  · cases h
    exact ⟨rfl, rfl⟩
  · cases h
    exact absurd hcode (by decide)
  · cases h
  · split at h
    · cases h
      exact absurd hcode (by decide)
    · cases h
  · cases h
    exact absurd hcode (by decide)

theorem endMain_cases (fold : Text → Text) (host : CommandHost)
    (marker write check : Faults SqliteError) (arguments : EndArguments) (cutoff : Instant)
    (db : SessionDb) (others : SessionDb → SessionDb) :
    let run := endMain fold host marker write check arguments cutoff db others
    (∃ report : EndReport,
      (report.code = 0 → arguments = .help ∧ report = .help) ∧ run = quiet report) ∨
      ∃ selection, arguments.select fold = .ok selection ∧
        run = endRun fold host marker write check selection cutoff db others := by
  intro run
  have hrun : run = endMain fold host marker write check arguments cutoff db others := rfl
  rw [endMain] at hrun
  split at hrun
  · rename_i report hselect
    exact .inl ⟨report, select_error hselect, hrun⟩
  · rename_i selection hselect
    split at hrun
    · exact .inl ⟨_, fun hcode => absurd hcode (by decide), hrun⟩
    · split at hrun
      · exact .inl ⟨_, fun hcode => absurd hcode (by decide), hrun⟩
      · split at hrun
        · exact .inl ⟨_, fun hcode => absurd hcode (by decide), hrun⟩
        · split at hrun
          · exact .inl ⟨_, fun hcode => absurd hcode (by decide), hrun⟩
          · exact .inr ⟨selection, hselect, hrun⟩

/-- Exit code 0 is the help's, or says that at the read-back every matched account still present had
a cutoff at or after the stamp and no session of a matched account created at or before it was left
(with `--all`, of one that still has a row). Exit codes 1, 2 and 3 say that nothing was changed. No
run lowers a cutoff, and no run deletes a session created after the stamp or whose account id is in
no accounts row, unless the account had a row when `--email` matched it. -/
theorem end_sessions_truth (fold : Text → Text) (host : CommandHost)
    (marker write check : Faults SqliteError) (arguments : EndArguments) (cutoff : Instant)
    (db : SessionDb) (others : SessionDb → SessionDb) :
    let run := endMain fold host marker write check arguments cutoff db others
    let stamp := isoformat cutoff
    (run.report.code = 0 → (arguments = .help ∧ run = quiet .help) ∨
      ∃ selection written checked, arguments.select fold = .ok selection ∧
        run.transactions = [written, checked] ∧
        run.matched = matchedAccounts fold selection written.1 ∧ ∀ key ∈ run.matched,
          (∀ account ∈ checked.2.accounts, account.accountId = key →
            ∃ stored ∈ account.sessionsValidAfter, stamp ≤ stored) ∧
          ∀ row ∈ checked.2.sessions, row.accountId = key →
            (selection = .all → checked.2.HasAccount key) →
            stamp < row.createdAt) ∧
    (run.report.code = 1 ∨ run.report.code = 2 ∨ run.report.code = 3 →
      ∀ part ∈ run.transactions, part.2 = part.1) ∧
    ∀ part ∈ run.transactions, List.Forall₂ NotLower part.1.accounts part.2.accounts ∧
      part.2.sessions.Sublist part.1.sessions ∧
      ∀ row ∈ part.1.sessions, row ∉ part.2.sessions → row.createdAt ≤ stamp ∧
        (part.1.HasAccount row.accountId ∨
          (arguments ≠ .all ∧ row.accountId ∈ run.matched ∧ db.HasAccount row.accountId)) := by
  intro run stamp
  rcases endMain_cases fold host marker write check arguments cutoff db others with
    ⟨report, hcode, hrun⟩ | ⟨selection, hselect, hrun⟩
  · have hrun' : run = quiet report := hrun
    rw [hrun']
    refine ⟨fun hzero => ?_, fun _ part hpart => absurd hpart List.not_mem_nil,
      fun part hpart => absurd hpart List.not_mem_nil⟩
    obtain ⟨hhelp, rfl⟩ := hcode hzero
    exact .inl ⟨hhelp, rfl⟩
  · have hrun' : run = endRun fold host marker write check selection cutoff db others := hrun
    obtain ⟨hdone, hundone, hends⟩ :=
      endRun_truth fold host marker write check selection cutoff db others
    rw [hrun']
    refine ⟨fun hzero => ?_, hundone, fun part hpart => ?_⟩
    · obtain ⟨written, checked, htransactions, hmatched, hclear⟩ := hdone hzero
      refine .inr ⟨selection, written, checked, hselect, htransactions, hmatched,
        fun key hkey => ?_⟩
      refine ⟨(hclear key hkey).1, fun row hrow hid haccount => not_le.mp fun hcreated => ?_⟩
      exact (hclear key hkey).2 row hrow ⟨hid, hcreated, haccount⟩
    · obtain ⟨hpart, hmatched⟩ := hends part hpart
      refine ⟨hpart.accounts, hpart.sessions, fun row hrow hgone => ?_⟩
      obtain ⟨hcreated, howned⟩ := hpart.deleted row hrow hgone
      refine ⟨hcreated, howned.imp_right fun hkey => ?_⟩
      rcases hmatched with hsame | hmatched
      · exact absurd (hsame ▸ hrow) hgone
      · cases selection with
        | all => exact absurd hkey List.not_mem_nil
        | email wanted =>
            have hkey' : row.accountId ∈ matchedAccounts fold (.email wanted) db := hkey
            refine ⟨?_, hmatched ▸ hkey, mem_matchedAccounts hkey'⟩
            rintro rfl
            cases hselect

/-! ### A delete in between -/

def openHost : CommandHost := ⟨true, true, true, true, true⟩

def midnight : Instant := ⟨0, instants_pos⟩

/-- An account with one session. -/
def signedInDb : SessionDb :=
  { SessionDb.empty with
    accounts := [⟨1, "sub".toList, "a@b".toList, [], [], none, none⟩]
    sessions := [⟨"digest".toList, 1, [], isoformat midnight, isoformat midnight⟩] }

/-- The account is deleted, and its session is put back. -/
def deletedMeanwhile (db : SessionDb) : SessionDb :=
  { db with accounts := [], sessions := signedInDb.sessions }

/-- With `--all` the session of an account that is deleted in between is left at exit code 0; with
`--email` it is deleted although its account id is in no accounts row. -/
theorem end_sessions_races :
    let all :=
      endMain id openHost (fun _ => none) (fun _ => none) (fun _ => none) .all midnight signedInDb
      deletedMeanwhile
    let email := endMain id openHost (fun _ => none) (fun _ => none) (fun _ => none)
      (.email ["a@b".toList]) midnight
      signedInDb deletedMeanwhile
    (all.report.code = 0 ∧ ∃ part ∈ all.transactions.getLast?, ∃ row ∈ part.2.sessions,
      row.accountId ∈ all.matched ∧ row.createdAt ≤ isoformat midnight) ∧
    ∃ part ∈ email.transactions, ∃ row ∈ part.1.sessions,
      row ∉ part.2.sessions ∧ row.accountId ∉ part.1.accounts.map AccountRow.accountId := by
  decide +kernel

/-- A run that nothing disturbs ends the session of the account and exits 0. -/
theorem end_sessions_undisturbed :
    let run := endMain id openHost (fun _ => none) (fun _ => none) (fun _ => none)
      (.email ["a@b".toList]) midnight
      signedInDb id
    run.report = .ended 1 1 ∧ ∃ selection written checked, run.transactions = [written, checked] ∧
      run.matched = matchedAccounts id selection written.1 := by
  intro run
  have hended : run.report = .ended 1 1 := by decide +kernel
  have htruth := end_sessions_truth id openHost (fun _ => none) (fun _ => none) (fun _ => none)
    (.email ["a@b".toList]) midnight signedInDb id
  rcases htruth.1 (congrArg EndReport.code hended) with ⟨hhelp, -⟩ | ⟨selection, written, checked,
    -, htwo, hmatched, -⟩
  · cases hhelp
  · exact ⟨hended, selection, written, checked, htwo, hmatched⟩

end Quorum
