import Mathlib.Logic.Relation
import Quorum.SessionCutoff

/-! Runs of the session store by any number of processes. A step is one whole operation of one
process, through a handle with whatever flags it has and with whatever statements raising, or one of
the two halves of a save whose handle cannot read the cutoffs. A touch, a rotation and a restore of
a session reach the database as a save of the session with the creation time it had. -/

namespace Quorum

open IsoTime Transaction

section

variable (sha256Hexdigest : Text → Text) (accountIdFor : Text → Uuid)

/-! ### Operations -/

inductive SessionOp where
  | save (session : StoredSession)
  | delete (sessionId : Text)
  | deleteAll
  | deleteSessionsOf (accountId : Uuid)
  | purgeExpired (cutoff : Instant) (createdCutoff : Option Instant) (now : Instant)
  | endSessionsBefore (accountId : Uuid) (cutoff : Instant)
  | upsertGoogleAccount (googleSub email : Text) (now wall : Instant) (fresh : Uuid)
  | deleteAccount (accountId : Uuid) (now : Instant)

/-- The operation as it runs, with whether it reports that it has done its work. -/
def SessionOp.perform (handle : StoreHandle) (faults : SqlFaults) : SessionOp → Sql Bool
  | .save session => Quorum.save sha256Hexdigest handle faults session
  | .delete sessionId => Quorum.delete sha256Hexdigest handle faults sessionId
  | .deleteAll => Quorum.deleteAll handle faults
  | .deleteSessionsOf accountId => Quorum.deleteSessionsOf handle faults accountId
  | .purgeExpired cutoff createdCutoff now => do
      let count ← Quorum.purgeExpired handle faults cutoff createdCutoff now
      return count ≠ 0
  | .endSessionsBefore accountId cutoff => do
      let outcome ← Quorum.endSessionsBefore handle faults accountId cutoff
      return outcome = .ended
  | .upsertGoogleAccount googleSub email now wall fresh => do
      let accountId ← Quorum.upsertGoogleAccount accountIdFor handle faults googleSub email
          now wall fresh
      return accountId.isSome
  | .deleteAccount accountId now => Quorum.deleteAccount accountIdFor handle faults accountId now

/-- The random id that an operation draws. -/
def SessionOp.draws : SessionOp → Option Uuid
  | .upsertGoogleAccount _ _ _ _ fresh => some fresh
  | _ => none

theorem Effect.weaken {fresh : Option Uuid} {db db' : SessionDb} (h : Effect none db db') :
    Effect fresh db db' := by
  cases h with
  | shrink h => exact .shrink h
  | write row hsessions haccounts hclear => exact .write row hsessions haccounts hclear
  | cut stamp key hsessions haccounts => exact .cut stamp key hsessions haccounts
  | refresh googleSub email stamp hsessions haccounts =>
      exact .refresh googleSub email stamp hsessions haccounts
  | create account hfresh => cases hfresh

theorem SessionOp.effect (handle : StoreHandle) (faults : SqlFaults) (op : SessionOp)
    (db : SessionDb) :
    Effect op.draws db (after (op.perform sha256Hexdigest accountIdFor handle faults) db) := by
  cases op with
  | save session => exact save_effect sha256Hexdigest handle faults session db
  | delete sessionId => exact .shrink (deleteRows_shrinks handle faults _ db)
  | deleteAll => exact .shrink (deleteRows_shrinks handle faults _ db)
  | deleteSessionsOf accountId => exact .shrink (deleteRows_shrinks handle faults _ db)
  | purgeExpired cutoff createdCutoff now =>
      rw [SessionOp.perform, after_map]
      exact .shrink (purgeExpired_shrinks handle faults cutoff createdCutoff now db)
  | endSessionsBefore accountId cutoff =>
      rw [SessionOp.perform, after_map]
      exact endSessionsBefore_effect handle faults accountId cutoff db
  | upsertGoogleAccount googleSub email now wall fresh =>
      rw [SessionOp.perform, after_map]
      exact upsertGoogleAccount_effect accountIdFor handle faults googleSub email now wall fresh db
  | deleteAccount accountId now =>
      exact .shrink (deleteAccount_shrinks accountIdFor handle faults accountId now db)

/-! ### Worlds -/

/-- The database, the saves that have read an id to be in no accounts row and have not written yet,
and every id that an account or a session has been given. -/
structure SessionWorld where
  db : SessionDb
  pending : List SessionRow
  named : List Uuid

def SessionWorld.empty : SessionWorld := ⟨.empty, [], []⟩

def SessionOp.names : SessionOp → List Uuid
  | .save session => [session.accountId]
  | .upsertGoogleAccount _ _ _ _ fresh => [fresh]
  | _ => []

/-- One operation of one process on the world. -/
def SessionWorld.operate (handle : StoreHandle) (faults : SqlFaults) (op : SessionOp)
    (world : SessionWorld) : SessionWorld where
  db := after (op.perform sha256Hexdigest accountIdFor handle faults) world.db
  pending := world.pending
  named := op.names ++ world.named

/-- A random id is one that nothing has been given yet. -/
inductive WorldStep : SessionWorld → SessionWorld → Prop where
  | operate (world : SessionWorld) (handle : StoreHandle) (faults : SqlFaults) (op : SessionOp)
      (hfresh : ∀ fresh ∈ op.draws, fresh ∉ world.named) :
      WorldStep world (world.operate sha256Hexdigest accountIdFor handle faults op)
  | readBeforeSave (world : SessionWorld) (handle : StoreHandle) (faults : SqlFaults)
      (session : StoredSession) (db : SessionDb)
      (hread : noAccountRow handle faults 0 session.accountId world.db = .ok (some true) db) :
      WorldStep world
        { db := db
          pending := sessionRow sha256Hexdigest session :: world.pending
          named := session.accountId :: world.named }
  | writeOfSave (world : SessionWorld) (handle : StoreHandle) (faults : SqlFaults)
      (row : SessionRow)
      (hpending : row ∈ world.pending) :
      WorldStep world
        { world with
          db := after (writeCount handle faults 1 (insertOrReplace row)) world.db
          pending := world.pending.erase row }

abbrev Reaches : SessionWorld → SessionWorld → Prop :=
  Relation.ReflTransGen (WorldStep sha256Hexdigest accountIdFor)

/-! ### The invariant -/

/-- Every session row was created after the cutoff of its account, ids are unique among accounts,
and a pending save is of an id that is, and will be, in no accounts row. -/
structure Final (world : SessionWorld) : Prop where
  clear : ∀ row ∈ world.db.sessions, ∀ account ∈ world.db.accounts, ClearOf row account
  unique : (world.db.accounts.map AccountRow.accountId).Nodup
  pending : ∀ row ∈ world.pending, ∀ account ∈ world.db.accounts, account.accountId ≠ row.accountId
  pendingNamed : ∀ row ∈ world.pending, row.accountId ∈ world.named
  accountsNamed : ∀ account ∈ world.db.accounts, account.accountId ∈ world.named

/-- The same account, with a cutoff no earlier than it had. -/
def Continues (account account' : AccountRow) : Prop :=
  account.accountId = account'.accountId ∧
    ∀ cutoff ∈ account.sessionsValidAfter, ∃ cutoff' ∈ account'.sessionsValidAfter, cutoff ≤ cutoff'

theorem Continues.refl (account : AccountRow) : Continues account account :=
  ⟨rfl, fun cutoff hcutoff => ⟨cutoff, hcutoff, le_refl _⟩⟩

theorem Continues.trans {first second third : AccountRow} (h : Continues first second)
    (h' : Continues second third) : Continues first third := by
  refine ⟨h.1.trans h'.1, fun cutoff hcutoff => ?_⟩
  obtain ⟨middle, hmiddle, hle⟩ := h.2 cutoff hcutoff
  obtain ⟨last, hlast, hle'⟩ := h'.2 middle hmiddle
  exact ⟨last, hlast, hle.trans hle'⟩

/-- The accounts whose ids were named before continue the accounts that there were. -/
def Rises (world world' : SessionWorld) : Prop :=
  ∀ account' ∈ world'.db.accounts, account'.accountId ∈ world.named →
    ∃ account ∈ world.db.accounts, Continues account account'

theorem raiseCutoff_accountId (stamp : Text) (key : Uuid) (account : AccountRow) :
    (account.raiseCutoff stamp key).accountId = account.accountId := by
  unfold AccountRow.raiseCutoff
  split_ifs <;> rfl

theorem signIn_accountId (googleSub email stamp : Text) (account : AccountRow) :
    (account.signIn googleSub email stamp).accountId = account.accountId := by
  unfold AccountRow.signIn
  split_ifs <;> rfl

theorem signIn_continues (googleSub email stamp : Text) (account : AccountRow) :
    Continues account (account.signIn googleSub email stamp) := by
  unfold AccountRow.signIn
  split_ifs
  · exact Continues.refl account
  · exact Continues.refl account

theorem signIn_clear {googleSub email stamp : Text} {account : AccountRow} {row : SessionRow}
    (h : ClearOf row account) : ClearOf row (account.signIn googleSub email stamp) := by
  unfold AccountRow.signIn
  split_ifs
  · exact h
  · exact h

theorem raiseCutoff_continues (stamp : Text) (key : Uuid) (account : AccountRow) :
    Continues account (account.raiseCutoff stamp key) := by
  refine ⟨(raiseCutoff_accountId stamp key account).symm, fun cutoff hcutoff => ?_⟩
  unfold AccountRow.raiseCutoff
  split_ifs with hid
  · refine ⟨raisedCutoff account.sessionsValidAfter stamp, rfl, ?_⟩
    rw [raisedCutoff, Option.mem_def.1 hcutoff]
    exact le_max_left _ _
  · exact ⟨cutoff, hcutoff, le_refl _⟩

/-- The raised cutoff is the old one or the stamp. -/
theorem raisedCutoff_lt {old : Option Text} {stamp created : Text}
    (hold : ∀ cutoff ∈ old, cutoff < created) (hstamp : stamp < created) :
    raisedCutoff old stamp < created := by
  refine max_lt ?_ hstamp
  cases old with
  | none =>
      cases created with
      | nil => exact absurd hstamp (List.not_lt_nil stamp)
      | cons c rest => exact List.nil_lt_cons c rest
  | some cutoff => exact hold cutoff rfl

/-- A row that the raise leaves was created after the raised cutoff. -/
theorem raiseCutoff_clear {stamp : Text} {key : Uuid} {account : AccountRow} {row : SessionRow}
    (hkept : ¬(row.accountId = key ∧ row.createdAt ≤ stamp)) (hclear : ClearOf row account) :
    ClearOf row (account.raiseCutoff stamp key) := by
  intro hid cutoff hcutoff
  rw [raiseCutoff_accountId] at hid
  unfold AccountRow.raiseCutoff at hcutoff
  split_ifs at hcutoff with hkey
  · cases Option.mem_some_iff.1 hcutoff
    exact raisedCutoff_lt (hclear hid) (not_le.1 fun hle => hkept ⟨hid ▸ hkey, hle⟩)
  · exact hclear hid cutoff hcutoff

/-- It is enough that each account continues an old one, or has an id that is named only now. -/
theorem Final.of_back {world : SessionWorld} (h : Final world) {db : SessionDb} {named : List Uuid}
    (hnamed : world.named ⊆ named)
    (hback : ∀ account' ∈ db.accounts, (∃ account ∈ world.db.accounts, Continues account account') ∨
      account'.accountId ∉ world.named ∧ account'.accountId ∈ named)
    (hclear : ∀ row ∈ db.sessions, ∀ account ∈ db.accounts, ClearOf row account)
    (hunique : (db.accounts.map AccountRow.accountId).Nodup) :
    Final { world with db := db, named := named } ∧ Rises world { world with db := db, named := named } := by
  refine ⟨⟨hclear, hunique, ?_, fun row hrow => hnamed (h.pendingNamed row hrow), ?_⟩, ?_⟩
  · intro row hrow account' hmem
    rcases hback account' hmem with ⟨account, hold, hcontinues⟩ | ⟨hnew, -⟩
    · rw [← hcontinues.1]
      exact h.pending row hrow account hold
    · exact fun heq => hnew (heq ▸ h.pendingNamed row hrow)
  · intro account' hmem
    rcases hback account' hmem with ⟨account, hold, hcontinues⟩ | ⟨-, hin⟩
    · rw [← hcontinues.1]
      exact hnamed (h.accountsNamed account hold)
    · exact hin
  · intro account' hmem hold
    exact (hback account' hmem).resolve_right fun hnew => hnew.1 hold

/-- An effect that draws no id that was named keeps the invariant and lowers no cutoff. -/
theorem Final.effect {world : SessionWorld} (h : Final world) {fresh : Option Uuid} {db : SessionDb}
    (heffect : Effect fresh world.db db) (hfresh : ∀ id ∈ fresh, id ∉ world.named)
    {named : List Uuid} (hnamed : world.named ⊆ named) (hdrawn : ∀ id ∈ fresh, id ∈ named) :
    Final { world with db := db, named := named } ∧ Rises world { world with db := db, named := named } := by
  cases heffect with
  | shrink hshrinks =>
      obtain ⟨hsessions, haccounts⟩ := hshrinks
      refine h.of_back hnamed ?_ ?_ (h.unique.sublist (haccounts.map _))
      · exact fun account hmem => .inl ⟨account, haccounts.subset hmem, Continues.refl account⟩
      · exact fun row hrow account hmem =>
          h.clear row (hsessions row hrow) account (haccounts.subset hmem)
  | write row hsessions haccounts hclear =>
      refine h.of_back hnamed ?_ ?_ (haccounts ▸ h.unique)
      · exact fun account hmem => .inl ⟨account, haccounts ▸ hmem, Continues.refl account⟩
      · intro other hother account hmem
        rw [haccounts] at hmem
        rcases hsessions other hother with rfl | hother
        · exact hclear account hmem
        · exact h.clear other hother account hmem
  | cut stamp key hsessions haccounts =>
      refine h.of_back hnamed ?_ ?_ ?_ <;> rw [haccounts]
      · intro account' hmem
        obtain ⟨account, hold, rfl⟩ := List.mem_map.1 hmem
        exact .inl ⟨account, hold, raiseCutoff_continues stamp key account⟩
      · intro row hrow account' hmem
        obtain ⟨account, hold, rfl⟩ := List.mem_map.1 hmem
        rw [hsessions] at hrow
        obtain ⟨hrow, hkept⟩ := List.mem_filter.1 hrow
        exact raiseCutoff_clear (of_decide_eq_true hkept) (h.clear row hrow account hold)
      · rw [List.map_map, show AccountRow.accountId ∘ AccountRow.raiseCutoff stamp key =
          AccountRow.accountId from funext (raiseCutoff_accountId stamp key)]
        exact h.unique
  | refresh googleSub email stamp hsessions haccounts =>
      refine h.of_back hnamed ?_ ?_ ?_ <;> rw [haccounts]
      · intro account' hmem
        obtain ⟨account, hold, rfl⟩ := List.mem_map.1 hmem
        exact .inl ⟨account, hold, signIn_continues googleSub email stamp account⟩
      · intro row hrow account' hmem
        obtain ⟨account, hold, rfl⟩ := List.mem_map.1 hmem
        exact signIn_clear (h.clear row (hsessions ▸ hrow) account hold)
      · rw [List.map_map, show AccountRow.accountId ∘ AccountRow.signIn googleSub email stamp =
          AccountRow.accountId from funext (signIn_accountId googleSub email stamp)]
        exact h.unique
  | create account hid hcutoff hsessions haccounts =>
      have hnew : account.accountId ∉ world.named := hfresh _ hid
      refine h.of_back hnamed ?_ ?_ ?_ <;> rw [haccounts]
      · intro account' hmem
        rcases List.mem_append.1 hmem with hmem | hmem
        · exact .inl ⟨account', hmem, Continues.refl account'⟩
        · rw [List.mem_singleton.1 hmem]
          exact .inr ⟨hnew, hdrawn _ hid⟩
      · intro row hrow account' hmem
        rcases List.mem_append.1 hmem with hmem | hmem
        · exact h.clear row (hsessions ▸ hrow) account' hmem
        · intro _ cutoff hin
          rw [List.mem_singleton.1 hmem, hcutoff] at hin
          cases hin
      · rw [List.map_append, List.map_cons, List.map_nil, List.nodup_append]
        refine ⟨h.unique, List.nodup_singleton _, ?_⟩
        intro id hmem other hother
        obtain ⟨old, hold, rfl⟩ := List.mem_map.1 hmem
        rw [List.mem_singleton.1 hother]
        exact fun heq => hnew (heq ▸ h.accountsNamed old hold)

theorem final_empty : Final .empty where
  clear := by intro row h; cases h
  unique := List.nodup_nil
  pending := by intro row h; cases h
  pendingNamed := by intro row h; cases h
  accountsNamed := by intro account h; cases h

/-- A step keeps the invariant and lowers no cutoff. -/
theorem Final.step {world world' : SessionWorld} (h : Final world)
    (hstep : WorldStep sha256Hexdigest accountIdFor world world') :
    Final world' ∧ Rises world world' ∧ world.named ⊆ world'.named := by
  cases hstep with
  | operate handle faults op hfresh =>
      have hdrawn : ∀ id ∈ op.draws, id ∈ op.names ++ world.named := by
        intro id hid
        cases op <;> simp_all [SessionOp.draws, SessionOp.names]
      obtain ⟨hfinal, hrises⟩ :=
        h.effect (op.effect sha256Hexdigest accountIdFor handle faults world.db)
        hfresh (List.subset_append_right _ _) hdrawn
      exact ⟨hfinal, hrises, List.subset_append_right _ _⟩
  | readBeforeSave handle faults session db hread =>
      have hsame := noAccountRow_reads handle faults 0 session.accountId world.db
      cases (after_of_ok hread).symm.trans hsame
      refine ⟨⟨h.clear, h.unique, ?_, ?_, ?_⟩, ?_, List.subset_cons_self _ _⟩
      · intro row hrow account hmem
        rcases List.mem_cons.1 hrow with rfl | hrow
        · exact noAccountRow_true hread account hmem
        · exact h.pending row hrow account hmem
      · intro row hrow
        rcases List.mem_cons.1 hrow with rfl | hrow
        · exact List.mem_cons_self
        · exact List.mem_cons_of_mem _ (h.pendingNamed row hrow)
      · exact fun account hmem => List.mem_cons_of_mem _ (h.accountsNamed account hmem)
      · exact fun account hmem _ => ⟨account, hmem, Continues.refl account⟩
  | writeOfSave handle faults row hpending =>
      have heffect := writeCount_effect handle faults 1 world.db
        (insertOrReplace_effect fun account hmem hid =>
          absurd hid (h.pending row hpending account hmem))
      obtain ⟨hfinal, hrises⟩ := h.effect heffect (by simp) (List.Subset.refl _) (by simp)
      refine ⟨⟨hfinal.clear, hfinal.unique, ?_, ?_, hfinal.accountsNamed⟩, hrises,
        List.Subset.refl _⟩
      · exact fun other hother => hfinal.pending other (List.mem_of_mem_erase hother)
      · exact fun other hother => hfinal.pendingNamed other (List.mem_of_mem_erase hother)

/-- A run keeps the invariant and lowers no cutoff. -/
theorem Final.run {world world' : SessionWorld} (h : Final world)
    (hrun : Reaches sha256Hexdigest accountIdFor world world') :
    Final world' ∧ Rises world world' ∧ world.named ⊆ world'.named := by
  induction hrun with
  | refl =>
      exact ⟨h, fun account hmem _ => ⟨account, hmem, Continues.refl account⟩, List.Subset.refl _⟩
  | tail _ hstep ih =>
      obtain ⟨hmiddle, hrises, hnamed⟩ := ih
      obtain ⟨hlast, hrises', hnamed'⟩ := hmiddle.step sha256Hexdigest accountIdFor hstep
      refine ⟨hlast, ?_, fun id hid => hnamed' (hnamed hid)⟩
      intro account'' hmem hold
      obtain ⟨account', hmem', hcontinues'⟩ := hrises' account'' hmem (hnamed hold)
      obtain ⟨account, hmem, hcontinues⟩ := hrises account' hmem' (hcontinues'.1 ▸ hold)
      exact ⟨account, hmem, hcontinues.trans hcontinues'⟩

/-! ### Failure changes nothing -/

theorem writeCount_guarded (handle : StoreHandle) (faults : SqlFaults) (n : Nat)
    {statement : SessionDb → Nat × SessionDb}
    (h : ∀ db, (statement db).1 = 1 ∨ (statement db).2 = db) :
    Guarded (· = some 1) (writeCount handle faults n statement) := by
  unfold writeCount
  split_ifs
  · exact Guarded.pure none
  · refine Guarded.recover (Guarded.execute faults n fun db => ?_) _ _
    exact (h db).imp_left (congrArg some)

theorem insertUnlessCutOff_guarded (row : SessionRow) (db : SessionDb) :
    (insertUnlessCutOff row db).1 = 1 ∨ (insertUnlessCutOff row db).2 = db := by
  unfold insertUnlessCutOff
  split_ifs
  · exact .inr rfl
  · exact .inl rfl

theorem save_guarded (handle : StoreHandle) (faults : SqlFaults) (session : StoredSession) :
    Guarded (· = true) (save sha256Hexdigest handle faults session) := by
  unfold save
  split_ifs
  · exact (writeCount_guarded handle faults 0 (insertUnlessCutOff_guarded _)).map fun _ h =>
      by simpa using h
  · refine Guarded.bind (noAccountRow_reads handle faults 0 session.accountId) fun unnamed => ?_
    split_ifs
    · exact Guarded.pure false
    · exact (writeCount_guarded handle faults 1 fun _ => .inl rfl).map fun _ h => by simpa using h

theorem deleteRows_guarded (handle : StoreHandle) (faults : SqlFaults) (goes : SessionRow → Bool) :
    Guarded (· = true) (deleteRows handle faults goes) := by
  unfold deleteRows
  split_ifs
  · exact Guarded.pure false
  · refine Guarded.recover (Guarded.execute faults 0 fun _ => ?_) _ _
    exact .inl rfl

/-- A delete that matches no row changes nothing. -/
theorem countP_ne_zero_or_filter (goes : SessionRow → Bool) (db : SessionDb) :
    db.sessions.countP goes ≠ 0 ∨
    { db with sessions := db.sessions.filter fun row => ¬goes row } = db := by
  by_cases hzero : db.sessions.countP goes = 0
  · refine .inr ?_
    rw [List.filter_eq_self.2 fun row hrow => by simpa using List.countP_eq_zero.1 hzero row hrow]
  · exact .inl hzero

theorem purgeExpired_guarded (handle : StoreHandle) (faults : SqlFaults) (cutoff : Instant)
    (createdCutoff : Option Instant) (now : Instant) :
    Guarded (· ≠ 0) (purgeExpired handle faults cutoff createdCutoff now) := by
  unfold purgeExpired
  split_ifs
  · exact Guarded.pure 0
  · exact Guarded.recover (Guarded.execute faults 0 fun db => countP_ne_zero_or_filter _ db) _ _

theorem endSessionsBefore_guarded (handle : StoreHandle) (faults : SqlFaults) (accountId : Uuid)
    (cutoff : Instant) :
    Guarded (· = .ended) (endSessionsBefore handle faults accountId cutoff) := by
  unfold endSessionsBefore
  split_ifs
  · exact Guarded.pure _
  · refine (Guarded.transaction faults 3 fun db answer db' hbody => ?_).recover _ _
    obtain ⟨updated, db₁, -, hbody₁⟩ := bind_ok hbody
    split_ifs at hbody₁ with hone
    · cases (pure_ok hbody₁).1
    · obtain ⟨_, db₂, -, hbody₂⟩ := bind_ok hbody₁
      cases (pure_ok hbody₂).1
      exact .inl rfl

theorem upsertGoogleAccount_guarded (handle : StoreHandle) (faults : SqlFaults)
    (googleSub email : Text) (now wall : Instant) (fresh : Uuid) :
    Guarded (fun accountId => accountId.isSome = true)
      (upsertGoogleAccount accountIdFor handle faults googleSub email now wall fresh) := by
  unfold upsertGoogleAccount
  split_ifs
  · exact Guarded.pure none
  · refine (Guarded.transaction faults 5 fun db answer db' hbody => ?_).recover _ _
    obtain ⟨row, db₁, -, hbody₁⟩ := bind_ok hbody
    obtain ⟨_, db₂, -, hbody₂⟩ := bind_ok hbody₁
    cases row with
    | none =>
        obtain ⟨carried, db₃, -, hbody₃⟩ := bind_ok hbody₂
        obtain ⟨_, db₄, -, hbody₄⟩ := bind_ok hbody₃
        cases (pure_ok hbody₄).1
        exact .inl rfl
    | some row =>
        obtain ⟨_, db₃, -, hbody₃⟩ := bind_ok hbody₂
        cases (pure_ok hbody₃).1
        exact .inl rfl

theorem deleteAccount_guarded (handle : StoreHandle) (faults : SqlFaults) (accountId : Uuid)
    (now : Instant) :
    Guarded (· = true) (deleteAccount accountIdFor handle faults accountId now) := by
  unfold deleteAccount
  split_ifs
  · exact Guarded.pure false
  · refine (Guarded.transaction faults 8 fun db answer db' hbody => ?_).recover _ _
    obtain ⟨_, _, -, hbody₁⟩ := bind_ok hbody
    obtain ⟨_, _, -, hbody₂⟩ := bind_ok hbody₁
    obtain ⟨_, _, -, hbody₃⟩ := bind_ok hbody₂
    obtain ⟨_, _, -, hbody₄⟩ := bind_ok hbody₃
    obtain ⟨_, _, -, hbody₅⟩ := bind_ok hbody₄
    cases (pure_ok hbody₅).1
    exact .inl rfl

/-- An operation that raises, or that does not report its work done, changes nothing. -/
theorem SessionOp.guarded (handle : StoreHandle) (faults : SqlFaults) (op : SessionOp) :
    Guarded (· = true) (op.perform sha256Hexdigest accountIdFor handle faults) := by
  cases op with
  | save session => exact save_guarded sha256Hexdigest handle faults session
  | delete sessionId => exact deleteRows_guarded handle faults _
  | deleteAll => exact deleteRows_guarded handle faults _
  | deleteSessionsOf accountId => exact deleteRows_guarded handle faults _
  | purgeExpired cutoff createdCutoff now =>
      exact (purgeExpired_guarded handle faults cutoff createdCutoff now).map fun _ h =>
        by simpa using h
  | endSessionsBefore accountId cutoff =>
      exact (endSessionsBefore_guarded handle faults accountId cutoff).map fun _ h =>
        by simpa using h
  | upsertGoogleAccount googleSub email now wall fresh =>
      exact (upsertGoogleAccount_guarded accountIdFor handle faults googleSub email
        now wall fresh).map
        fun _ h => h
  | deleteAccount accountId now =>
      exact deleteAccount_guarded accountIdFor handle faults accountId now

/-! ### Reading a session back -/

theorem decodeRow_some {sessionId : Text} {row : SessionRow} {now notUsedBefore : Instant}
    {session : StoredSession} (h : decodeRow sessionId row now notUsedBefore = some session) :
    row.accountId = session.accountId ∧ isoformat session.createdAt = row.createdAt := by
  obtain ⟨lastUsedAt, hlastUsed, h₁⟩ := Option.bind_eq_some_iff.1 h
  obtain ⟨createdAt, hcreated, h₂⟩ := Option.bind_eq_some_iff.1 h₁
  split_ifs at h₂
  cases h₂
  exact ⟨rfl, isoformat_fromisoformat hcreated⟩

/-- A session that a checked fetch returns decodes a row of the table. -/
theorem fetchChecked_row {handle : StoreHandle} {faults : SqlFaults} {sessionId : Text}
    {notUsedBefore : Instant} {notCreatedBefore : Option Instant} {now : Instant}
    {db db' : SessionDb}
    {read : Bool} {session : StoredSession}
    (h : fetchChecked sha256Hexdigest handle faults sessionId notUsedBefore
      notCreatedBefore now db =
      .ok (read, some session) db') :
    ∃ row ∈ db.sessions, row.accountId = session.accountId ∧
      isoformat session.createdAt = row.createdAt := by
  unfold fetchChecked at h
  split_ifs at h
  · cases h
  · rcases eq_of_recover_ok h with h | h
    · obtain ⟨row, db₁, hselect, h₁⟩ := bind_ok h
      obtain ⟨hanswer, -⟩ := pure_ok h₁
      obtain ⟨row, hrow, hdecode⟩ := Option.bind_eq_some_iff.1 (Prod.mk.inj hanswer).2.symm
      have hfound := (execute_ok hselect).1
      rw [hrow] at hfound
      obtain ⟨haccount, hcreated⟩ := decodeRow_some hdecode
      exact ⟨row, List.mem_of_find?_eq_some hfound.symm, haccount, hcreated⟩
    · cases h

/-! ### The cutoff is final -/

/-- A sessions cutoff is final. In every state that any interleaving of the operations by any number
of processes reaches, no session row of an account was created at or before the cutoff of the
account, and no checked fetch returns one; a cutoff is never lower in a later state; and an
operation that raises, or reports that it has not done its work, leaves the database as it was. -/
theorem session_cutoff_final {world world' : SessionWorld}
    (hreach : Reaches sha256Hexdigest accountIdFor .empty world)
    (hlater : Reaches sha256Hexdigest accountIdFor world world') :
    (∀ row ∈ world.db.sessions, ∀ account ∈ world.db.accounts, account.accountId = row.accountId →
      ∀ cutoff ∈ account.sessionsValidAfter, ¬row.createdAt ≤ cutoff) ∧
    (∀ handle faults sessionId notUsedBefore notCreatedBefore now read session db,
      fetchChecked sha256Hexdigest handle faults sessionId notUsedBefore notCreatedBefore
        now world.db =
        .ok (read, some session) db →
      ∀ account ∈ world.db.accounts, account.accountId = session.accountId →
        ∀ cutoff : Instant,
          isoformat cutoff ∈ account.sessionsValidAfter → cutoff < session.createdAt) ∧
    (∀ account ∈ world.db.accounts, ∀ account' ∈ world'.db.accounts,
      account.accountId = account'.accountId →
      ∀ cutoff ∈ account.sessionsValidAfter, ∃ cutoff' ∈ account'.sessionsValidAfter,
        cutoff ≤ cutoff') ∧
    (∀ handle faults (op : SessionOp) raised db,
      op.perform sha256Hexdigest accountIdFor handle faults world.db =
        .error raised db → db = world.db) ∧
    (∀ handle faults (op : SessionOp) db,
      op.perform sha256Hexdigest accountIdFor handle faults world.db =
        .ok false db → db = world.db) := by
  obtain ⟨hfinal, -, -⟩ := final_empty.run sha256Hexdigest accountIdFor hreach
  obtain ⟨hfinal', hrises, -⟩ := hfinal.run sha256Hexdigest accountIdFor hlater
  refine ⟨?_, ?_, ?_, ?_, ?_⟩
  · exact fun row hrow account hmem hid cutoff hcutoff =>
      not_le.2 (hfinal.clear row hrow account hmem hid cutoff hcutoff)
  · intro handle faults sessionId notUsedBefore notCreatedBefore now read session db hfetch
      account hmem hid
      cutoff hcutoff
    obtain ⟨row, hrow, haccount, hcreated⟩ := fetchChecked_row sha256Hexdigest hfetch
    have hlt := hfinal.clear row hrow account hmem (hid.trans haccount.symm) _ hcutoff
    rw [← hcreated] at hlt
    exact isoformat_lt_iff.1 hlt
  · intro account hmem account' hmem' hid
    have hnamed : account'.accountId ∈ world.named := hid ▸ hfinal.accountsNamed account hmem
    obtain ⟨old, hold, hcontinues⟩ := hrises account' hmem' hnamed
    have heq : old = account :=
      List.inj_on_of_nodup_map hfinal.unique hold hmem (hcontinues.1.trans hid.symm)
    exact heq ▸ hcontinues.2
  · intro handle faults op raised db hraise
    rcases op.guarded sha256Hexdigest accountIdFor handle faults world.db with
      ⟨answer, s', hrun, -⟩ | ⟨raised', hrun⟩
    · rw [hrun] at hraise
      cases hraise
    · rw [hrun] at hraise
      cases hraise
      rfl
  · intro handle faults op db hanswer
    rcases op.guarded sha256Hexdigest accountIdFor handle faults world.db with
      ⟨answer, s', hrun, hdone⟩ | ⟨raised', hrun⟩
    · rw [hrun] at hanswer
      cases hanswer
      exact hdone.resolve_left Bool.false_ne_true
    · rw [hrun] at hanswer
      cases hanswer

end

/-- A sign-in, a sign-out everywhere, and a session that is saved a second later. -/
def signedOutWorld : SessionWorld :=
  let handle : StoreHandle := ⟨true, true, true, false⟩
  let operate := SessionWorld.operate id (fun _ => 7) handle fun _ => none
  let noon : Instant := ⟨63902865600000000, by decide⟩
  let later : Instant := ⟨63902865601000000, by decide⟩
  operate (.save ⟨['s'], 1, ['c'], later, later⟩)
    (operate (.endSessionsBefore 1 noon)
      (operate (.upsertGoogleAccount ['g'] ['e'] noon noon 1) .empty))

theorem signedOutWorld_reached : Reaches id (fun _ => 7) .empty signedOutWorld := by
  refine .tail (.tail (.single (.operate _ _ _ _ ?_)) (.operate _ _ _ _ ?_)) (.operate _ _ _ _ ?_)
  · intro fresh hfresh
    exact List.not_mem_nil
  · intro fresh hfresh
    cases hfresh
  · intro fresh hfresh
    cases hfresh

theorem session_cutoff_final_signedOut :
    signedOutWorld.db.sessions.length = 1 ∧
      ∀ row ∈ signedOutWorld.db.sessions, ∀ account ∈ signedOutWorld.db.accounts,
        account.accountId = row.accountId →
        ∀ cutoff ∈ account.sessionsValidAfter, ¬row.createdAt ≤ cutoff :=
  ⟨by decide +kernel, (session_cutoff_final id (fun _ => 7) signedOutWorld_reached .refl).1⟩

end Quorum
