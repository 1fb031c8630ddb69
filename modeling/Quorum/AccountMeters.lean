import Quorum.AccountOwners

/-! What a call of the spend meter has learnt of its account in each phase, whatever happens between
its reads. Each turn keeps what the sessions, the lookups and the calls hold. -/

namespace Quorum

open IsoTime Transaction

/-- The key is the one of the account's row, as a call read it. -/
def KeyOf (accountId : Uuid) (keyRow : Option (Option AccountRow)) (key : Uuid) : Prop :=
  ∃ row, keyRow = some (some row) ∧ row.accountId = accountId ∧ key = row.spendKey.getD accountId

namespace AccountWorld

section

variable (sha256Hexdigest : Text → Text) (world : AccountWorld)

def SpendLearnt (sessionId : Text) (accountId : Uuid) (keyRow : Option (Option AccountRow)) :
    SpendPhase → Prop
  | .looking phase => world.LookupHolds sha256Hexdigest sessionId phase
  | .keying => world.Cleared accountId
  | .kinding =>
      (keyRow = some none ∧ ¬world.HasAccount accountId) ∨ KeyOf accountId keyRow accountId
  | .going anonymous =>
      (anonymous = some false → KeyOf accountId keyRow accountId) ∧
        (anonymous = some true → ¬world.HasAccount accountId)
  | _ => True

/-- A legacy call answers at once; any other call is for a session of its account. -/
structure SpendHolds (call : SpendCall) : Prop where
  legacy : call.context.legacy = true → call.phase = .starting ∨
    ∃ outcome, call.phase = .answered outcome
  owned : call.context.legacy = false →
    world.owner (sha256Hexdigest call.context.sessionId) = some call.context.accountId
  learnt : call.context.legacy = false →
    world.SpendLearnt sha256Hexdigest call.context.sessionId call.context.accountId
      call.keyRow call.phase

structure Informed : Prop extends world.Rooted sha256Hexdigest where
  lookups : ∀ entry ∈ world.lookups, world.LookupHolds sha256Hexdigest entry.1 entry.2
  spends : ∀ call ∈ world.spends, world.SpendHolds sha256Hexdigest call

end

variable {sha256Hexdigest : Text → Text} {world world' : AccountWorld} {call : SpendCall}

theorem SpendHolds.onward (h : world.SpendHolds sha256Hexdigest call)
    (honward : world.Onward world')
    (howned : ∀ digest accountId, world.owner digest = some accountId → accountId ∈ world.named) :
    world'.SpendHolds sha256Hexdigest call where
  legacy := h.legacy
  owned := fun hlegacy => honward.owner _ _ (h.owned hlegacy)
  learnt := fun hlegacy => by
    have hnamed := howned _ _ (h.owned hlegacy)
    have hlearnt := h.learnt hlegacy
    rcases call with ⟨context, phase, keyRow⟩
    cases phase with
    | starting => trivial
    | looking phase => exact LookupHolds.onward hlearnt honward howned
    | keying => exact Cleared.onward hlearnt honward hnamed
    | kinding =>
        exact hlearnt.imp_left fun hnone => ⟨hnone.1,
          fun hrow => hnone.2 (honward.rows _ hnamed hrow)⟩
    | going anonymous =>
        exact ⟨hlearnt.1, fun hkind hrow => hlearnt.2 hkind (honward.rows _ hnamed hrow)⟩
    | answered outcome => trivial

/-! ### A call's step -/

variable {accountId : Uuid} {store : OpenStore}

theorem rowNow_eq (hstore : store ∈ world.store) :
    world.rowNow accountId = accountOf accountId store.db := by
  rw [rowNow, Option.mem_def.mp hstore, Option.bind_some]

theorem accountId_of_accountOf {db : SessionDb} {row : AccountRow}
    (h : accountOf accountId db = some row) :
    row.accountId = accountId := by
  rw [accountOf] at h
  have hid := List.find?_some h
  exact of_decide_eq_true hid

/-- A key that was answered is the one of the account's row, or the id of an account that has
none. -/
theorem keyOf_of_spendKeyFor (hstore : store ∈ world.store) (hcleared : world.Cleared accountId)
    {faults : SqlFaults} {key : Uuid}
    (h : answered (spendKeyFor store.handle faults accountId) store.db = some (some key)) :
    (world.rowNow accountId = none ∧ ¬world.HasAccount accountId ∧ key = accountId) ∨
      KeyOf accountId (some (world.rowNow accountId)) key := by
  rw [rowNow_eq hstore]
  cases hrow : accountOf accountId store.db with
  | none =>
      have hnone : ¬store.db.HasAccount accountId := by
        intro haccount
        obtain ⟨row, hfound⟩ := exists_accountOf haccount
        cases hrow.symm.trans hfound
      refine .inl ⟨rfl, ?_, ?_⟩
      · rintro ⟨other, hother, haccount⟩
        cases Option.mem_unique hstore hother
        exact hnone haccount
      · by_cases hready : store.handle.accountsReady = true
        · rw [spendKeyFor_answer hready h, hrow]
          rfl
        · rw [spendKeyFor, if_pos hready] at h
          obtain ⟨db, hrun⟩ := answered_eq_some.mp h
          exact Option.some.inj (pure_ok hrun).1
  | some row =>
      have hready := hcleared store hstore (hasAccount_of_accountOf hrow)
      refine .inr ⟨row, rfl, accountId_of_accountOf hrow, ?_⟩
      rw [spendKeyFor_answer hready h, hrow]
      rfl

theorem spendKeying_holds (hstore : store ∈ world.store) (hcleared : world.Cleared accountId)
    (faults : SqlFaults) (sessionId : Text) :
    world.SpendLearnt sha256Hexdigest sessionId accountId (some (world.rowNow accountId))
      (spendKeying store faults accountId) := by
  rw [spendKeying]
  split
  · rename_i key hread
    split
    · trivial
    · rename_i hsame
      cases not_not.mp hsame
      exact (keyOf_of_spendKeyFor hstore hcleared hread).imp_left fun hnone =>
        ⟨congrArg some hnone.1, hnone.2.1⟩
  · trivial
  · trivial

theorem spendKinding_holds (hstore : store ∈ world.store) {sessionId : Text}
    {keyRow : Option (Option AccountRow)}
    (h : world.SpendLearnt sha256Hexdigest sessionId accountId keyRow .kinding)
    (faults : SqlFaults) :
    world.SpendLearnt sha256Hexdigest sessionId accountId keyRow
      (spendKinding store faults accountId) := by
  rw [spendKinding]
  split
  · rename_i anonymous hkind
    refine ⟨?_, ?_⟩
    · rintro rfl
      rcases h with ⟨-, hnone⟩ | hkey
      · have hrow : ¬store.db.HasAccount accountId := fun hrow => hnone ⟨store, hstore, hrow⟩
        exact absurd ((kindOf_answer hkind).mpr hrow) Bool.false_ne_true
      · exact hkey
    · rintro rfl
      exact not_hasAccount_of_kindOf hstore hkind
  · trivial

theorem spendLearnt_elim {sessionId : Text} {keyRow : Option (Option AccountRow)}
    {opened : Option OpenStore}
    {next : OpenStore → SpendPhase}
    (h : ∀ store ∈ opened,
      world.SpendLearnt sha256Hexdigest sessionId accountId keyRow (next store)) :
    world.SpendLearnt sha256Hexdigest sessionId accountId keyRow
      (opened.elim (.answered (.refused .raised)) next) := by
  cases opened with
  | none => trivial
  | some store => exact h store rfl

theorem spendLooked_holds {sessionId : Text}
    (howner : world.owner (sha256Hexdigest sessionId) = some accountId)
    {keyRow : Option (Option AccountRow)} {lookup : Lookup}
    (h : world.LookupHolds sha256Hexdigest sessionId (.answered lookup)) :
    world.SpendLearnt sha256Hexdigest sessionId accountId keyRow (world.spendLooked lookup) := by
  cases lookup with
  | found object =>
      obtain ⟨other, hother, hcleared⟩ := h
      cases howner.symm.trans hother
      rw [spendLooked]
      split
      · exact hcleared
      · rename_i hstore
        refine ⟨(fun hkind => by cases hkind), fun _ => ?_⟩
        rintro ⟨store, hmem, -⟩
        exact hstore (Option.isSome_iff_exists.mpr ⟨store, hmem⟩)
  | unchecked kind => trivial
  | refused => trivial

theorem SpendHolds.not_legacy (h : world.SpendHolds sha256Hexdigest call)
    (hstart : call.phase ≠ .starting) (hanswer : ∀ outcome, call.phase ≠ .answered outcome) :
    call.context.legacy = false := by
  rw [Bool.eq_false_iff]
  intro hlegacy
  rcases h.legacy hlegacy with hphase | ⟨outcome, hphase⟩
  · exact hstart hphase
  · exact hanswer outcome hphase

theorem SpendHolds.of_learnt (hlegacy : call.context.legacy = false)
    (howned : world.owner (sha256Hexdigest call.context.sessionId) = some call.context.accountId)
    (hlearnt : world.SpendLearnt sha256Hexdigest call.context.sessionId call.context.accountId
      call.keyRow call.phase) :
    world.SpendHolds sha256Hexdigest call where
  legacy := fun h => absurd (hlegacy.symm.trans h) Bool.false_ne_true
  owned := fun _ => howned
  learnt := fun _ => hlearnt

/-- What a call does to the repository, and what it has learnt after. -/
theorem SpendHolds.step (settings : SessionSettings) (hrooted : world.Rooted sha256Hexdigest)
    (h : world.SpendHolds sha256Hexdigest call) (faults : SqlFaults) (networkKey : Uuid) :
    let next := world.spendStep sha256Hexdigest settings faults networkKey call
    next.1.Caches (world.Owns sha256Hexdigest) ∧
      { world with repository := next.1 }.SpendHolds sha256Hexdigest next.2 := by
  intro next
  have hcached := hrooted.cached
  rcases call with ⟨context, phase, keyRow⟩
  cases phase with
  | starting =>
      refine ⟨hcached, ?_⟩
      by_cases hlegacy : context.legacy = true
      · have hnext : next.2 = ⟨context, .answered (.meter context.accountId false), keyRow⟩ :=
          if_pos hlegacy
        rw [hnext]
        exact ⟨fun _ => .inr ⟨_, rfl⟩, h.owned, fun _ => trivial⟩
      · have howned := h.owned (Bool.eq_false_iff.mpr hlegacy)
        have hnext : next.2 = if context.signInOnly then ⟨context,
            .answered (.refused .signInRequired), keyRow⟩
            else ⟨context, .looking .entering, keyRow⟩ := if_neg hlegacy
        rw [hnext]
        split
        · exact .of_learnt (Bool.eq_false_iff.mpr hlegacy) howned trivial
        · exact .of_learnt (Bool.eq_false_iff.mpr hlegacy) howned trivial
  | looking phase =>
      have hlegacy := h.not_legacy (by simp) (by simp)
      have howned := h.owned hlegacy
      have hlearnt := h.learnt hlegacy
      by_cases hanswer : ∃ lookup, phase = .answered lookup
      · obtain ⟨lookup, rfl⟩ := hanswer
        exact ⟨hcached, .of_learnt hlegacy howned (spendLooked_holds howned hlearnt)⟩
      · have hlooked := LookupHolds.step settings hrooted hlearnt faults
        have hnext : next =
            ((lookupStep sha256Hexdigest settings world.toAuthProcess faults
              context.sessionId phase).1,
            ⟨context,
              .looking
                (lookupStep sha256Hexdigest settings world.toAuthProcess faults context.sessionId
              phase).2, keyRow⟩) := by
          cases phase with
          | answered lookup => exact absurd ⟨lookup, rfl⟩ hanswer
          | _ => rfl
        rw [hnext]
        exact ⟨hlooked.1, .of_learnt hlegacy howned hlooked.2⟩
  | keying =>
      have hlegacy := h.not_legacy (by simp) (by simp)
      refine ⟨hcached, .of_learnt hlegacy (h.owned hlegacy) ?_⟩
      exact spendLearnt_elim fun store hstore =>
        spendKeying_holds hstore (h.learnt hlegacy) faults context.sessionId
  | kinding =>
      have hlegacy := h.not_legacy (by simp) (by simp)
      refine ⟨hcached, .of_learnt hlegacy (h.owned hlegacy) ?_⟩
      exact spendLearnt_elim fun store hstore => spendKinding_holds hstore (h.learnt hlegacy) faults
  | going anonymous =>
      have hlegacy := h.not_legacy (by simp) (by simp)
      exact ⟨hcached, .of_learnt hlegacy (h.owned hlegacy) trivial⟩
  | answered outcome => exact ⟨hcached, h.legacy, h.owned, fun _ => trivial⟩

/-! ### Turns -/

/-- What was held is held still, and what is new holds. -/
theorem Informed.of_onward (h : world.Informed sha256Hexdigest) (honward : world.Onward world')
    (hrooted : world'.Rooted sha256Hexdigest)
    (hlookups : ∀ entry ∈ world'.lookups,
      entry ∈ world.lookups ∨ world'.LookupHolds sha256Hexdigest entry.1 entry.2)
    (hspends : ∀ call ∈ world'.spends,
      call ∈ world.spends ∨ world'.SpendHolds sha256Hexdigest call) :
    world'.Informed sha256Hexdigest where
  toRooted := hrooted
  lookups := fun entry hentry => (hlookups entry hentry).elim
    (fun hold => (h.lookups entry hold).onward honward h.owned) id
  spends := fun call hcall => (hspends call hcall).elim
    (fun hold => (h.spends call hold).onward honward h.owned) id

/-- A turn of the repository alone. -/
theorem Rooted.withRepository (h : world.Rooted sha256Hexdigest) {repository : SessionRepository}
    (hcached : repository.Caches (world.Owns sha256Hexdigest)) :
    { world with repository := repository }.Rooted sha256Hexdigest :=
  ⟨h.held, h.named, h.owned, h.rows, h.ready, hcached⟩

theorem Rooted.withDb (h : world.Rooted sha256Hexdigest) {run : OpenStore → SessionDb}
    (haccounts : ∀ store ∈ world.store, ∀ accountId, (run store).HasAccount accountId →
      store.db.HasAccount accountId)
    (hsessions : ∀ store ∈ world.store, ∀ row ∈ (run store).sessions,
      world.owner row.sessionDigest = some row.accountId) :
    (world.withDb run).Rooted sha256Hexdigest := by
  have hrow : ∀ accountId, (world.withDb run).HasAccount accountId →
      world.HasAccount accountId := by
    rintro accountId ⟨store', hstore', hrow⟩
    obtain ⟨store, hstore, rfl⟩ := Option.map_eq_some_iff.mp hstore'
    exact ⟨store, hstore, haccounts store hstore accountId hrow⟩
  refine ⟨fun accountId hrow' => h.held accountId (hrow accountId hrow'), h.named,
    h.owned, ?_, ?_, ?_⟩
  · intro store' hstore' row hmem
    obtain ⟨store, hstore, rfl⟩ := Option.map_eq_some_iff.mp hstore'
    exact hsessions store hstore row hmem
  · intro store' hstore'
    obtain ⟨store, hstore, rfl⟩ := Option.map_eq_some_iff.mp hstore'
    exact h.ready store hstore
  · exact h.cached.mono fun session howns => ⟨howns.1,
      fun hage hrow' => howns.2 hage (hrow _ hrow')⟩

theorem Rooted.operate (h : world.Rooted sha256Hexdigest) (accountIdFor : Text → Uuid)
    (op : SessionOp) (faults : SqlFaults) :
    (world.operate sha256Hexdigest accountIdFor op faults).Rooted sha256Hexdigest := by
  have honward := onward_operate sha256Hexdigest accountIdFor world op faults
  rw [AccountWorld.operate] at honward ⊢
  split
  · rename_i hop
    rw [if_pos hop] at honward
    have hother := ((Bool.and_eq_true _ _).mp hop).1
    refine ⟨?_, ?_, ?_, ?_, ?_, ?_⟩
    · rintro accountId ⟨store', hstore', account, hmem, rfl⟩
      refine List.mem_append_left _ ?_
      rw [Option.mem_def.mp hstore']
      exact List.mem_map_of_mem hmem
    · intro accountId hheld
      rcases List.mem_append.mp hheld with hid | hold
      · cases hstore : world.store with
        | none =>
            rw [AccountWorld.withDb, hstore] at hid
            cases hid
        | some store =>
            rw [AccountWorld.withDb, hstore] at hid
            change accountId ∈ (Transaction.after
              (op.perform sha256Hexdigest accountIdFor store.handle faults)
              store.db).accounts.map AccountRow.accountId at hid
            have hknown : accountId ∈ store.db.accounts.map AccountRow.accountId →
                accountId ∈ world.named := by
              intro hmem
              obtain ⟨account, hmem, hid⟩ := List.mem_map.mp hmem
              exact h.named (h.held accountId ⟨store, hstore, account, hmem, hid⟩)
            rcases op.other_rows sha256Hexdigest accountIdFor store.handle faults
              hother store.db with
              hkeeps | ⟨fresh, hfresh, hsame | hadded, -⟩
            · exact List.mem_append_right _ (hknown (hkeeps.1 ▸ hid))
            · exact List.mem_append_right _ (hknown (hsame ▸ hid))
            · rw [hadded] at hid
              rcases List.mem_append.mp hid with hid | hid
              · exact List.mem_append_right _ (hknown hid)
              · cases List.mem_singleton.mp hid
                exact List.mem_append_left _ (Option.mem_toList.mpr hfresh)
      · exact List.mem_append_right _ (h.named hold)
    · exact fun digest accountId howner => List.mem_append_right _ (h.owned digest accountId howner)
    · intro store' hstore' row hmem
      obtain ⟨store, hstore, rfl⟩ := Option.map_eq_some_iff.mp hstore'
      refine h.rows store hstore row ?_
      rcases op.other_rows sha256Hexdigest accountIdFor store.handle faults hother store.db with
        hkeeps | ⟨fresh, -, -, hsessions⟩
      · exact hkeeps.2 row hmem
      · exact hsessions ▸ hmem
    · intro store' hstore'
      obtain ⟨store, hstore, rfl⟩ := Option.map_eq_some_iff.mp hstore'
      exact h.ready store hstore
    · exact h.cached.mono fun session howns => howns.onward honward h.owned
  · exact h

theorem Rooted.refresh (h : world.Rooted sha256Hexdigest) (accountsOk safetyOk : Bool) :
    (world.refresh accountsOk safetyOk).Rooted sha256Hexdigest := by
  have hrow : ∀ accountId, (world.refresh accountsOk safetyOk).HasAccount accountId →
      world.HasAccount accountId := by
    rintro accountId ⟨store', hstore', hrow⟩
    obtain ⟨store, hstore, rfl⟩ := Option.map_eq_some_iff.mp hstore'
    exact ⟨store, hstore, hrow⟩
  refine ⟨fun accountId hrow' => h.held accountId (hrow accountId hrow'), h.named,
    h.owned, ?_, ?_, ?_⟩
  · intro store' hstore' row hmem
    obtain ⟨store, hstore, rfl⟩ := Option.map_eq_some_iff.mp hstore'
    exact h.rows store hstore row hmem
  · intro store' hstore' hsafety
    obtain ⟨store, hstore, rfl⟩ := Option.map_eq_some_iff.mp hstore'
    dsimp only at hsafety ⊢
    rw [Bool.or_eq_true] at hsafety ⊢
    rcases hsafety with hready | hraised
    · exact .inl (h.ready store hstore hready)
    · exact .inr ((Bool.and_eq_true _ _).mp hraised).1
  · exact h.cached.mono fun session howns => ⟨howns.1,
      fun hage hrow' => howns.2 hage (hrow _ hrow')⟩

theorem Rooted.issue (h : world.Rooted sha256Hexdigest) {session : HeldSession}
    (hfresh : world.owner (sha256Hexdigest session.sessionId) = none)
    (hage : session.maxAge = anonymousMaxAge → ¬world.HasAccount session.accountId) :
    (world.issue sha256Hexdigest session).Rooted sha256Hexdigest := by
  have honward := onward_issue sha256Hexdigest world hfresh
  refine ⟨h.held, fun _ hheld => List.mem_cons_of_mem _ (h.named hheld), ?_, ?_, h.ready, ?_⟩
  · intro digest accountId howner
    by_cases hsame : digest = sha256Hexdigest session.sessionId
    · have hupdate : Function.update world.owner (sha256Hexdigest session.sessionId)
          (some session.accountId) digest =
          some session.accountId := hsame ▸ Function.update_self _ _ _
      cases hupdate.symm.trans howner
      exact List.mem_cons_self
    · exact List.mem_cons_of_mem _
        (h.owned digest accountId ((Function.update_of_ne hsame _ _).symm.trans howner))
  · exact fun store hstore row hmem => honward.owner _ _ (h.rows store hstore row hmem)
  · have hcached := h.cached.mono fun session howns => howns.onward honward h.owned
    exact hcached.create ⟨Function.update_self _ _ _, hage⟩ world.clock

theorem Rooted.persist (h : world.Rooted sha256Hexdigest) (object : ℕ) (faults : SqlFaults) :
    (world.persist sha256Hexdigest object faults).Rooted sha256Hexdigest := by
  rw [AccountWorld.persist]
  split
  · rename_i session hpersistable
    obtain ⟨hobject, -⟩ := Option.filter_eq_some_iff.mp hpersistable
    have howns := h.cached.objects session (List.mem_of_getElem? hobject)
    refine h.withDb ?_ ?_
    · rintro store hstore accountId ⟨account, hmem, hid⟩
      exact ⟨account, (save_writes sha256Hexdigest store.handle faults _ store.db).1 ▸ hmem, hid⟩
    · intro store hstore row hmem
      rcases (save_writes sha256Hexdigest store.handle faults _ store.db).2 row hmem with rfl | hold
      · exact howns.1
      · exact h.rows store hstore row hold
  · exact h

theorem Rooted.revoke (h : world.Rooted sha256Hexdigest) (sessionId : Text) (faults : SqlFaults) :
    (world.revoke sha256Hexdigest sessionId faults).Rooted sha256Hexdigest := by
  refine Rooted.withDb
    (h.withRepository (h.cached.drops (SessionRepository.drops_revoke _ sessionId world.clock)))
    ?_ ?_
  · exact fun store hstore accountId hrow =>
      hasAccount_of_ids (deleteRows_keepsAccounts store.handle faults _ store.db).1 hrow
  · exact fun store hstore row hmem =>
      h.rows store hstore row ((deleteRows_keepsAccounts store.handle faults _ store.db).2 row hmem)

theorem Rooted.deletionStep (h : world.Rooted sha256Hexdigest) (accountIdFor : Text → Uuid)
    (faults : SqlFaults) (wall : Instant) (accountId : Uuid) (phase : DeletionPhase) :
    (world.deletionStep accountIdFor faults wall accountId phase).1.Rooted sha256Hexdigest := by
  cases phase with
  | beginning => exact h.withRepository ⟨h.cached.objects, h.cached.sessions⟩
  | deletingRows =>
      have hrows : ∀ store : OpenStore,
          let db :=
            Transaction.after (deleteAccount accountIdFor store.handle faults accountId wall)
              store.db
          (∀ account ∈ db.accounts, account ∈ store.db.accounts) ∧
            ∀ row ∈ db.sessions, row ∈ store.db.sessions := by
        intro store db
        by_cases hdone : answered (deleteAccount accountIdFor store.handle faults accountId wall)
          store.db = some true
        · obtain ⟨haccounts, hsessions⟩ := deleteAccount_done accountIdFor hdone
          exact ⟨fun _ hmem => (List.mem_filter.mp (haccounts ▸ hmem)).1,
            fun _ hmem => (List.mem_filter.mp (hsessions ▸ hmem)).1⟩
        · have hsame : db = store.db := deleteAccount_undone accountIdFor hdone
          exact hsame ▸ ⟨fun _ hmem => hmem, fun _ hmem => hmem⟩
      refine h.withDb ?_ ?_
      · rintro store - other ⟨account, hmem, hid⟩
        exact ⟨account, (hrows store).1 account hmem, hid⟩
      · exact fun store hstore row hmem => h.rows store hstore row ((hrows store).2 row hmem)
  | readingClock => exact h
  | refusing now =>
      exact ⟨h.held, h.named, h.owned, h.rows, h.ready, h.cached.revokeAccount accountId now⟩
  | cleaning =>
      refine h.withDb ?_ ?_
      · exact fun store hstore accountId hrow =>
          hasAccount_of_ids (deleteRows_keepsAccounts store.handle faults _ store.db).1 hrow
      · exact fun store hstore row hmem =>
          h.rows store hstore row
            ((deleteRows_keepsAccounts store.handle faults _ store.db).2 row hmem)
  | ending answer => exact h.withRepository ⟨h.cached.objects, h.cached.sessions⟩
  | ended answer => exact h

/-- Threads that did not move hold what they held. -/
theorem Informed.of_rooted (h : world.Informed sha256Hexdigest) (honward : world.Onward world')
    (hrooted : world'.Rooted sha256Hexdigest) (hlookups : world'.lookups = world.lookups)
    (hspends : world'.spends = world.spends) : world'.Informed sha256Hexdigest :=
  h.of_onward honward hrooted (fun _ hentry => .inl (hlookups ▸ hentry)) fun _ hcall =>
    .inl (hspends ▸ hcall)

variable (settings : SessionSettings)

theorem Informed.look (h : world.Informed sha256Hexdigest) (lookup : ℕ) (faults : SqlFaults) :
    (world.look sha256Hexdigest settings lookup faults).Informed sha256Hexdigest := by
  have honward := onward_look sha256Hexdigest settings world lookup faults
  rw [AccountWorld.look] at honward ⊢
  cases hentry : world.lookups[lookup]? with
  | none => exact h
  | some entry =>
      obtain ⟨sessionId, phase⟩ := entry
      rw [hentry] at honward
      obtain ⟨hcached, hholds⟩ :=
        (h.lookups _ (List.mem_of_getElem? hentry)).step settings h.toRooted faults
      refine h.of_onward honward ⟨h.held, h.named, h.owned, h.rows,
        h.ready, hcached⟩ ?_ fun call hcall => .inl hcall
      intro entry hmem
      rcases List.mem_or_eq_of_mem_set hmem with hold | rfl
      · exact .inl hold
      · exact .inr hholds

theorem Informed.meter (h : world.Informed sha256Hexdigest) (call : ℕ) (faults : SqlFaults)
    (networkKey : Uuid) :
    (world.meter sha256Hexdigest settings call faults networkKey).Informed sha256Hexdigest := by
  have honward := onward_meter sha256Hexdigest settings world call faults networkKey
  rw [AccountWorld.meter] at honward ⊢
  cases hcall : world.spends[call]? with
  | none => exact h
  | some current =>
      rw [hcall] at honward
      obtain ⟨hcached, hholds⟩ :=
        (h.spends current (List.mem_of_getElem? hcall)).step settings h.toRooted faults networkKey
      refine h.of_onward honward ⟨h.held, h.named, h.owned, h.rows, h.ready, hcached⟩
        (fun entry hentry => .inl hentry) ?_
      intro other hmem
      rcases List.mem_or_eq_of_mem_set hmem with hold | rfl
      · exact .inl hold
      · exact .inr ⟨hholds.legacy, hholds.owned, hholds.learnt⟩

theorem Informed.step (h : world.Informed sha256Hexdigest) (accountIdFor : Text → Uuid)
    (turn : AccountTurn) :
    (world.step sha256Hexdigest accountIdFor settings turn).Informed sha256Hexdigest := by
  have honward := onward_step sha256Hexdigest accountIdFor settings world turn
  have hrooted := h.toRooted
  cases turn with
  | tick span =>
      exact h.of_rooted honward ⟨h.held, h.named, h.owned, h.rows, h.ready, h.cached⟩ rfl rfl
  | operate op faults =>
      refine h.of_rooted honward (hrooted.operate accountIdFor op faults) ?_ ?_
      all_goals
        rw [AccountWorld.step, AccountWorld.operate]
        split <;> rfl
  | refresh accountsOk safetyOk =>
      exact h.of_rooted honward (hrooted.refresh accountsOk safetyOk) rfl rfl
  | mint sessionId csrfToken accountId signInOnly =>
      rw [AccountWorld.step, AccountWorld.mint] at honward ⊢
      split
      · rename_i hfresh
        rw [if_pos hfresh] at honward
        refine h.of_rooted honward (hrooted.issue hfresh.1 fun _ hrow => ?_) rfl rfl
        exact hfresh.2 (h.named (h.held accountId hrow))
      · exact h
  | signIn sessionId csrfToken accountId =>
      rw [AccountWorld.step, AccountWorld.signIn] at honward ⊢
      split
      · rename_i hfresh
        rw [if_pos hfresh] at honward
        exact h.of_rooted honward (hrooted.issue hfresh.1 fun hage =>
          absurd (show signedInMaxAge = anonymousMaxAge from hage) (by decide)) rfl rfl
      · exact h
  | use object csrfToken =>
      exact h.of_rooted honward
        (hrooted.withRepository (h.cached.use lasting_owns object world.clock csrfToken)) rfl rfl
  | persist object faults =>
      refine h.of_rooted honward (hrooted.persist object faults) ?_ ?_
      all_goals
        rw [AccountWorld.step, AccountWorld.persist]
        split <;> rfl
  | revoke sessionId faults => exact h.of_rooted honward (hrooted.revoke sessionId faults) rfl rfl
  | endSessions accountId cutoff now =>
      rw [AccountWorld.step] at honward ⊢
      split
      · rename_i hnow
        rw [if_pos hnow] at honward
        exact h.of_rooted honward
          (hrooted.withRepository
            (h.cached.drops (SessionRepository.drops_endSessionsOf _ accountId cutoff now))) rfl rfl
      · exact h
  | purge =>
      exact h.of_rooted honward
        (hrooted.withRepository
          (h.cached.drops (SessionRepository.drops_purgeExpired _ world.clock))) rfl rfl
  | prune =>
      exact h.of_rooted honward
        (hrooted.withRepository
          (h.cached.drops (SessionRepository.drops_pruneEndedIds _ world.clock))) rfl rfl
  | visit sessionId =>
      refine h.of_onward honward ⟨h.held, h.named, h.owned, h.rows,
        h.ready, h.cached⟩ ?_ fun call hcall => .inl hcall
      intro entry hmem
      rcases List.mem_append.mp hmem with hold | hnew
      · exact .inl hold
      · cases List.mem_singleton.mp hnew
        exact .inr trivial
  | look lookup faults => exact h.look settings lookup faults
  | spend context =>
      rw [AccountWorld.step] at honward ⊢
      split
      · rename_i hcontext
        rw [if_pos hcontext] at honward
        refine h.of_onward honward ⟨h.held, h.named, h.owned, h.rows, h.ready, h.cached⟩
          (fun entry hentry => .inl hentry) ?_
        intro call hmem
        rcases List.mem_append.mp hmem with hold | hnew
        · exact .inl hold
        · cases List.mem_singleton.mp hnew
          refine .inr ⟨fun _ => .inl rfl, fun hlegacy => ?_, fun _ => trivial⟩
          exact hcontext.resolve_left fun h => absurd (hlegacy.symm.trans h) Bool.false_ne_true
      · exact h
  | meter call faults networkKey => exact h.meter settings call faults networkKey
  | delete accountId =>
      exact h.of_rooted honward ⟨h.held, h.named, h.owned, h.rows, h.ready, h.cached⟩ rfl rfl
  | deletion index faults wall =>
      rw [AccountWorld.step, AccountWorld.deletion] at honward ⊢
      cases hentry : world.deletions[index]? with
      | none => exact h
      | some entry =>
          obtain ⟨accountId, phase⟩ := entry
          rw [hentry] at honward
          have hnext := hrooted.deletionStep accountIdFor faults wall accountId phase
          refine h.of_rooted honward
            ⟨hnext.held, hnext.named, hnext.owned, hnext.rows, hnext.ready, hnext.cached⟩ ?_ ?_
          all_goals cases phase <;> rfl

end AccountWorld

end Quorum
