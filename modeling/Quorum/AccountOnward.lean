import Quorum.AccountRows

/-! What no turn undoes: the clock, the ids and tokens given out, the refusals, the readiness flags
and the cached objects only grow, and an id that was given out gets no account row later. -/

namespace Quorum

open IsoTime Transaction

namespace AccountWorld

/-- The store's accounts have a row of this id. -/
def HasAccount (world : AccountWorld) (accountId : Uuid) : Prop :=
  ∃ store ∈ world.store, store.db.HasAccount accountId

/-- What the store says of the account's row can be relied on. -/
def Cleared (world : AccountWorld) (accountId : Uuid) : Prop :=
  ∀ store ∈ world.store, store.db.HasAccount accountId → store.handle.accountsReady = true

structure Onward (world world' : AccountWorld) : Prop where
  clock : world.clock ≤ world'.clock
  named : world.named ⊆ world'.named
  held : world.held ⊆ world'.held
  refusals : world.refusals ⊆ world'.refusals
  owner : ∀ digest accountId, world.owner digest = some accountId →
    world'.owner digest = some accountId
  rows : ∀ accountId ∈ world.named, world'.HasAccount accountId → world.HasAccount accountId
  ready : ∀ store' ∈ world'.store, ∃ store ∈ world.store,
    (store.handle.accountsReady = true → store'.handle.accountsReady = true)
  objects : world.repository.KeepsObjects world'.repository

variable {world world' world'' : AccountWorld}

protected theorem Onward.refl (world : AccountWorld) : world.Onward world where
  clock := le_rfl
  named := List.Subset.refl _
  held := List.Subset.refl _
  refusals := List.Subset.refl _
  owner := fun _ _ h => h
  rows := fun _ _ h => h
  ready := fun store hstore => ⟨store, hstore, id⟩
  objects := fun _ session h => ⟨session, h, rfl⟩

protected theorem Onward.trans (h : world.Onward world') (h' : world'.Onward world'') :
    world.Onward world'' where
  clock := h.clock.trans h'.clock
  named := List.Subset.trans h.named h'.named
  held := List.Subset.trans h.held h'.held
  refusals := List.Subset.trans h.refusals h'.refusals
  owner := fun digest accountId howner =>
    h'.owner digest accountId (h.owner digest accountId howner)
  rows := fun accountId hnamed hrow =>
    h.rows accountId hnamed (h'.rows accountId (h.named hnamed) hrow)
  ready := fun store'' hstore'' => by
    obtain ⟨store', hstore', hready'⟩ := h'.ready store'' hstore''
    obtain ⟨store, hstore, hready⟩ := h.ready store' hstore'
    exact ⟨store, hstore, hready' ∘ hready⟩
  objects := fun object session hobject => by
    obtain ⟨session', hobject', hid⟩ := h.objects object session hobject
    obtain ⟨session'', hobject'', hid'⟩ := h'.objects object session' hobject'
    exact ⟨session'', hobject'', hid'.trans hid⟩

theorem Cleared.onward {accountId : Uuid} (hcleared : world.Cleared accountId)
    (h : world.Onward world') (hnamed : accountId ∈ world.named) : world'.Cleared accountId := by
  intro store' hstore' hrow
  obtain ⟨store, hstore, hready⟩ := h.ready store' hstore'
  obtain ⟨other, hother, hrow⟩ := h.rows accountId hnamed ⟨store', hstore', hrow⟩
  cases Option.mem_unique hstore hother
  exact hready (hcleared store hstore hrow)

/-! ### Each kind of turn -/

/-- A turn of threads and the repository. -/
theorem onward_threads (world : AccountWorld) {repository : SessionRepository}
    (hkeeps : world.repository.KeepsObjects repository) (lookups : List (Text × LookupPhase))
    (spends : List SpendCall) (deletions : List (Uuid × DeletionPhase)) :
    world.Onward
      { world with repository := repository, lookups := lookups, spends := spends, deletions := deletions } :=
  { Onward.refl world with objects := hkeeps }

theorem onward_withDb (world : AccountWorld) {run : OpenStore → SessionDb}
    (hrun : ∀ store ∈ world.store, ∀ accountId ∈ world.named,
      (run store).HasAccount accountId → store.db.HasAccount accountId) :
      world.Onward (world.withDb run) := by
  refine { Onward.refl world with rows := fun accountId hnamed hrow => ?_, ready := fun store' hstore' => ?_ }
  · obtain ⟨store', hstore', hrow⟩ := hrow
    obtain ⟨store, hstore, rfl⟩ := Option.map_eq_some_iff.mp hstore'
    exact ⟨store, hstore, hrun store hstore accountId hnamed hrow⟩
  · obtain ⟨store, hstore, rfl⟩ := Option.map_eq_some_iff.mp hstore'
    exact ⟨store, hstore, id⟩

theorem hasAccount_of_ids {db db' : SessionDb}
    (h : db'.accounts.map AccountRow.accountId = db.accounts.map AccountRow.accountId)
    {accountId : Uuid} (hrow : db'.HasAccount accountId) : db.HasAccount accountId := by
  obtain ⟨account, hmem, rfl⟩ := hrow
  have hid := List.mem_map_of_mem (f := AccountRow.accountId) hmem
  rw [h] at hid
  exact List.mem_map.mp hid

theorem onward_refresh (world : AccountWorld) (accountsOk safetyOk : Bool) :
    world.Onward (world.refresh accountsOk safetyOk) := by
  refine { Onward.refl world with rows := fun accountId _ hrow => ?_, ready := fun store' hstore' => ?_ }
  · obtain ⟨store', hstore', hrow⟩ := hrow
    obtain ⟨store, hstore, rfl⟩ := Option.map_eq_some_iff.mp hstore'
    exact ⟨store, hstore, hrow⟩
  · obtain ⟨store, hstore, rfl⟩ := Option.map_eq_some_iff.mp hstore'
    exact ⟨store, hstore, fun hready => by rw [hready, Bool.true_or]⟩

variable (sha256Hexdigest : Text → Text) (accountIdFor : Text → Uuid) (settings : SessionSettings)

theorem onward_operate (world : AccountWorld) (op : SessionOp) (faults : SqlFaults) :
    world.Onward (world.operate sha256Hexdigest accountIdFor op faults) := by
  rw [operate]
  split
  · rename_i hop
    obtain ⟨hother, hdraws⟩ := (Bool.and_eq_true _ _).mp hop
    refine Onward.trans (onward_withDb world fun store hstore accountId hnamed hrow => ?_)
      { Onward.refl _ with
        named := List.subset_append_right _ _
        held := List.subset_append_right _ _ }
    rcases op.other_rows sha256Hexdigest accountIdFor store.handle faults hother store.db with
      hkeeps | ⟨fresh, hfresh, hadds, -⟩
    · exact hasAccount_of_ids hkeeps.1 hrow
    · rcases hadds with hsame | hadded
      · exact hasAccount_of_ids hsame hrow
      · obtain ⟨account, hmem, hid⟩ := hrow
        have hmem' := List.mem_map_of_mem (f := AccountRow.accountId) hmem
        rw [hadded, hid] at hmem'
        rcases List.mem_append.mp hmem' with hold | hnew
        · exact List.mem_map.mp hold
        · cases List.mem_singleton.mp hnew
          rw [hfresh] at hdraws
          exact absurd hnamed (of_decide_eq_true hdraws)
  · exact Onward.refl world

theorem onward_issue (world : AccountWorld) {session : HeldSession}
    (hfresh : world.owner (sha256Hexdigest session.sessionId) = none) :
    world.Onward (world.issue sha256Hexdigest session) := by
  refine { Onward.refl world with
    named := List.subset_cons_self _ _
    owner := fun digest accountId howner => ?_
    objects := SessionRepository.keepsObjects_create _ _ _ }
  have hne : digest ≠ sha256Hexdigest session.sessionId := by
    rintro rfl
    rw [hfresh] at howner
    cases howner
  exact (Function.update_of_ne hne _ _).trans howner

theorem onward_mint (world : AccountWorld) (sessionId csrfToken : Text) (accountId : Uuid)
    (signInOnly : Bool) :
    world.Onward (world.mint sha256Hexdigest sessionId csrfToken accountId signInOnly) := by
  rw [mint]
  split
  · rename_i h
    exact onward_issue sha256Hexdigest world h.1
  · exact Onward.refl world

theorem onward_signIn (world : AccountWorld) (sessionId csrfToken : Text) (accountId : Uuid) :
    world.Onward (world.signIn sha256Hexdigest settings sessionId csrfToken accountId) := by
  rw [signIn]
  split
  · rename_i h
    exact onward_issue sha256Hexdigest world h.1
  · exact Onward.refl world

theorem onward_persist (world : AccountWorld) (object : ℕ) (faults : SqlFaults) :
    world.Onward (world.persist sha256Hexdigest object faults) := by
  rw [persist]
  split
  · refine onward_withDb world fun store hstore accountId hnamed hrow => ?_
    obtain ⟨account, hmem, hid⟩ := hrow
    exact ⟨account, (save_writes sha256Hexdigest store.handle faults _ store.db).1 ▸ hmem, hid⟩
  · exact Onward.refl world

theorem onward_revoke (world : AccountWorld) (sessionId : Text) (faults : SqlFaults) :
    world.Onward (world.revoke sha256Hexdigest sessionId faults) := by
  refine Onward.trans
    (onward_threads world (SessionRepository.drops_revoke _ sessionId world.clock).keepsObjects
    world.lookups world.spends world.deletions)
      (onward_withDb _ fun store hstore accountId hnamed hrow => ?_)
  exact hasAccount_of_ids (deleteRows_keepsAccounts store.handle faults _ store.db).1 hrow

/-! ### Lookups, meters and deletions -/

theorem keepsObjects_lookupStep (process : AuthProcess) (faults : SqlFaults) (sessionId : Text)
    (phase : LookupPhase) :
    process.repository.KeepsObjects
      (lookupStep sha256Hexdigest settings process faults sessionId phase).1 := by
  have hrefl := (SessionRepository.Drops.refl process.repository).keepsObjects
  cases phase with
  | entering =>
      have hpurge :=
        (SessionRepository.drops_purgeExpired process.repository process.clock).keepsObjects
      rw [lookupStep, lookupEntering]
      split
      · exact hpurge
      · split <;> exact hpurge
  | endingAt accountId cutoff now =>
      exact (SessionRepository.drops_endSessionsOf process.repository
        accountId cutoff now).keepsObjects
  | unread object =>
      rw [lookupStep, lookupUnread]
      split
      · exact hrefl
      · split
        · split
          · exact (SessionRepository.drops_dropEnded process.repository
              process.clock _).keepsObjects
          · exact hrefl
        · split <;> exact hrefl
  | admitting session =>
      exact SessionRepository.keepsObjects_admitRestored process.repository session process.clock
  | checking => exact hrefl
  | ending => exact hrefl
  | restoring => exact hrefl
  | fetching => exact hrefl
  | kinding => exact hrefl
  | judging => exact hrefl
  | cutoffReading => exact hrefl
  | expiring => exact hrefl
  | answered => exact hrefl

theorem onward_look (world : AccountWorld) (lookup : ℕ) (faults : SqlFaults) :
    world.Onward (world.look sha256Hexdigest settings lookup faults) := by
  rw [look]
  split
  · exact onward_threads world
      (keepsObjects_lookupStep sha256Hexdigest settings world.toAuthProcess faults _ _) _
      world.spends world.deletions
  · exact Onward.refl world

theorem keepsObjects_spendStep (world : AccountWorld) (faults : SqlFaults) (networkKey : Uuid)
    (call : SpendCall) :
    world.repository.KeepsObjects
      (world.spendStep sha256Hexdigest settings faults networkKey call).1 := by
  have hrefl := (SessionRepository.Drops.refl world.repository).keepsObjects
  rw [spendStep]
  split
  any_goals exact hrefl
  exact keepsObjects_lookupStep sha256Hexdigest settings world.toAuthProcess faults _ _

theorem onward_meter (world : AccountWorld) (call : ℕ) (faults : SqlFaults) (networkKey : Uuid) :
    world.Onward (world.meter sha256Hexdigest settings call faults networkKey) := by
  rw [meter]
  split
  · exact onward_threads world
      (keepsObjects_spendStep sha256Hexdigest settings world faults networkKey _)
      world.lookups _ world.deletions
  · exact Onward.refl world

theorem onward_deletionStep (world : AccountWorld) (faults : SqlFaults) (wall : Instant) (accountId : Uuid)
    (phase : DeletionPhase) :
    world.Onward (world.deletionStep accountIdFor faults wall accountId phase).1 := by
  have hkeeps : ∀ repository : SessionRepository, repository.objects = world.repository.objects →
      world.repository.KeepsObjects repository :=
    fun repository hsame object session hobject => ⟨session, hsame ▸ hobject, rfl⟩
  cases phase with
  | beginning => exact { Onward.refl world with objects := hkeeps (world.repository.beginDeletion accountId) rfl }
  | deletingRows =>
      refine onward_withDb world fun store hstore other hnamed hrow => ?_
      by_cases hdone : answered (deleteAccount accountIdFor store.handle faults accountId wall)
        store.db = some true
      · obtain ⟨account, hmem, hid⟩ := hrow
        rw [(deleteAccount_done accountIdFor hdone).1] at hmem
        exact ⟨account, (List.mem_filter.mp hmem).1, hid⟩
      · rwa [deleteAccount_undone accountIdFor hdone] at hrow
  | readingClock => exact Onward.refl world
  | refusing now =>
      exact { Onward.refl world with
        refusals := List.subset_cons_self _ _
        objects := hkeeps _ (SessionRepository.objects_revokeAccount _ accountId now) }
  | cleaning =>
      refine onward_withDb world fun store hstore other hnamed hrow => ?_
      exact hasAccount_of_ids (deleteRows_keepsAccounts store.handle faults _ store.db).1 hrow
  | ending answer => exact { Onward.refl world with objects := hkeeps (world.repository.endDeletion accountId) rfl }
  | ended answer => exact Onward.refl world

theorem onward_deletion (world : AccountWorld) (index : ℕ) (faults : SqlFaults) (wall : Instant) :
    world.Onward (world.deletion accountIdFor index faults wall) := by
  rw [deletion]
  split
  · exact (onward_deletionStep accountIdFor world faults wall _ _).trans
      { Onward.refl _ with }
  · exact Onward.refl world

/-! ### Turns -/

theorem onward_step (world : AccountWorld) (turn : AccountTurn) :
    world.Onward (world.step sha256Hexdigest accountIdFor settings turn) := by
  have hthreads : ∀ {repository : SessionRepository}, world.repository.KeepsObjects repository →
      world.Onward { world with repository := repository } :=
    fun hkeeps => onward_threads world hkeeps world.lookups world.spends world.deletions
  cases turn with
  | tick span => exact { Onward.refl world with clock := world.clock.le_ahead span }
  | operate op faults => exact onward_operate sha256Hexdigest accountIdFor world op faults
  | refresh accountsOk safetyOk => exact onward_refresh world accountsOk safetyOk
  | mint sessionId csrfToken accountId signInOnly =>
      exact onward_mint sha256Hexdigest world sessionId csrfToken accountId signInOnly
  | signIn sessionId csrfToken accountId =>
      exact onward_signIn sha256Hexdigest settings world sessionId csrfToken accountId
  | use object csrfToken =>
      exact hthreads (SessionRepository.keepsObjects_use _ object world.clock csrfToken)
  | persist object faults => exact onward_persist sha256Hexdigest world object faults
  | revoke sessionId faults => exact onward_revoke sha256Hexdigest world sessionId faults
  | endSessions accountId cutoff now =>
      rw [step]
      split
      · exact hthreads (SessionRepository.drops_endSessionsOf _ accountId cutoff now).keepsObjects
      · exact Onward.refl world
  | purge => exact hthreads (SessionRepository.drops_purgeExpired _ world.clock).keepsObjects
  | prune => exact hthreads (SessionRepository.drops_pruneEndedIds _ world.clock).keepsObjects
  | visit sessionId => exact { Onward.refl world with }
  | look lookup faults => exact onward_look sha256Hexdigest settings world lookup faults
  | spend context =>
      rw [step]
      split
      · exact { Onward.refl world with }
      · exact Onward.refl world
  | meter call faults networkKey =>
      exact onward_meter sha256Hexdigest settings world call faults networkKey
  | delete accountId => exact { Onward.refl world with }
  | deletion index faults wall => exact onward_deletion accountIdFor world index faults wall

end AccountWorld

end Quorum
