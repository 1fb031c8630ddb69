import Quorum.AccountOnward

/-! Whose a session is: every session row, cached object and session under restore belongs to the
account that its token was made for, and a lookup finds a session only while its account's row can
be relied on. -/

namespace Quorum

open IsoTime Transaction

namespace AccountWorld

section

variable (sha256Hexdigest : Text → Text) (world : AccountWorld)

/-- The session is its token's account's, and that of an anonymous session has no row. -/
def Owns (session : HeldSession) : Prop :=
  world.owner (sha256Hexdigest session.sessionId) = some session.accountId ∧
    (session.maxAge = anonymousMaxAge → ¬world.HasAccount session.accountId)

structure Rooted : Prop where
  held : ∀ accountId, world.HasAccount accountId → accountId ∈ world.held
  named : world.held ⊆ world.named
  owned : ∀ digest accountId, world.owner digest = some accountId → accountId ∈ world.named
  rows : ∀ store ∈ world.store, ∀ row ∈ store.db.sessions,
    world.owner row.sessionDigest = some row.accountId
  ready : ∀ store ∈ world.store, store.handle.safetyReady = true → store.handle.accountsReady = true
  cached : world.repository.Caches (world.Owns sha256Hexdigest)

/-- What a lookup of a session has learnt. -/
def LookupHolds (sessionId : Text) : LookupPhase → Prop
  | .checking object =>
      ∃ session : HeldSession, world.repository.objects[object]? = some session ∧
        session.sessionId = sessionId
  | .kinding stored =>
      stored.sessionId = sessionId ∧ world.owner (sha256Hexdigest sessionId) = some stored.accountId
  | .judging session anonymous | .cutoffReading session anonymous =>
      session.sessionId = sessionId ∧ world.Owns sha256Hexdigest session ∧
        (anonymous = some true → ¬world.HasAccount session.accountId)
  | .expiring session _ | .admitting session =>
      session.sessionId = sessionId ∧ world.Owns sha256Hexdigest session ∧
        world.Cleared session.accountId
  | .answered (.found _) =>
      ∃ accountId, world.owner (sha256Hexdigest sessionId) = some accountId ∧
        world.Cleared accountId
  | _ => True

end

variable {sha256Hexdigest : Text → Text} {world world' : AccountWorld} {session : HeldSession}

theorem lasting_owns : SessionRepository.Lasting (world.Owns sha256Hexdigest) := fun _ _ _ h => h

theorem cleared_of_no_account {accountId : Uuid} (h : ¬world.HasAccount accountId) :
    world.Cleared accountId :=
  fun store hstore hrow => absurd ⟨store, hstore, hrow⟩ h

theorem Owns.onward (h : world.Owns sha256Hexdigest session) (honward : world.Onward world')
    (howned : ∀ digest accountId, world.owner digest = some accountId → accountId ∈ world.named) :
    world'.Owns sha256Hexdigest session :=
  ⟨honward.owner _ _ h.1, fun hage hrow => h.2 hage (honward.rows _ (howned _ _ h.1) hrow)⟩

theorem LookupHolds.onward {sessionId : Text} {phase : LookupPhase}
    (h : world.LookupHolds sha256Hexdigest sessionId phase) (honward : world.Onward world')
    (howned : ∀ digest accountId, world.owner digest = some accountId → accountId ∈ world.named) :
    world'.LookupHolds sha256Hexdigest sessionId phase := by
  have hmade : ∀ {session : HeldSession} {anonymous : Option Bool}, (session.sessionId = sessionId ∧
      world.Owns sha256Hexdigest session ∧
        (anonymous = some true → ¬world.HasAccount session.accountId)) →
      session.sessionId = sessionId ∧ world'.Owns sha256Hexdigest session ∧
        (anonymous = some true → ¬world'.HasAccount session.accountId) :=
    fun hmade => ⟨hmade.1, hmade.2.1.onward honward howned,
      fun hkind hrow => hmade.2.2 hkind (honward.rows _ (howned _ _ hmade.2.1.1) hrow)⟩
  have hclear : ∀ {session : HeldSession}, (session.sessionId = sessionId ∧
      world.Owns sha256Hexdigest session ∧ world.Cleared session.accountId) →
      session.sessionId = sessionId ∧ world'.Owns sha256Hexdigest session ∧
      world'.Cleared session.accountId :=
    fun hclear => ⟨hclear.1, hclear.2.1.onward honward howned,
      hclear.2.2.onward honward (howned _ _ hclear.2.1.1)⟩
  cases phase with
  | checking object =>
      obtain ⟨session, hobject, hid⟩ := h
      obtain ⟨session', hobject', hid'⟩ := honward.objects object session hobject
      exact ⟨session', hobject', hid'.trans hid⟩
  | kinding stored => exact ⟨h.1, honward.owner _ _ h.2⟩
  | judging session anonymous => exact hmade h
  | cutoffReading session anonymous => exact hmade h
  | expiring session anonymous => exact hclear h
  | admitting session => exact hclear h
  | answered lookup =>
      cases lookup with
      | found object =>
          obtain ⟨accountId, howner, hcleared⟩ := h
          exact ⟨accountId, honward.owner _ _ howner, hcleared.onward honward (howned _ _ howner)⟩
      | unchecked kind => trivial
      | refused => trivial
  | entering => trivial
  | ending => trivial
  | endingAt => trivial
  | unread => trivial
  | restoring => trivial
  | fetching => trivial

/-! ### A lookup's step -/

theorem fetchChecked_owner (hrooted : world.Rooted sha256Hexdigest) {store : OpenStore}
    (hstore : store ∈ world.store)
    {faults : SqlFaults} {sessionId : Text} {notUsedBefore now : Instant}
    {notCreatedBefore : Option Instant}
    {stored : StoredSession}
    (h : answered (fetchChecked sha256Hexdigest store.handle faults sessionId notUsedBefore
      notCreatedBefore now)
      store.db = some (true, some stored)) :
    stored.sessionId = sessionId ∧ world.owner (sha256Hexdigest sessionId)
      = some stored.accountId := by
  obtain ⟨db, hrun⟩ := answered_eq_some.mp h
  unfold fetchChecked at hrun
  split_ifs at hrun
  · cases hrun
  · rcases eq_of_recover_ok hrun with hrun | hfalse
    · obtain ⟨row, db₁, hselect, hanswer⟩ := bind_ok hrun
      obtain ⟨row, rfl, hdecode⟩ :=
        Option.bind_eq_some_iff.mp (Prod.mk.inj (pure_ok hanswer).1).2.symm
      have hfound := (execute_ok hselect).1.symm
      dsimp only at hfound
      have hfits := List.find?_some hfound
      rw [decide_eq_true_iff] at hfits
      have hdigest := hfits.1
      have howner := hrooted.rows store hstore row (List.mem_of_find?_eq_some hfound)
      rw [hdigest] at howner
      unfold decodeRow at hdecode
      obtain ⟨lastUsedAt, -, hdecode₁⟩ := Option.bind_eq_some_iff.mp hdecode
      obtain ⟨createdAt, -, hdecode₂⟩ := Option.bind_eq_some_iff.mp hdecode₁
      split_ifs at hdecode₂
      cases hdecode₂
      exact ⟨rfl, howner⟩
    · cases hfalse

theorem owns_restoredSession {settings : SessionSettings} {stored : StoredSession}
    {anonymous : Option Bool}
    (howner : world.owner (sha256Hexdigest stored.sessionId) = some stored.accountId)
    (hkind : anonymous = some true → ¬world.HasAccount stored.accountId) :
    world.Owns sha256Hexdigest (restoredSession settings stored anonymous) := by
  refine ⟨howner, fun hage => hkind ?_⟩
  by_contra hne
  have hage' : (if anonymous = some true then anonymousMaxAge else signedInMaxAge)
      = anonymousMaxAge := hage
  rw [if_neg hne] at hage'
  exact absurd hage' (by decide)

theorem not_hasAccount_of_kindOf {store : OpenStore} (hstore : store ∈ world.store)
    {faults : SqlFaults} {accountId : Uuid}
    (h : answered (kindOf store.handle faults accountId) store.db = some (some true)) :
    ¬world.HasAccount accountId := by
  rintro ⟨other, hother, hrow⟩
  cases Option.mem_unique hstore hother
  exact (kindOf_answer h).mp rfl hrow

/-- A cutoff that was read, or one of an id in no row, leaves the account's row reliable. -/
theorem cleared_of_sessionsValidAfter (hrooted : world.Rooted sha256Hexdigest) {store : OpenStore}
    (hstore : store ∈ world.store) {faults : SqlFaults} {accountId : Uuid} {cutoff : Option Instant}
    (h : answered (sessionsValidAfter store.handle faults accountId) store.db
      = some (true, cutoff)) :
    world.Cleared accountId := by
  intro other hother hrow
  cases Option.mem_unique hstore hother
  exact hrooted.ready store hstore (safetyReady_of_sessionsValidAfter hrow h)

theorem lookupChecking_holds (hrooted : world.Rooted sha256Hexdigest) {sessionId : Text}
    {object : ℕ} (h : world.LookupHolds sha256Hexdigest sessionId (.checking object))
    (faults : SqlFaults) :
    world.LookupHolds sha256Hexdigest sessionId
      (lookupChecking world.toAuthProcess faults object) := by
  obtain ⟨session, hobject, rfl⟩ := h
  have howns := hrooted.cached.objects session (List.mem_of_getElem? hobject)
  rw [lookupChecking, hobject]
  dsimp only
  split
  · rename_i hage
    exact ⟨session.accountId, howns.1, cleared_of_no_account (howns.2 hage)⟩
  · split
    · rename_i hstore
      exact ⟨session.accountId, howns.1, fun store hmem => by cases hstore.symm.trans hmem⟩
    · rename_i store hstore
      split
      · rename_i cutoff hread
        split
        · trivial
        · exact ⟨session.accountId, howns.1, cleared_of_sessionsValidAfter hrooted hstore hread⟩
      · rename_i hread
        exact ⟨session.accountId, howns.1, cleared_of_sessionsValidAfter hrooted hstore hread⟩
      · trivial
      · trivial

theorem lookupCutoff_holds (hrooted : world.Rooted sha256Hexdigest) {store : OpenStore}
    (hstore : store ∈ world.store) {sessionId : Text} {anonymous : Option Bool}
    (h : world.LookupHolds sha256Hexdigest sessionId (.cutoffReading session anonymous))
    (faults : SqlFaults) :
    world.LookupHolds sha256Hexdigest sessionId
      (lookupCutoff world.toAuthProcess store faults session anonymous) := by
  rw [lookupCutoff]
  split
  · trivial
  · rename_i hsafety
    rcases answered (sessionsValidAfter store.handle faults session.accountId) store.db with _ |
      ⟨read, cutoff⟩
    · trivial
    · dsimp only
      split
      · trivial
      · split
        · refine ⟨h.1, h.2.1, fun other hother _ => ?_⟩
          cases Option.mem_unique hstore hother
          exact hrooted.ready store hstore (not_not.mp hsafety)
        · split <;> trivial

theorem lookupHolds_elim {sessionId : Text} {opened : Option OpenStore}
    {next : OpenStore → LookupPhase}
    (h : ∀ store ∈ opened, world.LookupHolds sha256Hexdigest sessionId (next store)) :
    world.LookupHolds sha256Hexdigest sessionId (opened.elim (.answered .refused) next) := by
  cases opened with
  | none => trivial
  | some store => exact h store rfl

/-- What a lookup does to the repository, and what it has learnt after. -/
theorem LookupHolds.step (settings : SessionSettings) (hrooted : world.Rooted sha256Hexdigest)
    {sessionId : Text} {phase : LookupPhase} (h : world.LookupHolds sha256Hexdigest sessionId phase)
    (faults : SqlFaults) :
    let next := lookupStep sha256Hexdigest settings world.toAuthProcess faults sessionId phase
    next.1.Caches (world.Owns sha256Hexdigest) ∧
      { world with repository := next.1 }.LookupHolds sha256Hexdigest sessionId next.2 := by
  intro next
  have hcached := hrooted.cached
  cases phase with
  | entering =>
      have hpurge :=
        hcached.drops (SessionRepository.drops_purgeExpired world.repository world.clock)
      refine ⟨?_, ?_⟩
      · change (lookupEntering world.toAuthProcess sessionId).1.Caches _
        rw [lookupEntering]
        split
        · exact hpurge
        · split <;> exact hpurge
      · change { world with repository := (lookupEntering
          world.toAuthProcess sessionId).1 }.LookupHolds _ sessionId
          (lookupEntering world.toAuthProcess sessionId).2
        rw [lookupEntering]
        split
        · rename_i object hget
          exact hpurge.sessions sessionId object hget
        · split <;> trivial
  | checking object => exact ⟨hcached, lookupChecking_holds hrooted h faults⟩
  | ending accountId cutoff => exact ⟨hcached, trivial⟩
  | endingAt accountId cutoff now =>
      exact ⟨hcached.drops
        (SessionRepository.drops_endSessionsOf world.repository accountId cutoff now), trivial⟩
  | unread object =>
      change (lookupUnread world.toAuthProcess object).1.Caches _ ∧
        { world with repository := (lookupUnread world.toAuthProcess object).1 }.LookupHolds _
          sessionId
          (lookupUnread world.toAuthProcess object).2
      rw [lookupUnread]
      split
      · exact ⟨hcached, trivial⟩
      · split
        · split
          · exact ⟨hcached.drops (SessionRepository.drops_dropEnded _ _ _), trivial⟩
          · exact ⟨hcached, trivial⟩
        · split
          · exact ⟨hcached, trivial⟩
          · exact ⟨hcached, trivial⟩
  | restoring =>
      refine ⟨hcached, ?_⟩
      change LookupHolds _ _ sessionId
        (if world.store.isSome then .fetching world.clock else .answered .refused)
      split <;> trivial
  | fetching now =>
      refine ⟨hcached, ?_⟩
      change LookupHolds _ _ sessionId (world.store.elim (.answered .refused) fun store =>
        lookupFetching sha256Hexdigest world.toAuthProcess store faults sessionId now)
      refine lookupHolds_elim fun store hstore => ?_
      rw [lookupFetching]
      split
      · rename_i stored hfetch
        exact fetchChecked_owner hrooted hstore hfetch
      all_goals trivial
  | kinding stored =>
      refine ⟨hcached, ?_⟩
      change LookupHolds _ _ sessionId
        (world.store.elim (.answered .refused) fun store =>
          lookupKinding settings store faults stored)
      refine lookupHolds_elim fun store hstore => ?_
      rw [lookupKinding]
      split
      · rename_i anonymous hkind
        have hunnamed : anonymous = some true → ¬world.HasAccount stored.accountId := by
          rintro rfl
          exact not_hasAccount_of_kindOf hstore hkind
        obtain ⟨rfl, howner⟩ := h
        exact ⟨rfl, owns_restoredSession howner hunnamed, hunnamed⟩
      · trivial
  | judging session anonymous =>
      refine ⟨hcached, ?_⟩
      change LookupHolds _ _ sessionId (lookupJudging world.toAuthProcess session anonymous)
      rw [lookupJudging]
      split
      · trivial
      · split
        · trivial
        · split
          · rename_i hkind
            exact ⟨h.1, h.2.1, cleared_of_no_account (h.2.2 hkind)⟩
          · exact h
  | cutoffReading session anonymous =>
      refine ⟨hcached, ?_⟩
      change LookupHolds _ _ sessionId (world.store.elim (.answered .refused) fun store =>
        lookupCutoff world.toAuthProcess store faults session anonymous)
      exact lookupHolds_elim fun store hstore => lookupCutoff_holds hrooted hstore h faults
  | expiring session anonymous =>
      refine ⟨hcached, ?_⟩
      change LookupHolds _ _ sessionId (lookupExpiring world.toAuthProcess session anonymous)
      rw [lookupExpiring]
      split
      · split <;> trivial
      · exact h
  | admitting session =>
      refine ⟨(hcached.admitRestored h.2.1 world.clock).1, ?_⟩
      change LookupHolds _ _ sessionId
        (.answered ((world.repository.admitRestored session world.clock).2.elim .refused .found))
      cases (world.repository.admitRestored session world.clock).2 with
      | none => trivial
      | some object =>
          obtain ⟨rfl, howns, hcleared⟩ := h
          exact ⟨session.accountId, howns.1, hcleared⟩
  | answered lookup => exact ⟨hcached, h⟩

end AccountWorld

end Quorum
