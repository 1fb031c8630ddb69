import Quorum.SessionRepository

/-! The expiry of a session, in the three places that decide it: the purge and the read of the
store, which compare texts, and the check of a cached session, which compares times. -/

namespace Quorum

open IsoTime Transaction

variable {sha256Hexdigest : Text → Text} {idleLimit maxAge : ℕ} {now : Instant}

/-- What the WHERE clause of the read refuses. -/
def RefusedForAge (idleLimit maxAge : ℕ) (now : Instant) (row : SessionRow) : Prop :=
  ¬(isoformat (now.back idleLimit) ≤ row.lastUsedAt ∧ isoformat (now.back maxAge) ≤ row.createdAt)

/-- A stamp further ahead of the clock than the idle limit. -/
def FarAhead (idleLimit : ℕ) (now stamp : Instant) : Prop :=
  isImplausiblyFuture stamp now ((now.val : Int) - (now.back idleLimit).val)

instance (row : SessionRow) : Decidable (RefusedForAge idleLimit maxAge now row) :=
  inferInstanceAs (Decidable (¬_))

instance (stamp : Instant) : Decidable (FarAhead idleLimit now stamp) :=
  inferInstanceAs (Decidable (_ = true))

/-! ### Texts and times -/

theorem lt_mirror_iff {now cutoff stamp calendar : ℕ} (hcutoff : cutoff ≤ now)
    (hstamp : stamp < calendar) :
    min (2 * now - cutoff) (calendar - 1) < stamp ↔ (stamp : Int) - now > (now : Int) - cutoff := by
  omega

/-- The purge's text of the future and the read's tolerance have one edge. -/
theorem mirrored_lt_iff (now cutoff stamp : Instant) (hcutoff : cutoff ≤ now) :
    isoformat (mirrored now cutoff) < isoformat stamp ↔
      isImplausiblyFuture stamp now ((now.val : Int) - cutoff.val) := by
  rw [isoformat_lt_iff, isImplausiblyFuture, decide_eq_true_eq]
  exact lt_mirror_iff hcutoff stamp.isLt

/-- The store refuses a row for age exactly when the cached session of its ages is expired. -/
theorem refusedForAge_iff (session : HeldSession) :
    RefusedForAge session.idleLimit session.maxAge now
      (sessionRow sha256Hexdigest session.toStored) ↔
      session.isExpired now := by
  rw [RefusedForAge, HeldSession.isExpired, decide_eq_true_eq]
  show ¬(isoformat _ ≤ isoformat session.lastUsedAt ∧ isoformat _ ≤ isoformat session.createdAt) ↔ _
  rw [isoformat_le_iff, isoformat_le_iff, not_and_or, not_le, not_le, Instant.lt_back_iff,
    Instant.lt_back_iff]

/-! ### The purge and the read -/

/-- What a purge at the cutoffs of the clock deletes. -/
theorem mem_purge_iff {handle : StoreHandle} {faults : SqlFaults} (hopen : handle.closed = false)
    (hruns : faults 0 = none) {session : StoredSession} {db : SessionDb}
    (hrow : sessionRow sha256Hexdigest session ∈ db.sessions) :
    sessionRow sha256Hexdigest session ∈
        (after (purgeExpired handle faults (now.back idleLimit)
          (some (now.back maxAge)) now) db).sessions ↔
      ¬RefusedForAge idleLimit maxAge now (sessionRow sha256Hexdigest session) ∧
        ¬FarAhead idleLimit now session.lastUsedAt ∧ ¬FarAhead idleLimit now session.createdAt := by
  have hback := Instant.back_le now idleLimit
  rw [purgeExpired, if_neg (by rw [hopen]; exact Bool.false_ne_true), after_recover]
  unfold after execute
  rw [hruns]
  show sessionRow sha256Hexdigest session ∈ List.filter _ db.sessions ↔ _
  rw [List.mem_filter, decide_eq_true_eq, decide_eq_true_eq, FarAhead, FarAhead,
    ← mirrored_lt_iff now _ _ hback, ← mirrored_lt_iff now _ _ hback, RefusedForAge]
  show _ ∧ ¬(isoformat session.lastUsedAt < _ ∨ isoformat session.lastUsedAt > _ ∨
      isoformat session.createdAt < isoformat (now.back maxAge) ∨ isoformat session.createdAt > _) ↔
    ¬¬(_ ≤ isoformat session.lastUsedAt ∧ _ ≤ isoformat session.createdAt) ∧ _
  rw [not_not, ← not_lt, ← not_lt]
  tauto

/-- The one row of a session, as the read decodes it. -/
theorem decodeRow_sessionRow (session : StoredSession) (notUsedBefore : Instant) :
    decodeRow session.sessionId (sessionRow sha256Hexdigest session) now notUsedBefore
      = if isImplausiblyFuture session.lastUsedAt now ((now.val : Int) - notUsedBefore.val) ∨
            isImplausiblyFuture session.createdAt now
              ((now.val : Int) - notUsedBefore.val) then none
        else some session := by
  rw [decodeRow]
  show ((fromisoformat (isoformat session.lastUsedAt)).bind fun lastUsedAt =>
    (fromisoformat (isoformat session.createdAt)).bind fun createdAt => _) = _
  rw [fromisoformat_isoformat, fromisoformat_isoformat]
  rfl

/-- What a read at the cutoffs of the clock answers for a session with a row. -/
theorem fetchChecked_eq {handle : StoreHandle} {faults : SqlFaults} (hopen : handle.closed = false)
    (hruns : faults 0 = none) {session : StoredSession} {db : SessionDb}
    (hkeyed : (db.sessions.map SessionRow.sessionDigest).Nodup)
    (hrow : sessionRow sha256Hexdigest session ∈ db.sessions) :
    answered (fetchChecked sha256Hexdigest handle faults session.sessionId (now.back idleLimit)
        (some (now.back maxAge)) now) db =
      some (true, if RefusedForAge idleLimit maxAge now (sessionRow sha256Hexdigest session) ∨
        FarAhead idleLimit now session.lastUsedAt ∨
        FarAhead idleLimit now session.createdAt then none
      else some session) := by
  have hone : ∀ row ∈ db.sessions, row.sessionDigest = sha256Hexdigest session.sessionId →
      row = sessionRow sha256Hexdigest session :=
    fun row hmem hdigest => List.inj_on_of_nodup_map hkeyed hmem hrow hdigest
  let finds : SessionRow → Bool := fun row =>
    row.sessionDigest = sha256Hexdigest session.sessionId ∧
      isoformat (now.back idleLimit) ≤ row.lastUsedAt ∧
      isoformat (now.back maxAge) ≤ row.createdAt
  have hread : execute faults 0 (fun db : SessionDb => (db.sessions.find? finds, db)) db
      = .ok (db.sessions.find? finds) db := by
    rw [execute, hruns]
  have hrun : fetchChecked sha256Hexdigest handle faults session.sessionId (now.back idleLimit)
      (some (now.back maxAge)) now db
        = .ok (true, (db.sessions.find? finds).bind fun row =>
          decodeRow session.sessionId row now (now.back idleLimit)) db := by
    rw [fetchChecked, if_neg (by rw [hopen]; exact Bool.false_ne_true)]
    exact recover_ok ((bind_of_ok _ hread).trans rfl)
  rw [answered, hrun]
  dsimp only
  by_cases hage : RefusedForAge idleLimit maxAge now (sessionRow sha256Hexdigest session)
  · have hnone : db.sessions.find? finds = none := by
      rw [List.find?_eq_none]
      intro row hmem hfinds
      obtain ⟨hdigest, halive⟩ := of_decide_eq_true hfinds
      rw [hone row hmem hdigest] at halive
      exact hage halive
    rw [hnone, if_pos (.inl hage)]
    rfl
  · have hsome : db.sessions.find? finds = some (sessionRow sha256Hexdigest session) := by
      have hfinds : finds (sessionRow sha256Hexdigest session) = true :=
        decide_eq_true ⟨rfl, not_not.mp hage⟩
      obtain ⟨row, hfound⟩ := Option.isSome_iff_exists.mp (List.find?_isSome.mpr ⟨_, hrow, hfinds⟩)
      have hmatch : finds row = true := List.find?_some hfound
      obtain ⟨hdigest, -⟩ := of_decide_eq_true hmatch
      rw [hfound, hone row (List.mem_of_find?_eq_some hfound) hdigest]
    rw [hsome, Option.bind_some, decodeRow_sessionRow]
    simp only [FarAhead, hage, false_or]

/-! ### One boundary -/

/-- At every instant a purge leaves a row exactly if the read accepts it, the read refuses it for
its ages exactly if the cached session of the same ages is expired, and the stored texts compare as
the instants do. -/
theorem expiry_agrees (handle : StoreHandle) (faults : SqlFaults) (hopen : handle.closed = false)
    (hruns : faults 0 = none) (session : HeldSession) (db : SessionDb)
    (hkeyed : (db.sessions.map SessionRow.sessionDigest).Nodup)
    (hrow : sessionRow sha256Hexdigest session.toStored ∈ db.sessions) (now : Instant) :
    (sessionRow sha256Hexdigest
      session.toStored ∈ (after (purgeExpired handle faults (now.back session.idleLimit)
          (some (now.back session.maxAge)) now) db).sessions ↔
        answered
          (fetchChecked sha256Hexdigest handle faults session.sessionId (now.back session.idleLimit)
          (some (now.back session.maxAge)) now) db ≠ some (true, none)) ∧
      (RefusedForAge session.idleLimit session.maxAge now
        (sessionRow sha256Hexdigest session.toStored) ↔
        session.isExpired now) ∧
      ∀ stamp other : Instant, (isoformat stamp < isoformat other ↔ stamp < other) ∧
        (isoformat stamp ≤ isoformat other ↔ stamp ≤ other) := by
  refine ⟨?_, refusedForAge_iff session, fun stamp other => ⟨isoformat_lt_iff, isoformat_le_iff⟩⟩
  have hfetch := @fetchChecked_eq sha256Hexdigest session.idleLimit
    session.maxAge now _ _ hopen hruns _ _ hkeyed hrow
  rw [mem_purge_iff hopen hruns hrow, show session.sessionId = session.toStored.sessionId from rfl,
    hfetch]
  split_ifs with hrefused
  · simp only [ne_eq, not_true_eq_false, iff_false]
    tauto
  · push Not at hrefused
    simp only [ne_eq, Option.some.injEq, Prod.mk.injEq, reduceCtorEq, and_false, not_false_eq_true,
      iff_true]
    exact hrefused

/-- Noon of 1 January 2026. -/
def newYearNoon : Instant :=
  ⟨739616 * microsPerDay + 12 * 3600 * microsPerSecond,
    by unfold microsPerDay microsPerSecond maxDays; omega⟩

/-- A session used two hours ago to the microsecond, its idle limit. -/
def edgeSession : HeldSession where
  sessionId := "edge".toList
  accountId := 1
  csrfToken := []
  createdAt := newYearNoon.back (3 * sessionTtl)
  lastUsedAt := newYearNoon.back sessionTtl
  idleLimit := sessionTtl
  signInOnly := false
  maxAge := anonymousMaxAge
  kindKnown := true

/-- The session at its limit is alive for the read too. -/
theorem expiry_agrees_edge :
    answered (fetchChecked id ⟨true, true, true, false⟩ (fun _ => none) edgeSession.sessionId
        (newYearNoon.back edgeSession.idleLimit)
          (some (newYearNoon.back edgeSession.maxAge)) newYearNoon)
      ⟨[sessionRow id edgeSession.toStored], [], [], [], []⟩ ≠ some (true, none) := by
  refine (expiry_agrees ⟨true, true, true, false⟩ (fun _ => none) rfl rfl edgeSession
    ⟨[sessionRow id edgeSession.toStored],
      [], [], [], []⟩ (List.nodup_singleton _) (List.mem_singleton_self _)
    newYearNoon).1.mp ?_
  decide +kernel

end Quorum
