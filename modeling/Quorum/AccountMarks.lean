import Quorum.AccountWorld

/-! What the sections of the session repository leave alone: most only drop sessions from the cache,
the objects they cache keep what an object is made with, and only a deletion touches its marks. -/

namespace Quorum

open IsoTime

namespace SessionRepository

/-! ### Drops -/

/-- Sessions may have left the cache; the objects and the marks of deletions are the same. -/
structure Drops (repository repository' : SessionRepository) : Prop where
  objects : repository'.objects = repository.objects
  sessions : ∀ sessionId object, repository'.sessions.get? sessionId = some object →
    repository.sessions.get? sessionId = some object
  deletedAccounts : repository'.deletedAccounts = repository.deletedAccounts
  deleting : repository'.deleting = repository.deleting

variable {repository repository' : SessionRepository}

protected theorem Drops.refl (repository : SessionRepository) : repository.Drops repository :=
  ⟨rfl, fun _ _ h => h, rfl, rfl⟩

protected theorem Drops.trans {repository'' : SessionRepository} (h : repository.Drops repository')
    (h' : repository'.Drops repository'') : repository.Drops repository'' where
  objects := h'.objects.trans h.objects
  sessions := fun sessionId object hget =>
    h.sessions sessionId object (h'.sessions sessionId object hget)
  deletedAccounts := h'.deletedAccounts.trans h.deletedAccounts
  deleting := h'.deleting.trans h.deleting

theorem Drops.foldl {drop : SessionRepository → HeldSession → SessionRepository}
    (hdrop : ∀ (left : SessionRepository) session, left.Drops (drop left session))
    (sessions : List HeldSession) (repository : SessionRepository) :
    repository.Drops (sessions.foldl drop repository) := by
  induction sessions generalizing repository with
  | nil => exact .refl repository
  | cons session sessions ih => exact (hdrop repository session).trans (ih _)

theorem drops_pop (repository : SessionRepository) (sessionId : Text) :
    repository.Drops { repository with sessions := repository.sessions.pop sessionId } := by
  refine ⟨rfl, fun other object hget => ?_, rfl, rfl⟩
  rw [Dict.get?_pop] at hget
  split at hget
  · cases hget
  · exact hget

theorem drops_recordEnded (repository : SessionRepository) (session : HeldSession) (now : Instant) :
    repository.Drops (repository.recordEnded session now) := by
  rw [recordEnded]
  split
  · exact .refl repository
  · exact ⟨rfl, fun _ _ h => h, rfl, rfl⟩

theorem drops_dropEnded (repository : SessionRepository) (now : Instant) (session : HeldSession) :
    repository.Drops (repository.dropEnded now session) := by
  rw [dropEnded]
  split
  · exact (drops_pop repository session.sessionId).trans (drops_recordEnded _ session now)
  · exact drops_pop repository session.sessionId

theorem drops_purgeExpired (repository : SessionRepository) (now : Instant) :
    repository.Drops (repository.purgeExpired now) :=
  Drops.foldl (fun left session => drops_dropEnded left now session) _ repository

theorem drops_pruneEndedIds (repository : SessionRepository) (now : Instant) :
    repository.Drops (repository.pruneEndedIds now) := ⟨rfl, fun _ _ h => h, rfl, rfl⟩

theorem drops_endAll (repository : SessionRepository) (now : Instant) (ended : List HeldSession) :
    repository.Drops (repository.endAll now ended) := by
  refine Drops.foldl (fun left session => ?_) ended repository
  exact (drops_pop left session.sessionId).trans (drops_recordEnded _ session now)

theorem drops_endSessionsOf (repository : SessionRepository) (accountId : Uuid)
    (cutoff now : Instant) :
    repository.Drops (repository.endSessionsOf accountId cutoff now) := by
  rw [endSessionsOf]
  refine Drops.trans ?_ (drops_endAll _ now _)
  exact ⟨rfl, fun _ _ h => h, rfl, rfl⟩

theorem drops_revoke (repository : SessionRepository) (sessionId : Text) (now : Instant) :
    repository.Drops (repository.revoke sessionId now) := by
  have hrecorded : ∀ session,
      repository.Drops
        ({ repository with sessions := repository.sessions.pop sessionId }.recordEnded
          session now) :=
    fun session => (drops_pop repository sessionId).trans (drops_recordEnded _ session now)
  rw [revoke]
  cases (repository.sessions.get? sessionId).bind fun object => repository.objects[object]? with
  | none => exact (drops_pop repository sessionId).trans ⟨rfl, fun _ _ h => h, rfl, rfl⟩
  | some session =>
      dsimp only
      split
      · exact hrecorded session
      · exact (hrecorded session).trans ⟨rfl, fun _ _ h => h, rfl, rfl⟩

/-! ### Objects -/

/-- The cache refers to objects of its sessions, and the objects have a property. -/
structure Caches (P : HeldSession → Prop) (repository : SessionRepository) : Prop where
  objects : ∀ session ∈ repository.objects, P session
  sessions : ∀ sessionId object, repository.sessions.get? sessionId = some object →
    ∃ session, repository.objects[object]? = some session ∧ session.sessionId = sessionId

/-- A property of what an object is made with, which its uses do not change. -/
def Lasting (P : HeldSession → Prop) : Prop :=
  ∀ session lastUsedAt csrfToken, P session → P { session with lastUsedAt := lastUsedAt, csrfToken := csrfToken }

variable {P : HeldSession → Prop}

theorem Caches.drops (h : repository.Caches P) (hdrops : repository.Drops repository') :
    repository'.Caches P where
  objects := fun session hsession => h.objects session (hdrops.objects ▸ hsession)
  sessions := fun sessionId object hget => by
    rw [hdrops.objects]
    exact h.sessions sessionId object (hdrops.sessions sessionId object hget)

theorem Caches.mono {Q : HeldSession → Prop} (h : repository.Caches P)
    (himp : ∀ session, P session → Q session) :
    repository.Caches Q :=
      ⟨fun session hsession => himp session (h.objects session hsession), h.sessions⟩

/-- A new object, cached under its session. -/
theorem Caches.push (h : repository.Caches P) {session : HeldSession} (hsession : P session)
    (hobjects : repository'.objects = repository.objects ++ [session])
    (hsessions : repository'.sessions =
      repository.sessions.set session.sessionId repository.objects.length) :
    repository'.Caches P where
  objects := fun other hother => by
    rw [hobjects] at hother
    rcases List.mem_append.mp hother with hother | hother
    · exact h.objects other hother
    · cases List.mem_singleton.mp hother
      exact hsession
  sessions := fun sessionId object hget => by
    rw [hsessions, Dict.get?_set] at hget
    rw [hobjects]
    split at hget
    · rename_i hsame
      cases hget
      exact ⟨session, List.getElem?_concat_length, hsame.symm⟩
    · obtain ⟨found, hfound, hid⟩ := h.sessions sessionId object hget
      exact ⟨found, List.getElem?_append_left (List.getElem?_eq_some_iff.mp hfound).1 ▸ hfound, hid⟩

theorem Caches.create (h : repository.Caches P) {session : HeldSession} (hsession : P session)
    (now : Instant) :
    (repository.create session now).Caches P :=
  (h.drops (drops_purgeExpired repository now)).push hsession rfl rfl

theorem Caches.use (h : repository.Caches P) (hlasting : Lasting P) (object : ℕ) (now : Instant)
    (csrfToken : Option Text) : (repository.use object now csrfToken).Caches P := by
  rw [SessionRepository.use]
  cases hobject : repository.objects[object]? with
  | none => exact h
  | some session =>
      simp only
      split
      · exact h
      · split
        · exact h.drops (drops_dropEnded repository now session)
        · refine ⟨fun other hother => ?_, fun sessionId found hget => ?_⟩
          · rcases List.mem_or_eq_of_mem_set hother with hother | rfl
            · exact h.objects other hother
            · exact hlasting session now _ (h.objects session (List.mem_of_getElem? hobject))
          · obtain ⟨other, hother, hid⟩ := h.sessions sessionId found hget
            by_cases hsame : object = found
            · subst hsame
              rw [hobject] at hother
              cases hother
              exact ⟨_, List.getElem?_set_self (List.getElem?_eq_some_iff.mp hobject).1, hid⟩
            · exact ⟨other, (List.getElem?_set_ne hsame).trans hother, hid⟩

/-- A restored session is refused, another restore was first, or it is cached. -/
theorem Caches.admitRestored (h : repository.Caches P) {session : HeldSession} (hsession : P session)
    (now : Instant) :
    (repository.admitRestored session now).1.Caches P ∧
      ∀ object, (repository.admitRestored session now).2 = some object →
        ∃ found, (repository.admitRestored session now).1.objects[object]? = some found ∧
          found.sessionId = session.sessionId := by
  rw [SessionRepository.admitRestored]
  split
  · exact ⟨h, fun object hobject => by cases hobject⟩
  · cases hget : repository.sessions.get? session.sessionId with
    | some object =>
        refine ⟨h, fun found hfound => ?_⟩
        cases hfound
        exact h.sessions session.sessionId object hget
    | none =>
        refine ⟨h.push hsession rfl rfl, fun found hfound => ?_⟩
        cases hfound
        exact ⟨session, List.getElem?_concat_length, rfl⟩

/-- Every object is still there, for the same session. -/
def KeepsObjects (repository repository' : SessionRepository) : Prop :=
  ∀ (object : ℕ) (session : HeldSession), repository.objects[object]? = some session →
    ∃ session' : HeldSession, repository'.objects[object]? = some session' ∧
      session'.sessionId = session.sessionId

theorem Drops.keepsObjects (h : repository.Drops repository') :
    repository.KeepsObjects repository' :=
  fun _ session hobject => ⟨session, h.objects ▸ hobject, rfl⟩

theorem keepsObjects_push {session : HeldSession}
    (hobjects : repository'.objects = repository.objects ++ [session]) :
    repository.KeepsObjects repository' := by
  intro object found hfound
  rw [hobjects]
  exact ⟨found,
    (List.getElem?_append_left (List.getElem?_eq_some_iff.mp hfound).1).trans hfound, rfl⟩

theorem keepsObjects_use (repository : SessionRepository) (object : ℕ) (now : Instant)
    (csrfToken : Option Text) :
    repository.KeepsObjects (repository.use object now csrfToken) := by
  rw [SessionRepository.use]
  cases hobject : repository.objects[object]? with
  | none => exact (Drops.refl repository).keepsObjects
  | some session =>
      simp only
      split
      · exact (Drops.refl repository).keepsObjects
      · split
        · exact (drops_dropEnded repository now session).keepsObjects
        · intro other found hfound
          by_cases hsame : object = other
          · subst hsame
            cases hobject.symm.trans hfound
            exact ⟨_, List.getElem?_set_self (List.getElem?_eq_some_iff.mp hobject).1, rfl⟩
          · exact ⟨found, (List.getElem?_set_ne hsame).trans hfound, rfl⟩

theorem keepsObjects_create (repository : SessionRepository) (session : HeldSession)
    (now : Instant) :
    repository.KeepsObjects (repository.create session now) := by
  have hobjects : (repository.create session now).objects = repository.objects ++ [session] := by
    rw [SessionRepository.create, (drops_purgeExpired repository now).objects]
  exact keepsObjects_push hobjects

theorem keepsObjects_admitRestored (repository : SessionRepository) (session : HeldSession)
    (now : Instant) :
    repository.KeepsObjects (repository.admitRestored session now).1 := by
  rw [SessionRepository.admitRestored]
  split
  · exact (Drops.refl repository).keepsObjects
  · split
    · exact (Drops.refl repository).keepsObjects
    · exact keepsObjects_push rfl

theorem objects_revokeAccount (repository : SessionRepository) (accountId : Uuid) (now : Instant) :
    (repository.revokeAccount accountId now).objects = repository.objects := by
  rw [SessionRepository.revokeAccount]
  exact (drops_endAll _ now _).objects

/-! ### Marks -/

theorem marks_use (repository : SessionRepository) (object : ℕ) (now : Instant)
    (csrfToken : Option Text) :
    (repository.use object now csrfToken).deletedAccounts = repository.deletedAccounts ∧
      (repository.use object now csrfToken).deleting = repository.deleting := by
  rw [SessionRepository.use]
  split
  · exact ⟨rfl, rfl⟩
  · split
    · exact ⟨rfl, rfl⟩
    · split
      · exact ⟨(drops_dropEnded repository now _).deletedAccounts,
          (drops_dropEnded repository now _).deleting⟩
      · exact ⟨rfl, rfl⟩

theorem marks_create (repository : SessionRepository) (session : HeldSession) (now : Instant) :
    (repository.create session now).deletedAccounts = repository.deletedAccounts ∧
      (repository.create session now).deleting = repository.deleting :=
  ⟨(drops_purgeExpired repository now).deletedAccounts,
    (drops_purgeExpired repository now).deleting⟩

theorem marks_admitRestored (repository : SessionRepository) (session : HeldSession)
    (now : Instant) :
    (repository.admitRestored session now).1.deletedAccounts = repository.deletedAccounts ∧
      (repository.admitRestored session now).1.deleting = repository.deleting := by
  rw [SessionRepository.admitRestored]
  split
  · exact ⟨rfl, rfl⟩
  · split <;> exact ⟨rfl, rfl⟩

theorem Caches.revokeAccount (h : repository.Caches P) (accountId : Uuid) (now : Instant) :
    (repository.revokeAccount accountId now).Caches P := by
  rw [SessionRepository.revokeAccount]
  refine Caches.drops ?_ (drops_endAll _ now _)
  exact ⟨h.objects, h.sessions⟩

theorem deletedAccounts_revokeAccount (repository : SessionRepository) (accountId : Uuid)
    (now : Instant) :
    (repository.revokeAccount accountId now).deletedAccounts =
      (repository.deletedAccounts.filter fun entry => ¬entry.2 ≤ now).set accountId
        (now.ahead sessionTtl) := by
  rw [SessionRepository.revokeAccount]
  exact (drops_endAll _ now _).deletedAccounts

theorem deleting_revokeAccount (repository : SessionRepository) (accountId : Uuid) (now : Instant) :
    (repository.revokeAccount accountId now).deleting = repository.deleting := by
  rw [SessionRepository.revokeAccount]
  exact (drops_endAll _ now _).deleting

/-- The mark counts the deletes of the account, and is gone with the last. -/
def Counts (repository : SessionRepository) (accountId : Uuid) (count : ℕ) : Prop :=
  repository.deleting.get? accountId = if count = 0 then none else some count

theorem Counts.beginDeletion {accountId other : Uuid} {count : ℕ}
    (h : repository.Counts other count) :
    (repository.beginDeletion accountId).Counts other (count +
      if accountId = other then 1 else 0) := by
  rw [Counts, SessionRepository.beginDeletion]
  split
  · rename_i hsame
    subst hsame
    rw [Dict.get?_set_self, h, if_neg (Nat.succ_ne_zero count)]
    split
    · rename_i hzero
      rw [hzero, Option.getD_none]
    · rw [Option.getD_some]
  · rename_i hne
    rw [Dict.get?_set_of_ne _ _ (Ne.symm hne)]
    exact h

theorem Counts.endDeletion {accountId other : Uuid} {count left : ℕ}
    (h : repository.Counts other count)
    (hleft : left + (if accountId = other then 1 else 0) = count) :
    (repository.endDeletion accountId).Counts other left := by
  rw [Counts, SessionRepository.endDeletion]
  dsimp only
  split at hleft
  · rename_i hsame
    subst hsame
    have hbefore : (repository.deleting.get? accountId).getD 0 - 1 = left := by
      rw [h, ← hleft, if_neg (Nat.succ_ne_zero left), Option.getD_some, Nat.add_sub_cancel]
    rw [hbefore]
    split
    · rename_i hpos
      rw [Dict.get?_set_self, if_neg hpos.ne']
    · rename_i hzero
      rw [Dict.get?_pop_self, if_pos (Nat.eq_zero_of_not_pos hzero)]
  · rename_i hne
    have hsame : ∀ left : ℕ, (if 0 < left then repository.deleting.set accountId left
        else repository.deleting.pop accountId).get? other = repository.deleting.get? other := by
      intro left
      split
      · exact Dict.get?_set_of_ne _ _ (Ne.symm hne)
      · exact Dict.get?_pop_of_ne _ (Ne.symm hne)
    rw [Nat.add_zero] at hleft
    subst hleft
    exact (hsame _).trans h

end SessionRepository

end Quorum
