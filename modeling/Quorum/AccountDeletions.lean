import Mathlib.Data.List.Count
import Quorum.AccountMeters

/-! The marks of deletions: an account whose row has gone is one of a delete that has not yet
refused it, or is refused until a session lifetime after its refusal, and the mark of a delete under
way counts the deletes between their begin and their end. -/

namespace Quorum

open IsoTime Transaction

/-- The row has gone, and the account is not refused yet. -/
def DeletionPhase.rowGone : DeletionPhase → Bool
  | .readingClock | .refusing _ => true
  | _ => false

theorem DeletionPhase.underWay_of_rowGone {phase : DeletionPhase} (h : phase.rowGone = true) :
    phase.underWay = true := by
  cases phase <;> first | rfl | cases h

namespace AccountWorld

section

variable (world : AccountWorld)

def underWay (accountId : Uuid) : ℕ :=
  world.deletions.countP fun entry => entry.1 = accountId && entry.2.underWay

/-- Refused, or the session lifetime since a refusal has passed. -/
def Refused (accountId : Uuid) : Prop :=
  ∃ refusedAt, (accountId, refusedAt) ∈ world.refusals ∧
    (world.repository.deletedAccounts.get? accountId = some (refusedAt.ahead sessionTtl) ∨
      refusedAt.ahead sessionTtl ≤ world.clock)

structure Marked : Prop where
  counts : ∀ accountId, world.repository.Counts accountId (world.underWay accountId)
  read : ∀ accountId now, (accountId, .refusing now) ∈ world.deletions → now ≤ world.clock
  gone : ∀ accountId ∈ world.held, ¬world.HasAccount accountId →
    world.Refused accountId ∨ ∃ phase, (accountId, phase) ∈ world.deletions ∧ phase.rowGone = true

end

variable {world world' : AccountWorld}

theorem Refused.of_kept {accountId : Uuid} (h : world.Refused accountId)
    (hclock : world.clock ≤ world'.clock) (hrefusals : world.refusals ⊆ world'.refusals)
    (hdeleted : world'.repository.deletedAccounts = world.repository.deletedAccounts) :
    world'.Refused accountId := by
  obtain ⟨refusedAt, hmem, hmark | hlapsed⟩ := h
  · exact ⟨refusedAt, hrefusals hmem, .inl (hdeleted ▸ hmark)⟩
  · exact ⟨refusedAt, hrefusals hmem, .inr (hlapsed.trans hclock)⟩

/-- A turn that deletes no account. -/
theorem Marked.of_kept (h : world.Marked) (hclock : world.clock ≤ world'.clock)
    (hdeletions : world'.deletions = world.deletions) (hrefusals : world.refusals ⊆ world'.refusals)
    (hmarks : world'.repository.deletedAccounts = world.repository.deletedAccounts ∧
      world'.repository.deleting = world.repository.deleting)
    (hheld : ∀ accountId ∈ world'.held, accountId ∈ world.held ∨ world'.HasAccount accountId)
    (hrows : ∀ accountId, world.HasAccount accountId → world'.HasAccount accountId) :
    world'.Marked where
  counts := fun accountId => by
    rw [SessionRepository.Counts, hmarks.2, underWay, hdeletions]
    exact h.counts accountId
  read := fun accountId now hmem => (h.read accountId now (hdeletions ▸ hmem)).trans hclock
  gone := fun accountId hmem hrow => by
    have hold := (hheld accountId hmem).resolve_right hrow
    rw [hdeletions]
    exact (h.gone accountId hold fun hrow' => hrow (hrows accountId hrow')).imp_left
      fun hrefused => hrefused.of_kept hclock hrefusals hmarks.1

/-- An account that is held and neither deleted nor going has its row, or its refusal has lapsed. -/
theorem Marked.lapsed (h : world.Marked) {accountId : Uuid} (hheld : accountId ∈ world.held)
    (hrow : ¬world.HasAccount accountId)
    (hgoing : world.repository.accountIsGoing accountId world.clock = false) :
    ∃ refusedAt, (accountId, refusedAt) ∈ world.refusals ∧
      refusedAt.ahead sessionTtl ≤ world.clock := by
  rw [SessionRepository.accountIsGoing, Bool.or_eq_false_iff] at hgoing
  rcases h.gone accountId hheld hrow with ⟨refusedAt, hmem, hmark | hlapsed⟩ | ⟨phase, hmem, hgone⟩
  · refine ⟨refusedAt, hmem, ?_⟩
    have hdeleted := hgoing.2
    rw [SessionRepository.accountWasDeleted, hmark, Option.any_some,
      decide_eq_false_iff_not] at hdeleted
    exact not_lt.mp hdeleted
  · exact ⟨refusedAt, hmem, hlapsed⟩
  · have hcount : world.underWay accountId ≠ 0 := by
      rw [underWay]
      refine (List.countP_pos_iff.mpr ⟨(accountId, phase), hmem, ?_⟩).ne'
      rw [Bool.and_eq_true]
      exact ⟨decide_eq_true rfl, phase.underWay_of_rowGone hgone⟩
    have hmark := hgoing.1
    have hcounts := h.counts accountId
    rw [SessionRepository.Counts, if_neg hcount] at hcounts
    rw [hcounts] at hmark
    cases hmark

/-! ### A delete's step -/

theorem mem_set_or_eq {α : Type} {entries : List α} {index : ℕ} {old entry : α}
    (hold : entries[index]? = some old) (hmem : entry ∈ entries) (new : α) :
    entry ∈ entries.set index new ∨ entry = old := by
  obtain ⟨other, hother⟩ := List.mem_iff_getElem?.mp hmem
  by_cases hsame : index = other
  · subst hsame
    exact .inr (Option.some.inj (hother.symm.trans hold))
  · exact .inl (List.mem_iff_getElem?.mpr ⟨other, (List.getElem?_set_ne hsame).trans hother⟩)

variable {index : ℕ} {accountId : Uuid} {phase phase' : DeletionPhase}

/-- The deletes under way when one of them moved. -/
theorem underWay_set (hentry : world.deletions[index]? = some (accountId, phase))
    (hset : world'.deletions = world.deletions.set index (accountId, phase')) (other : Uuid) :
    world'.underWay other + (if accountId = other ∧ phase.underWay = true then 1 else 0) =
      world.underWay other + (if accountId = other ∧ phase'.underWay = true then 1 else 0) := by
  obtain ⟨hlt, hget⟩ := List.getElem?_eq_some_iff.mp hentry
  rw [underWay, underWay, hset, List.countP_set hlt, hget]
  simp only [Bool.and_eq_true, decide_eq_true_eq]
  split
  · rename_i hcounted
    have hpos : 0 < world.deletions.countP fun entry => entry.1 = other && entry.2.underWay := by
      refine List.countP_pos_iff.mpr ⟨(accountId, phase), hget ▸ List.getElem_mem hlt, ?_⟩
      rw [Bool.and_eq_true]
      exact ⟨decide_eq_true hcounted.1, hcounted.2⟩
    omega
  · omega

/-- A step inside a delete. -/
theorem counts_of_same (h : world.Marked) {other : Uuid}
    (hcount : world'.underWay other + (if accountId = other ∧ phase.underWay = true then 1 else 0) =
      world.underWay other + (if accountId = other ∧ phase'.underWay = true then 1 else 0))
    (hphase : phase'.underWay = phase.underWay)
    (hdeleting : world'.repository.deleting = world.repository.deleting) :
    world'.repository.Counts other (world'.underWay other) := by
  rw [hphase] at hcount
  rw [Nat.add_right_cancel hcount, SessionRepository.Counts, hdeleting]
  exact h.counts other

theorem gone_set (hentry : world.deletions[index]? = some (accountId, phase))
    (hset : world'.deletions = world.deletions.set index (accountId, phase'))
    (hphase : phase.rowGone = true → phase'.rowGone = true) {other : Uuid}
    (h : ∃ phase, (other, phase) ∈ world.deletions ∧ phase.rowGone = true) :
    ∃ phase, (other, phase) ∈ world'.deletions ∧ phase.rowGone = true := by
  obtain ⟨current, hmem, hgone⟩ := h
  rw [hset]
  rcases mem_set_or_eq hentry hmem (accountId, phase') with hold | heq
  · exact ⟨current, hold, hgone⟩
  · cases heq
    exact ⟨phase',
      List.mem_of_getElem? (List.getElem?_set_self (List.getElem?_eq_some_iff.mp hentry).1),
      hphase hgone⟩

theorem read_set (h : world.Marked)
    (hset : world'.deletions = world.deletions.set index (accountId, phase'))
    (hclock : world'.clock = world.clock)
    (hphase : ∀ now, phase' = .refusing now → now ≤ world.clock) (other : Uuid) (now : Instant)
    (hmem : (other, .refusing now) ∈ world'.deletions) : now ≤ world'.clock := by
  rw [hset] at hmem
  rw [hclock]
  rcases List.mem_or_eq_of_mem_set hmem with hold | heq
  · exact h.read other now hold
  · exact hphase now (Prod.mk.inj heq).2.symm

/-- A step of a delete that keeps the rows of the accounts and the marks of deleted ones. -/
theorem Marked.of_set (h : world.Marked)
    (hentry : world.deletions[index]? = some (accountId, phase))
    (hset : world'.deletions = world.deletions.set index (accountId, phase'))
    (hclock : world'.clock = world.clock) (hrefusals : world'.refusals = world.refusals)
    (hheld : world'.held = world.held)
    (hdeleted : world'.repository.deletedAccounts = world.repository.deletedAccounts)
    (hcounts : ∀ other,
      world'.underWay other + (if accountId = other ∧ phase.underWay = true then 1 else 0) =
        world.underWay other + (if accountId = other ∧ phase'.underWay = true then 1 else 0) →
      world'.repository.Counts other (world'.underWay other))
    (hphase : ∀ now, phase' = .refusing now → now ≤ world.clock)
    (hgone : phase.rowGone = true → phase'.rowGone = true)
    (hrows : ∀ other, ¬world'.HasAccount other → world.HasAccount other → other = accountId ∧
      phase'.rowGone = true) :
    world'.Marked where
  counts := fun other => hcounts other (underWay_set hentry hset other)
  read := read_set h hset hclock hphase
  gone := fun other hmem hrow => by
    by_cases hold : world.HasAccount other
    · obtain ⟨rfl, hgone'⟩ := hrows other hrow hold
      refine .inr ⟨phase', ?_, hgone'⟩
      rw [hset]
      exact List.mem_of_getElem? (List.getElem?_set_self (List.getElem?_eq_some_iff.mp hentry).1)
    · refine (h.gone other (hheld ▸ hmem) hold).imp (fun hrefused => ?_)
        (gone_set hentry hset hgone)
      exact hrefused.of_kept hclock.ge (hrefusals ▸ List.Subset.refl _) hdeleted

theorem hasAccount_withDb {run : OpenStore → SessionDb} (other : Uuid)
    (h : ∀ store ∈ world.store, store.db.HasAccount other → (run store).HasAccount other)
    (hrow : world.HasAccount other) : (world.withDb run).HasAccount other := by
  obtain ⟨store, hstore, hrow⟩ := hrow
  exact ⟨_, Option.map_eq_some_iff.mpr ⟨store, hstore, rfl⟩, h store hstore hrow⟩

theorem Marked.beginning (h : world.Marked)
    (hentry : world.deletions[index]? = some (accountId, .beginning)) :
    { world with
      repository := world.repository.beginDeletion accountId
      deletions := world.deletions.set index (accountId, .deletingRows) }.Marked := by
  refine h.of_set hentry rfl rfl rfl rfl rfl (fun other hcount => ?_) (by simp)
    (by simp [DeletionPhase.rowGone]) fun other hrow hold => absurd hold hrow
  simp only [DeletionPhase.underWay, Bool.false_eq_true, and_false, if_false, Nat.add_zero,
    and_true] at hcount
  rw [hcount]
  exact (h.counts other).beginDeletion

theorem Marked.ending (h : world.Marked) {answer : Bool}
    (hentry : world.deletions[index]? = some (accountId, .ending answer)) :
    { world with
      repository := world.repository.endDeletion accountId
      deletions := world.deletions.set index (accountId, .ended answer) }.Marked := by
  refine h.of_set hentry rfl rfl rfl rfl rfl (fun other hcount => ?_) (by simp)
    (by simp [DeletionPhase.rowGone]) fun other hrow hold => absurd hold hrow
  simp only [DeletionPhase.underWay, Bool.false_eq_true, and_false, if_false, Nat.add_zero,
    and_true] at hcount
  exact (h.counts other).endDeletion hcount

/-- The delete of the rows: the account's row has gone if and only if the delete goes on to refuse
it. -/
theorem Marked.deletingRows (h : world.Marked) (accountIdFor : Text → Uuid) (faults : SqlFaults)
    (wall : Instant) (hentry : world.deletions[index]? = some (accountId, .deletingRows)) :
    { world.withDb fun store =>
      Transaction.after (deleteAccount accountIdFor store.handle faults accountId wall)
        store.db with
      deletions := world.deletions.set index (accountId, if (world.store.bind fun store =>
        answered (deleteAccount accountIdFor store.handle faults accountId wall) store.db) =
          some true
        then .readingClock else .ending false) }.Marked := by
  refine h.of_set hentry rfl rfl rfl rfl rfl (fun other hcount => counts_of_same h hcount ?_ rfl) ?_
    (by simp [DeletionPhase.rowGone])
    fun other hrow hold => ?_
  · split <;> rfl
  · split <;> simp
  · obtain ⟨store, hstore, account, hmem, hid⟩ := hold
    have hdone : answered (deleteAccount accountIdFor store.handle faults accountId wall) store.db =
        some true := by
      by_contra hundone
      refine hrow ⟨_, Option.map_eq_some_iff.mpr ⟨store, hstore, rfl⟩, account, ?_, hid⟩
      dsimp only
      rwa [deleteAccount_undone accountIdFor hundone]
    have hgone : (world.store.bind fun store =>
        answered (deleteAccount accountIdFor store.handle faults accountId wall) store.db) =
          some true := by
      rw [Option.mem_def.mp hstore, Option.bind_some, hdone]
    rw [if_pos hgone]
    refine ⟨by_contra fun hne => hrow ⟨_, Option.map_eq_some_iff.mpr ⟨store, hstore, rfl⟩,
      account, ?_, hid⟩, rfl⟩
    dsimp only
    rw [(deleteAccount_done accountIdFor hdone).1]
    exact List.mem_filter.mpr ⟨hmem, decide_eq_true (hid ▸ hne)⟩

/-- The refusal of an account. -/
theorem Marked.refusing (h : world.Marked) {now : Instant}
    (hentry : world.deletions[index]? = some (accountId, .refusing now)) :
    { world with
      repository := world.repository.revokeAccount accountId now
      refusals := (accountId, now) :: world.refusals
      deletions := world.deletions.set index (accountId, .cleaning) }.Marked := by
  have hnow := h.read accountId now (List.mem_of_getElem? hentry)
  refine ⟨?_, read_set h rfl rfl (by simp), fun other hmem hrow => ?_⟩
  · intro other
    have hsame : DeletionPhase.cleaning.underWay = (DeletionPhase.refusing now).underWay := rfl
    refine counts_of_same h (underWay_set hentry ?_ other) hsame
      (SessionRepository.deleting_revokeAccount _ accountId now)
    rfl
  · by_cases hsame : other = accountId
    · subst hsame
      refine .inl ⟨now, List.mem_cons_self, .inl ?_⟩
      change (world.repository.revokeAccount other now).deletedAccounts.get? other = _
      rw [SessionRepository.deletedAccounts_revokeAccount, Dict.get?_set_self]
    · rcases h.gone other hmem hrow with ⟨refusedAt, hrefused, hmark⟩ | ⟨phase, hphase, hgone⟩
      · refine .inl ⟨refusedAt, List.mem_cons_of_mem _ hrefused, ?_⟩
        by_cases hlapsed : refusedAt.ahead sessionTtl ≤ now
        · exact .inr (hlapsed.trans hnow)
        · refine hmark.imp_left fun hmark => ?_
          change (world.repository.revokeAccount accountId now).deletedAccounts.get? other = _
          rw [SessionRepository.deletedAccounts_revokeAccount, Dict.get?_set_of_ne _ _ hsame,
            Dict.get?_filter, hmark, Option.filter_some, if_pos (decide_eq_true hlapsed)]
      · refine .inr ⟨phase,
          (mem_set_or_eq hentry hphase _).resolve_right fun heq => hsame ?_, hgone⟩
        exact (Prod.mk.inj heq).1

theorem Marked.deletion (h : world.Marked) (accountIdFor : Text → Uuid) (index : ℕ)
    (faults : SqlFaults) (wall : Instant) :
    (world.deletion accountIdFor index faults wall).Marked := by
  rw [AccountWorld.deletion]
  cases hentry : world.deletions[index]? with
  | none => exact h
  | some entry =>
      obtain ⟨accountId, phase⟩ := entry
      cases phase with
      | beginning => exact h.beginning hentry
      | deletingRows => exact h.deletingRows accountIdFor faults wall hentry
      | readingClock =>
          refine h.of_set hentry rfl rfl rfl rfl rfl (fun other hcount =>
            counts_of_same h hcount rfl rfl) ?_ (fun _ => rfl)
            fun other hrow hold => absurd hold hrow
          intro now hnow
          cases hnow
          exact le_rfl
      | refusing now => exact h.refusing hentry
      | cleaning =>
          refine h.of_set hentry rfl rfl rfl rfl rfl (fun other hcount =>
            counts_of_same h hcount rfl rfl) (by simp [deletionStep])
            (by simp [DeletionPhase.rowGone]) fun other hrow hold => absurd ?_ hrow
          refine hasAccount_withDb other (fun store hstore hrow' => ?_) hold
          exact hasAccount_of_ids
            (deleteRows_keepsAccounts store.handle faults _ store.db).1.symm hrow'
      | ending answer => exact h.ending hentry
      | ended answer =>
          refine h.of_set hentry rfl rfl rfl rfl rfl (fun other hcount =>
            counts_of_same h hcount rfl rfl) (by simp [deletionStep])
            (by simp [DeletionPhase.rowGone]) fun other hrow hold => absurd hold hrow

end AccountWorld

end Quorum
