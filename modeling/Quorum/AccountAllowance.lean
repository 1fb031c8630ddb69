import Quorum.AccountDeletions

/-! Whose allowance a request spends. A session is metered under the spend key of its account, as
the account's row had it when the key was read, and under its network's key only if its id has never
had a row. -/

namespace Quorum

open IsoTime Transaction

/-- What a call has answered. -/
def SpendCall.outcome (call : SpendCall) : Option SpendOutcome :=
  match call.phase with
  | .answered outcome => some outcome
  | _ => none

namespace AccountWorld

variable {sha256Hexdigest : Text → Text} {world world' : AccountWorld} (settings : SessionSettings)

/-! ### The marks in each turn -/

/-- The marks of deletions are the same. -/
def SameMarks (repository repository' : SessionRepository) : Prop :=
  repository'.deletedAccounts = repository.deletedAccounts ∧
    repository'.deleting = repository.deleting

theorem sameMarks_of_drops {repository repository' : SessionRepository}
    (h : repository.Drops repository') :
    SameMarks repository repository' := ⟨h.deletedAccounts, h.deleting⟩

theorem sameMarks_lookupStep (process : AuthProcess) (faults : SqlFaults) (sessionId : Text)
    (phase : LookupPhase) :
    SameMarks process.repository
      (lookupStep sha256Hexdigest settings process faults sessionId phase).1 := by
  have hrefl := sameMarks_of_drops (.refl process.repository)
  cases phase with
  | entering =>
      have hpurge :=
        sameMarks_of_drops (SessionRepository.drops_purgeExpired process.repository process.clock)
      rw [lookupStep, lookupEntering]
      split
      · exact hpurge
      · split <;> exact hpurge
  | endingAt accountId cutoff now =>
      exact sameMarks_of_drops
        (SessionRepository.drops_endSessionsOf process.repository accountId cutoff now)
  | unread object =>
      rw [lookupStep, lookupUnread]
      split
      · exact hrefl
      · split
        · split
          · exact sameMarks_of_drops
              (SessionRepository.drops_dropEnded process.repository process.clock _)
          · exact hrefl
        · split <;> exact hrefl
  | admitting session =>
      exact SessionRepository.marks_admitRestored process.repository session process.clock
  | _ => exact hrefl

theorem sameMarks_spendStep (faults : SqlFaults) (networkKey : Uuid) (call : SpendCall) :
    SameMarks world.repository
      (world.spendStep sha256Hexdigest settings faults networkKey call).1 := by
  have hrefl := sameMarks_of_drops (.refl world.repository)
  rw [spendStep]
  split
  any_goals exact hrefl
  exact sameMarks_lookupStep settings world.toAuthProcess faults _ _

/-- A turn of threads and the repository keeps the rows of the accounts. -/
theorem Marked.of_repository (h : world.Marked) (hclock : world.clock ≤ world'.clock)
    (hstore : world'.store = world.store) (hdeletions : world'.deletions = world.deletions)
    (hrefusals : world'.refusals = world.refusals) (hheld : world'.held = world.held)
    (hmarks : SameMarks world.repository world'.repository) : world'.Marked := by
  refine h.of_kept hclock hdeletions (hrefusals ▸ List.Subset.refl _) hmarks (fun accountId hmem =>
    .inl (hheld ▸ hmem)) ?_
  rintro accountId ⟨store, hmem, hrow⟩
  exact ⟨store, hstore ▸ hmem, hrow⟩

theorem Marked.operate (h : world.Marked) (accountIdFor : Text → Uuid) (op : SessionOp)
    (faults : SqlFaults) :
    (world.operate sha256Hexdigest accountIdFor op faults).Marked := by
  rw [AccountWorld.operate]
  split
  · rename_i hop
    have hother := ((Bool.and_eq_true _ _).mp hop).1
    refine h.of_kept le_rfl rfl (List.Subset.refl _) ⟨rfl, rfl⟩ ?_ ?_
    · intro accountId hmem
      rcases List.mem_append.mp hmem with hid | hold
      · refine .inr ?_
        cases hstore : world.store with
        | none =>
            rw [AccountWorld.withDb, hstore] at hid
            cases hid
        | some store =>
            rw [AccountWorld.withDb, hstore] at hid
            exact ⟨_, Option.map_eq_some_iff.mpr ⟨store, hstore, rfl⟩, List.mem_map.mp hid⟩
      · exact .inl hold
    · intro accountId hrow
      refine hasAccount_withDb accountId (fun store hstore hrow => ?_) hrow
      rcases op.other_rows sha256Hexdigest accountIdFor store.handle faults hother store.db with
        hkeeps | ⟨fresh, -, hsame | hadded, -⟩
      · exact hasAccount_of_ids hkeeps.1.symm hrow
      · exact hasAccount_of_ids hsame.symm hrow
      · obtain ⟨account, hmem, hid⟩ := hrow
        refine List.mem_map.mp ?_
        rw [hadded]
        exact List.mem_append_left _ (List.mem_map.mpr ⟨account, hmem, hid⟩)
  · exact h

theorem Marked.step (h : world.Marked) (accountIdFor : Text → Uuid) (turn : AccountTurn) :
    (world.step sha256Hexdigest accountIdFor settings turn).Marked := by
  have hsame := sameMarks_of_drops (.refl world.repository)
  cases turn with
  | tick span => exact h.of_repository (world.clock.le_ahead span) rfl rfl rfl rfl hsame
  | operate op faults => exact h.operate accountIdFor op faults
  | refresh accountsOk safetyOk =>
      refine h.of_kept le_rfl rfl (List.Subset.refl _) ⟨rfl, rfl⟩ (fun _ hmem => .inl hmem) ?_
      rintro accountId ⟨store, hstore, hrow⟩
      exact ⟨_, Option.map_eq_some_iff.mpr ⟨store, hstore, rfl⟩, hrow⟩
  | mint sessionId csrfToken accountId signInOnly =>
      rw [AccountWorld.step, AccountWorld.mint]
      split
      · exact h.of_repository le_rfl rfl rfl rfl rfl (SessionRepository.marks_create _ _ _)
      · exact h
  | signIn sessionId csrfToken accountId =>
      rw [AccountWorld.step, AccountWorld.signIn]
      split
      · exact h.of_repository le_rfl rfl rfl rfl rfl (SessionRepository.marks_create _ _ _)
      · exact h
  | use object csrfToken =>
      exact h.of_repository le_rfl rfl rfl rfl rfl
        (SessionRepository.marks_use _ object world.clock csrfToken)
  | persist object faults =>
      rw [AccountWorld.step, AccountWorld.persist]
      split
      · refine h.of_kept le_rfl rfl (List.Subset.refl _) hsame (fun _ hmem => .inl hmem)
          fun accountId hrow => ?_
        refine hasAccount_withDb accountId (fun store hstore hrow => ?_) hrow
        obtain ⟨account, hmem, hid⟩ := hrow
        exact ⟨account, (save_writes sha256Hexdigest store.handle faults _ store.db).1 ▸ hmem, hid⟩
      · exact h
  | revoke sessionId faults =>
      refine h.of_kept le_rfl rfl (List.Subset.refl _)
        (sameMarks_of_drops (SessionRepository.drops_revoke _ sessionId world.clock))
          (fun _ hmem => .inl hmem) ?_
      intro accountId hrow
      refine hasAccount_withDb accountId (fun store hstore hrow => ?_) hrow
      exact hasAccount_of_ids (deleteRows_keepsAccounts store.handle faults _ store.db).1.symm hrow
  | endSessions accountId cutoff now =>
      rw [AccountWorld.step]
      split
      · exact h.of_repository le_rfl rfl rfl rfl rfl
          (sameMarks_of_drops (SessionRepository.drops_endSessionsOf _ accountId cutoff now))
      · exact h
  | purge =>
      exact h.of_repository le_rfl rfl rfl rfl rfl
        (sameMarks_of_drops (SessionRepository.drops_purgeExpired _ world.clock))
  | prune =>
      exact h.of_repository le_rfl rfl rfl rfl rfl
        (sameMarks_of_drops (SessionRepository.drops_pruneEndedIds _ world.clock))
  | visit sessionId => exact h.of_repository le_rfl rfl rfl rfl rfl hsame
  | look lookup faults =>
      rw [AccountWorld.step, AccountWorld.look]
      split
      · exact h.of_repository le_rfl rfl rfl rfl rfl
          (sameMarks_lookupStep settings world.toAuthProcess faults _ _)
      · exact h
  | spend context =>
      rw [AccountWorld.step]
      split
      · exact h.of_repository le_rfl rfl rfl rfl rfl hsame
      · exact h
  | meter call faults networkKey =>
      rw [AccountWorld.step, AccountWorld.meter]
      split
      · exact h.of_repository le_rfl rfl rfl rfl rfl
          (sameMarks_spendStep settings faults networkKey _)
      · exact h
  | delete accountId =>
      refine ⟨fun other => ?_, fun other now hmem => ?_, fun other hheld hrow => ?_⟩
      · have hcount : underWay
            (world.step sha256Hexdigest accountIdFor settings (.delete accountId)) other =
            world.underWay other := by
          simp [AccountWorld.step, underWay, DeletionPhase.underWay, List.countP_append]
        rw [hcount]
        exact h.counts other
      · rcases List.mem_append.mp hmem with hold | hnew
        · exact h.read other now hold
        · cases List.mem_singleton.mp hnew
      · exact (h.gone other hheld hrow).imp (fun hrefused =>
          hrefused.of_kept le_rfl (List.Subset.refl _) rfl)
          fun hgone => hgone.imp fun _ hphase => ⟨List.mem_append_left _ hphase.1, hphase.2⟩
  | deletion index faults wall => exact h.deletion accountIdFor index faults wall

/-! ### Runs -/

/-- What every turn keeps. -/
structure Lawful (sha256Hexdigest : Text → Text) (world : AccountWorld) : Prop extends
    world.Informed sha256Hexdigest, world.Marked

theorem Lawful.after (h : world.Lawful sha256Hexdigest) (accountIdFor : Text → Uuid)
    (turns : List AccountTurn) :
    (world.after sha256Hexdigest accountIdFor settings turns).Lawful sha256Hexdigest := by
  induction turns generalizing world with
  | nil => exact h
  | cons turn turns ih =>
      exact ih ⟨h.toInformed.step settings accountIdFor turn,
        h.toMarked.step settings accountIdFor turn⟩

/-- The session tokens of the rows differ, and the session-safety tables come after the accounts. -/
structure Opens (store : Option OpenStore) : Prop where
  digests : ∀ opened ∈ store, (opened.db.sessions.map SessionRow.sessionDigest).Nodup
  ready : ∀ opened ∈ store, opened.handle.safetyReady = true → opened.handle.accountsReady = true

theorem lawful_boot (sha256Hexdigest : Text → Text) (clock : Instant) {store : Option OpenStore}
    (h : Opens store) :
    (boot clock store).Lawful sha256Hexdigest := by
  refine ⟨⟨⟨?_, ?_, ?_, ?_, h.ready, ?_⟩, ?_, ?_⟩, ?_, ?_, ?_⟩
  · rintro accountId ⟨opened, hopened, account, hmem, rfl⟩
    cases hopened
    exact List.mem_map_of_mem hmem
  · intro accountId hheld
    cases store with
    | none => cases hheld
    | some opened => exact List.mem_append_left _ hheld
  · intro digest accountId howner
    obtain ⟨opened, rfl, howner⟩ := Option.bind_eq_some_iff.mp howner
    obtain ⟨row, hrow, rfl⟩ := Option.map_eq_some_iff.mp howner
    exact List.mem_append_right _ (List.mem_map_of_mem (List.mem_of_find?_eq_some hrow))
  · intro opened hopened row hmem
    cases hopened
    have hsome : (opened.db.sessions.find? fun other =>
        other.sessionDigest = row.sessionDigest).isSome = true :=
      List.find?_isSome.mpr ⟨row, hmem, decide_eq_true rfl⟩
    obtain ⟨found, hfound⟩ := Option.isSome_iff_exists.mp hsome
    have hdigest := List.find?_some hfound
    rw [decide_eq_true_iff] at hdigest
    have hsame := List.inj_on_of_nodup_map (h.digests opened rfl)
      (List.mem_of_find?_eq_some hfound) hmem hdigest
    change (opened.db.sessions.find? fun other => other.sessionDigest = row.sessionDigest).map
      SessionRow.accountId = _
    rw [hfound, Option.map_some, hsame]
  · exact ⟨fun _ hmem => absurd hmem List.not_mem_nil,
      fun _ _ hget => absurd hget (by simp [boot, SessionRepository.empty])⟩
  · exact fun _ hmem => absurd hmem List.not_mem_nil
  · exact fun _ hmem => absurd hmem List.not_mem_nil
  · exact fun accountId => rfl
  · exact fun _ _ hmem => absurd hmem List.not_mem_nil
  · intro accountId hheld hrow
    cases store with
    | none => cases hheld
    | some opened =>
        obtain ⟨account, hmem, hid⟩ := List.mem_map.mp hheld
        exact absurd ⟨opened, rfl, account, hmem, hid⟩ hrow

/-! ### The answers -/

/-- The account's row is there now and stores the key (its own id where it stores none). -/
def RowKey (world : AccountWorld) (accountId key : Uuid) : Prop :=
  ∃ row, world.rowNow accountId = some row ∧ key = row.spendKey.getD accountId

/-- The meter of a call: its own for the legacy header; the key of the account's row; the network's
for an id that has never had a row, or whose refusal has lapsed. A key that is not the row's of this
moment has passed the deletion check at this moment. -/
structure MeterOf (world : AccountWorld) (context : SessionContext)
    (keyRow : Option (Option AccountRow)) (key : Uuid) (shared : Bool) : Prop where
  legacy : context.legacy = true → key = context.accountId ∧ shared = false
  own : context.legacy = false → shared = false → KeyOf context.accountId keyRow key
  network : context.legacy = false → shared = true → context.accountId ∉ world.held ∨
    ∃ refusedAt, (context.accountId, refusedAt) ∈ world.refusals ∧
      refusedAt.ahead sessionTtl ≤ world.clock
  checked : context.legacy = false → world.RowKey context.accountId key ∨
    world.repository.accountIsGoing context.accountId world.clock = false

variable {context : SessionContext} {keyRow : Option (Option AccountRow)} {key networkKey : Uuid}
  {shared : Bool} {faults : SqlFaults}

theorem meterOf_own (hlegacy : context.legacy = false) (hkey : KeyOf context.accountId keyRow key)
    (hchecked : world.RowKey context.accountId key ∨
      world.repository.accountIsGoing context.accountId world.clock = false) :
    world.MeterOf context keyRow key false where
  legacy h := absurd (hlegacy.symm.trans h) Bool.false_ne_true
  own _ _ := hkey
  network _ h := absurd h Bool.false_ne_true
  checked _ := hchecked

theorem hasAccount_of_rowNow {accountId : Uuid} {row : AccountRow}
    (h : world.rowNow accountId = some row) :
    world.HasAccount accountId := by
  obtain ⟨store, hstore, hrow⟩ := Option.bind_eq_some_iff.mp h
  exact ⟨store, hstore, hasAccount_of_accountOf hrow⟩

/-- A session whose account's row has gone is answered no meter until its refusal has lapsed. -/
theorem MeterOf.lapsed (h : world.MeterOf context keyRow key shared) (hmarked : world.Marked)
    (hlegacy : context.legacy = false) (hheld : context.accountId ∈ world.held)
    (hrow : ¬world.HasAccount context.accountId) :
    ∃ refusedAt, (context.accountId, refusedAt) ∈ world.refusals ∧
      refusedAt.ahead sessionTtl ≤ world.clock := by
  rcases h.checked hlegacy with ⟨row, hnow, -⟩ | hgoing
  · exact absurd (hasAccount_of_rowNow hnow) hrow
  · exact hmarked.lapsed hheld hrow hgoing

theorem spendKeying_meter {store : OpenStore} (hstore : store ∈ world.store)
    (hlegacy : context.legacy = false) (hcleared : world.Cleared context.accountId)
    (hanswer : spendKeying store faults context.accountId = .answered (.meter key shared)) :
    world.MeterOf context (some (world.rowNow context.accountId)) key shared := by
  rw [spendKeying] at hanswer
  split at hanswer
  · rename_i read hread
    split at hanswer
    · rename_i hne
      cases hanswer
      rcases keyOf_of_spendKeyFor hstore hcleared hread with ⟨-, -, hsame⟩ | hkey
      · exact absurd hsame hne
      · have hnow : world.RowKey context.accountId key := by
          obtain ⟨row, hrow, -, hspend⟩ := hkey
          exact ⟨row, Option.some.inj hrow, hspend⟩
        exact meterOf_own hlegacy hkey (.inl hnow)
    · cases hanswer
  · cases hanswer
  · cases hanswer

theorem spendGoing_meter (hmarked : world.Marked) (hlegacy : context.legacy = false)
    {anonymous : Option Bool}
    {sessionId : Text}
    (hlearnt : world.SpendLearnt sha256Hexdigest sessionId context.accountId keyRow
      (.going anonymous))
    (hanswer : world.spendGoing context.accountId networkKey anonymous = .meter key shared) :
    world.MeterOf context keyRow key shared := by
  unfold spendGoing at hanswer
  split at hanswer
  · cases hanswer
  · rename_i hmarks
    have hgoing := Bool.eq_false_iff.mpr hmarks
    rcases anonymous with _ | _ | _
    · cases hanswer
    · cases hanswer
      exact meterOf_own hlegacy (hlearnt.1 rfl) (.inr hgoing)
    · cases hanswer
      refine ⟨fun h => absurd (hlegacy.symm.trans h) Bool.false_ne_true,
        fun _ h => absurd h.symm Bool.false_ne_true,
        fun _ _ => ?_, fun _ => .inr hgoing⟩
      by_cases hheld : context.accountId ∈ world.held
      · exact .inr (hmarked.lapsed hheld (hlearnt.2 rfl) hgoing)
      · exact .inl hheld

theorem outcome_eq_some {call : SpendCall} {outcome : SpendOutcome}
    (h : call.outcome = some outcome) :
    call.phase = .answered outcome := by
  rw [SpendCall.outcome] at h
  split at h
  · rename_i hphase
    rw [hphase, Option.some.inj h]
  · cases h

/-- The step at which a call answers a meter. -/
theorem SpendHolds.meter (hlawful : world.Lawful sha256Hexdigest) {call : SpendCall}
    (h : world.SpendHolds sha256Hexdigest call) (hpending : call.outcome = none)
    (hanswer : (world.spendStep sha256Hexdigest settings faults networkKey call).2.outcome =
      some (.meter key shared)) :
    world.MeterOf (world.spendStep sha256Hexdigest settings faults networkKey call).2.context
      (world.spendStep sha256Hexdigest settings faults networkKey call).2.keyRow key shared := by
  have hphase := outcome_eq_some hanswer
  rcases call with ⟨context, phase, keyRow⟩
  cases phase with
  | starting =>
      rw [spendStep] at hphase ⊢
      by_cases hlegacy : context.legacy = true
      · simp only [if_pos hlegacy, SpendPhase.answered.injEq, SpendOutcome.meter.injEq] at hphase ⊢
        obtain ⟨rfl, rfl⟩ := hphase
        have hnot : context.legacy ≠ false :=
          fun h => absurd (h.symm.trans hlegacy) Bool.false_ne_true
        exact ⟨fun _ => ⟨rfl, rfl⟩, fun h => absurd h hnot, fun h => absurd h hnot,
          fun h => absurd h hnot⟩
      · simp only [if_neg hlegacy] at hphase
        split at hphase <;> cases hphase
  | looking phase =>
      cases phase with
      | answered lookup =>
          rw [spendStep] at hphase
          cases lookup with
          | found object =>
              simp only [spendLooked] at hphase
              split at hphase <;> cases hphase
          | unchecked kind => cases hphase
          | refused => cases hphase
      | _ => cases hphase
  | keying =>
      have hlegacy := h.not_legacy (by simp) (by simp)
      change world.store.elim _ (fun store => spendKeying store faults context.accountId) =
        _ at hphase
      cases hstore : world.store with
      | none =>
          rw [hstore] at hphase
          cases hphase
      | some store =>
          rw [hstore] at hphase
          exact spendKeying_meter hstore hlegacy (h.learnt hlegacy) hphase
  | kinding =>
      change world.store.elim _ (fun store => spendKinding store faults context.accountId) =
        _ at hphase
      cases hstore : world.store with
      | none =>
          rw [hstore] at hphase
          cases hphase
      | some store =>
          rw [hstore, Option.elim_some, spendKinding] at hphase
          split at hphase <;> cases hphase
  | going anonymous =>
      have hlegacy := h.not_legacy (by simp) (by simp)
      exact spendGoing_meter hlawful.toMarked hlegacy (h.learnt hlegacy)
        (SpendPhase.answered.inj hphase)
  | answered outcome => cases hpending

/-- Only its own turns move a call, and a new one has read no key. -/
theorem spends_step (accountIdFor : Text → Uuid) (turn : AccountTurn) {index : ℕ} {call : SpendCall}
    (hcall : (world.step sha256Hexdigest accountIdFor settings turn).spends[index]? = some call) :
    world.spends[index]? = some call ∨ (world.spends[index]? = none ∧ call.keyRow = none) ∨
      ∃ before faults networkKey, world.spends[index]? = some before ∧
        call = (world.spendStep sha256Hexdigest settings faults networkKey before).2 := by
  have hsame : (world.step sha256Hexdigest accountIdFor settings turn).spends = world.spends →
      world.spends[index]? = some call := fun heq => heq ▸ hcall
  cases turn with
  | meter other faults networkKey =>
      rw [step, AccountWorld.meter] at hcall
      cases hother : world.spends[other]? with
      | none =>
          rw [hother] at hcall
          exact .inl hcall
      | some current =>
          rw [hother] at hcall
          change (world.spends.set other _)[index]? = some call at hcall
          by_cases heq : other = index
          · subst heq
            rw [List.getElem?_set_self (List.getElem?_eq_some_iff.mp hother).1] at hcall
            exact .inr (.inr ⟨current, faults, networkKey, hother, (Option.some.inj hcall).symm⟩)
          · rw [List.getElem?_set_ne heq] at hcall
            exact .inl hcall
  | spend context =>
      rw [step] at hcall
      split at hcall
      · change (world.spends ++ [_])[index]? = some call at hcall
        cases hold : world.spends[index]? with
        | some before =>
            rw [List.getElem?_append_left (List.getElem?_eq_some_iff.mp hold).1, hold] at hcall
            exact .inl hcall
        | none =>
            rw [List.getElem?_append_right (List.getElem?_eq_none_iff.mp hold)] at hcall
            rw [List.mem_singleton.mp (List.mem_of_getElem? hcall)]
            exact .inr (.inl ⟨rfl, rfl⟩)
      · exact .inl hcall
  | operate op faults =>
      refine .inl (hsame ?_)
      rw [step, AccountWorld.operate]
      split <;> rfl
  | mint sessionId csrfToken accountId signInOnly =>
      refine .inl (hsame ?_)
      rw [step, AccountWorld.mint]
      split <;> rfl
  | signIn sessionId csrfToken accountId =>
      refine .inl (hsame ?_)
      rw [step, AccountWorld.signIn]
      split <;> rfl
  | persist object faults =>
      refine .inl (hsame ?_)
      rw [step, AccountWorld.persist]
      split <;> rfl
  | endSessions accountId cutoff now =>
      refine .inl (hsame ?_)
      rw [step]
      split <;> rfl
  | look lookup faults =>
      refine .inl (hsame ?_)
      rw [step, AccountWorld.look]
      split <;> rfl
  | deletion other faults wall =>
      refine .inl (hsame ?_)
      rw [step, AccountWorld.deletion]
      split
      · rename_i accountId phase _
        cases phase <;> rfl
      · rfl
  | _ => exact .inl (hsame rfl)

theorem spendStep_keyRow (sha256Hexdigest : Text → Text) (world : AccountWorld) (faults : SqlFaults)
    (networkKey : Uuid) (call : SpendCall) :
    let next := (world.spendStep sha256Hexdigest settings faults networkKey call).2
    next.context = call.context ∧
      (next.keyRow = call.keyRow ∨
        (call.phase = .keying ∧ next.keyRow = some (world.rowNow call.context.accountId))) := by
  rcases call with ⟨context, phase, keyRow⟩
  cases phase with
  | starting =>
      rw [spendStep]
      dsimp only
      split
      · exact ⟨rfl, .inl rfl⟩
      · split <;> exact ⟨rfl, .inl rfl⟩
  | looking phase => cases phase <;> exact ⟨rfl, .inl rfl⟩
  | keying => exact ⟨rfl, .inr ⟨rfl, rfl⟩⟩
  | _ => exact ⟨rfl, .inl rfl⟩

theorem after_concat (accountIdFor : Text → Uuid) (turns : List AccountTurn) (turn : AccountTurn) :
    world.after sha256Hexdigest accountIdFor settings (turns ++ [turn]) =
      (world.after sha256Hexdigest accountIdFor settings turns).step sha256Hexdigest accountIdFor
        settings turn := by
  rw [after, after, List.foldl_append]
  rfl

/-- The row that a call has read is the one that its account had at a turn of the run, in the
call. -/
theorem keyRow_read (accountIdFor : Text → Uuid) (clock : Instant) (store : Option OpenStore)
    (turns : List AccountTurn) {index : ℕ} {call : SpendCall} {read : Option AccountRow}
    (hcall : ((boot clock store).after sha256Hexdigest accountIdFor
      settings turns).spends[index]? = some call)
    (hread : call.keyRow = some read) :
    ∃ earlier later, turns = earlier ++ later ∧
      ((boot clock store).after sha256Hexdigest accountIdFor settings earlier).rowNow
        call.context.accountId = read ∧
      ∃ reading,
        ((boot clock store).after sha256Hexdigest accountIdFor settings earlier).spends[index]? =
          some reading ∧
        reading.phase = .keying := by
  induction turns using List.reverseRecOn generalizing call with
  | nil => cases hcall
  | append_singleton turns turn ih =>
      rw [after_concat] at hcall
      rcases spends_step settings accountIdFor turn hcall with hold | ⟨-, hnone⟩ |
        ⟨before, faults, networkKey, hold, rfl⟩
      · obtain ⟨earlier, later, rfl, hrow⟩ := ih hold hread
        exact ⟨earlier, later ++ [turn], List.append_assoc _ _ _, hrow⟩
      · cases hnone.symm.trans hread
      · obtain ⟨hcontext, hkept | ⟨hphase, hnew⟩⟩ := spendStep_keyRow settings sha256Hexdigest
          ((boot clock store).after sha256Hexdigest accountIdFor settings turns) faults
            networkKey before
        · obtain ⟨earlier, later, rfl, hrow⟩ := ih hold (hkept.symm.trans hread)
          exact ⟨earlier, later ++ [turn], List.append_assoc _ _ _, hcontext ▸ hrow⟩
        · refine ⟨turns, [turn], rfl, ?_, before, hold, hphase⟩
          rw [hcontext]
          exact Option.some.inj (hnew.symm.trans hread)

end AccountWorld

/-- A call of the spend meter, in any interleaving with deletes of accounts and everything else the
process does, answers the legacy header its own id; any other session the spend key that its
account's row had at a moment of the call (the id where none is stored); and the network's key only
for an id that has never had an account row, or was refused as deleted a session lifetime ago or
more. Whatever key it answers is that of the row at the step that answers, or that step has found no
mark of a deletion; so a session whose account's row has gone is refused until a session lifetime
after its account was. -/
theorem spend_meter_of_account (sha256Hexdigest : Text → Text) (accountIdFor : Text → Uuid)
    (settings : SessionSettings) (clock : Instant) {store : Option OpenStore}
    (hopens : AccountWorld.Opens store) (turns : List AccountTurn) (turn : AccountTurn) {index : ℕ}
    {before call : SpendCall} {key : Uuid} {shared : Bool} :
    let after := (AccountWorld.boot clock store).after sha256Hexdigest accountIdFor settings
    let accountId := call.context.accountId
    (after turns).spends[index]? = some before → before.outcome = none →
    (after (turns ++ [turn])).spends[index]? = some call → call.outcome = some (.meter key shared) →
    (call.context.legacy = true → key = accountId ∧ shared = false) ∧
    (call.context.legacy = false → shared = false → ∃ earlier later row,
      turns ++ [turn] = earlier ++ later ∧
      (after earlier).rowNow accountId = some row ∧ key = row.spendKey.getD accountId ∧
      ∃ reading, (after earlier).spends[index]? = some reading ∧ reading.phase = .keying) ∧
    (call.context.legacy = false → shared = true → accountId ∉ (after turns).held ∨
      ∃ refusedAt, (accountId, refusedAt) ∈ (after turns).refusals ∧
        refusedAt.ahead sessionTtl ≤ (after turns).clock) ∧
    (call.context.legacy = false → (after turns).RowKey accountId key ∨
      (after turns).repository.accountIsGoing accountId (after turns).clock = false) ∧
    (call.context.legacy = false → accountId ∈ (after turns).held →
      ¬(after turns).HasAccount accountId →
      ∃ refusedAt, (accountId, refusedAt) ∈ (after turns).refusals ∧
        refusedAt.ahead sessionTtl ≤ (after turns).clock) := by
  intro after accountId hbefore hpending hcall hanswer
  have hlawful := (AccountWorld.lawful_boot sha256Hexdigest clock hopens).after settings
    accountIdFor turns
  have hmeter : (after turns).MeterOf call.context call.keyRow key shared := by
    have hstep := hcall
    rw [show after (turns ++ [turn]) = _
      from AccountWorld.after_concat settings accountIdFor turns turn] at hstep
    rcases (after turns).spends_step settings accountIdFor turn hstep with
      hold | ⟨hnone, -⟩ | ⟨current, faults, networkKey, hold, rfl⟩
    · cases hold.symm.trans hbefore
      cases hpending.symm.trans hanswer
    · cases hnone.symm.trans hbefore
    · cases hold.symm.trans hbefore
      exact (hlawful.spends before (List.mem_of_getElem? hbefore)).meter settings hlawful
        hpending hanswer
  refine ⟨hmeter.legacy, fun hlegacy hshared => ?_, hmeter.network, hmeter.checked,
    hmeter.lapsed hlawful.toMarked⟩
  obtain ⟨row, hrow, -, hkey⟩ := hmeter.own hlegacy hshared
  obtain ⟨earlier, later, hturns, hread, hreading⟩ :=
    AccountWorld.keyRow_read settings accountIdFor clock store (turns ++ [turn]) hcall hrow
  exact ⟨earlier, later, row, hturns, hread, hkey, hreading⟩

/-- An account that is signed in, and a process that has opened its store. -/
def signedInStore : OpenStore where
  handle := ⟨true, true, true, false⟩
  db :=
    { SessionDb.empty with accounts := [⟨1, "sub".toList, "mail".toList, [], [], some 7, none⟩] }

/-- A sign-in, and a call of the spend meter for its session up to its first read of the account. -/
def signedInTurns : List AccountTurn :=
  [.signIn "s".toList [] 1, .spend ⟨"s".toList, 1, false, false⟩, .meter 0 (fun _ => none) 9,
    .meter 0 (fun _ => none) 9, .meter 0 (fun _ => none) 9, .meter 0 (fun _ => none) 9]

/-- The delete of the account in between, two reads that find no row, and more than two hours. -/
def stalledTurns : List AccountTurn :=
  signedInTurns ++ .delete 1 :: List.replicate 6 (.deletion 0 (fun _ => none) ⟨0, instants_pos⟩) ++
    [.meter 0 (fun _ => none) 9, .meter 0 (fun _ => none) 9, .tick (sessionTtl + 1)]

def longestIdle : SessionSettings := ⟨sessionTtl, le_rfl⟩

theorem opens_signedInStore : AccountWorld.Opens (some signedInStore) := by
  refine ⟨?_, ?_⟩
  · rintro opened ⟨⟩
    exact List.nodup_nil
  · rintro opened ⟨⟩ -
    rfl

/-- A signed-in session spends its account's key. -/
theorem signed_in_meter_own :
    let after :=
      (AccountWorld.boot ⟨0, by decide⟩ (some signedInStore)).after id (fun _ => 0) longestIdle
    let turn : AccountTurn := .meter 0 (fun _ => none) 9
    (((after (signedInTurns ++ [turn])).spends[0]?).bind SpendCall.outcome) =
      some (.meter 7 false) ∧
    ∃ earlier later row, signedInTurns ++ [turn] = earlier ++ later ∧
      (after earlier).rowNow 1 = some row ∧
      (7 : Uuid) = row.spendKey.getD 1 := by
  intro after turn
  have hanswer : (((after (signedInTurns ++ [turn])).spends[0]?).bind SpendCall.outcome) =
      some (.meter 7 false) := by
    decide +kernel
  have hbefore : ((after signedInTurns).spends[0]?).isSome = true := by decide +kernel
  have hpending : (((after signedInTurns).spends[0]?).bind SpendCall.outcome) = none := by
    decide +kernel
  have hcontext : ((after (signedInTurns ++ [turn])).spends[0]?).map (fun call =>
      call.context.accountId) = some 1 := by
    decide +kernel
  have hlegacy : ((after (signedInTurns ++ [turn])).spends[0]?).map (fun call =>
      call.context.legacy) = some false := by
    decide +kernel
  obtain ⟨before, hbefore⟩ := Option.isSome_iff_exists.mp hbefore
  obtain ⟨call, hcall, houtcome⟩ := Option.bind_eq_some_iff.mp hanswer
  rw [hbefore] at hpending
  rw [hcall] at hcontext hlegacy
  have hmeter := spend_meter_of_account id (fun _ => 0) longestIdle ⟨0, by decide⟩
    opens_signedInStore signedInTurns
    turn hbefore hpending hcall houtcome
  obtain ⟨earlier, later, row, hturns, hrow, hkey, -⟩ := hmeter.2.1 (Option.some.inj hlegacy) rfl
  have haccount : call.context.accountId = 1 := Option.some.inj hcontext
  rw [haccount] at hrow hkey
  exact ⟨hanswer, earlier, later, row, hturns, hrow, hkey⟩

/-- A call that stalls for a session lifetime over the delete of its account spends the network's
allowance. -/
theorem stalled_meter_spends_network :
    let world := (AccountWorld.boot ⟨0, by decide⟩ (some signedInStore)).after id (fun _ => 0)
      longestIdle stalledTurns
    let world' := world.step id (fun _ => 0) longestIdle (.meter 0 (fun _ => none) 9)
    world'.spends[0]?.bind SpendCall.outcome = some (.meter 9 true) ∧ (1 : Uuid) ∈ world.held := by
  decide +kernel

end Quorum
