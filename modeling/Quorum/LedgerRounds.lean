import Quorum.LedgerMetering

/-! Rounds of priced requests while every reopen and every write succeeds. A round that nothing else
in flight disturbs lifts the installed handle: after the first it may be metered, after the second
it is sound, and in the third the request is metered. -/

namespace Quorum

/-! ### Landed writes -/

theorem isTrustworthy_insertEvent {handle : LedgerHandle} (now : ℕ) (billed : Bool)
    (hstamped : handle.StampedBy now)
    (h : StoreReconnect.feedbackLedgerMayBeMetered (some handle) = true) :
    StoreReconnect.feedbackLedgerIsTrustworthy (some (handle.insertEvent now billed true)) =
      true := by
  obtain ⟨success, failure, lost⟩ := handle
  simp only [StoreReconnect.feedbackLedgerMayBeMetered, StoreReconnect.feedbackLedgerIsStale,
    LedgerHandle.writeHealth, Bool.and_eq_true] at h
  obtain rfl : lost = 0 := of_decide_eq_true h.2
  have hhealth : (LedgerHandle.mk (some now) failure 0).writeHealth = .ok := by
    cases failure with
    | none => rfl
    | some failedAt =>
        cases success with
        | none => exact absurd h.1 (by simp)
        | some succeededAt =>
            have hsuccess : succeededAt ≤ now := hstamped.1 succeededAt rfl
            have hlate : ¬ failedAt ≥ succeededAt := fun hlate => absurd h.1 (by simp [hlate])
            have hearly : ¬ failedAt ≥ now := by omega
            exact if_neg hearly
  simp [StoreReconnect.feedbackLedgerIsTrustworthy, LedgerHandle.insertEvent, hhealth]

/-- A handle that was opened without a failed write may be metered. -/
theorem mayBeMetered_opened (now : ℕ) (landed : Bool) :
    StoreReconnect.feedbackLedgerMayBeMetered (some (LedgerHandle.opened now landed false)) =
      true := by
  cases landed <;> rfl

namespace ReconnectWorld

def MayMeter (world : ReconnectWorld) (store : Option ℕ) : Prop :=
  StoreReconnect.feedbackLedgerMayBeMetered (world.fetch store) = true

def Trusts (world : ReconnectWorld) (store : Option ℕ) : Prop :=
  StoreReconnect.feedbackLedgerIsTrustworthy (world.fetch store) = true

/-- Whatever may be metered, or is trusted, stays so; the module's own state is untouched. -/
structure Calmer (world world' : ReconnectWorld) : Prop where
  installed : world'.installed = world.installed
  lastAttemptAt : world'.lastAttemptAt = world.lastAttemptAt
  clock : world.clock ≤ world'.clock
  mayMeter : ∀ store, world.MayMeter store → world'.MayMeter store
  trusts : ∀ store, world.Trusts store → world'.Trusts store

variable {settings : ReconnectSettings} {world : ReconnectWorld}

theorem mayMeter_of_trusts {store : Option ℕ} (h : world.Trusts store) : world.MayMeter store :=
  StoreReconnect.mayBeMetered_of_isTrustworthy h

/-- What may be metered is a handle that was opened. -/
theorem exists_of_mayMeter {store : Option ℕ} (h : world.MayMeter store) :
    ∃ id handle, store = some id ∧ world.handles[id]? = some handle := by
  cases store with
  | none => exact absurd h Bool.false_ne_true
  | some id =>
      cases hget : world.handles[id]? with
      | none =>
          rw [MayMeter, fetch, Option.bind_some, hget] at h
          exact absurd h Bool.false_ne_true
      | some handle => exact ⟨id, handle, rfl, hget⟩

theorem fetch_writeTo_self {id : ℕ} {handle : LedgerHandle}
    (hget : world.handles[id]? = some handle) (billed landed : Bool) :
    (world.writeTo id billed landed).fetch (some id) =
      some (handle.insertEvent world.clock billed landed) := by
  rw [fetch, Option.bind_some, handles_writeTo, List.getElem?_modify_eq, hget]
  rfl

theorem fetch_writeTo_of_ne {id : ℕ} {store : Option ℕ} (hstore : store ≠ some id)
    (billed landed : Bool) :
    (world.writeTo id billed landed).fetch store = world.fetch store := by
  cases store with
  | none => rfl
  | some other =>
      have hother : id ≠ other := fun heq => hstore (heq ▸ rfl)
      rw [fetch, Option.bind_some, handles_writeTo, List.getElem?_modify_ne _ _ hother]
      rfl

/-- A landed write makes a handle that may be metered sound. -/
theorem Coherent.trusts_writeTo (h : world.Coherent) {id : ℕ} (billed : Bool)
    (hmay : world.MayMeter (some id)) : (world.writeTo id billed true).Trusts (some id) := by
  obtain ⟨_, handle, heq, hget⟩ := exists_of_mayMeter hmay
  cases heq
  rw [MayMeter, fetch, Option.bind_some, hget] at hmay
  rw [Trusts, fetch_writeTo_self hget]
  exact isTrustworthy_insertEvent world.clock billed
    (h.stamps handle (List.mem_of_getElem? hget)) hmay

theorem Coherent.calmer_writeTo (h : world.Coherent) (id : ℕ) (billed : Bool) :
    world.Calmer (world.writeTo id billed true) where
  installed := rfl
  lastAttemptAt := rfl
  clock := le_refl _
  mayMeter := fun store hstore => by
    by_cases hid : store = some id
    · subst hid
      exact mayMeter_of_trusts (h.trusts_writeTo billed hstore)
    · rwa [MayMeter, fetch_writeTo_of_ne hid]
  trusts := fun store hstore => by
    by_cases hid : store = some id
    · subst hid
      exact h.trusts_writeTo billed (mayMeter_of_trusts hstore)
    · rwa [Trusts, fetch_writeTo_of_ne hid]

/-- The handles, the installed one and the cooldown stamp are as before. -/
theorem Calmer.of_eq {world world' : ReconnectWorld} (hhandles : world'.handles = world.handles)
    (hinstalled : world'.installed = world.installed)
    (hattempt : world'.lastAttemptAt = world.lastAttemptAt) (hclock : world.clock ≤ world'.clock) :
    world.Calmer world' := by
  have hfetch : ∀ store, world'.fetch store = world.fetch store := by
    intro store
    rw [fetch, fetch, hhandles]
  refine ⟨hinstalled, hattempt, hclock, fun store hstore => ?_, fun store hstore => ?_⟩
  · rwa [MayMeter, hfetch]
  · rwa [Trusts, hfetch]

theorem Calmer.enter (request : ℕ) (phase : PricedPhase) (events : List LedgerEvent) :
    world.Calmer (world.enter request phase events) := .of_eq rfl rfl rfl (le_refl _)

/-! ### Quiet turns -/

end ReconnectWorld

/-- A phase in which a request only reads. -/
def PricedPhase.ReadsOnly : PricedPhase → Prop
  | .deciding _ | .checking _ _ | .judged _ _ _ | .charging _ | .metering _ | .decided _ => True
  | _ => False

/-- A turn in which every write lands, every open returns, every thread starts, and no estimate
arrives. -/
def LedgerTurn.Succeeds : LedgerTurn → Prop
  | .tick _ | .charge _ => True
  | .write _ _ landed | .record _ landed => landed = true
  | .estimate _ => False
  | .request _ threadStarts => threadStarts = true
  | .reopen _ outcome => ∃ landed, outcome = .returned landed false

namespace ReconnectWorld

/-- Nothing of the request is in flight that could still reopen the ledger or touch the flag. -/
structure Settled (world : ReconnectWorld) (id : ℕ) : Prop where
  request : ∀ phase ∈ world.requests id, phase.ReadsOnly
  reopen : ∀ phase ∈ world.reopens id, phase = .ended

/-- The turn is the request's own, or of one that is settled. -/
def Quiet (world : ReconnectWorld) (request : ℕ) : LedgerTurn → Prop
  | .request other _ => other = request ∨ ∀ phase ∈ world.requests other, phase.ReadsOnly
  | .reopen other _ => other = request ∨ ∀ phase ∈ world.reopens other, phase = .ended
  | _ => True

variable (settings : ReconnectSettings) in
def QuietTurns (request : ℕ) : ReconnectWorld → List LedgerTurn → Prop
  | _, [] => True
  | world, turn :: turns =>
      world.Quiet request turn ∧ QuietTurns request (world.step settings turn) turns

variable {settings : ReconnectSettings} {world : ReconnectWorld} {request : ℕ}

/-- A request that only reads leaves all but its own entry alone. -/
theorem proceed_readsOnly (settings : ReconnectSettings) (world : ReconnectWorld)
    {phase : PricedPhase} (hphase : phase.ReadsOnly) (request : ℕ) (threadStarts : Bool) :
    world.proceed settings request phase threadStarts = world ∨
      ∃ phase' events, phase'.ReadsOnly ∧
        world.proceed settings request phase threadStarts = world.enter request phase' events := by
  have hgate : ∀ store, ∃ phase' events, phase'.ReadsOnly ∧
      world.gate request store = world.enter request phase' events := by
    intro store
    cases store with
    | none => exact ⟨_, _, by trivial, rfl⟩
    | some handle =>
        rw [gate]
        split
        · exact ⟨_, _, by trivial, rfl⟩
        · exact ⟨_, _, by trivial, rfl⟩
  cases phase with
  | deciding tried => exact .inr ⟨_, _, by trivial, rfl⟩
  | checking tried store => exact .inr ⟨_, _, by trivial, rfl⟩
  | judged tried store trustworthy =>
      rw [proceed]
      split
      · exact .inr ⟨_, _, by trivial, rfl⟩
      · exact .inr (hgate store)
  | charging store => exact .inr (hgate store)
  | metering handle => exact .inr ⟨_, _, by trivial, rfl⟩
  | decided decision => exact .inl rfl
  | _ => exact hphase.elim

/-- What a quiet turn that succeeds does: it is a turn of the request or of its reopen, or it only
calms. -/
theorem step_quiet (settings : ReconnectSettings) (h : world.Coherent) {turn : LedgerTurn}
    (hsucceeds : turn.Succeeds) (hquiet : world.Quiet request turn)
    (hpriced : world.requests request ≠ none) :
    (∃ phase, world.requests request = some phase ∧
      world.step settings turn = world.proceed settings request phase true) ∨
    (∃ phase landed, world.reopens request = some phase ∧
      world.step settings turn = world.proceedReopen request phase (.returned landed false)) ∨
    (world.Calmer (world.step settings turn) ∧
      (world.step settings turn).requests request = world.requests request ∧
      (world.step settings turn).reopens request = world.reopens request) := by
  have hsame : world.Calmer world := .of_eq rfl rfl rfl (le_refl _)
  cases turn with
  | tick span => exact .inr (.inr ⟨.of_eq rfl rfl rfl (Nat.le_add_right _ _), rfl, rfl⟩)
  | write handle billed landed =>
      cases hsucceeds
      exact .inr (.inr ⟨h.calmer_writeTo handle billed, rfl, rfl⟩)
  | record billed landed =>
      cases hsucceeds
      rw [step]
      cases world.installed with
      | none => exact .inr (.inr ⟨hsame, rfl, rfl⟩)
      | some handle => exact .inr (.inr ⟨h.calmer_writeTo handle billed, rfl, rfl⟩)
  | estimate other => exact hsucceeds.elim
  | charge other =>
      rw [step]
      cases hother : world.requests other with
      | some phase => exact .inr (.inr ⟨hsame, rfl, rfl⟩)
      | none =>
          by_cases heq : other = request
          · subst heq
            exact absurd hother hpriced
          · exact .inr (.inr ⟨.enter _ _ _, Function.update_of_ne (Ne.symm heq) _ _, rfl⟩)
  | request other threadStarts =>
      cases hsucceeds
      cases hother : world.requests other with
      | none =>
          rw [step, hother]
          exact .inr (.inr ⟨hsame, rfl, rfl⟩)
      | some phase =>
          have hturn : world.step settings (.request other true) =
              world.proceed settings other phase true := by
            rw [step, hother]
          rw [hturn]
          by_cases heq : other = request
          · subst heq
            exact .inl ⟨phase, hother, rfl⟩
          · have hreads := (hquiet.resolve_left heq) phase hother
            rcases proceed_readsOnly settings world hreads other true with
              hstep | ⟨phase', events, -, hstep⟩
            · rw [hstep]
              exact .inr (.inr ⟨hsame, rfl, rfl⟩)
            · rw [hstep]
              exact .inr (.inr ⟨.enter _ _ _, Function.update_of_ne (Ne.symm heq) _ _, rfl⟩)
  | reopen other outcome =>
      obtain ⟨landed, rfl⟩ := hsucceeds
      rw [step]
      cases hother : world.reopens other with
      | none => exact .inr (.inr ⟨hsame, rfl, rfl⟩)
      | some phase =>
          by_cases heq : other = request
          · subst heq
            exact .inr (.inl ⟨phase, landed, hother, rfl⟩)
          · cases (hquiet.resolve_left heq) phase hother
            exact .inr (.inr ⟨hsame, rfl, rfl⟩)

/-- The ledger and the requests are the same, and so are the reopens of the others. -/
structure SameLedger (id : ℕ) (world world' : ReconnectWorld) : Prop where
  handles : world'.handles = world.handles
  installed : world'.installed = world.installed
  requests : world'.requests = world.requests
  reopens : ∀ other, other ≠ id → world'.reopens other = world.reopens other

/-- A request moves itself, in a world of the same ledger. -/
theorem proceed_enter (settings : ReconnectSettings) {other : ℕ} {phase : PricedPhase}
    (hphase : world.requests other = some phase) (threadStarts : Bool) :
    ∃ world' phase' events, world.SameLedger other world' ∧
      world.proceed settings other phase threadStarts = world'.enter other phase' events := by
  have hsame : world.SameLedger other world := ⟨rfl, rfl, rfl, fun _ _ => rfl⟩
  have hgate : ∀ store, ∃ world' phase' events, world.SameLedger other world' ∧
      world.gate other store = world'.enter other phase' events := by
    intro store
    cases store with
    | none => exact ⟨_, _, _, hsame, rfl⟩
    | some handle =>
        rw [gate]
        split
        · exact ⟨_, _, _, hsame, rfl⟩
        · exact ⟨_, _, _, hsame, rfl⟩
  cases phase with
  | flagRead tried store flag =>
      rw [proceed]
      split
      · exact ⟨_, _, _, hsame, rfl⟩
      · exact ⟨_, _, _, hsame, rfl⟩
  | recovered tried store =>
      exact ⟨{ world with triedWithoutRecovery := false }, _, _,
        ⟨rfl, rfl, rfl, fun _ _ => rfl⟩, rfl⟩
  | triggering tried store =>
      rw [proceed]
      split
      · exact ⟨_, _, _, hsame, rfl⟩
      · exact ⟨_, _, _, hsame, rfl⟩
  | due tried =>
      have hstamped : world.SameLedger other { world with lastAttemptAt := some world.clock } :=
        ⟨rfl, rfl, rfl, fun _ _ => rfl⟩
      rw [proceed, cooldownSection]
      split
      · split
        · exact ⟨_, _, _, hsame, rfl⟩
        · exact ⟨_, _, _, hstamped, rfl⟩
      · exact ⟨_, _, _, hstamped, rfl⟩
  | spawning tried =>
      rw [proceed, spawn]
      split
      · exact ⟨world.enterReopen other .opening [.started other], _, _,
          ⟨rfl, rfl, rfl, fun _ hne => Function.update_of_ne hne _ _⟩, rfl⟩
      · exact ⟨{ world with triedWithoutRecovery := true }, _, _,
          ⟨rfl, rfl, rfl, fun _ _ => rfl⟩, rfl⟩
  | judged tried store trustworthy =>
      rw [proceed]
      split
      · exact ⟨_, _, _, hsame, rfl⟩
      · exact hgate store
  | charging store => exact hgate store
  | decided decision =>
      refine ⟨world, .decided decision, [], hsame, ?_⟩
      rw [enter, Function.update_eq_self_iff.mpr hphase.symm]
      rfl
  | _ => exact ⟨_, _, _, hsame, rfl⟩

theorem requests_proceed (settings : ReconnectSettings) {other : ℕ} {phase : PricedPhase}
    (hphase : world.requests other = some phase) (threadStarts : Bool) :
    ∃ phase', (world.proceed settings other phase threadStarts).requests =
      Function.update world.requests other (some phase') := by
  obtain ⟨world', phase', events, hsame, hproceed⟩ := proceed_enter settings hphase threadStarts
  exact ⟨phase', by rw [hproceed, requests_enter, hsame.requests]⟩

theorem requests_proceedReopen (other : ℕ) (phase : ReopenPhase) (outcome : OpenOutcome) :
    (world.proceedReopen other phase outcome).requests = world.requests := by
  cases phase with
  | opening =>
      cases outcome with
      | raised => rfl
      | returned landed failed => rfl
  | _ => rfl

/-- A request that has arrived stays on record. -/
theorem priced_step (hpriced : world.requests request ≠ none) (turn : LedgerTurn) :
    (world.step settings turn).requests request ≠ none := by
  have hupdate : ∀ other phase,
      Function.update world.requests other (some phase) request ≠ none := by
    intro other phase
    rw [Function.update_apply]
    split
    · exact Option.some_ne_none phase
    · exact hpriced
  cases turn with
  | tick span => exact hpriced
  | write handle billed landed => exact hpriced
  | record billed landed =>
      rw [step]
      cases world.installed with
      | none => exact hpriced
      | some handle => exact hpriced
  | estimate other =>
      rw [step]
      cases world.requests other with
      | none => exact hupdate other _
      | some phase => exact hpriced
  | charge other =>
      rw [step]
      cases world.requests other with
      | none => exact hupdate other _
      | some phase => exact hpriced
  | request other threadStarts =>
      rw [step]
      cases hother : world.requests other with
      | none => exact hpriced
      | some phase =>
          obtain ⟨phase', hrequests⟩ := requests_proceed settings hother threadStarts
          exact fun hnone => hupdate other phase' (hrequests ▸ hnone)
  | reopen other outcome =>
      rw [step]
      cases world.reopens other with
      | none => exact hpriced
      | some phase =>
          exact fun hnone => hpriced (requests_proceedReopen other phase outcome ▸ hnone)

/-- What holds of a world with a priced request, and survives calm and the turns of the request and
of its reopen, survives quiet turns. -/
theorem quiet_induction {P : ReconnectWorld → Prop}
    (hcalm : ∀ world world',
      P world → world.Calmer world' → world'.requests request = world.requests request →
      world'.reopens request = world.reopens request → P world')
    (hproceed : ∀ world phase, P world → world.requests request = some phase →
      P (world.proceed settings request phase true))
    (hreopen : ∀ world phase landed, P world → world.reopens request = some phase →
      P (world.proceedReopen request phase (.returned landed false)))
    {turns : List LedgerTurn} {world : ReconnectWorld} (h : world.Coherent)
    (hpriced : world.requests request ≠ none) (hsucceed : ∀ turn ∈ turns, turn.Succeeds)
    (hquiet : QuietTurns settings request world turns) (hP : P world) :
    P (world.after settings turns) := by
  induction turns generalizing world with
  | nil => exact hP
  | cons turn turns ih =>
      have hsucceeds := hsucceed turn List.mem_cons_self
      have hnext : P (world.step settings turn) := by
        rcases step_quiet settings h hsucceeds hquiet.1 hpriced with
          ⟨phase, hphase, hstep⟩ | ⟨phase, landed, hphase, hstep⟩ | ⟨hcalmer, hrequests, hreopens⟩
        · rw [hstep]
          exact hproceed world phase hP hphase
        · rw [hstep]
          exact hreopen world phase landed hP hphase
        · exact hcalm _ _ hP hcalmer hrequests hreopens
      exact ih (h.step turn) (priced_step hpriced turn)
        (fun other hother => hsucceed other (List.mem_cons_of_mem _ hother)) hquiet.2 hnext

/-! ### The first round: a handle that may be metered -/

/-- A reopen is not held back by the cooldown. -/
def Due (settings : ReconnectSettings) (world : ReconnectWorld) : Prop :=
  ∀ last ∈ world.lastAttemptAt, last + settings.storeReconnectCooldown ≤ world.clock

theorem Due.calmer {world' : ReconnectWorld} (h : world.Due settings)
    (hcalmer : world.Calmer world') :
    world'.Due settings :=
      fun last hlast => (h last (hcalmer.lastAttemptAt ▸ hlast)).trans hcalmer.clock

end ReconnectWorld

/-- How far a reopen has come to a handle that may be metered. -/
def ReopenPhase.Mends (world : ReconnectWorld) : ReopenPhase → Prop
  | .opening => True
  | .configuring handle => world.MayMeter (some handle)
  | .judging _ | .concluding _ | .ended => world.MayMeter world.installed

/-- How far a request that has started no reopen has come: one is due, or the installed handle may
be metered. -/
def PricedPhase.Mends (settings : ReconnectSettings) (world : ReconnectWorld) : PricedPhase → Prop
  | .snapshotted _ | .due _ => world.Due settings
  | .fetched _ store | .flagRead _ store _ | .recovered _ store | .triggering _ store =>
      world.Due settings ∧ store = world.installed
  | .spawning _ => True
  | .deciding _ | .checking _ _ | .judged _ _ _ | .charging _ | .metering _ | .decided _ =>
      world.MayMeter world.installed

namespace ReconnectWorld

variable {settings : ReconnectSettings} {world : ReconnectWorld} {request : ℕ}

structure Mends (settings : ReconnectSettings) (id : ℕ) (world : ReconnectWorld) : Prop where
  reopen : ∀ phase, world.reopens id = some phase → phase.Mends world
  request : world.reopens id = none → ∀ phase, world.requests id = some phase →
    phase.Mends settings world

theorem Calmer.installed_mayMeter {world' : ReconnectWorld} (hcalmer : world.Calmer world')
    (h : world.MayMeter world.installed) : world'.MayMeter world'.installed := by
  rw [hcalmer.installed]
  exact hcalmer.mayMeter _ h

theorem Mends.calmer {world' : ReconnectWorld} (h : world.Mends settings request)
    (hcalmer : world.Calmer world') (hrequests : world'.requests request = world.requests request)
    (hreopens : world'.reopens request = world.reopens request) :
    world'.Mends settings request where
  reopen := fun phase hphase => by
    have hmends := h.reopen phase (hreopens ▸ hphase)
    cases phase with
    | opening => trivial
    | configuring handle => exact hcalmer.mayMeter _ hmends
    | _ => exact hcalmer.installed_mayMeter hmends
  request := fun hnone phase hphase => by
    have hmends := h.request (hreopens ▸ hnone) phase (hrequests ▸ hphase)
    cases phase with
    | snapshotted tried => exact hmends.calmer hcalmer
    | due tried => exact hmends.calmer hcalmer
    | fetched tried store => exact ⟨hmends.1.calmer hcalmer, hmends.2.trans hcalmer.installed.symm⟩
    | flagRead tried store flag =>
        exact ⟨hmends.1.calmer hcalmer, hmends.2.trans hcalmer.installed.symm⟩
    | recovered tried store =>
        exact ⟨hmends.1.calmer hcalmer, hmends.2.trans hcalmer.installed.symm⟩
    | triggering tried store =>
        exact ⟨hmends.1.calmer hcalmer, hmends.2.trans hcalmer.installed.symm⟩
    | spawning tried => trivial
    | _ => exact hcalmer.installed_mayMeter hmends

/-- The request enters a phase, and its reopen is where it was. -/
theorem Mends.enter {world' : ReconnectWorld} (h : world.Mends settings request)
    {phase : PricedPhase} {events : List LedgerEvent} (hreopens : world'.reopens = world.reopens)
    (hhandles : world'.handles = world.handles) (hinstalled : world'.installed = world.installed)
    (hphase : world.reopens request = none → phase.Mends settings world') :
    (world'.enter request phase events).Mends settings request where
  reopen := fun found hfound => by
    have hmends := h.reopen found (hreopens ▸ hfound)
    cases found with
    | opening => trivial
    | configuring handle =>
        rw [ReopenPhase.Mends, MayMeter, fetch, handles_enter, hhandles]
        exact hmends
    | _ =>
        rw [ReopenPhase.Mends, MayMeter, fetch, handles_enter, installed_enter, hhandles,
          hinstalled]
        exact hmends
  request := fun hnone found hfound => by
    rw [requests_enter, Function.update_self] at hfound
    cases hfound
    exact hphase (hreopens ▸ hnone)

theorem Mends.gate (h : world.Mends settings request) (store : Option ℕ)
    (hmay : world.reopens request = none → world.MayMeter world.installed) :
    (world.gate request store).Mends settings request := by
  cases store with
  | none => exact h.enter rfl rfl rfl hmay
  | some handle =>
      rw [ReconnectWorld.gate]
      split
      · exact h.enter rfl rfl rfl hmay
      · exact h.enter rfl rfl rfl hmay

theorem Mends.proceed {phase : PricedPhase} (h : world.Mends settings request)
    (hphase : world.requests request = some phase) :
    (world.proceed settings request phase true).Mends settings request := by
  have hmends : world.reopens request = none → phase.Mends settings world :=
    fun hnone => h.request hnone phase hphase
  cases phase with
  | snapshotted tried => exact h.enter rfl rfl rfl fun hnone => ⟨hmends hnone, rfl⟩
  | fetched tried store => exact h.enter rfl rfl rfl hmends
  | flagRead tried store flag =>
      rw [ReconnectWorld.proceed]
      split
      · exact h.enter rfl rfl rfl hmends
      · exact h.enter rfl rfl rfl hmends
  | recovered tried store => exact h.enter rfl rfl rfl hmends
  | triggering tried store =>
      rw [ReconnectWorld.proceed]
      split
      · rename_i hmay
        refine h.enter rfl rfl rfl fun hnone => ?_
        rw [(hmends hnone).2] at hmay
        exact hmay
      · exact h.enter rfl rfl rfl fun hnone => (hmends hnone).1
  | due tried =>
      rw [ReconnectWorld.proceed, cooldownSection]
      split
      · rename_i last hlast
        split
        · rename_i hearly
          exact h.enter rfl rfl rfl fun hnone =>
            absurd (hmends hnone last hlast) (Nat.not_le_of_lt hearly)
        · exact h.enter rfl rfl rfl fun _ => trivial
      · exact h.enter rfl rfl rfl fun _ => trivial
  | spawning tried =>
      have hopening : (world.spawn request tried true).reopens request = some .opening :=
        Function.update_self _ _ _
      refine ⟨fun found hfound => ?_,
        fun hnone => absurd (hopening.symm.trans hnone) (Option.some_ne_none _)⟩
      cases hopening.symm.trans hfound
      trivial
  | judged tried store trustworthy =>
      rw [ReconnectWorld.proceed]
      split
      · exact h.enter rfl rfl rfl hmends
      · exact h.gate store hmends
  | charging store => exact h.gate store hmends
  | decided decision => exact h
  | _ => exact h.enter rfl rfl rfl hmends

theorem Mends.proceedReopen {phase : ReopenPhase} {landed : Bool} (h : world.Mends settings request)
    (hphase : world.reopens request = some phase) :
    (world.proceedReopen request phase (.returned landed false)).Mends settings request := by
  have hmends := h.reopen phase hphase
  have hreopen : ∀ {world' : ReconnectWorld} {phase' : ReopenPhase} {events : List LedgerEvent},
      phase'.Mends (world'.enterReopen request phase' events) →
      (world'.enterReopen request phase' events).Mends settings request := by
    intro world' phase' events hphase'
    have hfound : (world'.enterReopen request phase' events).reopens request = some phase' :=
      Function.update_self _ _ _
    refine ⟨fun found hother => ?_,
      fun hnone => absurd (hfound.symm.trans hnone) (Option.some_ne_none _)⟩
    cases hfound.symm.trans hother
    exact hphase'
  cases phase with
  | opening =>
      refine hreopen ?_
      rw [ReopenPhase.Mends, MayMeter, fetch, handles_enterReopen, Option.bind_some,
        List.getElem?_concat_length]
      exact mayBeMetered_opened world.clock landed
  | configuring handle => exact hreopen hmends
  | judging handle => exact hreopen hmends
  | concluding trustworthy => exact hreopen hmends
  | ended => exact h

end ReconnectWorld

/-! ### The second round: a sound handle -/

/-- Where a request stands that finds the installed handle fit to be metered. -/
def PricedPhase.Steady (world : ReconnectWorld) : PricedPhase → Prop
  | .due _ | .spawning _ => False
  | .fetched _ store | .flagRead _ store _ | .recovered _ store | .triggering _ store =>
      store = world.installed
  | _ => True

namespace ReconnectWorld

variable {settings : ReconnectSettings} {world : ReconnectWorld} {request : ℕ}

/-- The installed handle may be metered, and the request starts no reopen. -/
structure Steady (id : ℕ) (world : ReconnectWorld) : Prop where
  mayMeter : world.MayMeter world.installed
  reopen : world.reopens id = none
  request : ∀ phase, world.requests id = some phase → phase.Steady world

theorem Steady.calmer {world' : ReconnectWorld} (h : world.Steady request)
    (hcalmer : world.Calmer world') (hrequests : world'.requests request = world.requests request)
    (hreopens : world'.reopens request = world.reopens request) : world'.Steady request where
  mayMeter := hcalmer.installed_mayMeter h.mayMeter
  reopen := hreopens.trans h.reopen
  request := fun phase hphase => by
    have hsteady := h.request phase (hrequests ▸ hphase)
    cases phase with
    | due tried => exact hsteady
    | spawning tried => exact hsteady
    | fetched tried store => exact hsteady.trans hcalmer.installed.symm
    | flagRead tried store flag => exact hsteady.trans hcalmer.installed.symm
    | recovered tried store => exact hsteady.trans hcalmer.installed.symm
    | triggering tried store => exact hsteady.trans hcalmer.installed.symm
    | _ => trivial

theorem Steady.enter {world' : ReconnectWorld} (h : world.Steady request) {phase : PricedPhase}
    {events : List LedgerEvent} (hreopens : world'.reopens = world.reopens)
    (hhandles : world'.handles = world.handles) (hinstalled : world'.installed = world.installed)
    (hphase : phase.Steady world') : (world'.enter request phase events).Steady request where
  mayMeter := by
    rw [MayMeter, fetch, handles_enter, installed_enter, hhandles, hinstalled]
    exact h.mayMeter
  reopen := (congrFun hreopens request).trans h.reopen
  request := fun found hfound => by
    rw [requests_enter, Function.update_self] at hfound
    cases hfound
    exact hphase

theorem Steady.gate (h : world.Steady request) (store : Option ℕ) :
    (world.gate request store).Steady request := by
  cases store with
  | none => exact h.enter rfl rfl rfl trivial
  | some handle =>
      rw [ReconnectWorld.gate]
      split
      · exact h.enter rfl rfl rfl trivial
      · exact h.enter rfl rfl rfl trivial

theorem Steady.proceed {phase : PricedPhase} (h : world.Steady request)
    (hphase : world.requests request = some phase) (threadStarts : Bool) :
    (world.proceed settings request phase threadStarts).Steady request := by
  have hsteady := h.request phase hphase
  cases phase with
  | snapshotted tried => exact h.enter rfl rfl rfl rfl
  | fetched tried store => exact h.enter rfl rfl rfl hsteady
  | flagRead tried store flag =>
      rw [ReconnectWorld.proceed]
      split
      · exact h.enter rfl rfl rfl hsteady
      · exact h.enter rfl rfl rfl hsteady
  | recovered tried store => exact h.enter rfl rfl rfl hsteady
  | triggering tried store =>
      have hmay : world.MayMeter store := by
        rw [show store = world.installed from hsteady]
        exact h.mayMeter
      rw [MayMeter] at hmay
      rw [ReconnectWorld.proceed, if_pos hmay]
      exact h.enter rfl rfl rfl trivial
  | due tried => exact hsteady.elim
  | spawning tried => exact hsteady.elim
  | judged tried store trustworthy =>
      rw [ReconnectWorld.proceed]
      split
      · exact h.enter rfl rfl rfl trivial
      · exact h.gate store
  | charging store => exact h.gate store
  | decided decision => exact h
  | _ => exact h.enter rfl rfl rfl trivial

end ReconnectWorld

/-! ### The third round: a metered request -/

/-- Where a request stands that judges and meters the installed handle, which is sound. -/
def PricedPhase.Trusting (world : ReconnectWorld) : PricedPhase → Prop
  | .checking _ store => store = world.installed
  | .judged _ store trustworthy => store = world.installed ∧ trustworthy = true
  | .charging _ => False
  | .decided decision => decision = .metered
  | _ => True

namespace ReconnectWorld

variable {settings : ReconnectSettings} {world : ReconnectWorld} {request : ℕ}

structure Trusting (id : ℕ) (world : ReconnectWorld) : Prop where
  steady : world.Steady id
  trusts : world.Trusts world.installed
  request : ∀ phase, world.requests id = some phase → phase.Trusting world

theorem Calmer.installed_trusts {world' : ReconnectWorld} (hcalmer : world.Calmer world')
    (h : world.Trusts world.installed) : world'.Trusts world'.installed := by
  rw [hcalmer.installed]
  exact hcalmer.trusts _ h

theorem Trusting.calmer {world' : ReconnectWorld} (h : world.Trusting request)
    (hcalmer : world.Calmer world') (hrequests : world'.requests request = world.requests request)
    (hreopens : world'.reopens request = world.reopens request) : world'.Trusting request where
  steady := h.steady.calmer hcalmer hrequests hreopens
  trusts := hcalmer.installed_trusts h.trusts
  request := fun phase hphase => by
    have htrusting := h.request phase (hrequests ▸ hphase)
    cases phase with
    | checking tried store => exact htrusting.trans hcalmer.installed.symm
    | judged tried store trustworthy =>
        exact ⟨htrusting.1.trans hcalmer.installed.symm, htrusting.2⟩
    | charging store => exact htrusting
    | decided decision => exact htrusting
    | _ => trivial

theorem Trusting.enter {world' : ReconnectWorld} (h : world.Trusting request) {phase : PricedPhase}
    {events : List LedgerEvent} (hhandles : world'.handles = world.handles)
    (hinstalled : world'.installed = world.installed) (hphase : phase.Trusting world')
    (hsteady : (world'.enter request phase events).Steady request) :
    (world'.enter request phase events).Trusting request where
  steady := hsteady
  trusts := by
    rw [Trusts, fetch, handles_enter, installed_enter, hhandles, hinstalled]
    exact h.trusts
  request := fun found hfound => by
    rw [requests_enter, Function.update_self] at hfound
    cases hfound
    exact hphase

theorem Trusting.proceed {phase : PricedPhase} (h : world.Trusting request)
    (hphase : world.requests request = some phase) (threadStarts : Bool) :
    (world.proceed settings request phase threadStarts).Trusting request := by
  have hsteady : (world.proceed settings request phase threadStarts).Steady request :=
    h.steady.proceed hphase threadStarts
  have htrusting := h.request phase hphase
  cases phase with
  | snapshotted tried => exact h.enter rfl rfl trivial hsteady
  | fetched tried store => exact h.enter rfl rfl trivial hsteady
  | flagRead tried store flag =>
      rw [ReconnectWorld.proceed] at hsteady ⊢
      split
      · rename_i hclear
        rw [if_pos hclear] at hsteady
        exact h.enter rfl rfl trivial hsteady
      · rename_i hkeep
        rw [if_neg hkeep] at hsteady
        exact h.enter rfl rfl trivial hsteady
  | recovered tried store => exact h.enter rfl rfl trivial hsteady
  | triggering tried store =>
      rw [ReconnectWorld.proceed] at hsteady ⊢
      split
      · rename_i hmay
        rw [if_pos hmay] at hsteady
        exact h.enter rfl rfl trivial hsteady
      · rename_i hmay
        rw [if_neg hmay] at hsteady
        exact h.enter rfl rfl trivial hsteady
  | due tried => exact (h.steady.request _ hphase).elim
  | spawning tried => exact (h.steady.request _ hphase).elim
  | deciding tried => exact h.enter rfl rfl rfl hsteady
  | checking tried store =>
      have hjudged : StoreReconnect.feedbackLedgerIsTrustworthy (world.fetch store) = true := by
        rw [show store = world.installed from htrusting]
        exact h.trusts
      exact h.enter rfl rfl ⟨htrusting, hjudged⟩ hsteady
  | judged tried store trustworthy =>
      obtain ⟨rfl, rfl⟩ := htrusting
      obtain ⟨id, handle, hinstalled, hget⟩ := exists_of_mayMeter h.steady.mayMeter
      have hmay : world.MayMeter (some id) := hinstalled ▸ h.steady.mayMeter
      rw [MayMeter] at hmay
      have hmetering : world.proceed settings request (.judged tried world.installed true)
          threadStarts =
          world.enter request (.metering id) [.checked request id] := by
        rw [ReconnectWorld.proceed, if_neg (by simp), hinstalled, ReconnectWorld.gate, if_pos hmay]
      rw [hmetering] at hsteady ⊢
      exact h.enter rfl rfl trivial hsteady
  | charging store => exact htrusting.elim
  | metering handle => exact h.enter rfl rfl rfl hsteady
  | decided decision => exact h

end ReconnectWorld

end Quorum
