import Mathlib.Algebra.Order.BigOperators.Group.Finset
import Quorum.LedgerRounds

/-! No fault is absorbing. The turns that what is in flight can still take bound how many rounds it
can disturb, so of enough rounds some three in a row are undisturbed, and the last of them is
metered. -/

namespace Quorum

/-! ### What is left to do -/

/-- The turns that a reopen can still take. -/
@[simp] def ReopenPhase.remaining : ReopenPhase → ℕ
  | .opening => 4
  | .configuring _ => 3
  | .judging _ => 2
  | .concluding _ => 1
  | .ended => 0

/-- The turns that a request and the reopen it may start can still take. -/
@[simp] def PricedPhase.remaining : PricedPhase → ℕ
  | .snapshotted _ => 15
  | .fetched _ _ => 14
  | .flagRead _ _ _ => 13
  | .recovered _ _ => 12
  | .triggering _ _ => 11
  | .due _ => 10
  | .spawning _ => 9
  | .deciding _ => 4
  | .checking _ _ => 3
  | .judged _ _ _ => 2
  | .charging _ => 2
  | .metering _ => 1
  | .decided _ => 0

namespace ReconnectWorld

variable {settings : ReconnectSettings} {world : ReconnectWorld} {request id : ℕ}

def remaining (world : ReconnectWorld) (id : ℕ) : ℕ :=
  (world.requests id).elim 0 PricedPhase.remaining + (world.reopens id).elim 0 ReopenPhase.remaining

theorem remaining_enter (world : ReconnectWorld) (request : ℕ) (phase : PricedPhase)
    (events : List LedgerEvent) :
    (world.enter request phase events).remaining request =
      phase.remaining + (world.reopens request).elim 0 ReopenPhase.remaining := by
  rw [remaining, requests_enter, reopens_enter, Function.update_self]
  rfl

theorem remaining_of_some {phase : PricedPhase} (hphase : world.requests request = some phase) :
    world.remaining request = phase.remaining
      + (world.reopens request).elim 0 ReopenPhase.remaining := by
  rw [remaining, hphase]
  rfl

theorem remaining_enter_lt {world' : ReconnectWorld} {phase phase' : PricedPhase}
    {events : List LedgerEvent} (hphase : world.requests request = some phase)
    (hreopens : world'.reopens = world.reopens) (hless : phase'.remaining < phase.remaining) :
    (world'.enter request phase' events).remaining request < world.remaining request := by
  rw [remaining_enter, remaining_of_some hphase, hreopens]
  exact Nat.add_lt_add_right hless _

theorem remaining_gate_lt {phase : PricedPhase} (hphase : world.requests request = some phase)
    (hless : 1 < phase.remaining) (store : Option ℕ) :
    (world.gate request store).remaining request < world.remaining request := by
  have hdegraded : PricedPhase.remaining (.decided .degraded) < phase.remaining :=
    Nat.lt_of_succ_lt hless
  cases store with
  | none => exact remaining_enter_lt hphase rfl hdegraded
  | some handle =>
      rw [gate]
      split
      · exact remaining_enter_lt hphase rfl hless
      · exact remaining_enter_lt hphase rfl hdegraded

/-- Each turn of a request that is not decided brings it closer to its end. -/
theorem remaining_proceed_lt {phase : PricedPhase} (hphase : world.requests request = some phase)
    (hopen : ∀ decision, phase ≠ .decided decision) (threadStarts : Bool) :
    (world.proceed settings request phase threadStarts).remaining
      request < world.remaining request := by
  have henter : ∀ {world' : ReconnectWorld} {phase' : PricedPhase} {events : List LedgerEvent},
      world'.reopens = world.reopens → phase'.remaining < phase.remaining →
      (world'.enter request phase' events).remaining request < world.remaining request :=
    fun hreopens hless => remaining_enter_lt hphase hreopens hless
  cases phase with
  | flagRead tried store flag =>
      rw [proceed]
      split
      · exact henter rfl (by simp)
      · exact henter rfl (by simp)
  | triggering tried store =>
      rw [proceed]
      split
      · exact henter rfl (by simp)
      · exact henter rfl (by simp)
  | due tried =>
      rw [proceed, cooldownSection]
      split
      · split
        · exact henter rfl (by simp)
        · exact henter rfl (by simp)
      · exact henter rfl (by simp)
  | spawning tried =>
      rw [proceed, spawn]
      split
      · rw [remaining_enter, remaining_of_some hphase, reopens_enterReopen, Function.update_self]
        exact Nat.lt_add_right _ (by simp)
      · exact henter rfl (by simp)
  | judged tried store trustworthy =>
      rw [proceed]
      split
      · exact henter rfl (by simp)
      · exact remaining_gate_lt hphase (by simp) store
  | charging store => exact remaining_gate_lt hphase (by simp) store
  | decided decision => exact absurd rfl (hopen decision)
  | _ => exact henter rfl (by simp)

theorem remaining_proceedReopen_lt {phase : ReopenPhase}
    (hphase : world.reopens request = some phase) (hopen : phase ≠ .ended) (outcome : OpenOutcome) :
    (world.proceedReopen request phase outcome).remaining request < world.remaining request := by
  have hless : ∀ {world' : ReconnectWorld} {phase' : ReopenPhase} {events : List LedgerEvent},
      world'.requests = world.requests → phase'.remaining < phase.remaining →
      (world'.enterReopen request phase' events).remaining request < world.remaining request := by
    intro world' phase' events hrequests hphase'
    rw [remaining, requests_enterReopen, reopens_enterReopen, Function.update_self, hrequests,
      remaining, hphase]
    exact Nat.add_lt_add_left hphase' _
  cases phase with
  | opening =>
      cases outcome with
      | raised => exact hless rfl (by simp)
      | returned landed failed => exact hless rfl (by simp)
  | ended => exact absurd rfl hopen
  | _ => exact hless rfl (by simp)

theorem reopens_proceedReopen_of_ne (hne : id ≠ request) (phase : ReopenPhase)
    (outcome : OpenOutcome) :
    (world.proceedReopen request phase outcome).reopens id = world.reopens id := by
  cases phase with
  | opening =>
      cases outcome with
      | raised => exact Function.update_of_ne hne _ _
      | returned landed failed => exact Function.update_of_ne hne _ _
  | ended => rfl
  | _ => exact Function.update_of_ne hne _ _

/-- A request and its reopen leave the others' entries alone. -/
theorem others_proceed (settings : ReconnectSettings) {phase : PricedPhase}
    (hphase : world.requests request = some phase) (hne : id ≠ request) (threadStarts : Bool) :
    (world.proceed settings request phase threadStarts).requests id = world.requests id ∧
      (world.proceed settings request phase threadStarts).reopens id = world.reopens id := by
  obtain ⟨world', phase', events, hsame, hproceed⟩ := proceed_enter settings hphase threadStarts
  rw [hproceed, requests_enter, reopens_enter, hsame.requests]
  exact ⟨Function.update_of_ne hne _ _, hsame.reopens id hne⟩

theorem remaining_proceed_of_ne {phase : PricedPhase} (hphase : world.requests request = some phase)
    (hne : id ≠ request) (threadStarts : Bool) :
    (world.proceed settings request phase threadStarts).remaining id = world.remaining id := by
  obtain ⟨hrequests, hreopens⟩ := others_proceed settings hphase hne threadStarts
  rw [remaining, remaining, hrequests, hreopens]

theorem remaining_proceedReopen_of_ne (hne : id ≠ request) (phase : ReopenPhase)
    (outcome : OpenOutcome) :
    (world.proceedReopen request phase outcome).remaining id = world.remaining id := by
  rw [remaining, remaining, requests_proceedReopen, reopens_proceedReopen_of_ne hne]

/-- A turn gives nobody that has arrived more to do. -/
theorem remaining_step_le (settings : ReconnectSettings) (turn : LedgerTurn) (hturn : turn.Succeeds)
    (hpriced : world.requests id ≠ none) :
    (world.step settings turn).remaining id ≤ world.remaining id := by
  cases turn with
  | tick span => exact le_refl _
  | write handle billed landed => exact le_refl _
  | record billed landed =>
      rw [step]
      cases world.installed with
      | none => exact le_refl _
      | some handle => exact le_refl _
  | estimate request => exact hturn.elim
  | charge request =>
      rw [step]
      cases hrequest : world.requests request with
      | some phase => exact le_refl _
      | none =>
          have hne : id ≠ request := fun heq => hpriced (heq ▸ hrequest)
          rw [remaining, requests_enter, reopens_enter, Function.update_of_ne hne]
          exact le_refl _
  | request request threadStarts =>
      rw [step]
      cases hrequest : world.requests request with
      | none => exact le_refl _
      | some phase =>
          by_cases hne : id = request
          · subst hne
            by_cases hopen : ∃ decision, phase = .decided decision
            · obtain ⟨decision, rfl⟩ := hopen
              exact le_refl _
            · exact (remaining_proceed_lt hrequest (not_exists.mp hopen) threadStarts).le
          · exact (remaining_proceed_of_ne hrequest hne threadStarts).le
  | reopen request outcome =>
      rw [step]
      cases hreopen : world.reopens request with
      | none => exact le_refl _
      | some phase =>
          by_cases hne : id = request
          · subst hne
            by_cases hended : phase = .ended
            · subst hended
              exact le_refl _
            · exact (remaining_proceedReopen_lt hreopen hended outcome).le
          · exact (remaining_proceedReopen_of_ne hne phase outcome).le

theorem after_append (settings : ReconnectSettings) (world : ReconnectWorld)
    (early late : List LedgerTurn) :
    world.after settings (early ++ late) = (world.after settings early).after settings late :=
  List.foldl_append

theorem priced_after (hpriced : world.requests request ≠ none) (turns : List LedgerTurn) :
    (world.after settings turns).requests request ≠ none := by
  induction turns generalizing world with
  | nil => exact hpriced
  | cons turn turns ih => exact ih (priced_step hpriced turn)

theorem quietTurns_append {early late : List LedgerTurn} {world : ReconnectWorld} :
    QuietTurns settings request world (early ++ late) ↔
      QuietTurns settings request world early ∧
        QuietTurns settings request (world.after settings early) late := by
  induction early generalizing world with
  | nil => exact (true_and _).symm ▸ Iff.rfl
  | cons turn early ih => rw [List.cons_append, QuietTurns, QuietTurns, ih, and_assoc]; rfl

/-! ### Rounds -/

/-- The ids have arrived, and no other is in flight. -/
structure Roster (ids : Finset ℕ) (world : ReconnectWorld) : Prop where
  priced : ∀ id ∈ ids, world.requests id ≠ none
  others : ∀ id, id ∉ ids → world.Settled id

/-- All that is in flight can still do. -/
def inFlight (world : ReconnectWorld) (ids : Finset ℕ) : ℕ := ∑ id ∈ ids, world.remaining id

theorem Settled.step (h : world.Settled id) {turn : LedgerTurn} (hturn : turn.Succeeds) :
    (world.step settings turn).Settled id := by
  have hsame : ∀ {world' : ReconnectWorld}, world'.requests id = world.requests id →
      world'.reopens id = world.reopens id → world'.Settled id := by
    intro world' hrequests hreopens
    exact ⟨fun phase hphase => h.request phase (hrequests ▸ hphase),
      fun phase hphase => h.reopen phase (hreopens ▸ hphase)⟩
  have henter : ∀ {phase : PricedPhase} {events : List LedgerEvent}, phase.ReadsOnly →
      (world.enter id phase events).Settled id := by
    intro phase events hreads
    refine ⟨fun found hfound => ?_, h.reopen⟩
    rw [requests_enter, Function.update_self] at hfound
    cases hfound
    exact hreads
  cases turn with
  | tick span => exact hsame rfl rfl
  | write handle billed landed => exact hsame rfl rfl
  | record billed landed =>
      rw [ReconnectWorld.step]
      cases world.installed with
      | none => exact h
      | some handle => exact hsame rfl rfl
  | estimate request => exact hturn.elim
  | charge request =>
      rw [ReconnectWorld.step]
      cases hrequest : world.requests request with
      | some phase => exact h
      | none =>
          by_cases hne : id = request
          · subst hne
            exact henter trivial
          · exact hsame (Function.update_of_ne hne _ _) rfl
  | request request threadStarts =>
      cases hrequest : world.requests request with
      | none =>
          rw [ReconnectWorld.step, hrequest]
          exact h
      | some phase =>
          rw [step_request _ hrequest]
          by_cases hne : id = request
          · subst hne
            rcases proceed_readsOnly settings world (h.request phase hrequest) id
              threadStarts with hstep | ⟨phase', events, hreads, hstep⟩
            · rw [hstep]
              exact h
            · rw [hstep]
              exact henter hreads
          · obtain ⟨hrequests, hreopens⟩ := others_proceed settings hrequest hne threadStarts
            exact hsame hrequests hreopens
  | reopen request outcome =>
      cases hreopen : world.reopens request with
      | none =>
          rw [ReconnectWorld.step, hreopen]
          exact h
      | some phase =>
          rw [step_reopen _ hreopen]
          by_cases hne : id = request
          · subst hne
            cases h.reopen phase hreopen
            exact h
          · exact hsame (congrFun (requests_proceedReopen request phase outcome) id)
              (reopens_proceedReopen_of_ne hne phase outcome)

theorem Settled.after {turns : List LedgerTurn} (hturns : ∀ turn ∈ turns, turn.Succeeds)
    (h : world.Settled id) :
    (world.after settings turns).Settled id := by
  induction turns generalizing world with
  | nil => exact h
  | cons turn turns ih =>
      exact ih (fun other hother => hturns other (List.mem_cons_of_mem _ hother))
        (h.step (hturns turn List.mem_cons_self))

/-- A turn that is not quiet uses up what someone in flight could still do. -/
theorem inFlight_step (settings : ReconnectSettings) {ids : Finset ℕ} {turn : LedgerTurn}
    (hturn : turn.Succeeds) (hpriced : ∀ id ∈ ids, world.requests id ≠ none)
    (hothers : ∀ id, id ∉ ids → id ≠ request → world.Settled id) :
    (world.step settings turn).inFlight ids ≤ world.inFlight ids ∧
      (world.Quiet request turn ∨
        (world.step settings turn).inFlight ids < world.inFlight ids) := by
  have hle : ∀ id ∈ ids, (world.step settings turn).remaining id ≤ world.remaining id :=
    fun id hid => remaining_step_le settings turn hturn (hpriced id hid)
  refine ⟨Finset.sum_le_sum hle, ?_⟩
  by_cases hquiet : world.Quiet request turn
  · exact .inl hquiet
  · right
    cases turn with
    | request other threadStarts =>
        simp only [Quiet, not_or, not_forall] at hquiet
        obtain ⟨hne, phase, hphase, hreads⟩ := hquiet
        have hmem : other ∈ ids := by
          by_contra hout
          exact hreads ((hothers other hout hne).request phase hphase)
        have hopen : ∀ decision, phase ≠ .decided decision :=
          fun decision heq => hreads (heq ▸ trivial)
        refine Finset.sum_lt_sum hle ⟨other, hmem, ?_⟩
        rw [step, hphase]
        exact remaining_proceed_lt hphase hopen threadStarts
    | reopen other outcome =>
        simp only [Quiet, not_or, not_forall] at hquiet
        obtain ⟨hne, phase, hphase, hended⟩ := hquiet
        have hmem : other ∈ ids := by
          by_contra hout
          exact hended ((hothers other hout hne).reopen phase hphase)
        refine Finset.sum_lt_sum hle ⟨other, hmem, ?_⟩
        rw [step, hphase]
        exact remaining_proceedReopen_lt hphase hended outcome
    | _ => exact absurd trivial hquiet

/-- A run of turns that succeed: all are quiet, or someone in flight has less to do. -/
theorem inFlight_after {ids : Finset ℕ} {turns : List LedgerTurn}
    (hturns : ∀ turn ∈ turns, turn.Succeeds) {world : ReconnectWorld}
    (hpriced : ∀ id ∈ ids, world.requests id ≠ none)
    (hothers : ∀ id, id ∉ ids → id ≠ request → world.Settled id) :
    (world.after settings turns).inFlight ids ≤ world.inFlight ids ∧
      (QuietTurns settings request world turns ∨
        (world.after settings turns).inFlight ids < world.inFlight ids) := by
  induction turns generalizing world with
  | nil => exact ⟨le_refl _, .inl trivial⟩
  | cons turn turns ih =>
      have hturn := hturns turn List.mem_cons_self
      obtain ⟨hle, hstep⟩ := inFlight_step settings hturn hpriced hothers
      obtain ⟨hle', hafter⟩ := ih (fun other hother => hturns other (List.mem_cons_of_mem _ hother))
        (fun id hid => priced_step (hpriced id hid) turn) (fun id hid hne =>
          (hothers id hid hne).step hturn)
      refine ⟨hle'.trans hle, ?_⟩
      rcases hstep with hquiet | hless
      · exact hafter.imp (fun hturns => ⟨hquiet, hturns⟩) fun hless => lt_of_lt_of_le hless hle
      · exact .inr (lt_of_le_of_lt hle' hless)

end ReconnectWorld

/-- A priced request after a wait, and the turns up to the next one. -/
structure LedgerRound where
  request : ℕ
  wait : ℕ
  turns : List LedgerTurn

namespace LedgerRound

variable (settings : ReconnectSettings) (world : ReconnectWorld)

def play (round : LedgerRound) : ReconnectWorld :=
  world.after settings (.tick round.wait :: .estimate round.request :: round.turns)

def playAll (rounds : List LedgerRound) : ReconnectWorld :=
  rounds.foldl (fun world round => round.play settings world) world

/-- A round of a new request, a cooldown after the last: every write lands and every reopen
succeeds, of the request and of all else that takes turns; the request is decided, its reopen is
done and a write was recorded. -/
structure Succeeds (round : LedgerRound) : Prop where
  new : world.requests round.request = none ∧ world.reopens round.request = none
  spaced : settings.storeReconnectCooldown ≤ round.wait
  turns : ∀ turn ∈ round.turns, turn.Succeeds
  records : ∃ billed, .record billed true ∈ round.turns
  decides : ∃ decision, (round.play settings world).requests round.request =
    some (.decided decision)
  ends : ∀ phase ∈ (round.play settings world).reopens round.request, phase = .ended

def AllSucceed : ReconnectWorld → List LedgerRound → Prop
  | _, [] => True
  | world, round :: rounds =>
      round.Succeeds settings world ∧ AllSucceed (round.play settings world) rounds

variable {settings : ReconnectSettings} {world : ReconnectWorld} {round : LedgerRound}

/-- The world in which the request of a round has arrived. -/
def arrive (world : ReconnectWorld) (round : LedgerRound) : ReconnectWorld :=
  { world with clock := world.clock + round.wait }.enter round.request
    (.snapshotted world.triedWithoutRecovery)
    [.snapshot round.request world.triedWithoutRecovery]

theorem Succeeds.play_eq (h : round.Succeeds settings world) :
    round.play settings world = (arrive world round).after settings round.turns := by
  have hnew : (world.step settings (.tick round.wait)).requests round.request = none := h.new.1
  have harrive : (world.step settings (.tick round.wait)).step settings (.estimate round.request) =
      arrive world round := ReconnectWorld.step_estimate settings hnew
  rw [play, ReconnectWorld.after, List.foldl_cons, List.foldl_cons, harrive, ReconnectWorld.after]

theorem coherent_arrive (h : world.Coherent) (hnew : world.requests round.request = none) :
    (arrive world round).Coherent := by
  refine (h.tick round.wait).enter ?_ List.mem_cons_self (.cons ?_ h.justified)
  · intro event hevent
    cases List.mem_singleton.mp hevent
    rfl
  · exact fun tried hmem => h.recorded round.request tried hmem hnew

theorem requests_arrive : (arrive world round).requests round.request =
    some (.snapshotted world.triedWithoutRecovery) := Function.update_self _ _ _

/-- A round that nothing else in flight disturbs. -/
def Quiet (settings : ReconnectSettings) (world : ReconnectWorld) (round : LedgerRound) : Prop :=
  ReconnectWorld.QuietTurns settings round.request (arrive world round) round.turns

theorem calmer_arrive : world.Calmer (arrive world round) :=
  .of_eq rfl rfl rfl (Nat.le_add_right _ _)

/-- After one quiet round the installed handle may be metered. -/
theorem Succeeds.mayMeter_of_quiet (h : round.Succeeds settings world) (hcoherent : world.Coherent)
    (hquiet : round.Quiet settings world) :
    (round.play settings world).MayMeter (round.play settings world).installed := by
  have harrived : (arrive world round).Mends settings round.request := by
    refine ⟨fun phase hphase => ?_, fun _ phase hphase => ?_⟩
    · exact absurd (hphase.symm.trans h.new.2) (Option.some_ne_none phase)
    · cases requests_arrive.symm.trans hphase
      exact fun last hlast => Nat.add_le_add (hcoherent.attempts last hlast) h.spaced
  have hmends : (round.play settings world).Mends settings round.request := by
    rw [h.play_eq]
    refine ReconnectWorld.quiet_induction
      (P := ReconnectWorld.Mends settings round.request) ?_ ?_ ?_
      (coherent_arrive hcoherent h.new.1) ?_ h.turns hquiet harrived
    · exact fun world world' hworld hcalm hrequests hreopens =>
        hworld.calmer hcalm hrequests hreopens
    · exact fun world phase hworld hphase => hworld.proceed hphase
    · exact fun world phase landed hworld hphase => hworld.proceedReopen hphase
    · rw [requests_arrive]
      exact Option.some_ne_none _
  obtain ⟨decision, hdecided⟩ := h.decides
  cases hreopen : (round.play settings world).reopens round.request with
  | none => exact hmends.request hreopen _ hdecided
  | some phase =>
      cases h.ends phase hreopen
      exact hmends.reopen _ hreopen

theorem steady_arrive (hnew : world.reopens round.request = none)
    (hmay : world.MayMeter world.installed) :
    (arrive world round).Steady round.request := by
  refine ⟨calmer_arrive.installed_mayMeter hmay, hnew, fun phase hphase => ?_⟩
  cases requests_arrive.symm.trans hphase
  trivial

theorem priced_arrive : (arrive world round).requests round.request ≠ none := by
  rw [requests_arrive]
  exact Option.some_ne_none _

/-- The installed handle stays sound while the request starts no reopen. -/
theorem steady_after {turns : List LedgerTurn} {request : ℕ} (hcoherent : world.Coherent)
    (hpriced : world.requests request ≠ none) (hturns : ∀ turn ∈ turns, turn.Succeeds)
    (hquiet : ReconnectWorld.QuietTurns settings request world turns)
    (hsteady : world.Steady request) :
    (world.after settings turns).Steady request := by
  refine ReconnectWorld.quiet_induction (P := ReconnectWorld.Steady request) ?_ ?_ ?_ hcoherent
    hpriced hturns
    hquiet hsteady
  · exact fun world world' hworld hcalm hrequests hreopens => hworld.calmer hcalm hrequests hreopens
  · exact fun world phase hworld hphase => hworld.proceed hphase true
  · exact fun world phase landed hworld hphase =>
      absurd (hphase.symm.trans hworld.reopen) (Option.some_ne_none phase)

/-- Once the handle is sound, it stays so. -/
theorem trusts_after {turns : List LedgerTurn} {request : ℕ} (hcoherent : world.Coherent)
    (hpriced : world.requests request ≠ none) (hturns : ∀ turn ∈ turns, turn.Succeeds)
    (hquiet : ReconnectWorld.QuietTurns settings request world turns)
    (hsteady : world.Steady request) (htrusts : world.Trusts world.installed) :
    (world.after settings turns).Trusts (world.after settings turns).installed := by
  refine (ReconnectWorld.quiet_induction
    (P := fun world => world.Steady request ∧ world.Trusts world.installed) ?_ ?_ ?_ hcoherent
      hpriced hturns
    hquiet ⟨hsteady, htrusts⟩).2
  · exact fun world world' hworld hcalm hrequests hreopens =>
      ⟨hworld.1.calmer hcalm hrequests hreopens, hcalm.installed_trusts hworld.2⟩
  · refine fun world phase hworld hphase => ⟨hworld.1.proceed hphase true, ?_⟩
    obtain ⟨world', phase', events, hsame, hproceed⟩ :=
      ReconnectWorld.proceed_enter settings hphase true
    rw [ReconnectWorld.Trusts, ReconnectWorld.fetch, hproceed, ReconnectWorld.handles_enter,
      ReconnectWorld.installed_enter, hsame.handles, hsame.installed]
    exact hworld.2
  · exact fun world phase landed hworld hphase =>
      absurd (hphase.symm.trans hworld.1.reopen) (Option.some_ne_none phase)

/-- After a second quiet round the installed handle is sound. -/
theorem Succeeds.trusts_of_quiet (h : round.Succeeds settings world) (hcoherent : world.Coherent)
    (hquiet : round.Quiet settings world) (hmay : world.MayMeter world.installed) :
    (round.play settings world).Trusts (round.play settings world).installed := by
  obtain ⟨billed, hmem⟩ := h.records
  obtain ⟨early, late, hturns⟩ := List.append_of_mem hmem
  have hsucceed := h.turns
  rw [Quiet, hturns, ReconnectWorld.quietTurns_append] at hquiet
  obtain ⟨hearly, -, hlate⟩ := hquiet
  rw [hturns] at hsucceed
  have hearlySucceed : ∀ turn ∈ early, turn.Succeeds := fun turn hturn =>
    hsucceed turn (List.mem_append_left _ hturn)
  have hlateSucceed : ∀ turn ∈ late, turn.Succeeds := fun turn hturn =>
    hsucceed turn (List.mem_append_right _ (List.mem_cons_of_mem _ hturn))
  have hbefore : ((arrive world round).after settings early).Steady round.request :=
    steady_after (coherent_arrive hcoherent h.new.1) priced_arrive hearlySucceed hearly
      (steady_arrive h.new.2 hmay)
  generalize hmiddle : (arrive world round).after settings early = middle at hbefore hlate
  have hmiddleCoherent : middle.Coherent :=
    hmiddle ▸ (coherent_arrive hcoherent h.new.1).after early
  have hmiddlePriced : middle.requests round.request ≠ none :=
    hmiddle ▸ ReconnectWorld.priced_after priced_arrive early
  obtain ⟨id, handle, hinstalled, -⟩ := ReconnectWorld.exists_of_mayMeter hbefore.mayMeter
  have hrecord : middle.step settings (.record billed true) = middle.writeTo id billed true :=
    ReconnectWorld.step_record settings hinstalled billed true
  have hrecorded : (middle.step settings (.record billed true)).Steady round.request := by
    rw [hrecord]
    exact hbefore.calmer (hmiddleCoherent.calmer_writeTo id billed) rfl rfl
  have hsound : (middle.step settings (.record billed true)).Trusts
      (middle.step settings (.record billed true)).installed := by
    rw [hrecord, show (middle.writeTo id billed true).installed = some id from hinstalled]
    exact hmiddleCoherent.trusts_writeTo billed (hinstalled ▸ hbefore.mayMeter)
  have hlater : middle.after settings (.record billed true :: late) =
      (middle.step settings (.record billed true)).after settings late := rfl
  rw [h.play_eq, hturns, ReconnectWorld.after_append, hmiddle, hlater]
  exact trusts_after (hmiddleCoherent.step _) (ReconnectWorld.priced_step hmiddlePriced _)
    hlateSucceed hlate
    hrecorded hsound

/-- The request of a third quiet round is metered. -/
theorem Succeeds.metered_of_quiet (h : round.Succeeds settings world) (hcoherent : world.Coherent)
    (hquiet : round.Quiet settings world) (htrusts : world.Trusts world.installed) :
    (round.play settings world).requests round.request = some (.decided .metered) := by
  have harrived : (arrive world round).Trusting round.request := by
    refine ⟨steady_arrive h.new.2 (ReconnectWorld.mayMeter_of_trusts htrusts),
      calmer_arrive.installed_trusts htrusts, fun phase hphase => ?_⟩
    cases requests_arrive.symm.trans hphase
    trivial
  have htrusting : (round.play settings world).Trusting round.request := by
    rw [h.play_eq]
    refine ReconnectWorld.quiet_induction (P := ReconnectWorld.Trusting round.request) ?_ ?_ ?_
      (coherent_arrive hcoherent h.new.1) priced_arrive h.turns hquiet harrived
    · exact fun world world' hworld hcalm hrequests hreopens =>
        hworld.calmer hcalm hrequests hreopens
    · exact fun world phase hworld hphase => hworld.proceed hphase true
    · exact fun world phase landed hworld hphase =>
        absurd (hphase.symm.trans hworld.steady.reopen) (Option.some_ne_none phase)
  obtain ⟨decision, hdecided⟩ := h.decides
  have hmetered : decision = .metered := htrusting.request _ hdecided
  rw [hdecided, hmetered]

/-! ### Enough rounds -/

theorem coherent_play (settings : ReconnectSettings) (hcoherent : world.Coherent)
    (round : LedgerRound) :
    (round.play settings world).Coherent := hcoherent.after _

variable {ids : Finset ℕ}

theorem Succeeds.not_mem (h : round.Succeeds settings world) (hroster : world.Roster ids) :
    round.request ∉ ids :=
  fun hmem => hroster.priced round.request hmem h.new.1

/-- A round of a new request: nobody known has more to do, and whoever disturbs the round has
less. -/
theorem Succeeds.inFlight_play (h : round.Succeeds settings world) (hroster : world.Roster ids) :
    (round.play settings world).inFlight ids ≤ world.inFlight ids ∧
      (round.Quiet settings world ∨
        (round.play settings world).inFlight ids < world.inFlight ids) := by
  have hne : ∀ id ∈ ids, id ≠ round.request := fun id hid heq => h.not_mem hroster (heq ▸ hid)
  have hrequests : ∀ id, id ≠ round.request →
      (arrive world round).requests id = world.requests id :=
    fun id hid => Function.update_of_ne hid _ _
  have harrive : (arrive world round).inFlight ids = world.inFlight ids := by
    refine Finset.sum_congr rfl fun id hid => ?_
    rw [ReconnectWorld.remaining, ReconnectWorld.remaining, hrequests id (hne id hid)]
    rfl
  rw [h.play_eq, ← harrive]
  refine ReconnectWorld.inFlight_after h.turns ?_ ?_
  · intro id hid
    rw [hrequests id (hne id hid)]
    exact hroster.priced id hid
  · intro id hid hother
    refine ⟨fun phase hphase => ?_, (hroster.others id hid).reopen⟩
    rw [hrequests id hother] at hphase
    exact (hroster.others id hid).request phase hphase

theorem Succeeds.roster_play (h : round.Succeeds settings world) (hroster : world.Roster ids) :
    (round.play settings world).Roster ids := by
  refine ⟨fun id hid => ReconnectWorld.priced_after (hroster.priced id hid) _, fun id hid => ?_⟩
  by_cases hother : id = round.request
  · subst hother
    obtain ⟨decision, hdecided⟩ := h.decides
    refine ⟨fun phase hphase => ?_, h.ends⟩
    cases hdecided.symm.trans hphase
    trivial
  · rw [h.play_eq]
    refine ReconnectWorld.Settled.after h.turns ⟨fun phase hphase => ?_,
      (hroster.others id hid).reopen⟩
    refine (hroster.others id hid).request phase ?_
    rwa [arrive, ReconnectWorld.requests_enter, Function.update_of_ne hother] at hphase

theorem exists_three {rounds : List LedgerRound} (hlength : 3 ≤ rounds.length) :
    ∃ first second third rest, rounds = first :: second :: third :: rest := by
  match rounds, hlength with
  | first :: second :: third :: rest, _ => exact ⟨first, second, third, rest, rfl⟩

/-- Three rounds: their last request is metered, or someone in flight has less to do. -/
theorem metered_or_inFlight_lt {first second third : LedgerRound} {rounds : List LedgerRound}
    (hcoherent : world.Coherent) (hroster : world.Roster ids)
    (hrounds : AllSucceed settings world (first :: second :: third :: rounds)) :
    (playAll settings world [first, second, third]).requests third.request =
      some (.decided .metered) ∨
      (playAll settings world [first, second, third]).inFlight ids < world.inFlight ids := by
  obtain ⟨hfirst, hsecond, hthird, -⟩ := hrounds
  have hcoherent₁ := coherent_play settings hcoherent first
  have hcoherent₂ := coherent_play settings hcoherent₁ second
  have hroster₁ := hfirst.roster_play hroster
  have hroster₂ := hsecond.roster_play hroster₁
  obtain ⟨hle₁, hquiet₁⟩ := hfirst.inFlight_play hroster
  obtain ⟨hle₂, hquiet₂⟩ := hsecond.inFlight_play hroster₁
  obtain ⟨hle₃, hquiet₃⟩ := hthird.inFlight_play hroster₂
  rcases hquiet₁ with hquiet₁ | hless
  · rcases hquiet₂ with hquiet₂ | hless
    · rcases hquiet₃ with hquiet₃ | hless
      · left
        have hmay := hfirst.mayMeter_of_quiet hcoherent hquiet₁
        have htrusts := hsecond.trusts_of_quiet hcoherent₁ hquiet₂ hmay
        exact hthird.metered_of_quiet hcoherent₂ hquiet₃ htrusts
      · exact .inr (lt_of_lt_of_le hless (hle₂.trans hle₁))
    · exact .inr (lt_of_le_of_lt hle₃ (lt_of_lt_of_le hless hle₁))
  · exact .inr (lt_of_le_of_lt (hle₃.trans hle₂) hless)

/-- The induction is on what is in flight: three rounds meter a request, or leave less of it. -/
theorem exists_metered {left : ℕ} {rounds : List LedgerRound} {world : ReconnectWorld}
    (hcoherent : world.Coherent) (hroster : world.Roster ids) (hleft : world.inFlight ids ≤ left)
    (hrounds : AllSucceed settings world rounds) (hlength : 3 * (left + 1) ≤ rounds.length) :
    ∃ early round late, rounds = early ++ round :: late ∧
      (playAll settings world (early ++ [round])).requests round.request =
        some (.decided .metered) := by
  induction left generalizing rounds world with
  | zero =>
      obtain ⟨first, second, third, rounds, rfl⟩ := exists_three hlength
      rcases metered_or_inFlight_lt hcoherent hroster hrounds with hmetered | hless
      · exact ⟨[first, second], third, rounds, rfl, hmetered⟩
      · exact absurd hless (by omega)
  | succ left ih =>
      obtain ⟨first, second, third, rounds, rfl⟩ := exists_three (by omega : 3 ≤ rounds.length)
      rcases metered_or_inFlight_lt hcoherent hroster hrounds with hmetered | hless
      · exact ⟨[first, second], third, rounds, rfl, hmetered⟩
      · obtain ⟨hfirst, hsecond, hthird, hrest⟩ := hrounds
        have hcoherent₃ := coherent_play settings
          (coherent_play settings (coherent_play settings hcoherent first) second) third
        have hroster₃ := hthird.roster_play (hsecond.roster_play (hfirst.roster_play hroster))
        have hlength' : 3 * (left + 1) ≤ rounds.length := by
          simp only [List.length_cons] at hlength
          omega
        have hleft' : (playAll settings world [first, second, third]).inFlight ids
            ≤ left := by omega
        obtain ⟨early, round, late, rfl, hmetered⟩ := ih hcoherent₃ hroster₃ hleft' hrest hlength'
        exact ⟨first :: second :: third :: early, round, late, rfl, hmetered⟩

end LedgerRound

end Quorum
