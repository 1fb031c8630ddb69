import Quorum.LedgerRecovery

/-! What a meter, a cleared flag and a block of a process rest on over any run, and how it comes
back to metering after any of them. -/

namespace Quorum

/-! ### The flag -/

/-- Whose turn it is. -/
def LedgerTurn.actor : LedgerTurn → Option LedgerActor
  | .request id _ => some (.request id)
  | .reopen id _ => some (.reopen id)
  | _ => none

namespace ReconnectWorld

variable {settings : ReconnectSettings} {world : ReconnectWorld} {request : ℕ}

theorem tried_gate (store : Option ℕ) :
    (world.gate request store).triedWithoutRecovery = world.triedWithoutRecovery := by
  cases store with
  | none => rfl
  | some handle =>
      rw [gate]
      split <;> rfl

/-- A request clears the flag only after it has found its handle sound. -/
theorem tried_proceed {phase : PricedPhase} {threadStarts : Bool}
    (htried : world.triedWithoutRecovery = true)
    (hclear : (world.proceed settings request phase threadStarts).triedWithoutRecovery = false) :
    ∃ tried store, phase = .recovered tried store := by
  have hkept : ∀ {cleared : Bool}, cleared = true → cleared = false → False := by
    rintro cleared rfl hfalse
    exact Bool.false_ne_true hfalse.symm
  cases phase with
  | recovered tried store => exact ⟨tried, store, rfl⟩
  | flagRead tried store flag =>
      rw [proceed] at hclear
      split at hclear <;> exact (hkept htried hclear).elim
  | triggering tried store =>
      rw [proceed] at hclear
      split at hclear <;> exact (hkept htried hclear).elim
  | due tried =>
      rw [proceed, cooldownSection] at hclear
      split at hclear
      · split at hclear <;> exact (hkept htried hclear).elim
      · exact (hkept htried hclear).elim
  | spawning tried =>
      rw [proceed, spawn] at hclear
      split at hclear
      · exact (hkept htried hclear).elim
      · exact (hkept rfl hclear).elim
  | judged tried store trustworthy =>
      rw [proceed] at hclear
      split at hclear
      · exact (hkept htried hclear).elim
      · exact (hkept ((tried_gate store).trans htried) hclear).elim
  | charging store => exact (hkept ((tried_gate store).trans htried) hclear).elim
  | _ => exact (hkept htried hclear).elim

theorem tried_proceedReopen {phase : ReopenPhase} {outcome : OpenOutcome}
    (htried : world.triedWithoutRecovery = true)
    (hclear : (world.proceedReopen request phase outcome).triedWithoutRecovery = false) :
    phase = .concluding true := by
  cases phase with
  | opening =>
      cases outcome with
      | raised => exact absurd hclear.symm Bool.false_ne_true
      | returned landed failed => exact absurd (htried.symm.trans hclear).symm Bool.false_ne_true
  | concluding trustworthy =>
      cases trustworthy with
      | true => rfl
      | false => exact absurd hclear.symm Bool.false_ne_true
  | _ => exact absurd (htried.symm.trans hclear).symm Bool.false_ne_true

/-- Whoever clears the flag has seen a handle with a landed write and without a loss. -/
theorem Coherent.observed_of_clear (h : world.Coherent) {turn : LedgerTurn}
    (htried : world.triedWithoutRecovery = true)
    (hclear : (world.step settings turn).triedWithoutRecovery = false) :
    ∃ actor handle, turn.actor = some actor ∧ .observed actor handle ∈ world.log ∧
      handle.Sound := by
  have hkept : (world.step settings turn).triedWithoutRecovery ≠ world.triedWithoutRecovery := by
    rw [htried, hclear]
    exact Bool.false_ne_true
  have hsound : ∀ {actor handle}, .observed actor handle ∈ world.log → handle.Sound := by
    intro actor handle hmem
    obtain ⟨earlier, hjustified, -⟩ := h.justified.of_mem hmem
    exact hjustified
  cases turn with
  | tick span => exact absurd rfl hkept
  | write handle billed landed => exact absurd rfl hkept
  | record billed landed =>
      refine absurd ?_ hkept
      rw [ReconnectWorld.step]
      cases world.installed <;> rfl
  | estimate request =>
      refine absurd ?_ hkept
      rw [ReconnectWorld.step]
      cases world.requests request <;> rfl
  | charge request =>
      refine absurd ?_ hkept
      rw [ReconnectWorld.step]
      cases world.requests request <;> rfl
  | request request threadStarts =>
      cases hphase : world.requests request with
      | none =>
          refine absurd ?_ hkept
          rw [ReconnectWorld.step, hphase]
      | some phase =>
          rw [step_request _ hphase] at hclear
          obtain ⟨tried, store, rfl⟩ := tried_proceed htried hclear
          obtain ⟨-, handle, hobserved⟩ := h.requests request _ hphase
          exact ⟨.request request, handle, rfl, hobserved, hsound hobserved⟩
  | reopen request outcome =>
      cases hphase : world.reopens request with
      | none =>
          refine absurd ?_ hkept
          rw [ReconnectWorld.step, hphase]
      | some phase =>
          rw [step_reopen _ hphase] at hclear
          cases tried_proceedReopen htried hclear
          obtain ⟨handle, hobserved⟩ := h.reopens request _ hphase
          exact ⟨.reopen request, handle, rfl, hobserved, hsound hobserved⟩

end ReconnectWorld

/-! ### Rounds can be had -/

/-- The turns of a request and of its reopen, by turns. -/
def attend (request : ℕ) : ℕ → List LedgerTurn
  | 0 => []
  | count + 1 =>
      .request request true :: .reopen request (.returned true false) :: attend request count

namespace ReconnectWorld

variable {settings : ReconnectSettings} {world : ReconnectWorld} {request : ℕ}

theorem succeeds_attend (count : ℕ) : ∀ turn ∈ attend request count, turn.Succeeds := by
  induction count with
  | zero => exact fun turn hturn => absurd hturn List.not_mem_nil
  | succ count ih =>
      intro turn hturn
      rcases List.mem_cons.mp hturn with rfl | hturn
      · rfl
      · rcases List.mem_cons.mp hturn with rfl | hturn
        · exact ⟨true, rfl⟩
        · exact ih turn hturn

/-- Nothing left to do: the request is decided and its reopen has ended. -/
theorem decided_of_remaining (hpriced : world.requests request ≠ none)
    (h : world.remaining request = 0) :
    (∃ decision, world.requests request = some (.decided decision)) ∧
      ∀ phase ∈ world.reopens request, phase = .ended := by
  obtain ⟨hrequest, hreopen⟩ := Nat.add_eq_zero_iff.mp h
  refine ⟨?_, fun phase hphase => ?_⟩
  · obtain ⟨phase, hphase⟩ := Option.ne_none_iff_exists'.mp hpriced
    rw [hphase] at hrequest ⊢
    cases phase with
    | decided decision => exact ⟨decision, rfl⟩
    | _ => exact absurd hrequest (by simp)
  · rw [Option.mem_def.mp hphase] at hreopen
    cases phase with
    | ended => rfl
    | _ => exact absurd hreopen (by simp)

/-- A turn of each leaves less to do. -/
theorem remaining_attend_lt (settings : ReconnectSettings) (hpriced : world.requests request ≠ none)
    (h : world.remaining request ≠ 0) :
    (world.after settings (attend request 1)).remaining request < world.remaining request := by
  obtain ⟨phase, hphase⟩ := Option.ne_none_iff_exists'.mp hpriced
  have hpair : world.after settings (attend request 1) =
      (world.step settings (.request request true)).step settings
        (.reopen request (.returned true false)) := rfl
  rw [hpair]
  by_cases hopen : ∃ decision, phase = .decided decision
  · obtain ⟨decision, rfl⟩ := hopen
    have hstay : world.step settings (.request request true) = world :=
      step_request settings hphase true
    rw [hstay]
    cases hreopen : world.reopens request with
    | none =>
        refine absurd ?_ h
        rw [remaining, hphase, hreopen]
        rfl
    | some reopenPhase =>
        rw [step_reopen _ hreopen]
        refine remaining_proceedReopen_lt hreopen (fun hended => h ?_) _
        rw [remaining, hphase, hreopen, hended]
        rfl
  · have hfirst : (world.step settings (.request request true)).remaining
        request < world.remaining request := by
      rw [step_request _ hphase]
      exact remaining_proceed_lt hphase (not_exists.mp hopen) true
    refine lt_of_le_of_lt ?_ hfirst
    exact remaining_step_le settings _ ⟨true, rfl⟩ (priced_step hpriced _)

/-- Attended for as many turns as are left, a request comes to its end. -/
theorem remaining_attend {count : ℕ} {world : ReconnectWorld}
    (hpriced : world.requests request ≠ none) (hcount : world.remaining request ≤ count) :
    (world.after settings (attend request count)).remaining request = 0 := by
  induction count generalizing world with
  | zero => exact Nat.le_zero.mp hcount
  | succ count ih =>
      have hsplit : world.after settings (attend request (count + 1)) =
          (world.after settings (attend request 1)).after settings (attend request count) := rfl
      rw [hsplit]
      refine ih (priced_after hpriced _) ?_
      by_cases hdone : world.remaining request = 0
      · have hfirst : (world.step settings (.request request true)).remaining request ≤
            world.remaining request :=
          remaining_step_le settings (.request request true) rfl hpriced
        have hnext : (world.after settings (attend request 1)).remaining request ≤
            (world.step settings (.request request true)).remaining request :=
          remaining_step_le settings (.reopen request (.returned true false)) ⟨true, rfl⟩
            (priced_step hpriced _)
        omega
      · have hnext := remaining_attend_lt settings hpriced hdone
        omega

end ReconnectWorld

namespace LedgerRound

variable {settings : ReconnectSettings} {world : ReconnectWorld} {request : ℕ}

/-- Every new request can have its round. -/
theorem exists_succeeds (settings : ReconnectSettings) (hrequest : world.requests request = none)
    (hreopen : world.reopens request = none) :
    ∃ round : LedgerRound, round.request = request ∧ round.Succeeds settings world := by
  let opening : LedgerRound := ⟨request, settings.storeReconnectCooldown, []⟩
  let waiting := (arrive world opening).step settings (.record false true)
  let round : LedgerRound := ⟨request, settings.storeReconnectCooldown,
    .record false true :: attend request (waiting.remaining request)⟩
  have hpriced : waiting.requests request ≠ none :=
    ReconnectWorld.priced_step (priced_arrive : (arrive world opening).requests request ≠ none) _
  have hplay : round.play settings world =
      waiting.after settings (attend request (waiting.remaining request)) := by
    have hnew : (world.step settings (.tick round.wait)).requests round.request = none := hrequest
    have harrive : (world.step settings (.tick round.wait)).step settings
        (.estimate round.request) =
        arrive world opening := ReconnectWorld.step_estimate settings hnew
    rw [play, ReconnectWorld.after, List.foldl_cons, List.foldl_cons, harrive]
    rfl
  have hdone : (round.play settings world).remaining request = 0 := by
    rw [hplay]
    exact ReconnectWorld.remaining_attend hpriced (le_refl _)
  have hend :=
    ReconnectWorld.decided_of_remaining (hplay ▸ ReconnectWorld.priced_after hpriced _) hdone
  refine ⟨round, rfl, ⟨hrequest, hreopen⟩, le_refl _, fun turn hturn => ?_,
    ⟨false, List.mem_cons_self⟩, hend.1,
    hend.2⟩
  rcases List.mem_cons.mp hturn with rfl | hturn
  · rfl
  · exact ReconnectWorld.succeeds_attend _ turn hturn

end LedgerRound

namespace ReconnectWorld

/-- Only the ids have arrived. -/
def Known (ids : Finset ℕ) (world : ReconnectWorld) : Prop :=
  (∀ id ∈ ids, world.requests id ≠ none) ∧ ∀ id, id ∉ ids → world.requests id = none ∧
    world.reopens id = none

variable {settings : ReconnectSettings} {world : ReconnectWorld} {ids : Finset ℕ}

theorem Known.roster (h : world.Known ids) : world.Roster ids where
  priced := h.1
  others := fun id hid =>
    ⟨fun phase hphase => absurd (hphase.symm.trans (h.2 id hid).1) (Option.some_ne_none phase),
    fun phase hphase => absurd (hphase.symm.trans (h.2 id hid).2) (Option.some_ne_none phase)⟩

theorem Known.enter (h : world.Known ids) (request : ℕ) (phase : PricedPhase)
    (events : List LedgerEvent) :
    (world.enter request phase events).Known (insert request ids) := by
  refine ⟨fun id hid => ?_, fun id hid => ?_⟩
  · rw [requests_enter, Function.update_apply]
    split
    · exact Option.some_ne_none phase
    · rename_i hne
      exact h.1 id (Finset.mem_of_mem_insert_of_ne hid hne)
  · rw [Finset.mem_insert, not_or] at hid
    rw [requests_enter, Function.update_of_ne hid.1]
    exact h.2 id hid.2

theorem Known.step (settings : ReconnectSettings) (h : world.Known ids) (turn : LedgerTurn) :
    ∃ ids', (world.step settings turn).Known ids' := by
  cases turn with
  | tick span => exact ⟨ids, h⟩
  | write handle billed landed => exact ⟨ids, h⟩
  | record billed landed =>
      rw [ReconnectWorld.step]
      cases world.installed with
      | none => exact ⟨ids, h⟩
      | some handle => exact ⟨ids, h⟩
  | estimate request =>
      rw [ReconnectWorld.step]
      cases world.requests request with
      | some phase => exact ⟨ids, h⟩
      | none => exact ⟨_, h.enter request _ _⟩
  | charge request =>
      rw [ReconnectWorld.step]
      cases world.requests request with
      | some phase => exact ⟨ids, h⟩
      | none => exact ⟨_, h.enter request _ _⟩
  | request request threadStarts =>
      cases hphase : world.requests request with
      | none =>
          rw [ReconnectWorld.step, hphase]
          exact ⟨ids, h⟩
      | some phase =>
          rw [step_request _ hphase]
          refine ⟨ids, fun id hid => ?_, fun id hid => ?_⟩
          · rw [← step_request settings hphase]
            exact priced_step (h.1 id hid) _
          · have hne : id ≠ request := fun heq =>
              Option.some_ne_none phase (hphase.symm.trans (h.2 request (heq ▸ hid)).1)
            obtain ⟨hrequests, hreopens⟩ := others_proceed settings hphase hne threadStarts
            exact ⟨hrequests.trans (h.2 id hid).1, hreopens.trans (h.2 id hid).2⟩
  | reopen request outcome =>
      cases hphase : world.reopens request with
      | none =>
          rw [ReconnectWorld.step, hphase]
          exact ⟨ids, h⟩
      | some phase =>
          rw [step_reopen _ hphase]
          refine ⟨ids, fun id hid => ?_, fun id hid => ?_⟩
          · rw [requests_proceedReopen]
            exact h.1 id hid
          · have hne : id ≠ request := fun heq =>
              Option.some_ne_none phase (hphase.symm.trans (h.2 request (heq ▸ hid)).2)
            rw [requests_proceedReopen, reopens_proceedReopen_of_ne hne]
            exact h.2 id hid

theorem Known.after (settings : ReconnectSettings) (h : world.Known ids) (turns : List LedgerTurn) :
    ∃ ids', (world.after settings turns).Known ids' := by
  induction turns generalizing world ids with
  | nil => exact ⟨ids, h⟩
  | cons turn turns ih =>
      obtain ⟨ids', hids⟩ := h.step settings turn
      exact ih hids

theorem known_boot (outcome : OpenOutcome) : (boot outcome).Known ∅ := by
  cases outcome <;> exact ⟨fun id hid => absurd hid (Finset.notMem_empty id),
    fun id _ => ⟨rfl, rfl⟩⟩

end ReconnectWorld

/-- From every world that knows finitely many requests any number of rounds can be had. -/
theorem LedgerRound.exists_allSucceed {settings : ReconnectSettings} (count : ℕ)
    {world : ReconnectWorld} {ids : Finset ℕ} (h : world.Known ids) :
    ∃ rounds, rounds.length = count ∧ AllSucceed settings world rounds := by
  induction count generalizing world ids with
  | zero => exact ⟨[], rfl, trivial⟩
  | succ count ih =>
      obtain ⟨request, hrequest⟩ := Infinite.exists_notMem_finset ids
      obtain ⟨hnone, hreopen⟩ := h.2 request hrequest
      obtain ⟨round, -, hround⟩ := exists_succeeds settings hnone hreopen
      obtain ⟨ids', hids⟩ := h.after settings
        (.tick round.wait :: .estimate round.request :: round.turns)
      obtain ⟨rounds, hlength, hrounds⟩ := ih hids
      exact ⟨round :: rounds, congrArg Nat.succ hlength, hround, hrounds⟩

/-! ### Any run -/

/-- A request takes one snapshot of the flag. -/
theorem JustifiedLog.snapshot_mem {later earlier : List LedgerEvent} {request : ℕ} {tried : Bool}
    (h : JustifiedLog (later ++ .started request :: earlier))
    (hsnapshot : .snapshot request tried ∈ later ++ .started request :: earlier) :
    .snapshot request tried ∈ earlier := by
  obtain ⟨tried', hfound⟩ := h.justified
  rcases List.mem_append.mp hsnapshot with hlater | hearlier
  · obtain ⟨recent, older, rfl⟩ := List.append_of_mem hlater
    rw [List.append_assoc, List.cons_append] at h
    exact absurd (List.mem_append_right older (List.mem_cons_of_mem _ hfound)) (h.justified tried')
  · exact List.mem_of_ne_of_mem (by nofun) hearlier

/-- A request meters only a handle that had lost nothing when the request checked it; whoever clears
the flag has seen a sound handle; a request is blocked only on a flag that was set before it could
start a reopen; and of enough rounds in which all succeeds some meters its request. -/
theorem reconnect_never_stuck (settings : ReconnectSettings) (outcome : OpenOutcome)
    (turns : List LedgerTurn) :
    let world := (ReconnectWorld.boot outcome).after settings turns
    (∀ later earlier request handle, world.log = later ++ .metered request handle :: earlier →
      ∃ between before,
        earlier = between ++ .checked request handle :: before ∧ .lost handle ∉ before) ∧
    (∀ turn, world.triedWithoutRecovery = true →
      (world.step settings turn).triedWithoutRecovery = false →
      ∃ actor handle, turn.actor = some actor ∧ .observed actor handle ∈ world.log ∧ handle.Sound) ∧
    (∀ request, .blocked request ∈ world.log → .snapshot request true ∈ world.log ∧
      ∀ later earlier,
        world.log = later ++ .started request :: earlier → .snapshot request true ∈ earlier) ∧
    (∃ ids, world.Roster ids ∧ ∀ rounds, LedgerRound.AllSucceed settings world rounds →
      3 * (world.inFlight ids + 1) ≤ rounds.length →
      ∃ early round late, rounds = early ++ round :: late ∧
        (LedgerRound.playAll settings world (early ++ [round])).requests round.request =
          some (.decided .metered)) ∧
    ∀ count, ∃ rounds, rounds.length = count ∧ LedgerRound.AllSucceed settings world rounds := by
  intro world
  have hcoherent : world.Coherent := (ReconnectWorld.coherent_boot outcome).after turns
  obtain ⟨ids, hknown⟩ := (ReconnectWorld.known_boot outcome).after settings turns
  refine ⟨?_, ?_, ?_, ?_, ?_⟩
  · intro later earlier request handle hlog
    have hjustified : JustifiedLog (later ++ .metered request handle :: earlier) :=
      hlog ▸ hcoherent.justified
    obtain ⟨between, before, hearlier⟩ := List.append_of_mem hjustified.justified
    have hchecked : JustifiedLog (between ++ .checked request handle :: before) := by
      rw [← hearlier]
      exact JustifiedLog.of_append (later ++ [.metered request handle]) (by simpa using hjustified)
    exact ⟨between, before, hearlier, hchecked.justified⟩
  · exact fun turn htried hclear => hcoherent.observed_of_clear htried hclear
  · intro request hblocked
    obtain ⟨earlier, hjustified, hsubset⟩ := hcoherent.justified.of_mem hblocked
    have hsnapshot : .snapshot request true ∈ world.log := hsubset hjustified
    refine ⟨hsnapshot, fun later earlier hlog => ?_⟩
    exact JustifiedLog.snapshot_mem (hlog ▸ hcoherent.justified) (hlog ▸ hsnapshot)
  · exact ⟨ids, hknown.roster, fun rounds hrounds hlength =>
      LedgerRound.exists_metered hcoherent hknown.roster (le_refl _) hrounds hlength⟩
  · exact fun count => LedgerRound.exists_allSucceed count hknown

/-- A billed write that is lost between the check of a request and its reading of the meter: the
request meters a handle that has lost a billed write. And a handle that recovers while a request's
own reopen replaces it: the request is blocked with that reopen, and not without it. -/
theorem reconnect_races :
    let settings : ReconnectSettings := ⟨true, 60, by decide⟩
    let priced (request : ℕ) (count : ℕ) := List.replicate count (LedgerTurn.request request true)
    let metering : List LedgerTurn :=
      .estimate 0 :: priced 0 7 ++ [.write 0 true false] ++ priced 0 1
    let faulty : List LedgerTurn := [.tick 1, .write 0 false false, .estimate 0] ++ priced 0 6 ++
      [.reopen 0 .raised, .tick 60, .estimate 1] ++ priced 1 6 ++ [.tick 1, .write 0 false true]
    let replaced : List LedgerTurn := List.replicate 2 (.reopen 1 (.returned false false))
    let process (turns : List LedgerTurn) :=
      (ReconnectWorld.boot (.returned true false)).after settings turns
    (∃ later earlier, (process metering).log = later ++ .metered 0 0 :: earlier ∧
      .lost 0 ∈ earlier) ∧
      (process (faulty ++ replaced ++ priced 1 3)).requests 1 = some (.decided .blocked) ∧
      (process (faulty ++ priced 1 3)).requests 1 = some (.metering 0) := by
  intro settings priced metering faulty replaced process
  exact ⟨⟨[], [.lost 0, .checked 0 0, .snapshot 0 false], by decide +kernel, by decide⟩,
    by decide +kernel,
    by decide +kernel⟩

end Quorum
