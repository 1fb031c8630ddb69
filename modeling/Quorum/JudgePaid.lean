import Quorum.JudgeSections

/-! The judge is paid for at most once per run. The moves of one run in the log replay as a single
flight whose slot is what the memo, the claim in flight and the reads say; the trail of one read has
one of a few shapes; and what is memoised or stored comes from an outcome that an owner
published. -/

namespace Quorum

open IsoTime

section

variable {Evaluation Trust : Type} {engine : EvaluationEngine Evaluation Trust}
variable {world : JudgeWorld (RunEvaluationResult Evaluation Trust)}
variable {read : EvaluationRead (RunEvaluationResult Evaluation Trust)} {reader : ℕ}

/-! ### One run's account -/

/-- The slot of its run that a read in this phase holds. -/
def ReadPhase.slot? {R : Type} (reader : ℕ) : ReadPhase R → Option (Flight.Slot ℕ)
  | .owning => some (.claimed reader)
  | .called call => some (if call.dispatched then .paid reader else .claimed reader)
  | _ => none

theorem OwnerCall.slot?_resume {R : Type} (call : OwnerCall) (reader : ℕ) :
    (call.resume : ReadPhase R).slot? reader = none := by
  rw [OwnerCall.resume]
  split <;> rfl

/-- The slot of a run that each read holds. -/
def JudgeWorld.holding {R : Type} (world : JudgeWorld R) (queryRunId : Uuid) (reader : ℕ) :
    Option (Flight.Slot ℕ) :=
  match world.reads reader with
  | some read => if read.run.queryRunId = queryRunId then read.phase.slot? reader else none
  | none => none

/-- What is memoised, who is in flight and which reads hold the slot agree with the moves. -/
inductive Accounts : Bool → Option ℕ → (ℕ → Option (Flight.Slot ℕ)) → List (Flight.Move ℕ) → Prop
  | idle {moves} (hmoves : Flight.replay moves = some .idle) : Accounts false none
      (fun _ => none) moves
  | held {moves} (hmoves : Flight.replay moves = some .held) : Accounts true none
      (fun _ => none) moves
  | flight {moves} (owner : ℕ) (slot : Flight.Slot ℕ) (hmoves : Flight.replay moves = some slot) :
      Accounts false (some owner) (Function.update (fun _ => none) owner (some slot)) moves

def JudgeWorld.Accounted {R : Type} (world : JudgeWorld R) (queryRunId : Uuid) : Prop :=
  Accounts (world.judgeVerdictMemo.get? queryRunId).isSome (world.judgeInflight.get? queryRunId)
    (world.holding queryRunId) (movesOf queryRunId world.log)

theorem Accounts.replays {memoised : Bool} {owner : Option ℕ} {holding : ℕ → Option (Flight.Slot ℕ)}
    {moves : List (Flight.Move ℕ)} (h : Accounts memoised owner holding moves) :
    ∃ slot, Flight.replay moves = some slot := by
  cases h with
  | idle hmoves => exact ⟨_, hmoves⟩
  | held hmoves => exact ⟨_, hmoves⟩
  | flight owner slot hmoves => exact ⟨_, hmoves⟩

/-- The read that holds the slot is the one in flight, and the run has no entry. -/
theorem Accounts.of_holding {memoised : Bool} {owner : Option ℕ}
    {holding : ℕ → Option (Flight.Slot ℕ)} {moves : List (Flight.Move ℕ)}
    (h : Accounts memoised owner holding moves) {slot : Flight.Slot ℕ}
    (hslot : holding reader = some slot) :
    memoised = false ∧ owner = some reader ∧
      holding = Function.update (fun _ => none) reader (some slot) ∧
        Flight.replay moves = some slot := by
  cases h with
  | idle hmoves => cases hslot
  | held hmoves => cases hslot
  | flight owner slot' hmoves =>
      by_cases howner : reader = owner
      · subst howner
        rw [Function.update_self] at hslot
        cases hslot
        exact ⟨rfl, rfl, rfl, hmoves⟩
      · rw [Function.update_of_ne howner] at hslot
        cases hslot

/-- A claimed run has no entry. -/
theorem Accounts.unmemoised_of_claimed {memoised : Bool} {owner : Option ℕ}
    {holding : ℕ → Option (Flight.Slot ℕ)} {moves : List (Flight.Move ℕ)}
    (h : Accounts memoised owner holding moves)
    (hclaimed : Flight.replay moves = some (.claimed reader)) : memoised = false := by
  cases h with
  | idle hmoves => rfl
  | held hmoves =>
      rw [hmoves] at hclaimed
      cases hclaimed
  | flight owner slot hmoves => rfl

theorem Accounts.claim {holding : ℕ → Option (Flight.Slot ℕ)} {moves : List (Flight.Move ℕ)}
    (h : Accounts false none holding moves) (reader : ℕ) :
    Accounts false (some reader) (Function.update holding reader (some (.claimed reader)))
      (.claim reader :: moves) := by
  cases h with
  | idle hmoves => exact .flight reader _ (Flight.replay_cons hmoves rfl)

theorem Accounts.pay {memoised : Bool} {owner : Option ℕ} {holding : ℕ → Option (Flight.Slot ℕ)}
    {moves : List (Flight.Move ℕ)} (h : Accounts memoised owner holding moves)
    (hslot : holding reader = some (.claimed reader)) :
    Accounts memoised owner (Function.update holding reader (some (.paid reader)))
      (.pay reader :: moves) := by
  obtain ⟨rfl, rfl, rfl, hmoves⟩ := h.of_holding hslot
  rw [Function.update_idem]
  exact .flight reader _ (Flight.replay_cons hmoves (if_pos rfl))

theorem Accounts.publish {memoised : Bool} {owner : Option ℕ} {holding : ℕ → Option (Flight.Slot ℕ)}
    {moves : List (Flight.Move ℕ)} (h : Accounts memoised owner holding moves)
    {slot : Flight.Slot ℕ} (hslot : holding reader = some slot)
    (hmine : slot = .claimed reader ∨ slot = .paid reader) :
    Accounts true none (Function.update holding reader none) (.publish reader :: moves) := by
  obtain ⟨rfl, rfl, rfl, hmoves⟩ := h.of_holding hslot
  rw [Function.update_idem, Function.update_eq_self_iff.mpr rfl]
  refine .held (Flight.replay_cons hmoves ?_)
  rcases hmine with rfl | rfl <;> exact if_pos rfl

theorem Accounts.evict {owner : Option ℕ} {holding : ℕ → Option (Flight.Slot ℕ)}
    {moves : List (Flight.Move ℕ)} (h : Accounts true owner holding moves) :
    Accounts false owner holding (.evict :: moves) := by
  cases h with
  | held hmoves => exact .idle (Flight.replay_cons hmoves rfl)

theorem holding_of_read (hread : world.reads reader = some read) :
    world.holding read.run.queryRunId reader = read.phase.slot? reader := by
  rw [JudgeWorld.holding, hread]
  exact if_pos rfl

/-- A read that goes on to another phase holds what that phase says, of its own run only. -/
theorem holding_update {world' : JudgeWorld (RunEvaluationResult Evaluation Trust)}
    {phase : ReadPhase (RunEvaluationResult Evaluation Trust)}
    (hreads : world'.reads = Function.update world.reads reader (some { read with phase }))
    (queryRunId : Uuid) :
    world'.holding queryRunId = Function.update (world.holding queryRunId) reader
      (if read.run.queryRunId = queryRunId then phase.slot? reader else none) := by
  funext other
  by_cases hother : other = reader
  · rw [hother, Function.update_self, JudgeWorld.holding, hreads, Function.update_self]
  · rw [Function.update_of_ne hother, JudgeWorld.holding, hreads, Function.update_of_ne hother,
      JudgeWorld.holding]

/-- A run that the read is not of keeps who holds its slot. -/
theorem holding_update_of_ne {world' : JudgeWorld (RunEvaluationResult Evaluation Trust)}
    {phase : ReadPhase (RunEvaluationResult Evaluation Trust)} {queryRunId : Uuid}
    (hreads : world'.reads = Function.update world.reads reader (some { read with phase }))
    (hread : world.reads reader = some read) (hne : read.run.queryRunId ≠ queryRunId) :
    world'.holding queryRunId = world.holding queryRunId := by
  rw [holding_update hreads, if_neg hne]
  refine Function.update_eq_self_iff.mpr ?_
  rw [JudgeWorld.holding, hread]
  exact (if_neg hne).symm

/-- A read that held no slot and holds none leaves every holding as it was. -/
theorem holding_update_of_none {world' : JudgeWorld (RunEvaluationResult Evaluation Trust)}
    {phase : ReadPhase (RunEvaluationResult Evaluation Trust)}
    (hreads : world'.reads = Function.update world.reads reader (some { read with phase }))
    (hread : world.reads reader = some read) (hbefore : read.phase.slot? reader = none)
    (hafter : phase.slot? reader = none) (queryRunId : Uuid) :
    world'.holding queryRunId = world.holding queryRunId := by
  rw [holding_update hreads, hafter, ite_self]
  refine Function.update_eq_self_iff.mpr ?_
  rw [JudgeWorld.holding, hread]
  simp only [hbefore, ite_self]

theorem Ride.slots {after : ReadPhase (RunEvaluationResult Evaluation Trust)}
    {events : List (ReadEvent (RunEvaluationResult Evaluation Trust))}
    (h : Ride engine world read after events) :
    read.phase.slot? reader = none ∧ after.slot? reader = none := by
  cases h with
  | hit outcome hphase hmemo =>
      rcases hphase with hphase | ⟨sharing, hphase⟩ | hphase <;> rw [hphase] <;> exact ⟨rfl, rfl⟩
  | allowed rails hphase hallow => rw [hphase]; exact ⟨rfl, rfl⟩
  | await owner sharing hphase hinflight => rw [hphase]; exact ⟨rfl, rfl⟩
  | resolved owner outcome hphase hfuture => rw [hphase]; exact ⟨rfl, rfl⟩
  | _ =>
      rename_i hphase
      rw [hphase]
      exact ⟨rfl, rfl⟩

theorem Ride.rides {after : ReadPhase (RunEvaluationResult Evaluation Trust)}
    {events : List (ReadEvent (RunEvaluationResult Evaluation Trust))}
    (h : Ride engine world read after events) : ∀ event ∈ events, event.Rides := by
  cases h <;> simp [ReadEvent.Rides]

/-- A read that goes on without a slot and without a move is no business of any run's account. -/
theorem accounted_of_same {world' : JudgeWorld (RunEvaluationResult Evaluation Trust)}
    (phase : ReadPhase (RunEvaluationResult Evaluation Trust))
    (hread : world.reads reader = some read)
    (hreads : world'.reads = Function.update world.reads reader (some { read with phase }))
    (hslots : read.phase.slot? reader = none ∧ phase.slot? reader = none)
    (hmemo : ∀ id, world'.judgeVerdictMemo.get? id = world.judgeVerdictMemo.get? id)
    (hinflight : world'.judgeInflight = world.judgeInflight) {queryRunId : Uuid}
    (hmoves : movesOf queryRunId world'.log = movesOf queryRunId world.log)
    (h : world.Accounted queryRunId) : world'.Accounted queryRunId := by
  have hholding := holding_update_of_none hreads hread hslots.1 hslots.2 queryRunId
  rw [JudgeWorld.Accounted, hmemo, hinflight, hholding, hmoves]
  exact h

theorem movesOf_cons {queryRunId : Uuid} {entry : JudgeEvent (RunEvaluationResult Evaluation Trust)}
    {move : Flight.Move ℕ} (hmove : entry.move? queryRunId = some move)
    (log : List (JudgeEvent (RunEvaluationResult Evaluation Trust))) :
    movesOf queryRunId (entry :: log) = move :: movesOf queryRunId log :=
  List.filterMap_cons_some hmove

/-- What a read does is no move of another run. -/
theorem movesOf_append_of_ne {queryRunId : Uuid} (hne : read.run.queryRunId ≠ queryRunId)
    (events : List (ReadEvent (RunEvaluationResult Evaluation Trust)))
    (log : List (JudgeEvent (RunEvaluationResult Evaluation Trust))) :
    movesOf queryRunId (events.map (JudgeEvent.read reader read.run.queryRunId) ++ log) =
      movesOf queryRunId log := by
  rw [movesOf, List.filterMap_append, List.filterMap_eq_nil_iff.mpr]
  · rfl
  · intro entry hentry
    obtain ⟨event, _, rfl⟩ := List.mem_map.mp hentry
    cases event <;> first | rfl | exact if_neg hne

/-- What an owner's section makes of the account of its own run, and of any other. -/
theorem enter_accounted {world' : JudgeWorld (RunEvaluationResult Evaluation Trust)}
    (phase : ReadPhase (RunEvaluationResult Evaluation Trust))
    (events : List (ReadEvent (RunEvaluationResult Evaluation Trust)))
    (hread : world.reads reader = some read)
    (hreads : world'.reads = Function.update world.reads reader (some { read with phase }))
    (hlog : world'.log = events.map (JudgeEvent.read reader read.run.queryRunId) ++ world.log)
    (hmemo : ∀ id ≠ read.run.queryRunId,
      world'.judgeVerdictMemo.get? id = world.judgeVerdictMemo.get? id)
    (hinflight : ∀ id ≠ read.run.queryRunId,
      world'.judgeInflight.get? id = world.judgeInflight.get? id)
    (hown : Accounts (world'.judgeVerdictMemo.get? read.run.queryRunId).isSome
      (world'.judgeInflight.get? read.run.queryRunId)
      (Function.update (world.holding read.run.queryRunId) reader (phase.slot? reader))
      (movesOf read.run.queryRunId world'.log))
    {queryRunId : Uuid} (h : world.Accounted queryRunId) : world'.Accounted queryRunId := by
  by_cases hrun : read.run.queryRunId = queryRunId
  · subst hrun
    rw [JudgeWorld.Accounted, holding_update hreads, if_pos rfl]
    exact hown
  · rw [JudgeWorld.Accounted, hmemo _ (Ne.symm hrun), hinflight _ (Ne.symm hrun),
      holding_update_of_ne hreads hread hrun, hlog, movesOf_append_of_ne hrun]
    exact h

theorem claim_accounted (hread : world.reads reader = some read)
    (hmemo : world.judgeVerdictMemo.get? read.run.queryRunId = none)
    (hinflight : world.judgeInflight.get? read.run.queryRunId = none)
    (hown : world.Accounted read.run.queryRunId) {queryRunId : Uuid}
    (h : world.Accounted queryRunId) :
    ({ world with judgeInflight := world.judgeInflight.set read.run.queryRunId reader }.enter
      reader read .owning [.claimed]).Accounted queryRunId := by
  refine enter_accounted .owning [.claimed] hread ?_ ?_ ?_ ?_ ?_ h
  · rfl
  · rfl
  · exact fun _ _ => rfl
  · exact fun id hid => Dict.get?_set_of_ne _ _ hid
  have hmove : (JudgeEvent.read (R := RunEvaluationResult Evaluation Trust) reader
      read.run.queryRunId
      .claimed).move? read.run.queryRunId = some (.claim reader) := if_pos rfl
  rw [JudgeWorld.Accounted, hmemo, hinflight] at hown
  show Accounts (world.judgeVerdictMemo.get? _).isSome ((world.judgeInflight.set _ _).get? _) _
    (movesOf _ (.read reader read.run.queryRunId .claimed :: world.log))
  rw [hmemo, Dict.get?_set_self, movesOf_cons hmove]
  exact hown.claim reader

theorem call_accounted (hread : world.reads reader = some read) (hphase : read.phase = .owning)
    (call : OwnerCall) (hown : world.Accounted read.run.queryRunId) {queryRunId : Uuid}
    (h : world.Accounted queryRunId) :
    (world.callSection reader read call).Accounted queryRunId := by
  refine enter_accounted (.called call) (if call.dispatched then [.dispatched] else [])
    hread ?_ ?_ ?_ ?_ ?_ h
  · rfl
  · rfl
  · exact fun _ _ => rfl
  · exact fun _ _ => rfl
  have hmove : (JudgeEvent.read (R := RunEvaluationResult Evaluation Trust) reader
      read.run.queryRunId
      .dispatched).move? read.run.queryRunId = some (.pay reader) := if_pos rfl
  have hslot : world.holding read.run.queryRunId reader = some (.claimed reader) := by
    rw [holding_of_read hread, hphase]
    rfl
  rw [JudgeWorld.callSection]
  cases hdispatched : call.dispatched with
  | false =>
      have hkeep : Function.update (world.holding read.run.queryRunId) reader
          ((ReadPhase.called (R := RunEvaluationResult Evaluation Trust) call).slot? reader) =
          world.holding read.run.queryRunId := by
        refine Function.update_eq_self_iff.mpr ?_
        rw [hslot, ReadPhase.slot?, hdispatched]
        rfl
      rw [hkeep]
      exact hown
  | true =>
      have hpaid : (ReadPhase.called (R := RunEvaluationResult Evaluation Trust) call).slot?
          reader =
          some (.paid reader) := by
        rw [ReadPhase.slot?, hdispatched]
        rfl
      rw [hpaid]
      show Accounts (world.judgeVerdictMemo.get? _).isSome (world.judgeInflight.get? _) _
        (movesOf _ (.read reader read.run.queryRunId .dispatched :: world.log))
      rw [movesOf_cons hmove]
      exact hown.pay hslot

/-- The worlds between the two halves of the owner's last section: published, and nothing dropped
yet. -/
def JudgeWorld.memoised {R : Type} (world : JudgeWorld R) (reader : ℕ) (read : EvaluationRead R)
    (call : OwnerCall) : JudgeWorld R :=
  { world with
    judgeVerdictMemo := world.judgeVerdictMemo.set read.run.queryRunId call.outcome
    judgeInflight := world.judgeInflight.pop read.run.queryRunId }.enter
      reader read (.published call) [.memoised call.outcome]

theorem memoised_accounted (hread : world.reads reader = some read) {call : OwnerCall}
    (hphase : read.phase = .called call) (hown : world.Accounted read.run.queryRunId)
    {queryRunId : Uuid} (h : world.Accounted queryRunId) :
    (world.memoised reader read call).Accounted queryRunId := by
  refine enter_accounted (.published call) [.memoised call.outcome] hread ?_ ?_ ?_ ?_ ?_ h
  · rfl
  · rfl
  · exact fun id hid => Dict.get?_set_of_ne _ _ hid
  · exact fun id hid => Dict.get?_pop_of_ne _ hid
  have hmove : (JudgeEvent.read (R := RunEvaluationResult Evaluation Trust) reader
      read.run.queryRunId
      (.memoised call.outcome)).move? read.run.queryRunId = some (.publish reader) := if_pos rfl
  have hslot : world.holding read.run.queryRunId reader =
      some (if call.dispatched then .paid reader else .claimed reader) := by
    rw [holding_of_read hread, hphase]
    rfl
  show Accounts ((world.judgeVerdictMemo.set _ _).get? _).isSome
    ((world.judgeInflight.pop _).get? _) _
    (movesOf _ (.read reader read.run.queryRunId (.memoised call.outcome) :: world.log))
  rw [Dict.get?_set_self, Dict.get?_pop_self, movesOf_cons hmove]
  exact hown.publish hslot (by split <;> simp)

/-- Dropping the oldest entries frees exactly the runs that are dropped. -/
theorem trim_accounted (h : ∀ queryRunId, world.Accounted queryRunId) (cap : ℕ)
    (queryRunId : Uuid) :
    ({ world with
      judgeVerdictMemo := world.judgeVerdictMemo.trim cap
      log := ((world.judgeVerdictMemo.overflow cap).map JudgeEvent.evicted).reverse ++ world.log
        } : JudgeWorld (RunEvaluationResult Evaluation Trust)).Accounted queryRunId := by
  have hrun := h queryRunId
  show Accounts ((world.judgeVerdictMemo.trim cap).get? queryRunId).isSome _
    (world.holding queryRunId)
    (movesOf queryRunId (_ ++ world.log))
  rw [Dict.get?_trim, movesOf_evicted queryRunId (Dict.nodup_overflow _ cap)]
  by_cases hdropped : queryRunId ∈ world.judgeVerdictMemo.overflow cap
  · obtain ⟨outcome, hmemo⟩ := Dict.mem_keys_of_mem_overflow hdropped
    rw [JudgeWorld.Accounted, hmemo] at hrun
    rw [if_pos hdropped, if_pos hdropped]
    exact hrun.evict
  · rw [if_neg hdropped, if_neg hdropped]
    exact hrun

theorem SectionEffect.accounted {world' : JudgeWorld (RunEvaluationResult Evaluation Trust)}
    (heffect : SectionEffect engine world read reader world')
    (hread : world.reads reader = some read) (h : ∀ queryRunId, world.Accounted queryRunId)
    (queryRunId : Uuid) : world'.Accounted queryRunId := by
  cases heffect with
  | stay => exact h queryRunId
  | ride after events world' hride hrode =>
      refine accounted_of_same after hread hrode.reads hride.slots hrode.memo hrode.inflight ?_
        (h queryRunId)
      rw [hrode.log, movesOf_append_of_rides _ _ _ hride.rides]
  | claim hphase hmemo hinflight => exact claim_accounted hread hmemo hinflight (h _) (h queryRunId)
  | call call hphase hcall => exact call_accounted hread hphase call (h _) (h queryRunId)
  | publish call hphase =>
      exact trim_accounted (fun id => memoised_accounted hread hphase (h _) (h id)) _ queryRunId
  | resolve call hphase =>
      refine accounted_of_same call.resume hread ?_ ?_ ?_ ?_ ?_ (h queryRunId)
      · rfl
      · rw [hphase]
        exact ⟨rfl, call.slot?_resume reader⟩
      · exact fun _ => rfl
      · rfl
      · rfl
  | store result hphase =>
      rw [JudgeWorld.storeSection]
      refine accounted_of_same (.served (some result) none) hread ?_ ?_ ?_ ?_ ?_ (h queryRunId)
      · simp
      · rw [hphase]
        exact ⟨rfl, rfl⟩
      · simp
      · simp
      · exact movesOf_append_of_rides _ _ _ (by simp [ReadEvent.Rides]) _

/-- A read that has just arrived holds nothing. -/
theorem arrive_accounted (hreads : world.reads reader = none) (run : JudgedRun)
    (agreement : AgreementSummary) {queryRunId : Uuid} (h : world.Accounted queryRunId) :
    ({ world with reads := Function.update world.reads reader (some ⟨run, agreement, .started⟩)
        } : JudgeWorld (RunEvaluationResult Evaluation Trust)).Accounted queryRunId := by
  set world' : JudgeWorld (RunEvaluationResult Evaluation Trust) :=
    { world with reads := Function.update world.reads reader (some ⟨run, agreement, .started⟩) }
  have hholding : world'.holding queryRunId = world.holding queryRunId := by
    funext other
    by_cases hother : other = reader
    · rw [hother, JudgeWorld.holding, JudgeWorld.holding, hreads]
      simp only [world', Function.update_self, ReadPhase.slot?, ite_self]
    · rw [JudgeWorld.holding, JudgeWorld.holding]
      simp only [world', Function.update_of_ne hother]
  rw [JudgeWorld.Accounted, hholding]
  exact h

/-- Every run's account holds after any turns. -/
theorem afterTurns_accounted (turns : List Turn) (queryRunId : Uuid) :
    (JudgeWorld.afterTurns engine turns).Accounted queryRunId := by
  refine JudgeWorld.afterTurns_induction (P := fun world => ∀ queryRunId,
    world.Accounted queryRunId)
    (fun _ => .idle rfl) ?_ ?_ turns queryRunId
  · intro world reader run agreement hreads h queryRunId
    exact arrive_accounted hreads run agreement (h queryRunId)
  · intro world reader read world' hread heffect h queryRunId
    exact heffect.accounted hread h queryRunId

end

end Quorum
