import Quorum.JudgeReads

/-! What one section of a read does: it rides, which leaves every memo and claim as it was, or it is
one of the owner's sections or the store of an evaluation. The log is read in two ways, as the moves
of one run's entry and as the trail of one read. -/

namespace Quorum

open IsoTime

/-! ### What the log says of one run and of one read -/

section

variable {R : Type}

/-- What an event does to a run's entry. -/
def JudgeEvent.move? (queryRunId : Uuid) : JudgeEvent R → Option (Flight.Move ℕ)
  | .read reader owned .claimed => if owned = queryRunId then some (.claim reader) else none
  | .read reader owned .dispatched => if owned = queryRunId then some (.pay reader) else none
  | .read reader owned (.memoised _) => if owned = queryRunId then some (.publish reader) else none
  | .read _ _ _ => none
  | .evicted owned => if owned = queryRunId then some .evict else none

def movesOf (queryRunId : Uuid) (log : List (JudgeEvent R)) : List (Flight.Move ℕ) :=
  log.filterMap (JudgeEvent.move? queryRunId)

/-- The event, if it is that read's on that run. -/
def JudgeEvent.of? (reader : ℕ) (queryRunId : Uuid) : JudgeEvent R → Option (ReadEvent R)
  | .read other owned event => if other = reader ∧ owned = queryRunId then some event else none
  | .evicted _ => none

def trailOf (reader : ℕ) (queryRunId : Uuid) (log : List (JudgeEvent R)) : List (ReadEvent R) :=
  log.filterMap (JudgeEvent.of? reader queryRunId)

theorem mem_trailOf {reader : ℕ} {queryRunId : Uuid} {log : List (JudgeEvent R)}
    {event : ReadEvent R} :
    event ∈ trailOf reader queryRunId log ↔ .read reader queryRunId event ∈ log := by
  rw [trailOf, List.mem_filterMap]
  constructor
  · rintro ⟨entry, hentry, hof⟩
    cases entry with
    | evicted owned => cases hof
    | read other owned found =>
        rw [JudgeEvent.of?, Option.ite_none_right_eq_some] at hof
        obtain ⟨⟨rfl, rfl⟩, hfound⟩ := hof
        cases hfound
        exact hentry
  · intro h
    exact ⟨_, h, if_pos ⟨rfl, rfl⟩⟩

/-- An event of a read that moves no entry. -/
def ReadEvent.Rides : ReadEvent R → Prop
  | .claimed => False
  | .dispatched => False
  | .memoised _ => False
  | _ => True

theorem movesOf_append_of_rides (queryRunId owned : Uuid) (reader : ℕ) {events : List (ReadEvent R)}
    (h : ∀ event ∈ events, event.Rides) (log : List (JudgeEvent R)) :
    movesOf queryRunId (events.map (JudgeEvent.read reader owned) ++ log) =
      movesOf queryRunId log := by
  rw [movesOf, List.filterMap_append, List.filterMap_eq_nil_iff.mpr]
  · rfl
  · intro entry hentry
    obtain ⟨event, hevent, rfl⟩ := List.mem_map.mp hentry
    have hrides := h event hevent
    cases event <;> first | rfl | exact hrides.elim

/-- Entries of the log that are not the read's leave its trail as it was. -/
theorem trailOf_append_of_other {reader other : ℕ} {queryRunId owned : Uuid}
    (h : ¬(other = reader ∧ owned = queryRunId)) (events : List (ReadEvent R))
    (log : List (JudgeEvent R)) :
    trailOf reader queryRunId (events.map (JudgeEvent.read other owned) ++ log) =
      trailOf reader queryRunId log := by
  rw [trailOf, List.filterMap_append, List.filterMap_eq_nil_iff.mpr]
  · rfl
  · intro entry hentry
    obtain ⟨event, hevent, rfl⟩ := List.mem_map.mp hentry
    exact if_neg h

theorem trailOf_append_self (reader : ℕ) (queryRunId : Uuid) (events : List (ReadEvent R))
    (log : List (JudgeEvent R)) :
    trailOf reader queryRunId (events.map (JudgeEvent.read reader queryRunId) ++ log) =
      events ++ trailOf reader queryRunId log := by
  rw [trailOf, List.filterMap_append, List.filterMap_map]
  have hself : JudgeEvent.of? reader queryRunId ∘ JudgeEvent.read reader queryRunId =
      (some : ReadEvent R → Option (ReadEvent R)) := by
    funext event
    exact if_pos ⟨rfl, rfl⟩
  rw [hself, List.filterMap_some]
  rfl

theorem trailOf_evicted (reader : ℕ) (queryRunId : Uuid) (dropped : List Uuid)
    (log : List (JudgeEvent R)) :
    trailOf reader queryRunId ((dropped.map JudgeEvent.evicted).reverse ++ log) =
      trailOf reader queryRunId log := by
  rw [trailOf, List.filterMap_append, List.filterMap_eq_nil_iff.mpr]
  · rfl
  · intro entry hentry
    obtain ⟨owned, _, rfl⟩ := List.mem_map.mp (List.mem_reverse.mp hentry)
    rfl

/-- A run is dropped at most once in one section. -/
theorem movesOf_evicted (queryRunId : Uuid) {dropped : List Uuid} (hnodup : dropped.Nodup)
    (log : List (JudgeEvent R)) :
    movesOf queryRunId ((dropped.map JudgeEvent.evicted).reverse ++ log) =
      (if queryRunId ∈ dropped then [.evict] else []) ++ movesOf queryRunId log := by
  have hdropped : (dropped.map (JudgeEvent.evicted (R := R))).filterMap
      (JudgeEvent.move? queryRunId) =
      if queryRunId ∈ dropped then [.evict] else [] := by
    induction dropped with
    | nil => rfl
    | cons owned dropped ih =>
        obtain ⟨habsent, hrest⟩ := List.nodup_cons.mp hnodup
        rw [List.map_cons]
        by_cases howned : owned = queryRunId
        · subst howned
          have hmove : (JudgeEvent.evicted (R := R) owned).move? owned = some .evict := if_pos rfl
          rw [List.filterMap_cons_some hmove, ih hrest, if_neg habsent, if_pos List.mem_cons_self]
        · have hmove : (JudgeEvent.evicted (R := R) owned).move? queryRunId = none := if_neg howned
          rw [List.filterMap_cons_none hmove, ih hrest]
          simp [Ne.symm howned]
  rw [movesOf, List.filterMap_append, List.filterMap_reverse, hdropped, movesOf]
  split <;> rfl

end

/-! ### What one section does -/

section

variable {Evaluation Trust : Type} (engine : EvaluationEngine Evaluation Trust)
variable (world : JudgeWorld (RunEvaluationResult Evaluation Trust))
variable (read : EvaluationRead (RunEvaluationResult Evaluation Trust))

/-- The sections that pay for nothing: where they lead and what they log. -/
inductive Ride : ReadPhase (RunEvaluationResult Evaluation Trust) →
    List (ReadEvent (RunEvaluationResult Evaluation Trust)) → Prop
  | skip (hphase : read.phase = .started) : Ride (.served none none) []
  | cached (result) (hphase : read.phase = .started) : Ride (.evaluationHit result) []
  | judge (hphase : read.phase = .started) : Ride .judging []
  | unjudged (hphase : read.phase = .started) :
      Ride (.storing (engine.evaluateRun read.run read.agreement none)) []
  | touch (result) (hphase : read.phase = .evaluationHit result) : Ride
      (.served (some result) none) []
  | hit (outcome)
      (hphase : read.phase = .judging ∨ (∃ sharing, read.phase = .claiming sharing)
        ∨ read.phase = .expired)
      (hmemo : world.judgeVerdictMemo.get? read.run.queryRunId = some outcome) :
      Ride (.judged outcome.verdict none) []
  | alone (hphase : read.phase = .judging) : Ride .railsDue []
  | share (hphase : read.phase = .judging) : Ride (.claiming true) [.sawInFlight]
  | allowed (rails : RailReading) (hphase : read.phase = .railsDue)
      (hallow : rails.allowDispatch = true) :
      Ride (.claiming false) [.railsRead rails]
  | refused (rails : RailReading) (hphase : read.phase = .railsDue) :
      Ride (.judged none (some .spendRailPreflight)) [.suppressed .spendRailPreflight,
        .railsRead rails]
  | await (owner : ℕ) (sharing : Bool) (hphase : read.phase = .claiming sharing)
      (hinflight : world.judgeInflight.get? read.run.queryRunId = some owner) :
      Ride (.waiting owner) [.sawInFlight]
  | ownerLost (hphase : read.phase = .claiming true) :
      Ride (.judged none (some .inflightOwnerLost)) [.suppressed .inflightOwnerLost]
  | resolved (owner : ℕ) (outcome) (hphase : read.phase = .waiting owner)
      (hfuture : world.futures.get? owner = some outcome) : Ride (.judged outcome.verdict none) []
  | expire (owner : ℕ) (hphase : read.phase = .waiting owner) : Ride .expired []
  | timeout (hphase : read.phase = .expired) :
      Ride (.judged none (some .inflightTimeout)) [.suppressed .inflightTimeout]
  | evaluate (verdict sourcePages) (hphase : read.phase = .judged verdict none) :
      Ride (.storing (engine.judgedResult read.run read.agreement verdict sourcePages)) []
  | serve (verdict reason result) (hphase : read.phase = .judged verdict (some reason)) :
      Ride (.served (some result) (some reason)) []

variable (reader : ℕ)

/-- A world after a section that changed no entry, no claim and no future. -/
structure Rode (after : ReadPhase (RunEvaluationResult Evaluation Trust))
    (events : List (ReadEvent (RunEvaluationResult Evaluation Trust)))
    (world' : JudgeWorld (RunEvaluationResult Evaluation Trust)) : Prop where
  memo : ∀ id, world'.judgeVerdictMemo.get? id = world.judgeVerdictMemo.get? id
  inflight : world'.judgeInflight = world.judgeInflight
  futures : world'.futures = world.futures
  evaluations : ∀ key, world'.evaluationMemo.get? key = world.evaluationMemo.get? key
  reads : world'.reads = Function.update world.reads reader (some { read with phase := after })
  log : world'.log = events.map (JudgeEvent.read reader read.run.queryRunId) ++ world.log

/-- Everything that a section can do. -/
inductive SectionEffect : JudgeWorld (RunEvaluationResult Evaluation Trust) → Prop
  | stay : SectionEffect world
  | ride (after events world') (hride : Ride engine world read after events)
      (hrode : Rode world read reader after events world') : SectionEffect world'
  | claim (hphase : read.phase = .claiming false)
      (hmemo : world.judgeVerdictMemo.get? read.run.queryRunId = none)
      (hinflight : world.judgeInflight.get? read.run.queryRunId = none) :
      SectionEffect
        ({ world with judgeInflight := world.judgeInflight.set read.run.queryRunId reader }.enter
        reader read .owning [.claimed])
  | call (call : OwnerCall) (hphase : read.phase = .owning)
      (hcall : call.outcome.verdict = call.returned.toOption.join) :
      SectionEffect (world.callSection reader read call)
  | publish (call : OwnerCall) (hphase : read.phase = .called call) :
      SectionEffect (world.publishSection reader read call)
  | resolve (call : OwnerCall) (hphase : read.phase = .published call) :
      SectionEffect (world.resolveSection reader read call)
  | store (result) (hphase : read.phase = .storing result) :
      SectionEffect (world.storeSection reader read result)

variable {engine world read reader}

theorem rode_enter (after : ReadPhase (RunEvaluationResult Evaluation Trust))
    (events : List (ReadEvent (RunEvaluationResult Evaluation Trust))) :
    Rode world read reader after events (world.enter reader read after events) :=
  ⟨fun _ => rfl, rfl, rfl, fun _ => rfl, rfl, rfl⟩

/-- A ride that only enters its next phase. -/
theorem SectionEffect.entered {after : ReadPhase (RunEvaluationResult Evaluation Trust)}
    {events : List (ReadEvent (RunEvaluationResult Evaluation Trust))}
    (hride : Ride engine world read after events) :
    SectionEffect engine world read reader (world.enter reader read after events) :=
  .ride after events _ hride (rode_enter after events)

/-- A ride that also moves the run's entry to the recent end. -/
theorem SectionEffect.touched {after : ReadPhase (RunEvaluationResult Evaluation Trust)}
    {events : List (ReadEvent (RunEvaluationResult Evaluation Trust))}
    (hride : Ride engine world read after events) :
    SectionEffect engine world read reader
      ((world.judgeMemoTouch read.run.queryRunId).enter reader read after events) :=
  .ride after events _ hride
    ⟨fun id => Dict.get?_moveToEnd _ _ id, rfl, rfl, fun _ => rfl, rfl, rfl⟩

theorem startSection_effect (hphase : read.phase = .started) (judgeConfigured : Bool) :
    SectionEffect engine world read reader
      (world.startSection engine reader read judgeConfigured) := by
  rw [JudgeWorld.startSection]
  split
  · exact .entered (.skip hphase)
  · split
    · rename_i result _
      exact .ride (.evaluationHit result) [] _ (.cached result hphase)
        ⟨fun _ => rfl, rfl, rfl, fun key => Dict.get?_moveToEnd _ _ key, rfl, rfl⟩
    · split
      · exact .entered (.judge hphase)
      · exact .entered (.unjudged hphase)

theorem lookSection_effect (hphase : read.phase = .judging) :
    SectionEffect engine world read reader (world.lookSection reader read) := by
  rw [JudgeWorld.lookSection]
  split
  · rename_i outcome hmemo
    exact .touched (.hit outcome (.inl hphase) hmemo)
  · split
    · exact .entered (.share hphase)
    · exact .entered (.alone hphase)

theorem railsSection_effect (hphase : read.phase = .railsDue) (rails : RailReading) :
    SectionEffect engine world read reader (world.railsSection reader read rails) := by
  rw [JudgeWorld.railsSection]
  split
  · rename_i hallow
    exact .entered (.allowed rails hphase hallow)
  · exact .entered (.refused rails hphase)

theorem claimSection_effect {sharing : Bool} (hphase : read.phase = .claiming sharing) :
    SectionEffect engine world read reader (world.claimSection reader read sharing) := by
  rw [JudgeWorld.claimSection]
  split
  · rename_i outcome hmemo
    exact .touched (.hit outcome (.inr (.inl ⟨sharing, hphase⟩)) hmemo)
  · rename_i hmemo
    split
    · rename_i owner hinflight
      exact .entered (.await owner sharing hphase hinflight)
    · rename_i hinflight
      cases sharing with
      | true => exact .entered (.ownerLost hphase)
      | false => exact .claim hphase hmemo hinflight

theorem waitSection_effect {owner : ℕ} (hphase : read.phase = .waiting owner) (waitExpires : Bool) :
    SectionEffect engine world read reader (world.waitSection reader read owner waitExpires) := by
  rw [JudgeWorld.waitSection]
  split
  · rename_i outcome hfuture
    exact .entered (.resolved owner outcome hphase hfuture)
  · split
    · exact .entered (.expire owner hphase)
    · exact .stay

theorem expiredSection_effect (hphase : read.phase = .expired) :
    SectionEffect engine world read reader (world.expiredSection reader read) := by
  rw [JudgeWorld.expiredSection]
  split
  · rename_i outcome hmemo
    exact .entered (.hit outcome (.inr (.inr hphase)) hmemo)
  · exact .entered (.timeout hphase)

theorem evaluateSection_effect {verdict : Option JudgeVerdict}
    {suppression : Option JudgeSuppressionReason}
    (hphase : read.phase = .judged verdict suppression) :
    SectionEffect engine world read reader
      (world.evaluateSection engine reader read verdict suppression) := by
  cases suppression with
  | none => exact .entered (.evaluate verdict _ hphase)
  | some reason => exact .entered (.serve verdict reason _ hphase)

theorem proceed_effect (env : TurnEnv) :
    SectionEffect engine world read reader (world.proceed engine reader read env) := by
  rw [JudgeWorld.proceed]
  split
  · rename_i hphase
    exact startSection_effect hphase _
  · rename_i cached hphase
    exact .touched (.touch cached hphase)
  · rename_i hphase
    exact lookSection_effect hphase
  · rename_i hphase
    exact railsSection_effect hphase _
  · rename_i sharing hphase
    exact claimSection_effect hphase
  · rename_i owner hphase
    exact waitSection_effect hphase _
  · rename_i hphase
    exact expiredSection_effect hphase
  · rename_i hphase
    exact .call _ hphase (OwnerEnv.call_verdict _ _)
  · rename_i call hphase
    exact .publish call hphase
  · rename_i call hphase
    exact .resolve call hphase
  · rename_i verdict suppression hphase
    exact evaluateSection_effect hphase
  · rename_i result hphase
    exact .store result hphase
  · exact .stay
  · exact .stay

/-- What an arrival and every section preserve holds after any turns. -/
theorem JudgeWorld.afterTurns_induction
    {P : JudgeWorld (RunEvaluationResult Evaluation Trust) → Prop}
    (hempty : P .empty)
    (harrive : ∀ world reader run agreement, world.reads reader = none → P world →
      P { world with reads := Function.update world.reads reader (some ⟨run,
        agreement, .started⟩) })
    (hsection : ∀ world reader read world', world.reads reader = some read →
      SectionEffect engine world read reader world' → P world → P world')
    (turns : List Turn) : P (JudgeWorld.afterTurns engine turns) := by
  induction turns using List.reverseRecOn with
  | nil => exact hempty
  | append_singleton turns turn ih =>
      rw [JudgeWorld.afterTurns, List.foldl_append]
      change P (JudgeWorld.step engine (JudgeWorld.afterTurns engine turns) turn)
      generalize JudgeWorld.afterTurns engine turns = world at ih ⊢
      cases turn with
      | arrive reader run agreement =>
          rw [JudgeWorld.step]
          split
          · exact ih
          · rename_i hreads
            exact harrive world reader run agreement hreads ih
      | proceed reader env =>
          rw [JudgeWorld.step]
          split
          · rename_i read hread
            exact hsection world reader read _ hread (proceed_effect env) ih
          · exact ih

end

end Quorum
