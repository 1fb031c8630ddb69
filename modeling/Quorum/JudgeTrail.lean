import Quorum.JudgePaid

/-! The trail of one read, and where memoised outcomes and stored evaluations come from. A read that
saw another call in flight never pays, a payment follows the payer's own look at the rails, and a
read that was suppressed has memoised and stored nothing. -/

namespace Quorum

open IsoTime

/-! ### Shapes of a trail -/

section

variable {R : Type}

/-- The read has only looked. -/
def Riding (trail : List (ReadEvent R)) : Prop :=
  ∀ event ∈ trail, (∃ rails, event = .railsRead rails) ∨ event = .sawInFlight

/-- The rails allowed a dispatch, and nothing was in flight. -/
def Allowed (trail : List (ReadEvent R)) : Prop :=
  ∃ rails : RailReading, rails.allowDispatch = true ∧ trail = [.railsRead rails]

/-- The run is claimed, and may be paid for. -/
def Paying (trail : List (ReadEvent R)) : Prop :=
  ∃ allowed, Allowed allowed ∧
    (trail = .claimed :: allowed ∨ trail = .dispatched :: .claimed :: allowed)

def Bought (trail : List (ReadEvent R)) : Prop :=
  ∃ outcome paying, Paying paying ∧ trail = .memoised outcome :: paying

def Suppressed (trail : List (ReadEvent R)) : Prop :=
  ∃ reason riding, Riding riding ∧ trail = .suppressed reason :: riding

def Answered (trail : List (ReadEvent R)) : Prop := Riding trail ∨ Bought trail

/-- What a read in a phase has done. -/
def ReadPhase.Fits : ReadPhase R → List (ReadEvent R) → Prop
  | .started, trail | .evaluationHit _, trail | .judging, trail | .railsDue, trail => trail = []
  | .claiming false, trail => Allowed trail
  | .claiming true, trail => trail = [.sawInFlight]
  | .waiting _, trail | .expired, trail => Riding trail
  | .owning, trail => ∃ allowed, Allowed allowed ∧ trail = .claimed :: allowed
  | .called _, trail => Paying trail
  | .published _, trail | .raised, trail => Bought trail
  | .judged _ none, trail | .storing _, trail => Answered trail
  | .judged _ (some _), trail | .served _ (some _), trail => Suppressed trail
  | .served _ none, trail =>
      Answered trail ∨ ∃ key result answered, Answered answered ∧
        trail = .stored key result :: answered

theorem riding_nil : Riding ([] : List (ReadEvent R)) := fun _ h => absurd h List.not_mem_nil

theorem Riding.saw {trail : List (ReadEvent R)} (h : Riding trail) :
    Riding (.sawInFlight :: trail) := by
  intro event hevent
  rcases List.mem_cons.mp hevent with rfl | hevent
  · exact .inr rfl
  · exact h event hevent

theorem Riding.read {trail : List (ReadEvent R)} (h : Riding trail) (rails : RailReading) :
    Riding (.railsRead rails :: trail) := by
  intro event hevent
  rcases List.mem_cons.mp hevent with rfl | hevent
  · exact .inl ⟨rails, rfl⟩
  · exact h event hevent

theorem Allowed.riding {trail : List (ReadEvent R)} (h : Allowed trail) : Riding trail := by
  obtain ⟨rails, _, rfl⟩ := h
  exact riding_nil.read rails

theorem ReadPhase.Fits.riding_of_claiming {sharing : Bool} {trail : List (ReadEvent R)}
    (h : (ReadPhase.claiming sharing).Fits trail) : Riding trail := by
  cases sharing with
  | false => exact Allowed.riding h
  | true =>
      cases h
      exact riding_nil.saw

/-! ### What the shapes rule out -/

/-- What holds of the trail of any read. -/
structure Lawful (trail : List (ReadEvent R)) : Prop where
  allowed : ∀ later earlier, trail = later ++ .dispatched :: earlier →
    ∃ rails : RailReading, rails.allowDispatch = true ∧ .railsRead rails ∈ earlier
  rider : .sawInFlight ∈ trail → .dispatched ∉ trail
  suppressed : ∀ reason, .suppressed reason ∈ trail →
    (∀ outcome, .memoised outcome ∉ trail) ∧ ∀ key result, .stored key result ∉ trail

theorem Riding.not_mem {trail : List (ReadEvent R)} (h : Riding trail) :
    .dispatched ∉ trail ∧ (∀ outcome, .memoised outcome ∉ trail) ∧
      (∀ key result, .stored key result ∉ trail) ∧ ∀ reason, .suppressed reason ∉ trail := by
  refine ⟨fun hmem => ?_, fun _ hmem => ?_, fun _ _ hmem => ?_, fun _ hmem => ?_⟩ <;>
    rcases h _ hmem with ⟨_, heq⟩ | heq <;> cases heq

theorem Riding.lawful {trail : List (ReadEvent R)} (h : Riding trail) : Lawful trail where
  allowed := fun later _ heq =>
    absurd (heq ▸ List.mem_append_right later List.mem_cons_self) h.not_mem.1
  rider := fun _ => h.not_mem.1
  suppressed := fun reason hmem => absurd hmem (h.not_mem.2.2.2 reason)

theorem Suppressed.lawful {trail : List (ReadEvent R)} (h : Suppressed trail) : Lawful trail := by
  obtain ⟨reason, riding, hriding, rfl⟩ := h
  obtain ⟨hdispatched, hmemoised, hstored, _⟩ := hriding.not_mem
  have hnot : ReadEvent.dispatched ∉ ReadEvent.suppressed reason :: riding := by simp [hdispatched]
  refine ⟨fun later earlier heq => ?_, fun _ => hnot, fun _ _ => ⟨?_, ?_⟩⟩
  · exact absurd (heq ▸ List.mem_append_right later List.mem_cons_self) hnot
  · simpa using hmemoised
  · simpa using hstored

/-- One event more that is no payment, no look in flight and no suppression. -/
theorem Lawful.cons {trail : List (ReadEvent R)} (h : Lawful trail)
    (hsuppressed : ∀ reason, .suppressed reason ∉ trail) {event : ReadEvent R}
    (hevent : event ≠ .dispatched ∧ event ≠ .sawInFlight ∧ ∀ reason, event ≠ .suppressed reason) :
    Lawful (event :: trail) := by
  obtain ⟨hpay, hsaw, hsuppress⟩ := hevent
  refine ⟨fun later earlier heq => ?_, fun hmem => ?_, fun reason hmem => ?_⟩
  · cases later with
    | nil => exact absurd (List.cons.inj heq).1 hpay
    | cons first later => exact h.allowed later earlier (List.cons.inj heq).2
  · have hrider := h.rider ((List.mem_cons.mp hmem).resolve_left (Ne.symm hsaw))
    simpa [Ne.symm hpay] using hrider
  · exact ((List.mem_cons.mp hmem).elim (fun heq => absurd heq.symm (hsuppress reason))
      fun hmem => absurd hmem (hsuppressed reason))

theorem Paying.lawful {trail : List (ReadEvent R)} (h : Paying trail) :
    Lawful trail ∧ ∀ reason, .suppressed reason ∉ trail := by
  obtain ⟨allowed, ⟨rails, hallow, rfl⟩, rfl | rfl⟩ := h
  · refine ⟨(riding_nil.read rails).lawful.cons (by simp) (by simp), by simp⟩
  · refine ⟨⟨fun later earlier heq => ?_, by simp, by simp⟩, by simp⟩
    refine ⟨rails, hallow, ?_⟩
    rcases later with _ | ⟨first, _ | ⟨second, _ | ⟨third, later⟩⟩⟩
    · cases heq
      simp
    · simp at heq
    · simp at heq
    · simp at heq

theorem Bought.lawful {trail : List (ReadEvent R)} (h : Bought trail) :
    Lawful trail ∧ ∀ reason, .suppressed reason ∉ trail := by
  obtain ⟨outcome, paying, hpaying, rfl⟩ := h
  refine ⟨hpaying.lawful.1.cons hpaying.lawful.2 (by simp), ?_⟩
  simpa using hpaying.lawful.2

theorem Answered.lawful {trail : List (ReadEvent R)} (h : Answered trail) :
    Lawful trail ∧ ∀ reason, .suppressed reason ∉ trail := by
  rcases h with h | h
  · exact ⟨h.lawful, h.not_mem.2.2.2⟩
  · exact h.lawful

theorem ReadPhase.Fits.lawful {phase : ReadPhase R} {trail : List (ReadEvent R)}
    (h : phase.Fits trail) : Lawful trail := by
  cases phase with
  | started => exact (h ▸ riding_nil : Riding trail).lawful
  | evaluationHit cached => exact (h ▸ riding_nil : Riding trail).lawful
  | judging => exact (h ▸ riding_nil : Riding trail).lawful
  | railsDue => exact (h ▸ riding_nil : Riding trail).lawful
  | claiming sharing => exact h.riding_of_claiming.lawful
  | waiting owner => exact Riding.lawful h
  | expired => exact Riding.lawful h
  | owning =>
      obtain ⟨allowed, hallowed, rfl⟩ := h
      exact (Paying.lawful ⟨allowed, hallowed, .inl rfl⟩).1
  | called call => exact (Paying.lawful h).1
  | published call => exact (Bought.lawful h).1
  | raised => exact (Bought.lawful h).1
  | storing result => exact (Answered.lawful h).1
  | judged verdict suppression =>
      cases suppression with
      | none => exact (Answered.lawful h).1
      | some reason => exact Suppressed.lawful h
  | served result suppression =>
      cases suppression with
      | some reason => exact Suppressed.lawful h
      | none =>
          rcases h with h | ⟨key, stored, answered, hanswered, rfl⟩
          · exact (Answered.lawful h).1
          · exact hanswered.lawful.1.cons hanswered.lawful.2 (by simp)

end

/-! ### The trails of a world -/

section

variable {Evaluation Trust : Type} {engine : EvaluationEngine Evaluation Trust}
variable {world : JudgeWorld (RunEvaluationResult Evaluation Trust)}
variable {read : EvaluationRead (RunEvaluationResult Evaluation Trust)} {reader : ℕ}

theorem Ride.fits {after : ReadPhase (RunEvaluationResult Evaluation Trust)}
    {events trail : List (ReadEvent (RunEvaluationResult Evaluation Trust))}
    (hride : Ride engine world read after events) (h : read.phase.Fits trail) :
    after.Fits (events ++ trail) := by
  cases hride with
  | skip hphase => rw [hphase] at h; cases h; exact .inl (.inl riding_nil)
  | cached result hphase => rw [hphase] at h; exact h
  | judge hphase => rw [hphase] at h; exact h
  | unjudged hphase => rw [hphase] at h; cases h; exact .inl riding_nil
  | touch result hphase => rw [hphase] at h; cases h; exact .inl (.inl riding_nil)
  | hit outcome hphase hmemo =>
      rcases hphase with hphase | ⟨sharing, hphase⟩ | hphase <;> rw [hphase] at h
      · cases h
        exact .inl riding_nil
      · exact .inl h.riding_of_claiming
      · exact .inl h
  | alone hphase => rw [hphase] at h; exact h
  | share hphase => rw [hphase] at h; cases h; rfl
  | allowed rails hphase hallow => rw [hphase] at h; cases h; exact ⟨rails, hallow, rfl⟩
  | refused rails hphase =>
      rw [hphase] at h
      cases h
      exact ⟨.spendRailPreflight, _, riding_nil.read rails, rfl⟩
  | await owner sharing hphase hinflight => rw [hphase] at h; exact h.riding_of_claiming.saw
  | ownerLost hphase =>
      rw [hphase] at h
      exact ⟨.inflightOwnerLost, trail, h.riding_of_claiming, rfl⟩
  | resolved owner outcome hphase hfuture => rw [hphase] at h; exact .inl h
  | expire owner hphase => rw [hphase] at h; exact h
  | timeout hphase => rw [hphase] at h; exact ⟨.inflightTimeout, trail, h, rfl⟩
  | evaluate verdict sourcePages hphase => rw [hphase] at h; exact h
  | serve verdict reason result hphase => rw [hphase] at h; exact h

/-- Every read has done what its phase says, and nothing is logged of a run that it is not of. -/
structure JudgeWorld.Trailed
    (world : JudgeWorld (RunEvaluationResult Evaluation Trust)) : Prop where
  fits : ∀ reader read, world.reads reader = some read →
    read.phase.Fits (trailOf reader read.run.queryRunId world.log)
  none : ∀ reader queryRunId, (∀ read ∈ world.reads reader, read.run.queryRunId ≠ queryRunId) →
    trailOf reader queryRunId world.log = []

theorem JudgeWorld.Trailed.lawful (h : world.Trailed) (reader : ℕ) (queryRunId : Uuid) :
    Lawful (trailOf reader queryRunId world.log) := by
  by_cases hown : ∃ read ∈ world.reads reader, read.run.queryRunId = queryRunId
  · obtain ⟨read, hread, rfl⟩ := hown
    exact (h.fits reader read hread).lawful
  · rw [h.none reader queryRunId fun read hread heq => hown ⟨read, hread, heq⟩]
    exact riding_nil.lawful

/-- A section that logs events of its own read only, and whose next phase they fit. -/
theorem enter_trailed {world' : JudgeWorld (RunEvaluationResult Evaluation Trust)}
    (phase : ReadPhase (RunEvaluationResult Evaluation Trust))
    (events : List (ReadEvent (RunEvaluationResult Evaluation Trust))) (h : world.Trailed)
    (hread : world.reads reader = some read)
    (hreads : world'.reads = Function.update world.reads reader (some { read with phase }))
    (htrail : ∀ other id, trailOf other id world'.log =
      trailOf other id (events.map (JudgeEvent.read reader read.run.queryRunId) ++ world.log))
    (hfits : read.phase.Fits (trailOf reader read.run.queryRunId world.log) →
      phase.Fits (events ++ trailOf reader read.run.queryRunId world.log)) : world'.Trailed := by
  constructor
  · intro other read' hread'
    rw [hreads] at hread'
    by_cases hother : other = reader
    · subst hother
      rw [Function.update_self] at hread'
      cases hread'
      rw [htrail, trailOf_append_self]
      exact hfits (h.fits other read hread)
    · rw [Function.update_of_ne hother] at hread'
      rw [htrail, trailOf_append_of_other fun heq => hother heq.1.symm]
      exact h.fits other read' hread'
  · intro other queryRunId hnot
    have hbefore : ∀ read ∈ world.reads other, read.run.queryRunId ≠ queryRunId := by
      intro read' hread'
      by_cases hother : other = reader
      · subst hother
        rw [hread] at hread'
        cases hread'
        exact hnot { read with phase } (by rw [hreads, Function.update_self]; rfl)
      · exact hnot read' (by rw [hreads, Function.update_of_ne hother]; exact hread')
    rw [htrail, trailOf_append_of_other, h.none other queryRunId hbefore]
    rintro ⟨rfl, heq⟩
    exact hbefore read hread heq

theorem SectionEffect.trailed {world' : JudgeWorld (RunEvaluationResult Evaluation Trust)}
    (heffect : SectionEffect engine world read reader world')
    (hread : world.reads reader = some read) (h : world.Trailed) : world'.Trailed := by
  cases heffect with
  | stay => exact h
  | ride after events world' hride hrode =>
      exact enter_trailed after events h hread hrode.reads (fun _ _ => by rw [hrode.log]) hride.fits
  | claim hphase hmemo hinflight =>
      refine enter_trailed .owning [.claimed] h hread ?_ ?_ ?_
      · rfl
      · exact fun _ _ => rfl
      · intro hfits
        rw [hphase] at hfits
        exact ⟨_, hfits, rfl⟩
  | call call hphase hcall =>
      refine enter_trailed (.called call) (if call.dispatched then [.dispatched] else []) h
        hread ?_ ?_ ?_
      · rfl
      · exact fun _ _ => rfl
      · intro hfits
        rw [hphase] at hfits
        obtain ⟨allowed, hallowed, hclaimed⟩ := hfits
        rw [hclaimed]
        split
        · exact ⟨allowed, hallowed, .inr rfl⟩
        · exact ⟨allowed, hallowed, .inl rfl⟩
  | publish call hphase =>
      refine enter_trailed (.published call) [.memoised call.outcome] h hread ?_ ?_ ?_
      · rfl
      · exact fun other id => trailOf_evicted other id _ _
      · intro hfits
        rw [hphase] at hfits
        exact ⟨call.outcome, _, hfits, rfl⟩
  | resolve call hphase =>
      refine enter_trailed call.resume [] h hread ?_ ?_ ?_
      · rfl
      · exact fun _ _ => rfl
      · intro hfits
        rw [hphase] at hfits
        rw [OwnerCall.resume]
        split
        · exact .inr hfits
        · exact hfits
  | store result hphase =>
      refine enter_trailed (.served (some result) none) [.stored read.key result] h hread ?_ ?_ ?_
      · rw [JudgeWorld.storeSection]
        simp
      · intro other id
        rw [JudgeWorld.storeSection, JudgeWorld.enter_log]
      · intro hfits
        rw [hphase] at hfits
        exact .inr ⟨read.key, result, _, hfits, rfl⟩

theorem arrive_trailed (hreads : world.reads reader = none) (run : JudgedRun)
    (agreement : AgreementSummary) (h : world.Trailed) :
    ({ world with reads := Function.update world.reads reader (some ⟨run, agreement, .started⟩)
        } : JudgeWorld (RunEvaluationResult Evaluation Trust)).Trailed := by
  constructor
  · intro other read' hread'
    by_cases hother : other = reader
    · subst hother
      simp only [Function.update_self, Option.some.injEq] at hread'
      subst hread'
      exact h.none other run.queryRunId (by simp [hreads])
    · simp only [Function.update_of_ne hother] at hread'
      exact h.fits other read' hread'
  · intro other queryRunId hnot
    refine h.none other queryRunId fun read' hread' => ?_
    by_cases hother : other = reader
    · rw [hother, hreads] at hread'
      cases hread'
    · exact hnot read' (by simpa only [Function.update_of_ne hother] using hread')

/-! ### Where entries come from -/

/-- Every memoised outcome was published by an owner, and every stored evaluation by a read. -/
structure JudgeWorld.Sourced
    (world : JudgeWorld (RunEvaluationResult Evaluation Trust)) : Prop where
  memo : ∀ id outcome, world.judgeVerdictMemo.get? id = some outcome →
    ∃ owner, .read owner id (.memoised outcome) ∈ world.log
  evaluations : ∀ key result, world.evaluationMemo.get? key = some result →
    ∃ reader id, .read reader id (.stored key result) ∈ world.log

/-- Neither memo answers a lookup that it did not answer before. -/
theorem JudgeWorld.Sourced.mono {world' : JudgeWorld (RunEvaluationResult Evaluation Trust)}
    (h : world.Sourced)
    (hmemo : ∀ id, world'.judgeVerdictMemo.get? id = world.judgeVerdictMemo.get? id)
    (hevaluations : ∀ key, world'.evaluationMemo.get? key = world.evaluationMemo.get? key)
    (hlog : ∀ entry ∈ world.log, entry ∈ world'.log) : world'.Sourced := by
  constructor
  · intro id outcome hget
    rw [hmemo] at hget
    obtain ⟨owner, howner⟩ := h.memo id outcome hget
    exact ⟨owner, hlog _ howner⟩
  · intro key result hget
    rw [hevaluations] at hget
    obtain ⟨reader, id, hstored⟩ := h.evaluations key result hget
    exact ⟨reader, id, hlog _ hstored⟩

/-- A cache that is written and then trimmed answers with what was written or with what it had. -/
theorem get?_of_trim_set {κ ν : Type} [DecidableEq κ] {d : Dict κ ν} {written key : κ}
    {value found : ν} {cap : ℕ} (h : ((d.set written value).trim cap).get? key = some found) :
    (key = written ∧ found = value) ∨ d.get? key = some found := by
  rw [Dict.get?_trim] at h
  split at h
  · cases h
  · rw [Dict.get?_set] at h
    split at h
    · cases h
      exact .inl ⟨‹_›, rfl⟩
    · exact .inr h

theorem SectionEffect.sourced {world' : JudgeWorld (RunEvaluationResult Evaluation Trust)}
    (heffect : SectionEffect engine world read reader world') (h : world.Sourced) :
    world'.Sourced := by
  cases heffect with
  | stay => exact h
  | ride after events world' hride hrode =>
      refine h.mono hrode.memo hrode.evaluations fun entry hentry => ?_
      rw [hrode.log]
      exact List.mem_append_right _ hentry
  | claim hphase hmemo hinflight =>
      exact h.mono (fun _ => rfl) (fun _ => rfl) fun entry hentry => List.mem_append_right _ hentry
  | call call hphase hcall =>
      exact h.mono (fun _ => rfl) (fun _ => rfl) fun entry hentry => List.mem_append_right _ hentry
  | publish call hphase =>
      have hlog : ∀ entry ∈ .read reader read.run.queryRunId (.memoised call.outcome) :: world.log,
          entry ∈ (world.publishSection reader read call).log :=
        fun entry hentry => List.mem_append_right _ hentry
      constructor
      · intro id outcome hget
        rcases get?_of_trim_set hget with ⟨rfl, rfl⟩ | hget
        · exact ⟨reader, hlog _ List.mem_cons_self⟩
        · obtain ⟨owner, howner⟩ := h.memo id outcome hget
          exact ⟨owner, hlog _ (List.mem_cons_of_mem _ howner)⟩
      · intro key result hget
        rw [JudgeWorld.publishSection_evaluationMemo] at hget
        obtain ⟨other, id, hstored⟩ := h.evaluations key result hget
        exact ⟨other, id, hlog _ (List.mem_cons_of_mem _ hstored)⟩
  | resolve call hphase =>
      exact h.mono (fun _ => rfl) (fun _ => rfl) fun entry hentry => List.mem_append_right _ hentry
  | store result hphase =>
      constructor
      · intro id outcome hget
        rw [JudgeWorld.storeSection, JudgeWorld.enter_judgeVerdictMemo] at hget
        rw [JudgeWorld.storeSection, JudgeWorld.enter_log]
        obtain ⟨owner, howner⟩ := h.memo id outcome hget
        exact ⟨owner, List.mem_append_right _ howner⟩
      · intro key found hget
        rw [JudgeWorld.storeSection, JudgeWorld.enter_evaluationMemo, Dict.get?_trim] at hget
        rw [JudgeWorld.storeSection, JudgeWorld.enter_log]
        split at hget
        · cases hget
        · rw [Dict.get?_moveToEnd, Dict.get?_set] at hget
          split at hget
          · rename_i hkey
            cases hget
            exact ⟨reader, read.run.queryRunId, by rw [hkey]; exact List.mem_cons_self⟩
          · obtain ⟨other, id, hstored⟩ := h.evaluations key found hget
            exact ⟨other, id, List.mem_append_right _ hstored⟩

theorem empty_trailed :
    (JudgeWorld.empty : JudgeWorld (RunEvaluationResult Evaluation Trust)).Trailed where
  fits := fun _ _ hread => absurd hread.symm (Option.some_ne_none _)
  none := fun _ _ _ => rfl

theorem empty_sourced :
    (JudgeWorld.empty : JudgeWorld (RunEvaluationResult Evaluation Trust)).Sourced where
  memo := fun _ _ hget => absurd hget.symm (Option.some_ne_none _)
  evaluations := fun _ _ hget => absurd hget.symm (Option.some_ne_none _)

theorem afterTurns_trailed (turns : List Turn) : (JudgeWorld.afterTurns engine turns).Trailed := by
  refine JudgeWorld.afterTurns_induction (P := JudgeWorld.Trailed) empty_trailed ?_ ?_ turns
  · intro world reader run agreement hreads h
    exact arrive_trailed hreads run agreement h
  · intro world reader read world' hread heffect h
    exact heffect.trailed hread h

theorem afterTurns_sourced (turns : List Turn) : (JudgeWorld.afterTurns engine turns).Sourced := by
  refine JudgeWorld.afterTurns_induction (P := JudgeWorld.Sourced) empty_sourced ?_ ?_ turns
  · intro world reader run agreement hreads h
    exact h.mono (fun _ => rfl) (fun _ => rfl) fun _ hentry => hentry
  · intro world reader read world' hread heffect h
    exact heffect.sourced h

/-- A payment is made only while its run has no memoised outcome. -/
theorem memo_none_of_dispatched (turns : List Turn) (turn : Turn) (queryRunId : Uuid)
    (hpaid : (JudgeWorld.step engine (JudgeWorld.afterTurns engine turns) turn).log =
      .read reader queryRunId .dispatched :: (JudgeWorld.afterTurns engine turns).log) :
    (JudgeWorld.afterTurns engine turns).judgeVerdictMemo.get? queryRunId = none := by
  have hbefore : (JudgeWorld.afterTurns engine turns).Accounted queryRunId :=
    afterTurns_accounted turns queryRunId
  have hafter : (JudgeWorld.afterTurns engine (turns ++ [turn])).Accounted queryRunId :=
    afterTurns_accounted (turns ++ [turn]) queryRunId
  rw [JudgeWorld.afterTurns, List.foldl_append] at hafter
  obtain ⟨slot, hreplay⟩ := hafter.replays
  change Flight.replay (movesOf queryRunId
    (JudgeWorld.step engine (JudgeWorld.afterTurns engine turns) turn).log) = some slot at hreplay
  have hmove : (JudgeEvent.read (R := RunEvaluationResult Evaluation Trust) reader queryRunId
      .dispatched).move? queryRunId = some (.pay reader) := if_pos rfl
  rw [hpaid, movesOf_cons hmove] at hreplay
  have hclaimed := Flight.claimed_of_pay [] hreplay
  simpa using hbefore.unmemoised_of_claimed hclaimed

/-- For any turns of any reads. A run is paid for at most once between two evictions of its entry,
and never while it has one; a payer was allowed by the rails before; a read that saw a call in
flight never pays; a suppressed read memoises and stores nothing; and every entry of a memo was put
there by a read. -/
theorem judge_paid_at_most_once (engine : EvaluationEngine Evaluation Trust) (turns : List Turn)
    (queryRunId : Uuid) :
    Flight.paysSinceEvict (movesOf queryRunId (JudgeWorld.afterTurns engine turns).log) ≤ 1 ∧
    (∀ reader turn, (JudgeWorld.step engine (JudgeWorld.afterTurns engine turns) turn).log =
        .read reader queryRunId .dispatched :: (JudgeWorld.afterTurns engine turns).log →
      (JudgeWorld.afterTurns engine turns).judgeVerdictMemo.get? queryRunId = none) ∧
    (∀ reader later earlier, (JudgeWorld.afterTurns engine turns).log =
        later ++ .read reader queryRunId .dispatched :: earlier →
      ∃ rails : RailReading, rails.allowDispatch = true ∧
        .read reader queryRunId (.railsRead rails) ∈ earlier) ∧
    (∀ reader, .read reader queryRunId .sawInFlight ∈ (JudgeWorld.afterTurns engine turns).log →
      .read reader queryRunId .dispatched ∉ (JudgeWorld.afterTurns engine turns).log) ∧
    (∀ reader reason,
      .read reader queryRunId (.suppressed reason) ∈ (JudgeWorld.afterTurns engine turns).log →
      (∀ outcome,
        .read reader queryRunId (.memoised outcome) ∉ (JudgeWorld.afterTurns engine turns).log) ∧
      ∀ key result,
        .read reader queryRunId (.stored key result) ∉ (JudgeWorld.afterTurns engine turns).log) ∧
    (JudgeWorld.afterTurns engine turns).Sourced := by
  have haccount : (JudgeWorld.afterTurns engine turns).Accounted queryRunId :=
    afterTurns_accounted turns queryRunId
  have htrail : (JudgeWorld.afterTurns engine turns).Trailed := afterTurns_trailed turns
  have hlawful := fun reader => htrail.lawful reader queryRunId
  refine ⟨?_, ?_, ?_, ?_, ?_, afterTurns_sourced turns⟩
  · obtain ⟨slot, hreplay⟩ := haccount.replays
    exact Flight.paysSinceEvict_le_one hreplay
  · intro reader turn hpaid
    exact memo_none_of_dispatched turns turn queryRunId hpaid
  · intro reader later earlier hlog
    have hpay : JudgeEvent.of? reader queryRunId (JudgeEvent.read
        (R := RunEvaluationResult Evaluation Trust) reader queryRunId .dispatched) =
          some .dispatched :=
      if_pos ⟨rfl, rfl⟩
    have hsplit : trailOf reader queryRunId (JudgeWorld.afterTurns engine turns).log =
        trailOf reader queryRunId later ++ .dispatched :: trailOf reader queryRunId earlier := by
      rw [hlog, trailOf, List.filterMap_append, List.filterMap_cons_some hpay]
      rfl
    obtain ⟨rails, hallow, hmem⟩ := (hlawful reader).allowed _ _ hsplit
    exact ⟨rails, hallow, mem_trailOf.mp hmem⟩
  · intro reader hsaw hpaid
    exact (hlawful reader).rider (mem_trailOf.mpr hsaw) (mem_trailOf.mpr hpaid)
  · intro reader reason hsuppressed
    obtain ⟨hmemoised, hstored⟩ := (hlawful reader).suppressed reason (mem_trailOf.mpr hsuppressed)
    exact ⟨fun outcome hmem => hmemoised outcome (mem_trailOf.mpr hmem),
      fun key result hmem => hstored key result (mem_trailOf.mpr hmem)⟩

end

end Quorum
