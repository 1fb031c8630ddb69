import Quorum.RunFinality
import Quorum.RunPipeline

/-! The worker refines the table of transitions. `update_status` never reads the table, so what
keeps a run on its edges is where the worker stands when it writes: each step starts from a phase, a
set of statuses that the run may have if it is neither terminal nor gone, and other requests can
only end the run or evict it. -/

namespace Quorum

open IsoTime Transaction

/-! ### Legal edges -/

/-- A stored status stays, or follows an edge of the table, or goes with its run. -/
def LegalStep : Option QueryRunStatus → Option QueryRunStatus → Prop
  | some current, some next => current = next ∨ next ∈ current.allowedTransitions
  | _, none => True
  | none, some _ => False

theorem LegalStep.refl (status : Option QueryRunStatus) : LegalStep status status := by
  cases status with
  | none => exact trivial
  | some status => exact .inl rfl

/-- The statuses of a phase: one of `statuses`, a terminal one, or none when the run is gone. -/
def Within (statuses : List QueryRunStatus) : Option QueryRunStatus → Prop
  | none => True
  | some status => status ∈ statuses ∨ status.isTerminal

theorem Within.mono {statuses statuses' : List QueryRunStatus} (hsub : statuses ⊆ statuses') :
    ∀ {status : Option QueryRunStatus}, Within statuses status → Within statuses' status
  | none, _ => trivial
  | some _, h => h.imp_left fun hmem => hsub hmem

/-- The statuses of a run whose worker is at work. -/
def activeStatuses : List QueryRunStatus :=
  [.accepted, .initialAnswersRunning, .debateRound1Running, .debateRound2Running, .synthesisRunning]

section

variable {α β : Type} {queryRunId : Uuid} {S S' S'' : List QueryRunStatus}

theorem statusOf_some {runs : QueryRuns} {run : QueryRun} (h : runs.get? queryRunId = some run) :
    statusOf queryRunId runs = some run.status := by
  rw [statusOf, h, Option.map_some]

theorem statusOf_none {runs : QueryRuns} (h : runs.get? queryRunId = none) :
    statusOf queryRunId runs = none := by
  rw [statusOf, h, Option.map_none]

/-- What the operations of other requests do to the status of a run: end it along an edge, or evict
it. -/
theorem RunOp.ByOthers.statusOf_apply {op : RunOp} (h : op.ByOthers queryRunId) (runs : QueryRuns) :
    statusOf queryRunId (op.apply runs) = none ∨
      statusOf queryRunId (op.apply runs) = statusOf queryRunId runs ∨
      ∃ status, statusOf queryRunId runs = some status ∧ .cancelled ∈ status.allowedTransitions ∧
        statusOf queryRunId (op.apply runs) = some .cancelled := by
  cases hrun' : (op.apply runs).get? queryRunId with
  | none => exact .inl (statusOf_none hrun')
  | some run' =>
      rw [statusOf_some hrun']
      rcases RunOp.get?_apply hrun' with ⟨run, hrun, rfl | ⟨write, rfl, rfl⟩⟩ | ⟨_, _, _, rfl, -, -⟩
      · exact .inr (.inl (statusOf_some hrun).symm)
      · rw [statusOf_some hrun]
        have hwrite := h rfl
        cases write with
        | transition now nextStatus failedSteps missingSteps =>
            obtain ⟨rfl, -, -⟩ := hwrite
            by_cases hallowed : .cancelled ∈ run.status.allowedTransitions
            · refine .inr (.inr ⟨run.status, rfl, hallowed, ?_⟩)
              rw [RunWrite.change, if_pos hallowed]
              rfl
            · rw [RunWrite.change, if_neg hallowed]
              exact .inr (.inl rfl)
        | updateStatus now write =>
            refine .inr (.inl ?_)
            have happly : write.guarded now run = write.apply now run :=
              if_neg fun hboth => hboth.2 hwrite
            rw [RunWrite.change, happly, write.apply_of_allowTerminal hwrite]
        | keepHistoryVerdict verdict => exact .inr (.inl rfl)
        | recordInitialAnswer now answer => exact hwrite.elim
        | markBillableStageEntered now stage => exact hwrite.elim
        | markSpendMeteringUnavailable now => exact hwrite.elim
        | markGlobalCeilingReached now => exact hwrite.elim
        | recordDebateOutputs now debateOutputs usages => exact hwrite.elim
        | recordFinalSynthesis now finalSynthesis usages => exact hwrite.elim
      · exact absurd rfl h

/-! ### Phases of a world -/

/-- The trail ends with the status that is stored, it follows the table, and the status satisfies
`p`. -/
structure Phase (queryRunId : Uuid) (p : Option QueryRunStatus → Prop) (w : World) : Prop where
  recorded : ∃ earlier, w.trail = statusOf queryRunId w.runs :: earlier
  legal : w.trail.IsChain fun later earlier => LegalStep earlier later
  holds : p (statusOf queryRunId w.runs)

theorem Phase.imp {p q : Option QueryRunStatus → Prop} {w : World} (h : Phase queryRunId p w)
    (hpq : ∀ status, p status → q status) : Phase queryRunId q w :=
  ⟨h.recorded, h.legal, hpq _ h.holds⟩

theorem Phase.commit {p q : Option QueryRunStatus → Prop} {w : World} {runs : QueryRuns}
    (h : Phase queryRunId p w)
    (hlegal : LegalStep (statusOf queryRunId w.runs) (statusOf queryRunId runs))
    (hq : q (statusOf queryRunId runs)) : Phase queryRunId q (w.commit queryRunId runs) := by
  obtain ⟨earlier, hearlier⟩ := h.recorded
  refine ⟨⟨w.trail, rfl⟩, ?_, hq⟩
  have hchain := h.legal
  rw [hearlier] at hchain
  show (statusOf queryRunId runs :: w.trail).IsChain _
  rw [hearlier]
  exact .cons_cons hlegal hchain

/-- Other requests keep the phase. -/
theorem Phase.byOthers {w : World} {op : RunOp} (hop : op.ByOthers queryRunId)
    (h : Phase queryRunId (Within S) w) :
    Phase queryRunId (Within S) (w.commit queryRunId (op.apply w.runs)) := by
  rcases hop.statusOf_apply w.runs with hgone | hsame | ⟨status, hstatus, hallowed, hcancelled⟩
  · refine h.commit ?_ ?_ <;> rw [hgone]
    · cases statusOf queryRunId w.runs <;> exact trivial
    · exact trivial
  · refine h.commit ?_ ?_ <;> rw [hsame]
    · exact .refl _
    · exact h.holds
  · refine h.commit ?_ ?_ <;> rw [hcancelled]
    · rw [hstatus]
      exact .inr hallowed
    · exact .inr rfl

variable (env : Surroundings queryRunId)

theorem Phase.interleave {w : World} (h : Phase queryRunId (Within S) w) :
    Phase queryRunId (Within S) (interleave env w) := by
  have hstart : Phase queryRunId (Within S) { w with step := w.step + 1 } :=
    ⟨h.recorded, h.legal, h.holds⟩
  rw [Quorum.interleave]
  generalize ({ w with step := w.step + 1 } : World) = start at hstart
  have hothers := env.byOthers w.step
  generalize env.interference w.step = ops at hothers
  induction ops generalizing start with
  | nil => exact hstart
  | cons op ops ih =>
      exact ih _ (hstart.byOthers (hothers op List.mem_cons_self)) fun o ho =>
        hothers o (List.mem_cons_of_mem op ho)

/-! ### Operations of the repository -/

/-- From a status where `p` holds, the script makes a legal step to one where `q` or `r` holds. -/
def Legally (queryRunId : Uuid) (p : Option QueryRunStatus → Prop) (script : Repository α)
    (q : α → Option QueryRunStatus → Prop)
    (r : RepositoryError → Option QueryRunStatus → Prop) : Prop :=
  ∀ before, p before → Triple (fun runs => statusOf queryRunId runs = before) script
    (fun answer runs => LegalStep before (statusOf queryRunId runs) ∧
      q answer (statusOf queryRunId runs))
    (fun raised runs => LegalStep before (statusOf queryRunId runs) ∧
      r raised (statusOf queryRunId runs))

/-- What the repository raises, and where. Only the worker's own points crash. -/
def Raises (queryRunId : Uuid) (r : RepositoryError → Option QueryRunStatus → Prop) :
    WorkerError → World → Prop
  | .repository raised, w => Phase queryRunId (r raised) w
  | .crash _, _ => False

theorem Legally.onRepository {script : Instant → Repository α}
    {q : α → Option QueryRunStatus → Prop} {r : RepositoryError → Option QueryRunStatus → Prop}
    (h : ∀ now, Legally queryRunId (Within S) (script now) q r) :
    Triple (Phase queryRunId (Within S)) (onRepository env script) (fun answer =>
      Phase queryRunId (q answer))
      (Raises queryRunId r) := by
  intro w hw
  have hphase := hw.interleave env
  rw [Quorum.onRepository]
  generalize interleave env w = w' at hphase
  have hrun := h (env.clock w'.step) _ hphase.holds w'.runs rfl
  cases hscript : script (env.clock w'.step) w'.runs with
  | ok answer runs =>
      rw [hscript] at hrun
      exact hphase.commit hrun.1 hrun.2
  | error raised runs =>
      rw [hscript] at hrun
      exact hphase.commit hrun.1 hrun.2

/-- A change of the stored run. -/
theorem modifyRun_legally {change : QueryRun → QueryRun} {p q : Option QueryRunStatus → Prop}
    (h : ∀ run : QueryRun, p (some run.status) →
      LegalStep (some run.status) (some (change run).status) ∧ q (some (change run).status)) :
    Legally queryRunId p (modifyRun queryRunId change) (fun _ => q) fun _ status =>
      status = none := by
  intro before hbefore runs hruns
  cases hrun : runs.get? queryRunId with
  | none =>
      rw [modifyRun, hrun]
      subst hruns
      exact ⟨.refl _, statusOf_none hrun⟩
  | some run =>
      rw [modifyRun, hrun]
      subst hruns
      rw [statusOf_some hrun] at hbefore ⊢
      have hset : statusOf queryRunId (runs.set queryRunId (change run)) =
          some (change run).status :=
        statusOf_some (by rw [Dict.get?_set, if_pos rfl])
      show LegalStep _ (statusOf queryRunId (runs.set queryRunId (change run))) ∧
        q (statusOf queryRunId (runs.set queryRunId (change run)))
      rw [hset]
      exact h run hbefore

/-- A read answers the status it found, and raises when the run is gone. -/
theorem getRun_legally (now : Instant) :
    Legally queryRunId (Within S) (getRun now queryRunId)
      (fun run status => status = some run.status ∧
        Within S status) (fun _ status => status = none) := by
  intro before hbefore runs hruns
  have hpurge : purgeExpiredLocked now runs = .ok () (evictExpired now runs) := rfl
  rw [getRun, bind_of_ok _ hpurge, stored]
  cases hrun : (evictExpired now runs).get? queryRunId with
  | none =>
      show LegalStep before (statusOf queryRunId (evictExpired now runs)) ∧ _ = none
      rw [statusOf_none hrun]
      exact ⟨by cases before <;> exact trivial, rfl⟩
  | some run =>
      show LegalStep before (statusOf queryRunId (evictExpired now runs)) ∧
        statusOf queryRunId (evictExpired now runs) = some run.status ∧
        Within S (statusOf queryRunId (evictExpired now runs))
      rw [statusOf_some hrun]
      rw [statusOf_some (get?_evictExpired hrun)] at hruns
      subst hruns
      exact ⟨.refl _, rfl, hbefore⟩

/-- A write of a status that the table allows after each status of the phase. -/
theorem updateStatus_legally {write : StatusWrite} (statusValue : QueryRunStatus)
    (h : write.statusValue = some statusValue)
    (hedges : ∀ status ∈ S, status = statusValue ∨ statusValue ∈ status.allowedTransitions)
    (now : Instant) :
    Legally queryRunId (Within S) (updateStatus now queryRunId write) (fun _ =>
      Within [statusValue])
      fun _ status => status = none := by
  have hallow : write.allowTerminal = false := by
    cases hopts : write.allowTerminal with
    | false => rfl
    | true => rw [(write.annotates hopts).1] at h; cases h
  refine modifyRun_legally fun run hrun => ?_
  by_cases hterminal : run.isTerminal
  · have hsame : write.guarded now run = run := if_pos ⟨hterminal, by simp [hallow]⟩
    rw [hsame]
    exact ⟨.refl _, .inr hterminal⟩
  · have happly : write.guarded now run = write.apply now run :=
      if_neg fun hboth => hterminal hboth.1
    have hstatus : (write.guarded now run).status = statusValue := by
      rw [happly, StatusWrite.apply, h]
      rfl
    rw [hstatus]
    rcases hrun with hmem | hended
    · exact ⟨hedges run.status hmem, .inl List.mem_cons_self⟩
    · exact absurd hended hterminal

/-- The verdict of a terminal persist changes no status and raises nothing. -/
theorem keepHistoryVerdict_legally (verdict : Option String) :
    Legally queryRunId (Within S) (keepHistoryVerdict queryRunId verdict) (fun _ => Within S)
      fun _ _ => False := by
  intro before hbefore runs hruns
  subst hruns
  rw [keepHistoryVerdict]
  cases hrun : runs.get? queryRunId with
  | none => exact ⟨.refl _, hbefore⟩
  | some run =>
      have hset : statusOf queryRunId (runs.set queryRunId (run.withHistoryVerdict verdict)) =
          statusOf queryRunId runs := by
        rw [statusOf_some hrun]
        have hget : (runs.set queryRunId (run.withHistoryVerdict verdict)).get? queryRunId =
            some (run.withHistoryVerdict verdict) := by rw [Dict.get?_set, if_pos rfl]
        exact (statusOf_some hget).trans rfl
      refine ⟨?_, ?_⟩ <;> rw [hset]
      · exact .refl _
      · exact hbefore

/-! ### Steps of the worker -/

/-- The worker may raise while its run is active, or gone, or ended by another. -/
def raises (queryRunId : Uuid) (_ : WorkerError) (w : World) : Prop :=
  Phase queryRunId (Within activeStatuses) w

/-- From the phase `S` the script answers in the phase `S'`. -/
def Leads (queryRunId : Uuid) (S S' : List QueryRunStatus) (x : Worker α) : Prop :=
  Triple (Phase queryRunId (Within S)) x (fun _ => Phase queryRunId (Within S')) (raises queryRunId)

theorem Raises.raises {r : RepositoryError → Option QueryRunStatus → Prop}
    (h : ∀ raised status, r raised status → Within activeStatuses status) (raised : WorkerError)
    (w : World) (hraised : Raises queryRunId r raised w) : Quorum.raises queryRunId raised w := by
  cases raised with
  | repository raised => exact Phase.imp hraised (h raised)
  | crash typeName => exact hraised.elim

theorem within_of_none {status : Option QueryRunStatus} (h : status = none) : Within S status := by
  rw [h]
  exact trivial

theorem within_of_terminal {statusValue : QueryRunStatus} (hterminal : statusValue.isTerminal) :
    ∀ {status : Option QueryRunStatus}, Within [statusValue] status → Within [] status
  | none, _ => trivial
  | some _, .inl hmem => .inr (List.mem_singleton.mp hmem ▸ hterminal)
  | some _, .inr hended => .inr hended

/-- Outside the repository the worker keeps its phase, also when it crashes. -/
theorem outside_triple : Triple (Phase queryRunId (Within S)) (outside env)
    (fun _ => Phase queryRunId (Within S)) fun _ => Phase queryRunId (Within S) := by
  intro w hw
  have hphase := hw.interleave env
  rw [Quorum.outside]
  generalize interleave env w = w' at hphase
  cases hcrash : env.crashes w'.step with
  | some typeName => exact hphase
  | none => exact hphase

namespace Leads

theorem mono {x : Worker α} (h : Leads queryRunId S S' x) (hsub : S' ⊆ S'') :
    Leads queryRunId S S'' x :=
  h.weaken fun _ _ hw => hw.imp fun _ => .mono hsub

/-- A script that keeps a phase may start from a smaller one. -/
theorem start {x : Worker α} (h : Leads queryRunId S S' x) (hsub : S'' ⊆ S) :
    Leads queryRunId S'' S' x :=
  h.strengthen fun _ hw => hw.imp fun _ => .mono hsub

protected theorem pure (answer : α) : Leads queryRunId S S (pure answer : Worker α) :=
  Triple.pure fun _ hw => hw

protected theorem bind {x : Worker α} {f : α → Worker β} (hx : Leads queryRunId S S' x)
    (hf : ∀ answer, Leads queryRunId S' S'' (f answer)) : Leads queryRunId S S'' (x >>= f) :=
  Triple.bind hx hf

protected theorem ite {c : Prop} [Decidable c] {x y : Worker α} (hx : Leads queryRunId S S' x)
    (hy : Leads queryRunId S S' y) : Leads queryRunId S S' (if c then x else y) :=
  Triple.ite (fun _ => hx) fun _ => hy

protected theorem forM {items : List β} {body : β → Worker PUnit}
    (h : ∀ item, Leads queryRunId S S (body item)) : Leads queryRunId S S (items.forM body) :=
  Triple.forM fun item _ => h item

/-- A step whose raise is a missing run. -/
theorem onRepository {script : Instant → Repository α} {q : α → Option QueryRunStatus → Prop}
    (h : ∀ now, Legally queryRunId (Within S) (script now) q fun _ status => status = none)
    (hq : ∀ answer status, q answer status → Within S' status) :
    Leads queryRunId S S' (onRepository env script) :=
  (Legally.onRepository env h).consequence (fun _ hw => hw) (fun answer _ hw => hw.imp (hq answer))
    (Raises.raises fun _ _ => within_of_none)

theorem getRun :
    Leads queryRunId S S (Quorum.onRepository env fun now => Quorum.getRun now queryRunId) :=
  onRepository env getRun_legally fun _ _ h => h.2

/-- A change that leaves the status alone. -/
theorem modifyRun (change : Instant → QueryRun → QueryRun)
    (h : ∀ now run, (change now run).status = run.status) :
    Leads queryRunId S S (Quorum.onRepository env fun now =>
      Quorum.modifyRun queryRunId (change now)) := by
  refine onRepository (q := fun _ => Within S) env (fun now => modifyRun_legally fun run hrun => ?_)
    fun _ _ h => h
  rw [h]
  exact ⟨.refl _, hrun⟩

/-- A write of a stage only. -/
theorem mark {write : StatusWrite} (h : write.statusValue = none) :
    Leads queryRunId S S (update env write) := by
  refine modifyRun env _ fun now run => ?_
  rw [StatusWrite.guarded]
  split_ifs
  · rfl
  · rw [StatusWrite.apply, h]
    rfl

/-- A write of a status that the table allows after each status of the phase. -/
theorem write {write : StatusWrite} (statusValue : QueryRunStatus)
    (h : write.statusValue = some statusValue)
    (hedges : ∀ status ∈ S, status = statusValue ∨ statusValue ∈ status.allowedTransitions) :
    Leads queryRunId S [statusValue] (update env write) :=
  onRepository env (updateStatus_legally statusValue h hedges) fun _ _ h => h

theorem outside (hactive : S ⊆ activeStatuses) : Leads queryRunId S S (Quorum.outside env) :=
  (outside_triple env).consequence (fun _ hw => hw) (fun _ _ hw => hw) fun _ _ hw =>
    hw.imp fun _ => .mono hactive

theorem budgetSpent : Leads queryRunId S S (Quorum.budgetSpent env) :=
  fun _ hw => hw.interleave env

theorem answerOf (hactive : S ⊆ activeStatuses) (answer : Except String α) :
    Leads queryRunId S S (Quorum.answerOf answer) := by
  cases answer with
  | ok answer => exact Leads.pure answer
  | error typeName => exact Triple.throw fun _ hw => hw.imp fun _ => .mono hactive

/-- A stopped run is cancelled or gone; a run that goes on is in its phase. -/
theorem shouldStop_bind {f : Bool → Worker α} {Q : α → World → Prop}
    (hstop : Triple (Phase queryRunId (Within [])) (f true) Q (raises queryRunId))
    (hgo : Triple (Phase queryRunId (Within S)) (f false) Q (raises queryRunId)) :
    Triple (Phase queryRunId (Within S)) (shouldStop env >>= f) Q (raises queryRunId) := by
  have hcontinue : ∀ stopped : Bool,
      Triple (Phase queryRunId (Within (if stopped then [] else S))) (f stopped)
      Q (raises queryRunId)
    | false => hgo
    | true => hstop
  refine Triple.bind ?_ hcontinue
  have hread := Legally.onRepository env (S := S) getRun_legally
  refine Triple.recover (Triple.bind hread fun run => Triple.pure fun w hw => ?_) ?_ ?_
  · by_cases hcancelled : run.status = .cancelled
    · refine hw.imp fun status hstatus => ?_
      simp only [hcancelled, decide_true, if_true]
      rw [hstatus.1, hcancelled]
      exact .inr rfl
    · refine hw.imp fun status hstatus => ?_
      simpa [hcancelled] using hstatus.2
  · intro raised w _ hraised
    cases raised with
    | repository raised => exact Phase.imp hraised fun _ => within_of_none
    | crash typeName => exact hraised.elim
  · exact fun raised w _ => Raises.raises (fun _ _ => within_of_none) raised w

/-- A cancelled stage that billed nothing stops; what was billed is recorded on the cancelled
run. -/
theorem stopUnbilled {unbilled : Prop} [Decidable unbilled] {x : Worker Unit}
    (hx : Leads queryRunId S [] x) :
    Leads queryRunId S []
      (shouldStop env >>= fun stopped => if stopped ∧ unbilled then return () else x) := by
  refine shouldStop_bind env (Leads.ite (Leads.pure ()) (hx.start (List.nil_subset _))) ?_
  exact Triple.ite (fun h => absurd h.1 Bool.false_ne_true) fun _ => hx

theorem stopOr {x : Worker Unit} (hx : Leads queryRunId S [] x) :
    Leads queryRunId S [] (shouldStop env >>= fun stopped => if stopped then return () else x) :=
  shouldStop_bind env (Leads.pure ()) hx

theorem recordInitialAnswer (answer : InitialModelAnswer) : Leads queryRunId S S
    (Quorum.onRepository env fun now => Quorum.recordInitialAnswer now queryRunId answer) :=
  modifyRun env (fun now => QueryRun.withInitialAnswer now answer) fun _ _ => rfl

theorem markBillableStageEntered (stage : BillableStage) : Leads queryRunId S S
    (Quorum.onRepository env fun now => Quorum.markBillableStageEntered now queryRunId stage) :=
  modifyRun env (fun now => QueryRun.withStageEntered now stage) fun _ _ => by cases stage <;> rfl

theorem recordDebateOutputs (debateOutputs : List DebateOutput) (usages : Option DebateUsages) :
    Leads queryRunId S S
      (Quorum.onRepository env fun now =>
        Quorum.recordDebateOutputs now queryRunId debateOutputs usages) :=
  modifyRun env (fun now => QueryRun.withDebateOutputs now debateOutputs usages) fun _ _ => rfl

theorem recordFinalSynthesis (finalSynthesis : FinalSynthesis) (usages : Option SynthesisUsages) :
    Leads queryRunId S S
      (Quorum.onRepository env fun now =>
        Quorum.recordFinalSynthesis now queryRunId finalSynthesis usages) :=
  modifyRun env (fun now => QueryRun.withFinalSynthesis now finalSynthesis usages) fun _ _ => rfl

end Leads

/-! ### Ends of a run -/

theorem markRemainingStages_leads (stageNames : List StageName) :
    Leads queryRunId S S (markRemainingStages env stageNames) :=
  Leads.forM fun _ => (Leads.mark env rfl).bind fun _ => Leads.pure ()

theorem markAfterTerminal_leads (quick : Bool) :
    Leads queryRunId S S (markAfterTerminal env quick) :=
  Leads.ite (Leads.forM fun _ => (Leads.mark env rfl).bind fun _ => Leads.pure ())
    (markRemainingStages_leads env _)

/-- A write of a terminal status that the table allows after each status of the phase ends the
run. -/
theorem Leads.writeTerminal {write : StatusWrite} {statusValue : QueryRunStatus}
    (h : write.statusValue = some statusValue) (hterminal : statusValue.isTerminal)
    (hedges : ∀ status ∈ S, statusValue ∈ status.allowedTransitions) :
    Leads queryRunId S [] (update env write) := by
  refine (Leads.write env statusValue h fun status hmem => .inr (hedges status hmem)).weaken
    fun _ _ hw => ?_
  exact hw.imp fun _ => within_of_terminal hterminal

theorem halt_leads {statusValue : QueryRunStatus} {stageName : StageName} {detail : String}
    {failedSteps missingSteps : List StepName} {behind : Worker Unit}
    (hterminal : statusValue.isTerminal)
    (hedges : ∀ status ∈ S, statusValue ∈ status.allowedTransitions)
    (hbehind : Leads queryRunId [] [] behind) :
    Leads queryRunId S [] (halt env statusValue stageName detail failedSteps missingSteps behind) :=
  (Leads.writeTerminal env rfl hterminal hedges).bind fun _ => Leads.ite hbehind (Leads.pure ())

/-- The deadline transition lands, or raises because the run is gone or was ended first. -/
theorem transition_legally (hedges : ∀ status ∈ S, .timedOut ∈ status.allowedTransitions)
    (failedSteps missingSteps : Option (List StepName)) (now : Instant) :
    Legally queryRunId (Within S) (transition now queryRunId .timedOut failedSteps missingSteps)
      (fun _ => Within []) fun _ => Within [] := by
  intro before hbefore runs hruns
  subst hruns
  cases hrun : runs.get? queryRunId with
  | none =>
      rw [transition, bind_of_error _ (stored_none hrun)]
      exact ⟨.refl _, within_of_none (statusOf_none hrun)⟩
  | some run =>
      rw [statusOf_some hrun] at hbefore ⊢
      rw [transition, bind_of_ok _ (stored_some hrun)]
      by_cases hallowed : .timedOut ∈ run.status.allowedTransitions
      · rw [if_pos hallowed]
        have hchange : Legally queryRunId (fun status => status = some run.status)
            (modifyRun queryRunId (QueryRun.transitioned now .timedOut failedSteps missingSteps))
            (fun _ => Within []) fun _ status => status = none := by
          refine modifyRun_legally fun run' hrun' => ⟨.inr ?_, .inr rfl⟩
          rw [Option.some.inj hrun']
          exact hallowed
        exact (hchange _ rfl).consequence (fun _ h => h) (fun _ _ h => h)
          (fun _ _ h => ⟨h.1, within_of_none h.2⟩) runs (statusOf_some hrun)
      · rw [if_neg hallowed]
        show LegalStep _ (statusOf queryRunId runs) ∧ Within [] (statusOf queryRunId runs)
        rw [statusOf_some hrun]
        refine ⟨.refl _, .inr ?_⟩
        rcases hbefore with hmem | hended
        · exact absurd (hedges run.status hmem) hallowed
        · exact hended

theorem degradeThen_leads {stageName : StageName} {failedSteps missingSteps : List StepName}
    {behind : Worker Unit} (hedges : ∀ status ∈ S, .timedOut ∈ status.allowedTransitions)
    (hbehind : Leads queryRunId [] [] behind) :
    Leads queryRunId S [] (degradeThen env stageName failedSteps missingSteps behind) := by
  have htransition := Legally.onRepository env (S := S)
    (transition_legally hedges (some failedSteps) (some missingSteps))
  have hflip : Triple (Phase queryRunId (Within S))
      (recover WorkerError.isInvalidTransition false do
        let _ ← onRepository env fun now =>
          transition now queryRunId .timedOut (some failedSteps) (some missingSteps)
        return true)
      (fun _ => Phase queryRunId (Within [])) (raises queryRunId) := by
    refine Triple.recover (Triple.bind htransition fun _ => Triple.pure fun _ hw => hw) ?_ ?_
    · intro raised w _ hraised
      cases raised with
      | repository raised => exact hraised
      | crash typeName => exact hraised.elim
    · exact fun raised w _ => Raises.raises (fun _ _ => .mono (List.nil_subset _)) raised w
  refine Leads.bind (Leads.bind hflip fun flipped => ?_) fun _ => Leads.ite hbehind (Leads.pure ())
  exact Leads.ite ((Leads.mark env rfl).bind fun _ => Leads.pure true) (Leads.pure false)

/-! ### Stages -/

theorem finishSynthesis_leads (result : SynthesisResult) :
    Leads queryRunId [.synthesisRunning] [] (finishSynthesis env result) := by
  rw [finishSynthesis]
  cases result.finalSynthesis with
  | none => exact halt_leads env rfl (by decide) (Leads.pure ())
  | some finalSynthesis =>
      refine (Leads.recordFinalSynthesis env _ _).bind fun _ => ?_
      exact (Leads.writeTerminal env rfl rfl (by decide)).bind fun _ => Leads.pure ()

theorem produceSynthesis_leads (queryRun : QueryRun) (openrouterKey : Bool) :
    Leads queryRunId [.synthesisRunning] [] (produceSynthesis env queryRun openrouterKey) := by
  refine (Leads.getRun env).bind fun latest => ?_
  refine (Leads.markBillableStageEntered env _).bind fun _ => ?_
  refine (Leads.outside env (by decide)).bind fun _ => ?_
  refine (Leads.answerOf (by decide) _).bind fun result => ?_
  exact Leads.stopUnbilled env (finishSynthesis_leads env result)

theorem synthesisStage_leads (queryRun : QueryRun) (openrouterKey : Bool) :
    Leads queryRunId [.debateRound2Running] [] (synthesisStage env queryRun openrouterKey) := by
  refine (Leads.write env .synthesisRunning rfl (by decide)).bind fun _ => ?_
  refine (Leads.mark env rfl).bind fun _ => ?_
  refine (Leads.outside env (by decide)).bind fun _ => ?_
  refine Leads.stopOr env ?_
  refine (Leads.budgetSpent env).bind fun spent => ?_
  exact Leads.ite (degradeThen_leads env (by decide) (Leads.pure ()))
    (produceSynthesis_leads env queryRun _)

/-- However often the service announces its second round, the run is in one of the two rounds. -/
theorem announceRoundTwo_leads :
    Leads queryRunId [.debateRound1Running, .debateRound2Running] [.debateRound1Running,
      .debateRound2Running]
      (announceRoundTwo env) := by
  refine (Leads.write env .debateRound2Running rfl (by decide)).bind fun _ => ?_
  refine (Leads.mark env rfl).bind fun _ => ?_
  exact (Leads.pure ()).mono (by decide)

theorem finishDebate_leads (queryRun : QueryRun) (openrouterKey : Bool) (result : DebateResult) :
    Leads queryRunId [.debateRound1Running, .debateRound2Running] []
      (finishDebate env queryRun openrouterKey result) := by
  refine Leads.ite (halt_leads env rfl (by decide) (markRemainingStages_leads env _)) ?_
  refine (Leads.write env .debateRound2Running rfl (by decide)).bind fun _ => ?_
  refine Leads.ite (halt_leads env rfl (by decide) (markRemainingStages_leads env _)) ?_
  have hmark : Leads queryRunId [.debateRound2Running] [.debateRound2Running] (markRoundTwo env) :=
    Leads.ite ((Leads.mark env rfl).bind fun _ => Leads.outside env (by decide)) (Leads.pure ())
  exact hmark.bind fun _ => Leads.stopOr env (synthesisStage_leads env queryRun openrouterKey)

theorem runDebate_leads (queryRun refreshed : QueryRun) (openrouterKey : Bool) :
    Leads queryRunId [.debateRound1Running] []
      (runDebate env queryRun refreshed openrouterKey) := by
  refine (Leads.markBillableStageEntered env _).bind fun _ => ?_
  refine Leads.start (S := [.debateRound1Running, .debateRound2Running]) ?_ (by decide)
  refine (Leads.forM fun _ => announceRoundTwo_leads env).bind fun _ => ?_
  refine (Leads.outside env (by decide)).bind fun _ => ?_
  refine (Leads.answerOf (by decide) _).bind fun result => ?_
  refine Leads.stopUnbilled env ?_
  exact (Leads.recordDebateOutputs env _ _).bind fun _ =>
    finishDebate_leads env queryRun openrouterKey result

theorem debateStage_leads (queryRun refreshed : QueryRun) (openrouterKey : Bool) :
    Leads queryRunId [.initialAnswersRunning] []
      (debateStage env queryRun refreshed openrouterKey) := by
  refine (Leads.write env .debateRound1Running rfl (by decide)).bind fun _ => ?_
  refine (Leads.mark env rfl).bind fun _ => ?_
  refine (Leads.outside env (by decide)).bind fun _ => ?_
  refine Leads.stopOr env ?_
  refine (Leads.budgetSpent env).bind fun spent => ?_
  exact Leads.ite (degradeThen_leads env (by decide) (markRemainingStages_leads env _))
    (runDebate_leads env queryRun refreshed openrouterKey)

theorem finishQuick_leads : Leads queryRunId [.initialAnswersRunning] [] (finishQuick env) := by
  refine (Leads.forM fun _ => (Leads.mark env rfl).bind fun _ => Leads.pure ()).bind fun _ => ?_
  exact (Leads.writeTerminal env rfl rfl (by decide)).bind fun _ => Leads.pure ()

theorem afterInitialAnswers_leads (queryRun : QueryRun) (openrouterKey deadlineBreached : Bool) :
    Leads queryRunId [.initialAnswersRunning] []
      (afterInitialAnswers env queryRun openrouterKey deadlineBreached) := by
  refine Leads.ite (degradeThen_leads env (by decide) (markAfterTerminal_leads env _)) ?_
  refine (Leads.getRun env).bind fun refreshed => ?_
  refine Leads.ite (halt_leads env rfl (by decide) (markAfterTerminal_leads env _)) ?_
  exact Leads.ite (finishQuick_leads env) (debateStage_leads env queryRun refreshed openrouterKey)

/-! ### The collection of the answers -/

/-- A stopped collection has seen the run cancelled or gone. -/
def afterCollection : Collection → List QueryRunStatus
  | .stopped => []
  | .collected _ => [.initialAnswersRunning]

def Collects (queryRunId : Uuid) (x : Worker Collection) : Prop :=
  Triple (Phase queryRunId (Within [.initialAnswersRunning])) x
    (fun collection => Phase queryRunId (Within (afterCollection collection))) (raises queryRunId)

theorem recordAnswer_collects (answer : InitialModelAnswer) {rest : Worker Collection}
    (hrest : Collects queryRunId rest) : Collects queryRunId (recordAnswer env answer rest) :=
  Leads.shouldStop_bind env (Triple.pure fun _ hw => hw)
    (Triple.bind (Leads.recordInitialAnswer env answer) fun _ => hrest)

/-- The collection, slot by slot. -/
theorem collectInitialAnswers_collects (queryRun : QueryRun) (openrouterKey deadlineBreached : Bool)
    (modelSlots : List ModelSlot) :
    Collects queryRunId
      (collectInitialAnswers env queryRun openrouterKey deadlineBreached modelSlots) := by
  induction modelSlots generalizing deadlineBreached with
  | nil => exact Triple.pure fun _ hw => hw
  | cons modelSlot modelSlots ih =>
      rw [collectInitialAnswers]
      refine Triple.bind (Leads.outside env (by decide)) fun _ => ?_
      cases env.future queryRun modelSlot openrouterKey with
      | answer answer => exact recordAnswer_collects env answer (ih deadlineBreached)
      | raised => exact ih deadlineBreached
      | timeout =>
          refine Triple.bind (Leads.budgetSpent env) fun spent => ?_
          refine Triple.ite (fun _ => ?_) fun _ => ih deadlineBreached
          exact Triple.seq (Leads.outside env (by decide)) (recordAnswer_collects env _ (ih true))

/-! ### The worker -/

theorem executeQueryRun_leads : Leads queryRunId [.accepted] [] (executeQueryRun env) := by
  refine (Leads.getRun env).bind fun queryRun => ?_
  refine (Leads.outside env (by decide)).bind fun _ => ?_
  refine Leads.ite (halt_leads env rfl (by decide) (markAfterTerminal_leads env _)) ?_
  refine (Leads.answerOf (by decide) _).bind fun detail => ?_
  refine (Leads.write env .initialAnswersRunning rfl (by decide)).bind fun _ => ?_
  refine (Leads.outside env (by decide)).bind fun _ => ?_
  refine Triple.bind (collectInitialAnswers_collects env queryRun _ false _) fun collection => ?_
  cases collection with
  | stopped => exact Leads.pure ()
  | collected deadlineBreached => exact afterInitialAnswers_leads env queryRun _ deadlineBreached

/-- Whatever raised, the last resort ends a run that is still stored, and raises nothing. -/
theorem failUnhandled_ends (raised : WorkerError) :
    Triple (Phase queryRunId (Within activeStatuses)) (failUnhandled env raised)
      (fun _ => Phase queryRunId (Within [])) fun _ _ => False := by
  have hread := Legally.onRepository env (S := activeStatuses) getRun_legally
  refine Triple.recover (R := Raises queryRunId fun _ status => status = none) ?_ ?_ ?_
  · refine Triple.bind (hread.weaken fun _ _ hw => hw.imp fun _ h => h.2) fun current => ?_
    refine Triple.bind (hread.weaken fun _ _ hw => hw.imp fun _ h => h.2) fun pending => ?_
    refine Triple.bind (Legally.onRepository env
      (updateStatus_legally .failed rfl (by decide))) fun _ => ?_
    exact Triple.pure fun _ hw => hw.imp fun _ => within_of_terminal rfl
  · intro raised w _ hraised
    cases raised with
    | repository raised => exact Phase.imp hraised fun _ => within_of_none
    | crash typeName => exact hraised.elim
  · exact fun _ _ huncaught _ => huncaught rfl

/-- The terminal persist leaves an ended run ended, and raises nothing. -/
theorem persistTerminalRun_ends :
    Triple (Phase queryRunId (Within [])) (persistTerminalRun env) (fun _ =>
      Phase queryRunId (Within []))
      fun _ _ => False := by
  refine Triple.recover (R := fun _ => Phase queryRunId (Within [])) ?_ (fun _ _ _ hw => hw)
    fun _ _ huncaught _ => huncaught rfl
  refine Triple.bind ((Legally.onRepository env getRun_legally).consequence (fun _ hw => hw)
    (fun _ _ hw => hw.imp fun _ h => h.2) ?_) fun queryRun => ?_
  · intro raised w hraised
    cases raised with
    | repository raised => exact Phase.imp hraised fun _ => within_of_none
    | crash typeName => exact hraised.elim
  · refine Triple.ite (fun _ => ?_) fun _ => Triple.pure fun _ hw => hw
    refine Triple.bind (outside_triple env) fun _ => ?_
    cases env.historyVerdict queryRun with
    | none => exact Triple.pure fun _ hw => hw
    | some verdict =>
        refine (Legally.onRepository env fun _ => keepHistoryVerdict_legally verdict).consequence
          (fun _ hw => hw) (fun _ _ hw => hw) ?_
        intro raised w hraised
        cases raised with
        | repository raised => exact absurd hraised.holds id
        | crash typeName => exact hraised.elim

/-- The worker's thread ends with its run ended or gone. -/
theorem executeQueryRunSafely_ends :
    Triple (Phase queryRunId (Within [.accepted])) (executeQueryRunSafely env)
      (fun _ => Phase queryRunId (Within [])) fun _ _ => False :=
  Triple.seq (Triple.tryCatch (executeQueryRun_leads env) fun raised =>
    failUnhandled_ends env raised)
    (persistTerminalRun_ends env)

/-- A worker's world when its thread starts. -/
def World.start (queryRunId : Uuid) (runs : QueryRuns) : World :=
  ⟨runs, 0, [statusOf queryRunId runs]⟩

/-- Whatever surrounds it, the worker of an accepted run ends without a raise, it takes the run
along edges of the table only, and it leaves the run terminal or evicted. -/
theorem worker_refines_allowedTransitions (runs : QueryRuns) (run : QueryRun)
    (hrun : runs.get? queryRunId = some run) (haccepted : run.status = .accepted) :
    ∃ w, executeQueryRunSafely env (.start queryRunId runs) = .ok () w ∧
      (w.trail.IsChain fun later earlier => LegalStep earlier later) ∧
      ∀ run', w.runs.get? queryRunId = some run' → run'.isTerminal := by
  have hstart : Phase queryRunId (Within [.accepted]) (.start queryRunId runs) := by
    refine ⟨⟨[], rfl⟩, .singleton _, ?_⟩
    show Within [.accepted] (statusOf queryRunId runs)
    rw [statusOf_some hrun, haccepted]
    exact .inl List.mem_cons_self
  obtain ⟨_, w, hw, hend⟩ := (executeQueryRunSafely_ends env).answers hstart
  refine ⟨w, hw, hend.legal, fun run' hrun' => ?_⟩
  have hstatus := hend.holds
  rw [statusOf_some hrun'] at hstatus
  exact hstatus.resolve_left List.not_mem_nil

end

/-! ### A run that others evict -/

/-- Half an hour and a millisecond. -/
def afterActiveTtl : Instant :=
  ⟨queryRunActiveTtl + 1000, by norm_num [queryRunActiveTtl, maxDays, microsPerDay]⟩

/-- Nothing of the worker fails, but its machine sleeps for half an hour while it waits for the
first answer, and another request reads the repository then. -/
def sleepingSurroundings : Surroundings 1 where
  interference n := if n = 4 then [.getForAccount afterActiveTtl 1 7] else []
  byOthers n op hop := by
    split_ifs at hop with hn
    · rw [List.mem_singleton.mp hop]
      exact trivial
    · exact absurd hop List.not_mem_nil
  clock _ := instantAt 2
  overBudget _ := false
  crashes _ := none
  openrouterLiveExecutionEnabled := false
  openrouterApiKey := false
  deadlineText := "180"
  future _ modelSlot _ := .answer ⟨modelSlot.slotNumber, modelSlot.modelId, "a",
    .completed, none, none⟩
  announcements := 1
  runDebateRounds _ _ _ := .ok ⟨[⟨1, "c"⟩, ⟨2, "c"⟩], [], [], false, []⟩
  produceFinalSynthesis _ _ _ _ := .ok ⟨some ⟨"s"⟩, [], [], []⟩
  historyVerdict _ := none

def acceptedRuns : QueryRuns := runOps [.create none oneRun (fun _ => instantAt 1) 1]

theorem acceptedRuns_status : (acceptedRuns.get? 1).map QueryRun.status = some .accepted := by
  decide +kernel

/-- The same worker with nobody reading the repository. -/
def quietSurroundings : Surroundings 1 :=
  { sleepingSurroundings with
    interference := fun _ => []
    byOthers := fun _ _ hop => absurd hop List.not_mem_nil }

def quietWorld : World := after (executeQueryRunSafely quietSurroundings) (.start 1 acceptedRuns)

/-- The worker completes its run. -/
theorem worker_refines_allowedTransitions_quiet :
    ∃ w, executeQueryRunSafely quietSurroundings (.start 1 acceptedRuns) = .ok () w ∧
      (w.trail.IsChain fun later earlier => LegalStep earlier later) ∧
      (∀ run', w.runs.get? 1 = some run' → run'.isTerminal) ∧
      (w.runs.get? 1).map QueryRun.status = some .completed := by
  obtain ⟨run, hrun, haccepted⟩ := Option.map_eq_some_iff.mp acceptedRuns_status
  obtain ⟨w, hw, hlegal, hterminal⟩ :=
    worker_refines_allowedTransitions quietSurroundings acceptedRuns run hrun haccepted
  have hend : (quietWorld.runs.get? 1).map QueryRun.status = some .completed := by decide +kernel
  rw [quietWorld, after_of_ok hw] at hend
  exact ⟨w, hw, hlegal, hterminal, hend⟩

def sleptWorld : World := after (executeQueryRunSafely sleepingSurroundings) (.start 1 acceptedRuns)

/-- The worker ended, and its run never had a terminal status. -/
theorem sleptWorld_not_terminal :
    (acceptedRuns.get? 1).map QueryRun.status = some .accepted ∧ (sleptWorld.runs.get? 1).isNone ∧
      ∀ status ∈ sleptWorld.trail, ¬status.any QueryRunStatus.isTerminal := by
  decide +kernel

end Quorum
