import Quorum.BaseHoare
import Quorum.LedgerRing
import Quorum.RunPipeline

/-! The start of a run. A request reserves a permit, stores its run, charges it on both spend rails
and hands the permit to a worker thread, and any step may raise before the thread runs. The permit
has one handler around all steps; the charge and the stored run have another around the steps from
the charge on. -/

namespace Quorum

open IsoTime Transaction

/-! ### Permits -/

/-- `BoundedSemaphore`. -/
structure RunSemaphore where
  limit : ℕ
  available : ℕ
  bounded : available ≤ limit

/-- The points at which a step of the start, or of its undoing, may raise. -/
inductive StartPoint
  | acknowledgement
  | modelSlotEvents
  | response
  | billing
  | ringAppend
  | dailyAllowance
  | degradedResponse
  | threadStart
  | voidRun
  | abandonRun
deriving DecidableEq

inductive StartError
  | http (code : String)
  | repository (raised : RepositoryError)
  | ledger (raised : LedgerError)
  | interrupted
  | overRelease
deriving DecidableEq

/-- `HTTPException`. -/
def StartError.isHttp : StartError → Bool
  | .http _ => true
  | .repository .refused => true
  | _ => false

/-- The run store, both rails, and the runs whose worker threads were started. -/
structure RunStores where
  runs : QueryRuns
  rails : SpendRails
  threads : List Uuid

abbrev Stores (α : Type) := Script StartError RunStores α

/-- What a request brings to its start, and what it meets there. -/
structure StartEnv where
  admission : Option RepositoryError
  request : NewRun
  clock : Clock
  fresh : Uuid
  now : Instant
  attempt : WriteAttempt
  degradeAttempt : WriteAttempt
  voidAttempt : WriteAttempt
  dailyCapUsd : Amount
  globalCeilingUsd : Amount
  openrouterLiveExecutionEnabled : Bool
  raises : StartPoint → Bool

section

variable (env : StartEnv)

def reach (point : StartPoint) : Stores Unit :=
  if env.raises point then throw .interrupted else return ()

def onRuns {α : Type} (x : Repository α) : Stores α := fun s =>
  match x s.runs with
  | .ok answer runs => .ok answer { s with runs := runs }
  | .error raised runs => .error (.repository raised) { s with runs := runs }

def onRails {α : Type} (x : Rails α) : Stores α := fun s =>
  match x s.rails with
  | .ok answer rails => .ok answer { s with rails := rails }
  | .error raised rails => .error (.ledger raised) { s with rails := rails }

/-! ### Steps -/

/-- `create`, with the conflict as a response. -/
def createStoredRun : Stores QueryRun :=
  tryCatch (onRuns (create env.admission env.request env.clock env.fresh)) fun raised =>
    if raised = .repository .activeQueryRunExists then throw (.http "ACTIVE_QUERY_EXISTS")
    else throw raised

/-- The charge of a run, under its spend key. An estimate is nonnegative by its field. -/
def chargeRequest (queryRun : QueryRun) : ChargeRequest where
  accountId := queryRun.spendKey
  queryRunId := queryRun.queryRunId
  estimatedCostUsd := queryRun.costEstimate.estimatedCostUsd.toNNRat
  dailyCapUsd := env.dailyCapUsd
  globalCeilingUsd := env.globalCeilingUsd
  liveExecution := env.openrouterLiveExecutionEnabled

/-- `_record_run_billing`. -/
def recordRunBilling (queryRun : QueryRun) : Stores ChargeOutcome := do
  reach env .billing
  onRails (tryRecordRunCharge env.now env.attempt env.degradeAttempt (env.raises .ringAppend)
    (chargeRequest env queryRun) queryRun.costEstimate.globalCeilingReached)

/-- `_void_run_billing`. It suppresses what the void raises. -/
def voidRunBilling (queryRun : QueryRun) : Stores Unit :=
  recover (fun _ => true) () do
    reach env .voidRun
    onRails (voidRunCharge env.now env.voidAttempt queryRun.spendKey queryRun.queryRunId)

/-- `_abandon_unstarted_run`. It suppresses what the transition raises. -/
def abandonUnstartedRun (queryRunId : Uuid) : Stores Unit :=
  recover (fun _ => true) () do
    reach env .abandonRun
    let _ ← onRuns (transition env.now queryRunId .failed none none)
    return ()

/-- `Thread.start()`, the handover of the permit. -/
def startThread (queryRun : QueryRun) : Stores QueryRun := do
  reach env .threadStart
  modify fun s => { s with threads := queryRun.queryRunId :: s.threads }
  return queryRun

/-- What the outcome of the charge asks for. -/
def handOver (queryRun : QueryRun) : ChargeOutcome → Stores QueryRun
  | .overDailyCap => do
      abandonUnstartedRun env queryRun.queryRunId
      reach env .dailyAllowance
      throw (.http "COST_LIMIT_EXCEEDED")
  | .overGlobalCeiling => do
      let queryRun ← onRuns (markGlobalCeilingReached env.now queryRun.queryRunId)
      reach env .degradedResponse
      startThread env queryRun
  | .meteringUnavailable => do
      let queryRun ← onRuns (markSpendMeteringUnavailable env.now queryRun.queryRunId)
      reach env .degradedResponse
      startThread env queryRun
  | .recorded => startThread env queryRun

/-- The charge and the handover, with the handler that takes both the charge and the run back. -/
def billAndStart (queryRun : QueryRun) : Stores QueryRun :=
  tryCatch (do
      let charge ← recordRunBilling env queryRun
      handOver env queryRun charge)
    fun raised =>
      if raised.isHttp then throw raised
      else do
        voidRunBilling env queryRun
        abandonUnstartedRun env queryRun.queryRunId
        throw raised

/-- `_start_reserved_query_run` of the cookie path. -/
def startReservedQueryRun : Stores QueryRun := do
  let queryRun ← createStoredRun env
  reach env .acknowledgement
  reach env .modelSlotEvents
  reach env .response
  billAndStart env queryRun

/-! ### The request -/

/-- The stores, the permits, and how often a permit was returned. -/
structure StartWorld where
  semaphore : RunSemaphore
  releases : ℕ
  stores : RunStores

abbrev Start (α : Type) := Script StartError StartWorld α

def acquirePermit : Start Unit := fun w =>
  if 0 < w.semaphore.available then
    .ok () { w with semaphore :=
      ⟨w.semaphore.limit, w.semaphore.available - 1, (Nat.sub_le _ _).trans w.semaphore.bounded⟩ }
  else .error (.http "RUN_CAPACITY_EXCEEDED") w

/-- `release`. A permit beyond the limit raises. -/
def releasePermit : Start Unit := fun w =>
  if h : w.semaphore.available < w.semaphore.limit then
    .ok () { w with
      semaphore := ⟨w.semaphore.limit, w.semaphore.available + 1, h⟩
      releases := w.releases + 1 }
  else .error .overRelease w

def onStores {α : Type} (x : Stores α) : Start α := fun w =>
  match x w.stores with
  | .ok answer stores => .ok answer { w with stores := stores }
  | .error raised stores => .error raised { w with stores := stores }

/-- The part of `create_query_run` from the reservation of the permit on. -/
def createQueryRun : Start QueryRun := do
  acquirePermit
  tryCatch (onStores (startReservedQueryRun env)) fun raised => do
    releasePermit
    throw raised

/-- `_execute_query_run_with_semaphore_release`: whatever the worker does to the stores, its permit
is returned when it ends. -/
def executeWithSemaphoreRelease (execute : Stores Unit) : Start Unit := do
  tryCatch (onStores execute) fun raised => do
    releasePermit
    throw raised
  releasePermit

end

/-! ### Charges of the run -/

/-- The ledger holds no charge of the run. -/
def FeedbackStore.Uncharged (queryRunId : Uuid) (store : FeedbackStore) : Prop :=
  ∀ row ∈ store.events, ∀ entry, row.charge = some entry → entry.1 ≠ queryRunId

/-- Neither rail holds a charge of the run. -/
structure SpendRails.Uncharged (queryRunId : Uuid) (rails : SpendRails) : Prop where
  ring : ∀ event ∈ rails.ring.events, ¬event.charges queryRunId
  ledger : ∀ store, rails.store = some store → store.Uncharged queryRunId

/-- The ledger holds a charge of the run that is not voided. -/
def SpendRails.OpenCharge (queryRunId : Uuid) (rails : SpendRails) : Prop :=
  ∃ store, rails.store = some store ∧ ¬store.Uncharged queryRunId ∧
    voided store.events queryRunId = false

theorem SpendRails.Uncharged.not_open {queryRunId : Uuid} {rails : SpendRails}
    (h : rails.Uncharged queryRunId) : ¬rails.OpenCharge queryRunId := by
  rintro ⟨store, hstore, hcharged, -⟩
  exact hcharged (h.ledger store hstore)

section

variable {queryRunId : Uuid}

/-- What holds of the ledger after an operation of the store holds of both rails. -/
theorem onStore_uncharged {α : Type} {absent : α} {x : Ledger α} {R : α → Prop}
    (h : Triple (FeedbackStore.Uncharged queryRunId) x (fun a store => R a →
      store.Uncharged queryRunId)
      fun _ _ => True) :
    Triple (SpendRails.Uncharged queryRunId) (onStore absent x)
      (fun a rails => R a → rails.Uncharged queryRunId) fun _ _ => True := by
  rintro ⟨ring, store | store⟩ hrails
  · exact fun _ => hrails
  · have hstore := h store (hrails.ledger store rfl)
    rw [onStore]
    cases hx : x store with
    | ok a store' =>
        rw [hx] at hstore
        simp only [hx]
        intro hR
        exact ⟨hrails.ring, fun s hs => by cases hs; exact hstore hR⟩
    | error raised store' => simp only [hx]

theorem insertEvent_uncharged (attempt : WriteAttempt) {row : EventRow} (hrow : row.charge = none) :
    Triple (FeedbackStore.Uncharged queryRunId) (insertEvent attempt row)
      (fun _ store => True → store.Uncharged queryRunId) fun _ _ => True := by
  intro store hstore
  obtain ⟨store', hinsert, hevents⟩ := insertEvent_ok attempt row store
  rw [hinsert]
  rintro - other hother entry hentry
  rw [hevents] at hother
  split_ifs at hother with hlands
  · rcases List.mem_append.mp hother with hold | hnew
    · exact hstore other hold entry hentry
    · rw [List.mem_singleton.mp hnew, hrow] at hentry
      cases hentry
  · exact hstore other hother entry hentry

theorem recordPersisted_uncharged (now : Instant) (attempt : WriteAttempt)
    (request : ChargeRequest) :
    Triple (SpendRails.Uncharged queryRunId) (recordPersisted now attempt request.degradedEvent)
      (fun _ => SpendRails.Uncharged queryRunId) fun _ _ => True := by
  obtain ⟨hcharges, hcorrections, hring⟩ := other_unmetered "cost_guardrail_degraded_to_simulation"
  have hrecord : Triple (SpendRails.Uncharged queryRunId)
      (onRing (CostEventRing.record request.degradedEvent))
      (fun _ => SpendRails.Uncharged queryRunId) fun _ _ => True := by
    rintro ⟨ring, store⟩ hrails
    refine ⟨fun event hevent hcharge => ?_, hrails.ledger⟩
    rcases CostEventRing.mem_record hevent with hold | rfl
    · exact hrails.ring event hold hcharge
    · simp only [CostGuardrailEvent.charges, decide_eq_true_eq] at hcharge
      exact hring hcharge.2
  have hrow : (request.degradedEvent.row now).charge = none :=
    (EventRow.unmetered hcharges hcorrections).1
  refine hrecord.seq
    (Triple.bind (onStore_uncharged (insertEvent_uncharged attempt hrow)) fun _ => ?_)
  exact Triple.pure fun _ hrails => hrails trivial

/-- A charge that is not recorded leaves the rails without one. -/
theorem tryRecordRunCharge_uncharged (now : Instant) (attempt degradeAttempt : WriteAttempt)
    (interrupted : Bool) (request : ChargeRequest) (globalCeilingReached : Bool) :
    Triple (SpendRails.Uncharged queryRunId)
      (tryRecordRunCharge now attempt degradeAttempt interrupted request globalCeilingReached)
      (fun outcome rails => outcome ≠ .recorded → rails.Uncharged queryRunId) fun _ _ => True := by
  have hcharge : Triple (FeedbackStore.Uncharged queryRunId)
      (tryRecordCostCharge now attempt request)
      (fun outcome store => outcome ≠ .recorded → store.Uncharged queryRunId) fun _ _ => True := by
    intro store hstore
    rcases tryRecordCostCharge_cases now attempt request store with
      ⟨raised, hrun⟩ | ⟨outcome, store', hrun, -, hevents⟩ | ⟨_, _, store', -, -, -, -, hrun, -⟩
    · rw [hrun]
      trivial
    · rw [hrun]
      intro _
      rw [FeedbackStore.Uncharged, hevents]
      exact hstore
    · rw [hrun]
      exact fun hother => absurd rfl hother
  have hdegrade : Triple (SpendRails.Uncharged queryRunId)
      (recordPersisted now degradeAttempt request.degradedEvent >>= fun _ =>
        pure ChargeOutcome.overGlobalCeiling)
      (fun outcome rails => outcome ≠ .recorded → rails.Uncharged queryRunId) fun _ _ => True :=
    (recordPersisted_uncharged now degradeAttempt request).seq
      (Triple.pure fun _ hrails _ => hrails)
  refine Triple.ite (fun _ => hdegrade) fun _ => ?_
  refine Triple.bind (R := fun _ => SpendRails.Uncharged queryRunId) (fun _ hrails => hrails)
    fun rails => ?_
  refine Triple.ite (fun _ => Triple.pure fun _ hrails _ => hrails) fun _ => ?_
  refine Triple.bind (onStore_uncharged hcharge) fun outcome => ?_
  cases outcome with
  | recorded =>
      refine Triple.ite (fun _ => Triple.throw fun _ _ => trivial) fun _ => ?_
      exact fun _ _ hother => absurd rfl hother
  | overDailyCap => exact Triple.pure fun _ hrails => hrails
  | meteringUnavailable => exact Triple.pure fun _ hrails => hrails
  | overGlobalCeiling => exact hdegrade.strengthen fun _ hrails => hrails (by decide)

/-- A void takes the charge from the ring, and from the ledger where its row lands. -/
theorem voidRunCharge_closes (now : Instant) (attempt : WriteAttempt) (accountId : Uuid) :
    Triple (fun _ => True) (voidRunCharge now attempt accountId queryRunId)
      (fun _ rails => (∀ event ∈ rails.ring.events, ¬event.charges queryRunId) ∧
        (attempt.lands → ¬rails.OpenCharge queryRunId))
      (fun _ rails => (∀ event ∈ rails.ring.events, ¬event.charges queryRunId) ∧
        (attempt.lands → ¬rails.OpenCharge queryRunId)) := by
  rintro ⟨ring, store⟩ -
  have hring : ∀ event ∈ (ring.discardChargeForRun queryRunId).events,
      ¬event.charges queryRunId := by
    intro event hevent hcharges
    have hkept := (List.mem_filter.mp hevent).2
    simp [hcharges] at hkept
  cases store with
  | none =>
      refine ⟨hring, fun _ hopen => ?_⟩
      obtain ⟨store, hstore, -⟩ := hopen
      cases hstore
  | some store =>
      obtain ⟨store', hinsert, hevents⟩ :=
        insertEvent_ok attempt (voidRow accountId queryRunId now) store
      have hvoid : voidCostCharge now attempt accountId queryRunId store = .ok () store' := by
        rw [voidCostCharge, bind_of_ok _ hinsert]
        rfl
      have hrun : voidRunCharge now attempt accountId queryRunId ⟨ring, some store⟩ =
          .ok () ⟨ring.discardChargeForRun queryRunId, some store'⟩ := onStore_ok () _ hvoid
      rw [hrun]
      refine ⟨hring, fun hlands hopen => ?_⟩
      obtain ⟨other, hother, -, hvoided⟩ := hopen
      cases hother
      rw [hevents, if_pos hlands, voided_concat] at hvoided
      simp [voidRow, EventRow.void] at hvoided

/-! ### Steps on the stores -/

variable {env : StartEnv}

/-- An operation on the runs leaves the rails and the threads. -/
theorem onRuns_triple {α : Type} {p : QueryRuns → Prop} {q : α → QueryRuns → Prop}
    {e : RepositoryError → QueryRuns → Prop} {x : Repository α} (h : Triple p x q e)
    (F : SpendRails → List Uuid → Prop) :
    Triple (fun s => p s.runs ∧ F s.rails s.threads) (onRuns x) (fun a s => q a s.runs ∧
      F s.rails s.threads)
      fun raised s => ∃ r, raised = .repository r ∧ e r s.runs ∧ F s.rails s.threads := by
  rintro s ⟨hruns, hframe⟩
  have hx := h s.runs hruns
  rw [onRuns]
  cases hrun : x s.runs with
  | ok a runs =>
      rw [hrun] at hx
      exact ⟨hx, hframe⟩
  | error raised runs =>
      rw [hrun] at hx
      exact ⟨raised, rfl, hx, hframe⟩

/-- An operation on the rails leaves the runs and the threads. -/
theorem onRails_triple {α : Type} {p : SpendRails → Prop} {q : α → SpendRails → Prop}
    {e : LedgerError → SpendRails → Prop} {x : Rails α} (h : Triple p x q e)
    (F : QueryRuns → List Uuid → Prop) :
    Triple (fun s => p s.rails ∧ F s.runs s.threads) (onRails x) (fun a s => q a s.rails ∧
      F s.runs s.threads)
      fun raised s => ∃ r, raised = .ledger r ∧ e r s.rails ∧ F s.runs s.threads := by
  rintro s ⟨hrails, hframe⟩
  have hx := h s.rails hrails
  rw [onRails]
  cases hrun : x s.rails with
  | ok a rails =>
      rw [hrun] at hx
      exact ⟨hx, hframe⟩
  | error raised rails =>
      rw [hrun] at hx
      exact ⟨raised, rfl, hx, hframe⟩

theorem reach_triple (point : StartPoint) (p : RunStores → Prop) :
    Triple p (reach env point) (fun _ => p) fun raised s => raised = .interrupted ∧
      env.raises point ∧ p s :=
  Triple.ite (fun hraises => Triple.throw fun _ hp => ⟨rfl, hraises, hp⟩) fun _ =>
    Triple.pure fun _ hp => hp

/-- The run is stored under its id and accepted. -/
def Accepted (queryRunId : Uuid) (runs : QueryRuns) : Prop :=
  ∃ run, runs.get? queryRunId = some run ∧ run.queryRunId = queryRunId ∧ run.status = .accepted

theorem Accepted.status {runs : QueryRuns} (h : Accepted queryRunId runs) :
    statusOf queryRunId runs = some .accepted := by
  obtain ⟨run, hrun, -, haccepted⟩ := h
  rw [statusOf, hrun, Option.map_some, haccepted]

/-- A creation stores the accepted run, or raises and stores nothing under its id. -/
theorem create_triple (admission : Option RepositoryError) (request : NewRun) (clock : Clock)
    (fresh : Uuid) :
    Triple (fun runs : QueryRuns => runs.get? fresh = none) (create admission request clock fresh)
      (fun run runs => run.queryRunId = fresh ∧ Accepted fresh runs)
      fun _ runs => runs.get? fresh = none := by
  have hevict : ∀ (now : Instant) (runs : QueryRuns), runs.get? fresh = none →
      (evictExpired now runs).get? fresh = none := by
    intro now runs hnone
    refine Option.eq_none_iff_forall_ne_some.mpr fun run hrun => ?_
    rw [get?_evictExpired hrun] at hnone
    cases hnone
  cases admission with
  | some refusal => exact Triple.throw fun _ hnone => hnone
  | none =>
      have hpurge : Triple (fun runs : QueryRuns => runs.get? fresh = none)
          (purgeExpiredLocked (clock 0))
          (fun _ runs => runs.get? fresh = none) fun _ runs => runs.get? fresh = none :=
        fun runs hnone => hevict _ runs hnone
      have hread : Triple (fun runs : QueryRuns => runs.get? fresh = none)
          (getActiveForAccount (clock 1) request.accountId)
          (fun _ runs => runs.get? fresh = none) fun _ runs => runs.get? fresh = none :=
        fun runs hnone => hevict _ runs hnone
      refine hpurge.seq (Triple.bind hread fun active => ?_)
      cases active with
      | some run => exact Triple.throw fun _ hnone => hnone
      | none =>
          intro runs _
          exact ⟨rfl, newQueryRun request fresh (clock 2), Dict.get?_set_self _ _ _, rfl, rfl⟩

/-- A mark on the accepted run. -/
theorem modifyRun_triple {change : QueryRun → QueryRun}
    (hchange : ∀ run, (change run).queryRunId = run.queryRunId ∧ (change run).status = run.status) :
    Triple (Accepted queryRunId) (modifyRun queryRunId change)
      (fun run runs => run.queryRunId = queryRunId ∧ Accepted queryRunId runs) fun _ _ =>
        False := by
  rintro runs ⟨run, hrun, hid, haccepted⟩
  obtain ⟨hsameId, hsameStatus⟩ := hchange run
  rw [modifyRun, hrun]
  exact ⟨hsameId.trans hid, change run, Dict.get?_set_self _ _ _, hsameId.trans hid,
    hsameStatus.trans haccepted⟩

/-- The run is stored, and accepted or failed. -/
def Unfinished (queryRunId : Uuid) (runs : QueryRuns) : Prop :=
  statusOf queryRunId runs = some .accepted ∨ statusOf queryRunId runs = some .failed

/-- The transition fails the run, whether it does so or finds it failed. -/
theorem transition_triple (now : Instant) :
    Triple (Unfinished queryRunId) (transition now queryRunId .failed none none)
      (fun _ runs => statusOf queryRunId runs = some .failed)
      fun _ runs => statusOf queryRunId runs = some .failed := by
  intro runs hstatus
  rcases hstatus with hstatus | hstatus
  · obtain ⟨run, hrun, haccepted⟩ := Option.map_eq_some_iff.mp hstatus
    have hstored : stored queryRunId runs = .ok run runs := by rw [stored, hrun]
    rw [transition, bind_of_ok _ hstored, if_pos (by rw [haccepted]; decide), modifyRun, hrun]
    show ((runs.set queryRunId _).get? queryRunId).map QueryRun.status = _
    rw [Dict.get?_set_self]
    rfl
  · obtain ⟨run, hrun, hfailed⟩ := Option.map_eq_some_iff.mp hstatus
    have hstored : stored queryRunId runs = .ok run runs := by rw [stored, hrun]
    rw [transition, bind_of_ok _ hstored, if_neg (by rw [hfailed]; decide)]
    exact hstatus

theorem abandonUnstartedRun_triple (env : StartEnv) (queryRunId : Uuid)
    (F : SpendRails → List Uuid → Prop) :
    Triple (fun s => Unfinished queryRunId s.runs ∧
      F s.rails s.threads) (abandonUnstartedRun env queryRunId)
      (fun _ s => ((env.raises .abandonRun = false → statusOf queryRunId s.runs = some .failed) ∧
        Unfinished queryRunId s.runs) ∧ F s.rails s.threads)
      fun _ _ => False := by
  refine Triple.recover (R := fun _ s => ((env.raises .abandonRun = false →
    statusOf queryRunId s.runs = some .failed) ∧ Unfinished queryRunId s.runs) ∧
      F s.rails s.threads) ?_
    (fun _ _ _ h => h) fun _ _ hnot _ => hnot rfl
  refine Triple.bind ((reach_triple .abandonRun _).consequence (fun _ h => h) (fun _ _ h => h) ?_)
    fun _ => ?_
  · rintro raised s ⟨-, hraises, hunfinished, hframe⟩
    exact ⟨⟨fun hnot => absurd hraises (by rw [hnot]; decide), hunfinished⟩, hframe⟩
  · refine Triple.bind ((onRuns_triple (transition_triple env.now) F).consequence (fun _ h => h)
      (fun _ _ h => h) ?_) fun _ => Triple.pure ?_
    · rintro raised s ⟨-, -, hfailed, hframe⟩
      exact ⟨⟨fun _ => hfailed, .inr hfailed⟩, hframe⟩
    · rintro s ⟨hfailed, hframe⟩
      exact ⟨⟨fun _ => hfailed, .inr hfailed⟩, hframe⟩

theorem voidRunBilling_triple {queryRun : QueryRun} (hid : queryRun.queryRunId = queryRunId)
    (F : QueryRuns → List Uuid → Prop) :
    Triple (fun s => F s.runs s.threads) (voidRunBilling env queryRun)
      (fun _ s => (env.raises .voidRun = false →
        (∀ event ∈ s.rails.ring.events, ¬event.charges queryRunId) ∧
          (env.voidAttempt.lands → ¬s.rails.OpenCharge queryRunId)) ∧ F s.runs s.threads)
      fun _ _ => False := by
  subst hid
  refine Triple.recover (R := fun _ s => (env.raises .voidRun = false →
    (∀ event ∈ s.rails.ring.events, ¬event.charges queryRun.queryRunId) ∧
      (env.voidAttempt.lands → ¬s.rails.OpenCharge queryRun.queryRunId)) ∧ F s.runs s.threads) ?_
    (fun _ _ _ h => h) fun _ _ hnot _ => hnot rfl
  refine Triple.bind ((reach_triple .voidRun _).consequence (fun _ h => h) (fun _ _ h => h) ?_)
    fun _ => ?_
  · rintro raised s ⟨-, hraises, hframe⟩
    exact ⟨fun hnot => absurd hraises (by rw [hnot]; decide), hframe⟩
  · refine (onRails_triple
      (voidRunCharge_closes env.now env.voidAttempt queryRun.spendKey) F).consequence
      (fun _ h => ⟨trivial, h⟩) (fun _ s h => ⟨fun _ => h.1, h.2⟩) ?_
    rintro raised s ⟨-, -, hclosed, hframe⟩
    exact ⟨fun _ => hclosed, hframe⟩

/-! ### The start on the stores -/

/-- A raise between the charge and the handover. The refusal of the daily cap has charged nothing
and has failed the run itself. -/
structure Interrupted (env : StartEnv) (threads : List Uuid) (raised : StartError)
    (s : RunStores) : Prop where
  unfinished : Unfinished env.fresh s.runs
  threads : s.threads = threads
  refused : raised.isHttp → s.rails.Uncharged env.fresh ∧
    (env.raises .abandonRun = false → statusOf env.fresh s.runs = some .failed)

/-- The steps between the storing of the run and the charge go through, and so does the undoing of
the run. -/
def StartEnv.Guarded (env : StartEnv) : Prop :=
  env.raises .acknowledgement = false ∧ env.raises .modelSlotEvents = false ∧
    env.raises .response = false ∧
    env.raises .abandonRun = false

/-- Nothing is left of a start: no thread, no active run, no charge. -/
structure Undone (env : StartEnv) (threads : List Uuid) (s : RunStores) : Prop where
  threads : s.threads = threads
  terminal : env.Guarded → ∀ run, s.runs.get? env.fresh = some run → run.isTerminal
  ring : env.raises .voidRun = false → ∀ event ∈ s.rails.ring.events, ¬event.charges env.fresh
  ledger : env.raises .voidRun = false → env.voidAttempt.lands → ¬s.rails.OpenCharge env.fresh

/-- A raise that left no charge. -/
theorem Undone.of_uncharged {threads : List Uuid} {s : RunStores} (hthreads : s.threads = threads)
    (huncharged : s.rails.Uncharged env.fresh)
    (hterminal : env.Guarded → ∀ run, s.runs.get? env.fresh = some run → run.isTerminal) :
    Undone env threads s :=
  ⟨hthreads, hterminal, fun _ => huncharged.ring, fun _ _ => huncharged.not_open⟩

theorem terminal_of_failed {runs : QueryRuns} (h : statusOf queryRunId runs = some .failed) :
    ∀ run, runs.get? queryRunId = some run → run.isTerminal := by
  intro run hrun
  obtain ⟨other, hother, hfailed⟩ := Option.map_eq_some_iff.mp h
  rw [hrun, Option.some.injEq] at hother
  rw [QueryRun.isTerminal, hother, hfailed]
  rfl

theorem startThread_triple {queryRun : QueryRun} (hid : queryRun.queryRunId = env.fresh)
    (threads : List Uuid) :
    Triple (fun s => Accepted env.fresh s.runs ∧ s.threads = threads) (startThread env queryRun)
      (fun run s => run.queryRunId = env.fresh ∧ s.threads = env.fresh :: threads)
      fun raised s => Interrupted env threads raised s := by
  refine Triple.bind ((reach_triple .threadStart _).consequence (fun _ h => h) (fun _ _ h => h) ?_)
    fun _ => ?_
  · rintro raised s ⟨rfl, -, haccepted, hthreads⟩
    exact ⟨.inl haccepted.status, hthreads, fun hhttp => by cases hhttp⟩
  · rintro s ⟨-, hthreads⟩
    exact ⟨hid, by rw [← hid, ← hthreads]⟩

/-- A run that is marked as degraded is started like any other. -/
theorem degradeAndStart_triple {mark : Repository QueryRun} {threads : List Uuid}
    (hmark : Triple (Accepted env.fresh) mark
      (fun run runs => run.queryRunId = env.fresh ∧ Accepted env.fresh runs) fun _ _ => False) :
    Triple (fun s => Accepted env.fresh s.runs ∧ s.threads = threads)
      (onRuns mark >>= fun queryRun => reach env .degradedResponse >>= fun _ =>
        startThread env queryRun)
      (fun run s => run.queryRunId = env.fresh ∧ s.threads = env.fresh :: threads)
      fun raised s => Interrupted env threads raised s := by
  refine Triple.bind
    ((onRuns_triple hmark fun _ t => t = threads).consequence (fun _ h => h) (fun _ _ h => h) ?_)
    fun queryRun => ?_
  · rintro raised s ⟨r, -, hfalse, -⟩
    exact hfalse.elim
  · refine Triple.bind
      ((reach_triple .degradedResponse _).consequence (fun _ h => h) (fun _ _ h => h) ?_)
      fun _ => ?_
    · rintro raised s ⟨rfl, -, ⟨-, haccepted⟩, hthreads⟩
      exact ⟨.inl haccepted.status, hthreads, fun hhttp => by cases hhttp⟩
    · intro s hs
      exact startThread_triple hs.1.1 threads s ⟨hs.1.2, hs.2⟩

/-- Each outcome of the charge starts the thread, or raises with what the handler needs. -/
theorem handOver_triple {queryRun : QueryRun} (hid : queryRun.queryRunId = env.fresh)
    (threads : List Uuid) (charge : ChargeOutcome) :
    Triple (fun s => (charge ≠ .recorded → s.rails.Uncharged env.fresh) ∧
      Accepted env.fresh s.runs ∧
        s.threads = threads) (handOver env queryRun charge)
      (fun run s => run.queryRunId = env.fresh ∧ s.threads = env.fresh :: threads)
      fun raised s => Interrupted env threads raised s := by
  cases charge with
  | recorded => exact (startThread_triple hid threads).strengthen fun _ h => h.2
  | overGlobalCeiling =>
      refine (degradeAndStart_triple ?_).strengthen fun _ h => h.2
      rw [hid]
      exact modifyRun_triple fun _ => ⟨rfl, rfl⟩
  | meteringUnavailable =>
      refine (degradeAndStart_triple ?_).strengthen fun _ h => h.2
      rw [hid]
      exact modifyRun_triple fun _ => ⟨rfl, rfl⟩
  | overDailyCap =>
      rw [handOver, hid]
      have habandon := abandonUnstartedRun_triple env env.fresh
        fun rails t => rails.Uncharged env.fresh ∧ t = threads
      refine Triple.bind (habandon.consequence ?_ (fun _ _ h => h) fun _ _ hfalse => hfalse.elim)
        fun _ => ?_
      · rintro s ⟨huncharged, haccepted, hthreads⟩
        exact ⟨.inl haccepted.status, huncharged (by decide), hthreads⟩
      · refine Triple.bind
          ((reach_triple .dailyAllowance _).consequence (fun _ h => h) (fun _ _ h => h) ?_)
          fun _ => Triple.throw ?_
        · rintro raised s ⟨rfl, -, ⟨-, hunfinished⟩, -, hthreads⟩
          exact ⟨hunfinished, hthreads, fun hhttp => by cases hhttp⟩
        · rintro s ⟨⟨hfailed, hunfinished⟩, huncharged, hthreads⟩
          exact ⟨hunfinished, hthreads, fun _ => ⟨huncharged, hfailed⟩⟩

theorem recordRunBilling_triple {queryRun : QueryRun} (threads : List Uuid) :
    Triple (fun s => s.rails.Uncharged env.fresh ∧ Accepted env.fresh s.runs ∧ s.threads = threads)
      (recordRunBilling env queryRun)
      (fun charge s => (charge ≠ .recorded → s.rails.Uncharged env.fresh) ∧
        Accepted env.fresh s.runs ∧
        s.threads = threads)
      fun raised s => Interrupted env threads raised s := by
  refine Triple.bind ((reach_triple .billing _).consequence (fun _ h => h) (fun _ _ h => h) ?_)
    fun _ => ?_
  · rintro raised s ⟨rfl, -, -, haccepted, hthreads⟩
    exact ⟨.inl haccepted.status, hthreads, fun hhttp => by cases hhttp⟩
  · refine (onRails_triple (tryRecordRunCharge_uncharged _ _ _ _ _ _)
      fun runs t => Accepted env.fresh runs ∧ t = threads).consequence (fun _ h => h)
        (fun _ _ h => h) ?_
    rintro raised s ⟨r, rfl, -, haccepted, hthreads⟩
    exact ⟨.inl haccepted.status, hthreads, fun hhttp => by cases hhttp⟩

/-- From the charge on, a raise is undone. -/
theorem billAndStart_triple {queryRun : QueryRun} (hid : queryRun.queryRunId = env.fresh)
    (threads : List Uuid) :
    Triple (fun s => s.rails.Uncharged env.fresh ∧ Accepted env.fresh s.runs ∧ s.threads = threads)
      (billAndStart env queryRun)
      (fun run s => run.queryRunId = env.fresh ∧ s.threads = env.fresh :: threads)
      fun _ s => Undone env threads s := by
  refine Triple.tryCatch (R := Interrupted env threads)
    ((recordRunBilling_triple threads).bind (handOver_triple hid threads)) fun raised => ?_
  refine Triple.ite (fun hhttp => Triple.throw fun s hs => ?_) fun _ => ?_
  · obtain ⟨huncharged, hfailed⟩ := hs.refused hhttp
    exact .of_uncharged hs.threads huncharged fun hguarded =>
      terminal_of_failed (hfailed hguarded.2.2.2)
  · refine Triple.bind ((voidRunBilling_triple hid
      fun runs t => Unfinished env.fresh runs ∧ t = threads).consequence (fun s hs =>
        ⟨hs.unfinished, hs.threads⟩)
      (fun _ _ h => h) fun _ _ hfalse => hfalse.elim) fun _ => ?_
    rw [hid]
    refine Triple.bind
      ((abandonUnstartedRun_triple env env.fresh fun rails t => (env.raises .voidRun = false →
      (∀ event ∈ rails.ring.events, ¬event.charges env.fresh) ∧
        (env.voidAttempt.lands → ¬rails.OpenCharge env.fresh)) ∧ t = threads).consequence ?_
      (fun _ _ h => h) fun _ _ hfalse => hfalse.elim) fun _ => Triple.throw ?_
    · rintro s ⟨hclosed, hunfinished, hthreads⟩
      exact ⟨hunfinished, hclosed, hthreads⟩
    · rintro s ⟨⟨hfailed, -⟩, hclosed, hthreads⟩
      exact ⟨hthreads, fun hguarded => terminal_of_failed (hfailed hguarded.2.2.2),
        fun hvoid => (hclosed hvoid).1, fun hvoid => (hclosed hvoid).2⟩

/-- Before the start: the id is free, in the run store and on both rails. -/
structure Unused (queryRunId : Uuid) (s : RunStores) : Prop where
  runs : s.runs.get? queryRunId = none
  uncharged : s.rails.Uncharged queryRunId

theorem createStoredRun_triple (threads : List Uuid) :
    Triple (fun s => Unused env.fresh s ∧ s.threads = threads) (createStoredRun env)
      (fun run s => run.queryRunId = env.fresh ∧ s.rails.Uncharged env.fresh ∧
        Accepted env.fresh s.runs ∧
        s.threads = threads)
      fun _ s => Undone env threads s := by
  refine Triple.tryCatch (R := fun _ s => s.runs.get? env.fresh = none ∧
    s.rails.Uncharged env.fresh ∧
    s.threads = threads) ?_ fun raised => ?_
  · refine (onRuns_triple (create_triple env.admission env.request env.clock env.fresh)
      fun rails t => rails.Uncharged env.fresh ∧ t = threads).consequence ?_ ?_ ?_
    · exact fun s hs => ⟨hs.1.runs, hs.1.uncharged, hs.2⟩
    · rintro run s ⟨⟨hid, haccepted⟩, huncharged, hthreads⟩
      exact ⟨hid, huncharged, haccepted, hthreads⟩
    · rintro raised s ⟨-, -, hnone, huncharged, hthreads⟩
      exact ⟨hnone, huncharged, hthreads⟩
  · have hundone : ∀ s : RunStores, s.runs.get? env.fresh = none ∧ s.rails.Uncharged env.fresh ∧
        s.threads = threads → Undone env threads s := by
      rintro s ⟨hnone, huncharged, hthreads⟩
      refine .of_uncharged hthreads huncharged fun _ run hrun => ?_
      rw [hnone] at hrun
      cases hrun
    exact Triple.ite (fun _ => Triple.throw hundone) fun _ => Triple.throw hundone

/-- One point between the storing of the run and the charge. -/
theorem early_triple {point : StartPoint} (hpoint : env.Guarded → env.raises point = false)
    (threads : List Uuid) :
    Triple (fun s => s.rails.Uncharged env.fresh ∧ Accepted env.fresh s.runs ∧ s.threads = threads)
      (reach env point)
      (fun _ s => s.rails.Uncharged env.fresh ∧ Accepted env.fresh s.runs ∧ s.threads = threads)
      fun _ s => Undone env threads s := by
  refine (reach_triple point _).consequence (fun _ h => h) (fun _ _ h => h) ?_
  rintro raised s ⟨-, hraises, huncharged, -, hthreads⟩
  exact .of_uncharged hthreads huncharged fun hguarded =>
    absurd hraises (by rw [hpoint hguarded]; decide)

theorem startReservedQueryRun_triple (threads : List Uuid) :
    Triple (fun s => Unused env.fresh s ∧ s.threads = threads) (startReservedQueryRun env)
      (fun run s => run.queryRunId = env.fresh ∧ s.threads = env.fresh :: threads)
      fun _ s => Undone env threads s := by
  refine Triple.bind (createStoredRun_triple threads) fun queryRun => ?_
  by_cases hid : queryRun.queryRunId = env.fresh
  · refine ((early_triple (fun h => h.1) threads).strengthen fun s hs => hs.2).seq ?_
    refine (early_triple (fun h => h.2.1) threads).seq ?_
    refine (early_triple (fun h => h.2.2.1) threads).seq ?_
    exact billAndStart_triple hid threads
  · exact fun s hs => absurd hs.1 hid

end

/-! ### The permit -/

/-- A permit that was taken is below the limit, so its return does not raise. -/
theorem releasePermit_ok {w : StartWorld} (h : w.semaphore.available < w.semaphore.limit) :
    releasePermit w = .ok () { w with
      semaphore := ⟨w.semaphore.limit, w.semaphore.available + 1, h⟩
      releases := w.releases + 1 } := by
  rw [releasePermit, dif_pos h]

/-- The permits of a world, and how often one was returned. -/
structure Permits (limit available releases : ℕ) (w : StartWorld) : Prop where
  limit : w.semaphore.limit = limit
  available : w.semaphore.available = available
  releases : w.releases = releases

/-- Whatever a script over the stores does, it holds the permit, and a handler returns it. -/
theorem onStores_triple {α : Type} {p : RunStores → Prop} {q : α → RunStores → Prop}
    {e : StartError → RunStores → Prop} {x : Stores α} (h : Triple p x q e)
    (limit available releases : ℕ) :
    Triple (fun w => p w.stores ∧ Permits limit available releases w) (onStores x)
      (fun a w => q a w.stores ∧ Permits limit available releases w)
      fun raised w => e raised w.stores ∧ Permits limit available releases w := by
  rintro w ⟨hstores, hpermits⟩
  have hx := h w.stores hstores
  rw [onStores]
  cases hrun : x w.stores with
  | ok a stores =>
      rw [hrun] at hx
      exact ⟨hx, hpermits.limit, hpermits.available, hpermits.releases⟩
  | error raised stores =>
      rw [hrun] at hx
      exact ⟨hx, hpermits.limit, hpermits.available, hpermits.releases⟩

theorem releasePermit_triple (p : RunStores → Prop) {limit available : ℕ} (releases : ℕ)
    (h : available < limit) (e : StartError → StartWorld → Prop) :
    Triple (fun w => p w.stores ∧ Permits limit available releases w) releasePermit
      (fun _ w => p w.stores ∧ Permits limit (available + 1) (releases + 1) w) e := by
  rintro w ⟨hstores, hpermits⟩
  have hbelow : w.semaphore.available < w.semaphore.limit := by
    rw [hpermits.available, hpermits.limit]
    exact h
  rw [releasePermit_ok hbelow]
  exact ⟨hstores, hpermits.limit, congrArg (· + 1) hpermits.available,
    congrArg (· + 1) hpermits.releases⟩

/-- A worker that ends, however it ends, has returned its permit once. -/
theorem executeWithSemaphoreRelease_triple (execute : Stores Unit) {limit available releases : ℕ}
    (h : available < limit) :
    Triple (Permits limit available releases) (executeWithSemaphoreRelease execute)
      (fun _ => Permits limit (available + 1) (releases + 1))
      fun _ => Permits limit (available + 1) (releases + 1) := by
  have hrun : Triple (fun _ => True) execute (fun _ _ => True) fun _ _ => True := by
    intro s _
    cases execute s <;> trivial
  have hbody := onStores_triple hrun limit available releases
  refine Triple.bind (R := fun _ => Permits limit available releases)
    (Triple.tryCatch (hbody.consequence (fun _ hw => ⟨trivial, hw⟩) (fun _ _ hw => hw.2)
      fun _ _ hw => hw)
      fun raised => ?_) fun _ => ?_
  · exact (releasePermit_triple (fun _ => True) releases h _).seq (Triple.throw fun _ hw => hw.2)
  · exact (releasePermit_triple (fun _ => True) releases h _).consequence
      (fun _ hw => ⟨trivial, hw⟩)
      (fun _ _ hw => hw.2) fun _ _ hw => hw

/-- A start that answers has started its worker and handed it the permit; one that raises after it
took the permit has returned it once and left the stores undone. -/
theorem createQueryRun_triple (env : StartEnv) (threads : List Uuid) {limit available releases : ℕ}
    (h : 0 < available) (hbounded : available ≤ limit) :
    Triple (fun w => (Unused env.fresh w.stores ∧ w.stores.threads = threads) ∧
      Permits limit available releases w)
      (createQueryRun env)
      (fun run w => (run.queryRunId = env.fresh ∧ w.stores.threads = env.fresh :: threads) ∧
        Permits limit (available - 1) releases w)
      fun _ w => Undone env threads w.stores ∧ Permits limit available (releases + 1) w := by
  have hacquire : Triple
      (fun w => (Unused env.fresh w.stores ∧ w.stores.threads = threads) ∧
        Permits limit available releases w)
      acquirePermit
      (fun _ w => (Unused env.fresh w.stores ∧ w.stores.threads = threads) ∧
        Permits limit (available - 1) releases w)
      fun _ w => Undone env threads w.stores ∧ Permits limit available (releases + 1) w := by
    rintro w ⟨hstores, hpermits⟩
    have hfree : 0 < w.semaphore.available := by
      rw [hpermits.available]
      exact h
    rw [acquirePermit, if_pos hfree]
    exact ⟨hstores, hpermits.limit, congrArg (· - 1) hpermits.available, hpermits.releases⟩
  refine hacquire.seq (Triple.tryCatch
    (onStores_triple (startReservedQueryRun_triple threads) limit (available - 1) releases)
      fun raised => ?_)
  have hrelease := releasePermit_triple (Undone env threads) releases
    (show available - 1 < limit by omega)
  rw [Nat.sub_add_cancel h] at hrelease
  exact (hrelease _).seq (Triple.throw fun _ hw => hw)

/-- However a start ends without its worker, the permit it took was returned exactly once, no thread
was started, the ring and, where the void's row landed, the ledger hold no open charge of the run,
and the run is terminal where the steps between its storing and its charge did not raise; and a
worker returns its permit exactly once, however it ends. -/
theorem start_of_run_undone (env : StartEnv) (w : StartWorld)
    (hunused : Unused env.fresh w.stores) :
    (∀ run w', createQueryRun env w = .ok run w' →
      run.queryRunId = env.fresh ∧ w'.stores.threads = env.fresh :: w.stores.threads ∧
        0 < w.semaphore.available ∧
        Permits w.semaphore.limit (w.semaphore.available - 1) w.releases w') ∧
      (∀ raised w', createQueryRun env w = .error raised w' →
        (w.semaphore.available = 0 ∧ w' = w) ∨
          (Permits w.semaphore.limit w.semaphore.available (w.releases + 1) w' ∧
            Undone env w.stores.threads w'.stores)) ∧
      ∀ (execute : Stores Unit) (later : StartWorld),
        later.semaphore.available < later.semaphore.limit →
        Permits later.semaphore.limit (later.semaphore.available + 1) (later.releases + 1)
          (after (executeWithSemaphoreRelease execute) later) := by
  have hstart : (Unused env.fresh w.stores ∧ w.stores.threads = w.stores.threads) ∧
      Permits w.semaphore.limit w.semaphore.available w.releases w :=
    ⟨⟨hunused, rfl⟩, rfl, rfl, rfl⟩
  refine ⟨fun run w' hrun => ?_, fun raised w' hrun => ?_, fun execute later hheld => ?_⟩
  · rcases Nat.eq_zero_or_pos w.semaphore.available with hzero | hfree
    · have hfull : acquirePermit w = .error (.http "RUN_CAPACITY_EXCEEDED") w := by
        rw [acquirePermit, if_neg (by omega)]
      rw [createQueryRun, bind_of_error _ hfull] at hrun
      cases hrun
    · obtain ⟨⟨hid, hthreads⟩, hpermits⟩ :=
        (createQueryRun_triple env w.stores.threads hfree w.semaphore.bounded).of_ok hstart hrun
      exact ⟨hid, hthreads, hfree, hpermits⟩
  · rcases Nat.eq_zero_or_pos w.semaphore.available with hzero | hfree
    · have hfull : acquirePermit w = .error (.http "RUN_CAPACITY_EXCEEDED") w := by
        rw [acquirePermit, if_neg (by omega)]
      rw [createQueryRun, bind_of_error _ hfull] at hrun
      cases hrun
      exact .inl ⟨hzero, rfl⟩
    · obtain ⟨hundone, hpermits⟩ :=
        (createQueryRun_triple env w.stores.threads hfree w.semaphore.bounded).of_error hstart hrun
      exact .inr ⟨hpermits, hundone⟩
  · exact (executeWithSemaphoreRelease_triple execute hheld).after ⟨rfl, rfl, rfl⟩

/-! A start whose thread cannot be started, with the void's row lost or not, and one that raises
before its charge. -/

def failedStart (voidLands : Bool) (point : StartPoint) : StartEnv where
  admission := none
  request :=
    { accountId := 1
      queryText := "q"
      modelSlots := []
      costEstimate := { estimatedCostUsd := 1 / 5, thresholdAction := .allow } }
  clock := fun _ => noonOfJanuary
  fresh := 7
  now := noonOfJanuary
  attempt := ⟨true, 1⟩
  degradeAttempt := ⟨true, 1⟩
  voidAttempt := ⟨voidLands, 2⟩
  dailyCapUsd := 1
  globalCeilingUsd := 5
  openrouterLiveExecutionEnabled := true
  raises := fun other => other = point

def idleWorld : StartWorld := ⟨⟨16, 16, le_rfl⟩, 0, ⟨Dict.empty, ⟨.empty, some .empty⟩, []⟩⟩

theorem unused_idleWorld (queryRunId : Uuid) : Unused queryRunId idleWorld.stores := by
  have hempty : FeedbackStore.empty.Uncharged queryRunId := fun row hrow => nomatch hrow
  refine ⟨rfl, ⟨fun event hevent => absurd hevent List.not_mem_nil, fun store hstore => ?_⟩⟩
  cases hstore
  exact hempty

/-- The charge stays open in the ledger where the void's row is lost; the run stays active where the
acknowledgement raises. No worker runs in either case. -/
theorem failedStart_left_open :
    let lost := after (createQueryRun (failedStart false .threadStart)) idleWorld
    let early := after (createQueryRun (failedStart true .acknowledgement)) idleWorld
    (lost.stores.threads = [] ∧ (lost.stores.rails.store.map fun store =>
      (store.events.map EventRow.eventType, store.events.map EventRow.queryRunId)) =
        some ([.costAccepted], [some 7])) ∧
      early.stores.threads = [] ∧ statusOf 7 early.stores.runs = some .accepted := by
  decide +kernel

theorem start_of_run_undone_thread :
    Undone (failedStart true .threadStart) []
      (after (createQueryRun (failedStart true .threadStart)) idleWorld).stores := by
  obtain ⟨-, hundone, -⟩ :=
    start_of_run_undone (failedStart true .threadStart) idleWorld (unused_idleWorld _)
  cases hrun : createQueryRun (failedStart true .threadStart) idleWorld with
  | ok run w =>
      have hraised : (match createQueryRun (failedStart true .threadStart) idleWorld with
        | .ok _ _ => false
        | .error _ _ => true) = true := by decide +kernel
      rw [hrun] at hraised
      cases hraised
  | error raised w =>
      rw [after_of_error hrun]
      rcases hundone raised w hrun with ⟨hfull, -⟩ | ⟨-, hleft⟩
      · cases hfull
      · exact hleft

end Quorum
