import Quorum.LedgerReconnect

/-! What a meter, a cleared flag and a block rest on. Every event of the log is justified by the log
before it: a check by the absence of losses, a meter by the request's own check, a block by the
snapshot that the request took before it could start a reopen. -/

namespace Quorum

open StoreReconnect (feedbackLedgerIsTrustworthy)

/-! ### Justified logs -/

/-- What the log before an event must say. -/
def LedgerEvent.Justified (event : LedgerEvent) (earlier : List LedgerEvent) : Prop :=
  match event with
  | .snapshot request _ => ∀ tried, .snapshot request tried ∉ earlier
  | .started request => ∃ tried, .snapshot request tried ∈ earlier
  | .observed _ handle => handle.Sound
  | .checked _ handle => .lost handle ∉ earlier
  | .metered request handle => .checked request handle ∈ earlier
  | .blocked request => .snapshot request true ∈ earlier
  | .lost _ => True

inductive JustifiedLog : List LedgerEvent → Prop
  | nil : JustifiedLog []
  | cons {event earlier} (hevent : event.Justified earlier) (hearlier : JustifiedLog earlier) :
      JustifiedLog (event :: earlier)

theorem JustifiedLog.of_append (later : List LedgerEvent) {earlier : List LedgerEvent}
    (h : JustifiedLog (later ++ earlier)) :
    JustifiedLog earlier := by
  induction later with
  | nil => exact h
  | cons event later ih =>
      cases h with
      | cons hevent hearlier => exact ih hearlier

theorem JustifiedLog.justified {later earlier : List LedgerEvent} {event : LedgerEvent}
    (h : JustifiedLog (later ++ event :: earlier)) : event.Justified earlier := by
  cases h.of_append later with
  | cons hevent hearlier => exact hevent

theorem JustifiedLog.of_mem {log : List LedgerEvent} {event : LedgerEvent} (h : JustifiedLog log)
    (hevent : event ∈ log) : ∃ earlier, event.Justified earlier ∧ earlier ⊆ log := by
  obtain ⟨later, earlier, rfl⟩ := List.append_of_mem hevent
  exact ⟨earlier, h.justified, fun other hother =>
    List.mem_append_right later (List.mem_cons_of_mem event hother)⟩

/-! ### The invariant -/

/-- What the log says of a request in a phase. -/
def PricedPhase.Fits (request : ℕ) (log : List LedgerEvent) : PricedPhase → Prop
  | .snapshotted tried | .fetched tried _ | .flagRead tried _ _ | .triggering tried _ | .due tried
  | .spawning tried | .deciding tried | .checking tried _ | .judged tried _ _ =>
      .snapshot request tried ∈ log
  | .recovered tried _ =>
      .snapshot request tried ∈ log ∧ ∃ handle, .observed (.request request) handle ∈ log
  | .charging _ => True
  | .metering handle => .checked request handle ∈ log
  | .decided _ => True

def ReopenPhase.Fits (request : ℕ) (log : List LedgerEvent) : ReopenPhase → Prop
  | .concluding true => ∃ handle, .observed (.reopen request) handle ∈ log
  | _ => True

/-- No stamp of a handle is later than the clock. -/
def LedgerHandle.StampedBy (clock : ℕ) (handle : LedgerHandle) : Prop :=
  (∀ stamp ∈ handle.lastWriteSuccessAt, stamp ≤ clock) ∧
    ∀ stamp ∈ handle.lastWriteFailureAt, stamp ≤ clock

structure ReconnectWorld.Coherent (world : ReconnectWorld) : Prop where
  losses : ∀ id handle, world.handles[id]? = some handle →
    handle.lostBilledWrites = world.log.count (.lost id)
  unopened : ∀ id, world.handles.length ≤ id → .lost id ∉ world.log
  recorded : ∀ request tried, .snapshot request tried ∈ world.log → world.requests request ≠ none
  requests : ∀ request phase, world.requests request = some phase → phase.Fits request world.log
  reopens : ∀ request phase, world.reopens request = some phase → phase.Fits request world.log
  justified : JustifiedLog world.log
  attempts : ∀ last ∈ world.lastAttemptAt, last ≤ world.clock
  stamps : ∀ handle ∈ world.handles, handle.StampedBy world.clock

theorem PricedPhase.Fits.mono {request : ℕ} {log log' : List LedgerEvent} {phase : PricedPhase}
    (h : phase.Fits request log) (hlog : log ⊆ log') : phase.Fits request log' := by
  cases phase with
  | recovered tried store => exact ⟨hlog h.1, h.2.imp fun _ hhandle => hlog hhandle⟩
  | charging store => trivial
  | decided decision => trivial
  | _ => exact hlog h

theorem ReopenPhase.Fits.mono {request : ℕ} {log log' : List LedgerEvent} {phase : ReopenPhase}
    (h : phase.Fits request log) (hlog : log ⊆ log') : phase.Fits request log' := by
  cases phase with
  | concluding trustworthy =>
      cases trustworthy with
      | true => exact h.imp fun _ hhandle => hlog hhandle
      | false => trivial
  | _ => trivial

/-- An event that is no loss, and no snapshot but of the request. -/
def LedgerEvent.Keeps (request : Option ℕ) : LedgerEvent → Prop
  | .lost _ => False
  | .snapshot other _ => request = some other
  | _ => True

theorem count_lost_append {request : Option ℕ} {events : List LedgerEvent}
    (h : ∀ event ∈ events, event.Keeps request) (log : List LedgerEvent) (id : ℕ) :
    (events ++ log).count (.lost id) = log.count (.lost id) := by
  have hnot : LedgerEvent.lost id ∉ events := fun hmem => h _ hmem
  rw [List.count_append, List.count_eq_zero_of_not_mem hnot, Nat.zero_add]

namespace ReconnectWorld.Coherent

variable {world : ReconnectWorld} {request : ℕ}

/-- A request goes on: its events lose nothing, its phase fits them, and they are justified. -/
theorem enter (h : world.Coherent) {phase : PricedPhase} {events : List LedgerEvent}
    (hkeeps : ∀ event ∈ events, event.Keeps (some request))
    (hfits : phase.Fits request (events ++ world.log))
    (hjustified : JustifiedLog (events ++ world.log)) :
    (world.enter request phase events).Coherent where
  losses := fun id handle hget =>
    (h.losses id handle hget).trans (count_lost_append hkeeps _ id).symm
  unopened := fun id hid hmem => (List.mem_append.mp hmem).elim (fun hevent => hkeeps _ hevent)
    (h.unopened id hid)
  recorded := fun other tried hmem => by
    rw [ReconnectWorld.requests_enter, Function.update_apply]
    split
    · exact Option.some_ne_none phase
    · rename_i hother
      rcases List.mem_append.mp hmem with hevent | hearlier
      · exact absurd (Option.some.inj (hkeeps _ hevent)).symm hother
      · exact h.recorded other tried hearlier
  requests := fun other found hfound => by
    by_cases hother : other = request
    · subst hother
      rw [ReconnectWorld.requests_enter, Function.update_self] at hfound
      cases hfound
      exact hfits
    · rw [ReconnectWorld.requests_enter, Function.update_of_ne hother] at hfound
      exact (h.requests other found hfound).mono (List.subset_append_right _ _)
  reopens := fun other found hfound =>
    (h.reopens other found hfound).mono (List.subset_append_right _ _)
  justified := hjustified
  attempts := h.attempts
  stamps := h.stamps

/-- A request goes on without an event. -/
theorem move (h : world.Coherent) {phase : PricedPhase} (hfits : phase.Fits request world.log) :
    (world.enter request phase []).Coherent :=
  h.enter (fun _ hmem => absurd hmem List.not_mem_nil) hfits h.justified

theorem enterReopen (h : world.Coherent) {phase : ReopenPhase} {events : List LedgerEvent}
    (hkeeps : ∀ event ∈ events, event.Keeps none) (hfits : phase.Fits request (events ++ world.log))
    (hjustified : JustifiedLog (events ++ world.log)) :
    (world.enterReopen request phase events).Coherent where
  losses := fun id handle hget =>
    (h.losses id handle hget).trans (count_lost_append hkeeps _ id).symm
  unopened := fun id hid hmem => (List.mem_append.mp hmem).elim (fun hevent => hkeeps _ hevent)
    (h.unopened id hid)
  recorded := fun other tried hmem => (List.mem_append.mp hmem).elim
    (fun hevent => absurd (hkeeps _ hevent) (Option.some_ne_none other).symm)
      (h.recorded other tried)
  requests := fun other found hfound =>
    (h.requests other found hfound).mono (List.subset_append_right _ _)
  reopens := fun other found hfound => by
    by_cases hother : other = request
    · subst hother
      rw [ReconnectWorld.reopens_enterReopen, Function.update_self] at hfound
      cases hfound
      exact hfits
    · rw [ReconnectWorld.reopens_enterReopen, Function.update_of_ne hother] at hfound
      exact (h.reopens other found hfound).mono (List.subset_append_right _ _)
  justified := hjustified
  attempts := h.attempts
  stamps := h.stamps

theorem moveReopen (h : world.Coherent) {phase : ReopenPhase}
    (hfits : phase.Fits request world.log) :
    (world.enterReopen request phase []).Coherent :=
  h.enterReopen (fun _ hmem => absurd hmem List.not_mem_nil) hfits h.justified

theorem setTried (h : world.Coherent) (tried : Bool) :
    { world with triedWithoutRecovery := tried }.Coherent :=
  ⟨h.losses, h.unopened, h.recorded, h.requests, h.reopens, h.justified, h.attempts, h.stamps⟩

theorem setInstalled (h : world.Coherent) (installed : Option ℕ) :
    { world with installed := installed }.Coherent :=
  ⟨h.losses, h.unopened, h.recorded, h.requests, h.reopens, h.justified, h.attempts, h.stamps⟩

theorem stampAttempt (h : world.Coherent) :
    { world with lastAttemptAt := some world.clock }.Coherent :=
  ⟨h.losses, h.unopened, h.recorded, h.requests, h.reopens, h.justified,
    fun _ hlast => by cases hlast; exact le_refl _, h.stamps⟩

theorem tick (h : world.Coherent) (span : ℕ) :
    { world with clock := world.clock + span }.Coherent :=
  ⟨h.losses, h.unopened, h.recorded, h.requests, h.reopens, h.justified,
    fun last hlast => (h.attempts last hlast).trans (Nat.le_add_right _ _),
    fun handle hhandle => ⟨fun stamp hstamp => ((h.stamps handle hhandle).1 stamp hstamp).trans
      (Nat.le_add_right _ _), fun stamp hstamp => ((h.stamps handle hhandle).2 stamp hstamp).trans
      (Nat.le_add_right _ _)⟩⟩

/-- A handle that was just opened has lost nothing. -/
theorem addHandle (h : world.Coherent) (landed failed : Bool) :
    { world with handles := world.handles
      ++ [LedgerHandle.opened world.clock landed failed] }.Coherent where
  losses := fun id handle hget => by
    rcases lt_or_ge id world.handles.length with hid | hid
    · rw [List.getElem?_append_left hid] at hget
      exact h.losses id handle hget
    · rw [List.getElem?_append_right hid, List.getElem?_singleton] at hget
      rw [List.count_eq_zero_of_not_mem (h.unopened id hid)]
      split at hget
      · cases hget
        rfl
      · cases hget
  unopened := fun id hid =>
    h.unopened id (by rw [List.length_append] at hid; exact Nat.le_of_add_right_le hid)
  recorded := h.recorded
  requests := h.requests
  reopens := h.reopens
  justified := h.justified
  attempts := h.attempts
  stamps := fun handle hhandle => by
    rcases List.mem_append.mp hhandle with hhandle | hhandle
    · exact h.stamps handle hhandle
    · rw [List.mem_singleton.mp hhandle]
      cases landed <;> cases failed <;> simp [LedgerHandle.StampedBy, LedgerHandle.opened]

theorem insertEvent_stampedBy {handle : LedgerHandle} {clock : ℕ} (h : handle.StampedBy clock)
    (billed landed : Bool) : (handle.insertEvent clock billed landed).StampedBy clock := by
  rw [LedgerHandle.insertEvent]
  split
  · exact ⟨fun stamp hstamp => by cases hstamp; exact le_refl _, h.2⟩
  · exact ⟨h.1, fun stamp hstamp => by cases hstamp; exact le_refl _⟩

theorem writeTo (h : world.Coherent) (id : ℕ) (billed landed : Bool) :
    (world.writeTo id billed landed).Coherent := by
  have hlength : (world.writeTo id billed landed).handles.length = world.handles.length :=
    List.length_modify _ _ _
  have hstamps : ∀ handle ∈ (world.writeTo id billed landed).handles,
      handle.StampedBy world.clock := by
    intro handle hhandle
    obtain ⟨index, hindex⟩ := List.getElem?_of_mem hhandle
    rw [ReconnectWorld.handles_writeTo, List.getElem?_modify] at hindex
    obtain ⟨held, hheld, rfl⟩ := Option.map_eq_some_iff.mp hindex
    have hmem := h.stamps held (List.mem_of_getElem? hheld)
    split
    · exact insertEvent_stampedBy hmem billed landed
    · exact hmem
  have hget : ∀ index handle, (world.writeTo id billed landed).handles[index]? = some handle →
      ∃ held, world.handles[index]? = some held ∧
        handle = if id = index then held.insertEvent world.clock billed landed else held := by
    intro index handle hindex
    rw [ReconnectWorld.handles_writeTo, List.getElem?_modify] at hindex
    obtain ⟨held, hheld, hhandle⟩ := Option.map_eq_some_iff.mp hindex
    refine ⟨held, hheld, hhandle.symm.trans ?_⟩
    split <;> rfl
  by_cases hlost : (billed && !landed && decide (id < world.handles.length)) = true
  · have hlog : (world.writeTo id billed landed).log = .lost id :: world.log := if_pos hlost
    simp only [Bool.and_eq_true, Bool.not_eq_true', decide_eq_true_eq] at hlost
    obtain ⟨⟨rfl, rfl⟩, hid⟩ := hlost
    constructor
    · intro index handle hindex
      obtain ⟨held, hheld, rfl⟩ := hget index handle hindex
      rw [hlog, List.count_cons, ← h.losses index held hheld]
      by_cases hindex : id = index
      · subst hindex
        simp [LedgerHandle.insertEvent]
      · simp [hindex]
    · intro index hindex
      rw [hlength] at hindex
      rw [hlog]
      have hne : index ≠ id := by omega
      simpa [hne] using h.unopened index hindex
    · intro request tried hmem
      rw [hlog] at hmem
      exact h.recorded request tried (List.mem_of_ne_of_mem (fun h => by cases h) hmem)
    · exact fun request phase hphase => (h.requests request phase hphase).mono (by rw [hlog]; simp)
    · exact fun request phase hphase => (h.reopens request phase hphase).mono (by rw [hlog]; simp)
    · rw [hlog]
      exact .cons trivial h.justified
    · exact h.attempts
    · exact hstamps
  · have hlog : (world.writeTo id billed landed).log = world.log := if_neg hlost
    constructor
    · intro index handle hindex
      obtain ⟨held, hheld, rfl⟩ := hget index handle hindex
      rw [hlog, ← h.losses index held hheld]
      have hid : index < world.handles.length := (List.getElem?_eq_some_iff.mp hheld).1
      split
      · rename_i heq
        subst heq
        cases billed <;> cases landed <;> simp_all [LedgerHandle.insertEvent]
      · rfl
    · intro index hindex
      rw [hlength] at hindex
      rw [hlog]
      exact h.unopened index hindex
    · intro request tried hmem
      rw [hlog] at hmem
      exact h.recorded request tried hmem
    · exact fun request phase hphase => (h.requests request phase hphase).mono (by rw [hlog]; simp)
    · exact fun request phase hphase => (h.reopens request phase hphase).mono (by rw [hlog]; simp)
    · rw [hlog]
      exact h.justified
    · exact h.attempts
    · exact hstamps

end ReconnectWorld.Coherent

/-! ### Every step keeps it -/

namespace ReconnectWorld

variable {settings : ReconnectSettings} {world : ReconnectWorld}

theorem keeps_sightings (actor : LedgerActor) (store : Option LedgerHandle) (request : Option ℕ) :
    ∀ event ∈ sightings actor store, event.Keeps request := by
  intro event hevent
  cases store with
  | none => exact absurd hevent List.not_mem_nil
  | some handle =>
      rw [sightings] at hevent
      split at hevent
      · cases List.mem_singleton.mp hevent
        trivial
      · exact absurd hevent List.not_mem_nil

/-- What is logged as seen was sound when it was seen. -/
theorem justified_sightings (actor : LedgerActor) (store : Option LedgerHandle)
    {log : List LedgerEvent} (hlog : JustifiedLog log) :
    JustifiedLog (sightings actor store ++ log) := by
  cases store with
  | none => exact hlog
  | some handle =>
      rw [sightings]
      split
      · rename_i htrust
        exact .cons (StoreReconnect.sound_of_isTrustworthy htrust) hlog
      · exact hlog

theorem mem_sightings (actor : LedgerActor) {store : Option LedgerHandle}
    (htrust : feedbackLedgerIsTrustworthy store = true) :
    ∃ handle, LedgerEvent.observed actor handle ∈ sightings actor store := by
  cases store with
  | none => exact absurd htrust Bool.false_ne_true
  | some handle => exact ⟨handle, by simp [sightings, htrust]⟩

/-- A handle that passes the gate has lost nothing so far. -/
theorem Coherent.not_lost (h : world.Coherent) {handle : ℕ}
    (hgate : StoreReconnect.feedbackLedgerMayBeMetered (world.fetch (some handle)) = true) :
    .lost handle ∉ world.log := by
  intro hmem
  rw [fetch, Option.bind_some] at hgate
  cases hget : world.handles[handle]? with
  | none =>
      rw [hget] at hgate
      exact absurd hgate Bool.false_ne_true
  | some held =>
      rw [hget] at hgate
      have hlost : held.lostBilledWrites = 0 := by
        simp only [StoreReconnect.feedbackLedgerMayBeMetered, Bool.and_eq_true] at hgate
        exact of_decide_eq_true hgate.2
      rw [h.losses handle held hget] at hlost
      exact List.count_eq_zero.mp hlost hmem

theorem Coherent.gate (h : world.Coherent) (request : ℕ) (store : Option ℕ) :
    (world.gate request store).Coherent := by
  cases store with
  | none => exact h.move trivial
  | some handle =>
      rw [ReconnectWorld.gate]
      split
      · rename_i hgate
        refine h.enter ?_ List.mem_cons_self (.cons (h.not_lost hgate) h.justified)
        intro event hevent
        cases List.mem_singleton.mp hevent
        trivial
      · exact h.move trivial

theorem Coherent.cooldownSection (h : world.Coherent) {request : ℕ} {tried : Bool}
    (hsnapshot : .snapshot request tried ∈ world.log) :
    (world.cooldownSection settings request tried).Coherent := by
  rw [ReconnectWorld.cooldownSection]
  split
  · split
    · exact h.move hsnapshot
    · exact h.stampAttempt.move hsnapshot
  · exact h.stampAttempt.move hsnapshot

theorem Coherent.spawn (h : world.Coherent) {request : ℕ} {tried : Bool} (threadStarts : Bool)
    (hsnapshot : .snapshot request tried ∈ world.log) :
    (world.spawn request tried threadStarts).Coherent := by
  rw [ReconnectWorld.spawn]
  split
  · have hstarted : (world.enterReopen request .opening [.started request]).Coherent := by
      refine h.enterReopen ?_ trivial (.cons ⟨tried, hsnapshot⟩ h.justified)
      intro event hevent
      cases List.mem_singleton.mp hevent
      trivial
    exact hstarted.move (List.mem_cons_of_mem _ hsnapshot)
  · exact (h.setTried true).move hsnapshot

theorem Coherent.proceed (h : world.Coherent) {request : ℕ} {phase : PricedPhase}
    (threadStarts : Bool) (hfits : phase.Fits request world.log) :
    (world.proceed settings request phase threadStarts).Coherent := by
  cases phase with
  | snapshotted tried => exact h.move hfits
  | fetched tried store => exact h.move hfits
  | flagRead tried store flag =>
      rw [ReconnectWorld.proceed]
      split
      · rename_i hclear
        rw [Bool.and_eq_true] at hclear
        obtain ⟨handle, hhandle⟩ := mem_sightings (.request request) hclear.2
        exact h.enter (keeps_sightings _ _ _) ⟨List.mem_append_right _ hfits, handle,
          List.mem_append_left _ hhandle⟩ (justified_sightings _ _ h.justified)
      · exact h.move hfits
  | recovered tried store => exact (h.setTried false).move hfits.1
  | triggering tried store =>
      rw [ReconnectWorld.proceed]
      split
      · exact h.move hfits
      · exact h.move hfits
  | due tried => exact h.cooldownSection hfits
  | spawning tried => exact h.spawn threadStarts hfits
  | deciding tried => exact h.move hfits
  | checking tried store => exact h.move hfits
  | judged tried store trustworthy =>
      rw [ReconnectWorld.proceed]
      split
      · rename_i hblock
        simp only [Bool.and_eq_true] at hblock
        have htried : tried = true := hblock.1.2
        subst htried
        refine h.enter ?_ trivial (.cons hfits h.justified)
        intro event hevent
        cases List.mem_singleton.mp hevent
        trivial
      · exact h.gate request store
  | charging store => exact h.gate request store
  | metering handle =>
      refine h.enter ?_ trivial (.cons hfits h.justified)
      intro event hevent
      cases List.mem_singleton.mp hevent
      trivial
  | decided decision => exact h

theorem Coherent.proceedReopen (h : world.Coherent) (request : ℕ) (phase : ReopenPhase)
    (outcome : OpenOutcome) : (world.proceedReopen request phase outcome).Coherent := by
  cases phase with
  | opening =>
      cases outcome with
      | raised => exact (h.setTried true).moveReopen trivial
      | returned landed failed => exact (h.addHandle landed failed).moveReopen trivial
  | configuring handle => exact (h.setInstalled (some handle)).moveReopen trivial
  | judging handle =>
      refine h.enterReopen (keeps_sightings _ _ _) ?_ (justified_sightings _ _ h.justified)
      cases htrust : feedbackLedgerIsTrustworthy (world.fetch (some handle)) with
      | true =>
          obtain ⟨held, hheld⟩ := mem_sightings (.reopen request) htrust
          exact ⟨held, List.mem_append_left _ hheld⟩
      | false => trivial
  | concluding trustworthy => exact (h.setTried _).moveReopen trivial
  | ended => exact h

theorem Coherent.step (h : world.Coherent) (turn : LedgerTurn) :
    (world.step settings turn).Coherent := by
  cases turn with
  | tick span => exact h.tick span
  | write handle billed landed => exact h.writeTo handle billed landed
  | record billed landed =>
      rw [ReconnectWorld.step]
      cases world.installed with
      | none => exact h
      | some handle => exact h.writeTo handle billed landed
  | estimate request =>
      rw [ReconnectWorld.step]
      cases hrequest : world.requests request with
      | some phase => exact h
      | none =>
          refine h.enter ?_ List.mem_cons_self (.cons ?_ h.justified)
          · intro event hevent
            cases List.mem_singleton.mp hevent
            rfl
          · exact fun tried hmem => h.recorded request tried hmem hrequest
  | charge request =>
      rw [ReconnectWorld.step]
      cases world.requests request with
      | some phase => exact h
      | none => exact h.move trivial
  | request request threadStarts =>
      rw [ReconnectWorld.step]
      cases hphase : world.requests request with
      | some phase => exact h.proceed threadStarts (h.requests request phase hphase)
      | none => exact h
  | reopen request outcome =>
      rw [ReconnectWorld.step]
      cases world.reopens request with
      | some phase => exact h.proceedReopen request phase outcome
      | none => exact h

theorem coherent_boot (outcome : OpenOutcome) : (boot outcome).Coherent := by
  have hempty : (boot .raised).Coherent :=
    ⟨fun _ _ hget => absurd hget (by simp [boot]), fun _ _ => List.not_mem_nil,
      fun _ _ hmem => absurd hmem List.not_mem_nil, fun _ _ hphase =>
        absurd hphase (by simp [boot]), fun _ _ hphase => absurd hphase (by simp [boot]),
      .nil, fun _ hlast => absurd hlast (by simp [boot]),
        fun _ hhandle => absurd hhandle List.not_mem_nil⟩
  cases outcome with
  | raised => exact hempty
  | returned landed failed =>
      exact (hempty.addHandle landed failed).setInstalled (some 0)

theorem Coherent.after (h : world.Coherent) (turns : List LedgerTurn) :
    (world.after settings turns).Coherent := by
  induction turns generalizing world with
  | nil => exact h
  | cons turn turns ih => exact ih (h.step turn)

end ReconnectWorld

end Quorum
