import Mathlib.Data.NNRat.Defs
import Mathlib.Data.Rat.Defs
import Mathlib.Tactic

/-! The fetch of the model catalog (`catalog_fetcher.OpenRouterCatalogFetcher.list_models`) by any
number of callers: who fetches, who waits for which event, and what each of them returns. A waiter
that is not served becomes a fetcher whatever else goes on; where it does so only when the test of
the first block sends it there too, one fetch at a time serves them all. -/

namespace Quorum

/-! ### Calls -/

/-- Where a call stands. An event is named by the order in which the events were made. -/
inductive CallPhase (α : Type*)
  | idle
  | waiting (event : ℕ) (since : ℚ)
  | woken (event : ℕ)
  | fallen (event : ℕ)
  | fetching (event : ℕ)
  | finishing (event : ℕ) (fetched : Option (List α))
  | returned (entries : List α)
  | raised
deriving DecidableEq

/-- The fetcher and its calls. `published` remembers what the fetch of an event published; nothing
reads it. -/
structure CatalogState (ι α : Type*) where
  clock : ℚ
  cacheEntries : Option (List α)
  cacheExpiresAt : ℚ
  refreshEvent : Option ℕ
  isSet : ℕ → Bool
  eventCount : ℕ
  phase : ι → CallPhase α
  published : ℕ → Option (List α × ℚ)

/-- `cache_ttl_seconds`, and how long a call waits. -/
structure CatalogTimes where
  cacheTtlSeconds : ℚ
  waitSeconds : ℚ

inductive CatalogMove (ι α : Type*)
  | enter (call : ι)
  | wake (call : ι)
  | timeOut (call : ι)
  | recheck (call : ι)
  | takeOver (call : ι)
  | fetched (call : ι) (entries : List α)
  | failed (call : ι)
  | finish (call : ι)
  | pass (seconds : ℚ≥0)

namespace CatalogState

variable {ι α : Type*} [DecidableEq ι]

def start : CatalogState ι α :=
  { clock := 0
    cacheEntries := none
    cacheExpiresAt := 0
    refreshEvent := none
    isSet := fun _ => false
    eventCount := 0
    phase := fun _ => .idle
    published := fun _ => none }

/-- `_cache_valid`. -/
def CacheValid (s : CatalogState ι α) : Prop := s.cacheEntries.isSome ∧ s.clock < s.cacheExpiresAt

instance (s : CatalogState ι α) : Decidable s.CacheValid := inferInstanceAs (Decidable (_ ∧ _))

def setPhase (s : CatalogState ι α) (call : ι) (phase : CallPhase α) : CatalogState ι α :=
  { s with phase := Function.update s.phase call phase }

/-- The call makes an event and fetches. -/
def becomeFetcher (s : CatalogState ι α) (call : ι) : CatalogState ι α :=
  { s.setPhase call (.fetching s.eventCount) with
    refreshEvent := some s.eventCount
    eventCount := s.eventCount + 1 }

/-- The first block of `list_models`. -/
def enter (s : CatalogState ι α) (call : ι) : CatalogState ι α :=
  if s.CacheValid then s.setPhase call (.returned (s.cacheEntries.getD []))
  else
    match s.refreshEvent with
    | none => s.becomeFetcher call
    | some event => s.setPhase call (.waiting event s.clock)

/-- The block after the wait. -/
def recheck (s : CatalogState ι α) (call : ι) (event : ℕ) : CatalogState ι α :=
  if s.CacheValid then s.setPhase call (.returned (s.cacheEntries.getD []))
  else s.setPhase call (.fallen event)

/-- The fetch is over; no entries are a failure. -/
def publish (t : CatalogTimes) (s : CatalogState ι α) (call : ι) (event : ℕ) (entries : List α) :
    CatalogState ι α :=
  if entries = [] then s.setPhase call (.finishing event none)
  else
    { s.setPhase call (.finishing event (some entries)) with
      cacheEntries := some entries
      cacheExpiresAt := s.clock + t.cacheTtlSeconds
      published := Function.update s.published event (some (entries, s.clock + t.cacheTtlSeconds)) }

/-- What a call ends with. -/
def outcome : Option (List α) → CallPhase α
  | some entries => .returned entries
  | none => .raised

/-- The `finally` block: whatever event is current is set and dropped. -/
def finish (s : CatalogState ι α) (call : ι) (fetched : Option (List α)) : CatalogState ι α :=
  match s.refreshEvent with
  | some event =>
      { s.setPhase call (outcome fetched) with
        isSet := Function.update s.isSet event true
        refreshEvent := none }
  | none => s.setPhase call (outcome fetched)

/-- A move: where the call stands before it, and what it makes of the state. -/
inductive Step (t : CatalogTimes) (s : CatalogState ι α) : CatalogMove ι α → CatalogState ι α → Prop
  | enter {call} (hphase : s.phase call = .idle) : Step t s (.enter call) (s.enter call)
  | wake {call event since} (hphase : s.phase call = .waiting event since)
      (hset : s.isSet event = true) :
      Step t s (.wake call) (s.setPhase call (.woken event))
  | timeOut {call event since} (hphase : s.phase call = .waiting event since)
      (hlate : since + t.waitSeconds ≤ s.clock) : Step t s (.timeOut call)
        (s.setPhase call (.woken event))
  | recheck {call event} (hphase : s.phase call = .woken event) : Step t s (.recheck call)
      (s.recheck call event)
  | takeOver {call event} (hphase : s.phase call = .fallen event) : Step t s (.takeOver call)
      (s.becomeFetcher call)
  | fetched {call event entries} (hphase : s.phase call = .fetching event) :
      Step t s (.fetched call entries) (publish t s call event entries)
  | failed {call event} (hphase : s.phase call = .fetching event) :
      Step t s (.failed call) (s.setPhase call (.finishing event none))
  | finish {call event fetched} (hphase : s.phase call = .finishing event fetched) :
      Step t s (.finish call) (s.finish call fetched)
  | pass (seconds : ℚ≥0) : Step t s (.pass seconds) { s with clock := s.clock + seconds }

/-- The call is in its fetch, from its event on to its end. -/
def InFlight (s : CatalogState ι α) (call : ι) (event : ℕ) : Prop :=
  s.phase call = .fetching event ∨ ∃ fetched, s.phase call = .finishing event fetched

/-- The call waits for an event, or has waited for it and not looked at the cache yet. -/
def Awaits (s : CatalogState ι α) (call : ι) (event : ℕ) : Prop :=
  (∃ since, s.phase call = .waiting event since) ∨ s.phase call = .woken event

/-- A move that keeps the calls in order: a waiter that is not served passes the test of the first
block before it fetches (nothing valid is cached and no event is current), and a waiter of a fetch
that has published looks at the cache before that has expired. -/
def Orderly (s : CatalogState ι α) : CatalogMove ι α → Prop
  | .takeOver _ => ¬ s.CacheValid ∧ s.refreshEvent = none
  | .recheck call => ∀ event entries expiresAt, s.phase call = .woken event →
      s.published event = some (entries, expiresAt) → s.clock < expiresAt
  | _ => True

/-- Moves one after the other. -/
inductive Run (t : CatalogTimes) : CatalogState ι α → List (CatalogMove ι α) →
    CatalogState ι α → Prop
  | nil (s : CatalogState ι α) : Run t s [] s
  | cons {s s' s'' : CatalogState ι α} {move : CatalogMove ι α} {moves : List (CatalogMove ι α)}
      (hstep : Step t s move s') (hrest : Run t s' moves s'') : Run t s (move :: moves) s''

/-- Moves one after the other that keep the calls in order. -/
inductive OrderlyRun (t : CatalogTimes) : CatalogState ι α → List (CatalogMove ι α) →
    CatalogState ι α → Prop
  | nil (s : CatalogState ι α) : OrderlyRun t s [] s
  | cons {s s' s'' : CatalogState ι α} {move : CatalogMove ι α} {moves : List (CatalogMove ι α)}
      (hstep : Step t s move s') (horder : s.Orderly move) (hrest : OrderlyRun t s' moves s'') :
      OrderlyRun t s (move :: moves) s''

/-! ### Phases -/

section
variable {s : CatalogState ι α} {call other : ι} {event own : ℕ} {phase : CallPhase α}

@[simp] theorem phase_setPhase (s : CatalogState ι α) (call : ι) (phase : CallPhase α) :
    (s.setPhase call phase).phase = Function.update s.phase call phase := rfl

theorem phase_same (s : CatalogState ι α) (call : ι) (phase : CallPhase α) :
    (s.setPhase call phase).phase call = phase := Function.update_self _ _ _

theorem phase_other (h : other ≠ call) (s : CatalogState ι α) (phase : CallPhase α) :
    (s.setPhase call phase).phase other = s.phase other := Function.update_of_ne h _ _

/-- A phase outside a fetch. -/
def Quiet (phase : CallPhase α) : Prop :=
  (∀ event, phase ≠ .fetching event) ∧ ∀ event fetched, phase ≠ .finishing event fetched

theorem quiet_outcome (fetched : Option (List α)) : Quiet (outcome fetched) := by
  cases fetched <;> exact ⟨nofun, nofun⟩

omit [DecidableEq ι] in
theorem not_inFlight_of_quiet (h : Quiet (s.phase call)) : ¬ s.InFlight call event := by
  rintro (hfetching | ⟨fetched, hfinishing⟩)
  · exact h.1 event hfetching
  · exact h.2 event fetched hfinishing

/-- A call that is in its fetch after another one's change of phase was so before it. -/
theorem inFlight_setPhase_iff (h : other ≠ call) :
    (s.setPhase call phase).InFlight other event ↔ s.InFlight other event := by
  rw [InFlight, InFlight, phase_other h]

theorem inFlight_setPhase_quiet (h : Quiet phase) :
    (s.setPhase call phase).InFlight other event ↔ other ≠ call ∧ s.InFlight other event := by
  by_cases heq : other = call
  · subst heq
    refine iff_of_false (not_inFlight_of_quiet ?_) fun hflight => hflight.1 rfl
    rwa [phase_same]
  · rw [inFlight_setPhase_iff heq, and_iff_right heq]

end

/-! ### What the moves keep -/

/-- What the moves keep when they keep the calls in order: the current event is that of the one call
in its fetch, all other events are set, and what was published last is cached until it expires. -/
structure FlightWell (s : CatalogState ι α) : Prop where
  owner : ∀ call event, s.InFlight call event → s.refreshEvent = some event
  alone : ∀ call other event event', s.InFlight call event → s.InFlight other event' → call = other
  flown : ∀ event, s.refreshEvent = some event → ∃ call, s.InFlight call event
  made : ∀ event, s.refreshEvent = some event → event < s.eventCount
  unset : ∀ event, event < s.eventCount → s.isSet event = false → s.refreshEvent = some event
  known : ∀ call event since, s.phase call = .waiting event since → event < s.eventCount
  held : ∀ event entries expiresAt, s.published event = some (entries, expiresAt) →
    event < s.eventCount
    ∧ (s.clock < expiresAt → s.cacheEntries = some entries ∧ s.cacheExpiresAt = expiresAt)
  expired : ∀ call event, s.phase call = .fetching event → s.published event = none
    ∧ ∀ earlier entries expiresAt, s.published earlier = some (entries, expiresAt) →
        expiresAt ≤ s.clock

section
variable {t : CatalogTimes} {s s' : CatalogState ι α} {call : ι} {event : ℕ} {phase : CallPhase α}

omit [DecidableEq ι] in
theorem flightWell_start : FlightWell (start : CatalogState ι α) where
  owner call event h := by
    rcases h with h | ⟨_, h⟩ <;> exact nomatch h
  alone call other event event' h := by
    rcases h with h | ⟨_, h⟩ <;> exact nomatch h
  flown := nofun
  made := nofun
  unset event h := absurd h (Nat.not_lt_zero _)
  known := nofun
  held := nofun
  expired := nofun

omit [DecidableEq ι] in
/-- A published catalogue is in the cache as long as it is valid. -/
theorem FlightWell.cacheValid (h : FlightWell s) {entries : List α} {expiresAt : ℚ}
    (hpublished : s.published event = some (entries, expiresAt)) (hfresh : s.clock < expiresAt) :
    s.CacheValid ∧ s.cacheEntries.getD [] = entries := by
  obtain ⟨hentries, hexpires⟩ := (h.held event entries expiresAt hpublished).2 hfresh
  refine ⟨⟨?_, ?_⟩, ?_⟩
  · rw [hentries]
    rfl
  · rwa [hexpires]
  · rw [hentries]
    rfl

omit [DecidableEq ι] in
/-- Without a valid cache everything that was published has expired. -/
theorem FlightWell.all_expired (h : FlightWell s) (hcache : ¬ s.CacheValid) :
    ∀ earlier entries expiresAt, s.published earlier = some (entries, expiresAt) →
      expiresAt ≤ s.clock := by
  intro earlier entries expiresAt hpublished
  by_contra hfresh
  exact hcache (h.cacheValid hpublished (lt_of_not_ge hfresh)).1

/-- A call outside its fetch that stays outside. -/
theorem FlightWell.quiet (h : FlightWell s) (hbefore : Quiet (s.phase call)) (hafter : Quiet phase)
    (hknown : ∀ event since, phase = .waiting event since → event < s.eventCount) :
    FlightWell (s.setPhase call phase) := by
  have hflight : ∀ other event, (s.setPhase call phase).InFlight other event
      ↔ s.InFlight other event := by
    intro other event
    rw [inFlight_setPhase_quiet hafter]
    refine and_iff_right_of_imp fun hother heq => ?_
    exact not_inFlight_of_quiet hbefore (heq ▸ hother)
  refine ⟨?_, ?_, ?_, h.made, h.unset, ?_, h.held, ?_⟩
  · exact fun other event hother => h.owner other event ((hflight other event).mp hother)
  · exact fun one other event event' hone hother =>
      h.alone one other event event' ((hflight one event).mp hone)
        ((hflight other event').mp hother)
  · intro event hcurrent
    obtain ⟨other, hother⟩ := h.flown event hcurrent
    exact ⟨other, (hflight other event).mpr hother⟩
  · intro other event since hother
    by_cases heq : other = call
    · subst heq
      rw [phase_same] at hother
      exact hknown event since hother
    · rw [phase_other heq] at hother
      exact h.known other event since hother
  · intro other event hother
    by_cases heq : other = call
    · subst heq
      rw [phase_same] at hother
      exact absurd hother (hafter.1 event)
    · rw [phase_other heq] at hother
      exact h.expired other event hother

omit [DecidableEq ι] in
/-- Without a current event no call is in its fetch. -/
theorem FlightWell.grounded (h : FlightWell s) (hcurrent : s.refreshEvent = none) (other : ι)
    (event : ℕ) :
    ¬ s.InFlight other event := by
  intro hother
  exact absurd (hcurrent.symm.trans (h.owner other event hother)) nofun

/-- A call that becomes the fetcher when nothing is cached and no event is current. -/
theorem FlightWell.becomeFetcher (h : FlightWell s) (hcache : ¬ s.CacheValid)
    (hcurrent : s.refreshEvent = none) :
    FlightWell (s.becomeFetcher call) := by
  have hnone := h.grounded hcurrent
  have hphase : ∀ other, (s.becomeFetcher call).phase other
      = if other = call then .fetching s.eventCount else s.phase other := by
    intro other
    exact Function.update_apply _ _ _ _
  have hflight : ∀ other event, (s.becomeFetcher call).InFlight other event → other = call
      ∧ event = s.eventCount := by
    intro other event hother
    rw [InFlight, hphase] at hother
    by_cases heq : other = call
    · rw [if_pos heq] at hother
      rcases hother with hother | ⟨_, hother⟩
      · exact ⟨heq, (CallPhase.fetching.inj hother).symm⟩
      · exact nomatch hother
    · rw [if_neg heq] at hother
      exact absurd hother (hnone other event)
  have hself : (s.becomeFetcher call).InFlight call s.eventCount := by
    rw [InFlight, hphase, if_pos rfl]
    exact Or.inl rfl
  refine ⟨?_, ?_, ?_, ?_, ?_, ?_, ?_, ?_⟩
  · intro other event hother
    obtain ⟨-, rfl⟩ := hflight other event hother
    rfl
  · intro one other event event' hone hother
    exact (hflight one event hone).1.trans (hflight other event' hother).1.symm
  · intro event hevent
    obtain rfl := Option.some.inj hevent
    exact ⟨call, hself⟩
  · intro event hevent
    obtain rfl := Option.some.inj hevent
    exact Nat.lt_succ_self _
  · intro event hlt hset
    rcases Nat.lt_succ_iff_lt_or_eq.mp hlt with hold | rfl
    · have hunset := h.unset event hold hset
      rw [hcurrent] at hunset
      exact nomatch hunset
    · rfl
  · intro other event since hother
    rw [hphase] at hother
    split_ifs at hother
    exact (h.known other event since hother).trans (Nat.lt_succ_self _)
  · intro event entries expiresAt hpublished
    obtain ⟨hlt, hheld⟩ := h.held event entries expiresAt hpublished
    exact ⟨hlt.trans (Nat.lt_succ_self _), hheld⟩
  · intro other event hother
    obtain ⟨-, rfl⟩ := hflight other event (Or.inl hother)
    refine ⟨?_, h.all_expired hcache⟩
    cases hpublished : s.published s.eventCount with
    | none => exact hpublished
    | some publication =>
        exact absurd (h.held _ publication.1 publication.2 hpublished).1 (Nat.lt_irrefl _)

/-- A call whose fetch is over, before what it publishes. -/
theorem FlightWell.finishing (h : FlightWell s) (hphase : s.phase call = .fetching event)
    (fetched : Option (List α)) : FlightWell (s.setPhase call (.finishing event fetched)) := by
  have hself : s.InFlight call event := Or.inl hphase
  have hflight : ∀ other event', (s.setPhase call (.finishing event fetched)).InFlight other event'
      ↔ s.InFlight other event' := by
    intro other event'
    by_cases heq : other = call
    · subst heq
      rw [InFlight, phase_same]
      constructor
      · rintro (hother | ⟨_, hother⟩)
        · exact nomatch hother
        · obtain ⟨rfl, -⟩ := CallPhase.finishing.inj hother
          exact hself
      · intro hother
        obtain rfl := Option.some.inj ((h.owner _ _ hself).symm.trans (h.owner _ _ hother))
        exact Or.inr ⟨fetched, rfl⟩
    · exact inFlight_setPhase_iff heq
  refine ⟨?_, ?_, ?_, h.made, h.unset, ?_, h.held, ?_⟩
  · exact fun other event' hother => h.owner other event' ((hflight other event').mp hother)
  · exact fun one other event₁ event₂ hone hother =>
      h.alone one other event₁ event₂ ((hflight one event₁).mp hone)
        ((hflight other event₂).mp hother)
  · intro event' hcurrent
    obtain ⟨other, hother⟩ := h.flown event' hcurrent
    exact ⟨other, (hflight other event').mpr hother⟩
  · intro other event' since hother
    by_cases heq : other = call
    · subst heq
      rw [phase_same] at hother
      exact nomatch hother
    · rw [phase_other heq] at hother
      exact h.known other event' since hother
  · intro other event' hother
    by_cases heq : other = call
    · subst heq
      rw [phase_same] at hother
      exact nomatch hother
    · rw [phase_other heq] at hother
      exact h.expired other event' hother

/-- A catalogue that a fetch publishes. -/
theorem FlightWell.publish (h : FlightWell s) (hphase : s.phase call = .fetching event)
    (entries : List α) :
    FlightWell (publish t s call event entries) := by
  rw [CatalogState.publish]
  split_ifs with hempty
  · exact h.finishing hphase none
  · have hwell := h.finishing hphase (some entries)
    have hself : s.InFlight call event := Or.inl hphase
    refine ⟨hwell.owner, hwell.alone, hwell.flown, hwell.made, hwell.unset, hwell.known, ?_, ?_⟩
    · intro earlier published expiresAt hpublished
      change Function.update s.published event (some (entries, s.clock + t.cacheTtlSeconds)) earlier
        = some (published, expiresAt) at hpublished
      change earlier < s.eventCount ∧ (s.clock < expiresAt →
        some entries = some published ∧ s.clock + t.cacheTtlSeconds = expiresAt)
      rw [Function.update_apply] at hpublished
      split_ifs at hpublished with heq
      · obtain ⟨rfl, rfl⟩ := Prod.mk.inj (Option.some.inj hpublished)
        exact ⟨heq ▸ h.made event (h.owner call event hself), fun _ => ⟨rfl, rfl⟩⟩
      · refine ⟨(h.held earlier published expiresAt hpublished).1, fun hfresh => ?_⟩
        exact absurd hfresh
          (not_lt_of_ge ((h.expired call event hphase).2 earlier published expiresAt hpublished))
    · intro other event' hother
      change (s.setPhase call (.finishing event (some entries))).phase other
        = .fetching event' at hother
      by_cases heq : other = call
      · subst heq
        rw [phase_same] at hother
        exact nomatch hother
      · rw [phase_other heq] at hother
        exact absurd (h.alone other call event' event (Or.inl hother) hself) heq

/-- The end of a fetch sets its own event, and drops it. -/
theorem FlightWell.finish_eq (h : FlightWell s) {fetched : Option (List α)}
    (hphase : s.phase call = .finishing event fetched) :
    s.finish call fetched
      = { s.setPhase call (outcome fetched) with
          isSet := Function.update s.isSet event true
          refreshEvent := none } := by
  rw [CatalogState.finish, h.owner call event (Or.inr ⟨fetched, hphase⟩)]

theorem FlightWell.finish (h : FlightWell s) {fetched : Option (List α)}
    (hphase : s.phase call = .finishing event fetched) : FlightWell (s.finish call fetched) := by
  have hself : s.InFlight call event := Or.inr ⟨fetched, hphase⟩
  have hcurrent := h.owner call event hself
  have hnone : ∀ other event', ¬ (s.setPhase call (outcome fetched)).InFlight other event' := by
    intro other event' hother
    obtain ⟨hne, hother⟩ := (inFlight_setPhase_quiet (quiet_outcome fetched)).mp hother
    exact hne (h.alone other call event' event hother hself)
  rw [h.finish_eq hphase]
  refine ⟨?_, ?_, nofun, nofun, ?_, ?_, h.held, ?_⟩
  · exact fun other event' hother => absurd hother (hnone other event')
  · exact fun one other event₁ event₂ hone => absurd hone (hnone one event₁)
  · intro event' hlt hset
    change Function.update s.isSet event true event' = false at hset
    rw [Function.update_apply] at hset
    split_ifs at hset with heq
    exact absurd (Option.some.inj (hcurrent.symm.trans (h.unset event' hlt hset))).symm heq
  · intro other event' since hother
    change (s.setPhase call (outcome fetched)).phase other = .waiting event' since at hother
    by_cases heq : other = call
    · subst heq
      rw [phase_same] at hother
      cases fetched <;> exact nomatch hother
    · rw [phase_other heq] at hother
      exact h.known other event' since hother
  · exact fun other event' hother => absurd (Or.inl hother) (hnone other event')

omit [DecidableEq ι] in
theorem FlightWell.pass (h : FlightWell s) (seconds : ℚ≥0) :
    FlightWell { s with clock := s.clock + seconds } := by
  have hlater : s.clock ≤ s.clock + seconds := le_add_of_nonneg_right (NNRat.coe_nonneg seconds)
  refine ⟨h.owner, h.alone, h.flown, h.made, h.unset, h.known, ?_, ?_⟩
  · intro event entries expiresAt hpublished
    obtain ⟨hlt, hheld⟩ := h.held event entries expiresAt hpublished
    exact ⟨hlt, fun hfresh => hheld (lt_of_le_of_lt hlater hfresh)⟩
  · intro call event hphase
    obtain ⟨hnone, hexpired⟩ := h.expired call event hphase
    exact ⟨hnone, fun earlier entries expiresAt hpublished =>
      (hexpired earlier entries expiresAt hpublished).trans hlater⟩

/-- A call that comes in: a valid cache is returned, a current event is waited for, and without one
the call fetches. -/
theorem FlightWell.enter (h : FlightWell s) (hphase : s.phase call = .idle) :
    FlightWell (s.enter call) := by
  have hbefore : Quiet (s.phase call) := by
    rw [hphase]
    exact ⟨nofun, nofun⟩
  rw [CatalogState.enter]
  split_ifs with hcache
  · exact h.quiet hbefore ⟨nofun, nofun⟩ nofun
  · cases hcurrent : s.refreshEvent with
    | none =>
        exact h.becomeFetcher hcache hcurrent
    | some event =>
        refine h.quiet hbefore ⟨nofun, nofun⟩ fun event' since heq => ?_
        obtain ⟨rfl, -⟩ := CallPhase.waiting.inj heq
        exact h.made event hcurrent

theorem FlightWell.recheck (h : FlightWell s) (hphase : s.phase call = .woken event) :
    FlightWell (s.recheck call event) := by
  have hbefore : Quiet (s.phase call) := by
    rw [hphase]
    exact ⟨nofun, nofun⟩
  rw [CatalogState.recheck]
  split_ifs
  · exact h.quiet hbefore ⟨nofun, nofun⟩ nofun
  · exact h.quiet hbefore ⟨nofun, nofun⟩ nofun

/-- A move that keeps the calls in order keeps one fetch at a time. -/
theorem FlightWell.step (h : FlightWell s) {move : CatalogMove ι α} (hstep : Step t s move s')
    (horder : s.Orderly move) : FlightWell s' := by
  cases hstep with
  | enter hphase => exact h.enter hphase
  | wake hphase _ => exact h.quiet (by rw [hphase]; exact ⟨nofun, nofun⟩) ⟨nofun, nofun⟩ nofun
  | timeOut hphase _ => exact h.quiet (by rw [hphase]; exact ⟨nofun, nofun⟩) ⟨nofun, nofun⟩ nofun
  | recheck hphase => exact h.recheck hphase
  | takeOver _ => exact h.becomeFetcher horder.1 horder.2
  | fetched hphase => exact h.publish hphase _
  | failed hphase => exact h.finishing hphase none
  | finish hphase => exact h.finish hphase
  | pass seconds => exact h.pass seconds

theorem FlightWell.run (h : FlightWell s) {moves : List (CatalogMove ι α)}
    (hrun : OrderlyRun t s moves s') : FlightWell s' := by
  induction hrun with
  | nil => exact h
  | cons hstep horder _ ih => exact ih (h.step hstep horder)

/-! ### Who is served -/

theorem phase_becomeFetcher_of_ne {w : ι} (h : w ≠ call) :
    (s.becomeFetcher call).phase w = s.phase w :=
  phase_other h s _

theorem phase_enter_of_ne {w : ι} (h : w ≠ call) : (s.enter call).phase w = s.phase w := by
  rw [enter]
  split_ifs
  · exact phase_other h s _
  · split
    · exact phase_becomeFetcher_of_ne h
    · exact phase_other h s _

theorem phase_recheck_of_ne {w : ι} (h : w ≠ call) :
    (s.recheck call event).phase w = s.phase w := by
  rw [recheck]
  split_ifs
  · exact phase_other h s _
  · exact phase_other h s _

theorem phase_publish_of_ne {w : ι} (h : w ≠ call) {entries : List α} :
    (publish t s call event entries).phase w = s.phase w := by
  rw [publish]
  split_ifs
  · exact phase_other h s _
  · exact phase_other h s _

theorem phase_finish_of_ne {w : ι} (h : w ≠ call) {fetched : Option (List α)} :
    (s.finish call fetched).phase w = s.phase w := by
  rw [finish]
  split
  · exact phase_other h s _
  · exact phase_other h s _

/-- What is published for an event stays. -/
theorem FlightWell.published_step (h : FlightWell s) {move : CatalogMove ι α}
    (hstep : Step t s move s') {publication : List α × ℚ}
    (hpublished : s.published event = some publication) :
    s'.published event = some publication := by
  cases hstep with
  | wake | timeOut | takeOver | failed | pass => exact hpublished
  | enter =>
      rw [CatalogState.enter]
      split_ifs
      · exact hpublished
      · split <;> exact hpublished
  | recheck =>
      rw [CatalogState.recheck]
      split_ifs <;> exact hpublished
  | @fetched call own entries hphase =>
      have hne : event ≠ own := by
        rintro rfl
        exact nomatch (h.expired call event hphase).1.symm.trans hpublished
      rw [CatalogState.publish]
      split_ifs
      · exact hpublished
      · exact (Function.update_of_ne hne _ _).trans hpublished
  | finish =>
      rw [CatalogState.finish]
      split <;> exact hpublished

/-- A call that awaits an event whose fetch has published goes on so, or returns what was
published. -/
theorem FlightWell.awaits_step (h : FlightWell s) {move : CatalogMove ι α}
    (hstep : Step t s move s') (horder : s.Orderly move) {w : ι} {entries : List α} {expiresAt : ℚ}
    (hpublished : s.published event = some (entries, expiresAt)) (hw : s.Awaits w event) :
    s'.Awaits w event ∨ s'.phase w = .returned entries := by
  have hkept : s'.phase w = s.phase w → s'.Awaits w event := by
    intro hsame
    rw [Awaits, hsame]
    exact hw
  have hnot : ∀ {phase : CallPhase α}, s.phase w = phase → (∀ since, phase ≠ .waiting event since) →
      phase ≠ .woken event → s'.Awaits w event ∨ s'.phase w = .returned entries := by
    rintro _ rfl hwaiting hwoken
    rcases hw with ⟨since, hw⟩ | hw
    · exact absurd hw (hwaiting since)
    · exact absurd hw hwoken
  cases hstep with
  | @enter call hphase =>
      by_cases heq : w = call
      · subst heq
        exact hnot hphase nofun nofun
      · exact Or.inl (hkept (phase_enter_of_ne heq))
  | @wake call other since hphase _ =>
      by_cases heq : w = call
      · subst heq
        rcases hw with ⟨since', hw⟩ | hw
        · obtain ⟨rfl, -⟩ := CallPhase.waiting.inj (hphase.symm.trans hw)
          exact Or.inl (Or.inr (phase_same s w _))
        · exact nomatch hphase.symm.trans hw
      · exact Or.inl (hkept (phase_other heq s _))
  | @timeOut call other since hphase _ =>
      by_cases heq : w = call
      · subst heq
        rcases hw with ⟨since', hw⟩ | hw
        · obtain ⟨rfl, -⟩ := CallPhase.waiting.inj (hphase.symm.trans hw)
          exact Or.inl (Or.inr (phase_same s w _))
        · exact nomatch hphase.symm.trans hw
      · exact Or.inl (hkept (phase_other heq s _))
  | @recheck call other hphase =>
      by_cases heq : w = call
      · subst heq
        rcases hw with ⟨since', hw⟩ | hw
        · exact nomatch hphase.symm.trans hw
        · obtain ⟨hcache, hentries⟩ :=
            h.cacheValid hpublished (horder event entries expiresAt hw hpublished)
          rw [CatalogState.recheck, if_pos hcache, hentries]
          exact Or.inr (phase_same s w _)
      · exact Or.inl (hkept (phase_recheck_of_ne heq))
  | @takeOver call other hphase =>
      by_cases heq : w = call
      · subst heq
        exact hnot hphase nofun nofun
      · exact Or.inl (hkept (phase_becomeFetcher_of_ne heq))
  | @fetched call other found hphase =>
      by_cases heq : w = call
      · subst heq
        exact hnot hphase nofun nofun
      · exact Or.inl (hkept (phase_publish_of_ne heq))
  | @failed call other hphase =>
      by_cases heq : w = call
      · subst heq
        exact hnot hphase nofun nofun
      · exact Or.inl (hkept (phase_other heq s _))
  | @finish call other fetched hphase =>
      by_cases heq : w = call
      · subst heq
        exact hnot hphase nofun nofun
      · exact Or.inl (hkept (phase_finish_of_ne heq))
  | pass => exact Or.inl (hkept rfl)

/-- A call that has returned has. -/
theorem returned_step {move : CatalogMove ι α} (hstep : Step t s move s') {w : ι} {entries : List α}
    (hw : s.phase w = .returned entries) : s'.phase w = .returned entries := by
  have hne : ∀ {call : ι} {phase : CallPhase α}, s.phase call = phase → phase ≠ .returned entries →
      w ≠ call := by
    rintro call _ rfl hphase rfl
    exact hphase hw
  cases hstep with
  | enter hphase => exact (phase_enter_of_ne (hne hphase nofun)).trans hw
  | wake hphase _ => exact (phase_other (hne hphase nofun) s _).trans hw
  | timeOut hphase _ => exact (phase_other (hne hphase nofun) s _).trans hw
  | recheck hphase => exact (phase_recheck_of_ne (hne hphase nofun)).trans hw
  | takeOver hphase => exact (phase_becomeFetcher_of_ne (hne hphase nofun)).trans hw
  | fetched hphase => exact (phase_publish_of_ne (hne hphase nofun)).trans hw
  | failed hphase => exact (phase_other (hne hphase nofun) s _).trans hw
  | finish hphase => exact (phase_finish_of_ne (hne hphase nofun)).trans hw
  | pass => exact hw

theorem FlightWell.served_run (h : FlightWell s) {moves : List (CatalogMove ι α)}
    (hrun : OrderlyRun t s moves s') {w : ι} {entries : List α} {expiresAt : ℚ}
    (hpublished : s.published event = some (entries, expiresAt))
    (hw : s.Awaits w event ∨ s.phase w = .returned entries) :
    s'.Awaits w event ∨ s'.phase w = .returned entries := by
  induction hrun with
  | nil => exact hw
  | cons hstep horder _ ih =>
      refine ih (h.step hstep horder) (h.published_step hstep hpublished) ?_
      rcases hw with hw | hw
      · exact h.awaits_step hstep horder hpublished hw
      · exact Or.inr (returned_step hstep hw)

/-! ### Single flight -/

/-- One fetch at a time, each waiter's event set by the end of its fetch, and each end on its own
event. -/
structure SingleFlight (s : CatalogState ι α) : Prop where
  one : ∀ call other event event', s.InFlight call event → s.InFlight other event' → call = other
  awaited : ∀ call event since, s.phase call = .waiting event since →
    s.isSet event = true ∨ ∃ fetcher, s.InFlight fetcher event
  ownEvent : ∀ call event fetched, s.phase call = .finishing event fetched →
    (s.finish call fetched).isSet = Function.update s.isSet event true ∧ s.refreshEvent = some event
  served : ∀ call event entries expiresAt, s.phase call = .woken event →
    s.published event = some (entries, expiresAt) → s.clock < expiresAt →
      (s.recheck call event).phase call = .returned entries

theorem FlightWell.singleFlight (h : FlightWell s) : SingleFlight s where
  one := h.alone
  awaited call event since hphase := by
    cases hset : s.isSet event with
    | true => exact Or.inl rfl
    | false => exact Or.inr (h.flown event (h.unset event (h.known call event since hphase) hset))
  ownEvent call event fetched hphase := by
    refine ⟨?_, h.owner call event (Or.inr ⟨fetched, hphase⟩)⟩
    rw [h.finish_eq hphase]
  served call event entries expiresAt hphase hpublished hfresh := by
    obtain ⟨hcache, hentries⟩ := h.cacheValid hpublished hfresh
    rw [CatalogState.recheck, if_pos hcache, hentries]
    exact phase_same s call _

/-- In every run whose moves keep the calls in order there is one flight at a time, and whoever
awaits a fetch that has published goes on awaiting it until it returns what was published. -/
theorem listModels_singleFlight {earlier later : List (CatalogMove ι α)}
    (hearlier : OrderlyRun t start earlier s) (hlater : OrderlyRun t s later s') :
    SingleFlight s ∧ ∀ call event entries expiresAt, s.published event = some (entries, expiresAt) →
      s.Awaits call event → s'.Awaits call event ∨ s'.phase call = .returned entries := by
  have hwell := flightWell_start.run hearlier
  exact ⟨hwell.singleFlight, fun call event entries expiresAt hpublished hw =>
    hwell.served_run hlater hpublished (Or.inl hw)⟩

end

/-! ### Two runs -/

def sampleTimes : CatalogTimes := { cacheTtlSeconds := 21600, waitSeconds := 9 }

/-- A call fetches while another one waits, and publishes. -/
def servedEarlier : List (CatalogMove ℕ ℕ) := [.enter 0, .enter 1, .fetched 0 [7]]

/-- The fetch ends, and the waiter looks at the cache. -/
def servedLater : List (CatalogMove ℕ ℕ) := [.finish 0, .wake 1, .recheck 1]

theorem servedRuns :
    ∃ s s' : CatalogState ℕ ℕ, OrderlyRun sampleTimes start servedEarlier s
      ∧ OrderlyRun sampleTimes s servedLater s'
      ∧ s.Awaits 1 0 ∧ s.published 0 = some ([7], 0 + 21600) := by
  refine ⟨_, _,
    .cons (.enter rfl) trivial (.cons (.enter rfl) trivial (.cons (.fetched rfl) trivial (.nil _))),
    .cons (.finish rfl) trivial (.cons (.wake rfl rfl) trivial (.cons (.recheck rfl) ?_ (.nil _))),
    Or.inl ⟨_, rfl⟩, rfl⟩
  intro event entries expiresAt hphase hpublished
  obtain rfl := CallPhase.woken.inj hphase
  obtain ⟨-, rfl⟩ := Prod.mk.inj (Option.some.inj hpublished)
  change (0 : ℚ) < 0 + 21600
  norm_num

/-- The waiter returns what the other call has fetched. -/
theorem listModels_served :
    ∃ s s' : CatalogState ℕ ℕ, OrderlyRun sampleTimes start servedEarlier s
      ∧ OrderlyRun sampleTimes s servedLater s'
      ∧ s.SingleFlight ∧ s.Awaits 1 0 ∧ (s'.Awaits 1 0 ∨ s'.phase 1 = .returned [7]) := by
  obtain ⟨s, s', hearlier, hlater, hawaits, hpublished⟩ := servedRuns
  obtain ⟨hflight, hserved⟩ := listModels_singleFlight hearlier hlater
  exact ⟨s, s', hearlier, hlater, hflight, hawaits, hserved 1 0 [7] _ hpublished hawaits⟩

/-- A call fetches while two others wait, and fails; both of them are woken and fetch. -/
def fallenMoves : List (CatalogMove ℕ ℕ) :=
  [.enter 0, .enter 1, .enter 2, .failed 0, .finish 0, .wake 1, .wake 2, .recheck 1,
    .recheck 2, .takeOver 1,
    .takeOver 2]

/-- Without any time-out two calls are in their fetches, and the end of the one is on the event of
the other. -/
theorem listModels_two_fetches :
    ∃ s : CatalogState ℕ ℕ, Run sampleTimes start fallenMoves s
      ∧ (∀ call, .timeOut call ∉ fallenMoves)
      ∧ s.InFlight 1 1 ∧ s.InFlight 2 2 ∧ s.refreshEvent = some 2 ∧ ¬ s.SingleFlight := by
  have hrun : ∃ s, Run sampleTimes start fallenMoves s ∧ s.InFlight 1 1 ∧ s.InFlight 2 2
      ∧ s.refreshEvent = some 2 :=
    ⟨_,
      .cons (.enter rfl)
        (.cons (.enter rfl) (.cons (.enter rfl) (.cons (.failed rfl) (.cons (.finish rfl)
      (.cons (.wake rfl rfl) (.cons (.wake rfl rfl) (.cons (.recheck rfl) (.cons (.recheck rfl)
        (.cons (.takeOver rfl) (.cons (.takeOver rfl) (.nil _))))))))))), Or.inl rfl,
          Or.inl rfl, rfl⟩
  obtain ⟨s, hrun, hone, hother, hcurrent⟩ := hrun
  refine ⟨s, hrun, ?_, hone, hother, hcurrent, fun hflight => ?_⟩
  · intro call hcall
    simp [fallenMoves] at hcall
  · exact absurd (hflight.one 1 2 1 2 hone hother) (by decide)

end CatalogState

end Quorum
