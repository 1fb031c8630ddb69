import Mathlib.Algebra.Order.Field.Basic
import Mathlib.Data.List.Count
import Mathlib.Tactic.Linarith
import Mathlib.Tactic.Ring

/-! Machines that grant or refuse each event, and the meter that bounds what they grant: a level
that rises no faster than a rate, stays under a cap and pays one for each grant. -/

namespace Quorum

section machines
variable {σ τ ι : Type*}

/-- Every event of a run, with the answer it got. -/
def answers (step : σ → ι → σ × Bool) : σ → List ι → List (ι × Bool)
  | _, [] => []
  | state, event :: rest => (event, (step state event).2) :: answers step (step state event).1 rest

/-- A condition that every event of a run meets in the state it finds. -/
def Finds (step : σ → ι → σ × Bool) (good : σ → ι → Prop) : σ → List ι → Prop
  | _, [] => True
  | state, event :: rest => good state event ∧ Finds step good (step state event).1 rest

instance Finds.decidable (step : σ → ι → σ × Bool) (good : σ → ι → Prop)
    [∀ state event, Decidable (good state event)] :
    ∀ state events, Decidable (Finds step good state events)
  | _, [] => .isTrue trivial
  | state, event :: rest =>
      haveI := Finds.decidable step good (step state event).1 rest
      inferInstanceAs (Decidable (good state event ∧ Finds step good (step state event).1 rest))

/-- Two machines whose states stay related answer the events they agree on alike. -/
theorem answers_filter_eq {step : σ → ι → σ × Bool} {step' : τ → ι → τ × Bool}
    {good : σ → ι → Prop} {good' : τ → ι → Prop} (ours : ι → Bool) (related : σ → τ → Prop)
    (hstep : ∀ state state' event, related state state' → good state event → good' state' event →
      related (step state event).1 (step' state' event).1
        ∧ (ours event = true → (step state event).2 = (step' state' event).2)) :
    ∀ events state state', related state state' → Finds step good state events →
      Finds step' good' state' events →
      (answers step state events).filter (fun answer => ours answer.1)
        = (answers step' state' events).filter fun answer => ours answer.1 := by
  intro events
  induction events with
  | nil => exact fun _ _ _ _ _ => rfl
  | cons event rest ih =>
      intro state state' hrelated ⟨hgood, hrest⟩ ⟨hgood', hrest'⟩
      obtain ⟨hnext, hanswer⟩ := hstep state state' event hrelated hgood hgood'
      have hlater := ih _ _ hnext hrest hrest'
      cases hours : ours event with
      | true =>
          rw [answers, answers, List.filter_cons_of_pos (by exact hours),
            List.filter_cons_of_pos (by exact hours), hlater, hanswer hours]
      | false =>
          rw [answers, answers, List.filter_cons_of_neg (by simp [hours]),
            List.filter_cons_of_neg (by simp [hours]), hlater]

end machines

section meter
variable {σ ι K : Type*} [Field K] [LinearOrder K] [IsStrictOrderedRing K]

/-- A level that a grant to us takes one from, and that nothing raises but the passing time, and
each of our events by no more than a slack. -/
structure Meter (step : σ → ι → σ × Bool) (time : ι → K) (ours : ι → Bool) (good : σ → ι → Prop)
    (cap rate slack : K) where
  level : σ → K → K
  cap_nonneg : 0 ≤ cap
  rate_nonneg : 0 ≤ rate
  slack_nonneg : 0 ≤ slack
  le_cap : ∀ state now, level state now ≤ cap
  refills : ∀ state {now later}, now ≤ later →
    level state later ≤ level state now + rate * (later - now)
  others : ∀ state event, ours event = false →
    level (step state event).1 (time event) ≤ level state (time event)
  keeps : ∀ state event, good state event → ours event = true →
    level (step state event).1 (time event) ≤ level state (time event) + slack
  charges : ∀ state event, good state event → ours event = true → (step state event).2 = true →
    0 ≤ level (step state event).1 (time event)
      ∧ level (step state event).1 (time event) + 1 ≤ level state (time event) + slack

variable {step : σ → ι → σ × Bool} {time : ι → K} {ours : ι → Bool} {good : σ → ι → Prop}
  {cap rate slack : K}

/-- How many of our events of a run are granted between two times. -/
def grantedWithin (time : ι → K) (ours : ι → Bool) (first last : K) (log : List (ι × Bool)) : Nat :=
  log.countP fun answer =>
    ours answer.1 && answer.2 && decide (first ≤ time answer.1) && decide (time answer.1 ≤ last)

/-- How many of our events stand between two times. -/
def askedWithin (time : ι → K) (ours : ι → Bool) (first last : K) (events : List ι) : Nat :=
  events.countP fun event => ours event && decide (first ≤ time event) && decide (time event ≤ last)

/-- Each event between two times meets a condition in the state it finds. -/
def FindsWithin (step : σ → ι → σ × Bool) (time : ι → K) (good : σ → ι → Prop) (first last : K) :
    σ → List ι → Prop :=
  Finds step fun state event => first ≤ time event → time event ≤ last → good state event

instance [∀ state event, Decidable (good state event)] (first last : K) (state : σ)
    (events : List ι) :
    Decidable (FindsWithin step time good first last state events) :=
  inferInstanceAs (Decidable (Finds step _ state events))

omit [Field K] [IsStrictOrderedRing K] in
/-- What comes after the interval is not granted in it. -/
theorem grantedWithin_after {first last : K} : ∀ (events : List ι) (state : σ),
    (∀ event ∈ events, last < time event) →
    grantedWithin time ours first last (answers step state events) = 0 := by
  intro events
  induction events with
  | nil => exact fun _ _ => rfl
  | cons event rest ih =>
      intro state hafter
      have hrest := ih (step state event).1 fun other hother =>
        hafter other (List.mem_cons_of_mem _ hother)
      have hhere : ¬ time event ≤ last := not_le.mpr (hafter event List.mem_cons_self)
      rw [grantedWithin, answers, List.countP_cons, ← grantedWithin, hrest,
        if_neg (by simp [hhere])]

namespace Meter

variable (m : Meter step time ours good cap rate slack)
include m

/-- From a time on, a run grants no more than the level then, what is refilled since and the slack
of its events. -/
theorem granted_le_level (first last : K) :
    ∀ (events : List ι) (state : σ) (now : K), (events.map time).Pairwise (· ≤ ·) →
      (∀ event ∈ events, now ≤ time event) →
        FindsWithin step time good first last state events → first ≤ now →
      grantedWithin time ours first last (answers step state events) = 0
        ∨ (grantedWithin time ours first last (answers step state events) : K)
            ≤ m.level state now + rate * (last - now)
                + askedWithin time ours first last events * slack := by
  intro events
  induction events with
  | nil => exact fun _ _ _ _ _ _ => Or.inl rfl
  | cons event rest ih =>
      intro state now hsorted hafter hfinds hfirst
      have hsplit := hsorted
      rw [List.map_cons, List.pairwise_cons] at hsplit
      have hnow := hafter event List.mem_cons_self
      by_cases hlast : time event ≤ last
      · have hlater := ih (step state event).1 (time event) hsplit.2
          (fun other hother => hsplit.1 _ (List.mem_map_of_mem hother)) hfinds.2 (hfirst.trans hnow)
        have hgood := hfinds.1 (hfirst.trans hnow) hlast
        have hrise := m.refills state hnow
        have hslack := m.slack_nonneg
        have hasked : (0 : K) ≤ askedWithin time ours first last rest * slack :=
          mul_nonneg (Nat.cast_nonneg _) hslack
        rw [grantedWithin, answers, List.countP_cons, ← grantedWithin, askedWithin,
          List.countP_cons, ← askedWithin]
        dsimp only
        cases hours : ours event with
        | false =>
            have hkept := m.others state event hours
            simp only [Bool.false_and, Bool.false_eq_true, if_false, Nat.add_zero]
            exact hlater.imp_right fun hsome => by linarith
        | true =>
            simp only [Bool.true_and, decide_eq_true (hfirst.trans hnow), decide_eq_true hlast,
              Bool.and_true, if_true]
            push_cast
            cases hanswer : (step state event).2 with
            | false =>
                have hkept := m.keeps state event hgood hours
                simp only [Bool.false_eq_true, if_false, add_zero]
                exact hlater.imp_right fun hsome => by linarith
            | true =>
                -- one more grant, paid for by the level
                obtain ⟨hpos, hpaid⟩ := m.charges state event hgood hours hanswer
                right
                simp only [if_true]
                rcases hlater with hnone | hsome
                · have hroom : 0 ≤ rate * (last - time event) :=
                    mul_nonneg m.rate_nonneg (sub_nonneg.mpr hlast)
                  rw [hnone]
                  push_cast
                  linarith
                · linarith
      · refine Or.inl (grantedWithin_after (event :: rest) state fun other hother => ?_)
        rcases List.mem_cons.mp hother with rfl | hlater
        · exact lt_of_not_ge hlast
        · exact (lt_of_not_ge hlast).trans_le (hsplit.1 _ (List.mem_map_of_mem hlater))

/-- Within any interval a run grants at most the cap, what is refilled over the interval, and the
slack of its events there. -/
theorem granted_le {first last : K} (hinterval : first ≤ last) :
    ∀ (events : List ι) (state : σ), (events.map time).Pairwise (· ≤ ·) →
      FindsWithin step time good first last state events →
      (grantedWithin time ours first last (answers step state events) : K)
        ≤ cap + rate * (last - first) + askedWithin time ours first last events * slack := by
  have hroom : 0 ≤ rate * (last - first) := mul_nonneg m.rate_nonneg (sub_nonneg.mpr hinterval)
  have hcap := m.cap_nonneg
  have hasked : ∀ events : List ι, (0 : K) ≤ askedWithin time ours first last events * slack :=
    fun events => mul_nonneg (Nat.cast_nonneg _) m.slack_nonneg
  intro events
  induction events with
  | nil =>
      intro state _ _
      have hnone := hasked ([] : List ι)
      rw [grantedWithin, answers, List.countP_nil]
      push_cast
      linarith
  | cons event rest ih =>
      intro state hsorted hfinds
      have hsplit := hsorted
      rw [List.map_cons, List.pairwise_cons] at hsplit
      by_cases hevent : first ≤ time event
      · have hafter : ∀ other ∈ event :: rest, first ≤ time other := by
          intro other hother
          rcases List.mem_cons.mp hother with rfl | hlater
          · exact hevent
          · exact hevent.trans (hsplit.1 _ (List.mem_map_of_mem hlater))
        have hlevel := m.le_cap state first
        have hslack := hasked (event :: rest)
        rcases m.granted_le_level first last (event :: rest) state first hsorted hafter hfinds
          (le_refl first) with hnone | hsome
        · rw [hnone]
          push_cast
          linarith
        · linarith
      · -- the event comes before the interval
        have hlater := ih (step state event).1 hsplit.2 hfinds.2
        rw [grantedWithin, answers, List.countP_cons, ← grantedWithin, if_neg (by simp [hevent]),
          askedWithin, List.countP_cons, ← askedWithin, if_neg (by simp [hevent])]
        exact hlater

end Meter

end meter

end Quorum
