import Mathlib.Data.List.Sort
import Mathlib.Tactic

/-! A sliding window over admissions. Each admission is granted while fewer than its cap were
granted to its key in the span before it; so no window of the span holds more of them than their
caps allow. In a sorted list the element that decides when the count falls under a cap is the one
that has the cap behind it. -/

namespace Window

/-- An admission that was granted. -/
structure Admission (κ : Type) where
  key : κ
  time : ℕ
  cap : ℕ

section
variable {κ : Type} [DecidableEq κ]

/-- The admissions of a key from a time on. -/
def since (key : κ) (start : ℕ) (log : List (Admission κ)) : ℕ :=
  log.countP fun admission => admission.key = key ∧ start ≤ admission.time

/-- The admissions of a key in a closed window. -/
def within (key : κ) (start span : ℕ) (log : List (Admission κ)) : ℕ :=
  log.countP fun admission => admission.key = key ∧ start ≤ admission.time
    ∧ admission.time ≤ start + span

theorem within_le_since (key : κ) (start span : ℕ) (log : List (Admission κ)) :
    within key start span log ≤ since key start log := by
  apply List.countP_mono_left
  intro admission _ h
  simp only [decide_eq_true_eq] at h ⊢
  exact ⟨h.1, h.2.1⟩

theorem since_antitone (key : κ) {start start' : ℕ} (h : start ≤ start')
    (log : List (Admission κ)) :
    since key start' log ≤ since key start log := by
  apply List.countP_mono_left
  intro admission _ hin
  simp only [decide_eq_true_eq] at hin ⊢
  exact ⟨hin.1, h.trans hin.2⟩

theorem since_concat (key : κ) (start : ℕ) (log : List (Admission κ)) (admission : Admission κ) :
    since key start (log ++ [admission])
      = since key start log + if admission.key = key ∧ start ≤ admission.time then 1 else 0 := by
  rw [since, List.countP_append, List.countP_singleton, since]
  simp only [decide_eq_true_eq]

/-- The log of the admissions that were granted, oldest first. -/
inductive Granted (span : ℕ) : List (Admission κ) → Prop
  | nil : Granted span []
  | concat {log : List (Admission κ)} (admission : Admission κ) (granted : Granted span log)
      (room : since admission.key (admission.time - span) log < admission.cap) :
      Granted span (log ++ [admission])

/-- No window holds more admissions of a key than a bound on their caps. -/
theorem Granted.within_le {span : ℕ} {log : List (Admission κ)} (h : Granted span log) (key : κ)
    (start bound : ℕ)
    (hbound : ∀ admission ∈ log,
      admission.key = key → start ≤ admission.time → admission.time ≤ start + span →
      admission.cap ≤ bound) :
    within key start span log ≤ bound := by
  induction h with
  | nil => exact Nat.zero_le _
  | @concat log admission granted room ih =>
      have hbefore := ih fun other hother => hbound other (List.mem_append_left _ hother)
      rw [within, List.countP_append, List.countP_singleton]
      by_cases hin : admission.key = key ∧ start ≤ admission.time ∧ admission.time ≤ start + span
      · rw [if_pos (decide_eq_true hin)]
        obtain ⟨rfl, hstart, hend⟩ := hin
        have hcap :=
          hbound admission (List.mem_append_right _ (List.mem_singleton_self _)) rfl hstart hend
        have hcount : within admission.key start span log
            ≤ since admission.key (admission.time - span) log :=
          calc within admission.key start span log
              ≤ since admission.key start log := within_le_since _ _ _ _
            _ ≤ since admission.key (admission.time - span) log := since_antitone _ (by omega) _
        rw [within] at hcount
        omega
      · rw [if_neg (by simpa using hin)]
        exact hbefore

end

/-! ### The element that decides -/

section
variable {α : Type} [LinearOrder α]

/-- Fewer than `cap` elements of a sorted list are at least `bound` exactly when the element with
`cap - 1` elements behind it is below the bound. -/
theorem countP_lt_iff_of_sorted {times : List α} (h : times.Pairwise (· ≤ ·)) {cap : ℕ}
    {deciding : α} (hcap : cap ≤ times.length)
    (hdeciding : times[times.length - cap]? = some deciding) (bound : α) :
    times.countP (fun time => bound ≤ time) < cap ↔ deciding < bound := by
  obtain ⟨hlt, hget⟩ := List.getElem?_eq_some_iff.mp hdeciding
  have hsplit := List.take_append_drop (times.length - cap) times
  have hdrop : times.drop (times.length - cap)
      = deciding :: times.drop (times.length - cap + 1) := by
    rw [List.drop_eq_getElem_cons hlt, hget]
  have hlength : (times.drop (times.length - cap)).length = cap := by
    rw [List.length_drop]
    omega
  rw [← hsplit, List.pairwise_append] at h
  obtain ⟨-, hlate, hearly⟩ := h
  rw [hdrop, List.pairwise_cons] at hlate
  constructor
  · intro hcount
    by_contra hge
    rw [not_lt] at hge
    have hall : (times.drop (times.length - cap)).countP (fun time => bound ≤ time) = cap := by
      refine Eq.trans (List.countP_eq_length.mpr ?_) hlength
      rw [hdrop]
      intro time htime
      rcases List.mem_cons.mp htime with rfl | htime
      · exact decide_eq_true hge
      · exact decide_eq_true (hge.trans (hlate.1 time htime))
    rw [← hsplit, List.countP_append, hall] at hcount
    omega
  · intro hbelow
    have hnone : (times.take (times.length - cap)).countP (fun time => bound ≤ time) = 0 := by
      rw [List.countP_eq_zero]
      intro time htime hge
      have hle := hearly time htime deciding (by rw [hdrop]; exact List.mem_cons_self)
      exact absurd ((of_decide_eq_true hge).trans hle) (not_le.mpr hbelow)
    have hrest : (times.drop (times.length - cap + 1)).countP (fun time => bound ≤ time)
        ≤ cap - 1 := by
      refine List.countP_le_length.trans ?_
      rw [List.length_drop]
      omega
    rw [← hsplit, List.countP_append, hnone, hdrop, List.countP_cons,
      if_neg (by simpa using hbelow)]
    omega

end

/-- A wait cut to whole units, but one at least, passes a time exactly if the time is less than a
unit away. -/
theorem lt_wait_iff {unit : ℕ} (hunit : 0 < unit) (time now : ℕ) :
    time < now + max ((time - now) / unit) 1 * unit ↔ time < now + unit := by
  rcases Nat.lt_or_ge (time - now) unit with hless | hmore
  · rw [Nat.div_eq_of_lt hless, Nat.max_eq_right (Nat.zero_le 1), Nat.one_mul]
  · have hone : 1 ≤ (time - now) / unit := (Nat.one_le_div_iff hunit).mpr hmore
    have hle : (time - now) / unit * unit ≤ time - now := Nat.div_mul_le_self _ _
    rw [Nat.max_eq_left hone]
    constructor
    · intro hlt
      omega
    · intro hlt
      omega

end Window
