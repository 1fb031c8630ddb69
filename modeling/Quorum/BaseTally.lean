import Quorum.BaseDict

/-! Totals by key. Amounts are added to the total of their key, and corrections then replace the
totals of keys that have one; the last correction of a key stands. -/

universe u v

namespace Tally

variable {κ : Type u} {M : Type v} [DecidableEq κ]

/-- Replace the total of a key that has one. -/
def replace (totals : Dict κ M) (entry : κ × M) : Dict κ M :=
  match totals.get? entry.1 with
  | some _ => totals.set entry.1 entry.2
  | none => totals

/-- An amount under the corrections of its key. -/
def settle (k : κ) (amount : M) (corrections : List (κ × M)) : M :=
  corrections.foldl (fun amount entry => if entry.1 = k then entry.2 else amount) amount

theorem get?_replace (totals : Dict κ M) (entry : κ × M) (k : κ) :
    (replace totals entry).get? k =
      (totals.get? k).map fun amount => if entry.1 = k then entry.2 else amount := by
  rw [replace]
  cases hentry : totals.get? entry.1 with
  | none =>
      cases hk : totals.get? k with
      | none => rfl
      | some amount =>
          have hne : entry.1 ≠ k := fun heq => by rw [heq, hk] at hentry; cases hentry
          rw [Option.map_some, if_neg hne]
  | some old =>
      rw [Dict.get?_set]
      by_cases hk : k = entry.1
      · rw [if_pos hk, hk, hentry, Option.map_some, if_pos rfl]
      · rw [if_neg hk]
        cases totals.get? k with
        | none => rfl
        | some amount => rw [Option.map_some, if_neg fun heq => hk heq.symm]

theorem get?_foldl_replace (corrections : List (κ × M)) (totals : Dict κ M) (k : κ) :
    (corrections.foldl replace totals).get? k =
      (totals.get? k).map fun amount => settle k amount corrections := by
  induction corrections generalizing totals with
  | nil => exact Option.map_id'.symm
  | cons entry corrections ih =>
      rw [List.foldl_cons, ih, get?_replace, Option.map_map]
      rfl

/-- The sources of corrections of other keys do not matter. -/
theorem settle_filter {ι : Type*} (k : κ) (amount : M) (sources : List ι)
    (entryOf : ι → Option (κ × M)) (keep : ι → Bool)
    (h : ∀ source ∈ sources, ∀ entry, entryOf source = some entry → entry.1 = k → keep source) :
    settle k amount ((sources.filter keep).filterMap entryOf) =
      settle k amount (sources.filterMap entryOf) := by
  induction sources generalizing amount with
  | nil => rfl
  | cons source sources ih =>
      have hrest := fun amount => ih amount fun s hs => h s (List.mem_cons_of_mem _ hs)
      cases hentry : entryOf source with
      | none =>
          cases hkeep : keep source with
          | true => rw [List.filter_cons_of_pos hkeep, List.filterMap_cons_none hentry,
              List.filterMap_cons_none hentry, hrest]
          | false =>
              rw [List.filter_cons_of_neg (by simp [hkeep]), List.filterMap_cons_none hentry, hrest]
      | some entry =>
          rw [List.filterMap_cons_some hentry]
          cases hkeep : keep source with
          | true =>
              rw [List.filter_cons_of_pos hkeep, List.filterMap_cons_some hentry]
              exact hrest _
          | false =>
              have hne : entry.1 ≠ k := fun heq => by
                simp [h source List.mem_cons_self entry hentry heq] at hkeep
              rw [List.filter_cons_of_neg (by simp [hkeep]), hrest]
              show _ = settle k (if entry.1 = k then entry.2 else amount) _
              rw [if_neg hne]

/-! ### Totals -/

variable [AddCommMonoid M]

/-- Add an amount to the total of its key. -/
def add (totals : Dict κ M) (entry : κ × M) : Dict κ M :=
  totals.set entry.1 ((totals.get? entry.1).getD 0 + entry.2)

theorem get?_add (totals : Dict κ M) (entry : κ × M) (k : κ) :
    (add totals entry).get? k =
      if k = entry.1 then some ((totals.get? k).getD 0 + entry.2) else totals.get? k := by
  rw [add, Dict.get?_set]
  split_ifs with hk
  · rw [hk]
  · rfl

theorem get?_foldl_add_of_notMem (entries : List (κ × M)) (totals : Dict κ M) {k : κ}
    (h : k ∉ entries.map Prod.fst) : (entries.foldl add totals).get? k = totals.get? k := by
  induction entries generalizing totals with
  | nil => rfl
  | cons entry entries ih =>
      rw [List.map_cons, List.mem_cons, not_or] at h
      rw [List.foldl_cons, ih _ h.2, get?_add, if_neg h.1]

/-- Where no key is charged twice, the total of a key is its amount. -/
theorem get?_foldl_add (entries : List (κ × M)) (totals : Dict κ M)
    (hnodup : (entries.map Prod.fst).Nodup) (hnew : ∀ entry ∈ entries, totals.get? entry.1 = none)
    {entry : κ × M} (h : entry ∈ entries) :
    (entries.foldl add totals).get? entry.1 = some entry.2 := by
  induction entries generalizing totals with
  | nil => exact absurd h List.not_mem_nil
  | cons first entries ih =>
      obtain ⟨habsent, hrest⟩ := List.nodup_cons.mp hnodup
      rcases List.mem_cons.mp h with rfl | htail
      · rw [List.foldl_cons, get?_foldl_add_of_notMem _ _ habsent, get?_add, if_pos rfl,
          hnew _ List.mem_cons_self, Option.getD_none, zero_add]
      · refine ih _ hrest (fun other hother => ?_) htail
        have hne : other.1 ≠ first.1 := fun heq => habsent (heq ▸ List.mem_map_of_mem hother)
        rw [get?_add, if_neg hne]
        exact hnew other (List.mem_cons_of_mem _ hother)

/-- The total over all keys, where no key is charged twice: each amount under its corrections. -/
theorem sum_values_settled (entries corrections : List (κ × M))
    (hnodup : (entries.map Prod.fst).Nodup) :
    (corrections.foldl replace (entries.foldl add Dict.empty)).values.sum =
      (entries.map fun entry => settle entry.1 entry.2 corrections).sum := by
  set totals := entries.foldl add Dict.empty with htotals
  have hall : ∀ k ∈ (corrections.foldl replace totals).keys, k ∈ entries.map Prod.fst := by
    intro k hk
    obtain ⟨amount, hamount⟩ := Dict.mem_keys_iff.mp hk
    rw [get?_foldl_replace, Option.map_eq_some_iff] at hamount
    obtain ⟨old, hold, -⟩ := hamount
    by_contra habsent
    rw [htotals, get?_foldl_add_of_notMem _ _ habsent] at hold
    cases hold
  rw [Dict.sum_values _ _ hnodup hall, List.map_map]
  refine congrArg List.sum (List.map_congr_left fun entry hentry => ?_)
  have hget : totals.get? entry.1 = some entry.2 :=
    get?_foldl_add entries Dict.empty hnodup (fun _ _ => rfl) hentry
  show ((corrections.foldl replace totals).get? entry.1).getD 0 = _
  rw [get?_foldl_replace, hget, Option.map_some, Option.getD_some]

end Tally
