import Quorum.BaseDict

/-! Amounts summed by key. Entries add to the amount of their key, an absent key starting from zero,
and the amounts of all keys sum to the amounts of all entries. -/

universe u v

namespace Dict

variable {κ : Type u} [DecidableEq κ] {M : Type v}

theorem pop_set (d : Dict κ M) (k : κ) (v : M) : (d.set k v).pop k = d.pop k := by
  apply Dict.ext
  rw [set]
  split_ifs with hk
  · simp only [pop, filter, mapValues]
    induction d.items with
    | nil => rfl
    | cons entry items ih =>
        by_cases heq : entry.1 = k
        · simpa [heq] using ih
        · simpa [heq] using ih
  · simp [pop, filter]

variable [AddCommMonoid M]

theorem sum_values_set (d : Dict κ M) (k : κ) (v : M) :
    (d.set k v).values.sum = v + (d.pop k).values.sum := by
  rw [sum_values_pop (d.set k v) k, get?_set_self, pop_set]
  rfl

/-- Add to the amount of a key. -/
def add (d : Dict κ M) (k : κ) (amount : M) : Dict κ M := d.set k ((d.get? k).getD 0 + amount)

theorem sum_values_add (d : Dict κ M) (k : κ) (amount : M) :
    (d.add k amount).values.sum = d.values.sum + amount := by
  rw [add, sum_values_set, sum_values_pop d k]
  exact add_right_comm _ _ _

/-- The amounts of entries, summed by key. -/
def totals (entries : List (κ × M)) : Dict κ M :=
  entries.foldl (fun d entry => d.add entry.1 entry.2) empty

theorem sum_values_totals (entries : List (κ × M)) :
    (totals entries).values.sum = (entries.map Prod.snd).sum := by
  have hfold : ∀ d : Dict κ M, (entries.foldl (fun d entry => d.add entry.1 entry.2) d).values.sum =
      d.values.sum + (entries.map Prod.snd).sum := by
    induction entries with
    | nil => exact fun d => (add_zero _).symm
    | cons entry entries ih =>
        intro d
        rw [List.foldl_cons, ih, sum_values_add, List.map_cons, List.sum_cons, add_assoc]
  exact (hfold empty).trans (zero_add _)

theorem mem_keys_totals {entries : List (κ × M)} {k : κ} : k ∈ (totals entries).keys ↔
    k ∈ entries.map Prod.fst := by
  have hfold : ∀ d : Dict κ M, k ∈ (entries.foldl (fun d entry => d.add entry.1 entry.2) d).keys ↔
      k ∈ d.keys ∨ k ∈ entries.map Prod.fst := by
    induction entries with
    | nil => exact fun d => by simp
    | cons entry entries ih =>
        intro d
        rw [List.foldl_cons, ih, add, mem_keys_set, List.map_cons, List.mem_cons]
        tauto
  rw [totals, hfold]
  exact or_iff_right List.not_mem_nil

theorem totals_items_eq_nil {entries : List (κ × M)} : (totals entries).items = [] ↔
    entries = [] := by
  constructor
  · intro h
    cases entries with
    | nil => rfl
    | cons entry entries =>
        have hkey : entry.1 ∈ (totals (entry :: entries)).keys :=
          mem_keys_totals.mpr List.mem_cons_self
        rw [keys, h] at hkey
        cases hkey
  · rintro rfl
    rfl

end Dict

/-- Where an entry has no amount it adds nothing. -/
theorem sum_filterMap_elim {α β M : Type*} [AddCommMonoid M] (f : α → Option β) (amount : β → M)
    (entries : List α) :
    ((entries.filterMap f).map amount).sum =
      (entries.map fun entry => (f entry).elim 0 amount).sum := by
  induction entries with
  | nil => rfl
  | cons entry entries ih =>
      rw [List.map_cons, List.sum_cons, ← ih, List.filterMap_cons]
      cases f entry with
      | none => exact (zero_add _).symm
      | some amounted => rfl
