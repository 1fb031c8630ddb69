import Quorum.BaseDict

/-! Bounded recency caches. An insertion-ordered map is kept with its most recently used entry last,
and the entries before the last `cap` ones are dropped. -/

universe u v

namespace Dict

variable {κ : Type u} {ν : Type v}

/-- Drop the oldest entries while there are more than `cap`. -/
def trim (d : Dict κ ν) (cap : ℕ) : Dict κ ν :=
  ⟨d.items.drop (d.size - cap), d.nodup.sublist ((List.drop_sublist _ _).map _)⟩

/-- The keys whose entries `trim` drops, oldest first. -/
def overflow (d : Dict κ ν) (cap : ℕ) : List κ := (d.items.take (d.size - cap)).map Prod.fst

theorem nodup_overflow (d : Dict κ ν) (cap : ℕ) : (d.overflow cap).Nodup :=
  d.nodup.sublist ((List.take_sublist _ _).map _)

theorem size_trim_le (d : Dict κ ν) (cap : ℕ) : (d.trim cap).size ≤ cap := by
  show (d.items.drop (d.items.length - cap)).length ≤ cap
  rw [List.length_drop]
  omega

variable [DecidableEq κ]

theorem get?_trim (d : Dict κ ν) (cap : ℕ) (k : κ) :
    (d.trim cap).get? k = if k ∈ d.overflow cap then none else d.get? k := by
  have hsplit := List.take_append_drop (d.size - cap) d.items
  have hdisjoint : ∀ v w, (k, v) ∈ d.items.take (d.size - cap) →
      (k, w) ∉ d.items.drop (d.size - cap) := by
    intro v w hv hw
    have hnodup := d.nodup
    rw [← hsplit, List.map_append, List.nodup_append] at hnodup
    exact hnodup.2.2 _ (List.mem_map_of_mem hv) _ (List.mem_map_of_mem hw) rfl
  apply Option.ext
  intro v
  rw [get?_eq_some_iff]
  by_cases hk : k ∈ d.overflow cap
  · obtain ⟨⟨j, w⟩, hw, rfl⟩ := List.mem_map.mp hk
    rw [if_pos hk]
    exact ⟨fun hv => absurd hv (hdisjoint w v hw), nofun⟩
  · rw [if_neg hk, get?_eq_some_iff]
    constructor
    · intro hv
      exact List.mem_of_mem_drop hv
    · intro hv
      rw [← hsplit, List.mem_append] at hv
      exact hv.resolve_left fun hleft => hk (List.mem_map_of_mem hleft)

theorem mem_keys_of_mem_overflow {d : Dict κ ν} {cap : ℕ} {k : κ} (h : k ∈ d.overflow cap) :
    ∃ v, d.get? k = some v := by
  obtain ⟨⟨j, v⟩, hv, rfl⟩ := List.mem_map.mp h
  exact ⟨v, get?_eq_some_iff.mpr (List.mem_of_mem_take hv)⟩

/-- Put the entry of a key last, if the key is present. -/
def moveToEnd (d : Dict κ ν) (k : κ) : Dict κ ν :=
  match d.get? k with
  | none => d
  | some v => (d.pop k).set k v

/-- A cache answers every lookup as before the move. -/
@[simp] theorem get?_moveToEnd (d : Dict κ ν) (k j : κ) : (d.moveToEnd k).get? j = d.get? j := by
  rw [moveToEnd]
  cases hk : d.get? k with
  | none => rfl
  | some v =>
      by_cases hj : j = k
      · rw [hj, get?_set_self, hk]
      · rw [get?_set_of_ne _ _ hj, get?_pop_of_ne _ hj]

end Dict
