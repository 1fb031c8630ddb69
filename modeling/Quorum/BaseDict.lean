import Mathlib.Data.List.Nodup
import Mathlib.Data.List.Lookmap
import Mathlib.Data.List.Sort
import Mathlib.Tactic

/-! Insertion-ordered finite maps. A map is the list of its entries, oldest first, with the proof
that no key occurs twice. Writing a present key replaces its value where it stands, writing an
absent key puts the entry last, and a removal keeps the order of the rest. -/

universe u v

/-- A finite map from `κ` to `ν` whose entries keep the order in which their keys were first
written. -/
structure Dict (κ : Type u) (ν : Type v) where
  items : List (κ × ν)
  nodup : (items.map Prod.fst).Nodup

namespace Dict

variable {κ : Type u} {ν : Type v}

@[ext] theorem ext {left right : Dict κ ν} (h : left.items = right.items) : left = right := by
  cases left; cases right; cases h; rfl

def empty : Dict κ ν := ⟨[], List.nodup_nil⟩

def keys (d : Dict κ ν) : List κ := d.items.map Prod.fst

def values (d : Dict κ ν) : List ν := d.items.map Prod.snd

def size (d : Dict κ ν) : Nat := d.items.length

@[simp] theorem size_empty : (empty : Dict κ ν).size = 0 := rfl

/-- Two entries of one map with the same key are the same entry. -/
theorem value_unique {d : Dict κ ν} {k : κ} {v w : ν} (hv : (k, v) ∈ d.items)
    (hw : (k, w) ∈ d.items) : v = w := by
  have heq : (k, v) = (k, w) := List.inj_on_of_nodup_map d.nodup hv hw rfl
  exact (Prod.mk.inj heq).2

/-- Keep the entries that satisfy `p`. -/
def filter (d : Dict κ ν) (p : κ × ν → Bool) : Dict κ ν :=
  ⟨d.items.filter p, d.nodup.sublist (List.filter_sublist.map _)⟩

theorem size_filter_le (d : Dict κ ν) (p : κ × ν → Bool) : (d.filter p).size ≤ d.size :=
  List.length_filter_le p d.items

/-- Apply `f` to every value, keys and order as they are. -/
def mapValues (d : Dict κ ν) (f : κ → ν → ν) : Dict κ ν :=
  ⟨d.items.map fun e => (e.1, f e.1 e.2), by
    rw [List.map_map]; exact d.nodup⟩

variable [DecidableEq κ]

/-- The value of a key, if the key is present. -/
def get? (d : Dict κ ν) (k : κ) : Option ν :=
  (d.items.find? fun e => e.1 = k).map Prod.snd

theorem get?_eq_some_iff {d : Dict κ ν} {k : κ} {v : ν} : d.get? k = some v ↔ (k, v) ∈ d.items := by
  constructor
  · intro h
    obtain ⟨⟨j, w⟩, hfind, hw⟩ := Option.map_eq_some_iff.1 h
    have hj : j = k := by simpa using List.find?_some hfind
    subst hj; subst hw
    exact List.mem_of_find?_eq_some hfind
  · intro h
    cases hfind : d.items.find? fun e => e.1 = k with
    | none =>
        have hne := List.find?_eq_none.1 hfind _ h
        simp at hne
    | some e =>
        obtain ⟨j, w⟩ := e
        have hj : j = k := by simpa using List.find?_some hfind
        subst hj
        have hw := value_unique (List.mem_of_find?_eq_some hfind) h
        simp [get?, hfind, hw]

theorem get?_eq_none_iff {d : Dict κ ν} {k : κ} : d.get? k = none ↔ ∀ v, (k, v) ∉ d.items := by
  rw [Option.eq_none_iff_forall_ne_some]
  exact forall_congr' fun v => not_congr get?_eq_some_iff

@[simp] theorem get?_empty (k : κ) : (empty : Dict κ ν).get? k = none := rfl

theorem get?_filter (d : Dict κ ν) (p : κ × ν → Bool) (k : κ) :
    (d.filter p).get? k = (d.get? k).filter fun v => p (k, v) := by
  apply Option.ext
  intro v
  rw [get?_eq_some_iff, Option.filter_eq_some_iff, get?_eq_some_iff]
  exact List.mem_filter

theorem get?_mapValues (d : Dict κ ν) (f : κ → ν → ν) (k : κ) :
    (d.mapValues f).get? k = (d.get? k).map (f k) := by
  apply Option.ext
  intro v
  rw [get?_eq_some_iff, Option.map_eq_some_iff]
  simp only [mapValues, List.mem_map, get?_eq_some_iff, Prod.mk.injEq]
  constructor
  · rintro ⟨⟨j, w⟩, hmem, rfl, hw⟩
    exact ⟨w, hmem, hw⟩
  · rintro ⟨w, hmem, hw⟩
    exact ⟨(k, w), hmem, rfl, hw⟩

/-- Remove a key, if it is present. -/
def pop (d : Dict κ ν) (k : κ) : Dict κ ν := d.filter fun e => e.1 ≠ k

theorem get?_pop (d : Dict κ ν) (k j : κ) :
    (d.pop k).get? j = if j = k then none else d.get? j := by
  rw [pop, get?_filter]
  by_cases h : j = k
  · cases d.get? j <;> simp [h, Option.filter]
  · cases d.get? j <;> simp [h, Option.filter]

@[simp] theorem get?_pop_self (d : Dict κ ν) (k : κ) : (d.pop k).get? k = none := by
  simp [get?_pop]

theorem get?_pop_of_ne (d : Dict κ ν) {k j : κ} (h : j ≠ k) : (d.pop k).get? j = d.get? j := by
  simp [get?_pop, h]

theorem size_pop_le (d : Dict κ ν) (k : κ) : (d.pop k).size ≤ d.size := d.size_filter_le _

section Sum

variable {M : Type*} [AddCommMonoid M]

theorem sum_values_pop (d : Dict κ M) (k : κ) :
    d.values.sum = (d.get? k).getD 0 + (d.pop k).values.sum := by
  obtain ⟨items, hnodup⟩ := d
  show (items.map Prod.snd).sum = ((items.find? fun e => e.1 = k).map Prod.snd).getD 0 +
    ((items.filter fun e => e.1 ≠ k).map Prod.snd).sum
  induction items with
  | nil => simp
  | cons e items ih =>
      obtain ⟨habsent, hrest⟩ := List.nodup_cons.mp hnodup
      by_cases hk : e.1 = k
      · have hkeep : items.filter (fun e => e.1 ≠ k) = items :=
          List.filter_eq_self.mpr fun f hf => by
          have hne : f.1 ≠ k := fun h => habsent (List.mem_map.mpr ⟨f, hf, h.trans hk.symm⟩)
          simpa using hne
        rw [List.find?_cons_of_pos (by simpa using hk), List.filter_cons_of_neg (by simpa using hk),
          hkeep]
        simp
      · rw [List.find?_cons_of_neg (by simpa using hk), List.filter_cons_of_pos (by simpa using hk),
          List.map_cons, List.sum_cons, List.map_cons, List.sum_cons, ih hrest, add_left_comm]

/-- The values sum as the lookups of any list of distinct keys that has all the keys. -/
theorem sum_values (d : Dict κ M) (ks : List κ) (hks : ks.Nodup) (hall : ∀ k ∈ d.keys, k ∈ ks) :
    d.values.sum = (ks.map fun k => (d.get? k).getD 0).sum := by
  induction ks generalizing d with
  | nil =>
      have hkeys : d.keys = [] := List.eq_nil_iff_forall_not_mem.mpr fun k hk =>
        List.not_mem_nil (hall k hk)
      have hitems : d.items = [] := List.map_eq_nil_iff.mp hkeys
      simp [values, hitems]
  | cons k ks ih =>
      obtain ⟨hk, hrest⟩ := List.nodup_cons.mp hks
      have hpop : ∀ j ∈ (d.pop k).keys, j ∈ ks := fun j hj => by
        obtain ⟨e, he, rfl⟩ := List.mem_map.mp hj
        obtain ⟨hmem, hne⟩ := List.mem_filter.mp he
        rcases List.mem_cons.mp (hall _ (List.mem_map_of_mem hmem)) with heq | htail
        · exact absurd heq (by simpa using hne)
        · exact htail
      have hsame : (ks.map fun j => ((d.pop k).get? j).getD 0) = ks.map fun j =>
          (d.get? j).getD 0 :=
        List.map_congr_left fun j hj => by rw [get?_pop_of_ne d (ne_of_mem_of_not_mem hj hk)]
      rw [sum_values_pop d k, ih _ hrest hpop, hsame, List.map_cons, List.sum_cons]

end Sum

/-- Remove every key of a list. -/
def popAll (d : Dict κ ν) (ks : List κ) : Dict κ ν := ks.foldl pop d

theorem items_popAll (d : Dict κ ν) (ks : List κ) :
    (d.popAll ks).items = d.items.filter fun e => e.1 ∉ ks := by
  induction ks generalizing d with
  | nil => simp [popAll]
  | cons k ks ih =>
      change ((d.pop k).popAll ks).items = _
      rw [ih, pop, filter, List.filter_filter]
      congr 1
      funext e
      simp [Bool.and_comm]

theorem get?_popAll (d : Dict κ ν) (ks : List κ) (k : κ) :
    (d.popAll ks).get? k = if k ∈ ks then none else d.get? k := by
  apply Option.ext
  intro v
  rw [get?_eq_some_iff, items_popAll, List.mem_filter, ← get?_eq_some_iff]
  by_cases h : k ∈ ks <;> simp [h]

/-- A lookup that survives a removal was there before it. -/
theorem get?_of_popAll {d : Dict κ ν} {ks : List κ} {k : κ} {v : ν}
    (h : (d.popAll ks).get? k = some v) : d.get? k = some v := by
  rw [get?_popAll] at h
  split at h
  · cases h
  · exact h

/-- Removing the first `n` keys of any rearrangement of the entries leaves the rest of them. -/
theorem size_popAll_take (d : Dict κ ν) {sorted : List (κ × ν)} (hperm : sorted.Perm d.items)
    (n : Nat) :
    (d.popAll ((sorted.take n).map Prod.fst)).size = d.size - n := by
  have hnodup : (sorted.map Prod.fst).Nodup := (hperm.map Prod.fst).nodup_iff.2 d.nodup
  have hrest : (sorted.filter fun e => e.1 ∉ (sorted.take n).map Prod.fst) = sorted.drop n := by
    conv_lhs => rw [← List.take_append_drop n sorted]
    rw [← List.take_append_drop n sorted, List.map_append, List.nodup_append] at hnodup
    rw [List.filter_append, List.filter_eq_nil_iff.2, List.nil_append, List.filter_eq_self.2]
    · intro e he
      have hnot : e.1 ∉ (sorted.take n).map Prod.fst := fun hin =>
        hnodup.2.2 _ hin _ (List.mem_map_of_mem he) rfl
      simpa using hnot
    · intro e he
      simpa using List.mem_map_of_mem (f := Prod.fst) he
  have hfilter := (hperm.filter fun e => e.1 ∉ (sorted.take n).map Prod.fst).length_eq
  rw [hrest, List.length_drop, hperm.length_eq] at hfilter
  rw [size, items_popAll, ← hfilter, size]

/-- Write a key: its value is replaced where it stands, or the entry is put last. -/
def set (d : Dict κ ν) (k : κ) (v : ν) : Dict κ ν :=
  if h : k ∈ d.keys then d.mapValues fun j w => if j = k then v else w
  else ⟨d.items ++ [(k, v)], by
    rw [List.map_append, List.map_cons, List.map_nil]
    refine List.nodup_append.2 ⟨d.nodup, List.nodup_singleton k, ?_⟩
    intro a ha b hb heq
    rw [heq, List.mem_singleton.1 hb] at ha
    exact h ha⟩

theorem mem_keys_iff {d : Dict κ ν} {k : κ} : k ∈ d.keys ↔ ∃ v, d.get? k = some v := by
  simp only [keys, List.mem_map, get?_eq_some_iff]
  constructor
  · rintro ⟨⟨j, v⟩, hmem, rfl⟩
    exact ⟨v, hmem⟩
  · rintro ⟨v, hmem⟩
    exact ⟨(k, v), hmem, rfl⟩

theorem get?_set (d : Dict κ ν) (k : κ) (v : ν) (j : κ) :
    (d.set k v).get? j = if j = k then some v else d.get? j := by
  unfold set
  split
  · rename_i hmem
    obtain ⟨w, hw⟩ := mem_keys_iff.1 hmem
    rw [get?_mapValues]
    by_cases h : j = k
    · subst h; simp [hw]
    · cases d.get? j <;> simp [h]
  · rename_i hmem
    have hnone : d.get? k = none := by
      by_contra hsome
      obtain ⟨w, hw⟩ := Option.ne_none_iff_exists'.1 hsome
      exact hmem (mem_keys_iff.2 ⟨w, hw⟩)
    apply Option.ext
    intro w
    rw [get?_eq_some_iff]
    by_cases h : j = k
    · subst h
      have hnot : (j, w) ∉ d.items := get?_eq_none_iff.1 hnone w
      simp [hnot, eq_comm]
    · simp [h, get?_eq_some_iff]

@[simp] theorem get?_set_self (d : Dict κ ν) (k : κ) (v : ν) : (d.set k v).get? k = some v := by
  simp [get?_set]

theorem get?_set_of_ne (d : Dict κ ν) {k j : κ} (v : ν) (h : j ≠ k) :
    (d.set k v).get? j = d.get? j := by
  simp [get?_set, h]

/-- An entry of a written map is the written one or an old one of another key. -/
theorem mem_items_set {d : Dict κ ν} {k j : κ} {v w : ν} :
    (j, w) ∈ (d.set k v).items ↔ (j = k ∧ w = v) ∨ (j ≠ k ∧ (j, w) ∈ d.items) := by
  rw [← get?_eq_some_iff, ← get?_eq_some_iff, get?_set]
  by_cases h : j = k
  · simp [h, eq_comm]
  · simp [h]

theorem size_set_le (d : Dict κ ν) (k : κ) (v : ν) : (d.set k v).size ≤ d.size + 1 := by
  unfold set
  split
  · simp [size, mapValues]
  · simp [size]

theorem size_set_of_absent {d : Dict κ ν} {k : κ} (h : d.get? k = none) (v : ν) :
    (d.set k v).size = d.size + 1 := by
  have habsent : k ∉ d.keys := fun hmem => by
    obtain ⟨w, hw⟩ := mem_keys_iff.mp hmem
    rw [h] at hw
    cases hw
  rw [set, dif_neg habsent, size, List.length_append]
  rfl

theorem mem_keys_set {d : Dict κ ν} {k j : κ} {v : ν} : j ∈ (d.set k v).keys
    ↔ j = k ∨ j ∈ d.keys := by
  rw [mem_keys_iff, mem_keys_iff]
  by_cases h : j = k
  · simp [h]
  · simp [get?_set, h]

theorem mapValues_set (d : Dict κ ν) (f : ν → ν) (k : κ) (v : ν) :
    (d.set k v).mapValues (fun _ => f) = (d.mapValues fun _ => f).set k (f v) := by
  have hkeys : (d.mapValues fun _ => f).keys = d.keys := by
    rw [keys, mapValues, List.map_map]
    rfl
  apply Dict.ext
  by_cases hk : k ∈ d.keys
  · rw [set, dif_pos hk, set, dif_pos (by rwa [hkeys])]
    simp only [mapValues, List.map_map]
    refine List.map_congr_left fun entry _ => ?_
    by_cases h : entry.1 = k <;> simp [h]
  · rw [set, dif_neg hk, set, dif_neg (by rwa [hkeys])]
    simp [mapValues]

/-- The map that a list of entries writes, the later value of a key standing. -/
def ofList (entries : List (κ × ν)) : Dict κ ν :=
  entries.foldl (fun d entry => d.set entry.1 entry.2) empty

theorem mem_keys_foldl_set (entries : List (κ × ν)) (d : Dict κ ν) (k : κ) :
    k ∈ (entries.foldl (fun d entry => d.set entry.1 entry.2) d).keys
      ↔ k ∈ entries.map Prod.fst ∨ k ∈ d.keys := by
  induction entries generalizing d with
  | nil => simp
  | cons entry entries ih =>
      rw [List.foldl_cons, ih, mem_keys_set, List.map_cons, List.mem_cons]; tauto

theorem mem_keys_ofList {entries : List (κ × ν)} {k : κ} :
    k ∈ (ofList entries).keys ↔ k ∈ entries.map Prod.fst := by
  rw [ofList, mem_keys_foldl_set]
  simp [keys, empty]

theorem mem_items_foldl_set {entries : List (κ × ν)} {d : Dict κ ν} {entry : κ × ν}
    (h : entry ∈ (entries.foldl (fun d entry => d.set entry.1 entry.2) d).items) :
    entry ∈ entries ∨ entry ∈ d.items := by
  induction entries generalizing d with
  | nil => exact Or.inr h
  | cons first entries ih =>
      rcases ih h with hrest | hset
      · exact Or.inl (List.mem_cons_of_mem _ hrest)
      · rcases mem_items_set.mp hset with ⟨hkey, hvalue⟩ | ⟨-, hold⟩
        · exact Or.inl (List.mem_cons.mpr (Or.inl (Prod.ext hkey hvalue)))
        · exact Or.inr hold

theorem mem_of_mem_ofList {entries : List (κ × ν)} {entry : κ × ν}
    (h : entry ∈ (ofList entries).items) : entry ∈ entries :=
  (mem_items_foldl_set h).resolve_right List.not_mem_nil

theorem items_foldl_set {entries : List (κ × ν)} {d : Dict κ ν}
    (hnodup : (entries.map Prod.fst).Nodup) (hnew : ∀ entry ∈ entries, entry.1 ∉ d.keys) :
    (entries.foldl (fun d entry => d.set entry.1 entry.2) d).items = d.items ++ entries := by
  induction entries generalizing d with
  | nil => exact (List.append_nil _).symm
  | cons entry entries ih =>
      obtain ⟨habsent, hrest⟩ := List.nodup_cons.mp hnodup
      have hset : (d.set entry.1 entry.2).items = d.items ++ [entry] := by
        rw [set, dif_neg (hnew entry List.mem_cons_self)]
      rw [List.foldl_cons, ih hrest, hset, List.append_assoc, List.singleton_append]
      intro other hother hmem
      rcases mem_keys_set.mp hmem with heq | hold
      · exact habsent (heq ▸ List.mem_map_of_mem hother)
      · exact hnew other (List.mem_cons_of_mem _ hother) hold

/-- Entries of distinct keys are the map they write. -/
theorem items_ofList {entries : List (κ × ν)} (h : (entries.map Prod.fst).Nodup) :
    (ofList entries).items = entries :=
  items_foldl_set h fun _ _ => List.not_mem_nil

theorem ofList_mapValues (f : ν → ν) (entries : List (κ × ν)) :
    ofList (entries.map fun entry => (entry.1, f entry.2)) = (ofList entries).mapValues
      fun _ => f := by
  have hfold : ∀ d : Dict κ ν,
      (entries.map fun entry => (entry.1, f entry.2)).foldl (fun d entry => d.set entry.1 entry.2)
          (d.mapValues fun _ => f)
        = (entries.foldl (fun d entry => d.set entry.1 entry.2) d).mapValues fun _ => f := by
    induction entries with
    | nil => exact fun d => rfl
    | cons entry entries ih =>
        intro d
        rw [List.map_cons, List.foldl_cons, List.foldl_cons, ← ih, mapValues_set]
  exact hfold empty

end Dict
