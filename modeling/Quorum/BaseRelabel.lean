import Mathlib.Data.Set.Function
import Mathlib.Data.List.Dedup
import Mathlib.Data.List.Count

/-! Counting labels under a relabelling that keeps the labels in use apart. -/

universe u v

namespace Relabel

variable {α : Type u} {β : Type v}

/-- The relabelling takes no two labels of the list to one. -/
def Apart (f : α → β) (labels : List α) : Prop :=
  ∀ a ∈ labels, ∀ b ∈ labels, f a = f b → a = b

variable {f : α → β} {labels : List α}

theorem Apart.mono {fewer : List α} (h : Apart f labels) (hsub : ∀ a ∈ fewer, a ∈ labels) :
    Apart f fewer :=
  fun a ha b hb => h a (hsub a ha) b (hsub b hb)

theorem Apart.mem_map (h : Apart f labels) {fewer : List α} (hsub : ∀ a ∈ fewer, a ∈ labels) {a : α}
    (ha : a ∈ labels) : f a ∈ fewer.map f ↔ a ∈ fewer := by
  constructor
  · intro hmem
    obtain ⟨b, hb, heq⟩ := List.mem_map.mp hmem
    rwa [← h b (hsub b hb) a ha heq]
  · exact List.mem_map_of_mem

theorem Apart.dedup_map [DecidableEq α] [DecidableEq β] (h : Apart f labels) :
    (labels.map f).dedup = labels.dedup.map f := by
  induction labels with
  | nil => rfl
  | cons a labels ih =>
      have hrest := ih (h.mono fun b hb => List.mem_cons_of_mem _ hb)
      have hmem : f a ∈ labels.map f ↔ a ∈ labels :=
        h.mem_map (fun b hb => List.mem_cons_of_mem _ hb) List.mem_cons_self
      rw [List.map_cons]
      by_cases ha : a ∈ labels
      · rw [List.dedup_cons_of_mem (hmem.mpr ha), List.dedup_cons_of_mem ha, hrest]
      · rw [List.dedup_cons_of_notMem (fun hin => ha (hmem.mp hin)), List.dedup_cons_of_notMem ha,
          hrest, List.map_cons]

variable [BEq α] [LawfulBEq α] [BEq β] [LawfulBEq β]

theorem Apart.count_map (h : Apart f labels) {a : α} (ha : a ∈ labels) :
    (labels.map f).count (f a) = labels.count a := by
  rw [List.count, List.countP_map, List.count]
  apply List.countP_congr
  intro b hb
  rw [Function.comp_apply, beq_iff_eq, beq_iff_eq]
  exact ⟨h b hb a ha, congrArg f⟩

/-- Every label keeps its count. -/
theorem Apart.counts_map (h : Apart f labels) :
    (labels.map f).map (labels.map f).count = labels.map labels.count := by
  rw [List.map_map]
  exact List.map_congr_left fun a ha => h.count_map ha

theorem Apart.any_count_map (h : Apart f labels) (test : ℕ → Bool) :
    (labels.map f).any (fun b => test ((labels.map f).count b))
      = labels.any fun a => test (labels.count a) := by
  have hsame : ∀ a ∈ labels, test ((labels.map f).count (f a)) = test (labels.count a) :=
    fun a ha => congrArg test (h.count_map ha)
  rw [List.any_map]
  apply Bool.eq_iff_iff.mpr
  simp only [List.any_eq_true, Function.comp_apply]
  constructor
  · rintro ⟨a, ha, htest⟩
    exact ⟨a, ha, (hsame a ha).symm.trans htest⟩
  · rintro ⟨a, ha, htest⟩
    exact ⟨a, ha, (hsame a ha).trans htest⟩

/-- The labels of a count are relabelled ones of that count. -/
theorem Apart.filter_count_map [DecidableEq α] [DecidableEq β] (h : Apart f labels) (n : ℕ) :
    ((labels.map f).dedup.filter fun b => (labels.map f).count b = n)
      = (labels.dedup.filter fun a => labels.count a = n).map f := by
  rw [h.dedup_map, List.filter_map]
  congr 1
  apply List.filter_congr
  intro a ha
  rw [Function.comp_apply, h.count_map (List.mem_dedup.mp ha)]

end Relabel
