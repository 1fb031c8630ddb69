import Mathlib.Data.List.Sort
import Mathlib.Tactic

/-! The newest rows by a key: the first of them in descending order. With distinct keys a row is
among the newest `k` exactly if fewer than `k` rows are newer, so what a prune to the newest keeps
reads as before. -/

namespace Newest

section
variable {α β : Type}

/-- No two rows have one key. -/
def Keyed (key : α → β) (rows : List α) : Prop := (rows.map key).Nodup

variable {key : α → β} {rows rows' : List α}

theorem Keyed.eq (h : Keyed key rows) {row other : α} (hrow : row ∈ rows) (hother : other ∈ rows)
    (heq : key row = key other) : row = other := List.inj_on_of_nodup_map h hrow hother heq

theorem Keyed.nodup (h : Keyed key rows) : rows.Nodup := List.Nodup.of_map key h

theorem Keyed.sublist (h : Keyed key rows) (hsub : rows'.Sublist rows) : Keyed key rows' :=
  List.Nodup.sublist (hsub.map key) h

theorem Keyed.of_perm (h : Keyed key rows) (hperm : rows'.Perm rows) : Keyed key rows' :=
  ((hperm.map key).nodup_iff).mpr h

end

variable {α β : Type} [LinearOrder β] (key : α → β)

/-- The rows in descending order of their keys. -/
def sorted (rows : List α) : List α := rows.insertionSort fun row other => key other ≤ key row

/-- The first rows in that order. -/
def newest (k : ℕ) (rows : List α) : List α := (sorted key rows).take k

variable {key}

theorem sorted_perm (rows : List α) : (sorted key rows).Perm rows := List.perm_insertionSort _ rows

theorem sorted_pairwise (rows : List α) : (sorted key rows).Pairwise fun row other =>
    key other ≤ key row :=
  List.pairwise_insertionSort (Order.Preimage key (· ≥ ·)) rows

theorem length_newest_le (k : ℕ) (rows : List α) : (newest key k rows).length ≤ k :=
  List.length_take_le _ _

/-- Distinct keys leave one order. -/
theorem Keyed.sorted_eq {rows rows' : List α} (h : Keyed key rows) (hperm : rows'.Perm rows)
    (hpairwise : rows'.Pairwise fun row other => key other ≤ key row) :
    sorted key rows = rows' := by
  refine List.Perm.eq_of_pairwise (fun row other hrow hother hle hge => ?_)
    (sorted_pairwise rows) hpairwise
    ((sorted_perm rows).trans hperm.symm)
  exact h.eq ((sorted_perm rows).subset hrow) (hperm.subset hother) (le_antisymm hge hle)

/-- Among the first `k` of a descending list are the rows with fewer than `k` newer ones. -/
theorem mem_take_iff {rows : List α} (h : rows.Pairwise fun row other => key other < key row)
    (k : ℕ) (row : α) :
    row ∈ rows.take k ↔ row ∈ rows ∧ (rows.countP fun other => key row < key other) < k := by
  induction rows generalizing k with
  | nil => simp
  | cons first rows ih =>
      obtain ⟨hfirst, hrows⟩ := List.pairwise_cons.mp h
      cases k with
      | zero => simp
      | succ k =>
          rw [List.take_succ_cons, List.mem_cons, List.mem_cons, ih hrows, List.countP_cons]
          by_cases hrow : row = first
          · subst hrow
            have hnone : rows.countP (fun other => key row < key other) = 0 := by
              rw [List.countP_eq_zero]
              intro other hother hlt
              exact absurd (of_decide_eq_true hlt) (not_lt.mpr (hfirst other hother).le)
            simp [hnone]
          · constructor
            · rintro (heq | ⟨hmem, hcount⟩)
              · exact absurd heq hrow
              · rw [if_pos (decide_eq_true (hfirst row hmem))]
                exact ⟨.inr hmem, by omega⟩
            · rintro ⟨heq | hmem, hcount⟩
              · exact absurd heq hrow
              · rw [if_pos (decide_eq_true (hfirst row hmem))] at hcount
                exact .inr ⟨hmem, by omega⟩

theorem Keyed.sorted_strict {rows : List α} (h : Keyed key rows) :
    (sorted key rows).Pairwise fun row other => key other < key row := by
  have hnodup : ((sorted key rows).map key).Nodup := h.of_perm (sorted_perm rows)
  rw [List.Nodup, List.pairwise_map] at hnodup
  exact (sorted_pairwise rows).imp₂ (fun _ _ hle hne => lt_of_le_of_ne hle (Ne.symm hne)) hnodup

/-- A row is among the newest `k` exactly if fewer than `k` rows are newer. -/
theorem Keyed.mem_newest_iff {rows : List α} (h : Keyed key rows) (k : ℕ) (row : α) :
    row ∈ newest key k rows ↔ row ∈ rows ∧ (rows.countP fun other => key row < key other) < k := by
  rw [newest, mem_take_iff h.sorted_strict, (sorted_perm rows).mem_iff,
    (sorted_perm rows).countP_eq]

/-- The newest rows of what a prune to the newest keeps are the newest rows. -/
theorem Keyed.newest_prune {rows kept : List α} (h : Keyed key rows) {k : ℕ}
    (hperm : kept.Perm (newest key k rows)) :
    newest key k kept = newest key k rows := by
  have hsub : (newest key k rows).Sublist (sorted key rows) := List.take_sublist _ _
  have hkeyed : Keyed key kept := ((h.of_perm (sorted_perm rows)).sublist hsub).of_perm hperm
  have hsorted : sorted key kept = newest key k rows :=
    hkeyed.sorted_eq hperm.symm ((sorted_pairwise rows).sublist hsub)
  rw [newest, hsorted, List.take_of_length_le (length_newest_le k rows)]

/-- What a filter to the newest keeps, in whatever order the table has it. -/
theorem Keyed.filter_newest_perm {rows : List α} [DecidableEq α] (h : Keyed key rows) (k : ℕ) :
    (rows.filter fun row => row ∈ newest key k rows).Perm (newest key k rows) := by
  have hsub : (newest key k rows).Sublist (sorted key rows) := List.take_sublist _ _
  have hnodup : (newest key k rows).Nodup :=
    List.Nodup.sublist hsub ((sorted_perm rows).nodup_iff.mpr h.nodup)
  refine (List.perm_ext_iff_of_nodup (h.nodup.filter _) hnodup).mpr fun row => ?_
  rw [List.mem_filter, decide_eq_true_iff]
  exact ⟨And.right, fun hmem => ⟨((h.mem_newest_iff k row).mp hmem).1, hmem⟩⟩

end Newest
