import Mathlib.Data.List.Nodup
import Mathlib.Tactic

/-! Rows of a table with a primary key. An upsert merges into the row of its key or adds the row, an
update rewrites the rows that match; both are seen at one key, where the table is at most one
row. -/

namespace Rows

variable {α κ : Type} [DecidableEq κ] (key : α → κ)

/-- The row of a key. -/
def rowOf (k : κ) (rows : List α) : Option α := rows.find? fun row => key row = k

/-- The rows after an update of those that match. -/
def updateWhere (p : α → Bool) (f : α → α) (rows : List α) : List α :=
  rows.map fun row => if p row then f row else row

/-- The rows after an insert that merges into the row of its key where there is one. -/
def upsert (merge : α → α → α) (row : α) (rows : List α) : List α :=
  if rows.any fun kept => key kept = key row then
    updateWhere (fun kept => key kept = key row) (merge · row) rows
  else rows ++ [row]

variable {key} {k : κ} {rows : List α}

theorem rowOf_mem {row : α} (h : rowOf key k rows = some row) : row ∈ rows ∧ key row = k := by
  rw [rowOf] at h
  have hkey := List.find?_some h
  exact ⟨List.mem_of_find?_eq_some h, of_decide_eq_true hkey⟩

theorem rowOf_eq_none : rowOf key k rows = none ↔ k ∉ rows.map key := by
  rw [rowOf, List.find?_eq_none, List.mem_map]
  constructor
  · rintro h ⟨row, hrow, hkey⟩
    exact h row hrow (decide_eq_true hkey)
  · intro h row hrow hkey
    exact h ⟨row, hrow, of_decide_eq_true hkey⟩

theorem rowOf_eq_some (h : (rows.map key).Nodup) {row : α} (hrow : row ∈ rows) :
    rowOf key (key row) rows = some row := by
  cases hfound : rowOf key (key row) rows with
  | none => exact absurd (List.mem_map_of_mem hrow) (rowOf_eq_none.mp hfound)
  | some found =>
      obtain ⟨hmem, hkey⟩ := rowOf_mem hfound
      rw [List.inj_on_of_nodup_map h hmem hrow hkey]

section
variable {p : α → Bool} {f : α → α}

omit [DecidableEq κ] in
theorem key_updated (hf : ∀ row, p row = true → key (f row) = key row) (row : α) :
    key (if p row then f row else row) = key row := by
  split_ifs with hp
  · exact hf row hp
  · rfl

omit [DecidableEq κ] in
theorem keys_updateWhere (hf : ∀ row, p row = true → key (f row) = key row) (rows : List α) :
    (updateWhere p f rows).map key = rows.map key := by
  rw [updateWhere, List.map_map]
  exact List.map_congr_left fun row _ => key_updated hf row

omit [DecidableEq κ] in
theorem nodup_updateWhere (hf : ∀ row, p row = true → key (f row) = key row)
    (h : (rows.map key).Nodup) :
    ((updateWhere p f rows).map key).Nodup := by
  rw [keys_updateWhere hf]
  exact h

theorem rowOf_updateWhere (hf : ∀ row, p row = true → key (f row) = key row) (k : κ)
    (rows : List α) :
    rowOf key k (updateWhere p f rows) = (rowOf key k rows).map fun row =>
      if p row then f row else row := by
  rw [rowOf, updateWhere, List.find?_map, rowOf]
  congr 2
  funext row
  exact congrArg (fun found => decide (found = k)) (key_updated hf row)

end

section
variable {merge : α → α → α} {row : α}

theorem any_key : (rows.any fun kept => key kept = key row) = true ↔ key row ∈ rows.map key := by
  rw [List.any_eq_true, List.mem_map]
  exact exists_congr fun kept => and_congr_right fun _ => decide_eq_true_iff

theorem nodup_upsert (hmerge : ∀ kept, key kept = key row → key (merge kept row) = key kept)
    (h : (rows.map key).Nodup) : ((upsert key merge row rows).map key).Nodup := by
  rw [upsert]
  split_ifs with hkept
  · exact nodup_updateWhere (fun kept hkey => hmerge kept (of_decide_eq_true hkey)) h
  · rw [List.map_append, List.map_singleton]
    exact List.nodup_append.mpr ⟨h, List.nodup_singleton _, fun found hfound other hother heq =>
      hkept (any_key.mpr (List.mem_singleton.mp hother ▸ heq ▸ hfound))⟩

/-- An upsert changes the row of its own key only: it merges into it, or adds it. -/
theorem rowOf_upsert (hmerge : ∀ kept, key kept = key row → key (merge kept row) = key kept) (k : κ)
    (rows : List α) :
    rowOf key k (upsert key merge row rows)
      = if key row = k then some ((rowOf key k rows).elim row (merge · row)) else rowOf
          key k rows := by
  rw [upsert]
  by_cases hkept : (rows.any fun kept => key kept = key row) = true
  · rw [if_pos hkept, rowOf_updateWhere fun kept hkey => hmerge kept (of_decide_eq_true hkey)]
    cases hfound : rowOf key k rows with
    | none =>
        rw [if_neg]
        · rfl
        · rintro rfl
          exact rowOf_eq_none.mp hfound (any_key.mp hkept)
    | some kept =>
        obtain ⟨-, hkey⟩ := rowOf_mem hfound
        simp only [Option.map_some, Option.elim_some, hkey, eq_comm (a := k), decide_eq_true_eq]
        split_ifs <;> rfl
  · rw [if_neg hkept]
    have hnone : key row ∉ rows.map key := fun h => hkept (any_key.mpr h)
    rw [rowOf, List.find?_append, List.find?_singleton]
    by_cases hkey : key row = k
    · have habsent : rows.find? (fun row => key row = k) = none := rowOf_eq_none.mpr (hkey ▸ hnone)
      rw [if_pos hkey, rowOf, habsent, decide_eq_true hkey]
      rfl
    · rw [if_neg hkey, decide_eq_false hkey]
      exact Option.or_none

end

end Rows
