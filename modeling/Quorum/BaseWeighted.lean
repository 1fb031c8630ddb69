import Mathlib.Algebra.BigOperators.Group.List.Basic
import Mathlib.Algebra.Order.BigOperators.Group.List
import Mathlib.Algebra.Order.Field.Basic
import Mathlib.Tactic.FieldSimp
import Mathlib.Tactic.Ring

/-! Weighted means of listed terms, each a weight and a value. A mean of values between zero and one
lies there too, and it tells the values of a term with a weight apart. -/

namespace Weighted

variable {K : Type*} [Field K]

/-- The weights together. -/
def total (terms : List (K × K)) : K := (terms.map Prod.fst).sum

def sum (terms : List (K × K)) : K := (terms.map fun term => term.1 * term.2).sum

def mean (terms : List (K × K)) : K := sum terms / total terms

variable {left right : List (K × K)} {weight value value' : K}

@[simp] theorem total_cons (term : K × K) (terms : List (K × K)) :
    total (term :: terms) = term.1 + total terms := by
  rw [total, List.map_cons, List.sum_cons, ← total]

@[simp] theorem sum_cons (term : K × K) (terms : List (K × K)) :
    sum (term :: terms) = term.1 * term.2 + sum terms := by
  rw [sum, List.map_cons, List.sum_cons, ← sum]

@[simp] theorem total_append (left right : List (K × K)) :
    total (left ++ right) = total left + total right := by
  rw [total, List.map_append, List.sum_append, ← total, ← total]

@[simp] theorem sum_append (left right : List (K × K)) :
    sum (left ++ right) = sum left + sum right := by
  rw [sum, List.map_append, List.sum_append, ← sum, ← sum]

/-- Two means that differ in the value of one term are equal when the values are. -/
theorem mean_middle_inj (hweight : weight ≠ 0)
    (htotal : total (left ++ (weight, value) :: right) ≠ 0) :
    mean (left ++ (weight, value) :: right) = mean (left ++ (weight, value') :: right)
    ↔ value = value' := by
  have hsame : total (left ++ (weight, value') :: right)
      = total (left ++ (weight, value) :: right) := by
    rw [total_append, total_append, total_cons, total_cons]
  constructor
  · intro h
    rw [mean, mean, hsame, div_left_inj' htotal, sum_append, sum_append, sum_cons, sum_cons,
      add_right_inj, add_left_inj] at h
    exact mul_left_cancel₀ hweight h
  · rintro rfl
    rfl

section Order

variable [LinearOrder K] [IsStrictOrderedRing K] {terms : List (K × K)}

/-- Every weight and value is one that a mean may take. -/
def InUnit (terms : List (K × K)) : Prop := ∀ term ∈ terms, 0 ≤ term.1 ∧ 0 ≤ term.2 ∧ term.2 ≤ 1

theorem sum_nonneg (h : InUnit terms) : 0 ≤ sum terms := by
  apply List.sum_nonneg
  intro value hvalue
  obtain ⟨term, hterm, rfl⟩ := List.mem_map.mp hvalue
  exact mul_nonneg (h term hterm).1 (h term hterm).2.1

theorem sum_le_total (h : InUnit terms) : sum terms ≤ total terms := by
  apply List.sum_le_sum
  intro term hterm
  exact mul_le_of_le_one_right (h term hterm).1 (h term hterm).2.2

theorem mean_nonneg (h : InUnit terms) : 0 ≤ mean terms :=
  div_nonneg (sum_nonneg h) ((sum_nonneg h).trans (sum_le_total h))

theorem mean_le_one (h : InUnit terms) : mean terms ≤ 1 :=
  div_le_one_of_le₀ (sum_le_total h) ((sum_nonneg h).trans (sum_le_total h))

end Order

end Weighted
