import Mathlib.Algebra.BigOperators.Group.List.Basic
import Mathlib.Algebra.Order.BigOperators.Group.List
import Mathlib.Algebra.Order.Field.Basic
import Mathlib.Algebra.Order.Round
import Mathlib.Data.List.GetD
import Mathlib.Data.List.Sort
import Mathlib.Data.Prod.Lex
import Mathlib.Tactic.Linarith
import Mathlib.Tactic.Ring
import Mathlib.Tactic.NormNum

/-! Apportionment of a rounded sum by largest remainders. Every share is rounded down, and the steps
that are missing from the rounded total go one each to the shares with the largest fractional parts.
No more steps are missing than there are shares with a positive fractional part, so a share that was
whole is never raised. -/

namespace Apportion

/-! ### Rounding -/

section Rounding

variable {K : Type*} [Field K] [LinearOrder K] [FloorRing K]

/-- The nearest integer, with ties away from zero. -/
def roundHalfUp (x : K) : ℤ :=
  if 0 ≤ x then ⌊x + 1 / 2⌋ else ⌈x - 1 / 2⌉

theorem roundHalfUp_of_nonneg {x : K} (hx : 0 ≤ x) : roundHalfUp x = ⌊x + 1 / 2⌋ :=
  if_pos hx

variable [IsStrictOrderedRing K]

@[simp]
theorem roundHalfUp_intCast (n : ℤ) : roundHalfUp (n : K) = n := by
  have hhalf : ⌊(1 / 2 : K)⌋ = 0 := Int.floor_eq_zero_iff.mpr ⟨by norm_num, by norm_num⟩
  have hneg : ⌈(-(1 / 2) : K)⌉ = 0 := Int.ceil_eq_zero_iff.mpr ⟨by norm_num, by norm_num⟩
  rw [roundHalfUp]
  split_ifs
  · rw [Int.floor_intCast_add, hhalf, add_zero]
  · rw [sub_eq_add_neg, Int.ceil_intCast_add, hneg, add_zero]

theorem lt_roundHalfUp_add_half {x : K} (hx : 0 ≤ x) : x < roundHalfUp x + 1 / 2 := by
  have h := Int.lt_floor_add_one (x + 1 / 2)
  rw [roundHalfUp_of_nonneg hx]
  linarith

theorem roundHalfUp_nonneg {x : K} (hx : 0 ≤ x) : 0 ≤ roundHalfUp x := by
  rw [roundHalfUp_of_nonneg hx]
  exact Int.floor_nonneg.mpr (by positivity)

theorem roundHalfUp_le_roundHalfUp {x y : K} (hx : 0 ≤ x) (hxy : x ≤ y) :
    roundHalfUp x ≤ roundHalfUp y := by
  rw [roundHalfUp_of_nonneg hx, roundHalfUp_of_nonneg (hx.trans hxy)]
  exact Int.floor_le_floor (by linarith)

end Rounding

/-! ### Raising chosen positions -/

/-- The list with `d` added at each of the chosen positions, one after the other. -/
def bump (d : ℤ) (chosen : List ℕ) (steps : List ℤ) : List ℤ :=
  chosen.foldl (fun steps i => steps.modify i (· + d)) steps

@[simp]
theorem length_bump (d : ℤ) (chosen : List ℕ) (steps : List ℤ) :
    (bump d chosen steps).length = steps.length := by
  induction chosen generalizing steps with
  | nil => rfl
  | cons i chosen ih => exact (ih _).trans (List.length_modify _ _ _)

theorem sum_modify_add (d : ℤ) (steps : List ℤ) (i : ℕ) (hi : i < steps.length) :
    (steps.modify i (· + d)).sum = steps.sum + d := by
  induction steps generalizing i with
  | nil => exact absurd hi (Nat.not_lt_zero i)
  | cons s steps ih =>
      cases i with
      | zero => rw [List.modify_zero_cons, List.sum_cons, List.sum_cons]; ring
      | succ i =>
          rw [List.modify_succ_cons, List.sum_cons, List.sum_cons, ih i (Nat.lt_of_succ_lt_succ hi)]
          ring

theorem sum_bump (d : ℤ) (chosen : List ℕ) (steps : List ℤ) (hin : ∀ i ∈ chosen, i < steps.length) :
    (bump d chosen steps).sum = steps.sum + chosen.length * d := by
  induction chosen generalizing steps with
  | nil => simp [bump]
  | cons i chosen ih =>
      have hrest : ∀ j ∈ chosen, j < (steps.modify i (· + d)).length := fun j hj => by
        rw [List.length_modify]
        exact hin j (List.mem_cons_of_mem i hj)
      calc (bump d (i :: chosen) steps).sum
          = (steps.modify i (· + d)).sum + chosen.length * d := ih _ hrest
        _ = steps.sum + d + chosen.length * d := by rw [sum_modify_add d steps i (hin i (by simp))]
        _ = steps.sum + (i :: chosen).length * d := by rw [List.length_cons]; push_cast; ring

/-- A position is raised once when it is chosen, and not otherwise. -/
theorem getElem?_bump (d : ℤ) (chosen : List ℕ) (steps : List ℤ) (hnodup : chosen.Nodup) (j : ℕ) :
    (bump d chosen steps)[j]? = steps[j]?.map fun s => if j ∈ chosen then s + d else s := by
  induction chosen generalizing steps with
  | nil => simp [bump]
  | cons i chosen ih =>
      obtain ⟨hi, hchosen⟩ := List.nodup_cons.mp hnodup
      refine (ih _ hchosen).trans ?_
      rw [List.getElem?_modify, Option.map_eq_map, Option.map_map]
      congr 1
      funext s
      by_cases hij : i = j
      · subst hij
        simp [hi]
      · simp [hij, Ne.symm hij]

/-! ### The order of the remainders -/

/-- A list in the order of a key, equal keys as they stand. -/
def sortedBy {κ : Type*} [LinearOrder κ] (key : ℕ → κ) (l : List ℕ) : List ℕ :=
  l.insertionSort (Order.Preimage key (· ≤ ·))

theorem perm_sortedBy {κ : Type*} [LinearOrder κ] (key : ℕ → κ) (l : List ℕ) :
    (sortedBy key l).Perm l :=
  List.perm_insertionSort _ l

theorem pairwise_sortedBy {κ : Type*} [LinearOrder κ] (key : ℕ → κ) (l : List ℕ) :
    (sortedBy key l).Pairwise fun i j => key i ≤ key j :=
  List.pairwise_insertionSort (Order.Preimage key (· ≤ ·)) l

section Order

variable {K : Type*} [Zero K] [LinearOrder K]

/-- The positions with the largest entries first. -/
def largestFirst (remainders : List K) : List ℕ :=
  sortedBy (fun i => toLex (OrderDual.toDual (remainders.getD i 0), i))
    (List.range remainders.length)

/-- The given positions with the smallest entries first. -/
def smallestFirst (remainders : List K) (positions : List ℕ) : List ℕ :=
  sortedBy (fun i => toLex (remainders.getD i 0, i)) positions

theorem nodup_largestFirst (remainders : List K) : (largestFirst remainders).Nodup :=
  (perm_sortedBy _ _).nodup_iff.mpr List.nodup_range

theorem length_largestFirst (remainders : List K) :
    (largestFirst remainders).length = remainders.length := by
  rw [largestFirst, (perm_sortedBy _ _).length_eq, List.length_range]

theorem mem_largestFirst {remainders : List K} {i : ℕ} :
    i ∈ largestFirst remainders ↔ i < remainders.length := by
  rw [largestFirst, (perm_sortedBy _ _).mem_iff, List.mem_range]

theorem pairwise_largestFirst (remainders : List K) :
    (largestFirst remainders).Pairwise fun i j => remainders.getD j 0 ≤ remainders.getD i 0 := by
  refine (pairwise_sortedBy _ _).imp fun {i j} h => ?_
  rcases Prod.Lex.toLex_le_toLex.mp h with hlt | ⟨heq, -⟩
  · exact (OrderDual.toDual_lt_toDual.mp hlt).le
  · exact (OrderDual.toDual_inj.mp heq).ge

/-- Where `p` is inherited by everything earlier, the first entries have it up to their number. -/
theorem forall_mem_take_of_pairwise {p : ℕ → Prop} [DecidablePred p] (l : List ℕ) (k : ℕ)
    (hl : l.Pairwise fun i j => p j → p i) (hk : k ≤ l.countP p) : ∀ i ∈ l.take k, p i := by
  induction l generalizing k with
  | nil => simp
  | cons i l ih =>
      obtain ⟨hi, hrest⟩ := List.pairwise_cons.mp hl
      cases k with
      | zero => simp
      | succ k =>
          by_cases hp : p i
          · rw [List.countP_cons_of_pos (by simpa using hp)] at hk
            intro j hj
            rcases List.mem_cons.mp hj with rfl | hj
            · exact hp
            · exact ih k hrest (by omega) j hj
          · have hnone : (i :: l).countP p = 0 := List.countP_eq_zero.mpr fun j hj => by
              rcases List.mem_cons.mp hj with rfl | hj
              · simpa using hp
              · simpa using fun hpj => hp (hi j hj hpj)
            omega

theorem countP_largestFirst (remainders : List K) :
    (largestFirst remainders).countP (fun i => 0 < remainders.getD i 0) =
      remainders.countP (0 < ·) := by
  have hmap : remainders = (List.range remainders.length).map fun i => remainders.getD i 0 := by
    refine List.ext_getElem (by simp) fun i hi _ => ?_
    rw [List.getElem_map, List.getElem_range, List.getD_eq_getElem _ _ hi]
  rw [largestFirst, (perm_sortedBy _ _).countP_eq]
  conv_rhs => rw [hmap, List.countP_map]
  rfl

theorem pos_of_mem_take {remainders : List K} {k : ℕ} (hk : k ≤ remainders.countP (0 < ·)) {i : ℕ}
    (hi : i ∈ (largestFirst remainders).take k) : 0 < remainders.getD i 0 := by
  refine forall_mem_take_of_pairwise (p := fun i => 0 < remainders.getD i 0) _ k ?_ ?_ i hi
  · exact (pairwise_largestFirst remainders).imp fun hle hpos => hpos.trans_le hle
  · exact hk.trans (countP_largestFirst remainders).ge

end Order

/-! ### The shares -/

section Shares

variable {K : Type*} [Field K] [LinearOrder K] [FloorRing K]

/-- What a whole share may be: the exact one rounded down, or one more when something was cut
off. -/
def Share (x : K) (n : ℤ) : Prop :=
  n = ⌊x⌋ ∨ n = ⌊x⌋ + 1 ∧ 0 < Int.fract x

/-- The exact shares rounded down, with `k` steps handed to the largest remainders. -/
def apportion (xs : List K) (k : ℕ) : List ℤ :=
  bump 1 ((largestFirst (xs.map Int.fract)).take k) (xs.map Int.floor)

/-- The steps that the rounded sum is above the rounded-down shares. -/
def missing (xs : List K) : ℤ :=
  roundHalfUp xs.sum - (xs.map Int.floor).sum

theorem Share.nonneg {x : K} {n : ℤ} (h : Share x n) (hx : 0 ≤ x) : 0 ≤ n := by
  have hfloor : 0 ≤ ⌊x⌋ := Int.floor_nonneg.mpr hx
  rcases h with rfl | ⟨rfl, -⟩ <;> omega

theorem sum_floor_add_sum_fract (xs : List K) :
    ((xs.map Int.floor).sum : K) + (xs.map Int.fract).sum = xs.sum := by
  induction xs with
  | nil => simp
  | cons x xs ih =>
      calc (((x :: xs).map Int.floor).sum : K) + ((x :: xs).map Int.fract).sum
          = ⌊x⌋ + Int.fract x + (((xs.map Int.floor).sum : K) + (xs.map Int.fract).sum) := by
            rw [List.map_cons, List.map_cons, List.sum_cons, List.sum_cons]; push_cast; ring
        _ = (x :: xs).sum := by rw [ih, Int.floor_add_fract, List.sum_cons]

theorem sum_apportion (xs : List K) (k : ℕ) (hk : k ≤ xs.length) :
    (apportion xs k).sum = (xs.map Int.floor).sum + k := by
  have hlen : ((largestFirst (xs.map Int.fract)).take k).length = k := by
    rw [List.length_take, length_largestFirst, List.length_map, min_eq_left hk]
  rw [apportion, sum_bump, hlen, mul_one]
  intro i hi
  simpa using mem_largestFirst.mp (List.mem_of_mem_take hi)

theorem apportion_share (xs : List K) (k : ℕ) (hk : k ≤ (xs.map Int.fract).countP (0 < ·)) :
    List.Forall₂ Share xs (apportion xs k) := by
  refine List.forall₂_iff_get.mpr ⟨by simp [apportion], fun i hi hi' => ?_⟩
  have hnodup := (List.take_sublist k _).nodup (nodup_largestFirst (xs.map Int.fract))
  have hget := getElem?_bump 1 _ (xs.map Int.floor) hnodup i
  rw [show bump 1 _ _ = apportion xs k from rfl, List.getElem?_eq_getElem hi', List.getElem?_map,
    List.getElem?_eq_getElem hi, Option.map_some, Option.map_some, Option.some_inj] at hget
  rw [List.get_eq_getElem, List.get_eq_getElem, hget]
  split_ifs with hchosen
  · have hpos := pos_of_mem_take hk hchosen
    rw [List.getD_eq_getElem _ _ (by simpa using hi), List.getElem_map] at hpos
    exact Or.inr ⟨rfl, hpos⟩
  · exact Or.inl rfl

variable [IsStrictOrderedRing K]

theorem Share.abs_sub_lt {x : K} {n : ℤ} (h : Share x n) : |(n : K) - x| < 1 := by
  rw [abs_sub_lt_iff]
  rcases h with rfl | ⟨rfl, hpos⟩
  · exact ⟨by linarith [Int.floor_le x], by linarith [Int.lt_floor_add_one x]⟩
  · have hx := Int.self_sub_floor x
    push_cast
    exact ⟨by linarith, by linarith [Int.lt_floor_add_one x]⟩

theorem Share.eq_zero {n : ℤ} (h : Share (0 : K) n) : n = 0 := by
  rcases h with rfl | ⟨-, hpos⟩
  · exact Int.floor_zero
  · exact absurd hpos (by simp)

/-! ### The missing steps -/

theorem sum_fract_le (xs : List K) :
    (xs.map Int.fract).sum ≤ (xs.map Int.fract).countP (0 < ·) := by
  induction xs with
  | nil => simp
  | cons x xs ih =>
      rw [List.map_cons, List.sum_cons]
      rcases (Int.fract_nonneg x).eq_or_lt with hzero | hpos
      · rw [List.countP_cons_of_neg (by simp [← hzero]), ← hzero, zero_add]
        exact ih
      · rw [List.countP_cons_of_pos (by simpa using hpos)]
        push_cast
        linarith [Int.fract_lt_one x]

theorem sum_fract_nonneg (xs : List K) : 0 ≤ (xs.map Int.fract).sum :=
  List.sum_nonneg fun y hy => by
    obtain ⟨x, -, rfl⟩ := List.mem_map.mp hy
    exact Int.fract_nonneg x

theorem missing_eq (xs : List K) (hsum : 0 ≤ xs.sum) :
    missing xs = ⌊(xs.map Int.fract).sum + 1 / 2⌋ := by
  rw [missing, roundHalfUp_of_nonneg hsum, ← sum_floor_add_sum_fract, add_assoc,
    Int.floor_intCast_add, add_sub_cancel_left]

theorem missing_nonneg (xs : List K) (hsum : 0 ≤ xs.sum) : 0 ≤ missing xs := by
  rw [missing_eq xs hsum]
  exact Int.floor_nonneg.mpr (add_nonneg (sum_fract_nonneg xs) (by norm_num))

/-- Every missing step has a share with a positive remainder to go to. -/
theorem missing_le_countP (xs : List K) (hsum : 0 ≤ xs.sum) :
    missing xs ≤ (xs.map Int.fract).countP (0 < ·) := by
  rw [missing_eq xs hsum]
  refine Int.lt_add_one_iff.mp (Int.floor_lt.mpr ?_)
  have hle := sum_fract_le xs
  push_cast
  linarith

/-- The rounded sum, apportioned. -/
theorem apportion_missing (xs : List K) (hsum : 0 ≤ xs.sum) :
    List.Forall₂ Share xs (apportion xs (missing xs).toNat) ∧
      (apportion xs (missing xs).toNat).sum = roundHalfUp xs.sum := by
  have hnonneg := missing_nonneg xs hsum
  have hcount : (missing xs).toNat ≤ (xs.map Int.fract).countP (0 < ·) := by
    have hle := missing_le_countP xs hsum
    omega
  refine ⟨apportion_share xs _ hcount, ?_⟩
  rw [sum_apportion xs _ (hcount.trans (by simpa using List.countP_le_length)),
    Int.toNat_of_nonneg hnonneg, missing, add_sub_cancel]

end Shares

end Apportion
