import Quorum.BaseApportion
import Quorum.CostComponents

/-! The lines of a cost breakdown. A breakdown shows one total twice, by model and by stage, in
steps of the display quantum. The exact amounts of a partition are reconciled to the rounded total:
each is rounded down, and the missing quanta go to the largest remainders. The lines then sum to the
total exactly. -/

namespace Quorum

open Apportion

/-- `COST_DISPLAY_QUANTUM`. -/
def costDisplayQuantum : ℚ := 1 / 10000

theorem costDisplayQuantum_pos : 0 < costDisplayQuantum := by
  norm_num [costDisplayQuantum]

/-- `quantize(COST_DISPLAY_QUANTUM, rounding=ROUND_HALF_UP)`. -/
def quantize (amount : ℚ) : ℚ :=
  roundHalfUp (amount / costDisplayQuantum) * costDisplayQuantum

theorem quantize_div (amount : ℚ) :
    quantize amount / costDisplayQuantum = roundHalfUp (amount / costDisplayQuantum) :=
  mul_div_cancel_right₀ _ costDisplayQuantum_pos.ne'

@[simp]
theorem quantize_zero : quantize 0 = 0 := by
  rw [quantize, zero_div, ← Int.cast_zero, roundHalfUp_intCast, Int.cast_zero, zero_mul]

theorem quantize_nonneg {amount : ℚ} (h : 0 ≤ amount) : 0 ≤ quantize amount :=
  mul_nonneg (Int.cast_nonneg (roundHalfUp_nonneg (div_nonneg h costDisplayQuantum_pos.le)))
    costDisplayQuantum_pos.le

theorem quantize_le_quantize {amount amount' : ℚ} (h : 0 ≤ amount) (hle : amount ≤ amount') :
    quantize amount ≤ quantize amount' := by
  have hsteps : roundHalfUp (amount / costDisplayQuantum)
      ≤ roundHalfUp (amount' / costDisplayQuantum) :=
    roundHalfUp_le_roundHalfUp (div_nonneg h costDisplayQuantum_pos.le)
      (div_le_div_of_nonneg_right hle costDisplayQuantum_pos.le)
  exact mul_le_mul_of_nonneg_right (Int.cast_le.mpr hsteps) costDisplayQuantum_pos.le

/-- Rounding loses less than half a quantum. -/
theorem lt_quantize_add_half {amount : ℚ} (h : 0 ≤ amount) :
    amount < quantize amount + costDisplayQuantum / 2 := by
  have hq := costDisplayQuantum_pos
  calc amount = amount / costDisplayQuantum * costDisplayQuantum := (div_mul_cancel₀ amount hq.ne').symm
    _ < (roundHalfUp (amount / costDisplayQuantum) + 1 / 2) * costDisplayQuantum :=
        mul_lt_mul_of_pos_right (lt_roundHalfUp_add_half (div_nonneg h hq.le)) hq
    _ = quantize amount + costDisplayQuantum / 2 := by
        rw [quantize]
        ring

/-- What the cost service raises. -/
inductive CostError
  | components (message : String)
  | reconcileEmpty (total : ℚ)
  | reconcileNegative
  | zipLengths
  | lineNegative (usd : ℚ)
  | unpackSlot
  | quickDebateSpend
  | critiqueAboveDebate (critiqueTotal debateTotal : ℚ)
deriving DecidableEq

/-! ### Reconciliation -/

/-- `_reconcile_usd_lines`. The last branch takes quanta back, smallest remainder first, and only
from lines that still have one. -/
def reconcileUsdLines (raw : List ℚ) (total : ℚ) : Except CostError (List ℚ) :=
  if raw = [] then
    if total ≠ 0 then .error (.reconcileEmpty total) else .ok []
  else
    let floorSteps := raw.map fun v => ⌊v / costDisplayQuantum⌋
    let remainders := List.zipWith (fun v (fs : ℤ) => v / costDisplayQuantum - fs) raw floorSteps
    let residual := total - (floorSteps.map fun fs : ℤ => fs * costDisplayQuantum).sum
    let residualSteps := roundHalfUp (residual / costDisplayQuantum)
    let usd := fun steps : List ℤ => steps.map fun s : ℤ => s * costDisplayQuantum
    if 0 < residualSteps then
      .ok (usd (bump 1 ((largestFirst remainders).take residualSteps.toNat) floorSteps))
    else if residualSteps < 0 then
      let order := smallestFirst remainders
        ((List.range floorSteps.length).filter fun i => 0 < floorSteps.getD i 0)
      let needed := (-residualSteps).toNat
      if order.length < needed then .error .reconcileNegative
      else .ok (usd (bump (-1) (order.take needed) floorSteps))
    else .ok (usd floorSteps)

/-- A reconciled line for a raw amount: the amount rounded down to the quantum, or one quantum more
when something was cut off. -/
def Apportioned (raw usd : ℚ) : Prop :=
  ∃ steps : ℤ, Share (raw / costDisplayQuantum) steps ∧ usd = steps * costDisplayQuantum

/-- What a line shows of a raw amount: it is not negative, it is within one quantum, and nothing is
nothing. -/
structure LineOf (raw usd : ℚ) : Prop where
  nonneg : 0 ≤ usd
  within : |usd - raw| < costDisplayQuantum
  zero : raw = 0 → usd = 0

theorem Apportioned.lineOf {raw usd : ℚ} (hraw : 0 ≤ raw) (h : Apportioned raw usd) :
    LineOf raw usd := by
  obtain ⟨steps, hshare, rfl⟩ := h
  have hq := costDisplayQuantum_pos
  refine ⟨?_, ?_, ?_⟩
  · exact mul_nonneg (Int.cast_nonneg (hshare.nonneg (div_nonneg hraw hq.le))) hq.le
  · calc |(steps : ℚ) * costDisplayQuantum - raw|
        = |((steps : ℚ) - raw / costDisplayQuantum) * costDisplayQuantum| := by
          rw [sub_mul, div_mul_cancel₀ raw hq.ne']
      _ = |(steps : ℚ) - raw / costDisplayQuantum| * costDisplayQuantum := by
        rw [abs_mul, abs_of_pos hq]
      _ < 1 * costDisplayQuantum := mul_lt_mul_of_pos_right hshare.abs_sub_lt hq
      _ = costDisplayQuantum := one_mul _
  · rintro rfl
    rw [zero_div] at hshare
    rw [hshare.eq_zero, Int.cast_zero, zero_mul]

/-- Two lines of one raw amount are equal, or one quantum apart with the lower one below the
amount. -/
theorem Apportioned.eq_or_apart {raw one two : ℚ} (h1 : Apportioned raw one)
    (h2 : Apportioned raw two) (hlt : two < one) : one = two + costDisplayQuantum := by
  obtain ⟨n, hn, rfl⟩ := h1
  obtain ⟨m, hm, rfl⟩ := h2
  have hmn : m < n := by
    have h := lt_of_mul_lt_mul_right hlt costDisplayQuantum_pos.le
    exact_mod_cast h
  have hsucc : n = m + 1 := by
    rcases hn with hn | ⟨hn, -⟩ <;> rcases hm with hm | ⟨hm, -⟩ <;> omega
  rw [hsucc]
  push_cast
  ring

theorem sum_usd (steps : List ℤ) :
    (steps.map fun s : ℤ => (s : ℚ) * costDisplayQuantum).sum = steps.sum * costDisplayQuantum := by
  rw [List.sum_map_mul_right]
  push_cast
  rfl

theorem sum_div_quantum (raw : List ℚ) :
    (raw.map (· / costDisplayQuantum)).sum = raw.sum / costDisplayQuantum := by
  simp only [div_eq_mul_inv]
  rw [List.sum_map_mul_right, List.map_id']

/-- Reconciling to the rounded sum hands out the missing steps of the largest-remainder
apportionment. -/
theorem reconcileUsdLines_quantize (raw : List ℚ) (hempty : raw ≠ []) (hraw : ∀ v ∈ raw, 0 ≤ v) :
    reconcileUsdLines raw (quantize raw.sum) =
      .ok ((apportion (raw.map (· / costDisplayQuantum))
        (missing (raw.map (· / costDisplayQuantum))).toNat).map fun s : ℤ =>
          s * costDisplayQuantum) := by
  set xs := raw.map (· / costDisplayQuantum) with hxs
  have hfloor : (raw.map fun v => ⌊v / costDisplayQuantum⌋) = xs.map Int.floor := by
    rw [hxs, List.map_map]
    rfl
  have hfract : List.zipWith (fun v (fs : ℤ) => v / costDisplayQuantum - fs) raw
      (xs.map Int.floor) =
      xs.map Int.fract := by
    rw [hxs, List.map_map, List.map_map, List.zipWith_map_right, List.zipWith_self]
    rfl
  have hsum : xs.sum = raw.sum / costDisplayQuantum := sum_div_quantum raw
  have hnonneg : 0 ≤ missing xs := missing_nonneg xs
    (hsum ▸ div_nonneg (List.sum_nonneg hraw) costDisplayQuantum_pos.le)
  have hresidual : roundHalfUp ((quantize raw.sum - ((xs.map Int.floor).map fun fs : ℤ =>
      (fs : ℚ) * costDisplayQuantum).sum) / costDisplayQuantum) = missing xs := by
    rw [sum_usd, sub_div, quantize_div, mul_div_cancel_right₀ _ costDisplayQuantum_pos.ne', ← hsum,
      ← Int.cast_sub, roundHalfUp_intCast, missing]
  rw [reconcileUsdLines, if_neg hempty]
  simp only [hfloor, hfract, hresidual]
  rcases hnonneg.lt_or_eq with hpos | hzero
  · rw [if_pos hpos]
    rfl
  · rw [if_neg hzero.not_lt, if_neg hzero.not_gt, ← hzero]
    rfl

/-- The reconciled lines show their raw amounts and sum to the rounded total. -/
theorem reconcileUsdLines_spec (raw : List ℚ) (hraw : ∀ v ∈ raw, 0 ≤ v) :
    ∃ usd, reconcileUsdLines raw (quantize raw.sum) = .ok usd ∧ List.Forall₂ Apportioned raw usd ∧
      usd.sum = quantize raw.sum := by
  by_cases hempty : raw = []
  · subst hempty
    exact ⟨[], by simp [reconcileUsdLines], List.Forall₂.nil, by simp⟩
  have hsum : 0 ≤ (raw.map (· / costDisplayQuantum)).sum :=
    sum_div_quantum raw ▸ div_nonneg (List.sum_nonneg hraw) costDisplayQuantum_pos.le
  obtain ⟨hshares, htotal⟩ := apportion_missing _ hsum
  refine ⟨_, reconcileUsdLines_quantize raw hempty hraw, ?_, ?_⟩
  · rw [List.forall₂_map_right_iff]
    refine (List.forall₂_map_left_iff.mp hshares).imp fun v steps hshare => ?_
    exact ⟨steps, hshare, rfl⟩
  · rw [sum_usd, htotal, sum_div_quantum, quantize]

/-! ### Lines -/

/-- A labelled line, whose amount is never negative. -/
structure CostLine (Label : Type) where
  label : Label
  usd : ℚ
  nonneg : 0 ≤ usd

section

variable {Label : Type}

/-- One line a label, in order. The two lists must be of one length, and a negative amount is
refused. -/
def costLines : List Label → List ℚ → Except CostError (List (CostLine Label))
  | [], [] => .ok []
  | label :: labels, usd :: rest =>
      if h : 0 ≤ usd then (costLines labels rest).map (⟨label, usd, h⟩ :: ·)
      else .error (.lineNegative usd)
  | _, _ => .error .zipLengths

theorem costLines_ok (labels : List Label) (usd : List ℚ) (hlength : labels.length = usd.length)
    (hnonneg : ∀ amount ∈ usd, 0 ≤ amount) :
    ∃ lines, costLines labels usd = .ok lines ∧ lines.map CostLine.label = labels ∧
      lines.map CostLine.usd = usd := by
  induction labels generalizing usd with
  | nil =>
      obtain rfl := List.length_eq_zero_iff.mp hlength.symm
      exact ⟨[], rfl, rfl, rfl⟩
  | cons label labels ih =>
      obtain ⟨amount, rest, rfl⟩ := List.exists_cons_of_length_eq_add_one hlength.symm
      obtain ⟨lines, hlines, hlabels, husd⟩ := ih rest (Nat.succ_injective hlength)
        fun a ha => hnonneg a (List.mem_cons_of_mem amount ha)
      have hamount : 0 ≤ amount := hnonneg amount (by simp)
      refine ⟨⟨label, amount, hamount⟩ :: lines, ?_, ?_, ?_⟩
      · rw [costLines, dif_pos hamount, hlines]
        rfl
      · rw [List.map_cons, hlabels]
      · rw [List.map_cons, husd]

/-- The raw amounts of a partition, without their labels. -/
def amounts (raw : List (Label × ℚ≥0)) : List ℚ :=
  raw.map fun line => line.2

theorem amounts_nonneg (raw : List (Label × ℚ≥0)) : ∀ v ∈ amounts raw, 0 ≤ v := by
  intro v hv
  obtain ⟨line, -, rfl⟩ := List.mem_map.mp hv
  exact line.2.coe_nonneg

/-- The lines that a list of labelled raw amounts reconciles to. -/
def reconciledLines (raw : List (Label × ℚ≥0)) (total : ℚ) :
    Except CostError (List (CostLine Label)) :=
  (reconcileUsdLines (amounts raw) total).bind (costLines (raw.map Prod.fst))

/-- The lines show the labelled raw amounts and sum to the total, where `moved` says what a line of
each label holds beyond its own amount. -/
structure Partition (raw : List (Label × ℚ≥0)) (moved : Label → ℚ) (total : ℚ)
    (lines : List (CostLine Label)) : Prop where
  amounts : List.Forall₂ (fun amount line => line.label = amount.1 ∧
    LineOf amount.2 (line.usd - moved line.label)) raw lines
  sum : (lines.map CostLine.usd).sum = total

/-- Where nothing was moved every line shows its own amount. -/
abbrev ExactPartition (raw : List (Label × ℚ≥0)) (total : ℚ)
    (lines : List (CostLine Label)) : Prop :=
  Partition raw (fun _ => 0) total lines

theorem Partition.labels {raw : List (Label × ℚ≥0)} {moved : Label → ℚ} {total : ℚ}
    {lines : List (CostLine Label)} (h : Partition raw moved total lines) :
    lines.map CostLine.label = raw.map Prod.fst := by
  have hlabels := h.amounts.imp fun _ _ h => h.1.symm
  exact (List.forall₂_eq_eq_eq ▸ List.forall₂_map_left_iff.mpr
    (List.forall₂_map_right_iff.mpr hlabels) :
    raw.map Prod.fst = lines.map CostLine.label).symm

theorem partition_of_map {raw : List (Label × ℚ≥0)} {moved : Label → ℚ} {total : ℚ}
    {lines : List (CostLine Label)} (hlabels : lines.map CostLine.label = raw.map Prod.fst)
    (husd : List.Forall₂ (fun amount usd => LineOf amount.2 (usd - moved amount.1)) raw
      (lines.map CostLine.usd)) (hsum : (lines.map CostLine.usd).sum = total) :
    Partition raw moved total lines := by
  refine ⟨?_, hsum⟩
  have hlabel : List.Forall₂ (fun (amount : Label × ℚ≥0) line => line.label = amount.1)
      raw lines := by
    have h := List.forall₂_eq_eq_eq.symm ▸ hlabels.symm
    exact (List.forall₂_map_left_iff.mp (List.forall₂_map_right_iff.mp h)).imp fun _ _ h => h.symm
  have hamount := List.forall₂_map_right_iff.mp husd
  refine List.forall₂_iff_get.mpr ⟨hlabel.length_eq, fun i hi hi' => ?_⟩
  have hi1 := (List.forall₂_iff_get.mp hlabel).2 i hi hi'
  have hi2 := (List.forall₂_iff_get.mp hamount).2 i hi hi'
  exact ⟨hi1, by rw [hi1]; exact hi2⟩

theorem reconciledLines_spec (raw : List (Label × ℚ≥0)) :
    ∃ lines, reconciledLines raw (quantize (amounts raw).sum) = .ok lines ∧
      ExactPartition raw (quantize (amounts raw).sum) lines := by
  obtain ⟨usd, hok, happ, hsum⟩ := reconcileUsdLines_spec (amounts raw) (amounts_nonneg raw)
  have hshow : List.Forall₂ (fun (amount : Label × ℚ≥0) u => LineOf amount.2 u) raw usd :=
    (List.forall₂_map_left_iff.mp happ).imp fun amount _ h => h.lineOf amount.2.coe_nonneg
  have hnonneg : ∀ u ∈ usd, 0 ≤ u := fun u hu => by
    obtain ⟨i, hi, rfl⟩ := List.mem_iff_getElem.mp hu
    exact ((List.forall₂_iff_get.mp hshow).2 i (hshow.length_eq ▸ hi) hi).nonneg
  obtain ⟨lines, hlines, hlabels, husd⟩ := costLines_ok (raw.map Prod.fst) usd
    (by rw [List.length_map, hshow.length_eq]) hnonneg
  refine ⟨lines, ?_, partition_of_map hlabels ?_ (by rw [husd, hsum])⟩
  · rw [reconciledLines, hok]
    exact hlines
  · rw [husd]
    exact hshow.imp fun _ _ h => by rwa [sub_zero]

end

end Quorum
