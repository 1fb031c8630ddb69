import Mathlib.Data.Int.Log
import Mathlib.Data.Rat.Floor
import Mathlib.Tactic

/-! Numbers of a fixed precision, as rationals. An operation on them is the exact one and a rounding
to the nearest number, to the even one of two. Such a rounding keeps the order and the numbers
themselves, and moves nothing by more than half a unit in the last place. -/

namespace Rounding

section nearest
variable {K : Type*} [Field K] [LinearOrder K] [IsStrictOrderedRing K] {grid : K → Prop}
  {round : K → K} {x y point : K}

/-- A rounding to a nearest point of the grid. -/
structure Nearest (grid : K → Prop) (round : K → K) : Prop where
  onGrid : ∀ x, grid (round x)
  nearest : ∀ x point, grid point → |round x - x| ≤ |point - x|

namespace Nearest

theorem fixes (h : Nearest grid round) (hx : grid x) : round x = x := by
  have hzero := h.nearest x x hx
  rw [sub_self, abs_zero] at hzero
  exact sub_eq_zero.mp (abs_nonpos_iff.mp hzero)

/-- A rounding keeps the order: of two numbers that it crossed, neither would be nearer to its own
point. -/
theorem mono (h : Nearest grid round) (hle : x ≤ y) : round x ≤ round y := by
  rcases hle.eq_or_lt with rfl | hlt
  · exact le_rfl
  by_contra hcross
  rw [not_le] at hcross
  have hx := sq_le_sq.mpr (h.nearest x _ (h.onGrid y))
  have hy := sq_le_sq.mpr (h.nearest y _ (h.onGrid x))
  have hmiddle : round x + round y ≤ 2 * x := by nlinarith
  have hmiddle' : 2 * y ≤ round x + round y := by nlinarith
  linarith

theorem le_point (h : Nearest grid round) (hpoint : grid point) (hx : x ≤ point) :
    round x ≤ point := by
  calc round x ≤ round point := h.mono hx
    _ = point := h.fixes hpoint

theorem point_le (h : Nearest grid round) (hpoint : grid point) (hx : point ≤ x) :
    point ≤ round x := by
  calc point = round point := (h.fixes hpoint).symm
    _ ≤ round x := h.mono hx

end Nearest

end nearest

/-! ### The whole numbers -/

/-- The nearest whole number, the even one of two. -/
def halfEven (x : ℚ) : ℤ :=
  if Int.fract x < 1 / 2 then ⌊x⌋
  else if 1 / 2 < Int.fract x then ⌊x⌋ + 1
  else if ⌊x⌋ % 2 = 0 then ⌊x⌋ else ⌊x⌋ + 1

theorem abs_halfEven_sub (x : ℚ) :
    |(halfEven x : ℚ) - x| ≤ Int.fract x ∧ |(halfEven x : ℚ) - x| ≤ 1 - Int.fract x := by
  have hfloor : |(⌊x⌋ : ℚ) - x| = Int.fract x := by
    rw [abs_sub_comm, ← Int.fract, abs_of_nonneg (Int.fract_nonneg x)]
  have hceil : |((⌊x⌋ + 1 : ℤ) : ℚ) - x| = 1 - Int.fract x := by
    have hlt := Int.fract_lt_one x
    rw [Int.fract] at hlt ⊢
    rw [abs_of_pos (by push_cast; linarith)]
    push_cast
    ring
  rw [halfEven]
  split_ifs with hlow hhigh
  · rw [hfloor]
    exact ⟨le_rfl, by linarith⟩
  · rw [hceil]
    exact ⟨by linarith, le_rfl⟩
  · rw [hfloor]
    exact ⟨le_rfl, by linarith⟩
  · rw [hceil]
    exact ⟨by linarith, le_rfl⟩

theorem abs_halfEven_sub_le_half (x : ℚ) : |(halfEven x : ℚ) - x| ≤ 1 / 2 := by
  obtain ⟨hlow, hhigh⟩ := abs_halfEven_sub x
  linarith

theorem nearest_halfEven : Nearest (fun x : ℚ => ∃ n : ℤ, x = n) fun x => halfEven x where
  onGrid := fun x => ⟨halfEven x, rfl⟩
  nearest := by
    rintro x _ ⟨n, rfl⟩
    obtain ⟨hlow, hhigh⟩ := abs_halfEven_sub x
    rcases le_or_gt n ⌊x⌋ with hle | hlt
    · have hcast : (n : ℚ) ≤ ⌊x⌋ := by exact_mod_cast hle
      have hfract : Int.fract x ≤ x - n := by
        rw [Int.fract]
        linarith
      calc |(halfEven x : ℚ) - x| ≤ x - n := hlow.trans hfract
        _ ≤ |(n : ℚ) - x| := by rw [abs_sub_comm]; exact le_abs_self _
    · have hcast : (⌊x⌋ : ℚ) + 1 ≤ n := by exact_mod_cast hlt
      have hfract : 1 - Int.fract x ≤ n - x := by
        rw [Int.fract]
        linarith
      exact (hhigh.trans hfract).trans (le_abs_self _)

/-! ### Numbers of some binary digits -/

/-- A number of so many binary digits, in a unit no smaller than the least. -/
def Digits (precision : ℕ) (least : ℤ) (x : ℚ) : Prop :=
  ∃ digits exponent : ℤ, x = digits * 2 ^ exponent ∧ |digits| ≤ 2 ^ precision ∧ least ≤ exponent

/-- The exponent of the unit in the last place. -/
def unitExponent (precision : ℕ) (least : ℤ) (x : ℚ) : ℤ :=
  max (Int.log 2 |x| + 1 - precision) least

/-- The nearest number of so many digits, the even one of two. -/
def round (precision : ℕ) (least : ℤ) (x : ℚ) : ℚ :=
  halfEven (x / 2 ^ unitExponent precision least x) * 2 ^ unitExponent precision least x

variable {precision : ℕ} {least : ℤ} {x : ℚ}

theorem two_zpow_pos (e : ℤ) : (0 : ℚ) < 2 ^ e := zpow_pos two_pos e

theorem abs_lt_unit (x : ℚ) : |x| < 2 ^ precision * 2 ^ unitExponent precision least x := by
  have hlog : |x| < 2 ^ (Int.log 2 |x| + 1) := by
    have hlt := Int.lt_zpow_succ_log_self one_lt_two |x|
    exact_mod_cast hlt
  refine hlog.trans_le ?_
  rw [← zpow_natCast, ← zpow_add₀ two_ne_zero]
  refine zpow_le_zpow_right₀ one_le_two ?_
  have hmax := le_max_left (Int.log 2 |x| + 1 - precision) least
  rw [unitExponent]
  linarith

theorem digits_round (x : ℚ) : Digits precision least (round precision least x) := by
  refine ⟨_, _, rfl, ?_, le_max_right _ _⟩
  have hpos := two_zpow_pos (unitExponent precision least x)
  have hquotient : |x / 2 ^ unitExponent precision least x| ≤ 2 ^ precision := by
    rw [abs_div, abs_of_pos hpos, div_le_iff₀ hpos]
    exact (abs_lt_unit x).le
  obtain ⟨hlow, hhigh⟩ := abs_le.mp hquotient
  have hleft : ∃ n : ℤ, (-2 ^ precision : ℚ) = n := ⟨-2 ^ precision, by push_cast; rfl⟩
  have hright : ∃ n : ℤ, (2 ^ precision : ℚ) = n := ⟨2 ^ precision, by push_cast; rfl⟩
  have hbelow := nearest_halfEven.point_le hleft hlow
  have habove := nearest_halfEven.le_point hright hhigh
  rw [abs_le]
  exact ⟨by exact_mod_cast hbelow, by exact_mod_cast habove⟩

theorem round_zero : round precision least 0 = 0 := by
  have hzero : halfEven 0 = 0 := by decide +kernel
  rw [round, zero_div, hzero, Int.cast_zero, zero_mul]

/-- Against a multiple of its unit, a rounding is nearest. -/
theorem abs_round_sub_le_multiple (x : ℚ) (n : ℤ) :
    |round precision least x - x| ≤ |n * 2 ^ unitExponent precision least x - x| := by
  set step : ℚ := 2 ^ unitExponent precision least x with hstep
  have hpos : 0 < step := two_zpow_pos _
  have hscale : ∀ k : ℤ, |k * step - x| = |(k : ℚ) - x / step| * step := by
    intro k
    rw [← abs_of_pos hpos, ← abs_mul, abs_of_pos hpos, sub_mul, div_mul_cancel₀ _ hpos.ne']
  rw [round, ← hstep, hscale, hscale]
  exact mul_le_mul_of_nonneg_right (nearest_halfEven.nearest _ _ ⟨n, rfl⟩) hpos.le

theorem nearest_round (hprecision : 0 < precision) :
    Nearest (Digits precision least) (round precision least) where
  onGrid := digits_round
  nearest := by
    rintro x _ ⟨digits, exponent, rfl, hdigits, hleast⟩
    rcases eq_or_ne x 0 with rfl | hx
    · rw [round_zero, sub_zero, abs_zero]
      exact abs_nonneg _
    rcases le_or_gt (unitExponent precision least x) exponent with hle | hlt
    · -- the point is a multiple of the unit
      obtain ⟨shift, rfl⟩ := Int.le.dest hle
      have hmultiple : |round precision least x - x| ≤ _ :=
        abs_round_sub_le_multiple x (digits * 2 ^ shift)
      rw [zpow_add₀ two_ne_zero, zpow_natCast, mul_comm _ ((2 : ℚ) ^ shift), ← mul_assoc]
      push_cast at hmultiple
      exact hmultiple
    · -- the point has a smaller unit, and so is no greater than the least number with the unit of `x`
      have hunit : unitExponent precision least x = Int.log 2 |x| + 1 - precision := by
        rw [unitExponent, max_def] at hlt ⊢
        split_ifs at hlt ⊢
        · omega
        · rfl
      have hpower : (2 : ℚ) ^ Int.log 2 |x| ≤ |x| := by
        have hle := Int.zpow_log_le_self one_lt_two (abs_pos.mpr hx)
        exact_mod_cast hle
      have hpoint : |(digits : ℚ) * 2 ^ exponent| ≤ 2 ^ Int.log 2 |x| := by
        have hcast : |(digits : ℚ)| ≤ 2 ^ precision := by exact_mod_cast hdigits
        rw [abs_mul, abs_of_pos (two_zpow_pos exponent)]
        calc |(digits : ℚ)| * 2 ^ exponent ≤ 2 ^ precision * 2 ^ (Int.log 2 |x| - precision) := by
              refine mul_le_mul hcast (zpow_le_zpow_right₀ one_le_two (by omega))
                (two_zpow_pos _).le (by positivity)
          _ = 2 ^ Int.log 2 |x| := by
              rw [← zpow_natCast, ← zpow_add₀ two_ne_zero, add_sub_cancel]
      have hedge : ∃ n : ℤ, |n * 2 ^ unitExponent precision least x - x|
          = |x| - 2 ^ Int.log 2 |x| := by
        have hwhole : ((2 ^ (precision - 1) : ℤ) : ℚ) * 2 ^ unitExponent precision least x
            = 2 ^ Int.log 2 |x| := by
          push_cast
          rw [hunit, ← zpow_natCast, ← zpow_add₀ two_ne_zero]
          congr 1
          omega
        rcases lt_or_gt_of_ne hx with hneg | hpos
        · refine ⟨-2 ^ (precision - 1), ?_⟩
          rw [abs_of_neg hneg] at hpower hwhole ⊢
          rw [Int.cast_neg, neg_mul, hwhole, abs_of_nonneg (by linarith)]
          ring
        · refine ⟨2 ^ (precision - 1), ?_⟩
          rw [abs_of_pos hpos] at hpower hwhole ⊢
          rw [hwhole, abs_of_nonpos (by linarith)]
          ring
      obtain ⟨n, hn⟩ := hedge
      calc |round precision least x - x|
          ≤ |n * 2 ^ unitExponent precision least x - x| := abs_round_sub_le_multiple x n
        _ ≤ |x| - |(digits : ℚ) * 2 ^ exponent| := by rw [hn]; linarith
        _ ≤ |(digits : ℚ) * 2 ^ exponent - x| := by
          rw [abs_sub_comm]; exact abs_sub_abs_le_abs_sub _ _

/-- How far a rounding moves a number. -/
theorem abs_round_sub_le (x : ℚ) :
    |round precision least x - x| ≤ |x| * 2 ^ (-precision : ℤ) + 2 ^ (least - 1) := by
  rcases eq_or_ne x 0 with rfl | hx
  · rw [round_zero, sub_zero, abs_zero, zero_mul, zero_add]
    exact (two_zpow_pos _).le
  set e := unitExponent precision least x with he
  have hpos := two_zpow_pos e
  have hhalf : |round precision least x - x| ≤ 2 ^ (e - 1) := by
    have hsplit : round precision least x - x
        = ((halfEven (x / 2 ^ e) : ℚ) - x / 2 ^ e) * 2 ^ e := by
      rw [round, ← he, sub_mul, div_mul_cancel₀ _ hpos.ne']
    rw [hsplit, abs_mul, abs_of_pos hpos, zpow_sub_one₀ two_ne_zero, mul_comm]
    refine mul_le_mul_of_nonneg_left ?_ hpos.le
    exact (abs_halfEven_sub_le_half _).trans (by norm_num)
  have hpower : (2 : ℚ) ^ Int.log 2 |x| ≤ |x| := by
    have hle := Int.zpow_log_le_self one_lt_two (abs_pos.mpr hx)
    exact_mod_cast hle
  have hsmall := two_zpow_pos (-precision : ℤ)
  rcases max_cases (Int.log 2 |x| + 1 - precision) least with ⟨hmax, -⟩ | ⟨hmax, -⟩
  · have hunit : (2 : ℚ) ^ (e - 1) = 2 ^ Int.log 2 |x| * 2 ^ (-precision : ℤ) := by
      rw [he, unitExponent, hmax, ← zpow_add₀ two_ne_zero]
      congr 1
      omega
    have hleast := (two_zpow_pos (least - 1)).le
    have hrelative := mul_le_mul_of_nonneg_right hpower hsmall.le
    linarith
  · have hunit : e - 1 = least - 1 := by rw [he, unitExponent, hmax]
    have hrelative : 0 ≤ |x| * 2 ^ (-precision : ℤ) := mul_nonneg (abs_nonneg x) hsmall.le
    rw [hunit] at hhalf
    linarith

theorem digits_intCast (hleast : least ≤ 0) {n : ℤ} (hn : |n| ≤ 2 ^ precision) :
    Digits precision least n :=
  ⟨n, 0, by rw [zpow_zero, mul_one], hn, hleast⟩

/-- One less than a number of so many digits is one, if the unit was no greater than one. -/
theorem Digits.sub_one (h : Digits precision least x) (hleast : least ≤ 0) (hone : 1 ≤ x)
    (hx : x ≤ 2 ^ precision) :
    Digits precision least (x - 1) := by
  obtain ⟨digits, exponent, rfl, hdigits, hexponent⟩ := h
  rcases le_or_gt exponent 0 with hle | hlt
  · obtain ⟨shift, hshift⟩ := Int.eq_ofNat_of_zero_le (neg_nonneg.mpr hle)
    obtain rfl : exponent = -(shift : ℤ) := by omega
    have hpos : (0 : ℚ) < 2 ^ shift := by positivity
    have hbase : (2 : ℚ) ^ (-(shift : ℤ)) * 2 ^ shift = 1 := by
      rw [zpow_neg, zpow_natCast, inv_mul_cancel₀ hpos.ne']
    refine ⟨digits - 2 ^ shift, -shift, ?_, ?_, hexponent⟩
    · push_cast
      rw [sub_mul, mul_comm ((2 : ℚ) ^ shift), hbase]
    · have hbig : (2 : ℤ) ^ shift ≤ digits := by
        have hscaled := mul_le_mul_of_nonneg_right hone hpos.le
        rw [one_mul, mul_assoc, hbase, mul_one] at hscaled
        exact_mod_cast hscaled
      have hshiftPos : (0 : ℤ) < 2 ^ shift := by positivity
      rw [abs_of_nonneg (by linarith)] at hdigits ⊢
      linarith
  · obtain ⟨shift, hshift⟩ := Int.eq_ofNat_of_zero_le hlt.le
    obtain rfl : exponent = (shift : ℤ) := hshift
    have hwhole : (digits : ℚ) * 2 ^ (shift : ℤ) = ((digits * 2 ^ shift : ℤ) : ℚ) := by
      push_cast
      rw [zpow_natCast]
    rw [hwhole] at hone hx ⊢
    have hlow : 1 ≤ digits * 2 ^ shift := by exact_mod_cast hone
    have hhigh : digits * 2 ^ shift ≤ 2 ^ precision := by exact_mod_cast hx
    have hless : Digits precision least ((digits * 2 ^ shift - 1 : ℤ) : ℚ) := by
      refine digits_intCast hleast ?_
      rw [abs_of_nonneg (by linarith)]
      linarith
    push_cast at hless ⊢
    exact hless

end Rounding

/-! ### Doubles -/

/-- A number of 53 binary digits. The exponent has no upper bound. -/
@[ext] structure Double where
  value : ℚ
  digits : Rounding.Digits 53 (-1074) value

namespace Double

def nearest (x : ℚ) : ℚ := Rounding.round 53 (-1074) x

def ofRat (x : ℚ) : Double := { value := nearest x, digits := Rounding.digits_round x }

instance : Zero Double := ⟨ofRat 0⟩
instance : One Double := ⟨ofRat 1⟩
instance : NatCast Double := ⟨fun n => ofRat n⟩
instance : Add Double := ⟨fun a b => ofRat (a.value + b.value)⟩
instance : Sub Double := ⟨fun a b => ofRat (a.value - b.value)⟩
instance : Mul Double := ⟨fun a b => ofRat (a.value * b.value)⟩
instance : Div Double := ⟨fun a b => ofRat (a.value / b.value)⟩
instance : LE Double := ⟨fun a b => a.value ≤ b.value⟩
instance : LT Double := ⟨fun a b => a.value < b.value⟩
instance (a b : Double) : Decidable (a ≤ b) := inferInstanceAs (Decidable (a.value ≤ b.value))
instance (a b : Double) : Decidable (a < b) := inferInstanceAs (Decidable (a.value < b.value))
instance : Max Double := ⟨fun a b => if a < b then b else a⟩
instance : Min Double := ⟨fun a b => if b < a then b else a⟩

variable (a b : Double) {x y : ℚ}

theorem rounds : Rounding.Nearest (Rounding.Digits 53 (-1074)) nearest :=
  Rounding.nearest_round (by decide)

@[simp] theorem value_add : (a + b).value = nearest (a.value + b.value) := rfl
@[simp] theorem value_sub : (a - b).value = nearest (a.value - b.value) := rfl
@[simp] theorem value_mul : (a * b).value = nearest (a.value * b.value) := rfl
@[simp] theorem value_div : (a / b).value = nearest (a.value / b.value) := rfl

theorem le_iff : a ≤ b ↔ a.value ≤ b.value := Iff.rfl

theorem lt_iff : a < b ↔ a.value < b.value := Iff.rfl

@[simp] theorem value_max : (max a b).value = max a.value b.value := by
  change (if a < b then b else a).value = _
  split_ifs with h
  · exact (max_eq_right (le_of_lt h)).symm
  · exact (max_eq_left (le_of_not_gt h)).symm

@[simp] theorem value_min : (min a b).value = min a.value b.value := by
  change (if b < a then b else a).value = _
  split_ifs with h
  · exact (min_eq_right (le_of_lt h)).symm
  · exact (min_eq_left (le_of_not_gt h)).symm

theorem nearest_natCast {n : ℕ} (h : n ≤ 2 ^ 53) : nearest n = n := by
  refine rounds.fixes ?_
  have hdigits : Rounding.Digits 53 (-1074) ((n : ℤ) : ℚ) := by
    refine Rounding.digits_intCast (by decide) ?_
    rw [Nat.abs_cast]
    exact_mod_cast h
  exact_mod_cast hdigits

theorem value_natCast {n : ℕ} (h : n ≤ 2 ^ 53) : (n : Double).value = n := nearest_natCast h

@[simp] theorem nearest_zero : nearest 0 = 0 := Rounding.round_zero

@[simp] theorem value_zero : (0 : Double).value = 0 := nearest_zero

@[simp] theorem value_one : (1 : Double).value = 1 := by
  have hone := nearest_natCast (n := 1) (by decide)
  exact_mod_cast hone

@[simp] theorem nearest_value : nearest a.value = a.value := rounds.fixes a.digits

theorem nearest_nonneg (h : 0 ≤ x) : 0 ≤ nearest x := by
  have hmono := rounds.mono h
  rwa [nearest_zero] at hmono

theorem nearest_nonpos (h : x ≤ 0) : nearest x ≤ 0 := by
  have hmono := rounds.mono h
  rwa [nearest_zero] at hmono

/-- The greatest relative error of an operation. -/
def relativeError : ℚ := 2 ^ (-53 : ℤ)

/-- The greatest error below the least unit. -/
def leastError : ℚ := 2 ^ (-1074 - 1 : ℤ)

theorem relativeError_nonneg : 0 ≤ relativeError := (Rounding.two_zpow_pos _).le

theorem relativeError_le_half : relativeError ≤ 1 / 2 := by
  calc relativeError ≤ 2 ^ (-1 : ℤ) := zpow_le_zpow_right₀ one_le_two (by decide)
    _ = 1 / 2 := by rw [zpow_neg_one, one_div]

theorem leastError_nonneg : 0 ≤ leastError := (Rounding.two_zpow_pos _).le

theorem nearest_le (h : 0 ≤ x) : nearest x ≤ (1 + relativeError) * x + leastError := by
  have herror : |nearest x - x| ≤ |x| * relativeError + leastError := Rounding.abs_round_sub_le x
  have habove := le_abs_self (nearest x - x)
  rw [abs_of_nonneg h] at herror
  linarith

/-- A double that counts by one counts exactly. -/
theorem value_sub_one (hone : 1 ≤ a.value) (h : a.value ≤ 2 ^ 53) :
    (a - 1).value = a.value - 1 := by
  rw [value_sub, value_one]
  exact rounds.fixes (a.digits.sub_one (by decide) hone h)

end Double
