import Mathlib.Data.Rat.Defs
import Mathlib.Data.Nat.Digits.Lemmas
import Mathlib.Algebra.Order.Field.Rat
import Mathlib.Algebra.Order.Field.Power
import Mathlib.Tactic

/-! Decimal arithmetic of a context: a sign, a coefficient and an exponent, rounded half to even to
the precision and kept between the exponents of the context. A number overflows exactly from the
middle between the greatest number and the next one on. -/

namespace DecimalArith

/-- A finite number. -/
structure Number where
  negative : Bool
  coeff : ℕ
  exp : ℤ
deriving DecidableEq

/-- A precision, and the range of the exponents. -/
structure Context where
  prec : ℕ
  emin : ℤ
  emax : ℤ
  prec_pos : 0 < prec
  emin_le : emin ≤ emax

/-- How many digits a coefficient has; zero has one. -/
def digitCount (n : ℕ) : ℕ := Nat.log 10 n + 1

theorem lt_pow_digitCount (n : ℕ) : n < 10 ^ digitCount n := Nat.lt_pow_succ_log_self (by decide) n

theorem pow_digitCount_le {n : ℕ} (h : n ≠ 0) : 10 ^ (digitCount n - 1) ≤ n :=
  Nat.pow_log_le_self 10 h

/-- A coefficient without its last digits, rounded half to even. -/
def roundHalfEven (n shift : ℕ) : ℕ :=
  let quotient := n / 10 ^ shift
  let rest := n % 10 ^ shift
  if 10 ^ shift < 2 * rest ∨ 2 * rest = 10 ^ shift
    ∧ quotient % 2 = 1 then quotient + 1 else quotient

/-- Rounding reaches an even number from half below it on. -/
theorem le_roundHalfEven_iff {n shift m : ℕ} (hodd : m % 2 = 1) :
    m + 1 ≤ roundHalfEven n shift ↔ (2 * m + 1) * 10 ^ shift ≤ 2 * n := by
  have hpos : 0 < 10 ^ shift := by positivity
  have hdiv := Nat.div_add_mod n (10 ^ shift)
  have hmod := Nat.mod_lt n hpos
  rw [roundHalfEven]
  generalize n / 10 ^ shift = quotient at hdiv ⊢
  generalize n % 10 ^ shift = rest at hdiv hmod ⊢
  generalize 10 ^ shift = unit at hpos hdiv hmod ⊢
  have hscale : ∀ k, k + 1 ≤ quotient → unit * k + unit ≤ unit * quotient := by
    intro k hk
    have := Nat.mul_le_mul_left unit hk
    rwa [Nat.mul_succ] at this
  rcases Nat.lt_trichotomy quotient m with hlt | heq | hgt
  · have hle := Nat.mul_le_mul_left unit (Nat.succ_le_of_lt hlt)
    rw [Nat.mul_succ] at hle
    have hbelow : ¬ (2 * m + 1) * unit ≤ 2 * n := by
      have hexpand : (2 * m + 1) * unit = 2 * (unit * m) + unit := by ring
      omega
    refine iff_of_false ?_ hbelow
    split_ifs <;> omega
  · subst heq
    have hexpand : (2 * quotient + 1) * unit = 2 * (unit * quotient) + unit := by ring
    rw [hexpand]
    split_ifs with hup
    · exact iff_of_true le_rfl (by omega)
    · refine iff_of_false (by omega) fun hge => hup ?_
      rcases Nat.lt_or_ge unit (2 * rest) with habove | htie
      · exact Or.inl habove
      · exact Or.inr ⟨by omega, hodd⟩
  · have hle := hscale m (by omega)
    have habove : (2 * m + 1) * unit ≤ 2 * n := by
      have hexpand : (2 * m + 1) * unit = 2 * (unit * m) + unit := by ring
      omega
    refine iff_of_true ?_ habove
    split_ifs <;> omega

namespace Context

variable (c : Context)

/-- The least exponent of a number of the context. -/
def etiny : ℤ := c.emin - c.prec + 1

/-- The greatest exponent of a number of full precision. -/
def etop : ℤ := c.emax - c.prec + 1

/-- A number rounded into the context; `none` when it overflows. -/
def fix (x : Number) : Option Number :=
  if x.coeff = 0 then some { x with exp := min (max x.exp c.etiny) c.emax }
  else if c.etop < digitCount x.coeff + x.exp - c.prec then none
  else
    let expMin := max (digitCount x.coeff + x.exp - c.prec) c.etiny
    if x.exp < expMin then
      let coeff := roundHalfEven x.coeff (expMin - x.exp).toNat
      if 10 ^ c.prec ≤ coeff then
        if c.etop < expMin + 1 then none else some { x with coeff := coeff / 10, exp := expMin + 1 }
      else some { x with coeff := coeff, exp := expMin }
    else some x

/-- The product of two numbers. -/
def mul (x y : Number) : Option Number :=
  c.fix { negative := xor x.negative y.negative, coeff := x.coeff * y.coeff, exp := x.exp + y.exp }

end Context

/-- The absolute value. -/
def Number.abs (x : Number) : ℚ := x.coeff * (10 : ℚ) ^ x.exp

/-- From half a unit below the first number past the context on, there is no number. -/
def Context.TooLarge (c : Context) (value : ℚ) : Prop :=
  (2 * 10 ^ c.prec - 1) * (10 : ℚ) ^ c.etop ≤ 2 * value

section
variable {c : Context} {x : Number}

theorem etiny_le_etop (c : Context) : c.etiny ≤ c.etop := by
  have := c.emin_le
  rw [Context.etiny, Context.etop]
  omega

theorem ten_zpow_pos (e : ℤ) : (0 : ℚ) < 10 ^ e := by positivity

theorem ten_zpow_mono {e f : ℤ} (h : e ≤ f) : (10 : ℚ) ^ e ≤ 10 ^ f :=
  zpow_le_zpow_right₀ (by norm_num) h

theorem ten_zpow_add (e f : ℤ) : (10 : ℚ) ^ (e + f) = 10 ^ e * 10 ^ f := zpow_add₀ (by norm_num) e f

/-- A power of a difference, times the power below it. -/
theorem ten_zpow_sub {e f : ℤ} (h : e ≤ f) : (10 : ℚ) ^ f = (10 ^ (f - e).toNat : ℕ) * 10 ^ e := by
  have hsum : f = ((f - e).toNat : ℤ) + e := by omega
  conv_lhs => rw [hsum, ten_zpow_add, zpow_natCast]
  rw [Nat.cast_pow, Nat.cast_ofNat]

theorem one_le_ten_pow (n : ℕ) : (1 : ℚ) ≤ 10 ^ n := one_le_pow₀ (by norm_num)

theorem not_tooLarge_zero (c : Context) : ¬ c.TooLarge 0 := by
  have hpos := ten_zpow_pos c.etop
  have hone := one_le_ten_pow c.prec
  rw [Context.TooLarge]
  nlinarith

/-- Too many digits before the point are too large. -/
theorem tooLarge_of_digits (hcoeff : x.coeff ≠ 0)
    (h : c.etop < digitCount x.coeff + x.exp - c.prec) : c.TooLarge x.abs := by
  have hlow : ((10 ^ (digitCount x.coeff - 1) : ℕ) : ℚ) ≤ x.coeff := by
    exact_mod_cast pow_digitCount_le hcoeff
  have hcount : 1 ≤ digitCount x.coeff := Nat.succ_le_succ (Nat.zero_le _)
  have hexp := ten_zpow_pos x.exp
  have htop := ten_zpow_pos c.etop
  have hpower : (10 : ℚ) ^ c.prec * 10 ^ c.etop
      ≤ (10 ^ (digitCount x.coeff - 1) : ℕ) * 10 ^ x.exp := by
    rw [Nat.cast_pow, Nat.cast_ofNat, ← zpow_natCast, ← zpow_natCast, ← ten_zpow_add,
      ← ten_zpow_add]
    exact ten_zpow_mono (by omega)
  have hvalue : ((10 ^ (digitCount x.coeff - 1) : ℕ) : ℚ) * 10 ^ x.exp ≤ x.abs :=
    mul_le_mul_of_nonneg_right hlow hexp.le
  rw [Context.TooLarge]
  nlinarith

/-- A number that needs no rounding is not too large. -/
theorem not_tooLarge_of_exact (hdigits : digitCount x.coeff ≤ c.prec)
    (h : digitCount x.coeff + x.exp - c.prec ≤ c.etop) : ¬ c.TooLarge x.abs := by
  have htop := ten_zpow_pos c.etop
  have hpower : (10 : ℚ) ^ x.exp ≤ (10 ^ (x.exp - c.etop).toNat : ℕ) * 10 ^ c.etop := by
    rcases le_total c.etop x.exp with hge | hle
    · rw [ten_zpow_sub hge]
    · have hzero : (x.exp - c.etop).toNat = 0 := by omega
      rw [hzero, pow_zero, Nat.cast_one, one_mul]
      exact ten_zpow_mono hle
  have hfits : x.coeff * 10 ^ (x.exp - c.etop).toNat + 1 ≤ 10 ^ c.prec := by
    have hlt : x.coeff * 10 ^ (x.exp - c.etop).toNat
        < 10 ^ digitCount x.coeff * 10 ^ (x.exp - c.etop).toNat :=
      Nat.mul_lt_mul_of_pos_right (lt_pow_digitCount _) (by positivity)
    rw [← pow_add] at hlt
    exact hlt.trans_le (Nat.pow_le_pow_right (by decide) (by omega))
  have hcast : (x.coeff : ℚ) * (10 ^ (x.exp - c.etop).toNat : ℕ) + 1 ≤ 10 ^ c.prec := by
    exact_mod_cast hfits
  have hvalue : x.abs ≤ (x.coeff * (10 ^ (x.exp - c.etop).toNat : ℕ)) * 10 ^ c.etop := by
    rw [Number.abs, mul_assoc]
    exact mul_le_mul_of_nonneg_left hpower (Nat.cast_nonneg _)
  rw [Context.TooLarge]
  nlinarith

/-- A number that is rounded at the top overflows when it is rounded up to one digit more. -/
theorem tooLarge_iff_rounded {expMin : ℤ} (hround : x.exp < expMin)
    (hmin : digitCount x.coeff + x.exp - c.prec ≤ expMin) (htop : expMin ≤ c.etop) :
    c.TooLarge x.abs ↔ 10 ^ c.prec ≤ roundHalfEven x.coeff (expMin - x.exp).toNat
    ∧ c.etop < expMin + 1 := by
  have hexp := ten_zpow_pos x.exp
  have hprec : 1 ≤ 10 ^ c.prec := Nat.one_le_pow _ _ (by decide)
  have hodd : (10 ^ c.prec - 1) % 2 = 1 := by
    obtain ⟨k, hk⟩ : 2 ∣ 10 ^ c.prec := dvd_pow (by decide) c.prec_pos.ne'
    omega
  have hsucc : 10 ^ c.prec - 1 + 1 = 10 ^ c.prec := Nat.sub_add_cancel hprec
  have hdouble : 2 * (10 ^ c.prec - 1) + 1 = 2 * 10 ^ c.prec - 1 := by omega
  rcases htop.lt_or_eq with hbelow | rfl
  · refine iff_of_false ?_ fun h => absurd h.2 (by omega)
    have hfits : x.coeff < 10 ^ c.prec * 10 ^ (expMin - x.exp).toNat := by
      rw [← pow_add]
      exact (lt_pow_digitCount _).trans_le (Nat.pow_le_pow_right (by decide) (by omega))
    have hcast : (x.coeff : ℚ) < 10 ^ c.prec * (10 ^ (expMin - x.exp).toNat : ℕ) := by
      exact_mod_cast hfits
    have hvalue : x.abs < 10 ^ c.prec * 10 ^ expMin := by
      rw [Number.abs, ten_zpow_sub hround.le, ← mul_assoc]
      exact mul_lt_mul_of_pos_right hcast hexp
    have hten : (10 : ℚ) * 10 ^ expMin ≤ 10 ^ c.etop := by
      have hstep : (10 : ℚ) ^ (1 + expMin) = 10 * 10 ^ expMin := by rw [ten_zpow_add, zpow_one]
      rw [← hstep]
      exact ten_zpow_mono (by omega)
    have hmin := ten_zpow_pos expMin
    have hone := one_le_ten_pow c.prec
    rw [Context.TooLarge]
    nlinarith
  · rw [and_iff_left (Int.lt_add_one_iff.mpr le_rfl), ← hsucc, le_roundHalfEven_iff hodd, hdouble,
      Context.TooLarge, Number.abs, ten_zpow_sub hround.le, ← mul_assoc, ← mul_assoc,
      mul_le_mul_iff_left₀ hexp]
    have hcast : ((2 * 10 ^ c.prec - 1 : ℕ) : ℚ) = 2 * 10 ^ c.prec - 1 := by
      rw [Nat.cast_sub (by omega)]
      push_cast
      rfl
    rw [← hcast]
    exact_mod_cast Iff.rfl

/-- A number overflows exactly when it is too large. -/
theorem fix_eq_none_iff (c : Context) (x : Number) : c.fix x = none ↔ c.TooLarge x.abs := by
  rw [Context.fix]
  by_cases hzero : x.coeff = 0
  · rw [if_pos hzero, Number.abs, hzero, Nat.cast_zero, zero_mul]
    exact iff_of_false nofun (not_tooLarge_zero c)
  · rw [if_neg hzero]
    by_cases htop : c.etop < digitCount x.coeff + x.exp - c.prec
    · rw [if_pos htop]
      exact iff_of_true rfl (tooLarge_of_digits hzero htop)
    · rw [if_neg htop]
      have hle := le_of_not_gt htop
      dsimp only
      generalize hexpMin : max (digitCount x.coeff + x.exp - c.prec) c.etiny = expMin
      have hmin : digitCount x.coeff + x.exp - c.prec ≤ expMin := hexpMin ▸ le_max_left _ _
      have hmax : expMin ≤ c.etop := hexpMin ▸ max_le hle (etiny_le_etop c)
      by_cases hround : x.exp < expMin
      · rw [if_pos hround, tooLarge_iff_rounded hround hmin hmax]
        split_ifs with hup hover
        · exact iff_of_true rfl ⟨hup, hover⟩
        · exact iff_of_false nofun fun h => hover h.2
        · exact iff_of_false nofun fun h => hup h.1
      · rw [if_neg hround]
        exact iff_of_false nofun (not_tooLarge_of_exact (by omega) hle)

theorem abs_mul (x y : Number) :
    Number.abs { negative := xor x.negative y.negative, coeff := x.coeff * y.coeff, exp := x.exp + y.exp }
      = x.abs * y.abs := by
  rw [Number.abs, Number.abs, Number.abs, ten_zpow_add, Nat.cast_mul]
  ring

/-- A product overflows exactly when it is too large. -/
theorem mul_eq_none_iff (c : Context) (x y : Number) : c.mul x y = none ↔ c.TooLarge (x.abs * y.abs) := by
  rw [Context.mul, fix_eq_none_iff, abs_mul]

end

end DecimalArith
