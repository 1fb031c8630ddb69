import Quorum.BaseDict
import Quorum.BaseMeter
import Quorum.BaseRounding

/-! The token buckets of `query_runs`. A request of an account, a new session and the start of a
sign-in each spend a token of their key's bucket; a bucket left alone for five minutes is forgotten,
on the key's next call or in a sweep of all of them. Times are seconds. Tokens and times are
doubles, and what a bucket gains is rounded three times; where Python's quotient would be infinite
the bucket is full here too. -/

namespace Quorum

/-- `SESSION_RATE_LIMIT_MAX`. -/
def sessionRateLimitMax : ℕ := 10000

/-- A bucket's size and its rate. A double counts the tokens one by one, and five minutes fill the
bucket. -/
structure RateLimits where
  capacity : ℕ
  refillPerMinute : ℕ
  capacity_le : capacity ≤ 2 ^ 53
  refill_le : refillPerMinute ≤ 2 ^ 53
  burst_le : capacity ≤ 5 * refillPerMinute

/-- As many tokens as are refilled in a minute. -/
def RateLimits.ofMinute (limit : ℕ) (h : limit ≤ sessionRateLimitMax) : RateLimits where
  capacity := limit
  refillPerMinute := limit
  capacity_le := h.trans (by decide)
  refill_le := h.trans (by decide)
  burst_le := Nat.le_mul_of_pos_left limit (Nat.succ_pos 4)

/-- The limits of `_InMemoryAccountRateLimiter`. -/
def accountRateLimits : RateLimits := .ofMinute 30 (by decide)

/-- A local setting of the session limit, within its bounds. -/
structure SessionLimit where
  perMinute : ℕ
  bounds : 1 ≤ perMinute ∧ perMinute ≤ sessionRateLimitMax

/-- The limits of `_ip_rate_limiter`, which the local setting may replace together. -/
def ipRateLimits (sessionLimit : Option SessionLimit) : RateLimits :=
  match sessionLimit with
  | none => .ofMinute 10 (by decide)
  | some limit => .ofMinute limit.perMinute limit.bounds.2

def staleBucketSeconds : Double := 300

def sweepIntervalSeconds : Double := 60

/-- The tokens of each key's bucket, and when it was last written. -/
abbrev Buckets (κ : Type*) := Dict κ (Double × Double)

structure RateCall (κ : Type*) where
  key : κ
  nowEpoch : Double

/-- When a call is made. -/
def RateCall.time {κ : Type*} (call : RateCall κ) : ℚ := call.nowEpoch.value

structure IpRateLimiter (κ : Type*) where
  buckets : Buckets κ
  lastSweep : Option Double

namespace RateLimits

variable {κ : Type*} [DecidableEq κ] (limits : RateLimits)

/-- The minutes since the bucket was written. -/
def elapsedMinutes (bucket : Double × Double) (now : Double) : Double :=
  max 0 ((now - bucket.2) / (60 : Double))

/-- The tokens of a bucket by now. -/
def refilled (bucket : Double × Double) (now : Double) : Double :=
  min (limits.capacity : Double)
    (bucket.1 + elapsedMinutes bucket now * (limits.refillPerMinute : Double))

/-- The bucket is full and has been left alone for longer than `STALE_BUCKET_SECONDS`. -/
def Stale (bucket : Double × Double) (now : Double) : Prop :=
  (limits.capacity : Double) ≤ limits.refilled bucket now ∧ staleBucketSeconds < now - bucket.2

instance (bucket : Double × Double) (now : Double) : Decidable (limits.Stale bucket now) :=
  inferInstanceAs (Decidable (_ ∧ _))

/-- `_InMemoryAccountRateLimiter.allow`. -/
def allow (buckets : Buckets κ) (call : RateCall κ) : Buckets κ × Bool :=
  let bucket := (buckets.get? call.key).getD ((limits.capacity : Double), call.nowEpoch)
  let tokens := limits.refilled bucket call.nowEpoch
  if limits.Stale bucket call.nowEpoch then (buckets.pop call.key, true)
  else if tokens < 1 then (buckets.set call.key (tokens, call.nowEpoch), false)
  else (buckets.set call.key (tokens - 1, call.nowEpoch), true)

end RateLimits

namespace IpRateLimiter

variable {κ : Type*}

/-- At most once an interval, every bucket not written for `STALE_BUCKET_SECONDS` is dropped. -/
def sweep (limiter : IpRateLimiter κ) (now : Double) : IpRateLimiter κ :=
  match limiter.lastSweep with
  | none => { limiter with lastSweep := some now }
  | some lastSweep =>
      if sweepIntervalSeconds ≤ now - lastSweep then
        { buckets := limiter.buckets.filter fun entry =>
          decide (now - staleBucketSeconds ≤ entry.2.2)
          lastSweep := some now }
      else limiter

/-- `_InMemoryIpRateLimiter.allow`. -/
def allow [DecidableEq κ] (limits : RateLimits) (limiter : IpRateLimiter κ) (call : RateCall κ) :
    IpRateLimiter κ × Bool :=
  let swept := limiter.sweep call.nowEpoch
  ({ swept with buckets := (limits.allow swept.buckets call).1 },
    (limits.allow swept.buckets call).2)

def fresh (κ : Type*) : IpRateLimiter κ := { buckets := Dict.empty, lastSweep := none }

end IpRateLimiter

theorem value_staleBucketSeconds : staleBucketSeconds.value = 300 := by
  have hvalue := Double.value_natCast (n := 300) (by decide)
  exact_mod_cast hvalue

theorem value_sixty : (60 : Double).value = 60 := by
  have hvalue := Double.value_natCast (n := 60) (by decide)
  exact_mod_cast hvalue

/-- A sweep leaves a key's bucket alone, or drops one that has been idle for five minutes, and notes
the time. -/
theorem IpRateLimiter.get?_sweep {κ : Type*} [DecidableEq κ] (limiter : IpRateLimiter κ)
    (now : Double) (key : κ) :
    (limiter.sweep now).buckets.get? key = limiter.buckets.get? key
      ∨ (limiter.sweep now).buckets.get? key = none ∧ (limiter.sweep now).lastSweep = some now
        ∧ ∃ bucket, limiter.buckets.get? key = some bucket ∧ 300 ≤ now.value - bucket.2.value := by
  rw [sweep]
  split
  · exact Or.inl rfl
  · split_ifs
    · rw [Dict.get?_filter]
      cases hbucket : limiter.buckets.get? key with
      | none => exact Or.inl rfl
      | some bucket =>
          rw [Option.filter_some]
          split_ifs with hkept
          · exact Or.inl rfl
          · refine Or.inr ⟨rfl, rfl, bucket, rfl, ?_⟩
            rw [decide_eq_true_eq, Double.le_iff, Double.value_sub,
              value_staleBucketSeconds] at hkept
            -- a time of writing that the rounded cutoff is past is past the exact one
            by_contra hrecent
            exact hkept (Double.rounds.le_point bucket.2.digits (by linarith))
    · exact Or.inl rfl

theorem IpRateLimiter.lastSweep_le_sweep {κ : Type*} (limiter : IpRateLimiter κ)
    {lastSweep now : Double} (h : lastSweep ∈ limiter.lastSweep)
    (hnow : lastSweep.value ≤ now.value) :
    ∃ next ∈ (limiter.sweep now).lastSweep, lastSweep.value ≤ next.value := by
  rw [Option.mem_def] at h
  rw [sweep, h]
  dsimp only
  split_ifs
  · exact ⟨now, rfl, hnow⟩
  · exact ⟨lastSweep, h, le_refl _⟩

theorem IpRateLimiter.sweep_le {κ : Type*} (limiter : IpRateLimiter κ) (now : Double)
    (h : ∀ lastSweep ∈ limiter.lastSweep, lastSweep.value ≤ now.value) :
    ∀ lastSweep ∈ (limiter.sweep now).lastSweep, lastSweep.value ≤ now.value := by
  rw [sweep]
  split
  · rintro lastSweep ⟨⟩
    exact le_refl _
  · split_ifs
    · rintro lastSweep ⟨⟩
      exact le_refl _
    · exact h

namespace RateLimits

variable {κ : Type*} [DecidableEq κ] (limits : RateLimits)

/-- A call of the key finds no stale bucket, which would be forgotten and the call left
uncounted. -/
def Counts (key : κ) (buckets : Buckets κ) (call : RateCall κ) : Prop :=
  call.key = key → ∀ bucket ∈ buckets.get? key, ¬ limits.Stale bucket call.nowEpoch

/-- A call of the key finds no stale bucket after the sweep. -/
def CountsSwept (key : κ) (limiter : IpRateLimiter κ) (call : RateCall κ) : Prop :=
  limits.Counts key (limiter.sweep call.nowEpoch).buckets call

instance (key : κ) (buckets : Buckets κ) (call : RateCall κ) :
    Decidable (limits.Counts key buckets call) :=
  inferInstanceAs (Decidable (_ → _))

instance (key : κ) (limiter : IpRateLimiter κ) (call : RateCall κ) :
    Decidable (limits.CountsSwept key limiter call) :=
  inferInstanceAs (Decidable (limits.Counts key _ call))

/-! ### What rounding adds -/

/-- The tokens of a second, with the three roundings of the elapsed time, its minutes and their
tokens. -/
def tokensPerSecond : ℚ := (1 + Double.relativeError) ^ 3 * (limits.refillPerMinute / 60)

/-- What one call can add by rounding the sum, and by roundings below the least unit. -/
def roundingSlack : ℚ :=
  limits.capacity * Double.relativeError + (2 * limits.refillPerMinute + 2) * Double.leastError

/-- The tokens of a bucket by now, without the rounding of the sum. -/
def filled (bucket : Double × Double) (now : ℚ) : ℚ :=
  min (limits.capacity : ℚ) (max 0 bucket.1.value
    + limits.tokensPerSecond * max 0 (now - bucket.2.value))

/-- How many tokens the key has by now, at most. -/
def level (key : κ) (buckets : Buckets κ) (now : ℚ) : ℚ :=
  match buckets.get? key with
  | some bucket => limits.filled bucket now
  | none => limits.capacity

theorem value_capacity : (limits.capacity : Double).value = limits.capacity :=
  Double.value_natCast limits.capacity_le

theorem value_refillPerMinute : (limits.refillPerMinute : Double).value = limits.refillPerMinute :=
  Double.value_natCast limits.refill_le

theorem value_elapsedMinutes (bucket : Double × Double) (now : Double) :
    (elapsedMinutes bucket now).value
      = max 0 (Double.nearest (Double.nearest (now.value - bucket.2.value) / 60)) := by
  rw [elapsedMinutes, Double.value_max, Double.value_zero, Double.value_div, Double.value_sub,
    value_sixty]

theorem value_refilled (bucket : Double × Double) (now : Double) :
    (limits.refilled bucket now).value
      = min (limits.capacity : ℚ) (Double.nearest (bucket.1.value
          + Double.nearest ((elapsedMinutes bucket now).value * limits.refillPerMinute))) := by
  rw [refilled, Double.value_min, Double.value_add, Double.value_mul, limits.value_capacity,
    limits.value_refillPerMinute]

theorem refillPerMinute_nonneg : (0 : ℚ) ≤ limits.refillPerMinute := Nat.cast_nonneg _

theorem tokensPerSecond_ge : (limits.refillPerMinute : ℚ) / 60 ≤ limits.tokensPerSecond := by
  have herror := Double.relativeError_nonneg
  have hone : (1 : ℚ) ≤ (1 + Double.relativeError) ^ 3 := one_le_pow₀ (by linarith)
  have hrate : (0 : ℚ) ≤ limits.refillPerMinute / 60 :=
    div_nonneg limits.refillPerMinute_nonneg (by norm_num)
  rw [tokensPerSecond]
  nlinarith

theorem tokensPerSecond_nonneg : 0 ≤ limits.tokensPerSecond :=
  (div_nonneg limits.refillPerMinute_nonneg (by norm_num)).trans limits.tokensPerSecond_ge

theorem roundingSlack_nonneg : 0 ≤ limits.roundingSlack := by
  have hrelative :=
    mul_nonneg (Nat.cast_nonneg (α := ℚ) limits.capacity) Double.relativeError_nonneg
  have hrate := limits.refillPerMinute_nonneg
  have hleast :=
    mul_nonneg (show (0 : ℚ) ≤ 2 * limits.refillPerMinute + 2 by linarith) Double.leastError_nonneg
  exact add_nonneg hrelative hleast

theorem elapsedMinutes_nonneg (bucket : Double × Double) (now : Double) :
    0 ≤ (elapsedMinutes bucket now).value := by
  rw [value_elapsedMinutes]
  exact le_max_left _ _

/-- The minutes, with their two roundings. -/
theorem elapsedMinutes_le (bucket : Double × Double) (now : Double) :
    (elapsedMinutes bucket now).value
      ≤ (1 + Double.relativeError) ^ 2 / 60 * max 0 (now.value - bucket.2.value)
        + ((1 + Double.relativeError) / 60 + 1) * Double.leastError := by
  have herror := Double.relativeError_nonneg
  have hleast := Double.leastError_nonneg
  rw [value_elapsedMinutes]
  rcases le_total 0 (now.value - bucket.2.value) with hago | hahead
  · have hgap := Double.nearest_le hago
    have hquotient :=
      Double.nearest_le (div_nonneg (Double.nearest_nonneg hago) (show (0 : ℚ) ≤ 60 by norm_num))
    rw [max_eq_right (Double.nearest_nonneg
      (div_nonneg (Double.nearest_nonneg hago) (by norm_num))), max_eq_right hago]
    nlinarith
  · have hquotient : Double.nearest (Double.nearest (now.value - bucket.2.value) / 60) ≤ 0 :=
      Double.nearest_nonpos
        (div_nonpos_of_nonpos_of_nonneg (Double.nearest_nonpos hahead) (by norm_num))
    rw [max_eq_left hquotient, max_eq_left hahead, mul_zero, zero_add]
    exact mul_nonneg (add_nonneg (div_nonneg (by linarith) (by norm_num)) zero_le_one) hleast

/-- What a bucket has gained, with its third rounding. -/
theorem gained_le (bucket : Double × Double) (now : Double) :
    Double.nearest ((elapsedMinutes bucket now).value * limits.refillPerMinute)
      ≤ limits.tokensPerSecond * max 0 (now.value - bucket.2.value)
        + (2 * limits.refillPerMinute + 1) * Double.leastError := by
  have herror := Double.relativeError_nonneg
  have hleast := Double.leastError_nonneg
  have hrate := limits.refillPerMinute_nonneg
  have hsmall : (1 + Double.relativeError) * ((1 + Double.relativeError) / 60 + 1) ≤ 2 := by
    have hhalf := Double.relativeError_le_half
    nlinarith
  have hproduct := Double.nearest_le (mul_nonneg (elapsedMinutes_nonneg bucket now) hrate)
  have hminutes := mul_le_mul_of_nonneg_right (elapsedMinutes_le bucket now)
    (mul_nonneg (show 0 ≤ 1 + Double.relativeError by linarith) hrate)
  have htiny := mul_le_mul_of_nonneg_right hsmall (mul_nonneg hrate hleast)
  rw [tokensPerSecond]
  nlinarith

/-- The rounded tokens are those of the level, and a call's slack. -/
theorem refilled_le_filled (bucket : Double × Double) (now : Double) :
    (limits.refilled bucket now).value ≤ limits.filled bucket now.value + limits.roundingSlack := by
  have hgained := limits.gained_le bucket now
  have herror := Double.relativeError_nonneg
  have hleast := Double.leastError_nonneg
  have hrate := limits.refillPerMinute_nonneg
  have hcapacity : (0 : ℚ) ≤ limits.capacity := Nat.cast_nonneg _
  have hslack := limits.roundingSlack_nonneg
  have hproduct := Double.nearest_nonneg (mul_nonneg (elapsedMinutes_nonneg bucket now) hrate)
  rw [limits.value_refilled, filled]
  set gained := Double.nearest ((elapsedMinutes bucket now).value * limits.refillPerMinute)
  have hsum : 0 ≤ max 0 bucket.1.value + gained := add_nonneg (le_max_left _ _) hproduct
  have hrounded : Double.nearest (bucket.1.value + gained)
      ≤ (1 + Double.relativeError) * (max 0 bucket.1.value + gained) + Double.leastError :=
    (Double.rounds.mono (by linarith [le_max_right 0 bucket.1.value])).trans
      (Double.nearest_le hsum)
  rw [← min_add_add_right]
  refine le_min ((min_le_left _ _).trans (by linarith)) ?_
  rw [roundingSlack]
  have htiny := mul_nonneg hrate hleast
  rcases le_total (max 0 bucket.1.value + gained) (limits.capacity : ℚ) with hroom | hfull
  · have hrelative := mul_le_mul_of_nonneg_left hroom herror
    refine (min_le_right _ _).trans ?_
    nlinarith
  · have hrelative := mul_nonneg hcapacity herror
    refine (min_le_left _ _).trans ?_
    nlinarith

/-! ### The level of a bucket -/

theorem filled_le (bucket : Double × Double) (now : ℚ) :
    limits.filled bucket now ≤ limits.capacity :=
  min_le_left _ _

theorem filled_nonneg (bucket : Double × Double) (now : ℚ) : 0 ≤ limits.filled bucket now :=
  le_min (Nat.cast_nonneg _)
    (add_nonneg (le_max_left _ _) (mul_nonneg limits.tokensPerSecond_nonneg (le_max_left _ _)))

theorem filled_later (bucket : Double × Double) {now later : ℚ} (h : now ≤ later) :
    limits.filled bucket later ≤ limits.filled bucket now
      + limits.tokensPerSecond * (later - now) := by
  have hrate := limits.tokensPerSecond_nonneg
  have helapsed : max 0 (later - bucket.2.value) ≤ max 0 (now - bucket.2.value)
      + (later - now) := by
    have hnow := le_max_left 0 (now - bucket.2.value)
    have hsince := le_max_right 0 (now - bucket.2.value)
    refine max_le ?_ ?_
    · linarith
    · linarith
  have hgained := mul_le_mul_of_nonneg_left helapsed hrate
  have hnonneg := mul_nonneg hrate (sub_nonneg.mpr h)
  rw [filled, filled, ← min_add_add_right]
  exact min_le_min (by linarith) (by linarith)

theorem filled_now (tokens now : Double) :
    limits.filled (tokens, now) now.value = min (limits.capacity : ℚ) (max 0 tokens.value) := by
  rw [filled, sub_self, max_self, mul_zero, add_zero]

/-- A bucket that has been left alone for five minutes is full. -/
theorem filled_of_idle {bucket : Double × Double} {now : ℚ} (hidle : 300 ≤ now - bucket.2.value) :
    limits.filled bucket now = limits.capacity := by
  refine le_antisymm (limits.filled_le _ _) (le_min le_rfl ?_)
  have hburst : (limits.capacity : ℚ) ≤ 5 * limits.refillPerMinute := by
    exact_mod_cast limits.burst_le
  have hidle' : 300 ≤ max 0 (now - bucket.2.value) := hidle.trans (le_max_right _ _)
  have hrate := limits.refillPerMinute_nonneg
  have htokens := le_max_left 0 bucket.1.value
  calc (limits.capacity : ℚ) ≤ limits.refillPerMinute / 60 * 300 := by linarith
    _ ≤ limits.tokensPerSecond * max 0 (now - bucket.2.value) :=
        mul_le_mul limits.tokensPerSecond_ge hidle' (by norm_num) limits.tokensPerSecond_nonneg
    _ ≤ max 0 bucket.1.value + limits.tokensPerSecond * max 0 (now - bucket.2.value) := by linarith

theorem level_le (key : κ) (buckets : Buckets κ) (now : ℚ) :
    limits.level key buckets now ≤ limits.capacity := by
  rw [level]
  split
  · exact limits.filled_le _ _
  · exact le_refl _

theorem level_later (key : κ) (buckets : Buckets κ) {now later : ℚ} (h : now ≤ later) :
    limits.level key buckets later
      ≤ limits.level key buckets now + limits.tokensPerSecond * (later - now) := by
  rw [level, level]
  split
  · exact limits.filled_later _ h
  · have hgained := mul_nonneg limits.tokensPerSecond_nonneg (sub_nonneg.mpr h)
    linarith

theorem level_congr {key : κ} {buckets buckets' : Buckets κ}
    (h : buckets.get? key = buckets'.get? key) (now : ℚ) :
    limits.level key buckets now = limits.level key buckets' now := by
  rw [level, level, h]

theorem level_of_get? {key : κ} {buckets : Buckets κ} {tokens now : Double}
    (h : buckets.get? key = some (tokens, now)) :
    limits.level key buckets now.value = min (limits.capacity : ℚ) (max 0 tokens.value) := by
  rw [level, h]
  exact limits.filled_now tokens now

/-! ### One call -/

/-- The bucket that a call finds, a full one where there is none. -/
def bucketOf (buckets : Buckets κ) (call : RateCall κ) : Double × Double :=
  (buckets.get? call.key).getD ((limits.capacity : Double), call.nowEpoch)

theorem refilled_le (bucket : Double × Double) (now : Double) :
    (limits.refilled bucket now).value ≤ limits.capacity := by
  rw [limits.value_refilled]
  exact min_le_left _ _

/-- A full bucket that was written just now is full. -/
theorem refilled_full (now : Double) :
    limits.refilled ((limits.capacity : Double), now) now = limits.capacity := by
  refine Double.ext ?_
  rw [limits.value_refilled, value_elapsedMinutes, sub_self, Double.nearest_zero, zero_div,
    Double.nearest_zero, max_self, zero_mul, Double.nearest_zero, add_zero, Double.nearest_value,
    limits.value_capacity, min_self]

theorem not_stale_now (tokens now : Double) : ¬ limits.Stale (tokens, now) now := by
  rintro ⟨-, hidle⟩
  rw [Double.lt_iff, Double.value_sub, sub_self, Double.nearest_zero,
    value_staleBucketSeconds] at hidle
  linarith

theorem refilled_le_level (buckets : Buckets κ) (call : RateCall κ) :
    (limits.refilled (limits.bucketOf buckets call) call.nowEpoch).value
      ≤ limits.level call.key buckets call.time + limits.roundingSlack := by
  rw [bucketOf, level]
  cases hbucket : buckets.get? call.key with
  | some bucket => exact limits.refilled_le_filled bucket call.nowEpoch
  | none =>
      have hslack := limits.roundingSlack_nonneg
      rw [Option.getD_none, limits.refilled_full, limits.value_capacity]
      linarith

theorem get?_allow_of_ne {key : κ} {call : RateCall κ} (hkey : call.key ≠ key)
    (buckets : Buckets κ) :
    ((limits.allow buckets call).1).get? key = buckets.get? key := by
  rw [allow]
  split_ifs
  · exact Dict.get?_pop_of_ne _ (Ne.symm hkey)
  · exact Dict.get?_set_of_ne _ _ (Ne.symm hkey)
  · exact Dict.get?_set_of_ne _ _ (Ne.symm hkey)

theorem allow_eq (buckets : Buckets κ) (call : RateCall κ) :
    limits.allow buckets call
      = if limits.Stale (limits.bucketOf buckets call)
          call.nowEpoch then (buckets.pop call.key, true)
        else if limits.refilled (limits.bucketOf buckets call) call.nowEpoch < 1 then
          (buckets.set call.key (limits.refilled (limits.bucketOf buckets call) call.nowEpoch,
            call.nowEpoch), false)
        else
          (buckets.set call.key (limits.refilled (limits.bucketOf buckets call) call.nowEpoch - 1,
            call.nowEpoch), true) :=
  rfl

/-- A call that finds no stale bucket leaves its tokens as they are, or takes just one of them. -/
theorem allow_spec {buckets : Buckets κ} {call : RateCall κ}
    (hcounts : ¬ limits.Stale (limits.bucketOf buckets call) call.nowEpoch) :
    (limits.allow buckets call).2
      = decide (1 ≤ (limits.refilled (limits.bucketOf buckets call) call.nowEpoch).value)
      ∧ ∃ tokens : Double, ((limits.allow buckets call).1).get? call.key
          = some (tokens, call.nowEpoch)
        ∧ tokens.value = (limits.refilled (limits.bucketOf buckets call) call.nowEpoch).value
          - if (limits.allow buckets call).2 then 1 else 0 := by
  have hcapacity := (limits.refilled_le (limits.bucketOf buckets call) call.nowEpoch).trans
    (Nat.cast_le.mpr limits.capacity_le)
  push_cast at hcapacity
  rw [limits.allow_eq, if_neg hcounts]
  by_cases hempty : limits.refilled (limits.bucketOf buckets call) call.nowEpoch < 1
  · rw [if_pos hempty]
    rw [Double.lt_iff, Double.value_one] at hempty
    exact ⟨(decide_eq_false (not_le.mpr hempty)).symm, _, Dict.get?_set_self _ _ _,
      (sub_zero _).symm⟩
  · rw [if_neg hempty]
    rw [Double.lt_iff, Double.value_one, not_lt] at hempty
    exact ⟨(decide_eq_true hempty).symm, _, Dict.get?_set_self _ _ _,
      Double.value_sub_one _ hempty hcapacity⟩

theorem not_stale_bucketOf {buckets : Buckets κ} {call : RateCall κ}
    (hcounts : limits.Counts call.key buckets call) :
    ¬ limits.Stale (limits.bucketOf buckets call) call.nowEpoch := by
  rw [bucketOf]
  cases hbucket : buckets.get? call.key with
  | some bucket => exact hcounts rfl bucket hbucket
  | none => exact limits.not_stale_now _ _

theorem level_allow_of_ne {key : κ} {call : RateCall κ} (hkey : call.key ≠ key)
    (buckets : Buckets κ) :
    limits.level key (limits.allow buckets call).1 call.time = limits.level key buckets call.time :=
  limits.level_congr (limits.get?_allow_of_ne hkey buckets) _

/-- A call of the key raises the level by no more than its slack, and pays one from it when it is
granted. -/
theorem level_allow {buckets : Buckets κ} {call : RateCall κ}
    (hcounts : limits.Counts call.key buckets call) :
    limits.level call.key (limits.allow buckets call).1 call.time
        ≤ limits.level call.key buckets call.time + limits.roundingSlack
      ∧ ((limits.allow buckets call).2 = true →
          0 ≤ limits.level call.key (limits.allow buckets call).1 call.time
        ∧ limits.level call.key (limits.allow buckets call).1 call.time + 1
          ≤ limits.level call.key buckets call.time + limits.roundingSlack) := by
  obtain ⟨hanswer, tokens, hbucket, htokens⟩ :=
    limits.allow_spec (limits.not_stale_bucketOf hcounts)
  have hlevel : limits.level call.key (limits.allow buckets call).1 call.time
      = min (limits.capacity : ℚ) (max 0 tokens.value) := limits.level_of_get? hbucket
  have hbefore := limits.refilled_le_level buckets call
  have hslack := limits.roundingSlack_nonneg
  have hpositive : 0 ≤ limits.level call.key buckets call.time := by
    rw [level]
    split
    · exact limits.filled_nonneg _ _
    · exact Nat.cast_nonneg _
  rw [hlevel]
  cases hgranted : (limits.allow buckets call).2 with
  | false =>
      rw [hgranted, if_neg Bool.false_ne_true, sub_zero] at htokens
      refine ⟨(min_le_right _ _).trans (max_le (by linarith) (by linarith)),
        fun h => absurd h Bool.false_ne_true⟩
  | true =>
      rw [hgranted] at hanswer
      rw [hgranted, if_pos rfl] at htokens
      have hone := of_decide_eq_true hanswer.symm
      have hpaid : min (limits.capacity : ℚ) (max 0 tokens.value) + 1
          ≤ limits.level call.key buckets call.time + limits.roundingSlack := by
        have hmin := min_le_right (limits.capacity : ℚ) (max 0 tokens.value)
        rw [max_eq_right (show 0 ≤ tokens.value by linarith)] at hmin ⊢
        linarith
      exact ⟨by linarith, fun _ => ⟨le_min (Nat.cast_nonneg _) (le_max_left _ _), hpaid⟩⟩

/-- The bucket of a key as the meter of the calls it is granted. -/
def meter (key : κ) :
    Meter limits.allow RateCall.time (fun call : RateCall κ => decide (call.key = key))
    (limits.Counts key) (limits.capacity : ℚ) limits.tokensPerSecond limits.roundingSlack where
  level := limits.level key
  cap_nonneg := Nat.cast_nonneg _
  rate_nonneg := limits.tokensPerSecond_nonneg
  slack_nonneg := limits.roundingSlack_nonneg
  le_cap := limits.level_le key
  refills := fun buckets _ _ h => limits.level_later key buckets h
  others := fun buckets _ hkey =>
    le_of_eq (limits.level_allow_of_ne (of_decide_eq_false hkey) buckets)
  keeps := fun _ _ hcounts hkey => by
    obtain rfl := of_decide_eq_true hkey
    exact (limits.level_allow hcounts).1
  charges := fun _ _ hcounts hkey hallowed => by
    obtain rfl := of_decide_eq_true hkey
    exact (limits.level_allow hcounts).2 hallowed

/-- A sweep changes no level: what it drops was full. -/
theorem level_sweep (key : κ) (limiter : IpRateLimiter κ) (call : RateCall κ) :
    limits.level key (limiter.sweep call.nowEpoch).buckets call.time
      = limits.level key limiter.buckets call.time := by
  rcases limiter.get?_sweep call.nowEpoch key with hsame | ⟨hdropped, -, bucket, hbucket, hidle⟩
  · exact limits.level_congr hsame _
  · rw [level, level, hdropped, hbucket]
    exact (limits.filled_of_idle hidle).symm

/-- The bucket of a key as the meter of the calls it is granted, sweeps included. -/
def sweptMeter (key : κ) :
    Meter (IpRateLimiter.allow limits) RateCall.time (fun call : RateCall κ =>
      decide (call.key = key))
      (limits.CountsSwept key) (limits.capacity : ℚ) limits.tokensPerSecond
        limits.roundingSlack where
  level := fun limiter => limits.level key limiter.buckets
  cap_nonneg := Nat.cast_nonneg _
  rate_nonneg := limits.tokensPerSecond_nonneg
  slack_nonneg := limits.roundingSlack_nonneg
  le_cap := fun limiter => limits.level_le key limiter.buckets
  refills := fun limiter _ _ h => limits.level_later key limiter.buckets h
  others := fun limiter call hkey => by
    rw [← limits.level_sweep key limiter call]
    exact le_of_eq (limits.level_allow_of_ne (of_decide_eq_false hkey) _)
  keeps := fun limiter call hcounts hkey => by
    obtain rfl := of_decide_eq_true hkey
    rw [← limits.level_sweep call.key limiter call]
    exact (limits.level_allow hcounts).1
  charges := fun limiter call hcounts hkey hallowed => by
    obtain rfl := of_decide_eq_true hkey
    rw [← limits.level_sweep call.key limiter call]
    exact (limits.level_allow hcounts).2 hallowed

/-! ### With the sweep and without it -/

/-- The bucket is full by its rounded tokens. -/
def Full (bucket : Double × Double) (now : Double) : Prop :=
  (limits.capacity : ℚ) ≤ (limits.refilled bucket now).value

theorem Full.later {bucket : Double × Double} {now later : Double} (h : limits.Full bucket now)
    (hlater : now.value ≤ later.value) : limits.Full bucket later := by
  have helapsed : (elapsedMinutes bucket now).value ≤ (elapsedMinutes bucket later).value := by
    rw [value_elapsedMinutes, value_elapsedMinutes]
    refine max_le_max_left 0 (Double.rounds.mono ?_)
    exact div_le_div_of_nonneg_right (Double.rounds.mono (by linarith)) (by norm_num)
  have hgained :=
    Double.rounds.mono (mul_le_mul_of_nonneg_right helapsed limits.refillPerMinute_nonneg)
  refine le_trans h ?_
  rw [limits.value_refilled, limits.value_refilled]
  exact min_le_min_left _ (Double.rounds.mono (by linarith))

/-- Five minutes fill a bucket, whatever is rounded. -/
theorem full_of_idle {bucket : Double × Double} {now : Double} (htokens : 0 ≤ bucket.1.value)
    (hidle : 300 ≤ now.value - bucket.2.value) : limits.Full bucket now := by
  have hwhole : ∀ n : ℕ, n ≤ 2 ^ 53 → ∀ x : ℚ, (n : ℚ) ≤ x → (n : ℚ) ≤ Double.nearest x := by
    intro n hn x hx
    rw [← Double.nearest_natCast hn]
    exact Double.rounds.mono hx
  have hburst : (limits.capacity : ℚ) ≤ 5 * limits.refillPerMinute := by
    exact_mod_cast limits.burst_le
  have hgap : (300 : ℚ) ≤ Double.nearest (now.value - bucket.2.value) := by
    exact_mod_cast hwhole 300 (by decide) _ (by exact_mod_cast hidle)
  have hminutes : (5 : ℚ) ≤ (elapsedMinutes bucket now).value := by
    rw [value_elapsedMinutes]
    refine le_max_of_le_right ?_
    exact_mod_cast hwhole 5 (by decide) _ (by push_cast; linarith)
  have hgained := hwhole limits.capacity limits.capacity_le _
    (hburst.trans (mul_le_mul_of_nonneg_right hminutes limits.refillPerMinute_nonneg))
  rw [Full, limits.value_refilled]
  exact le_min le_rfl (hwhole limits.capacity limits.capacity_le _ (by linarith))

theorem refilled_nonneg {bucket : Double × Double} (htokens : 0 ≤ bucket.1.value) (now : Double) :
    0 ≤ (limits.refilled bucket now).value := by
  have hgained := Double.nearest_nonneg
    (mul_nonneg (elapsedMinutes_nonneg bucket now) limits.refillPerMinute_nonneg)
  rw [limits.value_refilled]
  exact le_min (Nat.cast_nonneg _) (Double.nearest_nonneg (add_nonneg htokens hgained))

/-- A limiter that sweeps agrees on the key's bucket with one that does not, or has dropped it
full. -/
structure Forgets (key : κ) (limiter : IpRateLimiter κ) (buckets : Buckets κ) : Prop where
  nonneg : ∀ bucket ∈ buckets.get? key, 0 ≤ bucket.1.value
  alike : limiter.buckets.get? key = buckets.get? key
    ∨ limiter.buckets.get? key = none
      ∧ ∃ lastSweep ∈ limiter.lastSweep, ∃ bucket ∈ buckets.get? key, limits.Full bucket lastSweep

/-- The last sweep is not later than the call. -/
def SweptBefore (limiter : IpRateLimiter κ) (call : RateCall κ) : Prop :=
  ∀ lastSweep ∈ limiter.lastSweep, lastSweep.value ≤ call.time

theorem Forgets.sweep {key : κ} {limiter : IpRateLimiter κ} {buckets : Buckets κ}
    {call : RateCall κ} (h : limits.Forgets key limiter buckets)
    (hswept : SweptBefore limiter call) :
    limits.Forgets key (limiter.sweep call.nowEpoch) buckets := by
  refine ⟨h.nonneg, ?_⟩
  rcases limiter.get?_sweep call.nowEpoch key with hkept | ⟨hdropped, hnow, bucket, hbucket, hidle⟩
  · rcases h.alike with hsame | ⟨hnone, lastSweep, hlast, bucket, hbucket, hfull⟩
    · exact Or.inl (hkept.trans hsame)
    · obtain ⟨next, hnext, hle⟩ := limiter.lastSweep_le_sweep hlast (hswept lastSweep hlast)
      exact Or.inr ⟨hkept.trans hnone, next, hnext, bucket, hbucket, Full.later limits hfull hle⟩
  · rcases h.alike with hsame | ⟨hnone, -⟩
    · rw [hsame] at hbucket
      exact Or.inr ⟨hdropped, call.nowEpoch, hnow, bucket, hbucket,
        limits.full_of_idle (h.nonneg bucket hbucket) hidle⟩
    · rw [hnone] at hbucket
      cases hbucket

/-- Two buckets of the same tokens, neither stale, answer a call alike. -/
theorem allow_congr {buckets buckets' : Buckets κ} {call : RateCall κ}
    (htokens : limits.refilled (limits.bucketOf buckets call) call.nowEpoch
      = limits.refilled (limits.bucketOf buckets' call) call.nowEpoch)
    (hcounts : ¬ limits.Stale (limits.bucketOf buckets call) call.nowEpoch)
    (hcounts' : ¬ limits.Stale (limits.bucketOf buckets' call) call.nowEpoch) :
    (limits.allow buckets call).2 = (limits.allow buckets' call).2
      ∧ (limits.allow buckets call).1.get? call.key
          = (limits.allow buckets' call).1.get? call.key := by
  rw [limits.allow_eq, limits.allow_eq, if_neg hcounts, if_neg hcounts', htokens]
  split_ifs
  · exact ⟨rfl, by rw [Dict.get?_set_self, Dict.get?_set_self]⟩
  · exact ⟨rfl, by rw [Dict.get?_set_self, Dict.get?_set_self]⟩

/-- A call that finds no stale bucket finds the same tokens in both limiters. -/
theorem Forgets.bucketOf {limiter : IpRateLimiter κ} {buckets : Buckets κ} {call : RateCall κ}
    (h : limits.Forgets call.key limiter buckets) (hswept : SweptBefore limiter call)
    (hcounts : ¬ limits.Stale (limits.bucketOf buckets call) call.nowEpoch) :
    limits.refilled (limits.bucketOf limiter.buckets call) call.nowEpoch
        = limits.refilled (limits.bucketOf buckets call) call.nowEpoch
      ∧ ¬ limits.Stale (limits.bucketOf limiter.buckets call) call.nowEpoch := by
  rcases h.alike with hsame | ⟨hnone, lastSweep, hlast, bucket, hbucket, hfull⟩
  · have hbuckets : limits.bucketOf limiter.buckets call = limits.bucketOf buckets call := by
      rw [RateLimits.bucketOf, hsame, ← RateLimits.bucketOf]
    rw [hbuckets]
    exact ⟨rfl, hcounts⟩
  · have hfresh : limits.bucketOf limiter.buckets call
        = ((limits.capacity : Double), call.nowEpoch) := by
      rw [RateLimits.bucketOf, hnone, Option.getD_none]
    have hkept : limits.bucketOf buckets call = bucket := by
      rw [RateLimits.bucketOf, Option.mem_def.mp hbucket, Option.getD_some]
    have hnow := Full.later limits hfull (hswept lastSweep hlast)
    rw [hfresh, hkept, limits.refilled_full]
    refine ⟨Double.ext ?_, limits.not_stale_now _ _⟩
    rw [limits.value_capacity]
    exact le_antisymm hnow (limits.refilled_le _ _)

theorem forgets_allow {key : κ} {limiter : IpRateLimiter κ} {buckets : Buckets κ}
    {call : RateCall κ} (h : limits.Forgets key limiter buckets) (hswept : SweptBefore limiter call)
    (hcounts : limits.Counts key buckets call) :
    limits.Forgets key (IpRateLimiter.allow limits limiter call).1 (limits.allow buckets call).1
      ∧ (decide (call.key = key) = true →
          (IpRateLimiter.allow limits limiter call).2 = (limits.allow buckets call).2) := by
  have hafter := Forgets.sweep limits h hswept
  by_cases hkey : call.key = key
  · subst hkey
    have hfresh := limits.not_stale_bucketOf hcounts
    obtain ⟨htokens, hstale⟩ :=
      Forgets.bucketOf limits hafter (limiter.sweep_le call.nowEpoch hswept) hfresh
    obtain ⟨hanswer, hnext⟩ := limits.allow_congr htokens hstale hfresh
    refine ⟨⟨?_, Or.inl hnext⟩, fun _ => hanswer⟩
    obtain ⟨hgranted, tokens, hbucket, hvalue⟩ := limits.allow_spec hfresh
    rintro bucket hmem
    obtain rfl := Option.some.inj (hbucket.symm.trans (Option.mem_def.mp hmem))
    have hnonneg : 0 ≤ (limits.refilled (limits.bucketOf buckets call) call.nowEpoch).value := by
      refine limits.refilled_nonneg ?_ _
      rw [RateLimits.bucketOf]
      cases hfound : buckets.get? call.key with
      | some bucket => exact h.nonneg bucket hfound
      | none =>
          rw [Option.getD_none, limits.value_capacity]
          exact Nat.cast_nonneg _
    rw [hvalue]
    split_ifs with htrue
    · rw [hgranted] at htrue
      linarith [of_decide_eq_true htrue]
    · rwa [sub_zero]
  · refine ⟨⟨?_, ?_⟩, fun hours => absurd (of_decide_eq_true hours) hkey⟩
    · rw [limits.get?_allow_of_ne hkey]
      exact h.nonneg
    · rw [IpRateLimiter.allow, limits.get?_allow_of_ne hkey, limits.get?_allow_of_ne hkey]
      exact hafter.alike

theorem sweptBefore_of_sorted :
    ∀ (calls : List (RateCall κ)) (limiter : IpRateLimiter κ),
      (calls.map RateCall.time).Pairwise (· ≤ ·) → (∀ call ∈ calls, SweptBefore limiter call) →
      Finds (IpRateLimiter.allow limits) SweptBefore limiter calls
  | [], _, _, _ => trivial
  | call :: rest, limiter, hsorted, hbefore => by
      rw [List.map_cons, List.pairwise_cons] at hsorted
      have hhere := hbefore call List.mem_cons_self
      refine ⟨hhere, sweptBefore_of_sorted rest _ hsorted.2 fun later hlater lastSweep hlast => ?_⟩
      exact (limiter.sweep_le call.nowEpoch hhere lastSweep hlast).trans
        (hsorted.1 _ (List.mem_map_of_mem hlater))

/-- In an interval in which no call of the key finds a stale bucket, the key is granted no more than
its burst, its rate and what its calls there may gain by rounding, whatever the other keys do. As
long as none has found one, the sweep changes none of its answers. -/
theorem rate_limit_holds (key : κ) {calls : List (RateCall κ)}
    (hsorted : (calls.map RateCall.time).Pairwise (· ≤ ·)) :
    (∀ first last, first ≤ last →
        FindsWithin limits.allow RateCall.time (limits.Counts key) first last Dict.empty calls →
        (grantedWithin RateCall.time (fun call => decide (call.key = key)) first last
            (answers limits.allow Dict.empty calls) : ℚ)
          ≤ limits.capacity + limits.tokensPerSecond * (last - first)
            + askedWithin RateCall.time (fun call => decide (call.key = key)) first last
              calls * limits.roundingSlack)
      ∧ (∀ first last, first ≤ last →
        FindsWithin (IpRateLimiter.allow limits) RateCall.time (limits.CountsSwept key) first last
          (IpRateLimiter.fresh κ) calls →
        (grantedWithin RateCall.time (fun call => decide (call.key = key)) first last
            (answers (IpRateLimiter.allow limits) (IpRateLimiter.fresh κ) calls) : ℚ)
          ≤ limits.capacity + limits.tokensPerSecond * (last - first)
            + askedWithin RateCall.time (fun call => decide (call.key = key)) first last
              calls * limits.roundingSlack)
      ∧ (Finds limits.allow (limits.Counts key) Dict.empty calls →
        (answers (IpRateLimiter.allow limits) (IpRateLimiter.fresh κ) calls).filter
            (fun answer => decide (answer.1.key = key))
          = (answers limits.allow Dict.empty calls).filter fun answer =>
              decide (answer.1.key = key)) := by
  refine ⟨fun first last h hfinds => ?_, fun first last h hfinds => ?_, fun hfinds => ?_⟩
  · exact (limits.meter key).granted_le h calls Dict.empty hsorted hfinds
  · exact (limits.sweptMeter key).granted_le h calls (IpRateLimiter.fresh κ) hsorted hfinds
  · have hstep : ∀ limiter buckets call, limits.Forgets key limiter buckets →
        SweptBefore limiter call →
        limits.Counts key buckets call → _ := fun _ _ _ => limits.forgets_allow
    have hbefore : ∀ call ∈ calls, SweptBefore (IpRateLimiter.fresh κ) call := by
      intro call _ lastSweep hlast
      cases hlast
    refine answers_filter_eq (fun call => decide (call.key = key)) (limits.Forgets key) hstep calls
      (IpRateLimiter.fresh κ) Dict.empty ⟨?_, Or.inl rfl⟩
        (limits.sweptBefore_of_sorted calls _ hsorted hbefore) hfinds
    intro bucket hbucket
    cases hbucket

/-- A script that asks four times at once and then every four minutes, beside another visitor. -/
def patientScript : List (RateCall Nat) :=
  [{ key := 0, nowEpoch := 0 }, { key := 0, nowEpoch := 0 }, { key := 1, nowEpoch := 0 },
    { key := 0, nowEpoch := 0 }, { key := 0, nowEpoch := 0 }, { key := 0, nowEpoch := 240 },
    { key := 1, nowEpoch := 400 }, { key := 0, nowEpoch := 480 }]

/-- Three tokens a minute. -/
def threePerMinute : RateLimits := ipRateLimits (some { perMinute := 3, bounds := by decide })

theorem rate_limit_holds_patient :
    ((grantedWithin RateCall.time (fun call => decide (call.key = 0)) 0 480
        (answers (IpRateLimiter.allow threePerMinute) (IpRateLimiter.fresh ℕ) patientScript) : ℚ)
      ≤ threePerMinute.capacity + threePerMinute.tokensPerSecond * (480 - 0)
        + askedWithin RateCall.time (fun call => decide (call.key = 0)) 0 480 patientScript
          * threePerMinute.roundingSlack)
      ∧ (answers (IpRateLimiter.allow threePerMinute) (IpRateLimiter.fresh ℕ) patientScript).filter
            (fun answer => decide (answer.1.key = 0))
          = (answers threePerMinute.allow Dict.empty patientScript).filter fun answer =>
              decide (answer.1.key = 0) := by
  have hsorted : (patientScript.map RateCall.time).Pairwise (· ≤ ·) := by decide +kernel
  constructor
  · exact (threePerMinute.rate_limit_holds 0 hsorted).2.1 0 480 (by norm_num) (by decide +kernel)
  · exact (threePerMinute.rate_limit_holds 0 hsorted).2.2 (by decide +kernel)

end RateLimits

/-- A visitor who comes back after five minutes and asks at once for more than the burst. -/
def returningVisitor (count : Nat) : List (RateCall Nat) :=
  { key := 0, nowEpoch := 0 } :: List.replicate count { key := 0, nowEpoch := 301 }

/-- The last double before two seconds. -/
def almostTwoSeconds : ℚ := 2 - Double.relativeError * 2

/-- A visitor who spends the burst at once, and asks again just before the next token. -/
def hastyVisitor : List (RateCall Nat) :=
  List.replicate 30 { key := 0, nowEpoch := 0 }
    ++ [{ key := 0, nowEpoch := .ofRat almostTwoSeconds }]

/-- A token that is almost refilled is rounded up to a whole one. The call that finds the stale
bucket is not counted, unless a sweep has dropped the bucket. -/
theorem forgotten_bucket_uncounted :
    ¬ ((grantedWithin RateCall.time (fun call => decide (call.key = 0)) 0 almostTwoSeconds
            (answers accountRateLimits.allow Dict.empty hastyVisitor) : ℚ)
          ≤ accountRateLimits.capacity
              + accountRateLimits.refillPerMinute / 60 * (almostTwoSeconds - 0))
      ∧ ¬ ((grantedWithin RateCall.time (fun call => decide (call.key = 0)) 301 301
            (answers accountRateLimits.allow Dict.empty (returningVisitor 31)) : ℚ)
          ≤ accountRateLimits.capacity + accountRateLimits.refillPerMinute / 60 * (301 - 301))
      ∧ (answers (IpRateLimiter.allow (ipRateLimits none)) (IpRateLimiter.fresh Nat)
            (returningVisitor 11)).map Prod.snd
          ≠ (answers (ipRateLimits none).allow Dict.empty (returningVisitor 11)).map Prod.snd := by
  refine ⟨?_, ?_, ?_⟩
  · decide +kernel
  · decide +kernel
  · decide +kernel

end Quorum
