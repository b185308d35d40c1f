import Taskq.Api.RateLimit

/-!
# Taskq.Api.RetryAfter

`Retry-After` is sufficient and least.

A rejection refills the bucket twice: in `consume`, and once more for the wait. What it
advertises is computed from the second refill, and the bucket keeps that one; so from
then on the tokens are a known line in time up to the capacity, and rounding the wait up
to whole seconds is exact.
-/

namespace Taskq

namespace TokenBucket

variable {b : TokenBucket} {now : ℚ}

@[simp] theorem consume_config : (b.consume now).2.config = b.config :=
  call_config (c := .consume now)

/-- Where tokens accrue, a refill sets the clock. -/
theorem refillLocked_lastRefillAt (hrate : 0 < b.config.perSec) :
    (b.refillLocked now).lastRefillAt = now := by
  simp only [refillLocked]
  rcases le_or_gt now b.lastRefillAt with h | h
  · rw [computeRefill_of_le h]
  · rw [computeRefill_of_pos h (mul_pos (sub_pos.mpr h) hrate)]

/-- The tokens after a refill: a line in time, up to the capacity. -/
theorem one_le_refill_iff (hburst : 1 ≤ b.config.burst) (hrate : 0 < b.config.perSec)
    (hnow : b.lastRefillAt ≤ now) :
    1 ≤ (b.refillLocked now).tokens ↔
      1 ≤ b.tokens + b.config.perSec * (now - b.lastRefillAt) := by
  have hb : (1 : ℚ) ≤ b.config.burst := by exact_mod_cast hburst
  simp only [refillLocked]
  rcases hnow.eq_or_lt with h | h
  · rw [computeRefill_of_le h.ge, h, sub_self, mul_zero, add_zero]
  · rw [computeRefill_of_pos h (mul_pos (sub_pos.mpr h) hrate), le_min_iff, mul_comm]
    exact and_iff_right hb

theorem consume_fst_iff : (b.consume now).1 = true ↔ 1 ≤ (b.refillLocked now).tokens := by
  simp only [consume]
  split_ifs with h <;> simp [h]

end TokenBucket

namespace RateLimit

open Http Machine TokenBucket

variable {b : TokenBucket} {a again : Arrival} {r : ℤ}

/-- The wait that is advertised for a bucket that was just refilled. -/
def advertised (b : TokenBucket) : ℤ :=
  if 1 ≤ b.tokens then 0 else ⌈(1 - b.tokens) / b.config.perSec⌉

theorem meter_passed_iff : (meter b a).1 = .passed ↔ (b.consume a.consumed).1 = true := by
  rcases meter_cases b a with ⟨hgrant, h⟩ | ⟨hgrant, h⟩ <;> simp [h, hgrant]

@[simp] theorem meter_config : (meter b a).2.config = b.config := by
  rcases meter_cases b a with ⟨-, h⟩ | ⟨-, h⟩
  · rw [h, consume_config]
  · rw [h, secondsUntilNextToken_snd, refillLocked_config, consume_config]

theorem wait_pos (hrate : 0 < b.config.perSec) (hone : ¬ 1 ≤ b.tokens) :
    0 < (1 - b.tokens) / b.config.perSec :=
  div_pos (sub_pos.mpr (lt_of_not_ge hone)) hrate

theorem advertised_nonneg (hrate : 0 < b.config.perSec) : 0 ≤ advertised b := by
  unfold advertised
  split_ifs with hone
  · exact le_rfl
  · exact Int.ceil_nonneg (wait_pos hrate hone).le

theorem retryAfter_eq_advertised (hrate : 0 < b.config.perSec) (now : ℚ) :
    retryAfter (b.secondsUntilNextToken now).1 = advertised (b.refillLocked now) := by
  by_cases hone : 1 ≤ (b.refillLocked now).tokens
  · simp [secondsUntilNextToken, advertised, hone, retryAfter]
  · have hrate' : 0 < (b.refillLocked now).config.perSec := hrate
    have hwait := wait_pos hrate' hone
    simp only [secondsUntilNextToken, advertised, if_neg hone, if_neg hrate'.not_ge, retryAfter]
    rw [if_neg hwait.not_gt, max_eq_right (Int.ceil_nonneg hwait.le)]

/-- What a rejection leaves: a bucket that was refilled for the wait, and the wait. -/
theorem meter_rejected (hrate : 0 < b.config.perSec) (h : (meter b a).1 = .rejected r) :
    (meter b a).2.lastRefillAt = a.waited ∧ r = advertised (meter b a).2 := by
  rcases meter_cases b a with ⟨-, hmeter⟩ | ⟨-, hmeter⟩
  · rw [hmeter] at h
    cases h
  · have hrate' : 0 < (b.consume a.consumed).2.config.perSec := by rwa [consume_config]
    rw [hmeter] at h ⊢
    cases h
    simp only [secondsUntilNextToken_snd]
    exact ⟨refillLocked_lastRefillAt hrate', retryAfter_eq_advertised hrate' a.waited⟩

/-- A bucket that advertises `r` has a token from then on. -/
theorem one_le_of_advertised (hrate : 0 < b.config.perSec) {t : ℚ}
    (ht : b.lastRefillAt + advertised b ≤ t) :
    1 ≤ b.tokens + b.config.perSec * (t - b.lastRefillAt) := by
  have helapsed : (advertised b : ℚ) ≤ t - b.lastRefillAt := by linarith
  unfold advertised at helapsed
  split_ifs at helapsed with hone
  · have haccrued : 0 ≤ b.config.perSec * (t - b.lastRefillAt) :=
      mul_nonneg hrate.le (by exact_mod_cast helapsed)
    linarith
  · have hwait := (Int.le_ceil ((1 - b.tokens) / b.config.perSec)).trans helapsed
    rw [div_le_iff₀ hrate] at hwait
    linarith

/-- A bucket that advertises `r` has no token until one second less. -/
theorem lt_one_of_advertised (hrate : 0 < b.config.perSec) (hr : 1 ≤ advertised b) {t : ℚ}
    (ht : t ≤ b.lastRefillAt + advertised b - 1) :
    b.tokens + b.config.perSec * (t - b.lastRefillAt) < 1 := by
  have helapsed : t - b.lastRefillAt ≤ (advertised b : ℚ) - 1 := by linarith
  unfold advertised at hr helapsed
  split_ifs at hr helapsed with hone
  · omega
  · have hround := Int.ceil_lt_add_one ((1 - b.tokens) / b.config.perSec)
    have hwait : t - b.lastRefillAt < (1 - b.tokens) / b.config.perSec := by linarith
    rw [lt_div_iff₀ hrate] at hwait
    linarith

/-! ### The app -/

/-- Every bucket has the configuration of its app. -/
def Uniform (s : Limiter) : Prop := ∀ key b, s.buckets key = some b → b.config = s.config

theorem Uniform.bucket {s : Limiter} (h : Uniform s) (key : List Char) (created : ℚ) :
    (s.bucket key created).config = s.config := by
  unfold Limiter.bucket
  cases hb : s.buckets key with
  | none => rfl
  | some b => exact h key b hb

theorem Uniform.dispatch {s : Limiter} (h : Uniform s) (a : Arrival) :
    Uniform (dispatch s a).2 := by
  cases hexempt : isExempt a.request.urlPath with
  | true => rwa [dispatch_exempt hexempt]
  | false =>
      intro key b hb
      rw [(dispatch_metered hexempt).2.2.1, Function.update_apply] at hb
      rw [dispatch_config]
      split_ifs at hb with hkey
      · cases hb
        rw [meter_config, h.bucket]
      · exact h key b hb

theorem Uniform.final {s : Limiter} (h : Uniform s) (as : List Arrival) :
    Uniform (final RateLimit.dispatch s as) := by
  induction as generalizing s with
  | nil => exact h
  | cons a as ih => exact ih (h.dispatch a)

theorem uniform_new (config : RateLimitConfig) : Uniform (Limiter.new config) := by
  intro key b hb
  cases hb

/-- The verdict on a request whose bucket is known. -/
theorem dispatch_passed_iff {s : Limiter} {key : List Char} (h : metered key a = true)
    (hb : s.buckets key = some b) :
    (dispatch s a).1 = .passed ↔ 1 ≤ (b.refillLocked a.consumed).tokens := by
  obtain ⟨hexempt, hkey⟩ := metered_iff.mp h
  rw [(dispatch_metered hexempt).1, hkey, Limiter.bucket, hb, Option.getD_some, meter_passed_iff,
    consume_fst_iff]

/-- The bucket that a rejection leaves. -/
theorem dispatch_rejected {s : Limiter} (hs : Uniform s) (hrate : 0 < s.config.perSec)
    (h : (dispatch s a).1 = .rejected r) :
    ∃ b, (dispatch s a).2.buckets (bucketKey a.request) = some b ∧ b.config = s.config ∧
      b.lastRefillAt = a.waited ∧ r = advertised b := by
  have hexempt : isExempt a.request.urlPath = false := by
    by_contra hne
    rw [dispatch_exempt (Bool.eq_true_of_not_eq_false hne)] at h
    cases h
  obtain ⟨hverdict, -, hbuckets, -⟩ := dispatch_metered (s := s) hexempt
  have hconfig := hs.bucket (bucketKey a.request) a.created
  rw [hverdict] at h
  obtain ⟨hlast, hr⟩ := meter_rejected (by rwa [hconfig]) h
  refine ⟨_, ?_, by rw [meter_config, hconfig], hlast, hr⟩
  rw [hbuckets, Function.update_self]

/-- **`Retry-After` is sufficient and least.** Behind any history, a rejection with the wait
`r` is followed, whatever others do, by an admission at any time from `r` seconds on, and by
a rejection at any time up to `r - 1` seconds when `r` is at least one. -/
theorem retry_after_sufficient_and_least (config : RateLimitConfig) (hburst : 1 ≤ config.burst)
    (hrate : 0 < config.perSec) (history : List Arrival) (a : Arrival) (r : ℤ)
    (hrejected : (dispatch (final dispatch (Limiter.new config) history) a).1 = .rejected r)
    (others : List Arrival)
    (hothers : ∀ o ∈ others, metered (bucketKey a.request) o = false) (again : Arrival)
    (hagain : metered (bucketKey a.request) again = true) :
    let s := final dispatch (dispatch (final dispatch (Limiter.new config) history) a).2 others
    (a.waited + r ≤ again.consumed → (dispatch s again).1 = .passed) ∧
      (1 ≤ r → a.waited ≤ again.consumed → again.consumed ≤ a.waited + r - 1 →
        (dispatch s again).1 ≠ .passed) := by
  intro s
  have hreached : Uniform (final dispatch (Limiter.new config) history) :=
    (uniform_new config).final history
  have hconfig : (final dispatch (Limiter.new config) history).config = config :=
    final_config _ history
  obtain ⟨b, hleft, hb, hlast, rfl⟩ :=
    dispatch_rejected hreached (by rwa [hconfig]) hrejected
  rw [hconfig] at hb
  -- the others leave the bucket as it is
  have hbucket : s.buckets (bucketKey a.request) = some b :=
    ((projection _).final_skip ⟨rfl, rfl⟩ hothers).bucket.trans hleft
  have hburst' : 1 ≤ b.config.burst := by rwa [hb]
  have hrate' : 0 < b.config.perSec := by rwa [hb]
  rw [dispatch_passed_iff hagain hbucket, ← hlast]
  refine ⟨?_, ?_⟩
  · intro henough
    have hwait : (0 : ℚ) ≤ advertised b := by exact_mod_cast advertised_nonneg hrate'
    have hnow : b.lastRefillAt ≤ again.consumed := by linarith
    exact (one_le_refill_iff hburst' hrate' hnow).mpr (one_le_of_advertised hrate' henough)
  · intro hr hnow hearly
    rw [Ne, dispatch_passed_iff hagain hbucket, one_le_refill_iff hburst' hrate' hnow, not_le]
    exact lt_one_of_advertised hrate' hr hearly

/-- One token and one per second: spent at second zero, refused half a second later. -/
theorem retry_after_sufficient_and_least_one :
    let history := [Arrival.at (keyRequest ['a']) 0]
    let a := Arrival.at (keyRequest ['a']) (1 / 2)
    let again := Arrival.at (keyRequest ['a']) (3 / 2)
    let s := final dispatch (dispatch (final dispatch (Limiter.new ⟨1, 1⟩) history) a).2 []
    (a.waited + (1 : ℤ) ≤ again.consumed → (dispatch s again).1 = .passed) ∧
      ((1 : ℤ) ≤ 1 → a.waited ≤ again.consumed → again.consumed ≤ a.waited + (1 : ℤ) - 1 →
        (dispatch s again).1 ≠ .passed) :=
  retry_after_sufficient_and_least ⟨1, 1⟩ (by decide) (by decide +kernel) _ _ 1
    (by decide +kernel) [] (by simp) _ (by decide)

end RateLimit

end Taskq
