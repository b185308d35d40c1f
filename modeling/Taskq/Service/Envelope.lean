import Taskq.Lib.Greedy
import Taskq.Service.RateLimit

/-!
# Taskq.Service.Envelope

The in-memory bucket on a clock that never goes back is the greedy policy of its
envelope (`Taskq.Lib.Greedy`).

The bucket refills when it is asked, in as many steps as there are calls; the policy
knows the history of the grants and nothing else. `Mirrors` relates the two, one
call at a time. So a wait that is asked for in between leaves no trace in the
decisions, and a call is granted exactly when every window has room for it.
-/

namespace Taskq.TokenBucket

/-- The `consume` calls of a sequence, each with its time and its decision. -/
def decisions (b : TokenBucket) : List Call → List (ℚ × Bool)
  | [] => []
  | .consume now :: calls => (now, (b.consume now).1) :: decisions (b.consume now).2 calls
  | .secondsUntilNextToken now :: calls => decisions (b.secondsUntilNextToken now).2 calls

/-- The times of the `consume` calls. -/
def consumeTimes : List Call → List ℚ
  | [] => []
  | .consume now :: calls => now :: consumeTimes calls
  | .secondsUntilNextToken _ :: calls => consumeTimes calls

/-- `b`, last called at `s`, holds what the history `past` leaves, now and later on. -/
structure Mirrors (config : RateLimitConfig) (b : TokenBucket) (past : List (ℚ × ℚ)) (s : ℚ) :
    Prop where
  config_eq : b.config = config
  perSec_nonneg : 0 ≤ config.perSec
  /-- Without accrual it does not matter when the bucket was last refilled. -/
  current : config.perSec = 0 ∨ b.lastRefillAt = s
  tokens_le : b.tokens ≤ config.burst
  level : ∀ t, s ≤ t → min (config.burst : ℚ) (b.tokens + config.perSec * (t - s))
    = Greedy.level (config.burst : ℚ) config.perSec past t

section Mirrors

variable {config : RateLimitConfig} {b : TokenBucket} {past : List (ℚ × ℚ)} {s now t₀ : ℚ}

theorem mirrors_fresh (hburst : 0 ≤ config.burst) (hrate : 0 ≤ config.perSec) :
    Mirrors config (fresh config t₀) [] t₀ where
  config_eq := rfl
  perSec_nonneg := hrate
  current := Or.inr rfl
  tokens_le := (fresh_tokens hburst).le
  level t ht := by
    rw [fresh_tokens hburst, Greedy.level, min_eq_left]
    exact le_add_of_nonneg_right (mul_nonneg hrate (sub_nonneg.mpr ht))

/-- A refill finds what has accrued since the last call, and then nothing is due. -/
theorem Mirrors.refill (h : Mirrors config b past s) (hnow : s ≤ now) :
    (b.refillLocked now).tokens = Greedy.level (config.burst : ℚ) config.perSec past now ∧
      (config.perSec = 0 ∨ (b.refillLocked now).lastRefillAt = now) := by
  have hlevel := h.level now hnow
  simp only [refillLocked, h.config_eq]
  rcases h.perSec_nonneg.eq_or_lt with hzero | hpos
  · rw [← hzero, zero_mul, add_zero, min_eq_right h.tokens_le] at hlevel
    refine ⟨?_, Or.inl hzero.symm⟩
    rw [← hzero, computeRefill_zero_rate]
    exact hlevel
  · have hlast : b.lastRefillAt = s := h.current.resolve_left hpos.ne'
    rw [hlast]
    rcases hnow.eq_or_lt with rfl | hlt
    · rw [sub_self, mul_zero, add_zero, min_eq_right h.tokens_le] at hlevel
      rw [computeRefill_of_le le_rfl]
      exact ⟨hlevel, Or.inr rfl⟩
    · rw [computeRefill_of_pos hlt (mul_pos (sub_pos.mpr hlt) hpos), mul_comm]
      exact ⟨hlevel, Or.inr rfl⟩

/-- Asking for the wait leaves the history as it is. -/
theorem Mirrors.refillLocked (h : Mirrors config b past s) (hnow : s ≤ now) :
    Mirrors config (b.refillLocked now) past now where
  config_eq := h.config_eq
  perSec_nonneg := h.perSec_nonneg
  current := (h.refill hnow).2
  tokens_le := (h.refill hnow).1.trans_le Greedy.level_le_burst
  level t ht := by
    rw [(h.refill hnow).1, ← h.level now hnow, Greedy.accrue_accrue h.perSec_nonneg ht]
    exact h.level t (hnow.trans ht)

/-- A `consume` is decided by the level, and enters the history with its decision. -/
theorem Mirrors.consume (h : Mirrors config b past s) (hnow : s ≤ now) :
    (b.consume now).1 = decide (1 ≤ Greedy.level (config.burst : ℚ) config.perSec past now) ∧
      Mirrors config (b.consume now).2 (Greedy.taking (now, (b.consume now).1) :: past) now := by
  obtain ⟨htokens, hcurrent⟩ := h.refill hnow
  have hle : (b.refillLocked now).tokens ≤ config.burst := htokens.trans_le Greedy.level_le_burst
  simp only [TokenBucket.consume, ← htokens]
  split_ifs with hone
  · refine ⟨by simp [hone], ⟨h.config_eq, h.perSec_nonneg, hcurrent, ?_, ?_⟩⟩
    · rw [spend_tokens]
      linarith
    · intro t _
      rw [Greedy.taking, Greedy.level, ← htokens, if_pos rfl, spend_tokens]
  · refine ⟨by simp [hone], ⟨h.config_eq, h.perSec_nonneg, hcurrent, hle, ?_⟩⟩
    intro t _
    rw [Greedy.taking, Greedy.level, ← htokens, if_neg Bool.false_ne_true, sub_zero]

/-- **The bucket refines the greedy policy**: its decisions are the policy's on the times
of the `consume` calls. -/
theorem decisions_eq_run {calls : List Call} (h : Mirrors config b past s)
    (hfwd : Forward s calls) :
    decisions b calls =
      Greedy.run (config.burst : ℚ) config.perSec past (consumeTimes calls) := by
  induction calls generalizing b past s with
  | nil => rfl
  | cons c calls ih =>
      obtain ⟨hsc, hfwd⟩ := forward_cons.mp hfwd
      cases c with
      | consume now =>
          obtain ⟨hdecided, hafter⟩ : _ ∧ Mirrors config (b.consume now).2 _ now := h.consume hsc
          rw [decisions, consumeTimes, ih hafter hfwd, Greedy.run_cons, ← hdecided]
      | secondsUntilNextToken now =>
          rw [decisions, consumeTimes, secondsUntilNextToken_snd]
          exact ih (h.refillLocked hsc) hfwd

end Mirrors

/-- The calls that are no `consume` left out. -/
def consumes (calls : List Call) : List Call := (consumeTimes calls).map Call.consume

theorem consumeTimes_sublist (calls : List Call) :
    (consumeTimes calls).Sublist (calls.map Call.now) := by
  induction calls with
  | nil => exact List.Sublist.slnil
  | cons c calls ih =>
      cases c with
      | consume now => exact ih.cons_cons now
      | secondsUntilNextToken now => exact ih.cons now

theorem consumeTimes_consumes (calls : List Call) :
    consumeTimes (consumes calls) = consumeTimes calls := by
  unfold consumes
  induction consumeTimes calls with
  | nil => rfl
  | cons t ts ih => exact congrArg (t :: ·) ih

/-- Calls left out, the clock still goes forward. -/
theorem Forward.consumes {calls : List Call} {t₀ : ℚ} (h : Forward t₀ calls) :
    Forward t₀ (consumes calls) := by
  have htimes : (TokenBucket.consumes calls).map Call.now = consumeTimes calls := by
    rw [TokenBucket.consumes, List.map_map]
    exact List.map_id _
  rw [Forward, htimes]
  exact List.IsChain.sublist h ((consumeTimes_sublist calls).cons_cons t₀)

/-- **The bucket admits exactly the greedy envelope.** On a clock that does not go back, a
`consume` is granted if and only if every window that ends with it, and starts at it or an
earlier `consume`, has room for one more; and the calls in between that ask for the wait
change no decision. -/
theorem admits_greedy_envelope (config : RateLimitConfig) (hburst : 0 ≤ config.burst)
    (hrate : 0 ≤ config.perSec) (t₀ : ℚ) (calls : List Call) (hfwd : Forward t₀ calls) :
    (∀ n t granted, (decisions (fresh config t₀) calls)[n]? = some (t, granted) →
      (granted = true ↔ ∀ i d, i ≤ n → (decisions (fresh config t₀) calls)[i]? = some d →
        ((((decisions (fresh config t₀) calls).take n).drop i).countP (fun d => d.2) : ℚ) + 1
          ≤ config.burst + config.perSec * (t - d.1))) ∧
    decisions (fresh config t₀) calls = decisions (fresh config t₀) (consumes calls) := by
  have hmirrors : Mirrors config (fresh config t₀) [] t₀ := mirrors_fresh hburst hrate
  have hpolicy := decisions_eq_run hmirrors hfwd
  refine ⟨?_, ?_⟩
  · rw [hpolicy]
    intro n t granted hn
    exact Greedy.run_admits_iff hn
  · rw [hpolicy, decisions_eq_run hmirrors hfwd.consumes, consumeTimes_consumes]

/-- Two tokens and one per second: drained at second zero, asked for the wait in between. -/
theorem admits_greedy_envelope_two :
    let calls : List Call :=
      [.consume 0, .consume 0, .secondsUntilNextToken (1 / 2), .consume 1, .consume 1]
    (∀ n t granted, (decisions (fresh ⟨2, 1⟩ 0) calls)[n]? = some (t, granted) →
      (granted = true ↔ ∀ i d, i ≤ n → (decisions (fresh ⟨2, 1⟩ 0) calls)[i]? = some d →
        ((((decisions (fresh ⟨2, 1⟩ 0) calls).take n).drop i).countP (fun d => d.2) : ℚ) + 1
          ≤ (2 : ℤ) + 1 * (t - d.1))) ∧
    decisions (fresh ⟨2, 1⟩ 0) calls = decisions (fresh ⟨2, 1⟩ 0) (consumes calls) :=
  admits_greedy_envelope ⟨2, 1⟩ (by decide) (by decide +kernel) 0 _ (by
    simp only [Forward]
    decide +kernel)

end Taskq.TokenBucket
