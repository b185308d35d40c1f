import Taskq.Lib.Credit
import Taskq.Repository.RateBuckets
import Mathlib.Tactic.Abel

/-!
# Taskq.Service.RateLimit

The in-memory token bucket (`service/rate_limit.py`) and how many calls it grants.

A sequence of `consume` and `seconds_until_next_token` calls carries its own
timestamps, in any order. On a clock that never goes back the bucket refines a
credit account (`Taskq.Lib.Credit`) and so grants at most its allowance. When the
clock goes back, `compute_refill` moves `last_refill_at` back with it, and the
interval up to the old value is paid in a second time.
-/

namespace Taskq

open Transition Credit

/-- `RateLimitConfig`. -/
structure RateLimitConfig where
  burst : ℤ
  perSec : ℚ
  deriving DecidableEq, Repr

/-- `TokenBucket`: its configuration, `_tokens` and `_last_refill_at`. -/
structure TokenBucket where
  config : RateLimitConfig
  tokens : ℚ
  lastRefillAt : ℚ
  deriving DecidableEq, Repr

namespace TokenBucket

/-- `TokenBucket.__init__`: full unless `initial_tokens` is given, clamped to the capacity. -/
def init (config : RateLimitConfig) (initialTokens : Option ℚ) (now : ℚ) : TokenBucket where
  config := config
  tokens := max 0 (min (config.burst : ℚ) (initialTokens.getD config.burst))
  lastRefillAt := now

/-- A fresh bucket, created at `now`. -/
def fresh (config : RateLimitConfig) (now : ℚ) : TokenBucket := init config none now

/-- `_refill_locked`. -/
def refillLocked (b : TokenBucket) (now : ℚ) : TokenBucket :=
  let new := computeRefill b.tokens b.lastRefillAt now b.config.burst b.config.perSec
  { b with tokens := new.1, lastRefillAt := new.2 }

/-- `self._tokens -= 1.0`. -/
def spend (b : TokenBucket) : TokenBucket := { b with tokens := b.tokens - 1 }

/-- `consume`. -/
def consume (b : TokenBucket) (now : ℚ) : Bool × TokenBucket :=
  let b := b.refillLocked now
  if 1 ≤ b.tokens then (true, b.spend) else (false, b)

/-- `seconds_until_next_token`; `none` is `math.inf`. -/
def secondsUntilNextToken (b : TokenBucket) (now : ℚ) : Option ℚ × TokenBucket :=
  let b := b.refillLocked now
  if 1 ≤ b.tokens then (some 0, b)
  else if b.config.perSec ≤ 0 then (none, b)
  else (some ((1 - b.tokens) / b.config.perSec), b)

/-! ### Sequences of calls -/

/-- A call on the bucket, with the timestamp it passes. -/
inductive Call
  | consume (now : ℚ)
  | secondsUntilNextToken (now : ℚ)
  deriving DecidableEq, Repr

/-- The timestamp of a call. -/
def Call.now : Call → ℚ
  | .consume now => now
  | .secondsUntilNextToken now => now

/-- One call: whether it granted a token, and the bucket after it. -/
def call (b : TokenBucket) : Call → Bool × TokenBucket
  | .consume now => b.consume now
  | .secondsUntilNextToken now => (false, (b.secondsUntilNextToken now).2)

/-- The bucket after a sequence of calls. -/
def run (b : TokenBucket) (calls : List Call) : TokenBucket :=
  calls.foldl (fun b c => (b.call c).2) b

/-- How many of the calls granted a token. -/
def granted (b : TokenBucket) : List Call → ℕ
  | [] => 0
  | c :: calls => (b.call c).1.toNat + (b.call c).2.granted calls

/-- The largest of `t₀` and the timestamps of the calls. -/
def latest (t₀ : ℚ) (calls : List Call) : ℚ := (calls.map Call.now).foldl max t₀

/-- The timestamps never go back, starting from `t₀`. -/
def Forward (t₀ : ℚ) (calls : List Call) : Prop := (t₀ :: calls.map Call.now).IsChain (· ≤ ·)

/-- The allowance: the capacity, and what accrues between `t₀` and the largest timestamp. -/
def allowance (config : RateLimitConfig) (t₀ : ℚ) (calls : List Call) : ℚ :=
  config.burst + config.perSec * (latest t₀ calls - t₀)

section Basic

variable {b : TokenBucket} {c : Call} {now t₀ : ℚ} {calls : List Call}

@[simp] theorem refillLocked_config : (b.refillLocked now).config = b.config := rfl

@[simp] theorem spend_config : b.spend.config = b.config := rfl
@[simp] theorem spend_tokens : b.spend.tokens = b.tokens - 1 := rfl
@[simp] theorem spend_lastRefillAt : b.spend.lastRefillAt = b.lastRefillAt := rfl

@[simp] theorem granted_nil : b.granted [] = 0 := rfl

theorem granted_cons :
    b.granted (c :: calls) = (b.call c).1.toNat + (b.call c).2.granted calls := rfl

theorem granted_append {more : List Call} :
    b.granted (calls ++ more) = b.granted calls + (b.run calls).granted more := by
  induction calls generalizing b with
  | nil => simp [run]
  | cons c calls ih =>
      rw [List.cons_append, granted_cons, granted_cons, ih, Nat.add_assoc]
      rfl

/-- Every call refills first; `consume` may then take one token, and nothing else changes. -/
theorem call_cases (b : TokenBucket) (c : Call) :
    ((b.call c).1 = false ∧ (b.call c).2 = b.refillLocked c.now) ∨
      ((b.call c).1 = true ∧ 1 ≤ (b.refillLocked c.now).tokens ∧
        (b.call c).2 = (b.refillLocked c.now).spend) := by
  cases c with
  | consume now =>
      simp only [call, consume, Call.now]
      split
      · next h => exact .inr ⟨rfl, h, rfl⟩
      · exact .inl ⟨rfl, rfl⟩
  | secondsUntilNextToken now =>
      refine .inl ⟨rfl, ?_⟩
      simp only [call, secondsUntilNextToken, Call.now]
      split
      · rfl
      · split <;> rfl

/-- Asking for the wait is a refill. -/
theorem secondsUntilNextToken_snd :
    (b.secondsUntilNextToken now).2 = b.refillLocked now := by
  have hcall := call_cases b (.secondsUntilNextToken now)
  simpa [call, Call.now] using hcall

@[simp] theorem call_config : (b.call c).2.config = b.config := by
  rcases call_cases b c with ⟨-, h⟩ | ⟨-, -, h⟩ <;> rw [h] <;> rfl

theorem call_lastRefillAt : (b.call c).2.lastRefillAt = (b.refillLocked c.now).lastRefillAt := by
  rcases call_cases b c with ⟨-, h⟩ | ⟨-, -, h⟩ <;> rw [h]
  rfl

theorem latest_cons : latest t₀ (c :: calls) = latest (max t₀ c.now) calls := rfl

theorem le_latest (t₀ : ℚ) (calls : List Call) : t₀ ≤ latest t₀ calls := by
  induction calls generalizing t₀ with
  | nil => exact le_rfl
  | cons c calls ih => exact (le_max_left _ _).trans (ih _)

theorem forward_cons : Forward t₀ (c :: calls) ↔ t₀ ≤ c.now ∧ Forward c.now calls :=
  List.isChain_cons_cons

theorem run_cons : b.run (c :: calls) = (b.call c).2.run calls := rfl

@[simp] theorem fresh_tokens {config : RateLimitConfig} (h : 0 ≤ config.burst) :
    (fresh config now).tokens = config.burst := by
  have hb : (0 : ℚ) ≤ config.burst := by exact_mod_cast h
  simp [fresh, init, hb]

end Basic

/-! ### A clock that never goes back -/

/-- `a` records a bucket's tokens and refill time, and `n` grants so far. -/
structure Tracks (b : TokenBucket) (n : ℕ) (a : Account ℚ) : Prop where
  credit : a.credit = b.tokens
  last : a.last = b.lastRefillAt
  spent : a.spent = n

/-- A refill at a time that is not before the last one pays in what the account allows. -/
theorem Tracks.refill {b : TokenBucket} {n : ℕ} {a o : Account ℚ} {now : ℚ}
    (h : Tracks b n a) (hburst : 0 ≤ b.config.burst) (hnow : b.lastRefillAt ≤ now) :
    ∃ a', (ledger b.config.perSec o).Move a a' ∧ Tracks (b.refillLocked now) n a' := by
  have hb : (0 : ℚ) ≤ b.config.burst := by exact_mod_cast hburst
  have ht : 0 ≤ b.tokens := h.credit ▸ a.credit_nonneg
  obtain ⟨hlast, -, hpaid⟩ :=
    computeRefill_advance b.tokens b.config.burst b.config.perSec hnow
  refine ⟨⟨(b.refillLocked now).tokens, (b.refillLocked now).lastRefillAt, n,
    computeRefill_nonneg hb ht⟩, Account.accrue ?_ h.spent.symm ?_, ⟨rfl, rfl, rfl⟩⟩
  · rw [h.last]
    exact hlast
  · rw [h.last, h.credit]
    exact hpaid

/-- One call on a clock that has not gone back is at most two moves of the account. -/
theorem Tracks.call {b : TokenBucket} {n : ℕ} {a o : Account ℚ} {c : Call}
    (h : Tracks b n a) (hburst : 0 ≤ b.config.burst) (hnow : b.lastRefillAt ≤ c.now)
    (ha : (ledger b.config.perSec o).Reachable a) :
    ∃ a', (ledger b.config.perSec o).Reachable a' ∧
      Tracks (b.call c).2 (n + (b.call c).1.toNat) a' := by
  obtain ⟨a₁, hmove, h₁⟩ := h.refill (o := o) hburst hnow
  have ha₁ : (ledger b.config.perSec o).Reachable a₁ := ha.moves (.single hmove)
  rcases call_cases b c with ⟨hg, hb⟩ | ⟨hg, hone, hb⟩
  · refine ⟨a₁, ha₁, ?_⟩
    rw [hg, hb]
    exact h₁
  · have hcredit : 0 ≤ (b.refillLocked c.now).tokens - 1 := by linarith
    have hspend : (ledger b.config.perSec o).Move a₁
        ⟨(b.refillLocked c.now).tokens - 1, (b.refillLocked c.now).lastRefillAt, n + 1,
          hcredit⟩ :=
      Account.spend (by rw [h₁.credit]) h₁.last.symm (by rw [h₁.spent])
    refine ⟨_, ha₁.moves (.single hspend), ?_⟩
    rw [hg, hb]
    exact ⟨rfl, rfl, rfl⟩

/-- A forward sequence of calls, from a bucket last refilled no later than `t`. -/
theorem Tracks.run {o : Account ℚ} {calls : List Call} :
    ∀ {b : TokenBucket} {n : ℕ} {a : Account ℚ} {t : ℚ}, Tracks b n a →
      0 ≤ b.config.burst → b.lastRefillAt ≤ t → Forward t calls →
      (ledger b.config.perSec o).Reachable a →
      ∃ a', (ledger b.config.perSec o).Reachable a' ∧ a'.spent = n + b.granted calls ∧
        a'.last ≤ latest t calls := by
  induction calls with
  | nil =>
      intro b n a t h _ hlast _ ha
      exact ⟨a, ha, h.spent, h.last ▸ hlast⟩
  | cons c calls ih =>
      intro b n a t h hburst hlast hfwd ha
      obtain ⟨htc, hfwd⟩ := forward_cons.mp hfwd
      obtain ⟨a₁, ha₁, h₁⟩ := h.call hburst (hlast.trans htc) ha
      have hlast₁ : (b.call c).2.lastRefillAt ≤ c.now := by
        rw [call_lastRefillAt]
        exact (computeRefill_advance _ _ _ (hlast.trans htc)).2.1
      obtain ⟨a', ha', hspent, hlate⟩ := ih h₁ (by rwa [call_config]) hlast₁ hfwd
        (by rwa [call_config])
      rw [call_config] at ha'
      refine ⟨a', ha', ?_, ?_⟩
      · rw [hspent, granted_cons, Nat.add_assoc]
      · rwa [latest_cons, max_eq_right htc]

theorem granted_le_of_forward {config : RateLimitConfig} {t₀ : ℚ} {calls : List Call}
    (hburst : 0 ≤ config.burst) (hrate : 0 ≤ config.perSec) (hfwd : Forward t₀ calls) :
    ((fresh config t₀).granted calls : ℚ) ≤ allowance config t₀ calls := by
  have hb : (0 : ℚ) ≤ config.burst := by exact_mod_cast hburst
  let opening : Account ℚ := ⟨config.burst, t₀, 0, hb⟩
  have hopen : Tracks (fresh config t₀) 0 opening := ⟨(fresh_tokens hburst).symm, rfl, rfl⟩
  obtain ⟨a, ha, hspent, hlast⟩ := hopen.run (o := opening) hburst le_rfl hfwd (.init rfl)
  have hbound := Account.spent_le ha
  have hpaid : config.perSec * (a.last - t₀) ≤ config.perSec * (latest t₀ calls - t₀) :=
    mul_le_mul_of_nonneg_left (sub_le_sub_right hlast t₀) hrate
  have hn : a.spent = (fresh config t₀).granted calls := by simpa using hspent
  rw [hn] at hbound
  calc ((fresh config t₀).granted calls : ℚ)
      ≤ config.burst + (0 : ℕ) + config.perSec * (a.last - t₀) := hbound
    _ ≤ allowance config t₀ calls := by
        unfold allowance
        push_cast
        linarith

/-! ### A clock that goes back -/

/-- Without accrual the grants come out of the tokens already there, at any timestamps. -/
theorem granted_add_tokens_le (calls : List Call) :
    ∀ b : TokenBucket, b.config.perSec = 0 →
      (b.granted calls : ℚ) + (b.run calls).tokens ≤ b.tokens := by
  induction calls with
  | nil => intro b _; simp [run]
  | cons c calls ih =>
      intro b hrate
      have hkeep : (b.refillLocked c.now).tokens = b.tokens := by
        simp only [refillLocked, hrate, computeRefill_zero_rate]
      have hrest := ih (b.call c).2 (by rwa [call_config])
      rw [granted_cons, run_cons]
      rcases call_cases b c with ⟨hg, hb⟩ | ⟨hg, -, hb⟩
      · rw [hb, hkeep] at hrest
        rw [hg, hb]
        simpa using hrest
      · rw [hb, spend_tokens, hkeep] at hrest
        rw [hg, hb]
        push_cast [Bool.toNat_true]
        linarith

/-- The class invariant `0 ≤ tokens` is kept by every call. -/
theorem run_tokens_nonneg (calls : List Call) :
    ∀ b : TokenBucket, 0 ≤ b.config.burst → 0 ≤ b.tokens → 0 ≤ (b.run calls).tokens := by
  induction calls with
  | nil => intro b _ ht; exact ht
  | cons c calls ih =>
      intro b hburst ht
      have hb : (0 : ℚ) ≤ b.config.burst := by exact_mod_cast hburst
      have hrefill : 0 ≤ (b.refillLocked c.now).tokens := computeRefill_nonneg hb ht
      rw [run_cons]
      refine ih _ (by rwa [call_config]) ?_
      rcases call_cases b c with ⟨-, hc⟩ | ⟨-, hone, hc⟩
      · rwa [hc]
      · rw [hc, spend_tokens]
        linarith

/-- An empty bucket without capacity never grants, at any timestamps. -/
theorem granted_of_no_burst {calls : List Call} :
    ∀ {b : TokenBucket}, b.config.burst = 0 → b.tokens ≤ 0 → b.granted calls = 0 := by
  induction calls with
  | nil => intro b _ _; rfl
  | cons c calls ih =>
      intro b hburst ht
      have hle : (b.refillLocked c.now).tokens ≤ 0 := by
        refine computeRefill_le_max.trans ?_
        rw [hburst]
        simpa using ht
      rcases call_cases b c with ⟨hg, hb⟩ | ⟨-, hone, -⟩
      · rw [granted_cons, hg, ih (by rwa [call_config]) (by rwa [hb])]
        rfl
      · linarith

/-- Spending the first `k` tokens of a bucket without moving the clock. -/
theorem run_replicate_consume {b : TokenBucket} {t : ℚ} (hlast : b.lastRefillAt = t) :
    ∀ k : ℕ, (k : ℚ) ≤ b.tokens →
      b.granted (List.replicate k (.consume t)) = k ∧
        b.run (List.replicate k (.consume t)) = { b with tokens := b.tokens - k } := by
  intro k
  induction k generalizing b with
  | zero => intro _; simp [run]
  | succ k ih =>
      intro hk
      push_cast at hk
      have hk0 : (0 : ℚ) ≤ k := k.cast_nonneg
      have hrefill : b.refillLocked t = b := by
        subst hlast
        simp only [refillLocked, computeRefill_of_le (le_refl b.lastRefillAt)]
      have hcall : b.call (.consume t) = (true, b.spend) := by
        simp only [call, consume, hrefill]
        rw [if_pos (by linarith)]
      obtain ⟨hg, hr⟩ := ih (show b.spend.lastRefillAt = t from hlast)
        (by rw [spend_tokens]; linarith)
      rw [List.replicate_succ, granted_cons, run_cons, hcall, hg, hr]
      refine ⟨by simp [Nat.add_comm], ?_⟩
      simp only [spend, TokenBucket.mk.injEq, true_and, and_true]
      push_cast
      ring

/-- Drain the bucket at `t₀`, then go `d` forward, back, and forward again. -/
def stepBack (config : RateLimitConfig) (t₀ d : ℚ) : List Call :=
  List.replicate config.burst.toNat (.consume t₀) ++
    [.consume (t₀ + d), .consume t₀, .consume (t₀ + d)]

/-- The time that accrues one token is paid for twice when the clock steps back over it. -/
theorem granted_stepBack {config : RateLimitConfig} (t₀ : ℚ) (hburst : 1 ≤ config.burst)
    (hrate : 0 < config.perSec) :
    (fresh config t₀).granted (stepBack config t₀ config.perSec⁻¹) =
      config.burst.toNat + 2 := by
  have hb : (1 : ℚ) ≤ config.burst := by exact_mod_cast hburst
  have hnat : ((config.burst.toNat : ℕ) : ℚ) = config.burst := by
    exact_mod_cast congrArg (Int.cast : ℤ → ℚ) (Int.toNat_of_nonneg (by omega))
  have htokens : (fresh config t₀).tokens = config.burst := fresh_tokens (by omega)
  have hd : 0 < config.perSec⁻¹ := inv_pos.mpr hrate
  have hdue : (t₀ + config.perSec⁻¹ - t₀) * config.perSec = 1 := by
    rw [add_sub_cancel_left, inv_mul_cancel₀ hrate.ne']
  obtain ⟨hg, hr⟩ := run_replicate_consume (b := fresh config t₀) (t := t₀) rfl
    config.burst.toNat (by rw [htokens, hnat])
  rw [htokens, hnat, sub_self] at hr
  -- an empty bucket refilled at `t₀` is granted one token at `t₀ + d`
  have hforward : ∀ b : TokenBucket, b.config = config → b.tokens = 0 → b.lastRefillAt = t₀ →
      b.call (.consume (t₀ + config.perSec⁻¹)) =
        (true, { b with tokens := 0, lastRefillAt := t₀ + config.perSec⁻¹ }) := by
    intro b hc ht hl
    have hrefill : b.refillLocked (t₀ + config.perSec⁻¹) =
        { b with tokens := 1, lastRefillAt := t₀ + config.perSec⁻¹ } := by
      simp only [refillLocked, hc, ht, hl]
      rw [computeRefill_of_pos (by linarith) (by rw [hdue]; exact one_pos), hdue, zero_add,
        min_eq_right hb]
    simp only [call, consume, hrefill, spend]
    norm_num
  -- and the clock going back to `t₀` rewinds it without taking the grant back
  have hback : ∀ b : TokenBucket, b.tokens = 0 → b.lastRefillAt = t₀ + config.perSec⁻¹ →
      b.call (.consume t₀) = (false, { b with lastRefillAt := t₀ }) := by
    intro b ht hl
    have hrefill : b.refillLocked t₀ = { b with lastRefillAt := t₀ } := by
      simp only [refillLocked]
      rw [computeRefill_of_le (by rw [hl]; linarith)]
    simp only [call, consume, hrefill, ht]
    norm_num
  rw [stepBack, granted_append, hg, hr]
  rw [granted_cons, hforward _ rfl rfl rfl, granted_cons, hback _ rfl rfl, granted_cons,
    hforward _ rfl rfl rfl]
  rfl

theorem allowance_stepBack {config : RateLimitConfig} (t₀ : ℚ) (hrate : 0 < config.perSec) :
    allowance config t₀ (stepBack config t₀ config.perSec⁻¹) = config.burst + 1 := by
  have hd : 0 < config.perSec⁻¹ := inv_pos.mpr hrate
  have hconst : ∀ k : ℕ, List.foldl max t₀ (List.replicate k t₀) = t₀ := by
    intro k
    induction k with
    | zero => rfl
    | succ k ih => rw [List.replicate_succ, List.foldl_cons, max_self, ih]
  have hlatest : latest t₀ (stepBack config t₀ config.perSec⁻¹) = t₀ + config.perSec⁻¹ := by
    simp only [latest, stepBack, List.map_append, List.map_replicate, Call.now,
      List.foldl_append, hconst, List.map_cons, List.map_nil, List.foldl_cons, List.foldl_nil]
    have hle : t₀ ≤ t₀ + config.perSec⁻¹ := by linarith
    rw [max_eq_right hle, max_eq_left hle, max_self]
  rw [allowance, hlatest, add_sub_cancel_left, mul_inv_cancel₀ hrate.ne']

/-! ### Main results -/

/-- No sequence of calls at any timestamps is granted more than its allowance. -/
def NeverOverAdmits (config : RateLimitConfig) : Prop :=
  ∀ t₀ calls, ((fresh config t₀).granted calls : ℚ) ≤ allowance config t₀ calls

/-- **Over-admission of the in-memory bucket.** Every run whose clock does not go back stays
within the allowance; over runs at arbitrary timestamps the allowance holds exactly for the
configurations that never accrue anything: rate zero or capacity zero. -/
theorem calls_within_allowance (config : RateLimitConfig) (hburst : 0 ≤ config.burst)
    (hrate : 0 ≤ config.perSec) :
    (∀ t₀ calls, Forward t₀ calls →
      ((fresh config t₀).granted calls : ℚ) ≤ allowance config t₀ calls) ∧
    (NeverOverAdmits config ↔ config.perSec = 0 ∨ config.burst = 0) := by
  refine ⟨fun t₀ calls h => granted_le_of_forward hburst hrate h, ?_, ?_⟩
  · intro h
    by_contra hne
    obtain ⟨hr, hb⟩ := not_or.mp hne
    have hrate' : 0 < config.perSec := lt_of_le_of_ne hrate (Ne.symm hr)
    have hover := h 0 (stepBack config 0 config.perSec⁻¹)
    rw [granted_stepBack 0 (by omega) hrate', allowance_stepBack 0 hrate'] at hover
    have hnat : ((config.burst.toNat : ℕ) : ℚ) = config.burst := by
      exact_mod_cast congrArg (Int.cast : ℤ → ℚ) (Int.toNat_of_nonneg hburst)
    push_cast [hnat] at hover
    linarith
  · intro h t₀ calls
    have hlate : (0 : ℚ) ≤ latest t₀ calls - t₀ := by linarith [le_latest t₀ calls]
    have hb : (0 : ℚ) ≤ config.burst := by exact_mod_cast hburst
    rcases h with h | h
    · have hspent := granted_add_tokens_le calls (fresh config t₀) h
      have hleft := run_tokens_nonneg calls (fresh config t₀) hburst
        (by rw [fresh_tokens hburst]; exact hb)
      rw [fresh_tokens hburst] at hspent
      rw [allowance, h, zero_mul]
      linarith
    · have hnone : (fresh config t₀).granted calls = 0 :=
        granted_of_no_burst h (by rw [fresh_tokens hburst, h, Int.cast_zero])
      rw [hnone, Nat.cast_zero, allowance]
      exact add_nonneg hb (mul_nonneg hrate hlate)

/-- With one token of capacity and one token per second, stepping back from second one to
second zero admits three calls where two are allowed. -/
theorem calls_over_admit : ¬ NeverOverAdmits ⟨1, 1⟩ := by
  intro h
  have hover := h 0 [.consume 0, .consume 1, .consume 0, .consume 1]
  revert hover
  decide +kernel

theorem calls_within_allowance_default :
    (∀ t₀ calls, Forward t₀ calls →
      ((fresh ⟨20, 5⟩ t₀).granted calls : ℚ) ≤ allowance ⟨20, 5⟩ t₀ calls) ∧
    (NeverOverAdmits ⟨20, 5⟩ ↔ (5 : ℚ) = 0 ∨ (20 : ℤ) = 0) :=
  calls_within_allowance ⟨20, 5⟩ (by decide) (by decide +kernel)

end TokenBucket

end Taskq
