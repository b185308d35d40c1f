import Mathlib.Data.Rat.Cast.Order
import Mathlib.Algebra.Order.Field.Rat
import Mathlib.Tactic.Linarith
import Mathlib.Tactic.Positivity
import Taskq.Lib.Keyed

/-!
# Taskq.Repository.RateBuckets

The refill arithmetic and the stored buckets (`repository/rate_buckets.py`).

Token counts and times are exact rationals. `computeRefill` is the function both
bucket implementations call; everything later modules use of it is stated here,
once per branch of the source: the clock has not advanced, the refill is not
positive, or tokens are added up to the capacity.
-/

namespace Taskq

/-! ### Refill math -/

/-- `compute_refill`: the new token count and the new `last_refill_at`. -/
def computeRefill (tokens lastRefillAt now burst perSec : ℚ) : ℚ × ℚ :=
  if now ≤ lastRefillAt then (tokens, now)
  else
    let refilled := (now - lastRefillAt) * perSec
    if refilled ≤ 0 then (tokens, lastRefillAt)
    else (min burst (tokens + refilled), now)

variable {tokens last now burst perSec : ℚ}

/-- The clock stands still or went back: no tokens, and `last_refill_at` follows it. -/
theorem computeRefill_of_le (h : now ≤ last) :
    computeRefill tokens last now burst perSec = (tokens, now) := by
  rw [computeRefill, if_pos h]

/-- The clock advanced but nothing is due: the bucket is left alone. -/
theorem computeRefill_of_nonpos (h : last < now) (hr : (now - last) * perSec ≤ 0) :
    computeRefill tokens last now burst perSec = (tokens, last) := by
  rw [computeRefill, if_neg h.not_ge]
  exact if_pos hr

/-- The clock advanced and tokens are due. -/
theorem computeRefill_of_pos (h : last < now) (hr : 0 < (now - last) * perSec) :
    computeRefill tokens last now burst perSec =
      (min burst (tokens + (now - last) * perSec), now) := by
  rw [computeRefill, if_neg h.not_ge]
  exact if_neg hr.not_ge

/-- A rate that is not positive never changes the token count, wherever the clock goes. -/
theorem computeRefill_nonpos_rate (hrate : perSec ≤ 0) :
    (computeRefill tokens last now burst perSec).1 = tokens := by
  rcases le_or_gt now last with h | h
  · rw [computeRefill_of_le h]
  · rw [computeRefill_of_nonpos h (mul_nonpos_of_nonneg_of_nonpos (sub_pos.mpr h).le hrate)]

theorem computeRefill_zero_rate :
    (computeRefill tokens last now burst 0).1 = tokens :=
  computeRefill_nonpos_rate le_rfl

/-- What is full stays full, and where tokens accrue its clock is set. -/
theorem computeRefill_full :
    (computeRefill burst last now burst perSec).1 = burst ∧
      (0 < perSec → (computeRefill burst last now burst perSec).2 = now) := by
  rcases le_or_gt now last with h | h
  · rw [computeRefill_of_le h]
    exact ⟨rfl, fun _ => rfl⟩
  · rcases le_or_gt ((now - last) * perSec) 0 with hr | hr
    · rw [computeRefill_of_nonpos h hr]
      exact ⟨rfl, fun hrate => absurd hr (mul_pos (sub_pos.mpr h) hrate).not_ge⟩
    · rw [computeRefill_of_pos h hr, min_eq_left (le_add_of_nonneg_right hr.le)]
      exact ⟨rfl, fun _ => rfl⟩

/-- A refill never lifts the count above both the capacity and the count before. -/
theorem computeRefill_le_max :
    (computeRefill tokens last now burst perSec).1 ≤ max burst tokens := by
  rcases le_or_gt now last with h | h
  · rw [computeRefill_of_le h]
    exact le_max_right _ _
  · rcases le_or_gt ((now - last) * perSec) 0 with hr | hr
    · rw [computeRefill_of_nonpos h hr]
      exact le_max_right _ _
    · rw [computeRefill_of_pos h hr]
      exact (min_le_left _ _).trans (le_max_left _ _)

theorem computeRefill_nonneg (hb : 0 ≤ burst) (ht : 0 ≤ tokens) :
    0 ≤ (computeRefill tokens last now burst perSec).1 := by
  rcases le_or_gt now last with h | h
  · rwa [computeRefill_of_le h]
  · rcases le_or_gt ((now - last) * perSec) 0 with hr | hr
    · rwa [computeRefill_of_nonpos h hr]
    · rw [computeRefill_of_pos h hr]
      exact le_min hb (by linarith)

/-- On a clock that has not gone back, a refill pays in at most `perSec` per second
since `last_refill_at`, and `last_refill_at` stays between its old value and now. -/
theorem computeRefill_advance (tokens burst perSec : ℚ) (h : last ≤ now) :
    last ≤ (computeRefill tokens last now burst perSec).2 ∧
      (computeRefill tokens last now burst perSec).2 ≤ now ∧
      (computeRefill tokens last now burst perSec).1 ≤
        tokens + perSec * ((computeRefill tokens last now burst perSec).2 - last) := by
  rcases h.eq_or_lt with rfl | h
  · rw [computeRefill_of_le le_rfl]
    simp
  · rcases le_or_gt ((now - last) * perSec) 0 with hr | hr
    · rw [computeRefill_of_nonpos h hr]
      simp [h.le]
    · rw [computeRefill_of_pos h hr]
      refine ⟨h.le, le_rfl, (min_le_right _ _).trans ?_⟩
      rw [mul_comm]

/-! ### The stored row -/

/-- One row of `rate_buckets`. -/
structure RateBucket where
  id : String
  keyId : String
  tokens : ℚ
  lastRefillAt : ℚ
  configBurst : ℤ
  configPerSec : ℚ
  deriving DecidableEq, Repr

namespace RateBucket

/-- The two columns that `consume` writes before it decides. -/
def refill (row : RateBucket) (now : ℚ) : RateBucket :=
  let new := computeRefill row.tokens row.lastRefillAt now row.configBurst row.configPerSec
  { row with tokens := new.1, lastRefillAt := new.2 }

/-- The decision: take one token when there is one. -/
def decrement (row : RateBucket) : Bool × RateBucket :=
  if 1 ≤ row.tokens then (true, { row with tokens := row.tokens - 1 }) else (false, row)

/-- The body of the locked transaction in `RateBucketRepository.consume`. -/
def consume (row : RateBucket) (now : ℚ) : Bool × RateBucket := (row.refill now).decrement

/-- A row as the repository leaves it: a count between zero and the capacity, and a
rate that does not drain. -/
structure Wf (row : RateBucket) : Prop where
  tokens_nonneg : 0 ≤ row.tokens
  tokens_le : row.tokens ≤ row.configBurst
  perSec_nonneg : 0 ≤ row.configPerSec

variable {row : RateBucket} {now : ℚ}

@[simp] theorem refill_configPerSec : (row.refill now).configPerSec = row.configPerSec := rfl
@[simp] theorem refill_configBurst : (row.refill now).configBurst = row.configBurst := rfl

@[simp] theorem decrement_keyId : row.decrement.2.keyId = row.keyId := by
  unfold decrement; split <;> rfl

@[simp] theorem decrement_lastRefillAt : row.decrement.2.lastRefillAt = row.lastRefillAt := by
  unfold decrement; split <;> rfl

@[simp] theorem decrement_configPerSec : row.decrement.2.configPerSec = row.configPerSec := by
  unfold decrement; split <;> rfl

@[simp] theorem decrement_configBurst : row.decrement.2.configBurst = row.configBurst := by
  unfold decrement; split <;> rfl

/-- A grant costs exactly one token, a refusal none, and the count stays non-negative. -/
theorem decrement_tokens (row : RateBucket) :
    (row.decrement.1 = true ∧ 1 ≤ row.tokens ∧ row.decrement.2.tokens = row.tokens - 1) ∨
      (row.decrement.1 = false ∧ row.tokens < 1 ∧ row.decrement.2 = row) := by
  unfold decrement
  split
  · next h => exact .inl ⟨rfl, h, rfl⟩
  · next h => exact .inr ⟨rfl, lt_of_not_ge h, rfl⟩

theorem Wf.refill (h : row.Wf) : (row.refill now).Wf where
  tokens_nonneg := computeRefill_nonneg (h.tokens_nonneg.trans h.tokens_le) h.tokens_nonneg
  tokens_le := computeRefill_le_max.trans (max_le le_rfl h.tokens_le)
  perSec_nonneg := h.perSec_nonneg

theorem Wf.decrement (h : row.Wf) : row.decrement.2.Wf := by
  rcases decrement_tokens row with ⟨-, h1, ht⟩ | ⟨-, -, hr⟩
  · refine ⟨by rw [ht]; linarith, ?_, by rw [decrement_configPerSec]; exact h.perSec_nonneg⟩
    rw [ht, decrement_configBurst]
    linarith [h.tokens_le]
  · rwa [hr]

@[simp] theorem consume_configPerSec : (row.consume now).2.configPerSec = row.configPerSec := by
  rw [consume, decrement_configPerSec, refill_configPerSec]

@[simp] theorem consume_keyId : (row.consume now).2.keyId = row.keyId := by
  rw [consume, decrement_keyId]
  rfl

@[simp] theorem consume_configBurst : (row.consume now).2.configBurst = row.configBurst := by
  rw [consume, decrement_configBurst, refill_configBurst]

theorem Wf.consume (h : row.Wf) : (row.consume now).2.Wf := h.refill.decrement

end RateBucket

/-! ### The repository -/

/-- `RateBucketRepository`: the configuration it gives to rows it creates. -/
structure RateBucketRepository where
  defaultBurst : ℤ
  defaultPerSec : ℚ

namespace RateBucketRepository

variable (repo : RateBucketRepository)

/-- `_materialise`: a full bucket for a key that has none; `freshId` is the new uuid. -/
def materialise (freshId keyId : String) (now : ℚ) : RateBucket where
  id := freshId
  keyId := keyId
  tokens := repo.defaultBurst
  lastRefillAt := now
  configBurst := repo.defaultBurst
  configPerSec := repo.defaultPerSec

/-- `get`: the bucket's row, with the tokens a `consume` would find; only a row it has to
create is written. -/
def get (table : List RateBucket) (freshId keyId : String) (now : ℚ) :
    RateBucket × List RateBucket :=
  match table.find? (·.keyId = keyId) with
  | some row => ({ row with tokens := (row.refill now).tokens }, table)
  | none =>
      let row := repo.materialise freshId keyId now
      (row, table ++ [row])

/-- `consume`: the bucket's row, created when absent, refilled and decremented in one
transaction. Returns the decision, the row as committed and the table. -/
def consume (table : List RateBucket) (freshId keyId : String) (now : ℚ) :
    Bool × RateBucket × List RateBucket :=
  match table.find? (·.keyId = keyId) with
  | some row =>
      let out := row.consume now
      (out.1, out.2, table.map fun r => if r.keyId = keyId then out.2 else r)
  | none =>
      let out := (repo.materialise freshId keyId now).consume now
      (out.1, out.2, table ++ [out.2])

/-- On a key that has a row, `consume` is the row's own, and no other row changes. -/
theorem consume_of_mem {table : List RateBucket} (hkeys : (table.map RateBucket.keyId).Nodup)
    {row : RateBucket} (hrow : row ∈ table) (freshId : String) (now : ℚ) :
    repo.consume table freshId row.keyId now =
      ((row.consume now).1, (row.consume now).2,
        table.map fun r => if r.keyId = row.keyId then (row.consume now).2 else r) := by
  have hfind := Keyed.find?_eq_some hkeys hrow rfl
  simp only [consume, hfind]

end RateBucketRepository

end Taskq
