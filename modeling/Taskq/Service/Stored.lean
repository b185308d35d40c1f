import Taskq.Service.Envelope

/-!
# Taskq.Service.Stored

The stored bucket decides as the in-memory bucket does.

The two start differently: a row is created full, by a `get` or a `consume`, whatever
the sign of the capacity, and at the time of that call; the object is created at its
first `consume`, and clamped. They also refill differently often, since `get` writes
nothing back. `Agrees` is what nevertheless holds from the first `consume` on, at any
timestamps.
-/

namespace Taskq

namespace RateBucketRepository

/-- A call on the repository; `freshId` is the uuid a new row would get. -/
inductive Op
  | get (freshId keyId : String) (now : ℚ)
  | consume (freshId keyId : String) (now : ℚ)

variable (repo : RateBucketRepository) (keyId : String)

/-- The decisions of the `consume` calls on `keyId`. -/
def decisions (table : List RateBucket) : List Op → List Bool
  | [] => []
  | .get freshId k now :: ops => decisions (repo.get table freshId k now).2 ops
  | .consume freshId k now :: ops =>
      let out := repo.consume table freshId k now
      if k = keyId then out.1 :: decisions out.2.2 ops else decisions out.2.2 ops

/-- The times of the `consume` calls on `keyId`. -/
def consumeTimes : List Op → List ℚ
  | [] => []
  | .get _ _ _ :: ops => consumeTimes ops
  | .consume _ k now :: ops => if k = keyId then now :: consumeTimes ops else consumeTimes ops

/-- The same configuration for a bucket in memory. -/
def config : RateLimitConfig where
  burst := repo.defaultBurst
  perSec := repo.defaultPerSec

end RateBucketRepository

namespace TokenBucket

/-- The decisions of a bucket created at the first of these times. -/
def decisionsFrom (config : RateLimitConfig) : List ℚ → List Bool
  | [] => []
  | t :: ts => ((decisions (fresh config t) ((t :: ts).map Call.consume)).map Prod.snd)

end TokenBucket

/-! ### One bucket -/

variable {row : RateBucket} {b : TokenBucket} {config : RateLimitConfig} {now : ℚ}

/-- What a row and a bucket share behind their first `consume`: the tokens, and the time
of the last refill where time counts; or neither can ever grant. -/
structure Agrees (row : RateBucket) (b : TokenBucket) : Prop where
  burst : row.configBurst = b.config.burst
  perSec : row.configPerSec = b.config.perSec
  state : (row.tokens = b.tokens ∧ (0 < b.config.perSec → row.lastRefillAt = b.lastRefillAt)) ∨
    ((b.config.burst : ℚ) < 1 ∧ row.tokens < 1 ∧ b.tokens < 1)

/-- A row nothing was taken from: full, whenever it was created. -/
structure Full (repo : RateBucketRepository) (row : RateBucket) : Prop where
  burst : row.configBurst = repo.defaultBurst
  perSec : row.configPerSec = repo.defaultPerSec
  tokens : row.tokens = repo.defaultBurst

theorem Agrees.refill (h : Agrees row b) (now : ℚ) :
    Agrees (row.refill now) (b.refillLocked now) where
  burst := h.burst
  perSec := h.perSec
  state := by
    simp only [RateBucket.refill, TokenBucket.refillLocked, h.burst, h.perSec]
    rcases h.state with ⟨htokens, hlast⟩ | ⟨hburst, hrow, hb⟩
    · left
      rcases le_or_gt b.config.perSec 0 with hrate | hrate
      · refine ⟨?_, fun hpos => absurd hpos hrate.not_gt⟩
        rw [computeRefill_nonpos_rate hrate, computeRefill_nonpos_rate hrate, htokens]
      · rw [htokens, hlast hrate]
        exact ⟨rfl, fun _ => rfl⟩
    · right
      exact ⟨hburst, computeRefill_le_max.trans_lt (max_lt hburst hrow),
        computeRefill_le_max.trans_lt (max_lt hburst hb)⟩

/-- What is full is full after a refill, at whatever time; a negative capacity is none. -/
theorem Full.refill {repo : RateBucketRepository} (h : Full repo row) (now : ℚ) :
    Agrees (row.refill now) ((TokenBucket.fresh repo.config now).refillLocked now) where
  burst := h.burst
  perSec := h.perSec
  state := by
    simp only [RateBucket.refill, TokenBucket.refillLocked, h.burst, h.perSec, h.tokens]
    have hlast : (TokenBucket.fresh repo.config now).lastRefillAt = now := rfl
    rw [hlast, computeRefill_of_le le_rfl, computeRefill_full.1]
    rcases le_or_gt 0 repo.defaultBurst with hburst | hburst
    · left
      have hfull : (TokenBucket.fresh repo.config now).tokens = repo.defaultBurst :=
        TokenBucket.fresh_tokens hburst
      exact ⟨hfull.symm, computeRefill_full.2⟩
    · right
      have hneg : (repo.defaultBurst : ℚ) < 0 := by exact_mod_cast hburst
      have hzero : (TokenBucket.fresh repo.config now).tokens = 0 := by
        simp [TokenBucket.fresh, TokenBucket.init, RateBucketRepository.config, hneg.le]
      rw [hzero]
      exact ⟨hneg.trans one_pos, hneg.trans one_pos, one_pos⟩

/-- Where the refilled buckets agree, so do the decisions, and what they leave. -/
theorem Agrees.consume (h : Agrees (row.refill now) (b.refillLocked now)) :
    (row.consume now).1 = (b.consume now).1 ∧ Agrees (row.consume now).2 (b.consume now).2 := by
  simp only [RateBucket.consume, RateBucket.decrement, TokenBucket.consume]
  rcases h.state with ⟨htokens, hlast⟩ | ⟨hburst, hrow, hb⟩
  · rw [htokens]
    split_ifs
    · exact ⟨rfl, h.burst, h.perSec, Or.inl ⟨rfl, hlast⟩⟩
    · exact ⟨rfl, h⟩
  · rw [if_neg hrow.not_ge, if_neg hb.not_ge]
    exact ⟨rfl, h⟩

/-! ### The table -/

namespace RateBucketRepository

variable {repo : RateBucketRepository} {table : List RateBucket} {keyId k freshId : String}

theorem full_materialise : Full repo (repo.materialise freshId k now) := ⟨rfl, rfl, rfl⟩

theorem find?_append_row {row : RateBucket} (hrow : row.keyId = k) (hne : k ≠ keyId) :
    (table ++ [row]).find? (·.keyId = keyId) = table.find? (·.keyId = keyId) := by
  rw [List.find?_append, List.find?_singleton]
  simp [hrow, hne]

/-- A `get` leaves every row there is. -/
theorem find?_get_of_some {row : RateBucket}
    (h : table.find? (·.keyId = keyId) = some row) :
    (repo.get table freshId k now).2.find? (·.keyId = keyId) = some row := by
  unfold get
  split
  · exact h
  · rw [List.find?_append, h, Option.some_or]

/-- A `get` may create the row, and then it is full. -/
theorem find?_get_of_none (h : table.find? (·.keyId = keyId) = none) :
    (repo.get table freshId k now).2.find? (·.keyId = keyId) = none ∨
      ∃ row, (repo.get table freshId k now).2.find? (·.keyId = keyId) = some row ∧
        Full repo row := by
  unfold get
  split
  · exact Or.inl h
  · by_cases hk : k = keyId
    · right
      refine ⟨repo.materialise freshId k now, ?_, full_materialise⟩
      rw [List.find?_append, h, Option.none_or]
      simp [materialise, hk]
    · left
      rw [find?_append_row rfl hk, h]

/-- A `consume` leaves the rows of other keys. -/
theorem find?_consume_of_ne (hne : k ≠ keyId) :
    (repo.consume table freshId k now).2.2.find? (·.keyId = keyId)
      = table.find? (·.keyId = keyId) := by
  unfold consume
  split
  next row hfind =>
      have hkey : row.keyId = k := by simpa using List.find?_some hfind
      simp only
      rw [Keyed.find?_replace (by rw [RateBucket.consume_keyId, hkey])]
      cases hother : table.find? (·.keyId = keyId) with
      | none => rfl
      | some r =>
          have hr : r.keyId = keyId := by simpa using List.find?_some hother
          rw [Option.map_some, if_neg (by rw [hr]; exact hne.symm)]
  next =>
      simp only
      exact find?_append_row (by rw [RateBucket.consume_keyId]; rfl) hne

/-- A `consume` is the row's own. -/
theorem consume_of_some (repo : RateBucketRepository) (freshId : String) (now : ℚ)
    {row : RateBucket} (h : table.find? (·.keyId = keyId) = some row) :
    (repo.consume table freshId keyId now).1 = (row.consume now).1 ∧
      (repo.consume table freshId keyId now).2.2.find? (·.keyId = keyId)
        = some (row.consume now).2 := by
  have hkey : row.keyId = keyId := by simpa using List.find?_some h
  simp only [consume, h, true_and]
  rw [Keyed.find?_replace (by rw [RateBucket.consume_keyId, hkey]), h, Option.map_some,
    if_pos hkey]

/-- The first `consume` of a key is that of a full row. -/
theorem consume_of_none (repo : RateBucketRepository) (freshId : String) (now : ℚ)
    (h : table.find? (·.keyId = keyId) = none) :
    ∃ row, Full repo row ∧
      (repo.consume table freshId keyId now).1 = (row.consume now).1 ∧
      (repo.consume table freshId keyId now).2.2.find? (·.keyId = keyId)
        = some (row.consume now).2 := by
  refine ⟨repo.materialise freshId keyId now, full_materialise, ?_⟩
  simp only [consume, h, true_and]
  rw [List.find?_append, h, Option.none_or, List.find?_singleton]
  simp [materialise]

/-! ### Whole runs -/

/-- Behind the first `consume`: the decisions are those of a bucket the row agrees with. -/
theorem decisions_of_agrees {ops : List Op} {row : RateBucket} {b : TokenBucket}
    (hfind : table.find? (·.keyId = keyId) = some row) (h : Agrees row b) :
    repo.decisions keyId table ops =
      (b.decisions ((consumeTimes keyId ops).map TokenBucket.Call.consume)).map Prod.snd := by
  induction ops generalizing table row b with
  | nil => rfl
  | cons op ops ih =>
      cases op with
      | get freshId k now => exact ih (find?_get_of_some hfind) h
      | consume freshId k now =>
          rw [decisions, consumeTimes]
          split_ifs with hk
          · subst hk
            obtain ⟨hgrant, hafter⟩ := consume_of_some repo freshId now hfind
            obtain ⟨hsame, hagrees⟩ := (h.refill now).consume
            rw [hgrant, hsame, ih hafter hagrees]
            rfl
          · exact ih (by rw [find?_consume_of_ne hk, hfind]) h

/-- The decisions on a key nothing was taken from. -/
theorem decisions_of_untouched {ops : List Op}
    (h : table.find? (·.keyId = keyId) = none ∨
      ∃ row, table.find? (·.keyId = keyId) = some row ∧ Full repo row) :
    repo.decisions keyId table ops =
      TokenBucket.decisionsFrom repo.config (consumeTimes keyId ops) := by
  induction ops generalizing table with
  | nil => rfl
  | cons op ops ih =>
      cases op with
      | get freshId k now =>
          refine ih ?_
          rcases h with hnone | ⟨row, hfind, hfull⟩
          · exact find?_get_of_none hnone
          · exact Or.inr ⟨row, find?_get_of_some hfind, hfull⟩
      | consume freshId k now =>
          rw [decisions, consumeTimes]
          split_ifs with hk
          · subst hk
            obtain ⟨row, hfull, hgrant, hafter⟩ : ∃ row, Full repo row ∧
                (repo.consume table freshId k now).1 = (row.consume now).1 ∧
                (repo.consume table freshId k now).2.2.find? (·.keyId = k)
                  = some (row.consume now).2 := by
              rcases h with hnone | ⟨row, hfind, hfull⟩
              · exact consume_of_none repo freshId now hnone
              · exact ⟨row, hfull, consume_of_some repo freshId now hfind⟩
            obtain ⟨hsame, hagrees⟩ := (hfull.refill now).consume
            rw [hgrant, hsame, decisions_of_agrees hafter hagrees]
            rfl
          · refine ih ?_
            rw [find?_consume_of_ne hk]
            exact h

/-- **The stored bucket and the in-memory bucket agree.** On a key without a row, the
`consume` calls decide as those of a bucket in memory that is created at the first of
their times; the calls in between, `get` or on other keys, make no difference. -/
theorem stored_decides_as_in_memory (repo : RateBucketRepository) (table : List RateBucket)
    (keyId : String) (hunseen : keyId ∉ table.map RateBucket.keyId) (ops : List Op) :
    repo.decisions keyId table ops =
      TokenBucket.decisionsFrom repo.config (consumeTimes keyId ops) := by
  refine decisions_of_untouched (Or.inl ?_)
  rw [List.find?_eq_none]
  intro row hrow hkey
  exact hunseen (List.mem_map.mpr ⟨row, hrow, by simpa using hkey⟩)

/-- A `get` two seconds ahead of the first `consume`, a clock that steps back, and a
second `get`. -/
theorem stored_decides_as_in_memory_ahead :
    let repo : RateBucketRepository := ⟨1, 1⟩
    let ops : List Op := [.get "a" "k" 2, .consume "b" "k" 0, .get "c" "k" 5, .consume "d" "k" 1]
    repo.decisions "k" [] ops = TokenBucket.decisionsFrom repo.config (consumeTimes "k" ops) :=
  stored_decides_as_in_memory ⟨1, 1⟩ [] "k" (by simp) _

end RateBucketRepository

end Taskq
