import Mathlib.Data.List.GetD
import Taskq.Lib.Rank
import Taskq.Models

/-!
# Taskq.Service.Metrics

`latency_percentiles` (`service/metrics.py`) over `collect_duration_ms`
(`repository/metrics.py`).

A percentile is looked up in the sorted durations at the index `p/100 * (n - 1)`, rounded.
The nearest rank is `p/100 * n`, rounded up. The two are one place apart for a fixed part
of all sizes (`Misranks`), and then the reported value is the right one only if the two
neighbours are equal.
-/

namespace Taskq.Metrics

open Rank

/-- `collect_duration_ms`. -/
def collectDurationMs (db : Database) : List ℤ := db.results.filterMap ResultRow.durationMs

/-- `idx` of `_pct`, for `n` samples. -/
def pctIndex (p n : ℕ) : ℕ :=
  (min ((n : ℤ) - 1) (max 0 (roundHalfEven ((p : ℚ) / 100 * ((n : ℚ) - 1))))).toNat

/-- `_pct`. A `float` of an integer is written as the integer. -/
def pct (samples : List ℤ) (p : ℕ) : ℤ := samples.getD (pctIndex p samples.length) 0

/-- `sorted(collect_duration_ms())`. -/
def sorted (durations : List ℤ) : List ℤ := durations.insertionSort (· ≤ ·)

/-- `latency_percentiles`, of what `collect_duration_ms` returns. -/
def latencyPercentiles (durations : List ℤ) : List (String × ℤ) :=
  let samples := sorted durations
  if samples = [] then [("p50", 0), ("p90", 0), ("p95", 0), ("p99", 0)]
  else [("p50", pct samples 50), ("p90", pct samples 90), ("p95", pct samples 95),
    ("p99", pct samples 99)]

/-- What is reported. -/
def reported : List ℕ := [50, 90, 95, 99]

/-- The key of a percentile. -/
def key (p : ℕ) : String := "p" ++ toString p

/-! ### Nearest rank -/

/-- `v` is the smallest of the samples such that at least `p` percent of them are no larger. -/
structure NearestRank (p : ℕ) (xs : List ℤ) (v : ℤ) : Prop where
  mem : v ∈ xs
  covers : p * xs.length ≤ 100 * xs.countP (· ≤ v)
  least : ∀ w ∈ xs, p * xs.length ≤ 100 * xs.countP (· ≤ w) → v ≤ w

/-- The place of the nearest rank in the sorted samples. -/
def rankIndex (p n : ℕ) : ℕ := (p * n + 99) / 100 - 1

theorem nearestRank_iff {p : ℕ} (hp : 0 < p) {xs : List ℤ} (hne : xs ≠ []) {v : ℤ} :
    NearestRank p xs v ↔ Ranked (rankIndex p xs.length + 1) xs v := by
  have hn : 0 < p * xs.length := Nat.mul_pos hp (List.length_pos_iff.mpr hne)
  have hcovers : ∀ c : ℕ, p * xs.length ≤ 100 * c ↔ rankIndex p xs.length + 1 ≤ c := by
    intro c
    unfold rankIndex
    omega
  refine ⟨?_, ?_⟩
  · intro h
    exact ⟨h.mem, (hcovers _).mp h.covers, fun w hw hk => h.least w hw ((hcovers _).mpr hk)⟩
  · intro h
    exact ⟨h.mem, (hcovers _).mpr h.covers, fun w hw hk => h.least w hw ((hcovers _).mp hk)⟩

/-! ### The index -/

theorem pctIndex_eq (p : ℕ) {n : ℕ} (hn : 0 < n) :
    pctIndex p n = min (n - 1) (roundDiv (p * (n - 1)) 100) := by
  have hquot : (p : ℚ) / 100 * ((n : ℚ) - 1) = ((p * (n - 1) : ℕ) : ℚ) / (100 : ℕ) := by
    rw [Nat.cast_mul, Nat.cast_sub hn, Nat.cast_one, Nat.cast_ofNat, div_mul_eq_mul_div]
  rw [pctIndex, hquot, roundHalfEven_div _ (by decide)]
  omega

section Split

/-! Each reported `p` is `100 - 100 / m` for some `m`. The sizes are split by `m`. -/

variable {w m k j : ℕ}

theorem place_split (hw : w * (m + 1) = 100) (hj : j ≤ m) :
    w * m * ((m + 1) * k + j + 1) / 100 = m * k + j := by
  obtain ⟨d, rfl⟩ := Nat.exists_eq_add_of_le hj
  have hsplit : w * (j + d) * ((j + d + 1) * k + j + 1) = 100 * ((j + d) * k + j) + w * d := by
    rw [← hw]
    ring
  have hlt : w * d < 100 := by nlinarith
  rw [hsplit, Nat.mul_add_div (by decide), Nat.div_eq_of_lt hlt, Nat.add_zero]

theorem rankIndex_split (hw : w * (m + 1) = 100) (hj : j ≤ m) :
    rankIndex (w * m) ((m + 1) * k + j + 1) = if j = m then m * k + j - 1 else m * k + j := by
  obtain ⟨d, rfl⟩ := Nat.exists_eq_add_of_le hj
  have hsplit : w * (j + d) * ((j + d + 1) * k + j + 1) = 100 * ((j + d) * k + j) + w * d := by
    rw [← hw]
    ring
  have hlt : w * d < 100 := by nlinarith
  have hzero : w * d = 0 ↔ d = 0 := by
    rw [Nat.mul_eq_zero, or_iff_right]
    intro heq
    subst heq
    simp at hw
  rw [rankIndex, hsplit]
  generalize (j + d) * k + j = place
  generalize w * d = rest at hlt hzero
  split_ifs with hd <;> omega

theorem pctIndex_split (hw : w * (m + 1) = 100) (hj : j ≤ m) :
    pctIndex (w * m) ((m + 1) * k + j + 1) =
      if 2 * j < m + 1 then m * k + j
      else if m + 1 < 2 * j then m * k + j - 1
      else if (m * k + j) % 2 = 0 then m * k + j
      else m * k + j - 1 := by
  have hround : roundDiv (w * m * ((m + 1) * k + j)) 100 =
      if 2 * j < m + 1 then m * k + j
      else if m + 1 < 2 * j then m * k + j - 1
      else if (m * k + j) % 2 = 0 then m * k + j
      else m * k + j - 1 := by
    cases j with
    | zero =>
        have hexact : w * m * ((m + 1) * k + 0) = 100 * (m * k) + 0 := by
          rw [← hw]
          ring
        rw [roundDiv_eq hexact (by decide), if_pos (by decide), if_pos (by omega), Nat.add_zero]
    | succ i =>
        obtain ⟨d, rfl⟩ := Nat.exists_eq_add_of_le hj
        have hsplit : w * (i + 1 + d) * ((i + 1 + d + 1) * k + (i + 1)) =
            100 * ((i + 1 + d) * k + i) + w * (d + 1) := by
          rw [← hw]
          ring
        have hsum : w * (d + 1) + w * (i + 1) = 100 := by
          rw [← hw]
          ring
        have hw₀ : 0 < w := Nat.pos_of_ne_zero fun h => by simp [h] at hw
        have hpos : 0 < w * (i + 1) := Nat.mul_pos hw₀ (Nat.succ_pos i)
        -- the remainder is compared with a half as the two parts of the hundred are
        have hbelow : 2 * (w * (d + 1)) < 100 ↔ i + 1 + d + 1 < 2 * (i + 1) := by
          rw [← hw, ← mul_assoc, mul_comm 2 w, mul_assoc]
          exact (Nat.mul_lt_mul_left hw₀).trans (by omega)
        have habove : 100 < 2 * (w * (d + 1)) ↔ 2 * (i + 1) < i + 1 + d + 1 := by
          rw [← hw, ← mul_assoc, mul_comm 2 w, mul_assoc]
          exact (Nat.mul_lt_mul_left hw₀).trans (by omega)
        rw [roundDiv_eq hsplit (by omega)]
        simp only [hbelow, habove]
        generalize (i + 1 + d) * k = base
        split_ifs <;> omega
  rw [pctIndex_eq _ (Nat.succ_pos _), Nat.succ_sub_one, hround]
  refine min_eq_right ?_
  have hle : m * k ≤ (m + 1) * k := Nat.mul_le_mul_right k (Nat.le_succ m)
  split_ifs <;> omega

end Split

/-- The sizes for which the index is not that of the nearest rank. -/
def Misranks (p n : ℕ) : Prop :=
  p = 50 ∧ n % 4 = 0 ∨
  p = 90 ∧ (n % 20 = 6 ∨ 7 ≤ n % 10) ∨
  p = 95 ∧ (n % 40 = 31 ∨ 12 ≤ n % 20) ∨
  p = 99 ∧ (n % 200 = 151 ∨ 52 ≤ n % 100)

instance (p n : ℕ) : Decidable (Misranks p n) := by
  unfold Misranks
  infer_instance

/-- A size, by what is left over and whether the quotient is even. -/
theorem exists_quotient {n : ℕ} (hn : 0 < n) (i : ℕ) :
    ∃ k b j, b < 2 ∧ j < 2 * i + 2 ∧ n = (2 * i + 2) * (2 * k + b) + j + 1 ∧
      n % (2 * i + 2) = (j + 1) % (2 * i + 2) ∧
      n % (2 * (2 * i + 2)) = ((2 * i + 2) * b + j + 1) % (2 * (2 * i + 2)) ∧
      ((2 * i + 1) * (2 * k + b) + j) % 2 = (b + j) % 2 := by
  have hm : 0 < 2 * i + 2 := by omega
  refine ⟨(n - 1) / (2 * i + 2) / 2, (n - 1) / (2 * i + 2) % 2, (n - 1) % (2 * i + 2),
    Nat.mod_lt _ two_pos, Nat.mod_lt _ hm, ?_⟩
  have hsplit : n = (2 * i + 2) * (2 * ((n - 1) / (2 * i + 2) / 2) + (n - 1) / (2 * i + 2) % 2) +
      (n - 1) % (2 * i + 2) + 1 := by
    rw [Nat.div_add_mod, Nat.div_add_mod, Nat.sub_add_cancel hn]
  refine ⟨hsplit, ?_⟩
  generalize (n - 1) / (2 * i + 2) / 2 = k at hsplit ⊢
  generalize (n - 1) / (2 * i + 2) % 2 = b at hsplit ⊢
  generalize (n - 1) % (2 * i + 2) = j at hsplit ⊢
  refine ⟨?_, ?_, ?_⟩
  · rw [hsplit, Nat.add_assoc, Nat.mul_add_mod]
  · have hdouble : n = 2 * (2 * i + 2) * k + ((2 * i + 2) * b + j + 1) := by
      rw [hsplit]
      ring
    rw [hdouble, Nat.mul_add_mod]
  · have hdouble : (2 * i + 1) * (2 * k + b) + j = 2 * ((2 * i + 1) * k + i * b) + (b + j) := by
      ring
    rw [hdouble, Nat.mul_add_mod]

/-- The size, split by the `m = 2 * i + 1` of a percentile. What is asked of it then depends
on `j` and on whether the quotient is even (`b`). -/
theorem exists_split_of {p n w i : ℕ} {M : ℕ → ℕ → Prop} (hn : 0 < n)
    (hw : w * (2 * i + 2) = 100) (hp : p = w * (2 * i + 1))
    (hmis : Misranks p n ↔ M (n % (2 * (2 * i + 2))) (n % (2 * i + 2)))
    (hcases : ∀ b j, b < 2 → j < 2 * i + 2 →
      (M (((2 * i + 2) * b + j + 1) % (2 * (2 * i + 2))) ((j + 1) % (2 * i + 2)) ↔
        (j < 2 * i + 1 ∧ (2 * i + 2 < 2 * j ∨ 2 * j = 2 * i + 2 ∧ (b + j) % 2 = 1)) ∨
          j = 2 * i + 1 ∧ 2 * j = 2 * i + 2 ∧ (b + j) % 2 = 0)) :
    ∃ w m k j, w * (m + 1) = 100 ∧ 0 < m ∧ p = w * m ∧ j ≤ m ∧ n = (m + 1) * k + j + 1 ∧
      (Misranks p n ↔ (j < m ∧ (m + 1 < 2 * j ∨ 2 * j = m + 1 ∧ (m * k + j) % 2 = 1)) ∨
        j = m ∧ 2 * j = m + 1 ∧ (m * k + j) % 2 = 0) := by
  obtain ⟨k, b, j, hb, hj, hsplit, hmod, hdouble, hparity⟩ := exists_quotient hn i
  refine ⟨w, 2 * i + 1, 2 * k + b, j, hw, by omega, hp, by omega, hsplit, ?_⟩
  rw [hmis, hmod, hdouble, hparity]
  exact hcases b j hb hj

theorem exists_split {p n : ℕ} (hp : p ∈ reported) (hn : 0 < n) :
    ∃ w m k j, w * (m + 1) = 100 ∧ 0 < m ∧ p = w * m ∧ j ≤ m ∧ n = (m + 1) * k + j + 1 ∧
      (Misranks p n ↔ (j < m ∧ (m + 1 < 2 * j ∨ 2 * j = m + 1 ∧ (m * k + j) % 2 = 1)) ∨
        j = m ∧ 2 * j = m + 1 ∧ (m * k + j) % 2 = 0) := by
  simp only [reported, List.mem_cons, List.not_mem_nil, or_false] at hp
  rcases hp with rfl | rfl | rfl | rfl
  · refine exists_split_of (w := 50) (i := 0) (M := fun a _ => a = 0) hn rfl rfl ?_ ?_
    · simp [Misranks]
    · omega
  · refine exists_split_of (w := 10) (i := 4) (M := fun a c => a = 6 ∨ 7 ≤ c) hn rfl rfl ?_ ?_
    · simp [Misranks]
    · omega
  · refine exists_split_of (w := 5) (i := 9) (M := fun a c => a = 31 ∨ 12 ≤ c) hn rfl rfl ?_ ?_
    · simp [Misranks]
    · omega
  · refine exists_split_of (w := 1) (i := 49) (M := fun a c => a = 151 ∨ 52 ≤ c) hn rfl rfl ?_ ?_
    · simp [Misranks]
    · omega

/-- **Where the index is**: at the place of the nearest rank, or one off, in front or
behind. -/
theorem index_cases {p n : ℕ} (hp : p ∈ reported) (hn : 0 < n) :
    ¬ Misranks p n ∧ pctIndex p n = rankIndex p n ∨
      Misranks p n ∧ 0 < p * n / 100 ∧ p * n / 100 < n ∧
        (pctIndex p n = p * n / 100 - 1 ∧ rankIndex p n = p * n / 100 ∨
          pctIndex p n = p * n / 100 ∧ rankIndex p n = p * n / 100 - 1) := by
  obtain ⟨w, m, k, j, hw, hm, rfl, hj, rfl, hmisranks⟩ := exists_split hp hn
  have hle : m * k ≤ (m + 1) * k := Nat.mul_le_mul_right k (Nat.le_succ m)
  rw [hmisranks, pctIndex_split hw hj, rankIndex_split hw hj, place_split hw hj]
  by_cases hmis : (j < m ∧ (m + 1 < 2 * j ∨ 2 * j = m + 1 ∧ (m * k + j) % 2 = 1)) ∨
      j = m ∧ 2 * j = m + 1 ∧ (m * k + j) % 2 = 0
  · refine Or.inr ⟨hmis, ?_⟩
    generalize m * k = base at hmis hle ⊢
    generalize (m + 1) * k = size at hle ⊢
    split_ifs <;> omega
  · refine Or.inl ⟨hmis, ?_⟩
    generalize m * k = base at hmis hle ⊢
    split_ifs <;> omega

theorem rankIndex_lt {p n : ℕ} (hp : p ∈ reported) (hn : 0 < n) : rankIndex p n < n := by
  have hle : p ≤ 100 := by
    have hall : ∀ q ∈ reported, q ≤ 100 := by decide
    exact hall p hp
  have hmul : p * n ≤ 100 * n := Nat.mul_le_mul_right n hle
  unfold rankIndex
  omega

theorem pctIndex_lt (p : ℕ) {n : ℕ} (hn : 0 < n) : pctIndex p n < n := by
  rw [pctIndex_eq p hn]
  omega

theorem pctIndex_mono {p q : ℕ} (h : p ≤ q) {n : ℕ} (hn : 0 < n) :
    pctIndex p n ≤ pctIndex q n := by
  rw [pctIndex_eq p hn, pctIndex_eq q hn]
  exact min_le_min_left _ (roundDiv_mono (Nat.mul_le_mul_right (n - 1) h) 100)

/-! ### What is reported -/

/-- Where the index is off, the two samples it falls between are equal. -/
def Exact (p : ℕ) (durations : List ℤ) : Prop :=
  Misranks p durations.length →
    (sorted durations)[p * durations.length / 100 - 1]? =
      (sorted durations)[p * durations.length / 100]?

instance (p : ℕ) (durations : List ℤ) : Decidable (Exact p durations) :=
  inferInstanceAs (Decidable (_ → _))

theorem sorted_perm (durations : List ℤ) : (sorted durations).Perm durations :=
  List.perm_insertionSort _ durations

theorem sorted_pairwise (durations : List ℤ) : (sorted durations).Pairwise (· ≤ ·) :=
  List.pairwise_insertionSort _ durations

theorem pct_mem {samples : List ℤ} (hne : samples ≠ []) (p : ℕ) : pct samples p ∈ samples := by
  have hlt := pctIndex_lt p (List.length_pos_iff.mpr hne)
  rw [pct, List.getD_eq_getElem _ _ hlt]
  exact List.getElem_mem hlt

/-- A higher percentile is no smaller. -/
theorem pct_mono {samples : List ℤ} (hsorted : samples.Pairwise (· ≤ ·)) (hne : samples ≠ [])
    {p q : ℕ} (h : p ≤ q) : pct samples p ≤ pct samples q := by
  have hn := List.length_pos_iff.mpr hne
  have hp := pctIndex_lt p hn
  have hq := pctIndex_lt q hn
  rw [pct, pct, List.getD_eq_getElem _ _ hp, List.getD_eq_getElem _ _ hq]
  exact List.sortedLE_iff_getElem_le_getElem_of_le.mp hsorted.sortedLE (pctIndex_mono h hn)

theorem lookup_latencyPercentiles {durations : List ℤ} (hne : durations ≠ []) {p : ℕ}
    (hp : p ∈ reported) :
    (latencyPercentiles durations).lookup (key p) = some (pct (sorted durations) p) := by
  have hsorted : sorted durations ≠ [] := fun h =>
    hne (List.perm_nil.mp (h ▸ (sorted_perm durations).symm))
  simp only [latencyPercentiles, if_neg hsorted]
  simp only [reported, List.mem_cons, List.not_mem_nil, or_false] at hp
  rcases hp with rfl | rfl | rfl | rfl <;> rfl

/-- **A reported percentile is the nearest-rank one if and only if** the number of samples is
none for which the index is off, or the two samples it falls between are equal. -/
theorem nearest_rank_iff {durations : List ℤ} (hne : durations ≠ []) :
    ∀ p ∈ reported, ∃ v, (latencyPercentiles durations).lookup (key p) = some v ∧
      (NearestRank p durations v ↔ Exact p durations) := by
  intro p hp
  refine ⟨pct (sorted durations) p, lookup_latencyPercentiles hne hp, ?_⟩
  have hlength : (sorted durations).length = durations.length := (sorted_perm durations).length_eq
  have hn : 0 < durations.length := List.length_pos_iff.mpr hne
  have hp₀ : 0 < p := by
    have hall : ∀ q ∈ reported, 0 < q := by decide
    exact hall p hp
  have hrank : rankIndex p durations.length < (sorted durations).length := by
    rw [hlength]
    exact rankIndex_lt hp hn
  rw [nearestRank_iff hp₀ hne, ranked_iff (sorted_perm durations) (sorted_pairwise durations) hrank,
    pct, hlength, Exact]
  rcases index_cases hp hn with ⟨hnot, hindex⟩ | ⟨hmis, hpos, hlt, hindex⟩
  · refine iff_of_true ?_ fun h => absurd h hnot
    rw [hindex, List.getD_eq_getElem _ _ hrank]
  · have hplace : p * durations.length / 100 < (sorted durations).length := hlength ▸ hlt
    have hbefore : p * durations.length / 100 - 1 < (sorted durations).length := by omega
    rw [List.getElem?_eq_getElem hplace, List.getElem?_eq_getElem hbefore, Option.some_inj]
    refine Iff.trans ?_ (forall_prop_of_true hmis).symm
    rcases hindex with ⟨hpct, hrank'⟩ | ⟨hpct, hrank'⟩
    · rw [hpct, List.getD_eq_getElem _ _ hbefore]
      simp only [hrank']
      exact eq_comm
    · rw [hpct, List.getD_eq_getElem _ _ hplace]
      simp only [hrank']

/-- Three samples: every index is right. -/
theorem nearest_rank_iff_three :
    ([30, 10, 20] : List ℤ) ≠ [] ∧
      ∀ p ∈ reported, ∃ v, (latencyPercentiles [30, 10, 20]).lookup (key p) = some v ∧
        (NearestRank p [30, 10, 20] v ↔ Exact p [30, 10, 20]) :=
  have hne : ([30, 10, 20] : List ℤ) ≠ [] := by decide
  ⟨hne, nearest_rank_iff hne⟩

/-- Of four samples the third one is reported as the median. -/
theorem median_of_four : ¬ ∀ durations : List ℤ, durations ≠ [] →
    ∀ p ∈ reported, ∀ v, (latencyPercentiles durations).lookup (key p) = some v →
      NearestRank p durations v := by
  intro h
  have hne : ([1, 2, 3, 4] : List ℤ) ≠ [] := by decide
  have hp : 50 ∈ reported := by decide
  have hrank := h _ hne 50 hp _ (lookup_latencyPercentiles hne hp)
  have hleast := hrank.least 2 (by decide) (by decide)
  have hindex : pctIndex 50 4 = 2 := by
    rw [pctIndex_eq 50 (by decide)]
    decide
  have hvalue : pct (sorted [1, 2, 3, 4]) 50 = 3 := by
    rw [pct, show (sorted [1, 2, 3, 4]).length = 4 from rfl, hindex]
    rfl
  rw [hvalue] at hleast
  exact absurd hleast (by decide)

end Taskq.Metrics
