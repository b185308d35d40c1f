import Mathlib.Data.List.Sort
import Mathlib.Data.Rat.Floor
import Mathlib.Tactic.Linarith

/-!
# Taskq.Lib.Rank

Order statistics, and rounding to an index.

The entry of rank `k` is the least one that at least `k` entries do not exceed
(`Ranked`). In a sorted list it stands at the place `k - 1` (`ranked_iff`). Rounding is to
the nearest integer, and to the even one of two that are equally near; of a quotient it is
decided by the remainder (`roundHalfEven_div`).
-/

namespace Rank

/-! ### Rounding -/

/-- The nearest integer, the even one where there are two (Python's `round`). -/
def roundHalfEven (x : ℚ) : ℤ :=
  if x - ⌊x⌋ < 1 / 2 then ⌊x⌋
  else if 1 / 2 < x - ⌊x⌋ then ⌊x⌋ + 1
  else if ⌊x⌋ % 2 = 0 then ⌊x⌋
  else ⌊x⌋ + 1

/-- The same on a quotient of natural numbers. -/
def roundDiv (a b : ℕ) : ℕ :=
  if 2 * (a % b) < b then a / b
  else if b < 2 * (a % b) then a / b + 1
  else if a / b % 2 = 0 then a / b
  else a / b + 1

theorem roundDiv_eq {a b q r : ℕ} (h : a = b * q + r) (hr : r < b) :
    roundDiv a b =
      if 2 * r < b then q else if b < 2 * r then q + 1 else if q % 2 = 0 then q else q + 1 := by
  have hb : 0 < b := by omega
  have hdiv : a / b = q := by rw [h, Nat.mul_add_div hb, Nat.div_eq_of_lt hr, Nat.add_zero]
  have hmod : a % b = r := by rw [h, Nat.mul_add_mod, Nat.mod_eq_of_lt hr]
  rw [roundDiv, hdiv, hmod]

theorem roundDiv_mono {a a' : ℕ} (h : a ≤ a') (b : ℕ) : roundDiv a b ≤ roundDiv a' b := by
  rcases Nat.lt_or_ge (a / b) (a' / b) with hlt | hge
  · unfold roundDiv
    split_ifs <;> omega
  · have hdiv : a / b = a' / b := Nat.le_antisymm (Nat.div_le_div_right h) hge
    have hmod : a % b ≤ a' % b := by
      have hsplit := Nat.div_add_mod a b
      have hsplit' := Nat.div_add_mod a' b
      rw [hdiv] at hsplit
      omega
    unfold roundDiv
    rw [hdiv]
    split_ifs <;> omega

theorem roundHalfEven_div (a : ℕ) {b : ℕ} (hb : 0 < b) :
    roundHalfEven ((a : ℚ) / b) = roundDiv a b := by
  have hfloor : ⌊(a : ℚ) / b⌋ = ((a / b : ℕ) : ℤ) := by
    rw [Rat.floor_natCast_div_natCast]
    exact (Int.natCast_div a b).symm
  have hb' : (0 : ℚ) < b := by exact_mod_cast hb
  have hsplit : (b : ℚ) * (a / b : ℕ) + (a % b : ℕ) = a := by exact_mod_cast Nat.div_add_mod a b
  have hrest : (a : ℚ) / b - ((a / b : ℕ) : ℤ) = (a % b : ℕ) / b := by
    rw [Int.cast_natCast, eq_div_iff hb'.ne', sub_mul, div_mul_cancel₀ _ hb'.ne']
    linarith
  have hbelow : ((a % b : ℕ) : ℚ) / b < 1 / 2 ↔ 2 * (a % b) < b := by
    rw [div_lt_div_iff₀ hb' two_pos, one_mul, mul_comm]
    exact_mod_cast Iff.rfl
  have habove : 1 / 2 < ((a % b : ℕ) : ℚ) / b ↔ b < 2 * (a % b) := by
    rw [div_lt_div_iff₀ two_pos hb', one_mul, mul_comm]
    exact_mod_cast Iff.rfl
  rw [roundHalfEven, hfloor, hrest, roundDiv]
  simp only [hbelow, habove]
  split_ifs with h₁ h₂ h₃ h₄ <;> first | rfl | omega

/-! ### The entry of a rank -/

variable {α : Type*} [LinearOrder α]

/-- `v` is the least entry that at least `k` entries do not exceed. -/
structure Ranked (k : ℕ) (xs : List α) (v : α) : Prop where
  mem : v ∈ xs
  covers : k ≤ xs.countP (· ≤ v)
  least : ∀ w ∈ xs, k ≤ xs.countP (· ≤ w) → v ≤ w

theorem Ranked.perm {k : ℕ} {xs ys : List α} {v : α} (h : Ranked k xs v) (hperm : xs.Perm ys) :
    Ranked k ys v where
  mem := hperm.mem_iff.mp h.mem
  covers := hperm.countP_eq _ ▸ h.covers
  least := fun w hw hk => h.least w (hperm.mem_iff.mpr hw) (hperm.countP_eq _ ▸ hk)

theorem Ranked.unique {k : ℕ} {xs : List α} {v w : α} (h : Ranked k xs v) (h' : Ranked k xs w) :
    v = w :=
  le_antisymm (h.least w h'.mem h'.covers) (h'.least v h.mem h.covers)

/-- In a sorted list those that do not exceed a bound come first. -/
theorem lt_countP_iff {xs : List α} (hsorted : xs.Pairwise (· ≤ ·)) {i : ℕ} (hi : i < xs.length)
    (v : α) : i < xs.countP (· ≤ v) ↔ xs[i] ≤ v := by
  induction xs generalizing i with
  | nil => cases hi
  | cons x xs ih =>
      obtain ⟨hx, hrest⟩ := List.pairwise_cons.mp hsorted
      by_cases hxv : x ≤ v
      · rw [List.countP_cons_of_pos (by simpa using hxv)]
        cases i with
        | zero => exact iff_of_true (Nat.succ_pos _) hxv
        | succ i => rw [Nat.succ_lt_succ_iff, ih hrest (Nat.lt_of_succ_lt_succ hi)]; rfl
      · have hnone : ∀ y ∈ x :: xs, ¬ y ≤ v := by
          intro y hy hyv
          rcases List.mem_cons.mp hy with rfl | hy
          · exact hxv hyv
          · exact hxv ((hx y hy).trans hyv)
        have hzero : (x :: xs).countP (· ≤ v) = 0 :=
          List.countP_eq_zero.mpr fun y hy => by simpa using hnone y hy
        rw [hzero]
        exact iff_of_false (Nat.not_lt_zero i) (hnone _ (List.getElem_mem hi))

theorem ranked_getElem {xs : List α} (hsorted : xs.Pairwise (· ≤ ·)) {i : ℕ} (hi : i < xs.length) :
    Ranked (i + 1) xs xs[i] where
  mem := List.getElem_mem hi
  covers := (lt_countP_iff hsorted hi xs[i]).mpr le_rfl
  least := fun w _ hk => (lt_countP_iff hsorted hi w).mp hk

/-- **The entry of a rank stands at its place in the sorted list.** -/
theorem ranked_iff {xs ys : List α} (hperm : ys.Perm xs) (hsorted : ys.Pairwise (· ≤ ·)) {i : ℕ}
    (hi : i < ys.length) {v : α} : Ranked (i + 1) xs v ↔ ys[i] = v := by
  have hplace := (ranked_getElem hsorted hi).perm hperm
  refine ⟨hplace.unique, ?_⟩
  intro heq
  subst heq
  exact hplace

end Rank
