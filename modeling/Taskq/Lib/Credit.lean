import Taskq.Lib.Transition
import Mathlib.Algebra.Order.Field.Basic
import Mathlib.Tactic.Linarith
import Mathlib.Tactic.Ring

/-!
# Taskq.Lib.Credit

Credit accounts: the abstract reason why a rate limiter admits no more than its
allowance.

An account holds a non-negative credit and the time up to which credit has been
paid in. Credit accrues at `rate` per unit of time, over intervals that start
where the last one ended; spending takes one unit. Whatever the order of the two,
the number of units spent never exceeds the opening credit plus `rate` times the
time paid for (`Account.spent_le`). A cap on the credit only ever lowers it, so a
capped limiter is an instance with a smaller accrual.
-/

namespace Credit

open Transition

variable {K : Type*} [Field K] [LinearOrder K]

/-- A credit account; the credit cannot be negative. -/
structure Account (K : Type*) [Field K] [LinearOrder K] where
  credit : K
  last : K
  spent : ℕ
  credit_nonneg : 0 ≤ credit

/-- What can happen to an account. -/
inductive Event (K : Type*)
  /-- Credit is paid in for the time up to `now`. -/
  | accrue (now : K)
  /-- One unit is spent. -/
  | spend

/-- The accounts that follow an opening account at the given rate. -/
def ledger (rate : K) (opening : Account K) : Lts (Account K) (Event K) where
  init a := a = opening
  step a e a' :=
    match e with
    | .accrue now =>
        a.last ≤ now ∧ a'.credit ≤ a.credit + rate * (now - a.last) ∧
          a'.last = now ∧ a'.spent = a.spent
    | .spend => a'.credit = a.credit - 1 ∧ a'.last = a.last ∧ a'.spent = a.spent + 1

variable {rate : K} {opening a : Account K}

/-! ### Moves, as the simulations below use them -/

/-- Paying in up to a later time, possibly less than the rate allows. -/
theorem Account.accrue {a b : Account K} (hl : a.last ≤ b.last) (hs : b.spent = a.spent)
    (hc : b.credit ≤ a.credit + rate * (b.last - a.last)) :
    (ledger rate opening).Move a b :=
  ⟨.accrue b.last, hl, hc, rfl, hs⟩

/-- Spending one unit. -/
theorem Account.spend {a b : Account K} (hc : b.credit = a.credit - 1) (hl : b.last = a.last)
    (hs : b.spent = a.spent + 1) : (ledger rate opening).Move a b :=
  ⟨.spend, hc, hl, hs⟩

/-! ### The allowance -/

variable [IsStrictOrderedRing K]

/-- The invariant: what was spent and what is left never exceed what was paid in. -/
theorem Account.balance (h : (ledger rate opening).Reachable a) :
    a.credit + a.spent ≤ opening.credit + opening.spent + rate * (a.last - opening.last) := by
  refine h.invariant (I := fun a => a.credit + a.spent ≤
    opening.credit + opening.spent + rate * (a.last - opening.last)) ?_ ?_
  · rintro s rfl
    simp
  · rintro s (now | _) s' - ih hs
    · obtain ⟨-, hc, hl, hn⟩ := hs
      have hsplit : rate * (now - opening.last) =
          rate * (now - s.last) + rate * (s.last - opening.last) := by ring
      rw [hl, hn, hsplit]
      linarith
    · obtain ⟨hc, hl, hn⟩ := hs
      rw [hc, hl, hn]
      push_cast
      linarith

/-- **Allowance.** The units spent are bounded by the opening credit and the time paid. -/
theorem Account.spent_le (h : (ledger rate opening).Reachable a) :
    (a.spent : K) ≤ opening.credit + opening.spent + rate * (a.last - opening.last) := by
  have := Account.balance h
  have := a.credit_nonneg
  linarith

end Credit
