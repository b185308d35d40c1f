import Taskq.Lib.Credit
import Taskq.Repository.RateBuckets
import Mathlib.Algebra.Order.Archimedean.Basic
import Mathlib.Data.Rat.Floor
import Mathlib.Logic.Function.Basic

/-!
# Taskq.Repository.RateBucketLock

Any number of workers inside `RateBucketRepository.consume` on one existing row.

`consume` reads the clock *before* it asks for the row lock, so the order in which
workers read the clock and the order in which their transactions commit can differ.
Between the lock and the commit a worker is alone with the row; the world below
interleaves everything else.

While every transaction takes the lock with a reading that is not older than the
row's `last_refill_at`, the committed row refines a credit account whose opening
balance is the row's initial token count. A transaction with an older reading moves
`last_refill_at` back, and the next one is paid for the same interval again.
-/

namespace Taskq

open Transition Credit

namespace RateBucketLock

variable {ι : Type*} [DecidableEq ι]

/-- Where a worker is inside `consume`. -/
inductive Pc
  | idle
  /-- `now = time.time()` has run. -/
  | clockRead (now : ℚ)
  /-- `SELECT … FOR UPDATE` has returned the row. -/
  | locked (now : ℚ) (row : RateBucket)
  /-- `row.tokens` and `row.last_refill_at` are assigned in the session. -/
  | refilled (row : RateBucket)
  /-- The decision is taken; the commit is outstanding. -/
  | decremented (granted : Bool) (row : RateBucket)
  deriving DecidableEq

/-- The global clock, the committed row with its lock, and the workers. `latest` is the
last clock value that a worker read, `granted` counts the calls that returned a grant. -/
structure World (ι : Type*) where
  clock : ℚ
  latest : ℚ
  row : RateBucket
  lock : Option ι
  pc : ι → Pc
  granted : ℕ

/-- What happens next: time passes, or one worker takes one step. -/
inductive Event (ι : Type*)
  | tick (t : ℚ)
  | readClock (w : ι)
  | acquire (w : ι)
  | refill (w : ι)
  | decrement (w : ι)
  | commit (w : ι)

/-- The state after an event, if the event is possible. -/
def World.next (s : World ι) : Event ι → Option (World ι)
  | .tick t => if s.clock ≤ t then some { s with clock := t } else none
  | .readClock w =>
      match s.pc w with
      | .idle =>
          some { s with latest := s.clock, pc := Function.update s.pc w (.clockRead s.clock) }
      | _ => none
  | .acquire w =>
      match s.pc w, s.lock with
      | .clockRead now, none =>
          some { s with lock := some w, pc := Function.update s.pc w (.locked now s.row) }
      | _, _ => none
  | .refill w =>
      match s.pc w with
      | .locked now row =>
          some { s with pc := Function.update s.pc w (.refilled (row.refill now)) }
      | _ => none
  | .decrement w =>
      match s.pc w with
      | .refilled row =>
          some { s with
            pc := Function.update s.pc w (.decremented row.decrement.1 row.decrement.2) }
      | _ => none
  | .commit w =>
      match s.pc w with
      | .decremented granted row =>
          some { s with
            row := row, lock := none, pc := Function.update s.pc w .idle
            granted := s.granted + granted.toNat }
      | _ => none

/-- Nobody is inside `consume`, and the clock is not before the row's `last_refill_at`. -/
def World.start (row : RateBucket) (clock : ℚ) : World ι where
  clock := clock
  latest := row.lastRefillAt
  row := row
  lock := none
  pc := fun _ => .idle
  granted := 0

/-- Every interleaving of the workers on a row. -/
def consumers (ι : Type*) [DecidableEq ι] (row : RateBucket) : Lts (World ι) (Event ι) :=
  .ofNext (fun s => ∃ clock, row.lastRefillAt ≤ clock ∧ s = World.start row clock) World.next

/-- The tokens a row starts with, and what accrues until the last clock value read. -/
def allowance (row : RateBucket) (s : World ι) : ℚ :=
  row.tokens + row.configPerSec * (s.latest - row.lastRefillAt)

/-- No interleaving grants more calls than its allowance. -/
def NeverOverAdmits (ι : Type*) [DecidableEq ι] (row : RateBucket) : Prop :=
  ∀ s, (consumers ι row).Reachable s → (s.granted : ℚ) ≤ allowance row s

/-- The condition on a step: a worker that takes the lock carries a clock reading no older
than the row's `last_refill_at`, unless the row does not accrue at all. -/
def InOrder (s : World ι) : Event ι → Prop
  | .acquire w =>
      ∀ now, s.pc w = .clockRead now → s.row.configPerSec = 0 ∨ s.row.lastRefillAt ≤ now
  | _ => True

/-! ### What each event does -/

section Inversion

variable {s s' : World ι} {w : ι} {t : ℚ}

theorem next_tick (h : s.next (.tick t) = some s') : s.clock ≤ t ∧ s' = { s with clock := t } := by
  simp only [World.next] at h
  split at h
  · next hle => exact ⟨hle, (Option.some.inj h).symm⟩
  · cases h

theorem next_readClock (h : s.next (.readClock w) = some s') :
    s.pc w = .idle ∧
      s' = { s with latest := s.clock, pc := Function.update s.pc w (.clockRead s.clock) } := by
  simp only [World.next] at h
  split at h
  · next hpc => exact ⟨hpc, (Option.some.inj h).symm⟩
  · cases h

theorem next_acquire (h : s.next (.acquire w) = some s') :
    ∃ now, s.pc w = .clockRead now ∧ s.lock = none ∧
      s' = { s with lock := some w, pc := Function.update s.pc w (.locked now s.row) } := by
  simp only [World.next] at h
  split at h
  · next now hpc hlock => exact ⟨now, hpc, hlock, (Option.some.inj h).symm⟩
  · cases h

theorem next_refill (h : s.next (.refill w) = some s') :
    ∃ now row, s.pc w = .locked now row ∧
      s' = { s with pc := Function.update s.pc w (.refilled (row.refill now)) } := by
  simp only [World.next] at h
  split at h
  · next now row hpc => exact ⟨now, row, hpc, (Option.some.inj h).symm⟩
  · cases h

theorem next_decrement (h : s.next (.decrement w) = some s') :
    ∃ row, s.pc w = .refilled row ∧
      s' = { s with
        pc := Function.update s.pc w (.decremented row.decrement.1 row.decrement.2) } := by
  simp only [World.next] at h
  split at h
  · next row hpc => exact ⟨row, hpc, (Option.some.inj h).symm⟩
  · cases h

theorem next_commit (h : s.next (.commit w) = some s') :
    ∃ granted row, s.pc w = .decremented granted row ∧
      s' = { s with
        row := row, lock := none, pc := Function.update s.pc w .idle
        granted := s.granted + granted.toNat } := by
  simp only [World.next] at h
  split at h
  · next granted row hpc => exact ⟨granted, row, hpc, (Option.some.inj h).symm⟩
  · cases h

end Inversion

/-! ### The invariant of in-order runs -/

/-- A reading that the transaction on the current row may use. -/
def Timely (s : World ι) (now : ℚ) : Prop :=
  now ≤ s.latest ∧ (s.row.configPerSec = 0 ∨ s.row.lastRefillAt ≤ now)

/-- What the state of worker `w` says about the committed row: from the lock to the commit
its copy is what the code computes from that row. -/
def PcOk (s : World ι) (w : ι) : Prop :=
  match s.pc w with
  | .idle => True
  | .clockRead now => now ≤ s.latest
  | .locked now row => s.lock = some w ∧ Timely s now ∧ row = s.row
  | .refilled row => s.lock = some w ∧ ∃ now, Timely s now ∧ row = s.row.refill now
  | .decremented granted row =>
      s.lock = some w ∧ ∃ now, Timely s now ∧ (granted, row) = s.row.consume now

structure Inv (row : RateBucket) (s : World ι) : Prop where
  wf : s.row.Wf
  perSec : s.row.configPerSec = row.configPerSec
  latest_le : s.latest ≤ s.clock
  pcOk : ∀ w, PcOk s w

variable {row : RateBucket} {s s' : World ι}

omit [DecidableEq ι] in
theorem inv_start (hrow : row.Wf) {clock : ℚ} (h : row.lastRefillAt ≤ clock) :
    Inv row (World.start (ι := ι) row clock) :=
  ⟨hrow, rfl, h, fun _ => trivial⟩

omit [DecidableEq ι] in
/-- A worker's own state is judged by the row, the lock and the readings so far; a step
that keeps the first two and does not lower the third keeps every other worker's state. -/
theorem PcOk.frame {v : ι} (h : PcOk s v) (hpc : s'.pc v = s.pc v) (hrow : s'.row = s.row)
    (hlock : s.lock = some v → s'.lock = some v) (hlate : s.latest ≤ s'.latest) :
    PcOk s' v := by
  have htimely : ∀ now, Timely s now → Timely s' now := by
    intro now ht
    exact ⟨ht.1.trans hlate, by rw [hrow]; exact ht.2⟩
  unfold PcOk at h ⊢
  rw [hpc]
  cases hv : s.pc v with
  | idle => trivial
  | clockRead now => rw [hv] at h; exact le_trans h hlate
  | locked now r => rw [hv] at h; exact ⟨hlock h.1, htimely _ h.2.1, hrow ▸ h.2.2⟩
  | refilled r =>
      rw [hv] at h
      obtain ⟨hl, now, ht, hr⟩ := h
      exact ⟨hlock hl, now, htimely _ ht, hrow ▸ hr⟩
  | decremented g r =>
      rw [hv] at h
      obtain ⟨hl, now, ht, hr⟩ := h
      exact ⟨hlock hl, now, htimely _ ht, hrow ▸ hr⟩

/-- Every in-order event keeps the invariant. -/
theorem Inv.step {e : Event ι} (h : Inv row s) (hs : s.next e = some s') (hok : InOrder s e) :
    Inv row s' := by
  cases e with
  | tick t =>
      obtain ⟨ht, rfl⟩ := next_tick hs
      exact ⟨h.wf, h.perSec, h.latest_le.trans ht, h.pcOk⟩
  | readClock w =>
      obtain ⟨-, rfl⟩ := next_readClock hs
      refine ⟨h.wf, h.perSec, le_rfl, fun v => ?_⟩
      by_cases hv : v = w
      · subst hv
        simp [PcOk]
      · exact (h.pcOk v).frame (Function.update_of_ne hv _ _) rfl id h.latest_le
  | acquire w =>
      obtain ⟨now, hpc, hlock, rfl⟩ := next_acquire hs
      refine ⟨h.wf, h.perSec, h.latest_le, fun v => ?_⟩
      by_cases hv : v = w
      · subst hv
        have hnow : now ≤ s.latest := by simpa [PcOk, hpc] using h.pcOk v
        simpa [PcOk, Timely] using ⟨hnow, hok now hpc⟩
      -- nobody held the lock, so no other worker has a copy of the row
      · exact (h.pcOk v).frame (Function.update_of_ne hv _ _) rfl
          (fun hl => by rw [hlock] at hl; cases hl) le_rfl
  | refill w =>
      obtain ⟨now, r, hpc, rfl⟩ := next_refill hs
      refine ⟨h.wf, h.perSec, h.latest_le, fun v => ?_⟩
      by_cases hv : v = w
      · subst hv
        obtain ⟨hl, ht, rfl⟩ : s.lock = some v ∧ Timely s now ∧ r = s.row := by
          simpa [PcOk, hpc] using h.pcOk v
        simp only [PcOk, Function.update_self]
        exact ⟨hl, now, ht, rfl⟩
      · exact (h.pcOk v).frame (Function.update_of_ne hv _ _) rfl id le_rfl
  | decrement w =>
      obtain ⟨r, hpc, rfl⟩ := next_decrement hs
      refine ⟨h.wf, h.perSec, h.latest_le, fun v => ?_⟩
      by_cases hv : v = w
      · subst hv
        obtain ⟨hl, now, ht, rfl⟩ : s.lock = some v ∧ ∃ now, Timely s now ∧
            r = s.row.refill now := by
          simpa [PcOk, hpc] using h.pcOk v
        simp only [PcOk, Function.update_self]
        exact ⟨hl, now, ht, rfl⟩
      · exact (h.pcOk v).frame (Function.update_of_ne hv _ _) rfl id le_rfl
  | commit w =>
      obtain ⟨g, r, hpc, rfl⟩ := next_commit hs
      obtain ⟨hl, now, ht, hr⟩ : s.lock = some w ∧ ∃ now, Timely s now ∧
          (g, r) = s.row.consume now := by
        simpa [PcOk, hpc] using h.pcOk w
      obtain rfl : g = (s.row.consume now).1 := congrArg Prod.fst hr
      obtain rfl : r = (s.row.consume now).2 := congrArg Prod.snd hr
      refine ⟨h.wf.consume, RateBucket.consume_configPerSec.trans h.perSec, h.latest_le,
        fun v => ?_⟩
      by_cases hv : v = w
      · subst hv
        simp [PcOk]
      · -- only the lock holder knows the old row, and `v` is not the holder
        have hother := h.pcOk v
        simp only [PcOk, Function.update_of_ne hv] at hother ⊢
        cases hvpc : s.pc v <;> rw [hvpc] at hother <;>
          simp_all

/-! ### In-order runs refine a credit account -/

/-- The committed row, read as an account. A row that does not accrue may see its
`last_refill_at` go back; its account then just stays where it is. -/
structure Follows (s : World ι) (a : Account ℚ) : Prop where
  credit : a.credit = s.row.tokens
  last : s.row.configPerSec = 0 ∨ a.last = s.row.lastRefillAt
  last_le : a.last ≤ s.latest
  spent : a.spent = s.granted

/-- The opening account of a row. -/
def opening (row : RateBucket) (hrow : row.Wf) : Account ℚ :=
  ⟨row.tokens, row.lastRefillAt, 0, hrow.tokens_nonneg⟩

omit [DecidableEq ι] in
/-- A timely refill of the row, as a payment into the account (or none, at rate zero). -/
theorem Follows.refill {a o : Account ℚ} {now : ℚ} (h : Follows s a) (hwf : s.row.Wf)
    (ht : Timely s now) :
    ∃ a', Relation.ReflTransGen (ledger s.row.configPerSec o).Move a a' ∧
      a'.credit = (s.row.refill now).tokens ∧ a'.spent = s.granted ∧ a'.last ≤ s.latest ∧
      (s.row.configPerSec = 0 ∨ a'.last = (s.row.refill now).lastRefillAt) := by
  by_cases hrate : s.row.configPerSec = 0
  · have hkeep : (s.row.refill now).tokens = s.row.tokens := by
      simp only [RateBucket.refill, hrate, computeRefill_zero_rate]
    exact ⟨a, .refl, hkeep ▸ h.credit, h.spent, h.last_le, .inl hrate⟩
  · have hlast : a.last = s.row.lastRefillAt := h.last.resolve_left hrate
    have hnow : s.row.lastRefillAt ≤ now := ht.2.resolve_left hrate
    obtain ⟨hle, hle', hpaid⟩ :=
      computeRefill_advance s.row.tokens s.row.configBurst s.row.configPerSec hnow
    -- a refill that is cut off at the burst pays in less than has accrued
    refine ⟨⟨(s.row.refill now).tokens, (s.row.refill now).lastRefillAt, s.granted,
      hwf.refill.tokens_nonneg⟩, .single (Account.accrue ?_ h.spent.symm ?_), rfl, rfl,
      hle'.trans ht.1, .inr rfl⟩
    · rw [hlast]
      exact hle
    · rw [hlast, h.credit]
      exact hpaid

omit [DecidableEq ι] in
/-- A committed transaction is a payment followed, when it granted, by a purchase. -/
theorem Follows.commit {a o : Account ℚ} {now : ℚ} (h : Follows s a) (hwf : s.row.Wf)
    (ht : Timely s now) :
    ∃ a', Relation.ReflTransGen (ledger s.row.configPerSec o).Move a a' ∧
      a'.credit = (s.row.consume now).2.tokens ∧
      a'.spent = s.granted + (s.row.consume now).1.toNat ∧ a'.last ≤ s.latest ∧
      (s.row.configPerSec = 0 ∨ a'.last = (s.row.consume now).2.lastRefillAt) := by
  obtain ⟨a₁, hmoves, hcredit, hspent, hlate, hlast⟩ := h.refill (o := o) hwf ht
  simp only [RateBucket.consume, RateBucket.decrement_lastRefillAt]
  rcases RateBucket.decrement_tokens (s.row.refill now) with ⟨hg, hone, htok⟩ | ⟨hg, -, hrow⟩
  · have hnonneg : 0 ≤ (s.row.refill now).tokens - 1 := by linarith
    have hspend : (ledger s.row.configPerSec o).Move a₁
        ⟨(s.row.refill now).tokens - 1, a₁.last, s.granted + 1, hnonneg⟩ :=
      Account.spend (by rw [hcredit]) rfl (by rw [hspent])
    refine ⟨_, hmoves.tail hspend, htok.symm, ?_, hlate, hlast⟩
    rw [hg]
    rfl
  · refine ⟨a₁, hmoves, ?_, ?_, hlate, hlast⟩
    · rw [hrow, hcredit]
    · rw [hg, hspent]
      rfl

theorem inOrder_inv (hrow : row.Wf) (h : ((consumers ι row).restrict InOrder).Reachable s) :
    Inv row s := by
  refine h.invariant ?_ ?_
  · intro s hs
    obtain ⟨clock, hclock, rfl⟩ := hs
    exact inv_start hrow hclock
  · intro s e s' _ hinv hs
    exact hinv.step hs.1 hs.2

/-- The run lemma: in-order runs are simulated by the account opened with the row. -/
theorem inOrder_simulation (hrow : row.Wf) :
    Simulation ((consumers ι row).restrict InOrder) (ledger row.configPerSec (opening row hrow))
      Follows where
  init s hs := by
    obtain ⟨clock, -, rfl⟩ := hs
    exact ⟨opening row hrow, rfl, ⟨rfl, .inr rfl, le_rfl, rfl⟩⟩
  step s e s' a hr ha hs := by
    have hinv := inOrder_inv hrow hr
    obtain ⟨hs, -⟩ := hs
    cases e with
    | tick t =>
        obtain ⟨-, rfl⟩ := next_tick hs
        exact ⟨a, .refl, ⟨ha.credit, ha.last, ha.last_le, ha.spent⟩⟩
    | readClock w =>
        obtain ⟨-, rfl⟩ := next_readClock hs
        exact ⟨a, .refl, ⟨ha.credit, ha.last, ha.last_le.trans hinv.latest_le, ha.spent⟩⟩
    | acquire w =>
        obtain ⟨now, -, -, rfl⟩ := next_acquire hs
        exact ⟨a, .refl, ⟨ha.credit, ha.last, ha.last_le, ha.spent⟩⟩
    | refill w =>
        obtain ⟨now, r, -, rfl⟩ := next_refill hs
        exact ⟨a, .refl, ⟨ha.credit, ha.last, ha.last_le, ha.spent⟩⟩
    | decrement w =>
        obtain ⟨r, -, rfl⟩ := next_decrement hs
        exact ⟨a, .refl, ⟨ha.credit, ha.last, ha.last_le, ha.spent⟩⟩
    | commit w =>
        obtain ⟨g, r, hpc, rfl⟩ := next_commit hs
        obtain ⟨-, now, ht, hout⟩ : s.lock = some w ∧ ∃ now, Timely s now ∧
            (g, r) = s.row.consume now := by
          simpa [PcOk, hpc] using hinv.pcOk w
        obtain rfl : g = (s.row.consume now).1 := congrArg Prod.fst hout
        obtain rfl : r = (s.row.consume now).2 := congrArg Prod.snd hout
        obtain ⟨a', hmoves, hcredit, hspent, hlate, hlast⟩ :=
          ha.commit (o := opening row hrow) hinv.wf ht
        rw [hinv.perSec] at hmoves
        refine ⟨a', hmoves, hcredit, ?_, hlate, hspent⟩
        rwa [RateBucket.consume_configPerSec]

/-! ### Runs that take the lock out of order -/

theorem reachable_tick (h : (consumers ι row).Reachable s) {t : ℚ} (ht : s.clock ≤ t) :
    (consumers ι row).Reachable { s with clock := t } :=
  h.step (a := .tick t) (if_pos ht)

/-- One worker, alone with the row, goes from its clock reading to the commit. -/
theorem reachable_consume (h : (consumers ι row).Reachable s) (hlock : s.lock = none) {w : ι}
    {now : ℚ} (hpc : s.pc w = .clockRead now) :
    (consumers ι row).Reachable { s with
      row := (s.row.consume now).2, pc := Function.update s.pc w .idle
      granted := s.granted + (s.row.consume now).1.toNat } := by
  refine h.exec [.acquire w, .refill w, .decrement w, .commit w] ?_
  simp only [Lts.exec, World.next, hpc, hlock, Option.bind_some, Function.update_self,
    Function.update_idem, RateBucket.consume]

/-- The same, when the worker also reads the clock first: it is idle before and after. -/
theorem reachable_readClock_consume (h : (consumers ι row).Reachable s) (hlock : s.lock = none)
    {w : ι} (hpc : s.pc w = .idle) :
    (consumers ι row).Reachable { s with
      latest := s.clock, row := (s.row.consume s.clock).2
      granted := s.granted + (s.row.consume s.clock).1.toNat } := by
  refine h.exec [.readClock w, .acquire w, .refill w, .decrement w, .commit w] ?_
  simp only [Lts.exec, World.next, hpc, hlock, Option.bind_some, Function.update_self,
    Function.update_idem, RateBucket.consume]
  rw [← hpc, Function.update_eq_self]

/-- An undisturbed call is the repository's `consume` on the table the row is in. -/
theorem reachable_repository_consume (repo : RateBucketRepository)
    (h : (consumers ι row).Reachable s) (hlock : s.lock = none) {w : ι} (hpc : s.pc w = .idle)
    {table : List RateBucket} (hkeys : (table.map RateBucket.keyId).Nodup) (hrow : s.row ∈ table)
    (freshId : String) :
    let out := repo.consume table freshId s.row.keyId s.clock
    (consumers ι row).Reachable { s with
      latest := s.clock, row := out.2.1, granted := s.granted + out.1.toNat } := by
  intro out
  have hout := repo.consume_of_mem hkeys hrow freshId s.clock
  show (consumers ι row).Reachable { s with
    latest := s.clock, row := (repo.consume table freshId s.row.keyId s.clock).2.1
    granted := s.granted + (repo.consume table freshId s.row.keyId s.clock).1.toNat }
  rw [hout]
  exact reachable_readClock_consume h hlock hpc

/-- The first `m` workers have read the clock and nobody has taken the lock. -/
theorem reachable_stale (row : RateBucket) (m : ℕ) :
    (consumers ℕ row).Reachable { World.start row row.lastRefillAt with
      pc := fun v => if v < m then .clockRead row.lastRefillAt else .idle } := by
  induction m with
  | zero => exact .init ⟨row.lastRefillAt, le_rfl, by simp [World.start]⟩
  | succ m ih =>
      refine ih.exec [.readClock m] ?_
      simp only [Lts.exec, World.next, World.start, lt_irrefl, if_false, Option.bind_some,
        Option.some.injEq, World.mk.injEq, true_and, and_true]
      funext v
      by_cases hv : v = m
      · subst hv
        simp
      · rw [Function.update_of_ne hv]
        congr 1
        simp only [eq_iff_iff]
        omega

/-- After `i` rounds of `m`: a worker with a new clock reading was granted in each of them, and
a worker with the old reading then put `last_refill_at` back for the next. -/
structure Round (row : RateBucket) (m i : ℕ) (s : World ℕ) : Prop where
  reachable : (consumers ℕ row).Reachable s
  lock : s.lock = none
  clock : s.clock = row.lastRefillAt + row.configPerSec⁻¹
  latest_le : s.latest ≤ s.clock
  pc : s.pc = fun v => if i ≤ v ∧ v < m then .clockRead row.lastRefillAt else .idle
  last : s.row.lastRefillAt = row.lastRefillAt
  tokens_nonneg : 0 ≤ s.row.tokens
  burst : s.row.configBurst = row.configBurst
  perSec : s.row.configPerSec = row.configPerSec
  granted : i ≤ s.granted

theorem Round.zero (hrow : row.Wf) (hrate : 0 < row.configPerSec) (m : ℕ) :
    ∃ s, Round row m 0 s := by
  have hd : 0 < row.configPerSec⁻¹ := inv_pos.mpr hrate
  have hle : row.lastRefillAt ≤ row.lastRefillAt + row.configPerSec⁻¹ := by linarith
  have htick := reachable_tick (reachable_stale row m) hle
  refine ⟨_, htick, rfl, rfl, hle, ?_, rfl, hrow.tokens_nonneg, rfl, rfl, Nat.zero_le _⟩
  funext v
  simp

/-- A bucket last refilled at `t` is granted a token once `d` has passed, and a reading from `t`
then rewinds it. -/
theorem consume_twice {r : RateBucket} {t d : ℚ} (hlast : r.lastRefillAt = t) (hd : 0 < d)
    (hdue : d * r.configPerSec = 1) (hburst : 1 ≤ r.configBurst) (htok : 0 ≤ r.tokens) :
    (r.consume (t + d)).1 = true ∧ (((r.consume (t + d)).2).consume t).2.lastRefillAt = t ∧
      0 ≤ (((r.consume (t + d)).2).consume t).2.tokens := by
  have hb : (1 : ℚ) ≤ r.configBurst := by exact_mod_cast hburst
  have hdue' : (t + d - t) * r.configPerSec = 1 := by rwa [add_sub_cancel_left]
  have hrefill : computeRefill r.tokens t (t + d) r.configBurst r.configPerSec =
      (min (r.configBurst : ℚ) (r.tokens + 1), t + d) := by
    rw [computeRefill_of_pos (by linarith) (by rw [hdue']; exact one_pos), hdue']
  have hone : 1 ≤ min (r.configBurst : ℚ) (r.tokens + 1) := le_min hb (by linarith)
  have hfirst : r.consume (t + d) = (true, { r with
      tokens := min (r.configBurst : ℚ) (r.tokens + 1) - 1, lastRefillAt := t + d }) := by
    simp only [RateBucket.consume, RateBucket.refill, RateBucket.decrement, hlast, hrefill]
    rw [if_pos hone]
  rw [hfirst]
  refine ⟨rfl, ?_, ?_⟩
  · simp only [RateBucket.consume, RateBucket.decrement_lastRefillAt, RateBucket.refill]
    rw [computeRefill_of_le (by linarith)]
  · simp only [RateBucket.consume]
    rcases RateBucket.decrement_tokens (RateBucket.refill { r with
      tokens := min (r.configBurst : ℚ) (r.tokens + 1) - 1, lastRefillAt := t + d } t) with
      ⟨-, h1, ht⟩ | ⟨-, -, hr⟩
    · rw [ht]
      linarith
    · rw [hr, RateBucket.refill, computeRefill_of_le (by simp only; linarith)]
      simp only
      linarith

theorem Round.succ (hburst : 1 ≤ row.configBurst) (hrate : 0 < row.configPerSec) {m i : ℕ}
    {s : World ℕ} (hi : i < m) (h : Round row m i s) : ∃ s', Round row m (i + 1) s' := by
  have hd : 0 < row.configPerSec⁻¹ := inv_pos.mpr hrate
  obtain ⟨hgrant, hlast, htok⟩ := consume_twice h.last hd
    (by rw [h.perSec, inv_mul_cancel₀ hrate.ne']) (by rw [h.burst]; exact hburst) h.tokens_nonneg
  -- worker `m` reads the clock and is granted
  have hfirst := reachable_readClock_consume h.reachable h.lock (w := m) (by simp [h.pc])
  -- worker `i` commits with the reading it took before the clock moved
  have hpc : s.pc i = .clockRead row.lastRefillAt := by simp [h.pc, hi]
  have hsecond := reachable_consume hfirst h.lock hpc
  rw [← h.clock] at hgrant hlast htok
  refine ⟨_, hsecond, h.lock, h.clock, le_rfl, ?_, hlast, htok, ?_, ?_, ?_⟩
  · funext v
    by_cases hv : v = i
    · subst hv
      simp
    · simp only [Function.update_of_ne hv, h.pc]
      congr 1
      simp only [eq_iff_iff]
      omega
  · simpa only [RateBucket.consume_configBurst] using h.burst
  · simpa only [RateBucket.consume_configPerSec] using h.perSec
  · have := h.granted
    simp only [hgrant, Bool.toNat_true]
    omega

theorem exists_round (hrow : row.Wf) (hburst : 1 ≤ row.configBurst)
    (hrate : 0 < row.configPerSec) (m : ℕ) : ∀ i ≤ m, ∃ s, Round row m i s := by
  intro i
  induction i with
  | zero => intro _; exact Round.zero hrow hrate m
  | succ i ih =>
      intro hi
      obtain ⟨s, hs⟩ := ih (by omega)
      exact hs.succ hburst hrate hi

/-- Enough workers with an old clock reading admit more than the allowance. -/
theorem over_admits (hrow : row.Wf) (hburst : 1 ≤ row.configBurst)
    (hrate : 0 < row.configPerSec) : ¬ NeverOverAdmits ℕ row := by
  intro hnever
  -- one round for each token of the allowance, and one more
  obtain ⟨m, hm⟩ := exists_nat_gt (row.tokens + 1)
  obtain ⟨s, hs⟩ := exists_round hrow hburst hrate m m le_rfl
  have hbound := hnever s hs.reachable
  have hpaid : row.configPerSec * (s.latest - row.lastRefillAt) ≤ 1 := by
    calc row.configPerSec * (s.latest - row.lastRefillAt)
        ≤ row.configPerSec * row.configPerSec⁻¹ :=
          mul_le_mul_of_nonneg_left (by linarith [hs.latest_le, hs.clock]) hrate.le
      _ = 1 := mul_inv_cancel₀ hrate.ne'
  have hgranted : (m : ℚ) ≤ s.granted := by exact_mod_cast hs.granted
  unfold allowance at hbound
  linarith

/-! ### Rows that never accrue -/

/-- No copy of the row holds a token, and no decision taken is a grant. -/
structure Drained (s : World ι) : Prop where
  granted : s.granted = 0
  row : s.row.configBurst = 0 ∧ s.row.tokens ≤ 0
  copies : ∀ w, match s.pc w with
    | .idle | .clockRead _ => True
    | .locked _ r | .refilled r => r.configBurst = 0 ∧ r.tokens ≤ 0
    | .decremented g r => g = false ∧ r.configBurst = 0 ∧ r.tokens ≤ 0

theorem Drained.step {e : Event ι} (h : Drained s) (hs : s.next e = some s') : Drained s' := by
  -- only the worker that steps changes its copy, to one that is drained again
  have hcopies : ∀ (w : ι) (p : Pc), (match p with
      | .idle | .clockRead _ => True
      | .locked _ r | .refilled r => r.configBurst = 0 ∧ r.tokens ≤ 0
      | .decremented g r => g = false ∧ r.configBurst = 0 ∧ r.tokens ≤ 0) →
      ∀ v, match Function.update s.pc w p v with
        | .idle | .clockRead _ => True
        | .locked _ r | .refilled r => r.configBurst = 0 ∧ r.tokens ≤ 0
        | .decremented g r => g = false ∧ r.configBurst = 0 ∧ r.tokens ≤ 0 := by
    intro w p hp v
    by_cases hv : v = w
    · subst hv
      rw [Function.update_self]
      exact hp
    · rw [Function.update_of_ne hv]
      exact h.copies v
  cases e with
  | tick t =>
      obtain ⟨-, rfl⟩ := next_tick hs
      exact ⟨h.granted, h.row, h.copies⟩
  | readClock w =>
      obtain ⟨-, rfl⟩ := next_readClock hs
      exact ⟨h.granted, h.row, hcopies w (.clockRead _) trivial⟩
  | acquire w =>
      obtain ⟨now, -, -, rfl⟩ := next_acquire hs
      exact ⟨h.granted, h.row, hcopies w (.locked now s.row) h.row⟩
  | refill w =>
      obtain ⟨now, r, hpc, rfl⟩ := next_refill hs
      have hr : r.configBurst = 0 ∧ r.tokens ≤ 0 := by simpa [hpc] using h.copies w
      refine ⟨h.granted, h.row, hcopies w (.refilled (r.refill now)) ⟨hr.1, ?_⟩⟩
      -- at burst zero a refill ends at zero or where it was
      refine computeRefill_le_max.trans ?_
      rw [hr.1]
      simpa using hr.2
  | decrement w =>
      obtain ⟨r, hpc, rfl⟩ := next_decrement hs
      have hr : r.configBurst = 0 ∧ r.tokens ≤ 0 := by simpa [hpc] using h.copies w
      refine ⟨h.granted, h.row, hcopies w (.decremented r.decrement.1 r.decrement.2) ?_⟩
      rcases RateBucket.decrement_tokens r with ⟨-, hone, -⟩ | ⟨hg, -, hrow⟩
      · linarith [hr.2]
      · rw [hrow]
        exact ⟨hg, hr⟩
  | commit w =>
      obtain ⟨g, r, hpc, rfl⟩ := next_commit hs
      have hr : g = false ∧ r.configBurst = 0 ∧ r.tokens ≤ 0 := by simpa [hpc] using h.copies w
      refine ⟨?_, hr.2, hcopies w .idle trivial⟩
      rw [hr.1, h.granted]
      rfl

/-- A row without capacity has no token and gains none, so nothing is ever granted. -/
theorem granted_of_no_burst (hrow : row.Wf) (hburst : row.configBurst = 0)
    (h : (consumers ι row).Reachable s) : s.granted = 0 := by
  have htok : row.tokens ≤ 0 := by
    have := hrow.tokens_le
    rwa [hburst] at this
  have hdrained : Drained s := by
    refine h.invariant ?_ (fun _ _ _ _ hd hs => hd.step hs)
    intro s hs
    obtain ⟨clock, -, rfl⟩ := hs
    exact ⟨rfl, ⟨hburst, htok⟩, fun _ => trivial⟩
  exact hdrained.granted

/-- At rate zero every run is in order. -/
theorem inOrder_of_no_rate (hrow : row.Wf) (hrate : row.configPerSec = 0)
    (h : (consumers ι row).Reachable s) : ((consumers ι row).restrict InOrder).Reachable s := by
  induction h with
  | init hi => exact .init hi
  | step _ hs ih =>
      have hperSec := (inOrder_inv hrow ih).perSec
      refine .step ih ⟨hs, ?_⟩
      unfold InOrder
      split
      · exact fun _ _ => .inl (hperSec.trans hrate)
      · trivial

/-! ### Main results -/

theorem granted_le_of_inOrder (hrow : row.Wf)
    (h : ((consumers ι row).restrict InOrder).Reachable s) :
    (s.granted : ℚ) ≤ allowance row s := by
  obtain ⟨a, ha, hfollows⟩ := (inOrder_simulation hrow).reachable h
  have hbound := Account.spent_le ha
  have hpaid : row.configPerSec * (a.last - row.lastRefillAt) ≤
      row.configPerSec * (s.latest - row.lastRefillAt) :=
    mul_le_mul_of_nonneg_left (sub_le_sub_right hfollows.last_le _) hrow.perSec_nonneg
  rw [hfollows.spent] at hbound
  simp only [opening, Nat.cast_zero, add_zero] at hbound
  exact hbound.trans (add_le_add_right hpaid _)

/-- Readings only come in at or after the row's `last_refill_at`. -/
theorem latest_ge (h : (consumers ι row).Reachable s) : row.lastRefillAt ≤ s.latest := by
  have hboth : row.lastRefillAt ≤ s.latest ∧ s.latest ≤ s.clock := by
    refine h.invariant (I := fun s => row.lastRefillAt ≤ s.latest ∧ s.latest ≤ s.clock) ?_ ?_
    · intro s hs
      obtain ⟨clock, hclock, rfl⟩ := hs
      exact ⟨le_rfl, hclock⟩
    · intro s e s' _ ih hs
      cases e with
      | tick t =>
          obtain ⟨ht, rfl⟩ := next_tick hs
          exact ⟨ih.1, ih.2.trans ht⟩
      | readClock w =>
          obtain ⟨-, rfl⟩ := next_readClock hs
          exact ⟨ih.1.trans ih.2, le_rfl⟩
      | acquire w => obtain ⟨_, -, -, rfl⟩ := next_acquire hs; exact ih
      | refill w => obtain ⟨_, _, -, rfl⟩ := next_refill hs; exact ih
      | decrement w => obtain ⟨_, -, rfl⟩ := next_decrement hs; exact ih
      | commit w => obtain ⟨_, _, -, rfl⟩ := next_commit hs; exact ih
  exact hboth.1

/-- **Over-admission of the stored bucket.** In every run in which each transaction takes the
lock with a clock reading no older than the row's `last_refill_at` (or the row does not accrue),
every state reached has granted at most the initial tokens plus the accrual since then. Over all
interleavings of unboundedly many workers this holds exactly for the rows that never accrue
anything: rate zero or capacity zero. -/
theorem workers_within_allowance (hrow : row.Wf) :
    (∀ s : World ι, ((consumers ι row).restrict InOrder).Reachable s →
      (s.granted : ℚ) ≤ allowance row s) ∧
    (NeverOverAdmits ℕ row ↔ row.configPerSec = 0 ∨ row.configBurst = 0) := by
  refine ⟨fun s h => granted_le_of_inOrder hrow h, ?_, ?_⟩
  · intro h
    by_contra hne
    obtain ⟨hr, hb⟩ := not_or.mp hne
    have hb0 : (0 : ℚ) ≤ row.configBurst := hrow.tokens_nonneg.trans hrow.tokens_le
    have hb1 : 0 ≤ row.configBurst := by exact_mod_cast hb0
    exact over_admits hrow (by omega) (lt_of_le_of_ne hrow.perSec_nonneg (Ne.symm hr)) h
  · intro h s hs
    rcases h with h | h
    · exact granted_le_of_inOrder hrow (inOrder_of_no_rate hrow h hs)
    · rw [granted_of_no_burst hrow h hs, Nat.cast_zero, allowance]
      exact add_nonneg hrow.tokens_nonneg
        (mul_nonneg hrow.perSec_nonneg (sub_nonneg.mpr (latest_ge hs)))

/-- A row with one token, one token of capacity and one token per second. -/
def singleToken : RateBucket := ⟨"row", "key", 1, 0, 1, 1⟩

/-- The five steps of one undisturbed `consume`, without its clock reading. -/
def transaction (w : ι) : List (Event ι) := [.acquire w, .refill w, .decrement w, .commit w]

/-- At second zero worker 0 is granted and worker 1 reads the clock; at second one worker 2 is
granted, worker 1 commits with its old reading, and worker 0 is granted again. -/
def lateCommit : List (Event (Fin 3)) :=
  [.readClock 0] ++ transaction 0 ++ [.readClock 1, .tick 1, .readClock 2] ++ transaction 2 ++
    transaction 1 ++ [.readClock 0] ++ transaction 0

theorem workers_over_admit : ¬ NeverOverAdmits (Fin 3) singleToken := by
  intro h
  have hrun : ((Lts.exec World.next (World.start singleToken 0) lateCommit).map
      fun s => decide (allowance singleToken s < s.granted)) = some true := by
    decide +kernel
  obtain ⟨s, hs, hover⟩ := Option.map_eq_some_iff.mp hrun
  have hreach : (consumers (Fin 3) singleToken).Reachable s :=
    Lts.Reachable.exec (.init ⟨0, le_rfl, rfl⟩) lateCommit hs
  exact absurd (h s hreach) (not_le.mpr (of_decide_eq_true hover))

theorem workers_within_allowance_singleToken :
    (∀ s : World (Fin 3), ((consumers (Fin 3) singleToken).restrict InOrder).Reachable s →
      (s.granted : ℚ) ≤ allowance singleToken s) ∧
    (NeverOverAdmits ℕ singleToken ↔
      singleToken.configPerSec = 0 ∨ singleToken.configBurst = 0) :=
  workers_within_allowance ⟨by decide +kernel, by decide +kernel, by decide +kernel⟩

end RateBucketLock

end Taskq
