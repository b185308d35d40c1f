import Mathlib.Init

/-!
# Taskq.Lib.Transaction

Transactions over a durable store.

A `Body` is what runs inside a session: it reads and stages writes on its own copy
of the store, and may raise. A `Call` is what its caller sees: an outcome and the
durable store afterwards, also when the call raised. `transaction` makes a call of
a body: the staged writes become durable when the body ends and the commit
succeeds, and nothing does otherwise.

One transaction is all or nothing (`transaction_cases`); a sequence of two is not,
since the first one's writes are durable when the second one raises (`seq_of_error`,
`seq_of_ok`).
-/

namespace Transaction

variable {σ ε α β : Type*}

/-- What runs inside a session: a copy of the store goes in, and either the staged
store comes out or the body raises. -/
abbrev Body (σ ε α : Type*) := σ → Except ε (α × σ)

/-- What a caller sees: the outcome, and the durable store afterwards. -/
abbrev Call (σ ε α : Type*) := σ → Except ε α × σ

/-- What goes wrong around a body: its statements, or the commit, raise. -/
structure Faults (ε : Type*) where
  statement : Option ε
  commit : Option ε
  deriving DecidableEq

/-- Nothing goes wrong. -/
def Faults.none : Faults ε where
  statement := Option.none
  commit := Option.none

/-- Open a session, run `body` in it, commit; closing the session discards what was
not committed. -/
def transaction (faults : Faults ε) (body : Body σ ε α) : Call σ ε α := fun s =>
  match faults.statement with
  | some e => (.error e, s)
  | none =>
      match body s with
      | .error e => (.error e, s)
      | .ok (a, s') =>
          match faults.commit with
          | some e => (.error e, s)
          | none => (.ok a, s')

/-- One call after another; the second one runs when the first one returned. -/
def seq (c : Call σ ε α) (d : Call σ ε β) : Call σ ε β := fun s =>
  match c s with
  | (.error e, s') => (.error e, s')
  | (.ok _, s') => d s'

/-- **One transaction is all or nothing**: it raises and the store is as it was, or it
returns and the body's writes are durable. -/
theorem transaction_cases (faults : Faults ε) (body : Body σ ε α) (s : σ) :
    (∃ e, transaction faults body s = (.error e, s)) ∨
      ∃ a s', faults = Faults.none ∧ body s = .ok (a, s') ∧
        transaction faults body s = (.ok a, s') := by
  rcases faults with ⟨statement, commit⟩
  unfold transaction
  cases statement with
  | some e => exact Or.inl ⟨e, rfl⟩
  | none =>
      cases hbody : body s with
      | error e => exact Or.inl ⟨e, rfl⟩
      | ok r =>
          cases commit with
          | some e => exact Or.inl ⟨e, rfl⟩
          | none => exact Or.inr ⟨r.1, r.2, rfl, rfl, rfl⟩

/-- With no fault, a body that returns makes its writes durable. -/
theorem transaction_ok {body : Body σ ε α} {s s' : σ} {a : α} (h : body s = .ok (a, s')) :
    transaction Faults.none body s = (.ok a, s') := by
  simp [transaction, Faults.none, h]

theorem transaction_error {body : Body σ ε α} {s : σ} {e : ε} (h : body s = .error e) :
    transaction Faults.none body s = (.error e, s) := by
  simp [transaction, Faults.none, h]

/-- A transaction around which something goes wrong leaves the store as it was. -/
theorem transaction_fault {faults : Faults ε} (h : faults ≠ Faults.none) (body : Body σ ε α)
    (s : σ) : ∃ e, transaction faults body s = (.error e, s) := by
  rcases transaction_cases faults body s with he | ⟨a, s', hnone, -⟩
  · exact he
  · exact absurd hnone h

theorem seq_of_error {c : Call σ ε α} {d : Call σ ε β} {s s' : σ} {e : ε}
    (h : c s = (.error e, s')) : seq c d s = (.error e, s') := by
  simp [seq, h]

theorem seq_of_ok {c : Call σ ε α} {d : Call σ ε β} {s s' : σ} {a : α}
    (h : c s = (.ok a, s')) : seq c d s = d s' := by
  simp [seq, h]

end Transaction
