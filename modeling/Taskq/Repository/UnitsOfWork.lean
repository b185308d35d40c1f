import Mathlib.Data.List.Count
import Taskq.Lib.ContextManager

/-!
# Taskq.Repository.UnitsOfWork

`unit_of_work` (`repository/units_of_work.py`).

One session for each `with` statement. Writes are staged in the session; a commit makes
them durable, and a failing one writes nothing. Around any body, and whatever of commit,
rollback and close goes wrong, the statement does to the store what one `transaction`
does (`unitOfWork_atomic`).
-/

namespace Taskq.UnitOfWork

open ContextManager Transaction

/-! ### Sessions -/

/-- What is called on a session. -/
inductive SessionCall
  | commit
  | rollback
  | close
  deriving DecidableEq, Repr

/-- An `Exception`. -/
abbrev Failure := { e : Exc // e.isException = true }

/-- What goes wrong with a session: which of its methods raises, and what. -/
structure SessionFaults where
  commit : Option Failure
  rollback : Option Failure
  close : Option Failure

section Session

variable {ω σ : Type*}

/-- The durable store, what the open session has staged, and what was called on it. -/
structure World (ω σ : Type*) where
  store : σ
  staged : List ω
  calls : List SessionCall

/-- What is staged is forgotten. -/
def World.discard (s : World ω σ) : World ω σ := { s with staged := [] }

/-- `session.add(w)`. -/
def add (w : ω) : Call (World ω σ) Exc Unit := fun s =>
  (.ok (), { s with staged := s.staged ++ [w] })

/-- A method of the session: it raises, or has its effect. -/
def method (call : SessionCall) (failure : Option Failure) (effect : World ω σ → World ω σ) :
    Call (World ω σ) Exc Unit := fun s =>
  let s := { s with calls := s.calls ++ [call] }
  match failure with
  | some e => (.error e, s)
  | none => (.ok (), effect s)

variable (apply : ω → σ → σ)

/-- The store with some writes applied to it, one after the other. -/
def applyAll (writes : List ω) (store : σ) : σ := writes.foldl (fun store w => apply w store) store

/-- `session.commit()`. -/
def commit (faults : SessionFaults) : Call (World ω σ) Exc Unit :=
  method .commit faults.commit fun s =>
    { s with store := applyAll apply s.staged s.store, staged := [] }

/-- `session.rollback()`. -/
def rollback (faults : SessionFaults) : Call (World ω σ) Exc Unit :=
  method .rollback faults.rollback World.discard

/-- `session.close()`. -/
def close (faults : SessionFaults) : Call (World ω σ) Exc Unit :=
  method .close faults.close World.discard

/-- `except (Exception, asyncio.CancelledError)`. -/
def caught (e : Exc) : Bool := e.isException ∨ e.cls = .cancelledError

/-- `unit_of_work`. -/
def unitOfWork (faults : SessionFaults) : Generator (World ω σ) Unit where
  enter := fun s => (.ok (), s.discard)
  resume thrown :=
    tryFinally
      (tryExcept
        (match thrown with
          | none => commit apply faults
          | some e => raising e)
        caught fun e => seq (suppressing (rollback faults)) (raising e))
      (suppressing (close faults))

/-! ### Bodies -/

/-- The body of a `with` statement, as far as it runs: writes, and how it ends. -/
inductive Body (ω : Type*)
  | done
  | raise (e : Exc)
  | write (w : ω) (rest : Body ω)

namespace Body

/-- What is staged. -/
def writes : Body ω → List ω
  | .done | .raise _ => []
  | .write w rest => w :: rest.writes

/-- What is raised, if anything. -/
def raised : Body ω → Option Exc
  | .done => none
  | .raise e => some e
  | .write _ rest => rest.raised

def run : Body ω → Call (World ω σ) Exc Unit
  | .done => pass
  | .raise e => raising e
  | .write w rest => seq (add w) rest.run

/-- The body as what one transaction runs. -/
def transacted (apply : ω → σ → σ) (b : Body ω) : Transaction.Body σ Exc Unit := fun store =>
  match b.raised with
  | some e => .error e
  | none => .ok ((), applyAll apply b.writes store)

end Body

end Session

/-! ### What a session keeps -/

section Exit

variable {ω σ : Type*} {apply : ω → σ → σ} {faults : SessionFaults}

/-- Nothing has become durable, and the session was not closed. -/
structure Kept (s s' : World ω σ) : Prop where
  store : s'.store = s.store
  closed : s'.calls.count .close = s.calls.count .close

/-- A rollback or a close, with what it raises suppressed. -/
theorem suppressing_method (call : SessionCall) (failure : Option Failure) (s : World ω σ) :
    ∃ s', suppressing (method call failure World.discard) s = (.ok (), s') ∧ s'.store = s.store ∧
      s'.calls = s.calls ++ [call] := by
  have hraised : ∀ e, (method call failure World.discard s).1 = .error e →
      e.isException = true := by
    intro e he
    cases failure with
    | none => cases he
    | some failure =>
        cases he
        exact failure.2
  refine ⟨_, suppressing_eq hraised, ?_⟩
  cases failure <;> exact ⟨rfl, rfl⟩

/-- The handler of `unit_of_work` lets every exception through, whether it rolls back or
does not take it. -/
theorem tryExcept_raised (faults : SessionFaults) {c : Call (World ω σ) Exc Unit} {e : Exc}
    {s s₁ : World ω σ} (h : c s = (.error e, s₁)) :
    ∃ s₂, tryExcept c caught (fun e => seq (suppressing (rollback faults)) (raising e)) s
      = (.error e, s₂) ∧ Kept s₁ s₂ := by
  simp only [tryExcept, h]
  split_ifs
  · obtain ⟨s₂, hrollback, hstore, hcalls⟩ := suppressing_method .rollback faults.rollback s₁
    refine ⟨s₂, seq_of_ok hrollback, hstore, ?_⟩
    rw [hcalls, List.count_append]
    rfl
  · exact ⟨s₁, rfl, rfl, rfl⟩

/-- The session is closed, and nothing else happens to what came before. -/
theorem tryFinally_close (faults : SessionFaults) {c : Call (World ω σ) Exc Unit}
    {r : Except Exc Unit} {s s₁ : World ω σ} (h : c s = (r, s₁)) :
    ∃ s₂, tryFinally c (suppressing (close faults)) s = (r, s₂) ∧ s₂.store = s₁.store ∧
      s₂.calls.count .close = s₁.calls.count .close + 1 := by
  obtain ⟨s₂, hclose, hstore, hcalls⟩ := suppressing_method .close faults.close s₁
  refine ⟨s₂, ?_, hstore, ?_⟩
  · have hok : (suppressing (close faults) (c s).2).1 = .ok () := by
      rw [h]
      exact congrArg Prod.fst hclose
    rw [tryFinally_eq hok, h]
    exact congrArg (Prod.mk r) (congrArg Prod.snd hclose)
  · rw [hcalls, List.count_append]
    rfl

/-- What the generator is resumed with, or what its commit raises, it lets through. -/
theorem resume_raised {thrown : Option Exc} {e : Exc} {s s₁ : World ω σ}
    (h : (match thrown with
      | none => commit apply faults
      | some e => raising e) s = (.error e, s₁)) :
    ∃ s₂, (unitOfWork apply faults).resume thrown s = (.error e, s₂) ∧ s₂.store = s₁.store ∧
      s₂.calls.count .close = s₁.calls.count .close + 1 := by
  obtain ⟨s₂, hexcept, hkept⟩ := tryExcept_raised faults h
  obtain ⟨s₃, hfinally, hstore, hclosed⟩ := tryFinally_close faults hexcept
  exact ⟨s₃, hfinally, hstore.trans hkept.store, by rw [hclosed, hkept.closed]⟩

theorem Body.run_eq (b : Body ω) : ∀ s : World ω σ,
    b.run s = (match b.raised with
      | none => .ok ()
      | some e => .error e, { s with staged := s.staged ++ b.writes }) := by
  induction b with
  | done => intro s; simp [run, ContextManager.pass, raised, writes]
  | raise e => intro s; simp [run, raising, raised, writes]
  | write w rest ih =>
      intro s
      have hadd : add w s = (.ok (), { s with staged := s.staged ++ [w] }) := rfl
      rw [run, seq_of_ok hadd, ih]
      simp [raised, writes]

/-! ### Every exit -/

/-- `with unit_of_work() as session: ..`. -/
def withUnitOfWork (apply : ω → σ → σ) (faults : SessionFaults) (b : Body ω) :
    Call (World ω σ) Exc Unit :=
  withStatement (unitOfWork apply faults) fun _ => b.run

theorem withUnitOfWork_eq (b : Body ω) (s : World ω σ) :
    withUnitOfWork apply faults b s =
      (unitOfWork apply faults).exit b.raised
        { store := s.store, staged := b.writes, calls := s.calls } := by
  have hrun := b.run_eq s.discard
  have henter : (unitOfWork apply faults).enter s = (.ok (), s.discard) := rfl
  simp only [withUnitOfWork, withStatement, henter, hrun]
  cases b.raised <;> rfl

/-- A body that raises. -/
theorem withUnitOfWork_raised {b : Body ω} {e : Exc} (h : b.raised = some e) (s : World ω σ) :
    ∃ s', withUnitOfWork apply faults b s = (.error e, s') ∧ s'.store = s.store ∧
      s'.calls.count .close = s.calls.count .close + 1 := by
  obtain ⟨s', hresume, hstore, hclosed⟩ := @resume_raised ω σ apply faults (some e) e
    { store := s.store, staged := b.writes, calls := s.calls } _ rfl
  refine ⟨s', ?_, hstore, hclosed⟩
  rw [withUnitOfWork_eq, h]
  exact exit_raised hresume

/-- A body that ends, and a commit that fails. -/
theorem withUnitOfWork_commit_failed {b : Body ω} {e : Failure} (h : b.raised = none)
    (hcommit : faults.commit = some e) (s : World ω σ) :
    ∃ s', withUnitOfWork apply faults b s = (.error e.val.leaving, s') ∧ s'.store = s.store ∧
      s'.calls.count .close = s.calls.count .close + 1 := by
  have hraised : commit apply faults { store := s.store, staged := b.writes, calls := s.calls } =
      (.error e, { store := s.store, staged := b.writes, calls := s.calls ++ [.commit] }) := by
    rw [commit, hcommit]
    rfl
  obtain ⟨s', hresume, hstore, hclosed⟩ := @resume_raised ω σ apply faults none _ _ _ hraised
  refine ⟨s', ?_, hstore, ?_⟩
  · rw [withUnitOfWork_eq, h]
    exact exit_ended hresume
  · rw [hclosed, List.count_append]
    rfl

/-- A body that ends, and a commit that succeeds. -/
theorem withUnitOfWork_committed {b : Body ω} (h : b.raised = none) (hcommit : faults.commit = none)
    (s : World ω σ) :
    ∃ s', withUnitOfWork apply faults b s = (.ok (), s') ∧
      s'.store = applyAll apply b.writes s.store ∧
      s'.calls.count .close = s.calls.count .close + 1 := by
  have hok : commit apply faults { store := s.store, staged := b.writes, calls := s.calls } =
      (.ok (), { store := applyAll apply b.writes s.store, staged := []
                 calls := s.calls ++ [.commit] }) := by
    rw [commit, hcommit]
    rfl
  obtain ⟨s', hresume, hstore, hclosed⟩ := tryFinally_close faults
    (tryExcept_ok hok caught fun e => seq (suppressing (rollback faults)) (raising e))
  refine ⟨s', ?_, hstore, ?_⟩
  · rw [withUnitOfWork_eq, h]
    exact exit_returned hresume
  · rw [hclosed, List.count_append]
    rfl

/-- **A unit of work does to the store what one transaction does**, its commit failing
with what leaves the generator. -/
theorem withUnitOfWork_transaction (b : Body ω) (s : World ω σ) :
    ((withUnitOfWork apply faults b s).1, (withUnitOfWork apply faults b s).2.store) =
      transaction { statement := none, commit := faults.commit.map fun e => e.val.leaving }
        (b.transacted apply) s.store := by
  cases hraised : b.raised with
  | some e =>
      obtain ⟨s', hrun, hstore, -⟩ := @withUnitOfWork_raised ω σ apply faults b e hraised s
      simp [hrun, hstore, transaction, Body.transacted, hraised]
  | none =>
      cases hcommit : faults.commit with
      | none =>
          obtain ⟨s', hrun, hstore, -⟩ :=
            @withUnitOfWork_committed ω σ apply faults b hraised hcommit s
          simp [hrun, hstore, transaction, Body.transacted, hraised]
      | some e =>
          obtain ⟨s', hrun, hstore, -⟩ :=
            @withUnitOfWork_commit_failed ω σ apply faults b e hraised hcommit s
          simp [hrun, hstore, transaction, Body.transacted, hraised]

end Exit

/-- A unit of work that does nothing, and a commit that raises `StopIteration`. -/
theorem stopIteration_is_replaced : ¬ ∀ (faults : SessionFaults) (b : Body Unit)
    (s : World Unit Unit) (e : Failure), b.raised = none → faults.commit = some e →
      (withUnitOfWork (fun _ store => store) faults b s).1 = .error e := by
  intro h
  have hsame := h ⟨some ⟨.object .stopIteration 0, by decide⟩, none, none⟩ .done ⟨(), [], []⟩ _
    rfl rfl
  cases hsame

/-- **A unit of work is atomic on every exit.** A body that ends and a commit that
succeeds make all of its writes durable; otherwise the store is as it was, and the
caller sees what the body has raised, or what the commit has, as it leaves a generator.
The session is closed once. -/
theorem unitOfWork_atomic {ω σ : Type*} (apply : ω → σ → σ) (faults : SessionFaults) (b : Body ω)
    (s : World ω σ) :
    ∃ r s', withUnitOfWork apply faults b s = (r, s') ∧
      (b.raised = none → faults.commit = none →
        r = .ok () ∧ s'.store = applyAll apply b.writes s.store) ∧
      (∀ e, b.raised = some e → r = .error e ∧ s'.store = s.store) ∧
      (∀ e : Failure, b.raised = none → faults.commit = some e →
        r = .error e.val.leaving ∧ s'.store = s.store) ∧
      s'.calls.count .close = s.calls.count .close + 1 := by
  cases hraised : b.raised with
  | some e =>
      obtain ⟨s', hrun, hstore, hclosed⟩ := withUnitOfWork_raised hraised s
      refine ⟨_, s', hrun, nofun, ?_, nofun, hclosed⟩
      rintro _ ⟨rfl⟩
      exact ⟨rfl, hstore⟩
  | none =>
      cases hcommit : faults.commit with
      | none =>
          obtain ⟨s', hrun, hstore, hclosed⟩ := withUnitOfWork_committed hraised hcommit s
          exact ⟨_, s', hrun, fun _ _ => ⟨rfl, hstore⟩, nofun, nofun, hclosed⟩
      | some e =>
          obtain ⟨s', hrun, hstore, hclosed⟩ := withUnitOfWork_commit_failed hraised hcommit s
          refine ⟨_, s', hrun, nofun, nofun, ?_, hclosed⟩
          rintro _ - ⟨rfl⟩
          exact ⟨rfl, hstore⟩

end Taskq.UnitOfWork
