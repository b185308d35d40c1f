import Mathlib.Data.Nat.Notation
import Taskq.Lib.Transaction

/-!
# Taskq.Lib.ContextManager

Python's `try`, `with`, and `contextlib.contextmanager`.

A computation is a `Call`: an outcome, and the state afterwards whether it raised or
not. Exceptions are objects, and the class of one decides which handler takes it. A
`StopIteration` cannot leave a generator: it becomes a `RuntimeError` that has it as
its cause, and `contextmanager` turns that back when it was the one thrown in
(`exit_raised`), but not when the generator itself has raised it
(`exit_ended`).
-/

namespace ContextManager

open Transaction

variable {σ α β : Type*}

/-! ### Exceptions -/

/-- The classes that handlers tell apart. -/
inductive ExcClass
  /-- A subclass of `Exception` other than `StopIteration`. -/
  | exception
  | stopIteration
  /-- `asyncio.CancelledError`. -/
  | cancelledError
  /-- Any other `BaseException`. -/
  | baseException
  deriving DecidableEq, Repr

/-- An exception, with its identity. -/
inductive Exc
  | object (cls : ExcClass) (ident : ℕ)
  /-- `RuntimeError("generator raised StopIteration")`. -/
  | generatorRaised (cause : Exc)
  deriving DecidableEq, Repr

namespace Exc

def cls : Exc → ExcClass
  | .object cls _ => cls
  | .generatorRaised _ => .exception

/-- `except Exception`. -/
def isException (e : Exc) : Bool := e.cls = .exception ∨ e.cls = .stopIteration

/-- What an exception is once it has left a generator. -/
def leaving (e : Exc) : Exc := if e.cls = .stopIteration then .generatorRaised e else e

end Exc

/-! ### Statements -/

/-- `raise e`. -/
def raising (e : Exc) : Call σ Exc α := fun s => (.error e, s)

/-- `pass`. -/
def pass : Call σ Exc Unit := fun s => (.ok (), s)

/-- `try: c`, `except` what is `caught`. -/
def tryExcept (c : Call σ Exc α) (caught : Exc → Bool) (handler : Exc → Call σ Exc α) :
    Call σ Exc α := fun s =>
  match c s with
  | (.ok a, s') => (.ok a, s')
  | (.error e, s') => if caught e then handler e s' else (.error e, s')

/-- `try: c`, `finally: d`; what `d` raises takes the place of what `c` has raised. -/
def tryFinally (c : Call σ Exc α) (d : Call σ Exc Unit) : Call σ Exc α := fun s =>
  match d (c s).2 with
  | (.ok (), s') => ((c s).1, s')
  | (.error e, s') => (.error e, s')

/-- `try: c`, `except Exception: pass`. -/
def suppressing (c : Call σ Exc Unit) : Call σ Exc Unit := tryExcept c Exc.isException fun _ => pass

theorem tryExcept_ok {c : Call σ Exc α} {a : α} {s s' : σ} (h : c s = (.ok a, s'))
    (caught : Exc → Bool) (handler : Exc → Call σ Exc α) :
    tryExcept c caught handler s = (.ok a, s') := by
  rw [tryExcept, h]

/-- What raises nothing but `Exception`s is suppressed whole. -/
theorem suppressing_eq {c : Call σ Exc Unit} {s : σ}
    (h : ∀ e, (c s).1 = .error e → e.isException = true) : suppressing c s = (.ok (), (c s).2) := by
  rw [suppressing, tryExcept]
  rcases hc : c s with ⟨r | ⟨⟩, s'⟩
  · rw [hc] at h
    simp only [h r rfl, if_true]
    rfl
  · rfl

theorem tryFinally_eq {c : Call σ Exc α} {d : Call σ Exc Unit} {s : σ}
    (h : (d (c s).2).1 = .ok ()) : tryFinally c d s = ((c s).1, (d (c s).2).2) := by
  rw [tryFinally]
  rcases hd : d (c s).2 with ⟨r, s'⟩
  rw [hd] at h
  obtain rfl : r = .ok () := h
  rfl

/-! ### The `with` statement -/

/-- A generator that yields once: what it does up to there, and what it does when it is
resumed, by `next` or by throwing an exception in at the `yield`. -/
structure Generator (σ α : Type*) where
  enter : Call σ Exc α
  resume : Option Exc → Call σ Exc Unit

/-- `_GeneratorContextManager.__exit__`, and what becomes of the exception `raised` in the
body: a generator that returns suppresses it. -/
def Generator.exit (g : Generator σ α) (raised : Option Exc) : Call σ Exc Unit := fun s =>
  match g.resume raised s with
  | (.ok (), s') => (.ok (), s')
  | (.error e, s') =>
      match raised with
      | none => (.error e.leaving, s')
      | some value =>
          if e.leaving = value ∨ value.cls = .stopIteration ∧ e.leaving = .generatorRaised value then
            (.error value, s')
          else (.error e.leaving, s')

/-- `with g as a: body a`. -/
def withStatement (g : Generator σ α) (body : α → Call σ Exc Unit) : Call σ Exc Unit := fun s =>
  match g.enter s with
  | (.error e, s') => (.error e.leaving, s')
  | (.ok a, s') =>
      match body a s' with
      | (.ok (), s'') => g.exit none s''
      | (.error e, s'') => g.exit (some e) s''

/-- An exception of the body that the generator lets through is the one the caller sees. -/
theorem exit_raised {g : Generator σ α} {e : Exc} {s s' : σ}
    (h : g.resume (some e) s = (.error e, s')) : g.exit (some e) s = (.error e, s') := by
  simp only [Generator.exit, h]
  by_cases hstop : e.cls = .stopIteration
  · have hleaving : e.leaving = .generatorRaised e := if_pos hstop
    rw [if_pos (Or.inr ⟨hstop, hleaving⟩)]
  · have hleaving : e.leaving = e := if_neg hstop
    rw [if_pos (Or.inl hleaving)]

/-- One that the generator raises after the body has ended is seen as it leaves it. -/
theorem exit_ended {g : Generator σ α} {e : Exc} {s s' : σ}
    (h : g.resume none s = (.error e, s')) : g.exit none s = (.error e.leaving, s') := by
  simp only [Generator.exit, h]

theorem exit_returned {g : Generator σ α} {s s' : σ} (h : g.resume none s = (.ok (), s')) :
    g.exit none s = (.ok (), s') := by
  simp only [Generator.exit, h]

end ContextManager
