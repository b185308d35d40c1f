import Mathlib.Data.List.AList
import Taskq.Lib.Keyed
import Taskq.Lib.Shlex
import Taskq.Lib.Transition

/-!
# Taskq.Service.Executor

`AsyncExecutor` (`service/executor.py`) on one event loop.

Code between two awaits is atomic, so a state is what the executor's fields hold while
every coroutine stands at an await, and an event is one turn of one of them. There are
three kinds: a `_run_task` coroutine (`Pc`, resumed by an `Outcome`), the drain
(`Drain`: `run_until_drained` together with the `_wait_all` it awaits), and whoever
calls `submit`.

The one exception is `Drain.head`. At the top of its loop `_wait_all` has nothing to
await when `_tasks` is empty, so it goes round without letting anything else run: at
`head` only the loop itself has a next step.

Coroutines are kept in the order they were created and are never removed; their
position is the identity of the `asyncio.Task`. `_tasks` and `_results` are dicts, of
which only the contents matter here, so they are `AList`s. A cap below zero admits
nothing, as zero does, and is not told apart from it.
-/

namespace Taskq.Executor

/-- `STATUS_DRAINED` and `STATUS_INTERRUPTED`. -/
inductive Status
  | drained
  | interrupted
  deriving DecidableEq, Repr

/-- The arguments of a `submit`. -/
structure Submission where
  taskId : String
  command : String
  deriving DecidableEq, Repr

/-! ### One `_run_task` -/

/-- Where a `_run_task` coroutine stands. -/
inductive Pc
  /-- Its first step has not run yet. -/
  | created
  /-- `await asyncio.create_subprocess_exec(..)`. -/
  | spawning
  /-- `await asyncio.wait_for(proc.communicate(), ..)`. -/
  | communicating
  /-- `await proc.wait()` of the kill after a timeout. -/
  | killing
  /-- `await proc.wait()` of the kill after a cancellation. -/
  | reaping
  | finished
  deriving DecidableEq, Repr

/-- What a coroutine is resumed with. -/
inductive Outcome
  /-- What it awaits has completed. -/
  | done
  /-- What it awaits has raised an `Exception`. -/
  | failed
  /-- The task timeout; `killed` says whether `proc.kill()` goes through. -/
  | timedOut (killed : Bool)
  /-- `CancelledError`; `killed` as above, where there is a process. -/
  | cancelled (killed : Bool)
  deriving DecidableEq, Repr

/-- How a turn of a coroutine ends. -/
inductive Turn
  /-- At another await. -/
  | goto (pc : Pc)
  /-- Through the `finally` clause, with what was recorded in `_results`. -/
  | finish (result : Option Status)
  /-- Before the body was entered, so without the `finally` clause. -/
  | abandon
  deriving DecidableEq, Repr

/-- Where a turn leaves its coroutine. -/
def Turn.pc : Turn → Pc
  | .goto pc => pc
  | .finish _ => .finished
  | .abandon => .finished

/-- A command that is launched at all: `shlex` reads it and there is a program. -/
def Launches (command : String) : Prop :=
  ∃ program args, Shlex.split command.toList = .ok (program :: args)

instance (command : String) : Decidable (Launches command) :=
  match h : Shlex.split command.toList with
  | .ok (program :: args) => isTrue ⟨program, args, h⟩
  | .ok [] => isFalse fun ⟨_, _, h'⟩ => by rw [h] at h'; cases h'
  | .error _ => isFalse fun ⟨_, _, h'⟩ => by rw [h] at h'; cases h'

/-- `_run_task`, one turn. -/
def runTask (command : String) : Pc → Outcome → Option Turn
  | .created, .done => some (if Launches command then .goto .spawning else .finish (some .drained))
  | .created, .cancelled _ => some .abandon
  | .spawning, .done => some (.goto .communicating)
  | .spawning, .failed => some (.finish (some .drained))
  -- there is no process to kill yet, and nothing is recorded
  | .spawning, .cancelled _ => some (.finish none)
  | .communicating, .done => some (.finish (some .drained))
  | .communicating, .failed => some (.finish (some .drained))
  | .communicating, .timedOut true => some (.goto .killing)
  -- `proc.kill()` raises, and `except Exception` takes it
  | .communicating, .timedOut false => some (.finish (some .drained))
  | .communicating, .cancelled true => some (.goto .reaping)
  | .communicating, .cancelled false => some (.finish none)
  | .killing, .done => some (.finish (some .interrupted))
  | .killing, .failed => some (.finish (some .interrupted))
  | .killing, .cancelled true => some (.goto .reaping)
  | .killing, .cancelled false => some (.finish none)
  | .reaping, .done => some (.finish none)
  | .reaping, .failed => some (.finish none)
  | .reaping, .cancelled _ => some (.finish none)
  | _, _ => none

/-- How many turns a coroutine has left, at most. -/
def Pc.turnsLeft : Pc → ℕ
  | .created => 5
  | .spawning => 4
  | .communicating => 3
  | .killing => 2
  | .reaping => 1
  | .finished => 0

theorem runTask_turnsLeft {command : String} {pc : Pc} {o : Outcome} {turn : Turn}
    (h : runTask command pc o = some turn) : turn.pc.turnsLeft < pc.turnsLeft := by
  unfold runTask at h
  split at h
  case h_1 =>
      cases h
      split_ifs <;> decide
  all_goals cases h <;> decide

/-- A coroutine that nobody cancels goes on, or ends through its `finally` clause with
its status recorded. -/
theorem runTask_uncancelled {command : String} {pc : Pc} {o : Outcome} {turn : Turn}
    (h : runTask command pc o = some turn) (hpc : pc ≠ .reaping) (ho : ∀ k, o ≠ .cancelled k) :
    (∃ pc', turn = .goto pc' ∧ pc' ≠ .finished ∧ pc' ≠ .reaping) ∨
      ∃ status, turn = .finish (some status) := by
  unfold runTask at h
  split at h
  case h_1 =>
      cases h
      split_ifs
      · exact Or.inl ⟨_, rfl, by decide, by decide⟩
      · exact Or.inr ⟨_, rfl⟩
  all_goals
    cases h <;> first
      | exact Or.inl ⟨_, rfl, by decide, by decide⟩
      | exact Or.inr ⟨_, rfl⟩
      | exact absurd rfl (ho _)
      | exact absurd rfl hpc

/-- Until it has ended, a coroutine can be resumed by what it awaits. -/
theorem runTask_done_isSome {command : String} {pc : Pc} (h : pc ≠ .finished) :
    ∃ turn, runTask command pc .done = some turn := by
  cases pc with
  | finished => exact absurd rfl h
  | _ => exact ⟨_, rfl⟩

/-- A dispatched coroutine. -/
structure Coroutine where
  submission : Submission
  pc : Pc
  /-- `Task.cancel()` was called and not delivered yet. -/
  cancelRequested : Bool
  deriving DecidableEq, Repr

namespace Coroutine

def start (e : Submission) : Coroutine where
  submission := e
  pc := .created
  cancelRequested := false

/-- `task.cancel()`, without effect on a task that is done. -/
def cancel (c : Coroutine) : Coroutine :=
  { c with cancelRequested := c.cancelRequested || c.pc ≠ .finished }

/-- Can the coroutine be resumed with this outcome? A requested cancellation is
delivered first; only `wait_for` still hands over a result that was there before. -/
def Admits (c : Coroutine) : Outcome → Prop
  | .cancelled _ => c.cancelRequested
  | .timedOut _ => ¬ c.cancelRequested
  | .done => ¬ c.cancelRequested ∨ c.pc = .communicating
  | .failed => ¬ c.cancelRequested ∨ c.pc = .communicating

instance (c : Coroutine) : (o : Outcome) → Decidable (c.Admits o)
  | .cancelled _ => inferInstanceAs (Decidable (c.cancelRequested = true))
  | .timedOut _ => inferInstanceAs (Decidable (¬ c.cancelRequested = true))
  | .done => inferInstanceAs (Decidable (¬ c.cancelRequested = true ∨ c.pc = .communicating))
  | .failed => inferInstanceAs (Decidable (¬ c.cancelRequested = true ∨ c.pc = .communicating))

def moveTo (c : Coroutine) (pc : Pc) : Coroutine where
  submission := c.submission
  pc := pc
  cancelRequested := false

end Coroutine

/-! ### The executor's fields -/

/-- A dict keyed by task id. -/
abbrev TaskDictOf (υ : Type) := AList fun _ : String => υ

structure AsyncExecutor where
  maxConcurrent : ℕ
  pending : List Submission
  tasks : TaskDictOf ℕ
  submitted : List String
  inFlightCount : ℕ
  results : TaskDictOf Status
  /-- Every coroutine created so far, in order. -/
  coroutines : List Coroutine

namespace AsyncExecutor

/-- `AsyncExecutor(max_concurrent)`. -/
def new (maxConcurrent : ℕ) : AsyncExecutor where
  maxConcurrent := maxConcurrent
  pending := []
  tasks := ∅
  submitted := []
  inFlightCount := 0
  results := ∅
  coroutines := []

/-- `_dispatch`. -/
def dispatch (x : AsyncExecutor) (e : Submission) : AsyncExecutor :=
  if x.maxConcurrent ≤ x.inFlightCount then x
  else
    { x with
      inFlightCount := x.inFlightCount + 1
      tasks := x.tasks.insert e.taskId x.coroutines.length
      coroutines := x.coroutines ++ [Coroutine.start e] }

/-- `submit`, up to its `await asyncio.sleep(0)`. -/
def submit (x : AsyncExecutor) (e : Submission) : AsyncExecutor :=
  let x := { x with submitted := x.submitted.insert e.taskId }
  if x.inFlightCount < x.maxConcurrent then x.dispatch e
  else { x with pending := x.pending ++ [e] }

/-- What a turn of coroutine `i` does to the fields. -/
def settle (x : AsyncExecutor) (i : ℕ) (c : Coroutine) : Turn → AsyncExecutor
  | .goto pc => { x with coroutines := x.coroutines.set i (c.moveTo pc) }
  | .finish result =>
      { x with
        coroutines := x.coroutines.set i (c.moveTo .finished)
        results :=
          match result with
          | none => x.results
          | some status => x.results.insert c.submission.taskId status
        tasks := x.tasks.erase c.submission.taskId }
  | .abandon => { x with coroutines := x.coroutines.set i (c.moveTo .finished) }

/-- A turn of coroutine `i`. -/
def resume (x : AsyncExecutor) (i : ℕ) (o : Outcome) : Option AsyncExecutor :=
  match x.coroutines[i]? with
  | none => none
  | some c =>
      if c.Admits o then (runTask c.submission.command c.pc o).map (x.settle i c) else none

/-- `list(self._tasks.values())`. -/
def live (x : AsyncExecutor) : List ℕ := x.tasks.entries.map Sigma.snd

/-- Has coroutine `i` ended? -/
def Done (x : AsyncExecutor) (i : ℕ) : Prop := ∃ c, x.coroutines[i]? = some c ∧ c.pc = .finished

instance (x : AsyncExecutor) (i : ℕ) : Decidable (x.Done i) :=
  match h : x.coroutines[i]? with
  | none => isFalse fun ⟨_, h', _⟩ => by rw [h] at h'; cases h'
  | some c =>
      if hc : c.pc = .finished then isTrue ⟨c, h, hc⟩
      else isFalse fun ⟨_, h', hc'⟩ => hc (by rw [h] at h'; cases h'; exact hc')

/-- `while self._pending and self._in_flight_count < self._max_concurrent`, on what is
left of the queue. -/
def pullFrom : List Submission → AsyncExecutor → AsyncExecutor
  | [], x => { x with pending := [] }
  | e :: rest, x =>
      if x.inFlightCount < x.maxConcurrent then pullFrom rest (x.dispatch e)
      else { x with pending := e :: rest }

/-- Dispatch what the cap leaves room for. -/
def pull (x : AsyncExecutor) : AsyncExecutor := pullFrom x.pending x

/-- The termination test of `_wait_all`. -/
def Settled (x : AsyncExecutor) : Prop :=
  x.tasks.entries = [] ∧ x.pending = [] ∧ ∀ id ∈ x.submitted, id ∈ x.results

instance (x : AsyncExecutor) : Decidable x.Settled :=
  inferInstanceAs (Decidable (_ ∧ _ ∧ _))

/-- Cancel some coroutines. -/
def cancelAll (x : AsyncExecutor) (is : List ℕ) : AsyncExecutor :=
  { x with coroutines := x.coroutines.mapIdx fun i c => if i ∈ is then c.cancel else c }

/-- `self._results.setdefault(id, STATUS_INTERRUPTED)`. -/
def seedInterrupted (results : TaskDictOf Status) (id : String) : TaskDictOf Status :=
  if id ∈ results then results else results.insert id .interrupted

/-- `_cancel_and_seed_interrupted`, up to its `gather`. -/
def cancelAndSeed (x : AsyncExecutor) : AsyncExecutor :=
  let queued := x.pending.map Submission.taskId
  { x.cancelAll x.live with
    pending := []
    results := (queued ++ x.submitted).foldl seedInterrupted x.results }

/-- The fields `_finalize_wave` resets. -/
def finalizeWave (x : AsyncExecutor) : AsyncExecutor :=
  { x with results := ∅, tasks := ∅, submitted := [], inFlightCount := 0 }

/-! ### What each operation does -/

theorem dispatch_of_lt {x : AsyncExecutor} (h : x.inFlightCount < x.maxConcurrent)
    (e : Submission) :
    x.dispatch e =
      { x with
        inFlightCount := x.inFlightCount + 1
        tasks := x.tasks.insert e.taskId x.coroutines.length
        coroutines := x.coroutines ++ [Coroutine.start e] } :=
  if_neg (Nat.not_le.mpr h)

theorem submit_of_lt {x : AsyncExecutor} (h : x.inFlightCount < x.maxConcurrent)
    (e : Submission) :
    x.submit e =
      { x with
        submitted := x.submitted.insert e.taskId
        inFlightCount := x.inFlightCount + 1
        tasks := x.tasks.insert e.taskId x.coroutines.length
        coroutines := x.coroutines ++ [Coroutine.start e] } := by
  have hroom : ({ x with submitted := x.submitted.insert e.taskId } : AsyncExecutor).inFlightCount
      < x.maxConcurrent := h
  rw [submit, if_pos h, dispatch_of_lt hroom]

theorem submit_of_ge {x : AsyncExecutor} (h : x.maxConcurrent ≤ x.inFlightCount)
    (e : Submission) :
    x.submit e =
      { x with
        submitted := x.submitted.insert e.taskId
        pending := x.pending ++ [e] } :=
  if_neg (Nat.not_lt.mpr h)

theorem pull_of_pending_nil {x : AsyncExecutor} (h : x.pending = []) : x.pull = x := by
  rw [pull, h, pullFrom, ← h]

/-- What a turn of a coroutine is. -/
theorem resume_some {x x' : AsyncExecutor} {i : ℕ} {o : Outcome} (h : x.resume i o = some x') :
    ∃ c turn, x.coroutines[i]? = some c ∧ c.Admits o ∧
      runTask c.submission.command c.pc o = some turn ∧ x' = x.settle i c turn := by
  unfold resume at h
  cases hc : x.coroutines[i]? with
  | none =>
      rw [hc] at h
      cases h
  | some c =>
      rw [hc] at h
      by_cases hadmits : c.Admits o
      · simp only [if_pos hadmits, Option.map_eq_some_iff] at h
        obtain ⟨turn, hturn, rfl⟩ := h
        exact ⟨c, turn, rfl, hadmits, hturn, rfl⟩
      · simp only [if_neg hadmits] at h
        cases h

theorem runTask_unfinished {command : String} {o : Outcome} {turn : Turn} {pc : Pc}
    (h : runTask command pc o = some turn) : pc ≠ .finished := by
  intro heq
  subst heq
  cases h

@[simp] theorem settle_maxConcurrent (x : AsyncExecutor) (i : ℕ) (c : Coroutine) (turn : Turn) :
    (x.settle i c turn).maxConcurrent = x.maxConcurrent := by
  cases turn <;> rfl

@[simp] theorem settle_pending (x : AsyncExecutor) (i : ℕ) (c : Coroutine) (turn : Turn) :
    (x.settle i c turn).pending = x.pending := by
  cases turn <;> rfl

@[simp] theorem settle_submitted (x : AsyncExecutor) (i : ℕ) (c : Coroutine) (turn : Turn) :
    (x.settle i c turn).submitted = x.submitted := by
  cases turn <;> rfl

@[simp] theorem settle_inFlightCount (x : AsyncExecutor) (i : ℕ) (c : Coroutine) (turn : Turn) :
    (x.settle i c turn).inFlightCount = x.inFlightCount := by
  cases turn <;> rfl

@[simp] theorem settle_coroutines (x : AsyncExecutor) (i : ℕ) (c : Coroutine) (turn : Turn) :
    (x.settle i c turn).coroutines = x.coroutines.set i (c.moveTo turn.pc) := by
  cases turn <;> rfl

theorem settle_getElem?_self {x : AsyncExecutor} {i : ℕ} {c : Coroutine}
    (hc : x.coroutines[i]? = some c) (turn : Turn) :
    (x.settle i c turn).coroutines[i]? = some (c.moveTo turn.pc) := by
  rw [settle_coroutines, List.getElem?_set_self (List.getElem?_eq_some_iff.mp hc).1]

/-- What has ended stays so. -/
theorem Done.resume {x x' : AsyncExecutor} {i j : ℕ} {o : Outcome} (h : x.Done i)
    (hres : x.resume j o = some x') : x'.Done i := by
  obtain ⟨c, turn, hc, -, hturn, rfl⟩ := resume_some hres
  obtain ⟨d, hd, hdone⟩ := h
  -- the coroutine that had the turn had not ended
  have hij : j ≠ i := by
    intro hij
    subst hij
    cases hc.symm.trans hd
    exact runTask_unfinished hturn hdone
  refine ⟨d, ?_, hdone⟩
  rw [settle_coroutines, List.getElem?_set_ne hij]
  exact hd

theorem mem_live {x : AsyncExecutor} {i : ℕ} : i ∈ x.live ↔ ∃ id, x.tasks.lookup id = some i := by
  refine ⟨?_, ?_⟩
  · intro h
    obtain ⟨⟨id, j⟩, hmem, rfl⟩ := List.mem_map.mp h
    exact ⟨id, AList.mem_lookup_iff.mpr hmem⟩
  · intro h
    obtain ⟨id, hlookup⟩ := h
    exact List.mem_map.mpr ⟨⟨id, i⟩, AList.mem_lookup_iff.mp hlookup, rfl⟩

theorem live_eq_nil {x : AsyncExecutor} : x.live = [] ↔ x.tasks.entries = [] := List.map_eq_nil_iff

/-! ### Executors that nobody cancels

While task ids are distinct and nothing is cancelled, the three books agree with the
coroutines: `_tasks` lists those that have not ended, `_results` has those that have. -/

/-- The books of such an executor. -/
structure Tracks (x : AsyncExecutor) : Prop where
  count : x.inFlightCount = x.coroutines.length
  distinct : (x.coroutines.map fun c => c.submission.taskId).Nodup
  undisturbed : ∀ c ∈ x.coroutines, c.cancelRequested = false ∧ c.pc ≠ .reaping
  tasks : ∀ id i, x.tasks.lookup id = some i ↔
    ∃ c, x.coroutines[i]? = some c ∧ c.submission.taskId = id ∧ c.pc ≠ .finished
  results : ∀ c ∈ x.coroutines, c.pc = .finished → c.submission.taskId ∈ x.results
  submitted : ∀ id ∈ x.submitted, ∃ c ∈ x.coroutines, c.submission.taskId = id

theorem tracks_new (n : ℕ) : (new n).Tracks where
  count := rfl
  distinct := List.nodup_nil
  undisturbed := by simp [new]
  tasks := by simp [new]
  results := by simp [new]
  submitted := by simp [new]

theorem getElem?_concat_eq_some {α : Type*} {l : List α} {a b : α} {i : ℕ} :
    (l ++ [a])[i]? = some b ↔ l[i]? = some b ∨ i = l.length ∧ a = b := by
  rw [List.getElem?_append]
  split_ifs with h
  · simp [Nat.ne_of_lt h]
  · rw [List.getElem?_eq_none (Nat.not_lt.mp h), List.getElem?_singleton]
    split_ifs with hi
    · simp [show i = l.length by omega]
    · simp [show i ≠ l.length by omega]

/-- A turn uses one up. -/
theorem turnsLeft_resume {x x' : AsyncExecutor} {i : ℕ} {o : Outcome}
    (h : x.resume i o = some x') :
    (x'.coroutines.map fun c => c.pc.turnsLeft).sum
      < (x.coroutines.map fun c => c.pc.turnsLeft).sum := by
  obtain ⟨c, turn, hc, -, hturn, rfl⟩ := resume_some h
  have hlt : (c.moveTo turn.pc).pc.turnsLeft < c.pc.turnsLeft := runTask_turnsLeft hturn
  rw [settle_coroutines]
  exact Keyed.sum_map_set_lt (f := fun c : Coroutine => c.pc.turnsLeft) hlt hc

/-- A coroutine that nobody cancels can go on until it has ended. -/
theorem resume_done_isSome {x : AsyncExecutor} {i : ℕ} {c : Coroutine}
    (hc : x.coroutines[i]? = some c) (hflag : c.cancelRequested = false)
    (hpc : c.pc ≠ .finished) : ∃ x', x.resume i .done = some x' := by
  obtain ⟨turn, hturn⟩ : ∃ turn, runTask c.submission.command c.pc .done = some turn :=
    runTask_done_isSome hpc
  have hadmits : c.Admits .done := by
    rw [Coroutine.Admits, hflag]
    exact Or.inl (by decide)
  refine ⟨x.settle i c turn, ?_⟩
  simp only [resume, hc, if_pos hadmits, hturn, Option.map_some]

/-- A submission that is dispatched at once, under a new id. -/
theorem Tracks.submit {x : AsyncExecutor} (h : x.Tracks) {e : Submission}
    (hroom : x.inFlightCount < x.maxConcurrent)
    (hnew : ∀ c ∈ x.coroutines, c.submission.taskId ≠ e.taskId) : (x.submit e).Tracks := by
  rw [submit_of_lt hroom]
  constructor
  case count => simp [h.count]
  case distinct =>
    rw [List.map_append]
    refine h.distinct.append (List.nodup_singleton _) ?_
    intro id hid hmem
    obtain ⟨c, hc, rfl⟩ := List.mem_map.mp hid
    exact hnew c hc (by simpa [Coroutine.start] using hmem)
  case undisturbed =>
    intro c hc
    rcases List.mem_append.mp hc with hc | hc
    · exact h.undisturbed c hc
    · obtain rfl := List.mem_singleton.mp hc
      exact ⟨rfl, by simp [Coroutine.start]⟩
  case tasks =>
    intro id i
    simp only [getElem?_concat_eq_some]
    by_cases hid : id = e.taskId
    · rw [hid, AList.lookup_insert, Option.some.injEq]
      refine ⟨?_, ?_⟩
      · intro hi
        exact ⟨Coroutine.start e, Or.inr ⟨hi.symm, rfl⟩, rfl, by simp [Coroutine.start]⟩
      · intro hc
        obtain ⟨c, hc | ⟨hi, -⟩, hcid, -⟩ := hc
        · exact absurd hcid (hnew c (List.mem_of_getElem? hc))
        · exact hi.symm
    · rw [AList.lookup_insert_ne hid, h.tasks id i]
      refine ⟨?_, ?_⟩
      · intro hc
        obtain ⟨c, hc, hcid, hpc⟩ := hc
        exact ⟨c, Or.inl hc, hcid, hpc⟩
      · intro hc
        obtain ⟨c, hc | ⟨-, hc⟩, hcid, hpc⟩ := hc
        · exact ⟨c, hc, hcid, hpc⟩
        · rw [← hc] at hcid
          exact absurd hcid.symm hid
  case results =>
    intro c hc hfinished
    rcases List.mem_append.mp hc with hc | hc
    · exact h.results c hc hfinished
    · obtain rfl := List.mem_singleton.mp hc
      cases hfinished
  case submitted =>
    intro id hid
    rcases List.mem_insert_iff.mp hid with rfl | hid
    · exact ⟨Coroutine.start e, by simp, rfl⟩
    · obtain ⟨c, hc, hcid⟩ := h.submitted id hid
      exact ⟨c, List.mem_append_left _ hc, hcid⟩

/-- A coroutine that goes on stays listed. -/
theorem Tracks.lookup_goesOn {x : AsyncExecutor} (h : x.Tracks) {i : ℕ} {c c' : Coroutine}
    (hc : x.coroutines[i]? = some c) (hpc : c.pc ≠ .finished) (hpc' : c'.pc ≠ .finished)
    (hid : c'.submission.taskId = c.submission.taskId) (id : String) (j : ℕ) :
    x.tasks.lookup id = some j ↔ ∃ d, (x.coroutines.set i c')[j]? = some d ∧
      d.submission.taskId = id ∧ d.pc ≠ .finished := by
  have hi : i < x.coroutines.length := (List.getElem?_eq_some_iff.mp hc).1
  rw [h.tasks, List.getElem?_set, if_pos hi]
  split_ifs with hij
  · subst hij
    refine ⟨?_, ?_⟩
    · intro hlive
      obtain ⟨d, hd, hdid, -⟩ := hlive
      cases hc.symm.trans hd
      exact ⟨_, rfl, hid.trans hdid, hpc'⟩
    · intro hlive
      obtain ⟨d, hd, hdid, -⟩ := hlive
      cases hd
      exact ⟨c, hc, hid.symm.trans hdid, hpc⟩
  · rfl

/-- One that ends pops its id, in its `finally` clause, and only that. -/
theorem Tracks.lookup_ends {x : AsyncExecutor} (h : x.Tracks) {i : ℕ} {c c' : Coroutine}
    (hc : x.coroutines[i]? = some c) (hpc' : c'.pc = .finished)
    (hid : c'.submission.taskId = c.submission.taskId) (id : String) (j : ℕ) :
    (x.tasks.erase c.submission.taskId).lookup id = some j ↔
      ∃ d, (x.coroutines.set i c')[j]? = some d ∧ d.submission.taskId = id ∧
        d.pc ≠ .finished := by
  have hi : i < x.coroutines.length := (List.getElem?_eq_some_iff.mp hc).1
  rw [List.getElem?_set, if_pos hi]
  by_cases hown : id = c.submission.taskId
  · rw [hown, AList.lookup_erase]
    refine iff_of_false (by simp) ?_
    intro hlive
    obtain ⟨d, hd, hdid, hdpc⟩ := hlive
    split_ifs at hd with hij
    · cases hd
      exact hdpc hpc'
    · exact hij (Keyed.index_eq h.distinct hc hd hdid.symm)
  · rw [AList.lookup_erase_ne hown, h.tasks]
    split_ifs with hij
    · subst hij
      refine ⟨?_, ?_⟩
      · intro hlive
        obtain ⟨d, hd, hdid, -⟩ := hlive
        cases hc.symm.trans hd
        exact absurd hdid.symm hown
      · intro hlive
        obtain ⟨d, hd, hdid, -⟩ := hlive
        cases hd
        exact absurd (hdid.symm.trans hid) hown
    · rfl

/-- A turn of a coroutine. -/
theorem Tracks.resume {x x' : AsyncExecutor} (h : x.Tracks) {i : ℕ} {o : Outcome}
    (hres : x.resume i o = some x') : x'.Tracks := by
  obtain ⟨c, turn, hc, hadmits, hturn, rfl⟩ := resume_some hres
  have hmem : c ∈ x.coroutines := List.mem_of_getElem? hc
  obtain ⟨hflag, hpc⟩ := h.undisturbed c hmem
  -- nobody asked for a cancellation, so none is delivered
  have ho : ∀ k, o ≠ .cancelled k := by
    intro k hcancel
    subst hcancel
    rw [Coroutine.Admits, hflag] at hadmits
    cases hadmits
  have hunfinished := runTask_unfinished hturn
  have hend := runTask_uncancelled hturn hpc ho
  have hset : ∀ d ∈ x.coroutines.set i (c.moveTo turn.pc),
      d = c.moveTo turn.pc ∨ d ∈ x.coroutines :=
    fun d hd => (List.mem_or_eq_of_mem_set hd).symm
  have hids : (x.coroutines.set i (c.moveTo turn.pc)).map (fun c => c.submission.taskId)
      = x.coroutines.map fun c => c.submission.taskId := Keyed.map_set hc rfl
  constructor
  case count => simp [h.count]
  case distinct =>
    rw [settle_coroutines, hids]
    exact h.distinct
  case undisturbed =>
    intro d hd
    rw [settle_coroutines] at hd
    rcases hset d hd with rfl | hd
    · refine ⟨rfl, ?_⟩
      rcases hend with ⟨pc', rfl, -, hpc'⟩ | ⟨status, rfl⟩
      · exact hpc'
      · simp [Coroutine.moveTo, Turn.pc]
    · exact h.undisturbed d hd
  case tasks =>
    intro id j
    rw [settle_coroutines]
    rcases hend with ⟨pc', rfl, hpc', -⟩ | ⟨status, rfl⟩
    · have hgoesOn : (c.moveTo pc').pc ≠ .finished := hpc'
      exact h.lookup_goesOn hc hunfinished hgoesOn rfl id j
    · have hends : (c.moveTo .finished).pc = .finished := rfl
      exact h.lookup_ends hc hends rfl id j
  case results =>
    intro d hd hfinished
    rw [settle_coroutines] at hd
    rcases hend with ⟨pc', rfl, hpc', -⟩ | ⟨status, rfl⟩
    · rcases hset d hd with rfl | hd
      · exact absurd hfinished hpc'
      · exact h.results d hd hfinished
    · rw [settle, AList.mem_insert]
      rcases hset d hd with rfl | hd
      · exact Or.inl rfl
      · exact Or.inr (h.results d hd hfinished)
  case submitted =>
    intro id hid
    rw [settle_submitted] at hid
    obtain ⟨d, hd, rfl⟩ := h.submitted id hid
    have hmem' := List.mem_map_of_mem (f := fun c : Coroutine => c.submission.taskId) hd
    rw [← hids, ← settle_coroutines] at hmem'
    exact List.mem_map.mp hmem'

/-- `_tasks` lists the coroutines that have not ended. -/
theorem Tracks.mem_live {x : AsyncExecutor} (h : x.Tracks) {i : ℕ} :
    i ∈ x.live ↔ i < x.coroutines.length ∧ ¬ x.Done i := by
  rw [AsyncExecutor.mem_live]
  refine ⟨?_, ?_⟩
  · intro hlive
    obtain ⟨id, hid⟩ := hlive
    obtain ⟨c, hc, -, hpc⟩ := (h.tasks id i).mp hid
    refine ⟨(List.getElem?_eq_some_iff.mp hc).1, ?_⟩
    intro hended
    obtain ⟨d, hd, hdone⟩ := hended
    cases hc.symm.trans hd
    exact hpc hdone
  · intro hlive
    obtain ⟨hi, hdone⟩ := hlive
    have hc : x.coroutines[i]? = some x.coroutines[i] := List.getElem?_eq_getElem hi
    exact ⟨_, (h.tasks _ i).mpr ⟨_, hc, rfl, fun hpc => hdone ⟨_, hc, hpc⟩⟩⟩

/-- When everything dispatched has ended and nothing is queued, the drain is over. -/
theorem Tracks.settled {x : AsyncExecutor} (h : x.Tracks) (hpending : x.pending = [])
    (hlive : x.live = []) : x.Settled := by
  refine ⟨live_eq_nil.mp hlive, hpending, ?_⟩
  intro id hid
  obtain ⟨c, hc, rfl⟩ := h.submitted id hid
  refine h.results c hc ?_
  -- one that had not ended would still be listed
  by_contra hpc
  obtain ⟨i, hi⟩ := List.mem_iff_getElem?.mp hc
  have hmem := AsyncExecutor.mem_live.mpr ⟨_, (h.tasks _ i).mpr ⟨c, hi, rfl, hpc⟩⟩
  rw [hlive] at hmem
  cases hmem

/-! ### The count of a wave -/

/-- Every coroutine took a slot, and there are no more slots than the cap allows. -/
structure Counted (cap : ℕ) (x : AsyncExecutor) : Prop where
  maxConcurrent : x.maxConcurrent = cap
  count : x.inFlightCount = x.coroutines.length
  le_cap : x.inFlightCount ≤ cap

theorem Counted.dispatch {cap : ℕ} {x : AsyncExecutor} (h : Counted cap x) (e : Submission) :
    Counted cap (x.dispatch e) := by
  by_cases hroom : x.inFlightCount < x.maxConcurrent
  · rw [dispatch_of_lt hroom]
    rw [h.maxConcurrent] at hroom
    exact ⟨h.maxConcurrent, by simp [h.count], hroom⟩
  · rw [AsyncExecutor.dispatch, if_pos (Nat.not_lt.mp hroom)]
    exact h

theorem Counted.submit {cap : ℕ} {x : AsyncExecutor} (h : Counted cap x) (e : Submission) :
    Counted cap (x.submit e) := by
  by_cases hroom : x.inFlightCount < x.maxConcurrent
  · rw [submit_of_lt hroom]
    rw [h.maxConcurrent] at hroom
    exact ⟨h.maxConcurrent, by simp [h.count], hroom⟩
  · rw [submit_of_ge (Nat.not_lt.mp hroom)]
    exact ⟨h.maxConcurrent, h.count, h.le_cap⟩

theorem Counted.pullFrom {cap : ℕ} (pending : List Submission) :
    ∀ {x : AsyncExecutor}, Counted cap x → Counted cap (pullFrom pending x) := by
  induction pending with
  | nil =>
      intro x h
      exact ⟨h.maxConcurrent, h.count, h.le_cap⟩
  | cons e rest ih =>
      intro x h
      rw [AsyncExecutor.pullFrom]
      split_ifs
      · exact ih (h.dispatch e)
      · exact ⟨h.maxConcurrent, h.count, h.le_cap⟩

theorem Counted.resume {cap : ℕ} {x x' : AsyncExecutor} (h : Counted cap x) {i : ℕ} {o : Outcome}
    (hres : x.resume i o = some x') : Counted cap x' := by
  obtain ⟨c, turn, -, -, -, rfl⟩ := resume_some hres
  exact ⟨by simp [h.maxConcurrent], by simp [h.count], by simp [h.le_cap]⟩

end AsyncExecutor

/-! ### The drain -/

/-- Where `run_until_drained` stands. -/
inductive Drain
  /-- Not called yet. -/
  | idle
  /-- `_wait_all` has been wrapped in a task that has not run yet. -/
  | scheduled
  /-- `_wait_all` waits for these coroutines. -/
  | gathering (waiting : List ℕ)
  /-- `_wait_all` is at the top of its loop, and running. -/
  | head
  /-- `_wait_all` has returned; `wait_for` has not. -/
  | awaited
  /-- The deadline has cancelled `_wait_all`, which waits for what it gathered. -/
  | expiring (waiting : List ℕ)
  /-- `_cancel_and_seed_interrupted` waits for what it has cancelled. -/
  | interrupting (waiting : List ℕ)
  /-- `CancelledError` has been passed on and waits for these coroutines. -/
  | aborting (waiting : List ℕ)
  /-- Returned, with its status and the ledger under `"tasks"`. -/
  | returned (status : Status) (ledger : TaskDictOf Status)
  /-- Ended in `CancelledError`. -/
  | raised
  deriving DecidableEq

/-- The executor and its drain. -/
structure System where
  executor : AsyncExecutor
  drain : Drain

inductive Event
  | submit (e : Submission)
  /-- `run_until_drained` is called. -/
  | drain
  /-- Coroutine `i` has a turn. -/
  | resume (i : ℕ) (o : Outcome)
  /-- `_wait_all` has a turn. -/
  | loop
  /-- `run_until_drained` has a turn. -/
  | wake
  /-- The drain deadline passes. -/
  | deadline
  /-- The task that runs `run_until_drained` is cancelled, once. -/
  | cancel

namespace System

/-- An iteration of `_wait_all`, once the gathered coroutines have ended. -/
def gathered (x : AsyncExecutor) : System :=
  let x := x.pull
  { executor := x, drain := if x.Settled then .awaited else .head }

/-- The top of the loop: gather what is dispatched, or go on at once. -/
def waitAll (x : AsyncExecutor) : System :=
  if x.live = [] then gathered x else { executor := x, drain := .gathering x.live }

/-- `return self._finalize_wave(status)`. -/
def finalize (x : AsyncExecutor) (status : Status) : System where
  executor := x.finalizeWave
  drain := .returned status x.results

/-- The handler of the deadline. -/
def interrupt (x : AsyncExecutor) : System :=
  if x.live = [] then finalize x.cancelAndSeed .interrupted
  else { executor := x.cancelAndSeed, drain := .interrupting x.live }

/-- The state after an event; `none` when it cannot happen now. -/
def next (s : System) : Event → Option System
  | .submit e => if s.drain = .head then none else some { s with executor := s.executor.submit e }
  | .resume i o =>
      if s.drain = .head then none
      else (s.executor.resume i o).map fun x => { s with executor := x }
  | .drain =>
      match s.drain with
      | .idle | .returned _ _ | .raised => some { s with drain := .scheduled }
      | _ => none
  | .loop =>
      match s.drain with
      | .scheduled | .head => some (waitAll s.executor)
      | .gathering waiting =>
          if ∀ i ∈ waiting, s.executor.Done i then some (gathered s.executor) else none
      | _ => none
  | .wake =>
      match s.drain with
      | .awaited => some (finalize s.executor .drained)
      | .expiring waiting =>
          if ∀ i ∈ waiting, s.executor.Done i then some (interrupt s.executor) else none
      | .interrupting waiting =>
          if ∀ i ∈ waiting, s.executor.Done i then some (finalize s.executor .interrupted) else none
      | .aborting waiting =>
          if ∀ i ∈ waiting, s.executor.Done i then some { s with drain := .raised } else none
      | _ => none
  | .deadline =>
      match s.drain with
      | .scheduled => some { s with drain := .expiring [] }
      | .gathering waiting =>
          some { executor := s.executor.cancelAll waiting, drain := .expiring waiting }
      | _ => none
  | .cancel =>
      match s.drain with
      | .scheduled => some { s with drain := .aborting [] }
      | .gathering waiting =>
          some { executor := s.executor.cancelAll waiting, drain := .aborting waiting }
      | .expiring _ => some { s with drain := .raised }
      | .interrupting waiting =>
          some { executor := s.executor.cancelAll waiting, drain := .aborting waiting }
      | _ => none

end System

end Taskq.Executor
