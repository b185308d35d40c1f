import Taskq.Service.Executor

/-!
# Taskq.Service.Child

A coroutine that runs a command, together with the process it has spawned:
`AsyncExecutor._run_task` and `TaskRunner._execute`.

`_hard_kill_process` sends the kill before it first awaits, so whoever stands at its
`await proc.wait()` has sent it. A process can end at any time by itself;
`proc.communicate()` and `proc.wait()` return no earlier, but may raise whenever they
like.
-/

namespace Taskq.Child

open Executor Transition

/-- What has become of the process. -/
inductive Process
  | running
  | exited
  /-- `proc.kill()` was called while it was running. -/
  | killed
  deriving DecidableEq, Repr

/-- `proc.kill()`, where `ProcessLookupError` is passed over. -/
def Process.kill : Process → Process
  | .running => .killed
  | p => p

/-- `TaskRunner._execute`, one turn. Nothing but the timeout is caught once there is a
process. -/
def execute (command : String) : Pc → Outcome → Option Pc
  | .created, .done => some (if Launches command then .spawning else .finished)
  | .created, .cancelled _ => some .finished
  | .spawning, .done => some .communicating
  | .spawning, .failed => some .finished
  | .spawning, .cancelled _ => some .finished
  | .communicating, .done => some .finished
  | .communicating, .failed => some .finished
  | .communicating, .timedOut true => some .killing
  | .communicating, .timedOut false => some .finished
  | .communicating, .cancelled _ => some .finished
  | .killing, .done => some .finished
  | .killing, .failed => some .finished
  | .killing, .cancelled _ => some .finished
  | _, _ => none

/-- Who runs the command. -/
inductive Runner
  | asyncExecutor
  | taskRunner
  deriving DecidableEq, Repr

/-- Where a turn leaves the coroutine. -/
def Runner.turn : Runner → String → Pc → Outcome → Option Pc
  | .asyncExecutor, command, pc, o => (runTask command pc o).map Turn.pc
  | .taskRunner, command, pc, o => execute command pc o

/-- Does the coroutine answer this by killing the process? -/
def Runner.Kills : Runner → Outcome → Prop
  | _, .timedOut true => True
  | .asyncExecutor, .cancelled true => True
  | _, _ => False

/-- A coroutine and its process, when there is one. -/
structure Execution where
  pc : Pc
  process : Option Process
  deriving DecidableEq, Repr

inductive Event
  /-- The coroutine has a turn. -/
  | turn (o : Outcome)
  /-- The process ends by itself. -/
  | exit
  deriving DecidableEq, Repr

namespace Execution

/-- `communicate()` and `wait()` return once the process is gone. -/
def Admits (s : Execution) : Outcome → Prop
  | .done => s.pc = .created ∨ s.pc = .spawning ∨ s.process ≠ some .running
  | _ => True

instance (s : Execution) : (o : Outcome) → Decidable (s.Admits o)
  | .done => inferInstanceAs (Decidable (_ ∨ _ ∨ _))
  | .failed => isTrue trivial
  | .timedOut _ => isTrue trivial
  | .cancelled _ => isTrue trivial

/-- The process is spawned on the way to `communicate()`, and sent the kill on the way to
the `wait()` of a hard kill. -/
def moveTo (s : Execution) : Pc → Execution
  | .communicating => { pc := .communicating, process := some .running }
  | .killing => { pc := .killing, process := s.process.map Process.kill }
  | .reaping => { pc := .reaping, process := s.process.map Process.kill }
  | pc => { s with pc := pc }

def next (runner : Runner) (command : String) (s : Execution) : Event → Option Execution
  | .turn o => if s.Admits o then (runner.turn command s.pc o).map s.moveTo else none
  | .exit => if s.process = some .running then some { s with process := some .exited } else none

/-- The coroutine has ended, and its process runs on. -/
def Orphans (s : Execution) : Prop := s.pc = .finished ∧ s.process = some .running

instance (s : Execution) : Decidable s.Orphans := inferInstanceAs (Decidable (_ ∧ _))

/-- While its process is running, a coroutine that waits for it only goes on by killing
it. -/
def Stops (runner : Runner) (s : Execution) : Event → Prop
  | .turn o => s.pc = .communicating → s.process = some .running → runner.Kills o
  | .exit => True

end Execution

/-- The runs of a coroutine with one command. -/
def executions (runner : Runner) (command : String) : Lts Execution Event :=
  Lts.ofNext (· = { pc := .created, process := none }) (Execution.next runner command)

namespace Execution

/-- A process that is running is one that `communicate()` waits for. -/
def Attended (s : Execution) : Prop := s.process = some .running → s.pc = .communicating

theorem kill_ne_running (p : Process) : p.kill ≠ .running := by
  cases p <;> simp [Process.kill]

@[simp] theorem moveTo_pc (s : Execution) (pc : Pc) : (s.moveTo pc).pc = pc := by
  cases pc <;> rfl

/-- A hard kill leaves nothing running. -/
theorem attended_moveTo {s : Execution} {pc : Pc}
    (h : pc = .killing ∨ pc = .reaping ∨ s.process ≠ some .running) : (s.moveTo pc).Attended := by
  intro hrunning
  have hkilled : s.process.map Process.kill ≠ some .running := by
    intro hmap
    obtain ⟨p, -, hp⟩ := Option.map_eq_some_iff.mp hmap
    exact kill_ne_running p hp
  cases pc with
  | communicating => rfl
  | killing => exact absurd hrunning hkilled
  | reaping => exact absurd hrunning hkilled
  | _ =>
      rcases h with h | h | h
      · cases h
      · cases h
      · exact absurd hrunning h

end Execution

/-- Where a coroutine goes from `communicate()`: it waits for a process it has killed, or it has
ended. -/
theorem Runner.turn_communicating {runner : Runner} {command : String} {o : Outcome} {pc : Pc}
    (hturn : runner.turn command .communicating o = some pc) :
    runner.Kills o ∧ (pc = .killing ∨ pc = .reaping) ∨ ¬ runner.Kills o ∧ pc = .finished := by
  cases runner with
  | asyncExecutor =>
      cases o with
      | timedOut killed =>
          cases killed with
          | true =>
              exact Or.inl ⟨trivial, Or.inl (by simpa [turn, runTask, Turn.pc] using hturn.symm)⟩
          | false => exact Or.inr ⟨id, by simpa [turn, runTask, Turn.pc] using hturn.symm⟩
      | cancelled killed =>
          cases killed with
          | true =>
              exact Or.inl ⟨trivial, Or.inr (by simpa [turn, runTask, Turn.pc] using hturn.symm)⟩
          | false => exact Or.inr ⟨id, by simpa [turn, runTask, Turn.pc] using hturn.symm⟩
      | _ => exact Or.inr ⟨id, by simpa [turn, runTask, Turn.pc] using hturn.symm⟩
  | taskRunner =>
      cases o with
      | timedOut killed =>
          cases killed with
          | true => exact Or.inl ⟨trivial, Or.inl (by simpa [turn, execute] using hturn.symm)⟩
          | false => exact Or.inr ⟨id, by simpa [turn, execute] using hturn.symm⟩
      | cancelled killed =>
          cases killed with
          | true => exact Or.inr ⟨id, by simpa [turn, execute] using hturn.symm⟩
          | false => exact Or.inr ⟨id, by simpa [turn, execute] using hturn.symm⟩
      | _ => exact Or.inr ⟨id, by simpa [turn, execute] using hturn.symm⟩

namespace Execution

/-- What one event is. -/
theorem next_some {runner : Runner} {command : String} {s s' : Execution} {a : Event}
    (h : s.next runner command a = some s') :
    (∃ o pc, a = .turn o ∧ s.Admits o ∧ runner.turn command s.pc o = some pc ∧ s' = s.moveTo pc) ∨
      a = .exit ∧ s' = { s with process := some .exited } := by
  cases a with
  | turn o =>
      simp only [next] at h
      split_ifs at h with hadmits
      obtain ⟨pc, hturn, rfl⟩ := Option.map_eq_some_iff.mp h
      exact Or.inl ⟨o, pc, rfl, hadmits, hturn, rfl⟩
  | exit =>
      simp only [next] at h
      split_ifs at h
      exact Or.inr ⟨rfl, (Option.some.inj h).symm⟩

theorem Attended.next {runner : Runner} {command : String} {s s' : Execution} {a : Event}
    (hs : s.Attended) (h : s.next runner command a = some s') (hok : s.Stops runner a) :
    s'.Attended := by
  rcases next_some h with ⟨o, pc, rfl, -, hturn, rfl⟩ | ⟨rfl, rfl⟩
  · refine attended_moveTo ?_
    by_cases hrunning : s.process = some .running
    · -- only `communicate()` is waited for with the process running
      have hpc := hs hrunning
      rw [hpc] at hturn
      rcases Runner.turn_communicating hturn with ⟨-, h | h⟩ | ⟨hkills, -⟩
      · exact Or.inl h
      · exact Or.inr (Or.inl h)
      · exact absurd (hok hpc hrunning) hkills
    · exact Or.inr (Or.inr hrunning)
  · exact nofun

/-- A turn that does not stop the process leaves it behind. -/
theorem orphans_of_not_stops {runner : Runner} {command : String} {s s' : Execution} {a : Event}
    (h : s.next runner command a = some s') (hok : ¬ s.Stops runner a) : s'.Orphans := by
  rcases next_some h with ⟨o, pc, rfl, -, hturn, rfl⟩ | ⟨rfl, -⟩
  · simp only [Stops, Classical.not_imp] at hok
    obtain ⟨hpc, hrunning, hkills⟩ := hok
    rw [hpc] at hturn
    rcases Runner.turn_communicating hturn with ⟨h, -⟩ | ⟨-, rfl⟩
    · exact absurd h hkills
    · exact ⟨rfl, hrunning⟩
  · exact absurd trivial hok

end Execution

/-- **No process outlives its coroutine if and only if each is stopped.** As long as a
coroutine whose process is running only leaves `communicate()` by killing it, no process
is ever left running; any other way out of it leaves one. -/
theorem orphans_iff (runner : Runner) (command : String) :
    (∀ s, ((executions runner command).restrict (Execution.Stops runner)).Reachable s →
        ¬ s.Orphans) ∧
      ∀ s a s', (executions runner command).Reachable s →
        (executions runner command).step s a s' → ¬ s.Stops runner a → s'.Orphans := by
  refine ⟨?_, ?_⟩
  · intro s hs horphans
    have hattended : s.Attended := by
      refine hs.invariant ?_ fun s a s' _ hs hstep => hs.next hstep.1 hstep.2
      rintro s rfl
      exact nofun
    obtain ⟨hpc, hrunning⟩ := horphans
    rw [hattended hrunning] at hpc
    cases hpc
  · intro s a s' _ hstep hok
    exact Execution.orphans_of_not_stops hstep hok

/-- `communicate()` raises while the process is running. -/
def raises : List Event := [.turn .done, .turn .done, .turn .failed]

/-- `TaskRunner._execute` is cancelled while the process is running. -/
def cancelled : List Event := [.turn .done, .turn .done, .turn (.cancelled true)]

/-- Either leaves a process behind. -/
theorem process_left_running :
    (¬ ∀ s, (executions .asyncExecutor "sleep 9").Reachable s → ¬ s.Orphans) ∧
      ¬ ∀ s, (executions .taskRunner "sleep 9").Reachable s → ¬ s.Orphans := by
  refine ⟨?_, ?_⟩
  · intro h
    have hrun : Lts.exec (Execution.next .asyncExecutor "sleep 9") ⟨.created, none⟩ raises
        = some ⟨.finished, some .running⟩ := by decide
    exact h _ (Lts.Reachable.exec (.init rfl) raises hrun) ⟨rfl, rfl⟩
  · intro h
    have hrun : Lts.exec (Execution.next .taskRunner "sleep 9") ⟨.created, none⟩ cancelled
        = some ⟨.finished, some .running⟩ := by decide
    exact h _ (Lts.Reachable.exec (.init rfl) cancelled hrun) ⟨rfl, rfl⟩

end Taskq.Child
