import Taskq.Lib.Shlex
import Taskq.Lib.Unicode
import Taskq.Repository.Results

/-!
# Taskq.Service.Runner

`TaskRunner` (`service/runner.py`): a command is tokenised, its program is launched
without a shell, and what became of the process is reported as a dict.

The operating system is a parameter (`Host`): whether `exec` of an argument vector
fails, how the process ends, what it writes, how long it takes. `_decode`, which
turns captured bytes into a tail, is one too; no terminal state depends on it.

Three outcomes of a launch are not caught: `create_subprocess_exec` raises `TypeError`
when there is no program at all, of the ways `exec` can fail only `FileNotFoundError`
becomes a result, and a kill that is refused at the time limit raises too.
-/

namespace Taskq

open Unicode

/-- The subclass of `OSError` that a failing `exec` raises. -/
inductive OSErrorKind
  | fileNotFound
  | permission
  | notADirectory
  | other (errno : ℕ)
  deriving DecidableEq, Repr

/-- What has become of a launched process when `communicate()` returns or the time limit
is hit. -/
inductive Process
  | exited (code : ℤ) (stdout stderr : List Byte)
  /-- It has exited, but a process it started keeps its output open to the time limit. -/
  | held (code : ℤ)
  /-- Still running when the time limit is hit; it is killed. -/
  | timedOut
  /-- Still running when the time limit is hit, under a user it may not be killed by. -/
  | unkillable
  deriving DecidableEq

/-- What the runner asks of the machine it is on. -/
structure Host where
  /-- Launch an argument vector. -/
  exec : List (List Char) → Except OSErrorKind Process
  /-- `_decode`. -/
  decode : List Byte → String
  /-- The milliseconds from the start of the launch to the result. -/
  elapsedMs : ℤ
  /-- `datetime.now(timezone.utc)` when the result is built. -/
  now : DateTime

/-- What `TaskRunner.run` raises. -/
inductive RunnerError
  | lex (e : Shlex.LexError)
  | typeError
  | osError (kind : OSErrorKind)
  deriving DecidableEq, Repr

/-- The dict of `_build_result`. -/
structure RunResult where
  taskId : String
  command : String
  terminal : String
  exitCode : ℤ
  stdoutTail : String
  stderrTail : String
  durationMs : ℤ
  finishedAt : List Char
  deriving DecidableEq

/-- `TIMEOUT_EXIT_CODE`. -/
def timeoutExitCode : ℤ := -1

namespace TaskRunner

/-- `_spawn`: `none` when the program is not found. -/
def spawn (host : Host) : List (List Char) → Except RunnerError (Option Process)
  | [] => .error .typeError
  | program :: args =>
      match host.exec (program :: args) with
      | .ok p => .ok (some p)
      | .error .fileNotFound => .ok none
      | .error kind => .error (.osError kind)

/-- `_build_result`. -/
def buildResult (host : Host) (taskId command terminal : String) (exitCode : ℤ)
    (stdoutTail stderrTail : String) : RunResult where
  taskId := taskId
  command := command
  terminal := terminal
  exitCode := exitCode
  stdoutTail := stdoutTail
  stderrTail := stderrTail
  durationMs := host.elapsedMs
  finishedAt := nowIso host.now

/-- `_hard_kill_process`: of what `proc.kill()` raises only `ProcessLookupError` is
caught, and `send_signal` does nothing to a process that has exited. -/
def hardKillProcess : Process → Except RunnerError Unit
  | .unkillable => .error (.osError .permission)
  | .exited .. | .held _ | .timedOut => .ok ()

/-- What `_execute` makes of a launch. -/
def report (host : Host) (taskId command : String) :
    Option Process → Except RunnerError RunResult
  | none => .ok (buildResult host taskId command "failed" 127 "" "command not found")
  | some (.exited code out err) =>
      .ok (buildResult host taskId command (if code = 0 then "done" else "failed") code
        (host.decode out) (host.decode err))
  | some p =>
      match hardKillProcess p with
      | .error e => .error e
      | .ok _ => .ok (buildResult host taskId command "timeout" timeoutExitCode "" "")

/-- `TaskRunner.run`, with `_execute` as its body. -/
def run (host : Host) (taskId command : String) : Except RunnerError RunResult :=
  match Shlex.split command.toList with
  | .error e => .error (.lex e)
  | .ok argv =>
      match spawn host argv with
      | .error e => .error e
      | .ok p => report host taskId command p

/-- A launch that did not raise is reported. -/
theorem run_of_spawn {host : Host} (taskId : String) {command : String} {argv : List (List Char)}
    {p : Option Process} (hsplit : Shlex.split command.toList = .ok argv)
    (hspawn : spawn host argv = .ok p) :
    run host taskId command = report host taskId command p := by
  simp only [run, hsplit, hspawn]

/-- A launch that raised is not. -/
theorem run_of_spawn_error {host : Host} (taskId : String) {command : String}
    {argv : List (List Char)} {e : RunnerError} (hsplit : Shlex.split command.toList = .ok argv)
    (hspawn : spawn host argv = .error e) : run host taskId command = .error e := by
  simp only [run, hsplit, hspawn]

/-- Whatever the runner returns is a report. -/
theorem run_ok {host : Host} {taskId command : String} {r : RunResult}
    (h : run host taskId command = .ok r) : ∃ p, report host taskId command p = .ok r := by
  unfold run at h
  split at h
  · cases h
  · split at h
    · cases h
    · exact ⟨_, h⟩

/-- **What a report says**, by what became of the process. -/
inductive Reported (host : Host) (taskId command : String) : Option Process → RunResult → Prop
  | notFound : Reported host taskId command none
      (buildResult host taskId command "failed" 127 "" "command not found")
  | exited (code : ℤ) (out err : List Byte) :
      Reported host taskId command (some (.exited code out err))
        (buildResult host taskId command (if code = 0 then "done" else "failed") code
          (host.decode out) (host.decode err))
  | held (code : ℤ) : Reported host taskId command (some (.held code))
      (buildResult host taskId command "timeout" timeoutExitCode "" "")
  | timedOut : Reported host taskId command (some .timedOut)
      (buildResult host taskId command "timeout" timeoutExitCode "" "")

theorem report_cases {host : Host} {taskId command : String} {p : Option Process} {r : RunResult}
    (h : report host taskId command p = .ok r) : Reported host taskId command p r := by
  cases p with
  | none =>
      cases h
      exact .notFound
  | some p =>
      cases p with
      | exited code out err =>
          cases h
          exact .exited code out err
      | held code =>
          cases h
          exact .held code
      | timedOut =>
          cases h
          exact .timedOut
      | unkillable => cases h

/-- Only a refused kill keeps a launch from being reported. -/
theorem report_ok_iff {host : Host} {taskId command : String} {p : Option Process} :
    (∃ r, report host taskId command p = .ok r) ↔ p ≠ some .unkillable := by
  cases p with
  | none => simp [report]
  | some p => cases p <;> simp [report, hardKillProcess]

@[simp] theorem buildResult_terminal (host : Host) (taskId command terminal : String)
    (exitCode : ℤ) (out err : String) :
    (buildResult host taskId command terminal exitCode out err).terminal = terminal := rfl

theorem report_finishedAt {host : Host} {taskId command : String} {p : Option Process}
    {r : RunResult} (h : report host taskId command p = .ok r) :
    r.finishedAt = nowIso host.now := by
  cases report_cases h <;> rfl

/-- The terminal state of a run, by how the launch went. -/
theorem report_terminal {host : Host} {taskId command : String} {p : Option Process}
    {r : RunResult} (h : report host taskId command p = .ok r) :
    r.terminal ∈ ["done", "failed", "timeout"] ∧
    (r.terminal = "done" ↔ ∃ out err, p = some (.exited 0 out err)) ∧
    (r.terminal = "timeout" ↔ p = some .timedOut ∨ ∃ code, p = some (.held code)) := by
  cases report_cases h with
  | notFound => simp
  | exited code out err => by_cases hcode : code = 0 <;> simp [hcode]
  | held code => simp
  | timedOut => simp

/-- `_spawn` returns exactly when there is a program and `exec` does not fail in
another way than by not finding it. -/
theorem spawn_ok_iff {host : Host} {argv : List (List Char)} :
    (∃ p, spawn host argv = .ok p) ↔
      argv ≠ [] ∧ ∀ kind, host.exec argv = .error kind → kind = .fileNotFound := by
  cases argv with
  | nil => simp [spawn]
  | cons program args =>
      rw [spawn]
      cases host.exec (program :: args) with
      | ok p => simp
      | error kind =>
          cases kind <;> simp

/-- A launch that did not fail reports the process that ran. -/
theorem spawn_some {host : Host} {argv : List (List Char)} {r : Option Process}
    (h : spawn host argv = .ok r) (p : Process) : r = some p ↔ host.exec argv = .ok p := by
  cases argv with
  | nil => cases h
  | cons program args =>
      rw [spawn] at h
      cases hexec : host.exec (program :: args) with
      | ok q =>
          rw [hexec] at h
          cases h
          simp
      | error kind =>
          rw [hexec] at h
          cases kind with
          | fileNotFound =>
              cases h
              simp
          | permission => cases h
          | notADirectory => cases h
          | other errno => cases h

end TaskRunner

end Taskq
