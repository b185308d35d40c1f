import Taskq.Api.Schemas
import Taskq.Service.Runner
import Taskq.Service.Tasks

/-!
# Taskq.Api.Runs

`trigger_run` and its background body `_execute_and_persist` (`api/routes/runs.py`).

A run starts as a pending row and is completed by the background body: the runner's
dict is handed to `update_result` field by field, `terminal` as the status. When
the runner raises, nothing is written and the row stays pending.

Two properties of a run are settled here: when it reaches a terminal state
(`run_settles`), and what of its outcome a listing gives back
(`run_result_is_lost`).
-/

namespace Taskq

open Transaction TaskResultRepository

/-- What the background body raises. -/
inductive RunError
  | runner (e : RunnerError)
  | storage (e : StorageError)
  deriving DecidableEq, Repr

/-- The arguments of `update_result`, read off the runner's dict. -/
def RunResult.outcome (r : RunResult) : Outcome where
  exitCode := some r.exitCode
  stdoutTail := r.stdoutTail
  stderrTail := r.stderrTail
  durationMs := some r.durationMs
  finishedAt := .text r.finishedAt
  status := r.terminal

/-- `_execute_and_persist`. -/
def executeAndPersist (host : Host) (faults : Faults StorageError)
    (taskId command runId : String) : Call Database RunError Unit := fun db =>
  match TaskRunner.run host taskId command with
  | .error e => (.error (.runner e), db)
  | .ok r =>
      match updateResult faults runId r.outcome db with
      | (.error e, db') => (.error (.storage e), db')
      | (.ok _, db') => (.ok (), db')

/-- `trigger_run` once the task is found: the pending row is inserted and the
background body is scheduled. -/
def triggerRun (engine : Engine) (faults : Faults StorageError) (now : DateTime)
    (taskId command runId : String) : Call Database StorageError String := fun db =>
  match createPendingResult engine faults now taskId runId command db with
  | (.error e, db') => (.error e, db')
  | (.ok _, db') => (.ok runId, db')

/-- A trigger that returned has left the run pending. -/
theorem triggerRun_pending {engine : Engine} {faults : Faults StorageError} {now : DateTime}
    {taskId command runId : String} {db db' : Database}
    (h : triggerRun engine faults now taskId command runId db = (.ok runId, db')) :
    ∃ row ∈ db'.results, row.id = runId ∧ row.status = "pending" := by
  unfold triggerRun at h
  cases hcreate : createPendingResult engine faults now taskId runId command db with
  | mk outcome after =>
      rw [hcreate] at h
      cases outcome with
      | error e => cases h
      | ok d =>
          cases h
          exact ⟨_, createPendingResult_mem hcreate, rfl, rfl⟩

/-- What the runner writes for `finished_at` is what `update_result` reads. -/
theorem parseFinishedAt_outcome {host : Host} {taskId command : String} {r : RunResult}
    (h : TaskRunner.run host taskId command = .ok r) :
    parseFinishedAt r.outcome.finishedAt = .ok ⟨host.now, some UtcOffset.utc⟩ := by
  obtain ⟨p, hreport⟩ := TaskRunner.run_ok h
  show parseFinishedAt (.text r.finishedAt) = _
  rw [TaskRunner.report_finishedAt hreport, parseFinishedAt_nowIso]

/-- A body whose runner returned hands the dict on to `update_result`. -/
theorem executeAndPersist_ok {host : Host} {faults : Faults StorageError}
    {taskId command : String} (runId : String) (db : Database) {r : RunResult}
    (h : TaskRunner.run host taskId command = .ok r) :
    (executeAndPersist host faults taskId command runId db).2
      = (updateResult faults runId r.outcome db).2 := by
  rw [executeAndPersist, h]
  show (match updateResult faults runId r.outcome db with
    | (.error e, db') => (Except.error (RunError.storage e), db')
    | (.ok _, db') => (Except.ok (), db')).2 = _
  split
  next heq => rw [heq]
  next heq => rw [heq]

/-- A body whose runner raised leaves the database as it is. -/
theorem executeAndPersist_error {host : Host} {faults : Faults StorageError}
    {taskId command runId : String} {db : Database} {e : RunnerError}
    (h : TaskRunner.run host taskId command = .error e) :
    (executeAndPersist host faults taskId command runId db).2 = db := by
  rw [executeAndPersist, h]

/-- The body of a run that has its row completes it. -/
theorem executeAndPersist_completes {host : Host} {taskId command : String} {db : Database}
    {r : RunResult} {row : TaskResult} (hrun : TaskRunner.run host taskId command = .ok r)
    (hrow : row ∈ db.results) {runId : String} (hid : row.id = runId) :
    (executeAndPersist host Faults.none taskId command runId db).2 =
      db.updateResult runId (setOutcome r.outcome ⟨host.now, some UtcOffset.utc⟩)
        (setOutcome_id _ _) := by
  rw [executeAndPersist_ok runId db hrun, updateResult_ok (parseFinishedAt_outcome hrun) hrow hid]

/-- The body of a run whose row is gone raises. -/
theorem executeAndPersist_gone (host : Host) (taskId command : String) {runId : String}
    {db : Database} (hgone : runId ∉ db.results.map ResultRow.id) :
    ∃ e, executeAndPersist host Faults.none taskId command runId db = (.error e, db) := by
  cases hrun : TaskRunner.run host taskId command with
  | error e =>
      refine ⟨.runner e, ?_⟩
      simp only [executeAndPersist, hrun]
  | ok r =>
      refine ⟨.storage .value, ?_⟩
      simp only [executeAndPersist, hrun, updateResult_gone (parseFinishedAt_outcome hrun) hgone]

/-- Whatever becomes of a run, the tasks stay, and of each result its key and whose it
is. -/
theorem executeAndPersist_frame (host : Host) (faults : Faults StorageError)
    (taskId command runId : String) (db : Database) :
    (executeAndPersist host faults taskId command runId db).2.tasks = db.tasks ∧
      (executeAndPersist host faults taskId command runId db).2.results.map
          (fun r => (r.id, r.taskId))
        = db.results.map fun r => (r.id, r.taskId) := by
  cases hrun : TaskRunner.run host taskId command with
  | error e =>
      rw [executeAndPersist_error hrun]
      exact ⟨rfl, rfl⟩
  | ok r =>
      rw [executeAndPersist_ok runId db hrun]
      exact updateResult_frame faults runId r.outcome db

/-! ### Terminal states -/

/-- The process of this command exited with 0. -/
def ExitedZero (host : Host) (argv : List (List Char)) : Prop :=
  argv ≠ [] ∧ ((∃ out err, host.exec argv = .ok (.exited 0 out err)) ∨
    host.exec argv = .ok (.held 0))

/-- The run of this command hit the time limit. -/
def HitTimeLimit (host : Host) (argv : List (List Char)) : Prop :=
  argv ≠ [] ∧ ∃ p, host.exec argv = .ok p ∧ ∀ code out err, p ≠ .exited code out err

/-- The row of the run is in a terminal state, and in the right one: `done` when the
process exited with 0, `timeout` when it hit the time limit, `failed` otherwise. -/
def Settled (host : Host) (argv : List (List Char)) (runId : String) (db : Database) : Prop :=
  ∃ row ∈ db.results, row.id = runId ∧ row.status ∈ ["done", "failed", "timeout"] ∧
    (row.status = "done" ↔ ExitedZero host argv) ∧
    (row.status = "timeout" ↔ HitTimeLimit host argv)

/-- `exec` of this vector fails, if at all, by not finding the program. -/
def OnlyFileNotFound (host : Host) (argv : List (List Char)) : Prop :=
  ∀ kind, host.exec argv = .error kind → kind = .fileNotFound

/-- At the time limit the program is not one that may not be killed, nor one that has exited
with 0 while its output stays open. -/
structure CleanAtLimit (host : Host) (argv : List (List Char)) : Prop where
  killed : host.exec argv ≠ .ok .unkillable
  not_done : host.exec argv ≠ .ok (.held 0)

/-- A row left pending is not settled. -/
theorem not_settled_of_pending {host : Host} {argv : List (List Char)} {runId : String}
    {db : Database} {row : TaskResult} (hrow : row ∈ db.results) (hid : row.id = runId)
    (hstatus : row.status = "pending") : ¬ Settled host argv runId db := by
  intro hsettled
  obtain ⟨row', hrow', hid', hterminal, -⟩ := hsettled
  obtain rfl := List.inj_on_of_nodup_map db.result_ids hrow' hrow (hid'.trans hid.symm)
  rw [hstatus] at hterminal
  exact absurd hterminal (by decide)

/-- A run whose runner raised is not settled. -/
theorem not_settled_of_raised {host : Host} {taskId command runId : String}
    {argv : List (List Char)} {db : Database} {row : TaskResult} {e : RunnerError}
    (hraised : TaskRunner.run host taskId command = .error e)
    (hrow : row ∈ db.results) (hid : row.id = runId) (hstatus : row.status = "pending") :
    ¬ Settled host argv runId (executeAndPersist host Faults.none taskId command runId db).2 := by
  rw [executeAndPersist_error hraised]
  exact not_settled_of_pending hrow hid hstatus

theorem exitedZero_iff {host : Host} {argv : List (List Char)} {p : Option Process}
    (hspawn : TaskRunner.spawn host argv = .ok p) :
    ExitedZero host argv ↔ (∃ out err, p = some (.exited 0 out err)) ∨ p = some (.held 0) := by
  have hargv : argv ≠ [] := (TaskRunner.spawn_ok_iff.mp ⟨p, hspawn⟩).1
  simp only [ExitedZero, TaskRunner.spawn_some hspawn, ne_eq, hargv, not_false_eq_true, true_and]

theorem hitTimeLimit_iff {host : Host} {argv : List (List Char)} {p : Option Process}
    (hspawn : TaskRunner.spawn host argv = .ok p) :
    HitTimeLimit host argv ↔ ∃ q, p = some q ∧ ∀ code out err, q ≠ .exited code out err := by
  have hargv : argv ≠ [] := (TaskRunner.spawn_ok_iff.mp ⟨p, hspawn⟩).1
  simp only [HitTimeLimit, TaskRunner.spawn_some hspawn, ne_eq, hargv, not_false_eq_true,
    true_and]

/-- A row completed with the runner's report is settled, unless the program had exited with 0
before the time limit closed the run. -/
theorem settled_iff_of_reported {host : Host} {taskId command runId : String}
    {argv : List (List Char)} {db : Database} {row : TaskResult} {p : Option Process}
    {r : RunResult} (hsplit : Shlex.split command.toList = .ok argv)
    (hspawn : TaskRunner.spawn host argv = .ok p)
    (hreport : TaskRunner.report host taskId command p = .ok r)
    (hrow : row ∈ db.results) (hid : row.id = runId) :
    Settled host argv runId (executeAndPersist host Faults.none taskId command runId db).2 ↔
      p ≠ some (.held 0) := by
  have hrun : TaskRunner.run host taskId command = .ok r := by
    rw [TaskRunner.run_of_spawn taskId hsplit hspawn, hreport]
  obtain ⟨hterminal, hdone, htimeout⟩ := TaskRunner.report_terminal hreport
  have hcompleted : ∀ row' ∈ (executeAndPersist host Faults.none taskId command runId db).2.results,
      row'.id = runId → row'.status = r.terminal := by
    rw [executeAndPersist_completes hrun hrow hid]
    intro row' hrow' hid'
    obtain ⟨old, -, rfl⟩ := List.mem_map.mp hrow'
    split at hid' <;> rename_i hold
    · rw [if_pos hold]
      rfl
    · exact absurd hid' hold
  have hkept : ∃ row' ∈ (executeAndPersist host Faults.none taskId command runId db).2.results,
      row'.id = runId := by
    rw [executeAndPersist_completes hrun hrow hid]
    refine ⟨_, List.mem_map_of_mem hrow, ?_⟩
    rw [if_pos hid]
    exact hid
  constructor
  · intro hsettled hheld
    obtain ⟨row', hrow', hid', -, hdone', -⟩ := hsettled
    rw [hcompleted row' hrow' hid', hdone, exitedZero_iff hspawn] at hdone'
    obtain ⟨out, err, hexited⟩ := hdone'.mpr (.inr hheld)
    rw [hheld] at hexited
    cases hexited
  · intro hheld
    obtain ⟨row', hrow', hid'⟩ := hkept
    refine ⟨row', hrow', hid', ?_⟩
    rw [hcompleted row' hrow' hid', hdone, htimeout, exitedZero_iff hspawn,
      hitTimeLimit_iff hspawn]
    refine ⟨hterminal, (or_iff_left hheld).symm, ?_⟩
    cases TaskRunner.report_cases hreport with
    | notFound => simp
    | exited code out err => simp
    | held code => simp
    | timedOut => simp

/-- **When a triggered run reaches a terminal state, and the right one**: exactly when its
command has a character that is neither a space nor a tab, `exec` of its argument vector does
not fail in another way than by not finding the program, and at the time limit the program
neither has exited with 0 nor refuses to be killed. -/
theorem run_settles (host : Host) (body : TaskCreate) (taskId runId : String)
    (db : Database) (hpending : ∃ row ∈ db.results, row.id = runId ∧ row.status = "pending") :
    ∃ argv, Shlex.split body.command.toList = .ok argv ∧
      (Settled host argv runId
          (executeAndPersist host Faults.none taskId body.command runId db).2 ↔
        (∃ c ∈ body.command.toList, c ≠ ' ' ∧ c ≠ '\t') ∧ OnlyFileNotFound host argv ∧
          CleanAtLimit host argv) := by
  obtain ⟨row, hrow, hid, hstatus⟩ := hpending
  obtain ⟨argv, hsplit, hargv⟩ := Shlex.split_plain body.command_plain
  refine ⟨argv, hsplit, ?_⟩
  -- the blacklist leaves space and tab as the only whitespace
  have hspaces : (∃ c ∈ body.command.toList, ¬ Shlex.IsSpace c) ↔
      ∃ c ∈ body.command.toList, c ≠ ' ' ∧ c ≠ '\t' := by
    refine exists_congr fun c => and_congr_right fun hc => ?_
    rw [body.command_space hc, not_or]
  rw [← hspaces, ← hargv, OnlyFileNotFound, ← and_assoc, ← TaskRunner.spawn_ok_iff]
  cases hspawn : TaskRunner.spawn host argv with
  | error e =>
      -- the launch raised, so the row is still pending
      have hraised := TaskRunner.run_of_spawn_error taskId hsplit hspawn
      refine iff_of_false (not_settled_of_raised hraised hrow hid hstatus) ?_
      rintro ⟨⟨p, hp⟩, -⟩
      cases hp
  | ok p =>
      have hclean : CleanAtLimit host argv ↔ p ≠ some .unkillable ∧ p ≠ some (.held 0) := by
        rw [ne_eq, ne_eq, TaskRunner.spawn_some hspawn, TaskRunner.spawn_some hspawn]
        exact ⟨fun h => ⟨h.killed, h.not_done⟩, fun h => ⟨h.1, h.2⟩⟩
      rw [hclean, and_iff_right ⟨p, rfl⟩]
      cases hreport : TaskRunner.report host taskId body.command p with
      | error e =>
          have hraised : TaskRunner.run host taskId body.command = .error e := by
            rw [TaskRunner.run_of_spawn taskId hsplit hspawn, hreport]
          refine iff_of_false (not_settled_of_raised hraised hrow hid hstatus) ?_
          rintro ⟨hkilled, -⟩
          obtain ⟨r, hr⟩ := TaskRunner.report_ok_iff.mpr hkilled
          rw [hreport] at hr
          cases hr
      | ok r =>
          have hkilled := TaskRunner.report_ok_iff.mp ⟨r, hreport⟩
          rw [settled_iff_of_reported hsplit hspawn hreport hrow hid, and_iff_right hkilled]

/-- A machine on which every program runs and exits with 0. -/
def quietHost : Host where
  exec _ := .ok (.exited 0 [] [])
  decode _ := ""
  elapsedMs := 5
  now := TaskService.newYear

theorem true_accepted : AcceptedText "true" := by decide

/-- A body that runs one program. -/
def trueBody : TaskCreate where
  name := "noop"
  command := "true"
  name_accepted := by decide
  command_accepted := true_accepted

/-- A body whose command is a single space. -/
def blankBody : TaskCreate where
  name := "blank"
  command := " "
  name_accepted := by decide
  command_accepted := by decide

theorem run_settles_true :
    (∃ row ∈ TaskService.oneResult.results, row.id = "r" ∧ row.status = "pending") ∧
    ∃ argv, Shlex.split "true".toList = .ok argv ∧
      (Settled quietHost argv "r"
          (executeAndPersist quietHost Faults.none "t" "true" "r" TaskService.oneResult).2 ↔
        (∃ c ∈ "true".toList, c ≠ ' ' ∧ c ≠ '\t') ∧ OnlyFileNotFound quietHost argv ∧
          CleanAtLimit quietHost argv) :=
  ⟨by decide, run_settles quietHost trueBody "t" "r" TaskService.oneResult (by decide)⟩

/-- An accepted command of one space has no program: `create_subprocess_exec` raises,
nothing is persisted, and the row stays pending although every program that could be
launched would exit with 0. -/
theorem blank_run_stays_pending :
    Shlex.split blankBody.command.toList = .ok [] ∧
    ¬ Settled quietHost [] "r"
      (executeAndPersist quietHost Faults.none "t" blankBody.command "r"
        TaskService.oneResult).2 := by
  have hrun : TaskRunner.run quietHost "t" blankBody.command = .error .typeError := by decide
  refine ⟨by decide, ?_⟩
  rw [executeAndPersist_error hrun]
  intro hsettled
  obtain ⟨row, hrow, hid, hterminal, -⟩ := hsettled
  obtain rfl := List.mem_singleton.mp hrow
  exact absurd hterminal (by decide)

/-! ### What a listing gives back -/

/-- What `GET /v1/tasks/{id}/runs` lists for one run. -/
def listedRun (db : Database) (taskId runId : String) : List Dict :=
  match (listResultsForTask Faults.none taskId db).1 with
  | .error _ => []
  | .ok entries => entries.filter fun d => d.lookup "run_id" = some (.str runId)

theorem listedRun_eq (db : Database) (taskId runId : String) :
    listedRun db taskId runId = ((selectResults db taskId).map fun row => toDict row.load).filter
      fun d => d.lookup "run_id" = some (.str runId) := rfl

/-- The instant a listed text shows; a text without an offset is UTC. -/
def shownInstant (v : Option Value) : Option ℤ :=
  match v with
  | some (.str text) => (IsoFormat.fromisoformat? text.toList).map PyDateTime.instant
  | _ => none

/-- The keys of the six outcome fields. -/
def outcomeKeys : List String :=
  ["status", "exit_code", "stdout_tail", "stderr_tail", "duration_ms", "finished_at"]

/-- The outcome fields of an entry. -/
def outcomeOf (d : Dict) : List (Option Value) := outcomeKeys.map fun key => d.lookup key

/-- Two entries agree on the outcome. -/
def OutcomeAgrees (d e : Dict) : Prop := outcomeOf d = outcomeOf e

/-- An entry reports the run's row and the runner's outcome under the documented names. -/
structure Reports (d : Dict) (r : RunResult) (created : DateTime) (runId taskId command : String) :
    Prop where
  run_id : d.lookup "run_id" = some (.str runId)
  task_id : d.lookup "task_id" = some (.str taskId)
  command : d.lookup "command" = some (.str command)
  created_at : d.lookup "created_at" = some (.str (String.ofList created.isoformat))
  status : d.lookup "status" = some (.str r.terminal)
  exit_code : d.lookup "exit_code" = some (.int r.exitCode)
  stdout_tail : d.lookup "stdout_tail" = some (.str r.stdoutTail)
  stderr_tail : d.lookup "stderr_tail" = some (.str r.stderrTail)
  duration_ms : d.lookup "duration_ms" = some (.int r.durationMs)
  finished_at : shownInstant (d.lookup "finished_at") =
    (IsoFormat.fromisoformat? r.finishedAt).map PyDateTime.instant

theorem toDict_run_id (row : ResultRow PyDateTime) :
    (toDict row).lookup "run_id" = some (.str row.id) := rfl

/-- The entries of a run, from its row. -/
theorem listedRun_of_mem {db : Database} {row : TaskResult} (hrow : row ∈ db.results) :
    listedRun db row.taskId row.id = [toDict row.load] := by
  have hkey : (fun r : TaskResult => decide ((toDict r.load).lookup "run_id" = some (.str row.id)))
      = fun r => decide (r.id = row.id) := by
    funext r
    rw [toDict_run_id]
    simp [ResultRow.load, ResultRow.mapTime]
  rw [listedRun_eq, List.filter_map]
  show ((selectResults db row.taskId).filter fun r =>
    decide ((toDict r.load).lookup "run_id" = some (.str row.id))).map _ = _
  rw [hkey, listed_run hrow]
  rfl

/-- No listed entry has a key `created_at`: `_to_dict` does not write it. -/
theorem listedRun_created_at {db : Database} {taskId runId : String} {d : Dict}
    (h : d ∈ listedRun db taskId runId) : d.lookup "created_at" = none := by
  rw [listedRun_eq] at h
  obtain ⟨row, -, rfl⟩ := List.mem_map.mp (List.mem_filter.mp h).1
  rfl

theorem outcomeOf_toDict (row : ResultRow PyDateTime) :
    outcomeOf (toDict row) =
      [some (.str row.status), some (.ofInt? row.exitCode), some (.str row.stdoutTail),
        some (.str row.stderrTail), some (.ofInt? row.durationMs),
        some (.ofTime? row.finishedAt)] := rfl

/-- The two write paths give the same outcome columns but one: `update_result` keeps
nothing of `stderr_tail`. -/
theorem outcomeAgrees_iff {o : Outcome} {finished : PyDateTime} {id taskId command : String}
    {now : DateTime} {row : TaskResult} :
    OutcomeAgrees (toDict (setOutcome o finished row).load)
        (toDict (recordRow id now taskId command o finished).store.load) ↔
      o.stderrTail = "" := by
  have hupdated : (setOutcome o finished row).load.stderrTail = "" := strAnd_empty _
  have hrecorded : (recordRow id now taskId command o finished).store.load.stderrTail
      = o.stderrTail := strOr_empty _
  rw [OutcomeAgrees, outcomeOf_toDict, outcomeOf_toDict, hupdated, hrecorded]
  refine ⟨?_, ?_⟩
  · intro h
    simp only [List.cons.injEq, Option.some.injEq, Value.str.injEq] at h
    exact h.2.2.2.1.symm
  · intro h
    rw [h]
    rfl

/-- The property: after the run, the listing has one entry for it; that entry reports
the row and the outcome; and it agrees on the outcome with what is listed after
`record_result` of the same values. -/
def PersistedFaithfully (r : RunResult) (created : DateTime)
    (runId recordId taskId command : String) (afterRun afterRecord : Database) : Prop :=
  ∃ d, listedRun afterRun taskId runId = [d] ∧ Reports d r created runId taskId command ∧
    ∃ e, listedRun afterRecord taskId recordId = [e] ∧ OutcomeAgrees d e

/-- Without the key `created_at` no listing is faithful. -/
theorem not_persistedFaithfully {r : RunResult} {created : DateTime}
    {runId recordId taskId command : String} {afterRun afterRecord : Database} :
    ¬ PersistedFaithfully r created runId recordId taskId command afterRun afterRecord := by
  intro hfaithful
  obtain ⟨d, hlisted, hreports, -⟩ := hfaithful
  have hmem : d ∈ listedRun afterRun taskId runId := by
    rw [hlisted]
    exact List.mem_singleton_self d
  have hcreated := hreports.created_at
  rw [listedRun_created_at hmem] at hcreated
  cases hcreated

/-- **The outcome of a run is never listed under all its names, and its stderr is
lost.** For every dict the runner returns, the entry of the run has no key
`created_at`, and it agrees with the one `record_result` leads to exactly when there
was nothing on stderr. -/
theorem run_result_is_lost (engine : Engine) (host : Host) (created : DateTime)
    (taskId command runId recordId : String) (r : RunResult) (db : Database)
    (hreturned : TaskRunner.run host taskId command = .ok r)
    (hforeign : engine.foreignKeys = true → db.HasTask taskId)
    (hrun : runId ∉ db.results.map ResultRow.id)
    (hrecord : recordId ∉ db.results.map ResultRow.id) :
    let pending := (createPendingResult engine Faults.none created taskId runId command db).2
    let afterRun := (executeAndPersist host Faults.none taskId command runId pending).2
    let afterRecord :=
      (recordResult engine Faults.none recordId created taskId command r.outcome db).2
    ¬ PersistedFaithfully r created runId recordId taskId command afterRun afterRecord ∧
      ∃ d e, listedRun afterRun taskId runId = [d] ∧ listedRun afterRecord taskId recordId = [e] ∧
        (OutcomeAgrees d e ↔ r.stderrTail = "") := by
  intro pending afterRun afterRecord
  have hparse := parseFinishedAt_outcome hreturned
  have hafter : afterRun = (updateResult Faults.none runId r.outcome pending).2 :=
    executeAndPersist_ok runId pending hreturned
  have hcompleted : setOutcome r.outcome ⟨host.now, some UtcOffset.utc⟩
      (pendingRow created taskId runId command).store ∈ afterRun.results := by
    rw [hafter]
    exact updateResult_mem hparse hforeign hrun
  have hrecorded : (recordRow recordId created taskId command r.outcome
      ⟨host.now, some UtcOffset.utc⟩).store ∈ afterRecord.results :=
    recordResult_mem hparse hforeign hrecord
  exact ⟨not_persistedFaithfully, _, _, listedRun_of_mem hcompleted, listedRun_of_mem hrecorded,
    outcomeAgrees_iff⟩

/-- A machine on which every program complains on stderr and exits with 1. -/
def loudHost : Host where
  exec _ := .ok (.exited 1 [] [])
  decode _ := "no such user"
  elapsedMs := 5
  now := TaskService.newYear

/-- What the runner returns there for the command `id root`. -/
def loudResult : RunResult :=
  TaskRunner.buildResult loudHost "t" "id root" "failed" 1 "no such user" "no such user"

theorem run_result_is_lost_loud :
    let db := TaskService.oneResult
    let engine : Engine := { foreignKeys := false }
    let pending :=
      (createPendingResult engine Faults.none TaskService.newYear "t" "q" "id root" db).2
    let afterRun := (executeAndPersist loudHost Faults.none "t" "id root" "q" pending).2
    let afterRecord := (recordResult engine Faults.none "s" TaskService.newYear "t" "id root"
      loudResult.outcome db).2
    TaskRunner.run loudHost "t" "id root" = .ok loudResult ∧
      ¬ PersistedFaithfully loudResult TaskService.newYear "q" "s" "t" "id root" afterRun
        afterRecord ∧
      ∃ d e, listedRun afterRun "t" "q" = [d] ∧ listedRun afterRecord "t" "s" = [e] ∧
        (OutcomeAgrees d e ↔ loudResult.stderrTail = "") :=
  have hreturned : TaskRunner.run loudHost "t" "id root" = .ok loudResult := by decide
  ⟨hreturned, run_result_is_lost { foreignKeys := false } loudHost TaskService.newYear "t"
    "id root" "q" "s" loudResult TaskService.oneResult hreturned (by decide) (by decide)
    (by decide)⟩

/-- The listing of that run is not faithful. -/
theorem loud_run_not_faithful :
    let db := TaskService.oneResult
    let engine : Engine := { foreignKeys := false }
    let pending :=
      (createPendingResult engine Faults.none TaskService.newYear "t" "q" "id root" db).2
    TaskRunner.run loudHost "t" "id root" = .ok loudResult ∧
      ¬ PersistedFaithfully loudResult TaskService.newYear "q" "s" "t" "id root"
        (executeAndPersist loudHost Faults.none "t" "id root" "q" pending).2
        (recordResult engine Faults.none "s" TaskService.newYear "t" "id root"
          loudResult.outcome db).2 :=
  ⟨by decide, not_persistedFaithfully⟩

end Taskq
