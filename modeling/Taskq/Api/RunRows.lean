import Taskq.Api.RunHistory
import Taskq.Service.Tail

/-!
# Taskq.Api.RunRows

What a `task_results` row can look like, whatever the requests do to each other.

A row is inserted by `create_pending_result` and assigned to by `update_result`, with what
the runner returns, and by nothing else. What holds of these two holds of every row in
every state that a run of the service comes to (`rows_kept`). The runner's tail comes from
`_decode`, so no row ever holds a text that `redact_text` would still find something in.
-/

namespace Taskq.Interleaving

open Transaction TaskResultRepository Transition Redact Scrub Unicode

/-! ### Every row comes from one of two places -/

/-- The rows after a transaction: the ones there were, a pending one, or one that the
runner's dict was assigned to. -/
theorem mem_results_advance {d : Draw} {pc : Pc} {db : Database} {row : TaskResult}
    (h : row ∈ (advance d pc db).2.results) :
    row ∈ db.results ∨
      (∃ taskId command, row = (pendingRow d.now taskId d.id command).store) ∨
      ∃ taskId command r, ∃ old ∈ db.results, TaskRunner.run d.host taskId command = .ok r ∧
        row = setOutcome r.outcome ⟨d.host.now, some UtcOffset.utc⟩ old := by
  cases pc with
  | arrived r =>
      cases r with
      | createTask body =>
          have hpc : Pc.arrived (.createTask body) ≠ .finished := nofun
          have htransacts := advance_transacts d hpc db
          generalize advance d (.arrived (.createTask body)) db = out at h htransacts
          cases htransacts with
          | create _ hresults => exact Or.inl (hresults ▸ h)
          | refuse => exact Or.inl h
      | triggerRun taskId =>
          have hpc : Pc.arrived (.triggerRun taskId) ≠ .finished := nofun
          have htransacts := advance_transacts d hpc db
          generalize advance d (.arrived (.triggerRun taskId)) db = out at h htransacts
          cases htransacts <;> exact Or.inl h
      | deleteTask taskId => exact Or.inl h
  | inserted id =>
      simp only [advance, TaskRepository.refresh_database] at h
      exact Or.inl h
  | found taskId command =>
      have hengine : buildEngine.foreignKeys = false := rfl
      rcases createPendingResult_cases hengine d.now taskId d.id command db with
        ⟨-, db', hcreate, -, hresults⟩ | ⟨-, hcreate⟩
      · simp only [advance, Taskq.triggerRun, hcreate, hresults] at h
        rcases List.mem_cons.mp h with rfl | h
        · exact Or.inr (Or.inl ⟨taskId, command, rfl⟩)
        · exact Or.inl h
      · simp only [advance, Taskq.triggerRun, hcreate] at h
        exact Or.inl h
  | running taskId command runId =>
      simp only [advance] at h
      cases hrun : TaskRunner.run d.host taskId command with
      | error e =>
          rw [executeAndPersist_error hrun] at h
          exact Or.inl h
      | ok r =>
          by_cases hgone : runId ∈ db.results.map ResultRow.id
          · obtain ⟨old, hold, rfl⟩ := List.mem_map.mp hgone
            rw [executeAndPersist_completes hrun hold rfl] at h
            obtain ⟨other, hother, rfl⟩ := List.mem_map.mp h
            split_ifs
            · exact Or.inr (Or.inr ⟨taskId, command, r, other, hother, hrun, rfl⟩)
            · exact Or.inl hother
          · obtain ⟨e, he⟩ := executeAndPersist_gone d.host taskId command hgone
            rw [he] at h
            exact Or.inl h
  | rowDeleted taskId => exact Or.inl (List.mem_of_mem_filter h)
  | finished => exact Or.inl h

/-- The runner works on one of these machines. -/
def OnHosts (K : Host → Prop) : System → Event → Prop
  | _, .arrive _ => True
  | _, .turn _ d => K d.host

/-- **Row rule.** What holds of a pending row, and of any row that the runner's dict is
assigned to on one of the machines, holds of every row in every state. -/
theorem rows_kept {db : Database} {P : TaskResult → Prop} {K : Host → Prop}
    (hpending : ∀ now taskId runId command, P (pendingRow now taskId runId command).store)
    (hcompleted : ∀ host taskId command r old, K host →
      TaskRunner.run host taskId command = .ok r →
        P (setOutcome r.outcome ⟨host.now, some UtcOffset.utc⟩ old))
    (hdb : ∀ row ∈ db.results, P row) {s : System}
    (h : ((interleavings db).restrict (OnHosts K)).Reachable s) :
    ∀ row ∈ s.database.results, P row := by
  refine h.invariant (I := fun s => ∀ row ∈ s.database.results, P row) ?_ ?_
  · intro s hs
    obtain rfl : s = _ := hs
    exact hdb
  · intro s a s' _ hs hstep row hrow
    obtain ⟨hnext, hhost⟩ := hstep
    cases a with
    | arrive r =>
        cases hnext
        exact hs row hrow
    | turn i d =>
        obtain ⟨pc, -, -, rfl⟩ := next_turn hnext
        rcases mem_results_advance hrow with
          hold | ⟨taskId, command, rfl⟩ | ⟨taskId, command, r, old, hold, hrun, rfl⟩
        · exact hs row hold
        · exact hpending _ _ _ _
        · exact hcompleted _ _ _ _ _ hhost hrun

/-- Any machine may be the one. -/
theorem reachable_onHosts {db : Database} {s : System} (h : (interleavings db).Reachable s) :
    ((interleavings db).restrict (OnHosts fun _ => True)).Reachable s := by
  refine h.invariant (fun _ hs => .init hs) fun _ a _ _ hreach hstep => hreach.step ⟨hstep, ?_⟩
  cases a <;> trivial

/-! ### What a row says of its run -/

/-- The row of a run that has not come back, or of one that has. -/
structure Coherent (row : TaskResult) : Prop where
  status : row.status ∈ ["pending", "done", "failed", "timeout"]
  exit_code : row.exitCode = none ↔ row.status = "pending"
  duration_ms : row.durationMs = none ↔ row.status = "pending"
  finished_at : row.finishedAt = none ↔ row.status = "pending"
  done : row.status = "done" ↔ row.exitCode = some 0
  timeout : row.status = "timeout" → row.exitCode = some timeoutExitCode ∧ row.stdoutTail = ""
  pending : row.status = "pending" → row.stdoutTail = ""
  stderr_tail : row.stderrTail = ""

theorem coherent_pending (now : DateTime) (taskId runId command : String) :
    Coherent (pendingRow now taskId runId command).store := by
  constructor <;> simp [pendingRow, ResultRow.store, ResultRow.mapTime]

theorem coherent_setOutcome {host : Host} {taskId command : String} {r : RunResult}
    (h : TaskRunner.run host taskId command = .ok r) (finished : PyDateTime) (old : TaskResult) :
    Coherent (setOutcome r.outcome finished old) := by
  obtain ⟨p, hreport⟩ := TaskRunner.run_ok h
  cases TaskRunner.report_cases hreport with
  | notFound => constructor <;> simp [setOutcome, RunResult.outcome, TaskRunner.buildResult]
  | exited code out err =>
      by_cases hcode : code = 0
      · constructor <;> simp [setOutcome, RunResult.outcome, TaskRunner.buildResult, hcode]
      · constructor <;> simp [setOutcome, RunResult.outcome, TaskRunner.buildResult, hcode]
  | held code => constructor <;> simp [setOutcome, RunResult.outcome, TaskRunner.buildResult,
      timeoutExitCode]
  | timedOut => constructor <;> simp [setOutcome, RunResult.outcome, TaskRunner.buildResult,
      timeoutExitCode]

/-- **No row contradicts itself.** Where none does at the start, in every state of every run of the
service a result row is pending, with nothing of an outcome, or it is done with exit code 0, failed
with another, or timed out with the code for that and no output; there is never anything in
`stderr_tail`. -/
theorem rows_coherent {db : Database} (hdb : ∀ row ∈ db.results, Coherent row) {s : System}
    (h : (interleavings db).Reachable s) : ∀ row ∈ s.database.results, Coherent row := by
  exact rows_kept coherent_pending
    (fun _ _ _ _ old _ hrun => coherent_setOutcome hrun _ old) hdb (reachable_onHosts h)

theorem rows_coherent_quiet :
    ∃ s, (interleavings oneTask).Reachable s ∧ s.database.results.map ResultRow.status = ["done"] ∧
      ∀ row ∈ s.database.results, Coherent row := by
  have hdb : ∀ row ∈ oneTask.results, Coherent row := by
    simp [oneTask, TaskService.oneResult, Database.removeResults]
  have hrun : ((Lts.exec System.next ⟨oneTask, []⟩ (oneRun quietHost)).map fun s =>
      decide (s.database.results.map ResultRow.status = ["done"])) = some true := by decide
  obtain ⟨s, hs, hend⟩ := Option.map_eq_some_iff.mp hrun
  have hreach : (interleavings oneTask).Reachable s :=
    Lts.Reachable.exec (.init rfl) (oneRun quietHost) hs
  exact ⟨s, hreach, of_decide_eq_true hend, rows_coherent hdb hreach⟩

/-! ### What is left in a row of what the program wrote -/

/-- The tail fits its column, and there is nothing in it that `redact_text` looks for. -/
structure Scrubbed (data : CharacterData) (row : TaskResult) : Prop where
  fits : row.stdoutTail.length ≤ tailWidth
  free : ∀ p ∈ patterns data, p.Free (PyStr.ofString row.stdoutTail)

/-- The machine decodes as `_decode` does. -/
def Decodes (data : CharacterData) (host : Host) : Prop := host.decode = Tail.columnTail data

variable {data : CharacterData}

theorem scrubbed_of_empty {row : TaskResult} (h : row.stdoutTail = "") : Scrubbed data row := by
  constructor
  case fits => simp [h]
  case free =>
    intro p hp
    rw [PyStr.ofString_eq_nil.mpr h]
    exact Pattern.free_nil p

theorem scrubbed_of_columnTail {row : TaskResult} {stream : List Byte}
    (h : row.stdoutTail = Tail.columnTail data stream) : Scrubbed data row := by
  have htail : PyStr.ofString row.stdoutTail = Tail.decode data (some stream) := by
    rw [h, Tail.ofString_columnTail]
  constructor
  case fits =>
    have hlength : row.stdoutTail.length = (PyStr.ofString row.stdoutTail).length := by
      rw [PyStr.ofString, PyStr.ofChars, List.length_map, String.length_toList]
    rw [hlength, htail, Tail.decode_eq]
    refine (length_redactText_le data _).trans ?_
    rw [List.length_drop, tailWidth, Tail.tailLimit]
    omega
  case free =>
    rw [htail, Tail.decode_eq, redactText_foldl]
    exact Pattern.foldl_free marker_ne_nil (fun p₀ h₀ p hp => spares h₀ hp) _

/-- **No secret stays in a row.** Where none is in a row at the start, whatever programs print, and
however their runs cross with other requests, in every state each row's tail fits its column and
has nothing left that any of the patterns of `redact_text` matches. -/
theorem rows_scrubbed {db : Database} (hdb : ∀ row ∈ db.results, Scrubbed data row) {s : System}
    (h : ((interleavings db).restrict (OnHosts (Decodes data))).Reachable s) :
    ∀ row ∈ s.database.results, Scrubbed data row := by
  refine rows_kept (fun now taskId runId command => scrubbed_of_empty rfl) ?_ hdb h
  intro host taskId command r old hhost hrun
  have htail : (setOutcome r.outcome ⟨host.now, some UtcOffset.utc⟩ old).stdoutTail
      = r.stdoutTail := strOr_empty _
  obtain ⟨p, hreport⟩ := TaskRunner.run_ok hrun
  cases TaskRunner.report_cases hreport with
  | notFound => exact scrubbed_of_empty htail
  | held code => exact scrubbed_of_empty htail
  | timedOut => exact scrubbed_of_empty htail
  | exited code out err =>
      exact scrubbed_of_columnTail (htail.trans (congrFun hhost out))

/-- A machine on which every program prints a key. -/
def leakyHost : Host where
  exec _ := .ok (.exited 0 (['s', 'k', '-', '1', '2', '3', '4', '5', '6', '7', '8', '!'].map
    fun c => byte c.toNat) [])
  decode := Tail.columnTail asciiData
  elapsedMs := 5
  now := TaskService.newYear

theorem rows_scrubbed_leaky :
    ∃ s, ((interleavings oneTask).restrict (OnHosts (Decodes asciiData))).Reachable s ∧
      s.database.results.map ResultRow.stdoutTail = ["[REDACTED]!"] ∧
        ∀ row ∈ s.database.results, Scrubbed asciiData row := by
  have hdb : ∀ row ∈ oneTask.results, Scrubbed asciiData row := by
    simp [oneTask, TaskService.oneResult, Database.removeResults]
  have hrun : ((Lts.exec System.next ⟨oneTask, []⟩ (oneRun leakyHost)).map fun s =>
      decide (s.database.results.map ResultRow.stdoutTail = ["[REDACTED]!"])) = some true := by
    decide
  obtain ⟨s, hs, hend⟩ := Option.map_eq_some_iff.mp hrun
  have hreach : ((interleavings oneTask).restrict (OnHosts (Decodes asciiData))).Reachable s := by
    refine Lts.Reachable.exec_of_forall (.init rfl) (oneRun leakyHost) (fun a ha _ => ?_) hs
    simp only [oneRun, List.mem_cons, List.not_mem_nil, or_false] at ha
    rcases ha with rfl | rfl | rfl | rfl
    · trivial
    all_goals exact rfl
  exact ⟨s, hreach, of_decide_eq_true hend, rows_scrubbed hdb hreach⟩

end Taskq.Interleaving
