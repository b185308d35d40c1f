import Taskq.Repository.Tasks

/-!
# Taskq.Service.Tasks

`TaskService.delete_task` (`service/tasks.py`). Its docstring promises both deletes
in a single transaction; it calls two repository methods, each with a session and a
commit of its own, the task row first. `deleteTask_all_or_nothing` says exactly
when the durable state is nevertheless one of the two promised ones.
-/

namespace Taskq

open Transaction TaskRepository

namespace TaskService

/-- `delete_task`: `row` and `results` are what goes wrong in its two sessions. -/
def deleteTask (engine : Engine) (row results : Faults StorageError) (taskId : String) :
    Call Database StorageError ℕ :=
  seq (deleteTaskRow engine row taskId) (deleteResultsForTask results taskId)

/-- The task row and all of its result rows are gone, and nothing else is. -/
def deleted (db : Database) (taskId : String) : Database :=
  (db.removeTask taskId).removeResults taskId

/-- The durable state after the call is the state before it, or the one without the
task and its results. -/
def AllOrNothing (engine : Engine) (row results : Faults StorageError) (taskId : String)
    (db : Database) : Prop :=
  (deleteTask engine row results taskId db).2 = db ∨
    (deleteTask engine row results taskId db).2 = deleted db taskId

/-- The first session leaves the database as it is. -/
theorem deleteTask_of_first_fails {engine : Engine} {row results : Faults StorageError}
    {taskId : String} {db : Database} {e : StorageError}
    (h : deleteTaskRow engine row taskId db = (.error e, db)) :
    (deleteTask engine row results taskId db).2 = db := by
  rw [deleteTask, seq_of_error h]

/-- The task row is gone; what remains depends on the second session. -/
theorem deleteTask_of_first_commits {engine : Engine} {row : Faults StorageError}
    {taskId : String} {db : Database} (results : Faults StorageError)
    (h : deleteTaskRow engine row taskId db = (.ok (), db.removeTask taskId)) :
    (deleteTask engine row results taskId db).2 =
      if results = Faults.none then deleted db taskId else db.removeTask taskId := by
  rw [deleteTask, seq_of_ok h, deleteResultsForTask_durable]
  rfl

/-- Half a delete: the task row is gone and its results are not. -/
theorem removeTask_not_allOrNothing {db : Database} {taskId : String} (htask : db.HasTask taskId)
    (hresult : db.HasResult taskId) :
    db.removeTask taskId ≠ db ∧ db.removeTask taskId ≠ deleted db taskId := by
  refine ⟨?_, ?_⟩
  · intro h
    exact Database.removeTask_eq_self.mp h htask
  · intro h
    exact Database.removeResults_eq_self.mp h.symm hresult

/-- **When deleting a task is all or nothing**: exactly when the first session fails,
the second one does not, the engine enforces foreign keys, or the task row or the
result rows are not there to begin with. -/
theorem deleteTask_all_or_nothing (engine : Engine) (row results : Faults StorageError)
    (taskId : String) (db : Database) :
    AllOrNothing engine row results taskId db ↔
      row ≠ Faults.none ∨ results = Faults.none ∨ engine.foreignKeys = true ∨
        ¬ db.HasTask taskId ∨ ¬ db.HasResult taskId := by
  by_cases hrow : row = Faults.none
  swap
  · obtain ⟨e, he⟩ := transaction_fault hrow (deleteTaskRowBody engine taskId) db
    exact iff_of_true (Or.inl (deleteTask_of_first_fails he)) (Or.inl hrow)
  rcases deleteTaskRowBody_cases engine taskId db with ⟨hfk, htask, hresult, hbody⟩ | ⟨hfk, hbody⟩
  · -- the foreign key rejects the first `DELETE`
    have hfirst : deleteTaskRow engine row taskId db = (.error .integrity, db) := by
      rw [deleteTaskRow, hrow]
      simp [transaction, Faults.none, hbody]
    exact iff_of_true (Or.inl (deleteTask_of_first_fails hfirst))
      (Or.inr (Or.inr (Or.inl hfk)))
  have hfirst : deleteTaskRow engine row taskId db = (.ok (), db.removeTask taskId) := by
    rw [deleteTaskRow, hrow, transaction_ok hbody]
  have hafter := deleteTask_of_first_commits results hfirst
  by_cases hresults : results = Faults.none
  · rw [if_pos hresults] at hafter
    exact iff_of_true (Or.inr hafter) (Or.inr (Or.inl hresults))
  rw [if_neg hresults] at hafter
  by_cases htask : db.HasTask taskId
  swap
  · have hself := Database.removeTask_eq_self.mpr htask
    exact iff_of_true (Or.inl (hafter.trans hself)) (by tauto)
  by_cases hresult : db.HasResult taskId
  swap
  · have hself : deleted db taskId = db.removeTask taskId :=
      Database.removeResults_eq_self.mpr hresult
    exact iff_of_true (Or.inr (hafter.trans hself.symm)) (by tauto)
  · -- the second session fails with the task row already gone for good
    obtain ⟨hdb, hdeleted⟩ := removeTask_not_allOrNothing htask hresult
    refine iff_of_false ?_ (by tauto)
    intro hend
    rcases hend with h | h
    · exact hdb (hafter.symm.trans h)
    · exact hdeleted (hafter.symm.trans h)

/-- Midnight of the first day of 2026. -/
def newYear : DateTime where
  year := 2026
  month := 1
  day := 1
  hour := 0
  minute := 0
  second := 0
  microsecond := 0
  valid := by decide

/-- One task with one result. -/
def oneResult : Database where
  tasks := [
    { id := "t", name := "backup", command := "true", status := "queued", createdAt := newYear }]
  results := [
    { id := "r", taskId := "t", command := "true", status := "pending", createdAt := newYear,
      exitCode := none, stdoutTail := "", stderrTail := "", durationMs := none,
      finishedAt := none }]
  task_ids := by decide
  task_names := by decide
  result_ids := by decide

/-- The database is locked when the second delete runs: the task is gone and its
result is an orphan. -/
theorem deleteTask_half_done :
    ¬ AllOrNothing { foreignKeys := false } Faults.none
      { statement := some .unavailable, commit := none } "t" oneResult := by
  intro hend
  rcases hend with h | h
  · exact absurd (congrArg Database.tasks h) (by decide)
  · exact absurd (congrArg Database.results h) (by decide)

end TaskService

end Taskq
