import Taskq.Lib.IsoFormat
import Taskq.Lib.Keyed

/-!
# Taskq.Models

The tables behind the task API (`models/task.py`, `models/task_result.py`).

A row is what the database stores: text columns hold Unicode text, a `DateTime`
column holds a wall-clock reading without a zone. On the Python side the same row
carries `datetime`s with an offset; SQLAlchemy's SQLite dialect drops the offset
when it stores one (`ResultRow.store`) and reads a naive one back
(`ResultRow.load`).

The unique keys of the two tables are fields of `Database`, so no operation on it
can break them. The foreign key `task_results.task_id` is not among them: SQLite
does not enforce it unless a connection asks for that.
-/

namespace Taskq

/-- What a repository call can raise. -/
inductive StorageError
  /-- `IntegrityError`: a unique key is taken, or a foreign key is violated. -/
  | integrity
  /-- `UnicodeEncodeError`: a text has no UTF-8 form. -/
  | unicodeEncode
  /-- `ValueError`: a time that cannot be read, a row that is not there. -/
  | value
  /-- Anything else the driver raises: the database is locked, gone, corrupt. -/
  | unavailable
  deriving DecidableEq, Repr

/-- A `tasks` row. -/
structure Task where
  id : String
  name : String
  command : String
  status : String
  createdAt : DateTime
  deriving DecidableEq

/-- A `task_results` row, with its times as `τ`. -/
structure ResultRow (τ : Type) where
  id : String
  taskId : String
  command : String
  status : String
  createdAt : τ
  exitCode : Option ℤ
  stdoutTail : String
  stderrTail : String
  durationMs : Option ℤ
  finishedAt : Option τ
  deriving DecidableEq

/-- The width of the columns `stdout_tail` and `stderr_tail`. -/
def tailWidth : ℕ := 8000

/-- A stored `task_results` row. -/
abbrev TaskResult := ResultRow DateTime

namespace ResultRow

def mapTime {τ υ : Type} (f : τ → υ) (row : ResultRow τ) : ResultRow υ where
  id := row.id
  taskId := row.taskId
  command := row.command
  status := row.status
  createdAt := f row.createdAt
  exitCode := row.exitCode
  stdoutTail := row.stdoutTail
  stderrTail := row.stderrTail
  durationMs := row.durationMs
  finishedAt := row.finishedAt.map f

/-- What an `INSERT` writes: the wall clock, the offset dropped. -/
def store (row : ResultRow PyDateTime) : TaskResult := row.mapTime PyDateTime.wall

/-- What a `SELECT` reads: naive times. -/
def load (row : TaskResult) : ResultRow PyDateTime := row.mapTime fun d => ⟨d, none⟩

end ResultRow

/-- The two tables, with their unique keys. -/
@[ext] structure Database where
  tasks : List Task
  results : List TaskResult
  task_ids : (tasks.map Task.id).Nodup
  task_names : (tasks.map Task.name).Nodup
  result_ids : (results.map ResultRow.id).Nodup

namespace Database

def empty : Database where
  tasks := []
  results := []
  task_ids := List.nodup_nil
  task_names := List.nodup_nil
  result_ids := List.nodup_nil

/-- `DELETE FROM tasks WHERE id = :id`. -/
def removeTask (db : Database) (id : String) : Database where
  tasks := db.tasks.filter fun t => t.id ≠ id
  results := db.results
  task_ids := db.task_ids.sublist (List.filter_sublist.map _)
  task_names := db.task_names.sublist (List.filter_sublist.map _)
  result_ids := db.result_ids

/-- `DELETE FROM task_results WHERE task_id = :taskId`. -/
def removeResults (db : Database) (taskId : String) : Database where
  tasks := db.tasks
  results := db.results.filter fun r => r.taskId ≠ taskId
  task_ids := db.task_ids
  task_names := db.task_names
  result_ids := db.result_ids.sublist (List.filter_sublist.map _)

/-- `INSERT INTO tasks`; `none` when the primary key or the name is taken. -/
def insertTask? (db : Database) (t : Task) : Option Database :=
  if h : t.id ∉ db.tasks.map Task.id ∧ t.name ∉ db.tasks.map Task.name then
    some
      { tasks := t :: db.tasks
        results := db.results
        task_ids := List.nodup_cons.mpr ⟨h.1, db.task_ids⟩
        task_names := List.nodup_cons.mpr ⟨h.2, db.task_names⟩
        result_ids := db.result_ids }
  else none

/-- `INSERT INTO task_results`; `none` when the primary key is taken. -/
def insertResult? (db : Database) (row : TaskResult) : Option Database :=
  if h : row.id ∈ db.results.map ResultRow.id then none
  else
    some
      { tasks := db.tasks
        results := row :: db.results
        task_ids := db.task_ids
        task_names := db.task_names
        result_ids := List.nodup_cons.mpr ⟨h, db.result_ids⟩ }

/-- `UPDATE task_results SET .. WHERE id = :id`, the assignments as a function that
leaves the key alone. -/
def updateResult (db : Database) (id : String) (set : TaskResult → TaskResult)
    (hset : ∀ row, (set row).id = row.id) : Database where
  tasks := db.tasks
  results := db.results.map fun row => if row.id = id then set row else row
  task_ids := db.task_ids
  task_names := db.task_names
  result_ids := by
    have hids : (db.results.map fun row => if row.id = id then set row else row).map ResultRow.id
        = db.results.map ResultRow.id := by
      rw [List.map_map]
      refine List.map_congr_left fun row _ => ?_
      show (if row.id = id then set row else row).id = row.id
      split_ifs
      · exact hset row
      · rfl
    rw [hids]
    exact db.result_ids

/-- The task under a key. -/
def findTask? (db : Database) (id : String) : Option Task := db.tasks.find? fun t => t.id = id

/-- The row under a key. -/
def findResult? (db : Database) (id : String) : Option TaskResult :=
  db.results.find? fun row => row.id = id

@[simp] theorem removeTask_tasks (db : Database) (id : String) :
    (db.removeTask id).tasks = db.tasks.filter fun t => t.id ≠ id := rfl

@[simp] theorem removeResults_results (db : Database) (id : String) :
    (db.removeResults id).results = db.results.filter fun r => r.taskId ≠ id := rfl

theorem insertResult?_some {db : Database} {row : TaskResult}
    (h : row.id ∉ db.results.map ResultRow.id) :
    ∃ db', db.insertResult? row = some db' ∧ db'.tasks = db.tasks ∧
      db'.results = row :: db.results := by
  rw [insertResult?, dif_neg h]
  exact ⟨_, rfl, rfl, rfl⟩

theorem insertTask?_cases (db : Database) (t : Task) :
    (t.id ∉ db.tasks.map Task.id ∧ t.name ∉ db.tasks.map Task.name ∧
        ∃ db', db.insertTask? t = some db' ∧ db'.tasks = t :: db.tasks ∧
          db'.results = db.results) ∨
      (¬ (t.id ∉ db.tasks.map Task.id ∧ t.name ∉ db.tasks.map Task.name) ∧
        db.insertTask? t = none) := by
  unfold insertTask?
  split_ifs with h
  · exact Or.inl ⟨h.1, h.2, _, rfl, rfl, rfl⟩
  · exact Or.inr ⟨h, rfl⟩

theorem findTask?_of_mem {db : Database} {t : Task} (h : t ∈ db.tasks) :
    db.findTask? t.id = some t :=
  Keyed.find?_eq_some db.task_ids h rfl

theorem findResult?_of_mem {db : Database} {row : TaskResult} (h : row ∈ db.results) :
    db.findResult? row.id = some row :=
  Keyed.find?_eq_some db.result_ids h rfl

/-- A task row with this id is there. -/
def HasTask (db : Database) (id : String) : Prop := ∃ t ∈ db.tasks, t.id = id

/-- A result row of this task is there. -/
def HasResult (db : Database) (taskId : String) : Prop := ∃ r ∈ db.results, r.taskId = taskId

instance (db : Database) (id : String) : Decidable (db.HasTask id) :=
  inferInstanceAs (Decidable (∃ t ∈ db.tasks, t.id = id))

instance (db : Database) (id : String) : Decidable (db.HasResult id) :=
  inferInstanceAs (Decidable (∃ r ∈ db.results, r.taskId = id))

theorem findTask?_eq_none {db : Database} {id : String} :
    db.findTask? id = none ↔ ¬ db.HasTask id := by
  simp [findTask?, HasTask, List.find?_eq_none]

theorem removeTask_eq_self {db : Database} {id : String} :
    db.removeTask id = db ↔ ¬ db.HasTask id := by
  refine ⟨?_, ?_⟩
  · intro h hmem
    obtain ⟨t, ht, hid⟩ := hmem
    rw [← h, removeTask_tasks] at ht
    simp [hid] at ht
  · intro h
    refine Database.ext ?_ rfl
    rw [removeTask_tasks, List.filter_eq_self]
    intro t ht
    simpa using fun hid => h ⟨t, ht, hid⟩

theorem removeResults_eq_self {db : Database} {id : String} :
    db.removeResults id = db ↔ ¬ db.HasResult id := by
  refine ⟨?_, ?_⟩
  · intro h hmem
    obtain ⟨r, hr, hid⟩ := hmem
    rw [← h, removeResults_results] at hr
    simp [hid] at hr
  · intro h
    refine Database.ext rfl ?_
    rw [removeResults_results, List.filter_eq_self]
    intro r hr
    simpa using fun hid => h ⟨r, hr, hid⟩

end Database

end Taskq
