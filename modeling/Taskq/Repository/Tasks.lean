import Taskq.Lib.Transaction
import Taskq.Repository.TaskList

/-!
# Taskq.Repository.Tasks

`TaskRepository` (`repository/tasks.py`), its listing apart: each method opens a
session of its own, and what it stages is durable when that session commits. A taken
primary key and a taken name are one error to `create`, which reads its row again after
the commit, in a transaction of its own.

The engine says whether the connection enforces foreign keys. Where it does, a
`DELETE` of a task row that result rows still refer to is rejected when the
statement ends.
-/

namespace Taskq

open Transaction TaskList

/-- How the engine was set up. -/
structure Engine where
  /-- `PRAGMA foreign_keys`. -/
  foreignKeys : Bool
  deriving DecidableEq

/-- `_build_engine`: SQLite leaves foreign keys alone unless it is asked not to. -/
def buildEngine : Engine where
  foreignKeys := false

namespace TaskRepository

/-- What `create` and `get` raise. -/
inductive TaskError
  | duplicateTaskName
  | taskNotFound
  /-- `InvalidRequestError`: there is no row to refresh. -/
  | invalidRequest
  /-- Anything that comes from the driver as it is. -/
  | storage (e : StorageError)
  deriving DecidableEq, Repr

/-- The row `create` inserts; `id` and `now` are its column defaults. -/
def newTask (id : String) (now : DateTime) (name command : String) : Task where
  id := id
  name := name
  command := command
  status := "queued"
  createdAt := now

/-- The statement of `create`. -/
def insertBody (t : Task) : Body Database StorageError Unit := fun db =>
  match db.insertTask? t with
  | none => .error .integrity
  | some db' => .ok ((), db')

/-- The first transaction of `create`: an `IntegrityError`, whatever its cause, is
reported as a taken name. -/
def insert (faults : Faults StorageError) (t : Task) : Call Database TaskError Unit := fun db =>
  match transaction faults (insertBody t) db with
  | (.error .integrity, db') => (.error .duplicateTaskName, db')
  | (.error e, db') => (.error (.storage e), db')
  | (.ok _, db') => (.ok (), db')

/-- `session.refresh`, the second one: the row is read again, and may be gone. -/
def refresh (fault : Option StorageError) (id : String) : Call Database TaskError TaskDict :=
  fun db =>
    match fault with
    | some e => (.error (.storage e), db)
    | none =>
        match db.findTask? id with
        | none => (.error .invalidRequest, db)
        | some t => (.ok (taskToDict t), db)

/-- `create`. What it has committed stays when it cannot be read again. -/
def create (faults : Faults StorageError) (fault : Option StorageError) (id : String)
    (now : DateTime) (name command : String) : Call Database TaskError TaskDict :=
  seq (insert faults (newTask id now name command)) (refresh fault id)

/-- `get`. -/
def get (faults : Faults StorageError) (taskId : String) : Call Database TaskError TaskDict :=
  fun db =>
    match transaction faults (fun db => .ok (db.findTask? taskId, db)) db with
    | (.error e, db') => (.error (.storage e), db')
    | (.ok none, db') => (.error .taskNotFound, db')
    | (.ok (some t), db') => (.ok (taskToDict t), db')

/-- The statement of `delete_task_row`. -/
def deleteTaskRowBody (engine : Engine) (taskId : String) : Body Database StorageError Unit :=
  fun db =>
    if engine.foreignKeys ∧ db.HasTask taskId ∧ db.HasResult taskId then .error .integrity
    else .ok ((), db.removeTask taskId)

/-- `delete_task_row`. -/
def deleteTaskRow (engine : Engine) (faults : Faults StorageError) (taskId : String) :
    Call Database StorageError Unit :=
  transaction faults (deleteTaskRowBody engine taskId)

/-- The statement of `delete_results_for_task`. -/
def deleteResultsBody (taskId : String) : Body Database StorageError ℕ := fun db =>
  .ok ((db.results.filter fun r => r.taskId = taskId).length, db.removeResults taskId)

/-- `delete_results_for_task`; returns how many rows it removed. -/
def deleteResultsForTask (faults : Faults StorageError) (taskId : String) :
    Call Database StorageError ℕ :=
  transaction faults (deleteResultsBody taskId)

/-- What the first transaction does, when nothing goes wrong around it. -/
theorem insert_cases (t : Task) (db : Database) :
    (t.id ∉ db.tasks.map Task.id ∧ t.name ∉ db.tasks.map Task.name ∧
        ∃ db', insert Faults.none t db = (.ok (), db') ∧
          db'.tasks = t :: db.tasks ∧ db'.results = db.results) ∨
      (¬ (t.id ∉ db.tasks.map Task.id ∧ t.name ∉ db.tasks.map Task.name) ∧
        insert Faults.none t db = (.error .duplicateTaskName, db)) := by
  rcases db.insertTask?_cases t with
    ⟨hid, hname, db', hinsert, htasks, hresults⟩ | ⟨htaken, hinsert⟩
  · refine Or.inl ⟨hid, hname, db', ?_, htasks, hresults⟩
    have hbody : insertBody t db = .ok ((), db') := by
      rw [insertBody, hinsert]
    rw [insert, transaction_ok hbody]
  · refine Or.inr ⟨htaken, ?_⟩
    have hbody : insertBody t db = .error .integrity := by
      rw [insertBody, hinsert]
    rw [insert, transaction_error hbody]

/-- Reading again changes nothing. -/
@[simp] theorem refresh_database (fault : Option StorageError) (id : String) (db : Database) :
    (refresh fault id db).2 = db := by
  unfold refresh
  split
  · rfl
  · split <;> rfl

/-- A row that is still there is read as it is. -/
theorem refresh_of_mem {t : Task} {db : Database} (ht : t ∈ db.tasks) :
    refresh none t.id db = (.ok (taskToDict t), db) := by
  simp only [refresh, Database.findTask?_of_mem ht]

theorem refresh_of_not_mem {id : String} {db : Database} (h : ¬ db.HasTask id) :
    refresh none id db = (.error .invalidRequest, db) := by
  simp only [refresh, Database.findTask?_eq_none.mpr h]

/-- What `create` does, when nothing goes wrong around it and nothing else goes on. -/
theorem create_cases (id : String) (now : DateTime) (name command : String) (db : Database) :
    (id ∉ db.tasks.map Task.id ∧ name ∉ db.tasks.map Task.name ∧
        ∃ db', create Faults.none none id now name command db
            = (.ok (taskToDict (newTask id now name command)), db') ∧
          db'.tasks = newTask id now name command :: db.tasks ∧ db'.results = db.results) ∨
      (¬ (id ∉ db.tasks.map Task.id ∧ name ∉ db.tasks.map Task.name) ∧
        create Faults.none none id now name command db = (.error .duplicateTaskName, db)) := by
  rcases insert_cases (newTask id now name command) db with
    ⟨hid, hname, db', hinsert, htasks, hresults⟩ | ⟨htaken, hinsert⟩
  · refine Or.inl ⟨hid, hname, db', ?_, htasks, hresults⟩
    have hmem : newTask id now name command ∈ db'.tasks := by
      rw [htasks]
      exact List.mem_cons_self
    exact (seq_of_ok hinsert).trans (refresh_of_mem hmem)
  · exact Or.inr ⟨htaken, seq_of_error hinsert⟩

/-- What `get` does, when nothing goes wrong around it. -/
theorem get_cases (taskId : String) (db : Database) :
    (∃ t ∈ db.tasks, t.id = taskId ∧ get Faults.none taskId db = (.ok (taskToDict t), db)) ∨
      (¬ db.HasTask taskId ∧ get Faults.none taskId db = (.error .taskNotFound, db)) := by
  by_cases htask : db.HasTask taskId
  · obtain ⟨t, ht, rfl⟩ := htask
    refine Or.inl ⟨t, ht, rfl, ?_⟩
    rw [get, transaction_ok rfl, Database.findTask?_of_mem ht]
  · refine Or.inr ⟨htask, ?_⟩
    have hnone : db.findTask? taskId = none := by
      rw [Database.findTask?, List.find?_eq_none]
      intro t ht
      simpa using fun hid => htask ⟨t, ht, hid⟩
    rw [get, transaction_ok rfl, hnone]

/-- The foreign key rejects the `DELETE` exactly while result rows refer to the row. -/
theorem deleteTaskRowBody_cases (engine : Engine) (taskId : String) (db : Database) :
    (engine.foreignKeys = true ∧ db.HasTask taskId ∧ db.HasResult taskId ∧
      deleteTaskRowBody engine taskId db = .error .integrity) ∨
    (¬ (engine.foreignKeys = true ∧ db.HasTask taskId ∧ db.HasResult taskId) ∧
      deleteTaskRowBody engine taskId db = .ok ((), db.removeTask taskId)) := by
  unfold deleteTaskRowBody
  split_ifs with h
  · exact Or.inl ⟨h.1, h.2.1, h.2.2, rfl⟩
  · exact Or.inr ⟨h, rfl⟩

/-- The second delete either removes every result row of the task or changes nothing. -/
theorem deleteResultsForTask_durable (faults : Faults StorageError) (taskId : String)
    (db : Database) :
    (deleteResultsForTask faults taskId db).2 =
      if faults = Faults.none then db.removeResults taskId else db := by
  split_ifs with h
  · rw [h, deleteResultsForTask, transaction_ok rfl]
  · obtain ⟨e, he⟩ := transaction_fault h (deleteResultsBody taskId) db
    rw [deleteResultsForTask, he]

end TaskRepository

end Taskq
