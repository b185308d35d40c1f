import Taskq.Api.Runs
import Taskq.Lib.Machine
import Taskq.Lib.Registry

/-!
# Taskq.Api.Tasks

The task handlers (`api/routes/tasks.py`, `trigger_run` of `api/routes/runs.py`) as a
caller sees them who is let through: statuses, and what is left in the database.

What they stand for is a map from id to name and command in which names are distinct
(`Registry`). Ids are drawn by `uuid4` on the way in; that it never draws one twice is
assumed where it matters (`FreshIds`).
-/

namespace Taskq.TaskApi

open Transaction TaskList TaskRepository

/-! ### The handlers -/

/-- The arguments of a `Problem`. -/
structure Problem where
  status : ℕ
  title : String
  detail : String
  type : String
  deriving DecidableEq, Repr

def conflict : Problem where
  status := 409
  title := "Conflict"
  detail := "Task name already exists."
  type := "about:blank"

def notFound : Problem where
  status := 404
  title := "Not found"
  detail := "Resource not found."
  type := "about:blank"

/-- What a handler raises. -/
inductive Raised
  | problem (p : Problem)
  /-- An exception it does not catch. -/
  | unhandled (e : TaskError)
  deriving DecidableEq, Repr

/-- `create_task` catches `DuplicateTaskName`. -/
def createRaised : TaskError → Raised
  | .duplicateTaskName => .problem conflict
  | e => .unhandled e

/-- `create_task`; `fault` is what goes wrong where the new row is read again. -/
def createTask (faults : Faults StorageError) (fault : Option StorageError) (id : String)
    (now : DateTime) (body : TaskCreate) : Call Database Raised TaskDict := fun db =>
  match TaskRepository.create faults fault id now body.name body.command db with
  | (.error e, db') => (.error (createRaised e), db')
  | (.ok d, db') => (.ok d, db')

/-- `get_task`. -/
def getTask (faults : Faults StorageError) (taskId : String) : Call Database Raised TaskDict :=
  fun db =>
    match TaskRepository.get faults taskId db with
    | (.error .taskNotFound, db') => (.error (.problem notFound), db')
    | (.error e, db') => (.error (.unhandled e), db')
    | (.ok d, db') => (.ok d, db')

/-- The dict `delete_task` returns. -/
structure Deleted where
  deleted : Bool
  id : String
  deriving DecidableEq, Repr

/-- `delete_task`. It catches `TaskNotFound`, which neither delete raises: what they can
raise is a `StorageError`. -/
def deleteTask (engine : Engine) (row results : Faults StorageError) (taskId : String) :
    Call Database Raised Deleted := fun db =>
  match TaskService.deleteTask engine row results taskId db with
  | (.error e, db') => (.error (.unhandled (.storage e)), db')
  | (.ok _, db') => (.ok { deleted := true, id := taskId }, db')

/-- `trigger_run`; `read` and `write` are what goes wrong in its two sessions. -/
def triggerRun (engine : Engine) (read write : Faults StorageError) (runId : String)
    (now : DateTime) (taskId : String) : Call Database Raised String := fun db =>
  match TaskRepository.get read taskId db with
  | (.error .taskNotFound, db') => (.error (.problem notFound), db')
  | (.error e, db') => (.error (.unhandled e), db')
  | (.ok task, db') =>
      match Taskq.triggerRun engine write now taskId task.command runId db' with
      | (.error e, db'') => (.error (.unhandled (.storage e)), db'')
      | (.ok id, db'') => (.ok id, db'')

/-- The status of the response; `success` is the route's own. -/
def status {α : Type} (success : ℕ) : Except Raised α → ℕ
  | .ok _ => success
  | .error (.problem p) => p.status
  | .error (.unhandled _) => 500

/-! ### A history of requests -/

/-- A request, with the ids and times that are drawn while it is handled. -/
inductive Request
  | create (id : String) (now : DateTime) (body : TaskCreate)
  | get (taskId : String)
  | delete (taskId : String)
  | run (taskId runId : String) (now : DateTime)

/-- What happens next: a request is handled, or a run in the background is completed. -/
inductive Event
  | request (r : Request)
  | completion (host : Host) (taskId command runId : String)

/-- Handle a request, where the engine is the one of `_build_engine` and nothing goes
wrong in the database. -/
def respond (db : Database) : Request → ℕ × Database
  | .create id now body =>
      let out := createTask Faults.none none id now body db
      (status 201 out.1, out.2)
  | .get taskId =>
      let out := getTask Faults.none taskId db
      (status 200 out.1, out.2)
  | .delete taskId =>
      let out := deleteTask buildEngine Faults.none Faults.none taskId db
      (status 200 out.1, out.2)
  | .run taskId runId now =>
      let out := triggerRun buildEngine Faults.none Faults.none runId now taskId db
      (status 202 out.1, out.2)

/-- One event; a completion is not answered. -/
def handle : Machine.Step Database Event (Option ℕ) := fun db e =>
  match e with
  | .request r => ((respond db r).1, (respond db r).2)
  | .completion host taskId command runId =>
      (none, (executeAndPersist host Faults.none taskId command runId db).2)

/-! ### What the API is for -/

/-- What is known of a task under its id. -/
structure Entry where
  name : String
  command : String
  deriving DecidableEq, Repr

abbrev TaskMap := Registry String Entry Entry.name

open scoped Classical in
/-- The answers a map of tasks gives. -/
noncomputable def Spec.respond (m : TaskMap) : Request → ℕ × TaskMap
  | .create id _ body =>
      if h : m.Taken body.name then (409, m)
      else (201, m.insert id { name := body.name, command := body.command } h)
  | .get taskId => (if m.Has taskId then 200 else 404, m)
  | .delete taskId => if m.Has taskId then (200, m.erase taskId) else (404, m)
  | .run taskId _ _ => (if m.Has taskId then 202 else 404, m)

/-- A completion is no request, and no business of the map. -/
noncomputable def Spec.handle : Machine.Step TaskMap Event (Option ℕ) := fun m e =>
  match e with
  | .request r => ((Spec.respond m r).1, (Spec.respond m r).2)
  | .completion _ _ _ _ => (none, m)

def Entry.ofTask (t : Task) : Entry where
  name := t.name
  command := t.command

/-- The task that is found under an id is the one row that has it. -/
theorem findTask?_iff {db : Database} {id : String} {v : Entry} :
    (db.findTask? id).map Entry.ofTask = some v ↔
      ∃ t ∈ db.tasks, t.id = id ∧ Entry.ofTask t = v := by
  refine ⟨?_, ?_⟩
  · intro h
    obtain ⟨t, hfind, hv⟩ := Option.map_eq_some_iff.mp h
    exact ⟨t, List.mem_of_find?_eq_some hfind, by simpa using List.find?_some hfind, hv⟩
  · intro h
    obtain ⟨t, ht, rfl, hv⟩ := h
    rw [Database.findTask?_of_mem ht, Option.map_some, hv]

/-- The map a database stands for. -/
def taskMap (db : Database) : TaskMap where
  entry id := (db.findTask? id).map Entry.ofTask
  finite := by
    refine (db.tasks.map Task.id).finite_toSet.subset ?_
    intro id hid
    obtain ⟨v, hv⟩ := Option.ne_none_iff_exists'.mp hid
    obtain ⟨t, ht, rfl, -⟩ := findTask?_iff.mp hv
    exact List.mem_map_of_mem ht
  distinct := by
    intro i j v w hv hw hname
    obtain ⟨t, ht, rfl, rfl⟩ := findTask?_iff.mp hv
    obtain ⟨t', ht', rfl, rfl⟩ := findTask?_iff.mp hw
    rw [List.inj_on_of_nodup_map db.task_names ht ht' hname]

theorem taskMap_entry {db : Database} {id : String} {v : Entry} :
    (taskMap db).entry id = some v ↔ ∃ t ∈ db.tasks, t.id = id ∧ Entry.ofTask t = v :=
  findTask?_iff

theorem has_taskMap {db : Database} {id : String} : (taskMap db).Has id ↔ db.HasTask id := by
  refine ⟨?_, ?_⟩
  · intro h
    obtain ⟨v, hv⟩ := h
    obtain ⟨t, ht, hid, -⟩ := taskMap_entry.mp hv
    exact ⟨t, ht, hid⟩
  · intro h
    obtain ⟨t, ht, hid⟩ := h
    exact ⟨_, taskMap_entry.mpr ⟨t, ht, hid, rfl⟩⟩

theorem taken_taskMap {db : Database} {name : String} :
    (taskMap db).Taken name ↔ name ∈ db.tasks.map Task.name := by
  rw [List.mem_map]
  refine ⟨?_, ?_⟩
  · intro h
    obtain ⟨id, v, hv, rfl⟩ := h
    obtain ⟨t, ht, -, rfl⟩ := taskMap_entry.mp hv
    exact ⟨t, ht, rfl⟩
  · intro h
    obtain ⟨t, ht, rfl⟩ := h
    exact ⟨t.id, Entry.ofTask t, taskMap_entry.mpr ⟨t, ht, rfl, rfl⟩, rfl⟩

/-- Two maps are one when they have the same entries. -/
theorem taskMap_ext {db : Database} {m : TaskMap}
    (h : ∀ id v, (∃ t ∈ db.tasks, t.id = id ∧ Entry.ofTask t = v) ↔ m.entry id = some v) :
    taskMap db = m := by
  refine Registry.ext ?_
  funext id
  refine Option.ext fun v => ?_
  rw [← h id v]
  exact taskMap_entry

theorem taskMap_congr {db db' : Database} (h : db'.tasks = db.tasks) :
    taskMap db' = taskMap db := by
  refine taskMap_ext fun id v => ?_
  rw [h, taskMap_entry]

theorem taskMap_insert {db db' : Database} {t : Task} (h : db'.tasks = t :: db.tasks)
    (hid : t.id ∉ db.tasks.map Task.id) (hfree : ¬ (taskMap db).Taken (Entry.ofTask t).name) :
    taskMap db' = (taskMap db).insert t.id (Entry.ofTask t) hfree := by
  refine taskMap_ext fun id v => ?_
  rw [Registry.insert_entry, h, List.exists_mem_cons_iff]
  split_ifs with heq
  · subst heq
    -- nobody else has the id
    have hnone : ¬ ∃ t' ∈ db.tasks, t'.id = t.id ∧ Entry.ofTask t' = v := by
      intro hother
      obtain ⟨t', ht', heq, -⟩ := hother
      exact hid (List.mem_map.mpr ⟨t', ht', heq⟩)
    simp [hnone]
  · have hne : ¬ t.id = id := fun h => heq h.symm
    rw [taskMap_entry]
    simp [hne]

theorem taskMap_removeTask {db db' : Database} {id : String}
    (h : db'.tasks = (db.removeTask id).tasks) : taskMap db' = (taskMap db).erase id := by
  refine taskMap_ext fun j v => ?_
  rw [Registry.erase_entry, h, Database.removeTask_tasks]
  split_ifs with hj
  · refine iff_of_false ?_ (by simp)
    intro hleft
    obtain ⟨t, ht, hid, -⟩ := hleft
    simp [hid, hj] at ht
  · rw [taskMap_entry]
    refine exists_congr fun t => ?_
    simp only [List.mem_filter, ne_eq, decide_not, Bool.not_eq_true']
    refine ⟨?_, ?_⟩
    · intro hleft
      obtain ⟨⟨ht, -⟩, hrest⟩ := hleft
      exact ⟨ht, hrest⟩
    · intro hright
      obtain ⟨ht, hid, hv⟩ := hright
      exact ⟨⟨ht, by simp [hid, hj]⟩, hid, hv⟩

/-! ### One request -/

/-- Deleting a task answers 200 whether it is there or not. -/
theorem respond_delete (db : Database) (taskId : String) :
    respond db (.delete taskId) = (200, TaskService.deleted db taskId) := by
  have hrow : deleteTaskRow buildEngine Faults.none taskId db = (.ok (), db.removeTask taskId) :=
    transaction_ok rfl
  have hresults : deleteResultsForTask Faults.none taskId (db.removeTask taskId)
      = (.ok _, TaskService.deleted db taskId) := transaction_ok rfl
  have hdelete := (seq_of_ok hrow).trans hresults
  rw [← TaskService.deleteTask] at hdelete
  simp only [respond, deleteTask, hdelete, status]

theorem respond_create_cases (id : String) (now : DateTime) (body : TaskCreate) (db : Database) :
    (id ∉ db.tasks.map Task.id ∧ body.name ∉ db.tasks.map Task.name ∧
        ∃ db', respond db (.create id now body) = (201, db') ∧
          db'.tasks = newTask id now body.name body.command :: db.tasks ∧
          db'.results = db.results) ∨
      (¬ (id ∉ db.tasks.map Task.id ∧ body.name ∉ db.tasks.map Task.name) ∧
        respond db (.create id now body) = (409, db)) := by
  rcases create_cases id now body.name body.command db with
    ⟨hid, hname, db', hcreate, htasks, hresults⟩ | ⟨htaken, hcreate⟩
  · refine Or.inl ⟨hid, hname, db', ?_, htasks, hresults⟩
    simp only [respond, createTask, hcreate, status]
  · refine Or.inr ⟨htaken, ?_⟩
    simp only [respond, createTask, hcreate, createRaised, status, conflict]

theorem respond_get_cases (taskId : String) (db : Database) :
    (db.HasTask taskId ∧ respond db (.get taskId) = (200, db)) ∨
      (¬ db.HasTask taskId ∧ respond db (.get taskId) = (404, db)) := by
  rcases get_cases taskId db with ⟨t, ht, hid, hget⟩ | ⟨hnone, hget⟩
  · refine Or.inl ⟨⟨t, ht, hid⟩, ?_⟩
    simp only [respond, getTask, hget, status]
  · refine Or.inr ⟨hnone, ?_⟩
    simp only [respond, getTask, hget, status, notFound]

/-- A run is triggered where the task is there and its own key is new. -/
theorem respond_run_cases (taskId runId : String) (now : DateTime) (db : Database) :
    (db.HasTask taskId ∧ runId ∉ db.results.map ResultRow.id ∧
        ∃ db', respond db (.run taskId runId now) = (202, db') ∧ db'.tasks = db.tasks ∧
          ∃ row, row.id = runId ∧ db'.results = row :: db.results) ∨
      (db.HasTask taskId ∧ runId ∈ db.results.map ResultRow.id ∧
        respond db (.run taskId runId now) = (500, db)) ∨
      (¬ db.HasTask taskId ∧ respond db (.run taskId runId now) = (404, db)) := by
  rcases get_cases taskId db with ⟨t, ht, hid, hget⟩ | ⟨hnone, hget⟩
  · have hengine : buildEngine.foreignKeys = false := rfl
    rcases TaskResultRepository.createPendingResult_cases hengine now taskId runId t.command db with
      ⟨hfresh, db', hcreate, htasks, hresults⟩ | ⟨htaken, hcreate⟩
    · refine Or.inl ⟨⟨t, ht, hid⟩, hfresh, db', ?_, htasks, _, rfl, hresults⟩
      simp only [respond, triggerRun, hget, Taskq.triggerRun, taskToDict, hcreate, status]
    · refine Or.inr (Or.inl ⟨⟨t, ht, hid⟩, htaken, ?_⟩)
      simp only [respond, triggerRun, hget, Taskq.triggerRun, taskToDict, hcreate, status]
  · refine Or.inr (Or.inr ⟨hnone, ?_⟩)
    simp only [respond, triggerRun, hget, status, notFound]

/-- A deleted name can be used again. -/
theorem deleted_name_reusable {db : Database} {t : Task} (ht : t ∈ db.tasks) (id : String)
    (now : DateTime) (body : TaskCreate) (hid : id ∉ db.tasks.map Task.id)
    (hname : body.name = t.name) :
    (respond (respond db (.delete t.id)).2 (.create id now body)).1 = 201 := by
  rw [respond_delete]
  have hmap : taskMap (TaskService.deleted db t.id) = (taskMap db).erase t.id :=
    taskMap_removeTask rfl
  have hfree := Registry.not_taken_erase (taskMap_entry.mpr ⟨t, ht, rfl, rfl⟩)
  rw [← hmap, taken_taskMap] at hfree
  rcases respond_create_cases id now body (TaskService.deleted db t.id) with
    ⟨-, -, db', hrespond, -⟩ | ⟨htaken, -⟩
  · rw [hrespond]
  · refine absurd ⟨?_, ?_⟩ htaken
    · exact fun hmem => hid ((List.filter_sublist.map _).subset hmem)
    · rw [hname]
      exact hfree

/-- The ids an event draws are new. -/
def DrawsFresh (db : Database) : Event → Prop
  | .request (.create id _ _) => id ∉ db.tasks.map Task.id
  | .request (.run _ runId _) => runId ∉ db.results.map ResultRow.id
  | _ => True

/-- A delete, if it is one, is of a task that is in the map. -/
def DeletesPresent (m : TaskMap) : Event → Prop
  | .request (.delete taskId) => m.Has taskId
  | _ => True

/-- Every event leaves the task map that it should. -/
theorem taskMap_handle {db : Database} {e : Event} (hfresh : DrawsFresh db e) :
    taskMap (handle db e).2 = (Spec.handle (taskMap db) e).2 := by
  cases e with
  | completion host taskId command runId =>
      exact taskMap_congr (executeAndPersist_frame host Faults.none taskId command runId db).1
  | request r =>
      cases r with
      | create id now body =>
          show taskMap (respond db (.create id now body)).2
            = (Spec.respond (taskMap db) (.create id now body)).2
          rcases respond_create_cases id now body db with
            ⟨hid, hname, db', hrespond, htasks, -⟩ | ⟨htaken, hrespond⟩
          · have hfree : ¬ (taskMap db).Taken body.name := taken_taskMap.not.mpr hname
            rw [hrespond, Spec.respond, dif_neg hfree]
            exact taskMap_insert htasks hid hfree
          · have htaken' : (taskMap db).Taken body.name := by
              by_contra hfree
              exact htaken ⟨hfresh, taken_taskMap.not.mp hfree⟩
            rw [hrespond, Spec.respond, dif_pos htaken']
      | get taskId =>
          show taskMap (respond db (.get taskId)).2 = taskMap db
          rcases respond_get_cases taskId db with ⟨-, hrespond⟩ | ⟨-, hrespond⟩ <;> rw [hrespond]
      | delete taskId =>
          show taskMap (respond db (.delete taskId)).2
            = (Spec.respond (taskMap db) (.delete taskId)).2
          rw [respond_delete, Spec.respond]
          split_ifs with hhas
          · show taskMap (TaskService.deleted db taskId) = (taskMap db).erase taskId
            exact taskMap_removeTask rfl
          · show taskMap (TaskService.deleted db taskId) = taskMap db
            have hself := congrArg Database.tasks
              (Database.removeTask_eq_self.mpr (has_taskMap.not.mp hhas))
            exact taskMap_congr hself
      | run taskId runId now =>
          show taskMap (respond db (.run taskId runId now)).2 = taskMap db
          rcases respond_run_cases taskId runId now db with
            ⟨-, -, db', hrespond, htasks, -⟩ | ⟨-, -, hrespond⟩ | ⟨-, hrespond⟩
          · rw [hrespond]
            exact taskMap_congr htasks
          · rw [hrespond]
          · rw [hrespond]

/-- Every event but the delete of a task that is not there is answered as it should be. -/
theorem answer_handle_iff {db : Database} {e : Event} (hfresh : DrawsFresh db e) :
    (handle db e).1 = (Spec.handle (taskMap db) e).1 ↔ DeletesPresent (taskMap db) e := by
  cases e with
  | completion host taskId command runId => exact iff_of_true rfl trivial
  | request r =>
      cases r with
      | create id now body =>
          refine iff_of_true (congrArg some ?_) trivial
          rcases respond_create_cases id now body db with
            ⟨hid, hname, db', hrespond, htasks, -⟩ | ⟨htaken, hrespond⟩
          · rw [hrespond, Spec.respond, dif_neg (taken_taskMap.not.mpr hname)]
          · have htaken' : (taskMap db).Taken body.name := by
              by_contra hfree
              exact htaken ⟨hfresh, taken_taskMap.not.mp hfree⟩
            rw [hrespond, Spec.respond, dif_pos htaken']
      | get taskId =>
          refine iff_of_true (congrArg some ?_) trivial
          rcases respond_get_cases taskId db with ⟨htask, hrespond⟩ | ⟨htask, hrespond⟩
          · rw [hrespond, Spec.respond, if_pos (has_taskMap.mpr htask)]
          · rw [hrespond, Spec.respond, if_neg (has_taskMap.not.mpr htask)]
      | delete taskId =>
          show some (respond db (.delete taskId)).1
            = some (Spec.respond (taskMap db) (.delete taskId)).1 ↔ (taskMap db).Has taskId
          rw [respond_delete, Spec.respond]
          split_ifs with hhas
          · exact iff_of_true rfl hhas
          · exact iff_of_false (by simp) hhas
      | run taskId runId now =>
          refine iff_of_true (congrArg some ?_) trivial
          rcases respond_run_cases taskId runId now db with
            ⟨htask, -, db', hrespond, -⟩ | ⟨-, htaken, -⟩ | ⟨htask, hrespond⟩
          · rw [hrespond, Spec.respond, if_pos (has_taskMap.mpr htask)]
          · exact absurd htaken hfresh
          · rw [hrespond, Spec.respond, if_neg (has_taskMap.not.mpr htask)]

/-! ### Whole histories -/

/-- The task id an event draws. -/
def taskDraw : Event → Option String
  | .request (.create id _ _) => some id
  | _ => none

/-- The run id an event draws. -/
def runDraw : Event → Option String
  | .request (.run _ runId _) => some runId
  | _ => none

/-- No id is drawn twice, and none that is in the database. -/
structure FreshIds (db : Database) (events : List Event) : Prop where
  tasks : (events.filterMap taskDraw).Nodup
  runs : (events.filterMap runDraw).Nodup
  new_tasks : ∀ id ∈ events.filterMap taskDraw, id ∉ db.tasks.map Task.id
  new_runs : ∀ id ∈ events.filterMap runDraw, id ∉ db.results.map ResultRow.id

instance (db : Database) (events : List Event) : Decidable (FreshIds db events) :=
  decidable_of_iff
    ((events.filterMap taskDraw).Nodup ∧ (events.filterMap runDraw).Nodup ∧
      (∀ id ∈ events.filterMap taskDraw, id ∉ db.tasks.map Task.id) ∧
      ∀ id ∈ events.filterMap runDraw, id ∉ db.results.map ResultRow.id)
    ⟨fun ⟨h₁, h₂, h₃, h₄⟩ => ⟨h₁, h₂, h₃, h₄⟩, fun ⟨h₁, h₂, h₃, h₄⟩ => ⟨h₁, h₂, h₃, h₄⟩⟩

/-- The only ids an event adds are the ones it draws. -/
theorem handle_ids (db : Database) (e : Event) :
    (∀ id ∈ (handle db e).2.tasks.map Task.id, id ∈ db.tasks.map Task.id ∨ taskDraw e = some id) ∧
      ∀ id ∈ (handle db e).2.results.map ResultRow.id,
        id ∈ db.results.map ResultRow.id ∨ runDraw e = some id := by
  have hsame : (∀ id ∈ db.tasks.map Task.id, id ∈ db.tasks.map Task.id ∨ taskDraw e = some id) ∧
      ∀ id ∈ db.results.map ResultRow.id,
        id ∈ db.results.map ResultRow.id ∨ runDraw e = some id :=
    ⟨fun _ => Or.inl, fun _ => Or.inl⟩
  cases e with
  | completion host taskId command runId =>
      obtain ⟨htasks, hkeys⟩ := executeAndPersist_frame host Faults.none taskId command runId db
      have hids := congrArg (List.map Prod.fst) hkeys
      rw [List.map_map, List.map_map] at hids
      show (∀ id ∈ (executeAndPersist _ _ _ _ _ db).2.tasks.map Task.id, _) ∧
        ∀ id ∈ (executeAndPersist _ _ _ _ _ db).2.results.map ResultRow.id, _
      rw [htasks]
      refine ⟨hsame.1, fun id hid => Or.inl ?_⟩
      rw [← show _ = db.results.map ResultRow.id from hids]
      exact hid
  | request r =>
      cases r with
      | create id now body =>
          show (∀ i ∈ (respond db (.create id now body)).2.tasks.map Task.id, _) ∧
            ∀ i ∈ (respond db (.create id now body)).2.results.map ResultRow.id, _
          rcases respond_create_cases id now body db with
            ⟨-, -, db', hrespond, htasks, hresults⟩ | ⟨-, hrespond⟩
          · rw [hrespond]
            simp only [htasks, hresults, List.map_cons]
            refine ⟨fun i hi => ?_, fun _ => Or.inl⟩
            rcases List.mem_cons.mp hi with rfl | hi
            · exact Or.inr rfl
            · exact Or.inl hi
          · rw [hrespond]
            exact hsame
      | get taskId =>
          show (∀ i ∈ (respond db (.get taskId)).2.tasks.map Task.id, _) ∧
            ∀ i ∈ (respond db (.get taskId)).2.results.map ResultRow.id, _
          rcases respond_get_cases taskId db with ⟨-, hrespond⟩ | ⟨-, hrespond⟩ <;>
            rw [hrespond] <;> exact hsame
      | delete taskId =>
          show (∀ i ∈ (respond db (.delete taskId)).2.tasks.map Task.id, _) ∧
            ∀ i ∈ (respond db (.delete taskId)).2.results.map ResultRow.id, _
          rw [respond_delete]
          exact ⟨fun i hi => Or.inl ((List.filter_sublist.map _).subset hi),
            fun i hi => Or.inl ((List.filter_sublist.map _).subset hi)⟩
      | run taskId runId now =>
          show (∀ i ∈ (respond db (.run taskId runId now)).2.tasks.map Task.id, _) ∧
            ∀ i ∈ (respond db (.run taskId runId now)).2.results.map ResultRow.id, _
          rcases respond_run_cases taskId runId now db with
            ⟨-, -, db', hrespond, htasks, row, hrow, hresults⟩ | ⟨-, -, hrespond⟩ | ⟨-, hrespond⟩
          · rw [hrespond]
            simp only [htasks, hresults, List.map_cons]
            refine ⟨fun _ => Or.inl, fun i hi => ?_⟩
            rcases List.mem_cons.mp hi with rfl | hi
            · exact Or.inr (congrArg some hrow.symm)
            · exact Or.inl hi
          · rw [hrespond]
            exact hsame
          · rw [hrespond]
            exact hsame

theorem FreshIds.head {db : Database} {e : Event} {events : List Event}
    (h : FreshIds db (e :: events)) : DrawsFresh db e := by
  cases e with
  | completion => trivial
  | request r =>
      cases r with
      | create id now body => exact h.new_tasks id (by simp [taskDraw])
      | run taskId runId now => exact h.new_runs runId (by simp [runDraw])
      | get => trivial
      | delete => trivial

/-- What is drawn later is not what is drawn now. -/
theorem not_drawn_of_nodup {draw : Event → Option String} {e : Event} {events : List Event}
    (h : ((e :: events).filterMap draw).Nodup) {id : String} (hid : id ∈ events.filterMap draw) :
    draw e ≠ some id := by
  intro hdraw
  rw [List.filterMap_cons_some hdraw] at h
  exact (List.nodup_cons.mp h).1 hid

theorem FreshIds.tail {db : Database} {e : Event} {events : List Event}
    (h : FreshIds db (e :: events)) : FreshIds (handle db e).2 events := by
  obtain ⟨htasks, hruns⟩ := handle_ids db e
  have hrest : events.Sublist (e :: events) := List.sublist_cons_self e events
  constructor
  case tasks => exact h.tasks.sublist (hrest.filterMap _)
  case runs => exact h.runs.sublist (hrest.filterMap _)
  case new_tasks =>
    intro id hid hmem
    rcases htasks id hmem with hold | hdraw
    · exact h.new_tasks id ((hrest.filterMap _).subset hid) hold
    · exact not_drawn_of_nodup h.tasks hid hdraw
  case new_runs =>
    intro id hid hmem
    rcases hruns id hmem with hold | hdraw
    · exact h.new_runs id ((hrest.filterMap _).subset hid) hold
    · exact not_drawn_of_nodup h.runs hid hdraw

theorem FreshIds.along {db : Database} {events : List Event} (h : FreshIds db events) :
    Machine.Along handle DrawsFresh db events :=
  Machine.Along.of_invariant (fun _ _ _ hs => hs.head) (fun _ _ _ hs => hs.tail) h

/-- The database and its map go through any history side by side. -/
theorem handle_agreement :
    Machine.Agreement handle Spec.handle (fun db m => taskMap db = m) DrawsFresh
      DeletesPresent where
  answer := by
    rintro db _ e rfl hfresh
    exact answer_handle_iff hfresh
  step := by
    rintro db _ e rfl hfresh -
    exact taskMap_handle hfresh

/-- **The API refines the map of tasks if and only if** no task is deleted that is not
there: then, and only then, every request is answered as the map says. The tasks that
survive are those in the map in any case. -/
theorem taskApi_refines_iff {db : Database} {events : List Event} (hfresh : FreshIds db events) :
    (Machine.answers handle db events = Machine.answers Spec.handle (taskMap db) events ∧
        taskMap (Machine.final handle db events) = Machine.final Spec.handle (taskMap db) events) ↔
      Machine.Along Spec.handle DeletesPresent (taskMap db) events := by
  have hfinal : taskMap (Machine.final handle db events)
      = Machine.final Spec.handle (taskMap db) events := by
    refine Machine.final_rel (R := fun db m => taskMap db = m) ?_ rfl hfresh.along
    rintro db _ e rfl hfresh
    exact taskMap_handle hfresh
  rw [and_iff_left hfinal]
  exact handle_agreement.answers_eq_iff rfl hfresh.along

/-- A body that asks for a nightly backup. -/
def backupBody : TaskCreate where
  name := "backup"
  command := "true"
  name_accepted := by decide
  command_accepted := true_accepted

/-- The name is used, freed and used again. -/
def reuse : List Event :=
  [.request (.create "t" TaskService.newYear backupBody),
    .request (.run "t" "r" TaskService.newYear), .completion quietHost "t" "true" "r",
    .request (.create "u" TaskService.newYear backupBody), .request (.delete "t"),
    .request (.get "t"), .request (.create "v" TaskService.newYear backupBody)]

example : Machine.answers handle Database.empty reuse
    = [some 201, some 202, none, some 409, some 200, some 404, some 201] := by decide

theorem taskApi_refines_iff_reuse :
    FreshIds Database.empty reuse ∧
      ((Machine.answers handle Database.empty reuse
            = Machine.answers Spec.handle (taskMap Database.empty) reuse ∧
          taskMap (Machine.final handle Database.empty reuse)
            = Machine.final Spec.handle (taskMap Database.empty) reuse) ↔
        Machine.Along Spec.handle DeletesPresent (taskMap Database.empty) reuse) :=
  have hfresh : FreshIds Database.empty reuse := by decide
  ⟨hfresh, taskApi_refines_iff hfresh⟩

/-- Deleting from an empty table answers 200, not 404. -/
theorem delete_missing_answers_200 :
    FreshIds Database.empty [.request (.delete "t")] ∧
      ¬ (Machine.answers handle Database.empty [.request (.delete "t")]
            = Machine.answers Spec.handle (taskMap Database.empty) [.request (.delete "t")] ∧
          taskMap (Machine.final handle Database.empty [.request (.delete "t")])
            = Machine.final Spec.handle (taskMap Database.empty) [.request (.delete "t")]) := by
  refine ⟨by decide, ?_⟩
  intro h
  have hmissing : ¬ (taskMap Database.empty).Has "t" := has_taskMap.not.mpr (by decide)
  have hanswers := h.1
  simp [Machine.answers, handle, respond_delete, Spec.handle, Spec.respond, hmissing] at hanswers

end Taskq.TaskApi
