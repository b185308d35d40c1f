import Taskq.Api.Forbidden
import Taskq.Lib.Transition

/-!
# Taskq.Api.Access

Who can change what, over whole runs of a deployment.

A deployment is the app beside the table of its keys. Keys are created and revoked from
outside, requests are served one after the other with whatever goes wrong in their
transactions, and background bodies come to their ends, in any order. What a handler can do to the
two tables (`Touches`) it does when every dependency of its route has let the key through, so a
row needs a writer to appear and an admin to go away.
-/

namespace Taskq.Access

open Http TaskList Transaction Transition Unicode

/-! ### What the handlers do to the tables -/

/-- From one database to another, by the handler of this operation. -/
inductive Touches (db : Database) : Operation → Database → Prop
  | nothing {op} : Touches db op db
  | create {t db'} (htasks : db'.tasks = t :: db.tasks) (hresults : db'.results = db.results) :
      Touches db .createTask db'
  | trigger {taskId row db'} (htasks : db'.tasks = db.tasks)
      (hresults : db'.results = row :: db.results) : Touches db (.triggerRun taskId) db'
  | deleteRow {taskId} : Touches db (.deleteTask taskId) (db.removeTask taskId)
  | delete {taskId} : Touches db (.deleteTask taskId) (TaskService.deleted db taskId)

section Handlers

variable {db : Database}

theorem handled_snd {α : Type} (reply : α → Reply) (call : Call Database TaskApi.Raised α) :
    (handled reply call db).2 = (call db).2 := by
  unfold handled
  split <;> simp [*]

variable (db) in
theorem insert_inv (faults : Faults StorageError) (t : Task) :
    (∃ db', TaskRepository.insert faults t db = (.ok (), db') ∧ db'.tasks = t :: db.tasks ∧
        db'.results = db.results) ∨
      TaskRepository.insert faults t db = (.error .duplicateTaskName, db) ∨
      ∃ e, TaskRepository.insert faults t db = (.error (.storage e), db) := by
  unfold TaskRepository.insert
  rcases transaction_cases faults (TaskRepository.insertBody t) db with
    ⟨e, he⟩ | ⟨u, db', -, hbody, hok⟩
  · rw [he]
    cases e with
    | integrity => exact Or.inr (Or.inl rfl)
    | _ => exact Or.inr (Or.inr ⟨_, rfl⟩)
  · rw [hok]
    unfold TaskRepository.insertBody at hbody
    rcases db.insertTask?_cases t with ⟨-, -, db'', hinsert, htasks, hresults⟩ | ⟨-, hinsert⟩
    · rw [hinsert] at hbody
      cases hbody
      exact Or.inl ⟨_, rfl, htasks, hresults⟩
    · rw [hinsert] at hbody
      cases hbody

variable (db) in
/-- A task that is stored is answered, unless it cannot be read again; else nothing is done. -/
theorem createTask_inv (faults : Faults StorageError) (fault : Option StorageError) (id : String)
    (now : DateTime) (body : TaskCreate) :
    (∃ t db', t = TaskRepository.newTask id now body.name body.command ∧
        db'.tasks = t :: db.tasks ∧ db'.results = db.results ∧
        (TaskApi.createTask faults fault id now body db = (.ok (taskToDict t), db') ∨
          ∃ e, TaskApi.createTask faults fault id now body db = (.error (.unhandled e), db'))) ∨
      TaskApi.createTask faults fault id now body db = (.error (.problem TaskApi.conflict), db) ∨
      ∃ e, TaskApi.createTask faults fault id now body db = (.error (.unhandled e), db) := by
  unfold TaskApi.createTask TaskRepository.create
  rcases insert_inv db faults (TaskRepository.newTask id now body.name body.command) with
    ⟨db', hinsert, htasks, hresults⟩ | hinsert | ⟨e, hinsert⟩
  · rw [seq_of_ok hinsert]
    refine Or.inl ⟨_, db', rfl, htasks, hresults, ?_⟩
    cases fault with
    | some e => exact Or.inr ⟨_, rfl⟩
    | none =>
        have hmem : TaskRepository.newTask id now body.name body.command ∈ db'.tasks := by
          rw [htasks]
          exact List.mem_cons_self
        have hrefresh : TaskRepository.refresh none id db' = _ :=
          TaskRepository.refresh_of_mem hmem
        rw [hrefresh]
        exact Or.inl rfl
  · rw [seq_of_error hinsert]
    exact Or.inr (Or.inl rfl)
  · rw [seq_of_error hinsert]
    exact Or.inr (Or.inr ⟨_, rfl⟩)

variable (db) in
theorem getTask_inv (faults : Faults StorageError) (taskId : String) :
    (∃ t ∈ db.tasks, TaskApi.getTask faults taskId db = (.ok (taskToDict t), db)) ∨
      (¬ db.HasTask taskId ∧
        TaskApi.getTask faults taskId db = (.error (.problem TaskApi.notFound), db)) ∨
      ∃ e, TaskApi.getTask faults taskId db = (.error (.unhandled e), db) := by
  unfold TaskApi.getTask TaskRepository.get
  rcases transaction_cases faults (fun db => .ok (db.findTask? taskId, db)) db with
    ⟨e, he⟩ | ⟨t, db', -, hbody, hok⟩
  · rw [he]
    exact Or.inr (Or.inr ⟨_, rfl⟩)
  · cases hbody
    rw [hok]
    cases hfind : db.findTask? taskId with
    | none => exact Or.inr (Or.inl ⟨Database.findTask?_eq_none.mp hfind, rfl⟩)
    | some t => exact Or.inl ⟨t, List.mem_of_find?_eq_some hfind, rfl⟩

variable (db) in
theorem createPendingResult_inv (engine : Engine) (faults : Faults StorageError) (now : DateTime)
    (taskId runId command : String) :
    (∃ d row db', TaskResultRepository.createPendingResult engine faults now taskId runId command db
          = (.ok d, db') ∧ db'.tasks = db.tasks ∧ db'.results = row :: db.results ∧
          row.id = runId ∧ row.taskId = taskId) ∨
      ∃ e, TaskResultRepository.createPendingResult engine faults now taskId runId command db =
        (.error e, db) := by
  rw [TaskResultRepository.createPendingResult]
  rcases transaction_cases faults (TaskResultRepository.insertBody engine
      (TaskResultRepository.pendingRow now taskId runId command)) db with
    ⟨e, he⟩ | ⟨d, db', -, hbody, hok⟩
  · exact Or.inr ⟨e, he⟩
  · unfold TaskResultRepository.insertBody Database.insertResult? at hbody
    split_ifs at hbody
    cases hbody
    exact Or.inl ⟨_, _, _, hok, rfl, rfl, rfl, rfl⟩

variable (db) in
/-- A run is accepted with its row, or refused without one. -/
theorem triggerRun_inv (engine : Engine) (read write : Faults StorageError) (runId : String)
    (now : DateTime) (taskId : String) :
    (∃ row db', TaskApi.triggerRun engine read write runId now taskId db = (.ok runId, db') ∧
        db'.tasks = db.tasks ∧ db'.results = row :: db.results ∧ row.id = runId ∧
        row.taskId = taskId) ∨
      (¬ db.HasTask taskId ∧ TaskApi.triggerRun engine read write runId now taskId db =
        (.error (.problem TaskApi.notFound), db)) ∨
      ∃ e, TaskApi.triggerRun engine read write runId now taskId db =
        (.error (.unhandled e), db) := by
  unfold TaskApi.triggerRun TaskRepository.get
  rcases transaction_cases read (fun db => .ok (db.findTask? taskId, db)) db with
    ⟨e, he⟩ | ⟨t, db', -, hbody, hok⟩
  · rw [he]
    exact Or.inr (Or.inr ⟨_, rfl⟩)
  · cases hbody
    rw [hok]
    cases hfind : db.findTask? taskId with
    | none => exact Or.inr (Or.inl ⟨Database.findTask?_eq_none.mp hfind, rfl⟩)
    | some task =>
        rcases createPendingResult_inv db engine write now taskId runId (taskToDict task).command
          with ⟨d, row, db', hcreate, htasks, hresults, hid, htask⟩ | ⟨e, hcreate⟩
        · simp only [Taskq.triggerRun, hcreate]
          exact Or.inl ⟨row, db', rfl, htasks, hresults, hid, htask⟩
        · simp only [Taskq.triggerRun, hcreate]
          exact Or.inr (Or.inr ⟨_, rfl⟩)

variable (db) in
theorem deleteTask_inv (engine : Engine) (row results : Faults StorageError) (taskId : String) :
    (∃ d, TaskApi.deleteTask engine row results taskId db =
        (.ok d, TaskService.deleted db taskId)) ∨
      ∃ e db', TaskApi.deleteTask engine row results taskId db = (.error (.unhandled e), db') ∧
        (db' = db ∨ db' = db.removeTask taskId) := by
  unfold TaskApi.deleteTask TaskService.deleteTask
  rcases transaction_cases row (TaskRepository.deleteTaskRowBody engine taskId) db with
    ⟨e, he⟩ | ⟨a, db', -, hbody, hok⟩
  · have hrow : TaskRepository.deleteTaskRow engine row taskId db = (.error e, db) := he
    rw [seq_of_error hrow]
    exact Or.inr ⟨_, _, rfl, Or.inl rfl⟩
  · unfold TaskRepository.deleteTaskRowBody at hbody
    split_ifs at hbody
    cases hbody
    have hrow : TaskRepository.deleteTaskRow engine row taskId db =
        (.ok (), db.removeTask taskId) := hok
    rw [seq_of_ok hrow]
    rcases transaction_cases results (TaskRepository.deleteResultsBody taskId)
        (db.removeTask taskId) with ⟨e, he⟩ | ⟨n, db', -, hbody, hok⟩
    · rw [TaskRepository.deleteResultsForTask, he]
      exact Or.inr ⟨_, _, rfl, Or.inr rfl⟩
    · cases hbody
      rw [TaskRepository.deleteResultsForTask, hok]
      exact Or.inl ⟨_, rfl⟩

theorem createTask_touches (faults : Faults StorageError) (fault : Option StorageError)
    (id : String) (now : DateTime) (body : TaskCreate) :
    Touches db .createTask (TaskApi.createTask faults fault id now body db).2 := by
  rcases createTask_inv db faults fault id now body with
    ⟨t, db', -, htasks, hresults, hcreate | ⟨e, hcreate⟩⟩ | hcreate | ⟨e, hcreate⟩
  · rw [hcreate]
    exact .create htasks hresults
  · rw [hcreate]
    exact .create htasks hresults
  · rw [hcreate]
    exact .nothing
  · rw [hcreate]
    exact .nothing

theorem getTask_snd (faults : Faults StorageError) (taskId : String) :
    (TaskApi.getTask faults taskId db).2 = db := by
  rcases getTask_inv db faults taskId with ⟨t, -, hget⟩ | ⟨-, hget⟩ | ⟨e, hget⟩ <;> rw [hget]

theorem triggerRun_touches (engine : Engine) (read write : Faults StorageError) (runId : String)
    (now : DateTime) (taskId : String) :
    Touches db (.triggerRun taskId)
      (TaskApi.triggerRun engine read write runId now taskId db).2 := by
  rcases triggerRun_inv db engine read write runId now taskId with
    ⟨row, db', htrigger, htasks, hresults, -⟩ | ⟨-, htrigger⟩ | ⟨e, htrigger⟩
  · rw [htrigger]
    exact .trigger htasks hresults
  · rw [htrigger]
    exact .nothing
  · rw [htrigger]
    exact .nothing

theorem deleteTask_touches (engine : Engine) (row results : Faults StorageError)
    (taskId : String) :
    Touches db (.deleteTask taskId) (TaskApi.deleteTask engine row results taskId db).2 := by
  rcases deleteTask_inv db engine row results taskId with
    ⟨d, hdelete⟩ | ⟨e, db', hdelete, rfl | rfl⟩
  · rw [hdelete]
    exact .delete
  · rw [hdelete]
    exact .nothing
  · rw [hdelete]
    exact .deleteRow

theorem listTasks_snd (site : Site) (draw : Draw) (query : Query) :
    (listTasks site draw query db).2 = db := by
  unfold listTasks
  split
  · rfl
  · split_ifs
    · rfl
    · split <;> rfl
    · rfl

theorem listRuns_snd (draw : Draw) (taskId : String) : (listRuns draw taskId db).2 = db := by
  unfold listRuns TaskResultRepository.listResultsForTask
  rcases transaction_cases draw.first (fun db => .ok
      ((TaskResultRepository.selectResults db taskId).map fun row =>
        toDict row.load, db)) db with
    ⟨e, he⟩ | ⟨rows, db', -, hbody, hok⟩
  · rw [he]
  · cases hbody
    rw [hok]

theorem handle_touches (site : Site) (draw : Draw) (decoded : Decoded) (query : Query)
    (rejections : ℕ) (op : Operation) :
    Touches db op (handle site draw decoded query rejections op db).2 := by
  cases op with
  | createTask =>
      simp only [handle]
      split
      · exact .nothing
      · rw [handled_snd]
        exact createTask_touches _ _ _ _ _
  | getTask taskId =>
      rw [handle, handled_snd, getTask_snd]
      exact .nothing
  | listTasks =>
      rw [handle, listTasks_snd]
      exact .nothing
  | deleteTask taskId =>
      rw [handle, handled_snd]
      exact deleteTask_touches _ _ _ _
  | triggerRun taskId =>
      rw [handle, handled_snd]
      exact triggerRun_touches _ _ _ _ _ _
  | listRuns taskId =>
      rw [handle, listRuns_snd]
      exact .nothing
  | healthz => exact .nothing
  | readyz => exact .nothing
  | metrics =>
      simp only [handle]
      split <;> exact .nothing
  | openapi => exact .nothing
  | page => exact .nothing

end Handlers

/-! ### What a request does -/

section Serve

variable {site : Site} {t : APIKeyTable} {scan : t.Scan} {app : App} {x : Exchange}

/-- The key that the request comes with is good enough: there is an active row for it, or it is
one of the keys that need none. -/
def Holds (site : Site) (t : APIKeyTable) (request : Request) (required : PyStr) : Prop :=
  ∃ key, apiKey request = some key ∧
    (ActiveRowMeets site.sha256 t key required ∨
      ∃ held, legacyKeyScopes key = some held ∧ Meets held required)

theorem holds_of_requireScope {request : Request} {required : PyStr} {p : Principal}
    (h : requireScope site scan (apiKey request) required = .ok p) :
    Holds site t request required := by
  unfold requireScope at h
  split at h
  next => cases h
  next => cases h
  next p' hverify =>
      cases hkey : apiKey request with
      | none =>
          rw [hkey] at hverify
          cases hverify
      | some key =>
          rw [hkey] at hverify
          rcases (sound_legacy site.sha256 scan key required).success p' hverify with
            ⟨-, hrow⟩ | hlegacy
          · exact ⟨key, hkey, Or.inl hrow⟩
          · exact ⟨key, hkey, Or.inr hlegacy⟩

theorem holds_of_authorize {request : Request} {dependencies : List PyStr}
    (h : authorize site scan (apiKey request) dependencies = .ok ()) :
    ∀ required ∈ dependencies, Holds site t request required := by
  induction dependencies with
  | nil => simp
  | cons first rest ih =>
      rw [authorize] at h
      split at h
      next => cases h
      next p hfirst =>
          rw [List.forall_mem_cons]
          exact ⟨holds_of_requireScope hfirst, ih h⟩

/-- **One request**: what it does to the tables its route's handler did, with a key that every
dependency of the route has let through. -/
theorem serve_touches (site : Site) (scan : t.Scan) (app : App) (x : Exchange) :
    (serve site scan app x).app.db = app.db ∨
      ∃ op, (∀ required ∈ op.dependencies, Holds site t x.arrival.request required) ∧
        Touches app.db op (serve site scan app x).app.db := by
  cases hverdict : (RateLimit.dispatch app.limiter x.arrival).1 with
  | rejected retryAfter =>
      have hserve : _ ∧ (serve site scan app x).app = app.metered x := serve_rejected hverdict
      exact Or.inl (by rw [hserve.2, App.metered])
  | passed =>
      have hserve : _ ∧ (serve site scan app x).app = _ := serve_passed hverdict
      cases hroute : route x.arrival.request with
      | error e =>
          rw [routes_unrouted hroute] at hserve
          exact Or.inl (by rw [hserve.2, App.metered])
      | ok op =>
          rw [routes_routed hroute] at hserve
          rw [hserve.2]
          simp only [outcome, endpoint]
          split
          next => exact Or.inl rfl
          next decoded hpayload =>
              split
              next => exact Or.inl rfl
              next hauth =>
                  exact Or.inr ⟨op, holds_of_authorize hauth, handle_touches _ _ _ _ _ _⟩

end Serve

/-! ### Deployments -/

/-- The app, and the keys it knows. -/
structure Deployment where
  app : App
  keys : APIKeyTable

inductive Event
  | key (op : APIKeyTable.Op)
  | request (x : Exchange)
  /-- A background body comes to its end; for the tables it does not matter which. -/
  | completion (host : Host) (faults : Faults StorageError) (taskId command runId : String)

/-- Of the storage's answer to the lookup of a key nothing is known. An exchange is served as a
whole: the handlers run in a pool of threads, but here no two of them overlap. -/
inductive Step (site : Site) : Deployment → Event → Deployment → Prop
  | key {d op} : Step site d (.key op) { d with keys := d.keys.step op }
  | request {d x} (scan : d.keys.Scan) :
      Step site d (.request x) { d with app := (serve site scan d.app x).app }
  | completion {d host faults taskId command runId} :
      Step site d (.completion host faults taskId command runId)
        { d with
          app :=
            { d.app with
              db := (executeAndPersist host faults taskId command runId d.app.db).2 } }

/-- The runs of a deployment. -/
def deployments (site : Site) (d₀ : Deployment) : Lts Deployment Event where
  init := (· = d₀)
  step := Step site

/-- The request of the event, if it is one, comes without a key that is good enough. -/
def Without (site : Site) (required : PyStr) : Deployment → Event → Prop
  | d, .request x => ¬ Holds site d.keys x.arrival.request required
  | _, _ => True

/-- The keys of the result rows, with whose they are. -/
def runKeys (db : Database) : List (String × String) := db.results.map fun r => (r.id, r.taskId)

theorem meets_write_of_admin {held : PyStr} (h : Meets held (PyStr.ofString "admin")) :
    Meets held (PyStr.ofString "write") := by
  obtain ⟨rank, required, hheld, hrequired, hle⟩ := h
  have hadmin : scopeRank (PyStr.ofString "admin") = some 2 := by decide
  have hwrite : scopeRank (PyStr.ofString "write") = some 1 := by decide
  rw [hadmin, Option.some.injEq] at hrequired
  exact ⟨rank, 1, hheld, hwrite, by omega⟩

/-- Who may delete may also write. -/
theorem holds_write_of_admin {site : Site} {t : APIKeyTable} {request : Request}
    (h : Holds site t request (PyStr.ofString "admin")) :
    Holds site t request (PyStr.ofString "write") := by
  obtain ⟨key, hkey, ⟨row, hrow, hhash, hactive, hmeets⟩ | ⟨held, hlegacy, hmeets⟩⟩ := h
  · exact ⟨key, hkey, Or.inl ⟨row, hrow, hhash, hactive, meets_write_of_admin hmeets⟩⟩
  · exact ⟨key, hkey, Or.inr ⟨held, hlegacy, meets_write_of_admin hmeets⟩⟩

section Runs

variable {site : Site} {d₀ d d' : Deployment} {a : Event} {db db' : Database} {op : Operation}

/-- Without a writer's route nothing happens, since an admin may write. -/
theorem Touches.frozen {t : APIKeyTable} {request : Request} (h : Touches db op db')
    (hholds : ∀ required ∈ op.dependencies, Holds site t request required)
    (hwithout : ¬ Holds site t request (PyStr.ofString "write")) : db' = db := by
  have hadmin : ¬ Holds site t request (PyStr.ofString "admin") :=
    fun hholds => hwithout (holds_write_of_admin hholds)
  cases h with
  | nothing => rfl
  | create => exact absurd (hholds _ List.mem_cons_self) hwithout
  | trigger => exact absurd (hholds _ List.mem_cons_self) hwithout
  | deleteRow => exact absurd (hholds _ List.mem_cons_self) hadmin
  | delete => exact absurd (hholds _ List.mem_cons_self) hadmin

/-- The rows of the first are rows of the second. -/
def Keeps (db db' : Database) : Prop :=
  db.tasks.Sublist db'.tasks ∧ (runKeys db).Sublist (runKeys db')

theorem Keeps.trans {db'' : Database} (h : Keeps db db') (h' : Keeps db' db'') :
    Keeps db db'' :=
  ⟨h.1.trans h'.1, h.2.trans h'.2⟩

theorem Keeps.of_eq (htasks : db'.tasks = db.tasks) (hkeys : runKeys db' = runKeys db) :
    Keeps db db' :=
  ⟨htasks ▸ .refl _, hkeys ▸ .refl _⟩

/-- Without an admin's route nothing is lost. -/
theorem Touches.keeps {t : APIKeyTable} {request : Request} (h : Touches db op db')
    (hholds : ∀ required ∈ op.dependencies, Holds site t request required)
    (hwithout : ¬ Holds site t request (PyStr.ofString "admin")) : Keeps db db' := by
  cases h with
  | nothing => exact .of_eq rfl rfl
  | create htasks hresults =>
      refine ⟨?_, ?_⟩
      · rw [htasks]
        exact List.sublist_cons_self _ _
      · rw [runKeys, runKeys, hresults]
  | trigger htasks hresults =>
      refine ⟨?_, ?_⟩
      · rw [htasks]
      · rw [runKeys, runKeys, hresults]
        exact List.sublist_cons_self _ _
  | deleteRow => exact absurd (hholds _ List.mem_cons_self) hwithout
  | delete => exact absurd (hholds _ List.mem_cons_self) hwithout

/-- A step without a writer adds no row and removes none. -/
theorem Step.frozen (h : Step site d a d') (hwithout : Without site (PyStr.ofString "write") d a) :
    d'.app.db.tasks = d.app.db.tasks ∧ runKeys d'.app.db = runKeys d.app.db := by
  cases h with
  | key => exact ⟨rfl, rfl⟩
  | completion => exact executeAndPersist_frame _ _ _ _ _ _
  | @request x scan =>
      have hsame : (serve site scan d.app x).app.db = d.app.db := by
        rcases serve_touches site scan d.app x with hsame | ⟨op, hholds, htouches⟩
        · exact hsame
        · exact htouches.frozen hholds hwithout
      exact ⟨congrArg Database.tasks hsame, congrArg runKeys hsame⟩

/-- A step without an admin removes no row. -/
theorem Step.keeps (h : Step site d a d') (hwithout : Without site (PyStr.ofString "admin") d a) :
    Keeps d.app.db d'.app.db := by
  cases h with
  | key => exact .of_eq rfl rfl
  | completion =>
      exact .of_eq (executeAndPersist_frame _ _ _ _ _ _).1 (executeAndPersist_frame _ _ _ _ _ _).2
  | @request x scan =>
      rcases serve_touches site scan d.app x with hsame | ⟨op, hholds, htouches⟩
      · exact .of_eq (congrArg Database.tasks hsame) (congrArg runKeys hsame)
      · exact htouches.keeps hholds hwithout

/-- **Rows come from writers, and only admins take them away.** However keys are created and
revoked, requests served one after another and runs completed: as long as no request comes with a
key that is good for `write` when it is served, the tasks and the keys of the result rows stay as
they are; as long as none comes with one that is good for `admin`, no task changes and none of the
two loses a row. -/
theorem rows_need_authority (site : Site) (d₀ d : Deployment) :
    (((deployments site d₀).restrict (Without site (PyStr.ofString "write"))).Reachable d →
      d.app.db.tasks = d₀.app.db.tasks ∧ runKeys d.app.db = runKeys d₀.app.db) ∧
    (((deployments site d₀).restrict (Without site (PyStr.ofString "admin"))).Reachable d →
      Keeps d₀.app.db d.app.db) := by
  refine ⟨?_, ?_⟩
  · intro h
    refine h.invariant (I := fun d => d.app.db.tasks = d₀.app.db.tasks ∧
      runKeys d.app.db = runKeys d₀.app.db) ?_ ?_
    · intro d hd
      obtain rfl : d = d₀ := hd
      exact ⟨rfl, rfl⟩
    · intro d a d' _ hd hstep
      obtain ⟨htasks, hkeys⟩ := Step.frozen hstep.1 hstep.2
      exact ⟨htasks.trans hd.1, hkeys.trans hd.2⟩
  · intro h
    refine h.invariant (I := fun d => Keeps d₀.app.db d.app.db) ?_ ?_
    · intro d hd
      obtain rfl : d = d₀ := hd
      exact .of_eq rfl rfl
    · intro d a d' _ hd hstep
      exact hd.trans (Step.keeps hstep.1 hstep.2)

/-- A reader tries to delete the only task. -/
theorem rows_need_authority_reader :
    let d₀ : Deployment := ⟨App.new TaskService.oneResult, .empty⟩
    ∃ d, Step plainSite d₀ (.request readerDeletes) d ∧
      ((deployments plainSite d₀).restrict
        (Without plainSite (PyStr.ofString "write"))).Reachable d ∧
      d.app.db.tasks = d₀.app.db.tasks ∧ runKeys d.app.db = runKeys d₀.app.db := by
  intro d₀
  have hlegacy : ∀ key, apiKey readerDeletes.arrival.request = some key →
      legacyKeyScopes key = some (PyStr.ofString "read") := by decide +kernel
  have hlow : ¬ Meets (PyStr.ofString "read") (PyStr.ofString "write") := by
    rintro ⟨rank, required, hheld, hrequired, hle⟩
    have hread : scopeRank (PyStr.ofString "read") = some 0 := by decide
    have hwrite : scopeRank (PyStr.ofString "write") = some 1 := by decide
    rw [hread, Option.some.injEq] at hheld
    rw [hwrite, Option.some.injEq] at hrequired
    omega
  have hwithout : Without plainSite (PyStr.ofString "write") d₀ (.request readerDeletes) := by
    rintro ⟨key, hkey, ⟨row, hrow, -⟩ | ⟨held, hheld, hmeets⟩⟩
    · cases hrow
    · obtain rfl : held = _ := Option.some.inj (hheld.symm.trans (hlegacy key hkey))
      exact hlow hmeets
  obtain ⟨d, hstep⟩ : ∃ d, Step plainSite d₀ (.request readerDeletes) d := ⟨_, .request noKeys⟩
  have hreach : ((deployments plainSite d₀).restrict
      (Without plainSite (PyStr.ofString "write"))).Reachable d :=
    .step (.init rfl) ⟨hstep, hwithout⟩
  exact ⟨d, hstep, hreach, (rows_need_authority plainSite d₀ d).1 hreach⟩

end Runs

/-! ### A key that is revoked -/

/-- The event creates a row for this key. -/
def Event.Issues (site : Site) (key : PyStr) : Event → Prop
  | .key (.create row) => hashAPIKey site.sha256 key = .ok row.keyHash
  | _ => False

theorem allRevoked_step {sha256 : List Byte → String} {t : APIKeyTable} {key : PyStr}
    (h : AllRevoked sha256 t key) {op : APIKeyTable.Op}
    (hop : ∀ row, op = .create row → hashAPIKey sha256 key ≠ .ok row.keyHash) :
    AllRevoked sha256 (t.step op) key := by
  cases op with
  | create new =>
      simp only [APIKeyTable.step]
      split
      next t' d hcreate =>
          intro row hrow hhash
          rw [(APIKeyTable.create_rows hcreate).2] at hrow
          rcases List.mem_cons.mp hrow with rfl | hrow
          · exact absurd hhash (hop row rfl)
          · exact h row hrow hhash
      next => exact h
  | revoke id time =>
      intro row hrow hhash
      obtain ⟨old, hold, rfl⟩ := List.mem_map.mp hrow
      unfold APIKey.revoke at hhash ⊢
      split_ifs at hhash ⊢
      · rfl
      · exact h old hold hhash

/-- A guarded route is refused, as unauthorized once the limiter lets the request through and its
body can be read. -/
structure Refused (site : Site) {t : APIKeyTable} (scan : t.Scan) (app : App) (x : Exchange)
    (op : Operation) (r : Response) : Prop where
  response : (serve site scan app x).response = some r
  status : 400 ≤ r.status
  unauthorized : (RateLimit.dispatch app.limiter x.arrival).1 = .passed →
    (∃ decoded, readPayload op x.payload = .ok decoded) → r.status = 401

/-- With every row revoked the key opens no guarded route, and changes nothing. -/
structure Shut (site : Site) (d : Deployment) (x : Exchange) : Prop where
  db : ∀ scan : d.keys.Scan, (serve site scan d.app x).app.db = d.app.db
  refused : ∀ (scan : d.keys.Scan) op, route x.arrival.request = .ok op → op.scope?.isSome →
    ∃ r, Refused site scan d.app x op r

section Revoked

variable {site : Site} {t : APIKeyTable} {scan : t.Scan} {key : PyStr} {x : Exchange} {app : App}
  {op : Operation}

theorem authorize_of_revoked {request : Request} (hkey : apiKey request = some key)
    (hlegacy : legacyKeyScopes key = none) (hrevoked : AllRevoked site.sha256 t key)
    (hscope : op.scope?.isSome) :
    authorize site scan (apiKey request) op.dependencies =
      .error (.problem (.raised unauthorized [])) := by
  obtain ⟨required, hrequired⟩ := Option.isSome_iff_exists.mp hscope
  obtain ⟨rest, hdependencies⟩ := dependencies_of_scope hrequired
  have hverify : verifyAPIKey site.sha256 scan (some key) (some required) = _ :=
    (sound_legacy site.sha256 scan key required).closed (Or.inl hrevoked) hlegacy
  rw [hdependencies, authorize, requireScope, hkey, hverify]

/-- A body that cannot be read is answered as an error. -/
theorem answer_readPayload {e : Raised} (h : readPayload op x.payload = .error e) :
    ∃ r, x.answer (exceptionHandler x.scope e) = some r ∧ 400 ≤ r.status := by
  rcases readPayload_cases op x.payload with ⟨-, ⟨decoded, hpayload⟩ | ⟨errors, hpayload⟩⟩ |
    ⟨-, hpayload⟩
  · rw [hpayload] at h
    cases h
  · rw [hpayload] at h
    cases h
    rw [exceptionHandler, problemResponse_validation x.identified]
    split_ifs
    · exact ⟨_, rfl, by simp [sendWrapper, problemAnswer, validationFailed]⟩
    · obtain ⟨p, hstatus, -, hanswer⟩ := problemResponse_internalServerError x.identified
      exact ⟨_, hanswer, by simp [problemAnswer, hstatus]⟩
  · rw [hpayload] at h
    cases h
    have hrenders : Body.renders (.detail "There was an error parsing the body") = true := rfl
    rw [exceptionHandler, jsonResponse, if_pos ⟨hrenders, by simp⟩]
    exact ⟨_, rfl, by simp [sendWrapper]⟩

theorem refused_of_revoked (hkey : apiKey x.arrival.request = some key)
    (hlegacy : legacyKeyScopes key = none) (hrevoked : AllRevoked site.sha256 t key)
    (hroute : route x.arrival.request = .ok op) (hscope : op.scope?.isSome) :
    ∃ r, Refused site scan app x op r := by
  cases hverdict : (RateLimit.dispatch app.limiter x.arrival).1 with
  | rejected retryAfter =>
      have hserve : (serve site scan app x).response = _ ∧ _ := serve_rejected hverdict
      refine ⟨_, hserve.1, by simp [sendWrapper, limitAnswer], fun hpassed _ => ?_⟩
      rw [hverdict] at hpassed
      cases hpassed
  | passed =>
      have hserve : (serve site scan app x).response = _ ∧ _ := serve_passed hverdict
      rw [routes_routed hroute] at hserve
      cases hpayload : readPayload op x.payload with
      | error e =>
          have hout : (outcome site scan app x op).1 = .error e := by
            simp only [outcome, endpoint, hpayload]
          rw [hout] at hserve
          obtain ⟨r, hr, hstatus⟩ := answer_readPayload hpayload
          refine ⟨r, hserve.1.trans hr, hstatus, fun _ hread => ?_⟩
          obtain ⟨decoded, hread⟩ := hread
          rw [hpayload] at hread
          cases hread
      | ok decoded =>
          have hout : (outcome site scan app x op).1 =
              .error (.problem (.raised unauthorized [])) := by
            simp only [outcome, endpoint, hpayload,
              authorize_of_revoked hkey hlegacy hrevoked hscope]
          have hanswer : exceptionHandler x.scope (.problem (.raised unauthorized [])) =
              some (problemAnswer x.scope x.cid unauthorized []) :=
            (problemResponse_raised x.identified (by decide)).trans (if_pos (by simp))
          rw [hout, outcomeResponse, hanswer] at hserve
          exact ⟨_, hserve.1, by simp [sendWrapper, problemAnswer, unauthorized],
            fun _ _ => by simp [sendWrapper, problemAnswer, unauthorized]⟩

/-- With no row that is active there is nothing that the key is good for. -/
theorem not_holds_of_revoked {request : Request} {required : PyStr}
    (hkey : apiKey request = some key) (hlegacy : legacyKeyScopes key = none)
    (hrevoked : AllRevoked site.sha256 t key) : ¬ Holds site t request required := by
  rintro ⟨key', hkey', ⟨row, hrow, hhash, hactive, -⟩ | ⟨held, hheld, -⟩⟩
  · obtain rfl : key = key' := Option.some.inj (hkey.symm.trans hkey')
    have hsome := hrevoked row hrow hhash
    rw [hactive] at hsome
    cases hsome
  · obtain rfl : key = key' := Option.some.inj (hkey.symm.trans hkey')
    rw [hlegacy] at hheld
    cases hheld

end Revoked

/-- **Revocation holds.** From a state in which every row for a key is revoked, whatever keys are
created or revoked, requests served one after another and runs completed afterwards: until a row is
created for this very key, a request that comes with it changes nothing in the tables, and is
refused by every route that asks for a scope. -/
theorem revoked_key_shut {site : Site} {d₀ d : Deployment} {key : PyStr}
    (hlegacy : legacyKeyScopes key = none) (hrevoked : AllRevoked site.sha256 d₀.keys key)
    (h : ((deployments site d₀).restrict fun _ a => ¬ a.Issues site key).Reachable d) {x : Exchange}
    (hkey : apiKey x.arrival.request = some key) : Shut site d x := by
  have hstays : AllRevoked site.sha256 d.keys key := by
    refine h.invariant (I := fun d => AllRevoked site.sha256 d.keys key) ?_ ?_
    · intro d hd
      obtain rfl : d = d₀ := hd
      exact hrevoked
    · intro d a d' _ hd hstep
      obtain ⟨hmove, hissues⟩ := hstep
      cases hmove with
      | key =>
          refine allRevoked_step hd fun row hop hhash => hissues ?_
          subst hop
          exact hhash
      | request => exact hd
      | completion => exact hd
  constructor
  case refused => exact fun scan op => refused_of_revoked hkey hlegacy hstays
  case db =>
    intro scan
    rcases serve_touches site scan d.app x with hsame | ⟨op, hholds, htouches⟩
    · exact hsame
    · exact htouches.frozen hholds (not_holds_of_revoked hkey hlegacy hstays)

/-- A table whose only key is revoked. -/
def retired : APIKeyTable where
  rows :=
    [{ id := "k"
       keyHash := "secret"
       scope := "admin"
       createdAt := TaskService.newYear
       revokedAt := some TaskService.newYear }]
  ids_nodup := by decide

/-- Another key is created, and then the revoked one is tried. -/
theorem revoked_key_shut_retired :
    let d₀ : Deployment := ⟨App.new TaskService.oneResult, retired⟩
    let new : APIKey := ⟨"j", "other", "admin", TaskService.newYear, none⟩
    let x : Exchange := .plain "DELETE" ['/', 'v', '1', '/', 't', 'a', 's', 'k', 's', '/', 't']
      ['s', 'e', 'c', 'r', 'e', 't'] (.read .absent)
    Shut plainSite ⟨d₀.app, retired.step (.create new)⟩ x := by
  intro d₀ new x
  have hhash : hashAPIKey plainSite.sha256 (PyStr.ofString "secret") = .ok "secret" := by decide
  have hlegacy : legacyKeyScopes (PyStr.ofString "secret") = none := by decide
  have hrevoked : AllRevoked plainSite.sha256 d₀.keys (PyStr.ofString "secret") := by
    intro row hrow _
    obtain rfl := List.mem_singleton.mp hrow
    rfl
  have hissues : ¬ (Event.key (.create new)).Issues plainSite (PyStr.ofString "secret") := by
    intro hissues
    exact absurd (Except.ok.inj (hhash.symm.trans hissues)) (by decide)
  have hkey : apiKey x.arrival.request = some (PyStr.ofString "secret") := by decide
  exact revoked_key_shut hlegacy hrevoked (.step (.init rfl) ⟨.key, hissues⟩) hkey

end Taskq.Access
