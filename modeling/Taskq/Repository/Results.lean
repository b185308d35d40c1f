import Mathlib.Data.List.Sort
import Taskq.Repository.Tasks

/-!
# Taskq.Repository.Results

`TaskResultRepository` (`repository/results.py`).

Two paths write an outcome: `record_result` inserts a full row, and
`create_pending_result` inserts a pending one that `update_result` completes. One
projection, `_to_dict`, reports a row under the names of its keys. Everything a
method does happens in one session that commits at the end, so each is one
`transaction`.
-/

namespace Taskq

open Transaction

/-- A `finished_at` argument: the Python value may be anything. -/
inductive FinishedAt
  | datetime (d : PyDateTime)
  | text (s : List Char)
  | other
  deriving DecidableEq

/-- `value.replace("Z", "+00:00")`. -/
def replaceZ (s : List Char) : List Char :=
  s.flatMap fun c => if c = 'Z' then ['+', '0', '0', ':', '0', '0'] else [c]

theorem replaceZ_of_not_mem {s : List Char} (h : 'Z' ∉ s) : replaceZ s = s := by
  have hsingle : ∀ c ∈ s, (if c = 'Z' then ['+', '0', '0', ':', '0', '0'] else [c]) = [c] :=
    fun c hc => if_neg (ne_of_mem_of_not_mem hc h)
  rw [replaceZ, List.flatMap_congr hsingle, ← List.map_eq_flatMap, List.map_id']

/-- `_parse_finished_at`. -/
def parseFinishedAt : FinishedAt → Except StorageError PyDateTime
  | .datetime d =>
      match d.offset with
      | none => .ok { wall := d.wall, offset := some UtcOffset.utc }
      | some _ => .ok d
  | .text s =>
      match IsoFormat.fromisoformat? (replaceZ s) with
      | some d => .ok d
      | none => .error .value
  | .other => .error .value

/-- `datetime.now(timezone.utc).isoformat()` at the reading `now`. -/
def nowIso (now : DateTime) : List Char := PyDateTime.isoformat ⟨now, some UtcOffset.utc⟩

/-- What the runner writes for `finished_at` is read back as the reading it showed. -/
theorem parseFinishedAt_nowIso (now : DateTime) :
    parseFinishedAt (.text (nowIso now)) = .ok ⟨now, some UtcOffset.utc⟩ := by
  have hreplace : replaceZ (nowIso now) = nowIso now :=
    replaceZ_of_not_mem fun hmem => IsoFormat.isoformat_utc_no_Z now 'Z' hmem rfl
  rw [parseFinishedAt, hreplace, nowIso, IsoFormat.fromisoformat?_isoformat_utc]

/-- A value of a projected row. -/
inductive Value
  | null
  | int (n : ℤ)
  | str (s : String)
  deriving DecidableEq, Repr

def Value.ofInt? : Option ℤ → Value
  | none => .null
  | some n => .int n

def Value.ofTime? : Option PyDateTime → Value
  | none => .null
  | some d => .str (String.ofList d.isoformat)

/-- A projected row: keys and values. -/
abbrev Dict := List (String × Value)

/-- `_to_dict`, under the keys the source has. -/
def toDict (row : ResultRow PyDateTime) : Dict :=
  [("id", .str row.id),
    ("run_id", .str row.id),
    ("task_id", .str row.taskId),
    ("command", .str row.command),
    ("status", .str row.status),
    ("XXcreated_atXX", .str (String.ofList row.createdAt.isoformat)),
    ("exit_code", .ofInt? row.exitCode),
    ("stdout_tail", .str row.stdoutTail),
    ("stderr_tail", .str row.stderrTail),
    ("duration_ms", .ofInt? row.durationMs),
    ("finished_at", .ofTime? row.finishedAt)]

/-- Python's `x or y` on strings. -/
def strOr (x y : String) : String := if x = "" then y else x

/-- Python's `x and y` on strings. -/
def strAnd (x y : String) : String := if x = "" then x else y

@[simp] theorem strOr_empty (x : String) : strOr x "" = x := by
  unfold strOr
  split_ifs with h
  · exact h.symm
  · rfl

@[simp] theorem strAnd_empty (x : String) : strAnd x "" = "" := by
  unfold strAnd
  split_ifs with h
  · exact h
  · rfl

namespace TaskResultRepository

/-- `session.add(row)`, flushed: the foreign key and the primary key are checked. -/
def insertBody (engine : Engine) (row : ResultRow PyDateTime) : Body Database StorageError Dict :=
  fun db =>
    if engine.foreignKeys ∧ ¬ db.HasTask row.taskId then .error .integrity
    else
      match db.insertResult? row.store with
      | none => .error .integrity
      | some db' => .ok (toDict row, db')

/-- The outcome columns `record_result` and `update_result` take. -/
structure Outcome where
  exitCode : Option ℤ
  stdoutTail : String
  stderrTail : String
  durationMs : Option ℤ
  finishedAt : FinishedAt
  status : String
  deriving DecidableEq

/-- The row `record_result` inserts; `id` and `now` are its column defaults. -/
def recordRow (id : String) (now : DateTime) (taskId command : String) (o : Outcome)
    (finished : PyDateTime) : ResultRow PyDateTime where
  id := id
  taskId := taskId
  command := command
  status := o.status
  createdAt := ⟨now, some UtcOffset.utc⟩
  exitCode := o.exitCode
  stdoutTail := strOr o.stdoutTail ""
  stderrTail := strOr o.stderrTail ""
  durationMs := o.durationMs
  finishedAt := some finished

/-- `record_result`. -/
def recordResult (engine : Engine) (faults : Faults StorageError) (id : String) (now : DateTime)
    (taskId command : String) (o : Outcome) : Call Database StorageError Dict :=
  match parseFinishedAt o.finishedAt with
  | .error e => fun db => (.error e, db)
  | .ok finished =>
      transaction faults (insertBody engine (recordRow id now taskId command o finished))

/-- The row `create_pending_result` inserts. -/
def pendingRow (now : DateTime) (taskId runId command : String) : ResultRow PyDateTime where
  id := runId
  taskId := taskId
  command := command
  status := "pending"
  createdAt := ⟨now, some UtcOffset.utc⟩
  exitCode := none
  stdoutTail := ""
  stderrTail := ""
  durationMs := none
  finishedAt := none

/-- `create_pending_result`. -/
def createPendingResult (engine : Engine) (faults : Faults StorageError) (now : DateTime)
    (taskId runId command : String) : Call Database StorageError Dict :=
  transaction faults (insertBody engine (pendingRow now taskId runId command))

/-- The assignments of `update_result`. -/
def setOutcome (o : Outcome) (finished : PyDateTime) (row : TaskResult) : TaskResult where
  id := row.id
  taskId := row.taskId
  command := row.command
  status := o.status
  createdAt := row.createdAt
  exitCode := o.exitCode
  stdoutTail := strOr o.stdoutTail ""
  stderrTail := strAnd o.stderrTail ""
  durationMs := o.durationMs
  finishedAt := some finished.wall

@[simp] theorem setOutcome_id (o : Outcome) (finished : PyDateTime) (row : TaskResult) :
    (setOutcome o finished row).id = row.id := rfl

/-- The statements of `update_result`: the `UPDATE`, then the row is read back. -/
def updateBody (runId : String) (o : Outcome) (finished : PyDateTime) :
    Body Database StorageError Dict := fun db =>
  let db' := db.updateResult runId (setOutcome o finished) (setOutcome_id o finished)
  match db'.findResult? runId with
  | none => .error .value
  | some row => .ok (toDict row.load, db')

/-- `update_result`. -/
def updateResult (faults : Faults StorageError) (runId : String) (o : Outcome) :
    Call Database StorageError Dict :=
  match parseFinishedAt o.finishedAt with
  | .error e => fun db => (.error e, db)
  | .ok finished => transaction faults (updateBody runId o finished)

/-- `ORDER BY created_at DESC, id DESC`: is `a` listed before `b`, or are they one? -/
def listedBefore (a b : TaskResult) : Bool :=
  b.createdAt.storageText < a.createdAt.storageText ∨
    b.createdAt.storageText = a.createdAt.storageText ∧ b.id ≤ a.id

/-- The rows `list_results_for_task` selects, in order. -/
def selectResults (db : Database) (taskId : String) : List TaskResult :=
  (db.results.filter fun row => row.taskId = taskId).mergeSort listedBefore

/-- `list_results_for_task`. -/
def listResultsForTask (faults : Faults StorageError) (taskId : String) :
    Call Database StorageError (List Dict) :=
  transaction faults fun db =>
    .ok ((selectResults db taskId).map fun row => toDict row.load, db)

/-! ### What the methods do to the table -/

theorem insertBody_ok {engine : Engine} {db : Database} (row : ResultRow PyDateTime)
    (hforeign : engine.foreignKeys = true → db.HasTask row.taskId)
    (hfresh : row.id ∉ db.results.map ResultRow.id) :
    ∃ db', insertBody engine row db = .ok (toDict row, db') ∧ db'.tasks = db.tasks ∧
      db'.results = row.store :: db.results := by
  have hstore : row.store.id ∉ db.results.map ResultRow.id := hfresh
  obtain ⟨db', hinsert, htasks, hresults⟩ := Database.insertResult?_some hstore
  refine ⟨db', ?_, htasks, hresults⟩
  have hno : ¬ (engine.foreignKeys = true ∧ ¬ db.HasTask row.taskId) := by
    intro hfk
    obtain ⟨hon, hnone⟩ := hfk
    exact hnone (hforeign hon)
  rw [insertBody, if_neg hno, hinsert]

/-- An insertion that returned has left its row. -/
theorem mem_of_insertBody {engine : Engine} {db db' : Database} {row : ResultRow PyDateTime}
    {d : Dict} (h : insertBody engine row db = .ok (d, db')) : row.store ∈ db'.results := by
  unfold insertBody Database.insertResult? at h
  split_ifs at h
  cases h
  exact List.mem_cons_self

theorem updateBody_ok {runId : String} {o : Outcome} {finished : PyDateTime} {db : Database}
    {row : TaskResult} (hrow : row ∈ db.results) (hid : row.id = runId) :
    updateBody runId o finished db =
      .ok (toDict (setOutcome o finished row).load,
        db.updateResult runId (setOutcome o finished) (setOutcome_id o finished)) := by
  have hmem : setOutcome o finished row ∈
      (db.updateResult runId (setOutcome o finished) (setOutcome_id o finished)).results := by
    refine List.mem_map.mpr ⟨row, hrow, ?_⟩
    rw [if_pos hid]
  have hfind := Database.findResult?_of_mem hmem
  rw [setOutcome_id, hid] at hfind
  rw [updateBody, hfind]

/-- With foreign keys unenforced, an insertion goes through when its key is free. -/
theorem createPendingResult_cases {engine : Engine} (hfk : engine.foreignKeys = false)
    (now : DateTime) (taskId runId command : String) (db : Database) :
    (runId ∉ db.results.map ResultRow.id ∧
        ∃ db', createPendingResult engine Faults.none now taskId runId command db
            = (.ok (toDict (pendingRow now taskId runId command)), db') ∧
          db'.tasks = db.tasks ∧
          db'.results = (pendingRow now taskId runId command).store :: db.results) ∨
      (runId ∈ db.results.map ResultRow.id ∧
        createPendingResult engine Faults.none now taskId runId command db
          = (.error .integrity, db)) := by
  by_cases hfresh : runId ∈ db.results.map ResultRow.id
  · refine Or.inr ⟨hfresh, ?_⟩
    have hinsert : db.insertResult? (pendingRow now taskId runId command).store = none :=
      dif_pos hfresh
    refine transaction_error ?_
    simp [insertBody, hfk, hinsert]
  · have hforeign : engine.foreignKeys = true → db.HasTask taskId := by simp [hfk]
    obtain ⟨db', hbody, htasks, hresults⟩ :=
      insertBody_ok (pendingRow now taskId runId command) hforeign hfresh
    exact Or.inl ⟨hfresh, db', transaction_ok hbody, htasks, hresults⟩

/-- An update that returned has assigned the outcome to the row under the key. -/
theorem updateBody_state {runId : String} {o : Outcome} {finished : PyDateTime}
    {db db' : Database} {d : Dict} (h : updateBody runId o finished db = .ok (d, db')) :
    db' = db.updateResult runId (setOutcome o finished) (setOutcome_id o finished) := by
  simp only [updateBody] at h
  split at h
  next => cases h
  next =>
    cases h
    rfl

/-- An update keeps the tasks, and of each result its key and whose it is. -/
theorem updateResult_frame (faults : Faults StorageError) (runId : String) (o : Outcome)
    (db : Database) :
    (updateResult faults runId o db).2.tasks = db.tasks ∧
      (updateResult faults runId o db).2.results.map (fun r => (r.id, r.taskId))
        = db.results.map fun r => (r.id, r.taskId) := by
  cases hparse : parseFinishedAt o.finishedAt with
  | error e =>
      simp only [updateResult, hparse]
      exact ⟨trivial, trivial⟩
  | ok finished =>
      simp only [updateResult, hparse]
      rcases transaction_cases faults (updateBody runId o finished) db with
        ⟨e, he⟩ | ⟨d, db', -, hbody, hok⟩
      · rw [he]
        exact ⟨rfl, rfl⟩
      · rw [hok]
        obtain rfl := updateBody_state hbody
        refine ⟨rfl, ?_⟩
        show (db.results.map _).map _ = _
        rw [List.map_map]
        refine List.map_congr_left fun row _ => ?_
        show ((if row.id = runId then setOutcome o finished row else row).id,
          (if row.id = runId then setOutcome o finished row else row).taskId) = _
        split_ifs <;> rfl

theorem createPendingResult_mem {engine : Engine} {faults : Faults StorageError}
    {db db' : Database} {now : DateTime} {taskId runId command : String} {d : Dict}
    (h : createPendingResult engine faults now taskId runId command db = (.ok d, db')) :
    (pendingRow now taskId runId command).store ∈ db'.results := by
  rw [createPendingResult] at h
  rcases transaction_cases faults (insertBody engine (pendingRow now taskId runId command)) db with
    ⟨e, he⟩ | ⟨d', db'', -, hbody, hok⟩
  · rw [he] at h
    cases h
  · rw [hok] at h
    cases h
    exact mem_of_insertBody hbody

/-- The completed row, and only it, replaces the row it was. -/
theorem updateResult_ok {runId : String} {o : Outcome} {finished : PyDateTime} {db : Database}
    {row : TaskResult} (hparse : parseFinishedAt o.finishedAt = .ok finished)
    (hrow : row ∈ db.results) (hid : row.id = runId) :
    updateResult Faults.none runId o db =
      (.ok (toDict (setOutcome o finished row).load),
        db.updateResult runId (setOutcome o finished) (setOutcome_id o finished)) := by
  rw [updateResult, hparse]
  exact transaction_ok (updateBody_ok hrow hid)

/-- Where the row is not there, an update raises and leaves everything as it was. -/
theorem updateResult_gone {runId : String} {o : Outcome} {finished : PyDateTime} {db : Database}
    (hparse : parseFinishedAt o.finishedAt = .ok finished)
    (hgone : runId ∉ db.results.map ResultRow.id) :
    updateResult Faults.none runId o db = (.error .value, db) := by
  have hfind : (db.updateResult runId (setOutcome o finished)
      (setOutcome_id o finished)).findResult? runId = none := by
    rw [Database.findResult?, List.find?_eq_none]
    intro row hrow
    obtain ⟨old, hold, rfl⟩ := List.mem_map.mp hrow
    have hne : old.id ≠ runId := fun hid => hgone (List.mem_map.mpr ⟨old, hold, hid⟩)
    rw [if_neg hne]
    simpa using hne
  rw [updateResult, hparse]
  refine transaction_error ?_
  rw [updateBody, hfind]

/-- `record_result` under a fresh key: its row is there. -/
theorem recordResult_mem {engine : Engine} {db : Database} {id taskId command : String}
    {now : DateTime} {o : Outcome} {finished : PyDateTime}
    (hparse : parseFinishedAt o.finishedAt = .ok finished)
    (hforeign : engine.foreignKeys = true → db.HasTask taskId)
    (hfresh : id ∉ db.results.map ResultRow.id) :
    (recordRow id now taskId command o finished).store ∈
      (recordResult engine Faults.none id now taskId command o db).2.results := by
  obtain ⟨db', hinsert, -, hresults⟩ :=
    insertBody_ok (recordRow id now taskId command o finished) hforeign hfresh
  rw [recordResult, hparse]
  show _ ∈ (transaction _ _ db).2.results
  rw [transaction_ok hinsert, hresults]
  exact List.mem_cons_self

/-- `create_pending_result` under a fresh key, then `update_result`: the pending row,
completed, is there. -/
theorem updateResult_mem {engine : Engine} {db : Database} {runId taskId command : String}
    {now : DateTime} {o : Outcome} {finished : PyDateTime}
    (hparse : parseFinishedAt o.finishedAt = .ok finished)
    (hforeign : engine.foreignKeys = true → db.HasTask taskId)
    (hfresh : runId ∉ db.results.map ResultRow.id) :
    setOutcome o finished (pendingRow now taskId runId command).store ∈
      (updateResult Faults.none runId o
        (createPendingResult engine Faults.none now taskId runId command db).2).2.results := by
  obtain ⟨db', hinsert, -, hresults⟩ :=
    insertBody_ok (pendingRow now taskId runId command) hforeign hfresh
  have hmem : (pendingRow now taskId runId command).store ∈ db'.results := by
    rw [hresults]
    exact List.mem_cons_self
  have hid : (pendingRow now taskId runId command).store.id = runId := rfl
  rw [createPendingResult, transaction_ok hinsert, updateResult_ok hparse hmem hid]
  exact List.mem_map.mpr ⟨_, hmem, if_pos rfl⟩

/-- A listing holds the entries of one run in the order it holds their rows. -/
theorem listed_run {db : Database} {row : TaskResult} (hrow : row ∈ db.results) :
    (selectResults db row.taskId).filter (fun r => r.id = row.id) = [row] := by
  have hperm := List.mergeSort_perm (db.results.filter fun r => r.taskId = row.taskId) listedBefore
  have hkeys : ((selectResults db row.taskId).map ResultRow.id).Nodup :=
    (hperm.map _).nodup_iff.mpr (db.result_ids.sublist (List.filter_sublist.map _))
  have hmem : row ∈ selectResults db row.taskId :=
    hperm.mem_iff.mpr (List.mem_filter.mpr ⟨hrow, decide_eq_true rfl⟩)
  exact Keyed.filter_eq_singleton hkeys hmem rfl

end TaskResultRepository

end Taskq
