import Taskq.Lib.Machine
import Taskq.Repository.Keys
import Taskq.Repository.RateBuckets
import Taskq.Repository.Results

/-!
# Taskq.Migrations.Drift

Two definitions of one schema: the revisions `v1`, `v2` and `v3`
(`migrations/versions`), and the ORM models that `Base.metadata.create_all` reads.

A statement names a table and columns of it, and SQLite prepares it before anything is
bound or run: where one of them is missing the repository call ends in
`OperationalError`. What a call does where nothing is missing is what the repositories'
own models say.

The unique keys that `Database` has as fields are the keys of `tasks` under either
definition (`insertTask?_eq_none_iff`). Neither enforces the length of a text, and the
storage class of a time is text in both.
-/

namespace Taskq.Drift

open Machine Transaction Unicode

/-! ### Schemas -/

structure Column where
  name : String
  nullable : Bool
  primaryKey : Bool
  deriving DecidableEq, Repr

structure Table where
  name : String
  columns : List Column
  /-- Unique constraints and unique indexes. -/
  uniques : List (List String)
  deriving DecidableEq, Repr

abbrev Schema := List Table

/-- The operations of a revision. -/
inductive Ddl
  | createTable (table : Table)
  | addColumn (table : String) (column : Column)
  | dropColumn (table column : String)
  | createUniqueIndex (table : String) (columns : List String)

/-- Change one table of a schema. -/
def alter (schema : Schema) (table : String) (f : Table → Table) : Schema :=
  schema.map fun t => if t.name = table then f t else t

def apply (schema : Schema) : Ddl → Schema
  | .createTable table => schema ++ [table]
  | .addColumn table column =>
      alter schema table fun t => { t with columns := t.columns ++ [column] }
  | .dropColumn table column =>
      alter schema table fun t => { t with columns := t.columns.filter (·.name ≠ column) }
  | .createUniqueIndex table columns =>
      alter schema table fun t => { t with uniques := t.uniques ++ [columns] }

/-- `sa.Column(.., primary_key=True)`. -/
def key (name : String) : Column where
  name := name
  nullable := false
  primaryKey := true

/-- `sa.Column(.., nullable=True)`. -/
def nullable (name : String) : Column where
  name := name
  nullable := true
  primaryKey := false

/-- `sa.Column(.., nullable=False)`. -/
def required (name : String) : Column where
  name := name
  nullable := false
  primaryKey := false

/-- `upgrade` of `v1`. -/
def v1 : List Ddl :=
  [.createTable
      { name := "tasks"
        columns := [key "id", nullable "name", nullable "command", nullable "status",
          nullable "created_at"]
        uniques := [] },
    .createTable
      { name := "api_keys"
        columns := [key "id", required "key_hash", nullable "owner", nullable "created_at"]
        uniques := [] },
    .createUniqueIndex "api_keys" ["key_hash"]]

/-- `upgrade` of `v2`. -/
def v2 : List Ddl :=
  [.addColumn "tasks" (nullable "result_json"),
    .createTable { name := "tags", columns := [key "id", required "name"], uniques := [] },
    .createTable { name := "task_tags", columns := [key "task_id", key "tag_id"], uniques := [] },
    .createUniqueIndex "tasks" ["name"]]

/-- `upgrade` of `v3`; there is no data to move in a new database. -/
def v3 : List Ddl :=
  [.createTable
      { name := "task_results"
        columns := [key "id", nullable "task_id", nullable "command", nullable "exit_code",
          nullable "stdout_tail"]
        uniques := [] },
    .dropColumn "tasks" "result_json"]

/-- A new database that is upgraded to the head. -/
def migrated : Schema := (v1 ++ v2 ++ v3).foldl apply []

/-- `Base.metadata.create_all`. -/
def metadata : Schema :=
  [{ name := "tasks"
     columns := [key "id", required "name", required "command", required "status",
       required "created_at"]
     uniques := [["name"]] },
    { name := "task_results"
      columns := [key "id", required "task_id", required "command", required "status",
        required "created_at", nullable "exit_code", required "stdout_tail",
        required "stderr_tail", nullable "duration_ms", nullable "finished_at"]
      uniques := [] },
    { name := "api_keys"
      columns := [key "id", required "key_hash", required "scope", required "created_at",
        nullable "revoked_at"]
      uniques := [] },
    { name := "rate_buckets"
      columns := [key "id", required "key_id", required "tokens", required "last_refill_at",
        required "config_burst", required "config_per_sec"]
      uniques := [["key_id"]] }]

/-! ### Statements -/

/-- The columns of a table that a statement names. -/
structure Mention where
  table : String
  columns : List String
  deriving DecidableEq, Repr

/-- Does SQLite prepare a statement with these mentions? -/
def Accepts (schema : Schema) (statement : List Mention) : Prop :=
  ∀ m ∈ statement, ∃ t ∈ schema, t.name = m.table ∧ ∀ c ∈ m.columns, ∃ d ∈ t.columns, d.name = c

instance (schema : Schema) (statement : List Mention) : Decidable (Accepts schema statement) :=
  inferInstanceAs (Decidable (∀ m ∈ statement, ∃ t ∈ schema, t.name = m.table ∧
    ∀ c ∈ m.columns, ∃ d ∈ t.columns, d.name = c))

/-- The mapped columns of `Task`. -/
def taskColumns : Mention where
  table := "tasks"
  columns := ["id", "name", "command", "status", "created_at"]

/-- The mapped columns of `TaskResult`. -/
def resultColumns : Mention where
  table := "task_results"
  columns := ["id", "task_id", "command", "status", "created_at", "exit_code", "stdout_tail",
    "stderr_tail", "duration_ms", "finished_at"]

/-- The mapped columns of `APIKey`. -/
def keyColumns : Mention where
  table := "api_keys"
  columns := ["id", "key_hash", "scope", "created_at", "revoked_at"]

/-- The mapped columns of `RateBucket`. -/
def bucketColumns : Mention where
  table := "rate_buckets"
  columns := ["id", "key_id", "tokens", "last_refill_at", "config_burst", "config_per_sec"]

/-- A call of a repository method, with the uuid it draws and the clock it reads. -/
inductive Op
  | create (id : String) (now : DateTime) (name command : String)
  | get (taskId : String)
  | list (limit : ℤ) (cursor : Option PyStr) (status : Option String)
  | deleteTaskRow (taskId : String)
  | deleteResultsForTask (taskId : String)
  | recordResult (id : String) (now : DateTime) (taskId command : String)
      (outcome : TaskResultRepository.Outcome)
  | createPendingResult (now : DateTime) (taskId runId command : String)
  | updateResult (runId : String) (outcome : TaskResultRepository.Outcome)
  | listResultsForTask (taskId : String)
  | createKey (row : APIKey)
  | lookupActive (candidate : PyStr)
  | getBucket (freshId keyId : String) (now : ℚ)
  | consume (freshId keyId : String) (now : ℚ)

/-- What the first statement of a call names. `list` joins the results of each task. -/
def statement : Op → List Mention
  | .create .. => [taskColumns]
  | .get _ => [taskColumns]
  | .list .. => [taskColumns, resultColumns]
  | .deleteTaskRow _ => [{ table := "tasks", columns := ["id"] }]
  | .deleteResultsForTask _ => [{ table := "task_results", columns := ["task_id"] }]
  | .recordResult .. => [resultColumns]
  | .createPendingResult .. => [resultColumns]
  | .updateResult .. =>
      [{ table := "task_results"
         columns := ["exit_code", "stdout_tail", "stderr_tail", "duration_ms", "finished_at",
           "status", "id"] }]
  | .listResultsForTask _ => [resultColumns]
  | .createKey _ => [keyColumns]
  | .lookupActive _ => [keyColumns]
  | .getBucket .. => [bucketColumns]
  | .consume .. => [bucketColumns]

/-- Does a cursor keep `list` from sending its statement? What only the driver refuses to bind is
noticed later, when the statement has been prepared. -/
def stopsList : Except TaskList.ListError (Option TaskList.Position) → Prop
  | .error .attribute => True
  | .error .argument => True
  | .error .statement => True
  | _ => False

instance : DecidablePred stopsList
  | .error .attribute => isTrue trivial
  | .error .argument => isTrue trivial
  | .error .statement => isTrue trivial
  | .error .limit => isFalse id
  | .error .unicodeEncode => isFalse id
  | .error .overflow => isFalse id
  | .error .bind => isFalse id
  | .ok _ => isFalse id

/-- Does the call raise before it sends a statement? -/
def RaisesEarly : Op → Prop
  | .list limit cursor _ => 200 < limit ∨ stopsList (TaskList.position cursor)
  | .recordResult _ _ _ _ outcome => (parseFinishedAt outcome.finishedAt).toOption.isNone
  | .updateResult _ outcome => (parseFinishedAt outcome.finishedAt).toOption.isNone
  | .lookupActive candidate => (encode? candidate).isNone
  | _ => False

instance : DecidablePred RaisesEarly
  | .list limit cursor _ =>
      inferInstanceAs (Decidable (200 < limit ∨ stopsList (TaskList.position cursor)))
  | .recordResult _ _ _ _ outcome =>
      inferInstanceAs (Decidable ((parseFinishedAt outcome.finishedAt).toOption.isNone = true))
  | .updateResult _ outcome =>
      inferInstanceAs (Decidable ((parseFinishedAt outcome.finishedAt).toOption.isNone = true))
  | .lookupActive candidate => inferInstanceAs (Decidable ((encode? candidate).isNone = true))
  | .create .. => isFalse id
  | .get _ => isFalse id
  | .deleteTaskRow _ => isFalse id
  | .deleteResultsForTask _ => isFalse id
  | .createPendingResult .. => isFalse id
  | .listResultsForTask _ => isFalse id
  | .createKey _ => isFalse id
  | .getBucket .. => isFalse id
  | .consume .. => isFalse id

/-! ### Running them -/

/-- The rows of the four tables. -/
structure Store where
  database : Database
  apiKeys : APIKeyTable
  rateBuckets : List RateBucket

/-- A new database. -/
def Store.empty : Store where
  database := .empty
  apiKeys := .empty
  rateBuckets := []

/-- What a call returns or raises. -/
inductive Answer
  | task (r : Except TaskRepository.TaskError TaskList.TaskDict)
  | page (r : Except TaskList.ListError (List TaskList.TaskDict × Option PyStr))
  | deleted (r : Except StorageError Unit)
  | removed (r : Except StorageError ℕ)
  | result (r : Except StorageError Dict)
  | results (r : Except StorageError (List Dict))
  | key (r : Except StorageError APIKeyDict)
  | found (r : Except StorageError (Option APIKeyDict))
  | bucket (row : RateBucket)
  | consumed (granted : Bool) (row : RateBucket)
  /-- `OperationalError`: no such table, or no such column. -/
  | operationalError

/-- What the calls do not say: the digest, how SQLite writes a real as text, the order in
which it scans `api_keys`, and the configuration of new buckets. -/
structure Setting where
  sha256 : List Byte → String
  realText : Json.Float → List Char
  scan : ∀ t : APIKeyTable, {rows : List APIKey // rows.Perm t.rows}
  buckets : RateBucketRepository

/-- A call on the `Database` of a store. -/
def onDatabase {ε α : Type} (s : Store) (call : Call Database ε α) (answer : Except ε α → Answer) :
    Answer × Store :=
  (answer (call s.database).1, { s with database := (call s.database).2 })

/-- What a call does when SQLite prepares its statements. -/
def execute (setting : Setting) (s : Store) : Op → Answer × Store
  | .create id now name command =>
      onDatabase s (TaskRepository.create Faults.none none id now name command) .task
  | .get taskId => onDatabase s (TaskRepository.get Faults.none taskId) .task
  | .list limit cursor status =>
      (.page (TaskList.list setting.realText s.database limit cursor status), s)
  | .deleteTaskRow taskId =>
      onDatabase s (TaskRepository.deleteTaskRow buildEngine Faults.none taskId) .deleted
  | .deleteResultsForTask taskId =>
      onDatabase s (TaskRepository.deleteResultsForTask Faults.none taskId) .removed
  | .recordResult id now taskId command outcome =>
      onDatabase s (TaskResultRepository.recordResult buildEngine Faults.none id now taskId command
        outcome) .result
  | .createPendingResult now taskId runId command =>
      onDatabase s (TaskResultRepository.createPendingResult buildEngine Faults.none now taskId
        runId command) .result
  | .updateResult runId outcome =>
      onDatabase s (TaskResultRepository.updateResult Faults.none runId outcome) .result
  | .listResultsForTask taskId =>
      onDatabase s (TaskResultRepository.listResultsForTask Faults.none taskId) .results
  | .createKey row =>
      match s.apiKeys.create row with
      | .error e => (.key (.error e), s)
      | .ok (t, d) => (.key (.ok d), { s with apiKeys := t })
  | .lookupActive candidate =>
      let scan := setting.scan s.apiKeys
      (.found (APIKeyTable.lookupActive setting.sha256 (.scanned scan.1 scan.2) candidate), s)
  | .getBucket freshId keyId now =>
      let out := setting.buckets.get s.rateBuckets freshId keyId now
      (.bucket out.1, { s with rateBuckets := out.2 })
  | .consume freshId keyId now =>
      let out := setting.buckets.consume s.rateBuckets freshId keyId now
      (.consumed out.1 out.2.1, { s with rateBuckets := out.2.2 })

/-- A call on a database with a schema. -/
def step (setting : Setting) (schema : Schema) : Step Store Op Answer := fun s op =>
  if RaisesEarly op ∨ Accepts schema (statement op) then execute setting s op
  else (.operationalError, s)

/-! ### What the two schemas have in common -/

/-- The unique keys of a table. -/
def uniqueKeys (schema : Schema) (table : String) : List (List String) :=
  (schema.filter (·.name = table)).flatMap fun t =>
    (t.columns.filter (·.primaryKey)).map (·.name) :: t.uniques

/-- A column of a `tasks` row. -/
def field (t : Task) : String → Option String
  | "id" => some t.id
  | "name" => some t.name
  | "command" => some t.command
  | "status" => some t.status
  | "created_at" => some (String.ofList t.createdAt.storageText)
  | _ => none

/-- A unique key of the row is taken. -/
def Collides (keys : List (List String)) (rows : List Task) (t : Task) : Prop :=
  ∃ key ∈ keys, ∃ r ∈ rows, ∀ c ∈ key, field r c = field t c

theorem uniqueKeys_tasks :
    uniqueKeys migrated "tasks" = [["id"], ["name"]] ∧
      uniqueKeys metadata "tasks" = [["id"], ["name"]] := by
  decide

/-- What `INSERT INTO tasks` rejects is a collision under the keys of either schema. -/
theorem insertTask?_eq_none_iff {schema : Schema} (h : schema = migrated ∨ schema = metadata)
    (db : Database) (t : Task) :
    db.insertTask? t = none ↔ Collides (uniqueKeys schema "tasks") db.tasks t := by
  have hkeys : uniqueKeys schema "tasks" = [["id"], ["name"]] := by
    rcases h with rfl | rfl
    · exact uniqueKeys_tasks.1
    · exact uniqueKeys_tasks.2
  have hcollides : Collides [["id"], ["name"]] db.tasks t ↔
      t.id ∈ db.tasks.map Task.id ∨ t.name ∈ db.tasks.map Task.name := by
    simp [Collides, field]
  rw [hkeys, hcollides]
  rcases db.insertTask?_cases t with ⟨hid, hname, db', hinsert, -, -⟩ | ⟨htaken, hinsert⟩
  · simp [hinsert, hid, hname]
  · simpa [hinsert, or_iff_not_imp_left] using htaken

/-- A setting. -/
def plain : Setting where
  sha256 _ := ""
  realText _ := []
  scan t := ⟨t.rows, .refl _⟩
  buckets := ⟨20, 5⟩

end Taskq.Drift
