import Mathlib.Data.List.AList
import Mathlib.Data.Rat.Defs
import Taskq.Lib.Sqlite

/-!
# Taskq.Migrations.V3

Revision v3 (`migrations/versions/v3_split_result_json_to_task_results.py`), which moves
`tasks.result_json` to a table of its own and back.

A document is taken as the object its text says: `json_extract` of a top-level key gives
the value under it, and `json.dumps` writes the values it is given. What becomes of a
number on the way is a parameter (`JsonCodec`), with the one law that a number SQLite
holds comes back from the document it is written to.

The unique keys of the tables are fields of the two database types, so a statement that
would violate one has no result. The downgrade updates or inserts one `tasks` row for
each result; `downgrade_of_noClash` and `downgrade_some` say in closed form when that
goes through (`NoClash`) and what it leaves (`restored`).
-/

namespace Taskq.Migrations

open Sqlite

/-! ### Documents -/

/-- A JSON value, a number as what it denotes. -/
inductive JsonValue
  | null
  | bool (b : Bool)
  | number (q : ℚ)
  | str (s : String)
  | arr (vs : List JsonValue)
  | obj (members : List (String × JsonValue))

/-- A JSON object. -/
abbrev Document := AList fun _ : String => JsonValue

/-- Numbers and containers between JSON and SQLite. -/
structure JsonCodec (ν : Type) extends Conversions ν where
  /-- `json_extract` of a number. -/
  read : ℚ → ν
  /-- `json.dumps` of a number. -/
  write : ν → ℚ
  read_write : ∀ v, read (write v) = v
  /-- `json_extract` of an array or an object: its text. -/
  containerText : JsonValue → String

/-- A database of integers alone. -/
def integerCodec : JsonCodec ℤ where
  numberText v := toString v
  textNumber s := s.toInt?.getD 0
  read q := q.floor
  write v := v
  read_write := Rat.floor_intCast
  containerText _ := ""

variable {ν : Type} (codec : JsonCodec ν)

/-- The SQL value of a JSON value. -/
def sqlValue : JsonValue → Value ν
  | .null => .null
  | .bool b => .number (codec.read (if b then 1 else 0))
  | .number q => .number (codec.read q)
  | .str s => .text s
  | .arr vs => .text (codec.containerText (.arr vs))
  | .obj members => .text (codec.containerText (.obj members))

/-- `json_extract(result_json, '$.key')`. -/
def jsonExtract (doc : Document) (key : String) : Value ν :=
  (doc.lookup key).elim .null (sqlValue codec)

/-- A text column as `json.dumps` writes it. -/
def textJson : Option String → JsonValue
  | none => .null
  | some s => .str s

/-- Any column as `json.dumps` writes it. -/
def valueJson : Value ν → JsonValue
  | .null => .null
  | .number v => .number (codec.write v)
  | .text s => .str s

/-! ### The tables -/

/-- The columns of `tasks` that v3 leaves alone. -/
structure TaskRow where
  id : String
  name : Option String
  command : Option String
  status : Option String
  createdAt : Option String
  deriving DecidableEq

/-- A `tasks` row at v2. -/
structure TaskWithResult where
  row : TaskRow
  resultJson : Option Document

/-- A `task_results` row. -/
structure StoredResult (ν : Type) where
  id : String
  taskId : Option String
  command : Option String
  exitCode : {v : Value ν // v.IsInteger}
  stdoutTail : Option String

/-- The primary key of `tasks`, and the unique index on `name`, which lets `NULL`s be. -/
def UniqueKeys (tasks : List TaskRow) : Prop :=
  (tasks.map TaskRow.id).Nodup ∧ (tasks.filterMap TaskRow.name).Nodup

instance (tasks : List TaskRow) : Decidable (UniqueKeys tasks) :=
  inferInstanceAs (Decidable (_ ∧ _))

/-- A database at revision v2. -/
@[ext] structure V2 where
  tasks : List TaskWithResult
  unique : UniqueKeys (tasks.map TaskWithResult.row)

theorem V2.ids_nodup (db : V2) : (db.tasks.map fun t => t.row.id).Nodup := by
  have hids := db.unique.1
  rw [List.map_map] at hids
  exact hids

/-- A database at revision v3. -/
structure V3 (ν : Type) where
  tasks : List TaskRow
  results : List (StoredResult ν)
  unique : UniqueKeys tasks
  result_ids : (results.map StoredResult.id).Nodup

/-! ### Upgrade -/

/-- One row of the `INSERT .. SELECT`. -/
def splitRow (t : TaskRow) (doc : Document) : StoredResult ν where
  id := ((jsonExtract codec doc "id").asText codec.toConversions).getD (t.id ++ "-result")
  taskId := some (((jsonExtract codec doc "task_id").asText codec.toConversions).getD t.id)
  command := (jsonExtract codec doc "command").asText codec.toConversions
  exitCode := (jsonExtract codec doc "exit_code").asInteger codec.toConversions
  stdoutTail :=
    ((jsonExtract codec doc "stdout_tail").asText codec.toConversions).or
      ((jsonExtract codec doc "stdout").asText codec.toConversions)

/-- The rows that are inserted: one for each `result_json` that is not `NULL`. -/
def splitRows (tasks : List TaskWithResult) : List (StoredResult ν) :=
  tasks.filterMap fun t => t.resultJson.map (splitRow codec t.row)

/-- `upgrade`; `none` when two rows have one id. -/
def V2.upgrade (db : V2) : Option (V3 ν) :=
  if h : ((splitRows codec db.tasks).map StoredResult.id).Nodup then
    some
      { tasks := db.tasks.map TaskWithResult.row
        results := splitRows codec db.tasks
        unique := db.unique
        result_ids := h }
  else none

/-! ### Downgrade -/

/-- `_serialize_task_result_to_json`. -/
def envelope (r : StoredResult ν) : Document :=
  List.toAList [⟨"id", .str r.id⟩, ⟨"task_id", textJson r.taskId⟩, ⟨"command", textJson r.command⟩,
    ⟨"exit_code", valueJson codec r.exitCode⟩, ⟨"stdout_tail", textJson r.stdoutTail⟩]

/-- `_task_row_exists`. -/
def V2.HasTask (db : V2) (id : String) : Prop := ∃ t ∈ db.tasks, t.row.id = id

instance (db : V2) (id : String) : Decidable (db.HasTask id) :=
  inferInstanceAs (Decidable (∃ t ∈ db.tasks, t.row.id = id))

def TaskWithResult.setResult (id : String) (doc : Document) (t : TaskWithResult) :
    TaskWithResult :=
  if t.row.id = id then { t with resultJson := some doc } else t

@[simp] theorem TaskWithResult.setResult_row (id : String) (doc : Document) (t : TaskWithResult) :
    (t.setResult id doc).row = t.row := by
  unfold TaskWithResult.setResult
  split_ifs <;> rfl

/-- `_update_task_result_json`. -/
def V2.updateTaskResultJson (db : V2) (id : String) (doc : Document) : V2 where
  tasks := db.tasks.map (TaskWithResult.setResult id doc)
  unique := by
    have hrows : (db.tasks.map (TaskWithResult.setResult id doc)).map TaskWithResult.row
        = db.tasks.map TaskWithResult.row := by
      rw [List.map_map]
      exact List.map_congr_left fun t _ => TaskWithResult.setResult_row id doc t
    rw [hrows]
    exact db.unique

/-- The row that carries a result without a task. -/
def carrier (r : StoredResult ν) : TaskWithResult where
  row :=
    { id := r.id
      name := some r.id
      command := some (r.command.getD "")
      status := some "migrated"
      createdAt := none }
  resultJson := some (envelope codec r)

/-- `_back_create_task_row`; `none` when the id or the name is taken. -/
def V2.backCreateTaskRow (db : V2) (r : StoredResult ν) : Option V2 :=
  if h : UniqueKeys ((db.tasks ++ [carrier codec r]).map TaskWithResult.row) then
    some { tasks := db.tasks ++ [carrier codec r], unique := h }
  else none

/-- The body of the loop. -/
def V2.backfill (db : V2) (r : StoredResult ν) : Option V2 :=
  if db.HasTask r.id then some (db.updateTaskResultJson r.id (envelope codec r))
  else db.backCreateTaskRow codec r

/-- `ADD COLUMN result_json`. -/
def V3.addColumn (db : V3 ν) : V2 where
  tasks := db.tasks.map fun t => { row := t, resultJson := none }
  unique := by
    rw [List.map_map]
    have hid : (TaskWithResult.row ∘ fun t : TaskRow => { row := t, resultJson := none })
        = id := rfl
    rw [hid, List.map_id]
    exact db.unique

/-- `downgrade`; `none` when a statement fails. -/
def V3.downgrade (db : V3 ν) : Option V2 := db.results.foldlM (V2.backfill codec) db.addColumn

/-! ### What the downgrade leaves -/

/-- A task with the result of its id, if there is one. -/
def attach (rs : List (StoredResult ν)) (t : TaskRow) : TaskWithResult where
  row := t
  resultJson := (rs.find? fun r => r.id = t.id).map (envelope codec)

/-- The results without a task of their id. -/
def homeless (tasks : List TaskRow) (rs : List (StoredResult ν)) : List (StoredResult ν) :=
  rs.filter fun r => ∀ t ∈ tasks, t.id ≠ r.id

/-- The `tasks` rows after results have been moved back: the tasks, then the carriers. -/
def restored (tasks : List TaskRow) (rs : List (StoredResult ν)) : List TaskWithResult :=
  tasks.map (attach codec rs) ++ (homeless tasks rs).map (carrier codec)

/-- No carrier would take the name of a task. -/
def NoClash (tasks : List TaskRow) (rs : List (StoredResult ν)) : Prop :=
  ∀ r ∈ rs, (∃ t ∈ tasks, t.id = r.id) ∨ ∀ t ∈ tasks, t.name ≠ some r.id

theorem mem_homeless {tasks : List TaskRow} {rs : List (StoredResult ν)} {r : StoredResult ν} :
    r ∈ homeless tasks rs ↔ r ∈ rs ∧ ∀ t ∈ tasks, t.id ≠ r.id := by
  simp [homeless]

/-- No result is homeless when each has a task of its id. -/
theorem homeless_eq_nil_iff {tasks : List TaskRow} {rs : List (StoredResult ν)} :
    homeless tasks rs = [] ↔ ∀ r ∈ rs, ∃ t ∈ tasks, t.id = r.id := by
  simp [List.eq_nil_iff_forall_not_mem, mem_homeless]

theorem restored_rows (tasks : List TaskRow) (rs : List (StoredResult ν)) :
    (restored codec tasks rs).map TaskWithResult.row
      = tasks ++ (homeless tasks rs).map fun r => (carrier codec r).row := by
  have hattach : (tasks.map (attach codec rs)).map TaskWithResult.row = tasks := by
    rw [List.map_map]
    exact List.map_id tasks
  rw [restored, List.map_append, hattach, List.map_map]
  rfl

/-- The rows are the tasks when there is no carrier among them. -/
theorem restored_rows_perm_iff {tasks : List TaskRow} {rs : List (StoredResult ν)} :
    ((restored codec tasks rs).map TaskWithResult.row).Perm tasks ↔ homeless tasks rs = [] := by
  rw [restored_rows]
  refine ⟨?_, ?_⟩
  · intro h
    -- a carrier would be one row too many
    have hlength := h.length_eq
    simp only [List.length_append, List.length_map] at hlength
    exact List.eq_nil_of_length_eq_zero (by omega)
  · intro h
    rw [h, List.map_nil, List.append_nil]

/-- Is there a row with the id of a result that has not been moved yet? -/
theorem hasTask_restored {tasks : List TaskRow} {pre : List (StoredResult ν)} {db : V2}
    {r : StoredResult ν} (hdb : db.tasks = restored codec tasks pre)
    (hnew : ∀ p ∈ pre, p.id ≠ r.id) : db.HasTask r.id ↔ ∃ t ∈ tasks, t.id = r.id := by
  have hrows : db.HasTask r.id ↔ ∃ t ∈ db.tasks.map TaskWithResult.row, t.id = r.id := by
    simp [V2.HasTask]
  rw [hrows, hdb, restored_rows]
  refine ⟨?_, ?_⟩
  · intro hrow
    obtain ⟨t, ht, hid⟩ := hrow
    rcases List.mem_append.mp ht with ht | ht
    · exact ⟨t, ht, hid⟩
    · obtain ⟨p, hp, rfl⟩ := List.mem_map.mp ht
      exact absurd hid (hnew p (mem_homeless.mp hp).1)
  · intro hrow
    obtain ⟨t, ht, hid⟩ := hrow
    exact ⟨t, List.mem_append_left _ ht, hid⟩

theorem setResult_of_eq {t : TaskWithResult} {id : String} (h : t.row.id = id) (doc : Document) :
    t.setResult id doc = { t with resultJson := some doc } := if_pos h

theorem setResult_of_ne {t : TaskWithResult} {id : String} (h : t.row.id ≠ id) (doc : Document) :
    t.setResult id doc = t := if_neg h

/-- One more result attaches to the task of its id alone. -/
theorem attach_concat {pre : List (StoredResult ν)} {r : StoredResult ν}
    (hnew : ∀ p ∈ pre, p.id ≠ r.id) (t : TaskRow) :
    attach codec (pre ++ [r]) t = (attach codec pre t).setResult r.id (envelope codec r) := by
  rw [attach, List.find?_append]
  by_cases hid : t.id = r.id
  · have hnone : pre.find? (fun p => p.id = t.id) = none := by
      rw [List.find?_eq_none]
      intro p hp
      simpa [hid] using hnew p hp
    rw [hnone, setResult_of_eq hid]
    simp [hid, attach]
  · have hother : [r].find? (fun p => p.id = t.id) = none := by
      simpa [List.find?_eq_none] using Ne.symm hid
    rw [hother, Option.or_none, setResult_of_ne hid]
    rfl

theorem homeless_concat (tasks : List TaskRow) (pre : List (StoredResult ν)) (r : StoredResult ν) :
    homeless tasks (pre ++ [r])
      = homeless tasks pre ++ if ∀ t ∈ tasks, t.id ≠ r.id then [r] else [] := by
  rw [homeless, List.filter_append, List.filter_singleton]
  simp [homeless]

/-- A result with a task of its id is attached to it. -/
theorem restored_attach {tasks : List TaskRow} {pre : List (StoredResult ν)} {r : StoredResult ν}
    (hnew : ∀ p ∈ pre, p.id ≠ r.id) (htask : ∃ t ∈ tasks, t.id = r.id) :
    (restored codec tasks pre).map (TaskWithResult.setResult r.id (envelope codec r))
      = restored codec tasks (pre ++ [r]) := by
  -- it adds no carrier, and the carriers there are keep what they carry
  have hhome : ¬ ∀ t ∈ tasks, t.id ≠ r.id := by
    intro h
    obtain ⟨t, ht, hid⟩ := htask
    exact h t ht hid
  have htasks :
      (tasks.map (attach codec pre)).map (TaskWithResult.setResult r.id (envelope codec r)) =
        tasks.map (attach codec (pre ++ [r])) := by
    rw [List.map_map]
    exact List.map_congr_left fun t _ => (attach_concat codec hnew t).symm
  have hcarriers : ((homeless tasks pre).map (carrier codec)).map
      (TaskWithResult.setResult r.id (envelope codec r))
        = (homeless tasks pre).map (carrier codec) := by
    rw [List.map_map]
    exact List.map_congr_left fun p hp => setResult_of_ne (hnew p (mem_homeless.mp hp).1) _
  rw [restored, List.map_append, htasks, hcarriers, restored, homeless_concat, if_neg hhome,
    List.append_nil]

/-- One without gets a carrier. -/
theorem restored_carrier {tasks : List TaskRow} {pre : List (StoredResult ν)} {r : StoredResult ν}
    (hnew : ∀ p ∈ pre, p.id ≠ r.id) (htask : ∀ t ∈ tasks, t.id ≠ r.id) :
    restored codec tasks pre ++ [carrier codec r] = restored codec tasks (pre ++ [r]) := by
  have htasks : tasks.map (attach codec (pre ++ [r])) = tasks.map (attach codec pre) := by
    refine List.map_congr_left fun t ht => ?_
    rw [attach_concat codec hnew]
    exact setResult_of_ne (htask t ht) _
  rw [restored, restored, htasks, homeless_concat, if_pos htask, List.map_append, List.append_assoc]
  rfl

/-- The carrier can be inserted unless its name is taken. -/
theorem uniqueKeys_carrier {tasks : List TaskRow} {pre : List (StoredResult ν)} {db : V2}
    {r : StoredResult ν} (hdb : db.tasks = restored codec tasks pre)
    (hnew : ∀ p ∈ pre, p.id ≠ r.id) (htask : ∀ t ∈ tasks, t.id ≠ r.id) :
    UniqueKeys ((db.tasks ++ [carrier codec r]).map TaskWithResult.row) ↔
      ∀ t ∈ tasks, t.name ≠ some r.id := by
  have hrows : (db.tasks ++ [carrier codec r]).map TaskWithResult.row
      = db.tasks.map TaskWithResult.row ++ [(carrier codec r).row] := List.map_append
  have hids : r.id ∉ (db.tasks.map TaskWithResult.row).map TaskRow.id := by
    rw [hdb, restored_rows]
    simp only [List.map_append, List.map_map, List.mem_append, List.mem_map, Function.comp_apply]
    intro hmem
    rcases hmem with ⟨t, ht, hid⟩ | ⟨p, hp, hid⟩
    · exact htask t ht hid
    · exact hnew p (mem_homeless.mp hp).1 hid
  have hnames : r.id ∈ (db.tasks.map TaskWithResult.row).filterMap TaskRow.name ↔
      ∃ t ∈ tasks, t.name = some r.id := by
    rw [hdb, restored_rows, List.mem_filterMap]
    refine ⟨?_, ?_⟩
    · intro hrow
      obtain ⟨t, ht, hname⟩ := hrow
      rcases List.mem_append.mp ht with ht | ht
      · exact ⟨t, ht, hname⟩
      · obtain ⟨p, hp, rfl⟩ := List.mem_map.mp ht
        exact absurd (Option.some.inj hname) (hnew p (mem_homeless.mp hp).1)
    · intro hrow
      obtain ⟨t, ht, hname⟩ := hrow
      exact ⟨t, List.mem_append_left _ ht, hname⟩
  have hconcat : ∀ (l : List String) (a : String), (l ++ [a]).Nodup ↔ a ∉ l ∧ l.Nodup := by
    intro l a
    rw [← List.concat_eq_append]
    exact List.nodup_concat l a
  have hsplit : UniqueKeys ((db.tasks ++ [carrier codec r]).map TaskWithResult.row) ↔
      ((db.tasks.map TaskWithResult.row).map TaskRow.id ++ [r.id]).Nodup ∧
        ((db.tasks.map TaskWithResult.row).filterMap TaskRow.name ++ [r.id]).Nodup := by
    rw [hrows, UniqueKeys, List.map_append, List.filterMap_append]
    rfl
  rw [hsplit, hconcat, hconcat, hnames]
  refine ⟨?_, ?_⟩
  · intro hfresh t ht heq
    obtain ⟨-, hname, -⟩ := hfresh
    exact hname ⟨t, ht, heq⟩
  · intro h
    exact ⟨⟨hids, db.unique.1⟩, fun ⟨t, ht, heq⟩ => h t ht heq, db.unique.2⟩

/-- One iteration. -/
theorem backfill_eq {tasks : List TaskRow} {pre : List (StoredResult ν)} {db : V2}
    {r : StoredResult ν} (hdb : db.tasks = restored codec tasks pre)
    (hnew : ∀ p ∈ pre, p.id ≠ r.id) :
    (NoClash tasks [r] →
      ∃ db', db.backfill codec r = some db' ∧ db'.tasks = restored codec tasks (pre ++ [r])) ∧
    (¬ NoClash tasks [r] → db.backfill codec r = none) := by
  have hhas := hasTask_restored codec hdb hnew
  have hclash : NoClash tasks [r] ↔
      (∃ t ∈ tasks, t.id = r.id) ∨ ∀ t ∈ tasks, t.name ≠ some r.id := by
    simp [NoClash]
  rw [hclash, V2.backfill]
  by_cases htask : ∃ t ∈ tasks, t.id = r.id
  · rw [if_pos (hhas.mpr htask)]
    refine ⟨?_, ?_⟩
    · intro _
      refine ⟨_, rfl, ?_⟩
      show db.tasks.map _ = _
      rw [hdb]
      exact restored_attach codec hnew htask
    · intro h
      exact absurd (Or.inl htask) h
  · rw [if_neg fun h => htask (hhas.mp h)]
    have htask' : ∀ t ∈ tasks, t.id ≠ r.id := fun t ht hid => htask ⟨t, ht, hid⟩
    -- only a name can be in the way: the id is new
    have hunique := uniqueKeys_carrier codec hdb hnew htask'
    refine ⟨?_, ?_⟩
    · intro h
      have hname := h.resolve_left htask
      refine ⟨_, dif_pos (hunique.mpr hname), ?_⟩
      show db.tasks ++ _ = _
      rw [hdb]
      exact restored_carrier codec hnew htask'
    · intro h
      exact dif_neg fun hkeys => h (Or.inr (hunique.mp hkeys))

/-- The loop, from some way into the results. -/
theorem foldlM_backfill {tasks : List TaskRow} : ∀ (rs pre : List (StoredResult ν)) (db : V2),
    db.tasks = restored codec tasks pre → ((pre ++ rs).map StoredResult.id).Nodup →
    (NoClash tasks rs → ∃ db', rs.foldlM (V2.backfill codec) db = some db' ∧
      db'.tasks = restored codec tasks (pre ++ rs)) ∧
    (¬ NoClash tasks rs → rs.foldlM (V2.backfill codec) db = none) := by
  intro rs
  induction rs with
  | nil =>
      intro pre db hdb _
      refine ⟨?_, ?_⟩
      · intro _
        exact ⟨db, rfl, by rw [List.append_nil]; exact hdb⟩
      · intro h
        exact absurd (fun r hr => absurd hr List.not_mem_nil) h
  | cons r rs ih =>
      -- ids are unique, so what has been moved does not have the id of the next
      intro pre db hdb hnodup
      have hnew : ∀ p ∈ pre, p.id ≠ r.id := by
        intro p hp
        rw [List.map_append] at hnodup
        exact (List.nodup_append.mp hnodup).2.2 _ (List.mem_map_of_mem hp) _
          (List.mem_map_of_mem List.mem_cons_self)
      have hcons : NoClash tasks (r :: rs) ↔ NoClash tasks [r] ∧ NoClash tasks rs := by
        simp [NoClash]
      obtain ⟨hok, hfail⟩ := backfill_eq codec hdb hnew
      rw [List.foldlM_cons, hcons]
      by_cases hr : NoClash tasks [r]
      · obtain ⟨db', hstep, hdb'⟩ := hok hr
        have hassoc : pre ++ [r] ++ rs = pre ++ r :: rs := by simp
        have hrest := ih (pre ++ [r]) db' hdb' (by rw [hassoc]; exact hnodup)
        rw [hassoc] at hrest
        rw [hstep]
        exact ⟨fun h => hrest.1 h.2, fun h => hrest.2 fun hrs => h ⟨hr, hrs⟩⟩
      · rw [hfail hr]
        exact ⟨fun h => absurd h.1 hr, fun _ => rfl⟩

theorem addColumn_tasks (db : V3 ν) : db.addColumn.tasks = restored codec db.tasks [] := by
  simp [V3.addColumn, restored, homeless, attach]

/-- A downgrade that does not clash goes through, and leaves each task with the result of
its id and a carrier for each result that has no task. -/
theorem downgrade_of_noClash {db : V3 ν} (h : NoClash db.tasks db.results) :
    ∃ db', db.downgrade codec = some db' ∧ db'.tasks = restored codec db.tasks db.results :=
  (foldlM_backfill codec db.results [] db.addColumn (addColumn_tasks codec db) db.result_ids).1 h

/-- What a downgrade that went through has left. -/
theorem downgrade_some {db : V3 ν} {db' : V2} (h : db.downgrade codec = some db') :
    NoClash db.tasks db.results ∧ db'.tasks = restored codec db.tasks db.results := by
  have hclash : NoClash db.tasks db.results := by
    by_contra hclash
    have hnone := (foldlM_backfill codec db.results [] db.addColumn (addColumn_tasks codec db)
      db.result_ids).2 hclash
    rw [V3.downgrade, hnone] at h
    cases h
  obtain ⟨db'', hdown, htasks⟩ := downgrade_of_noClash codec hclash
  rw [h] at hdown
  cases hdown
  exact ⟨hclash, htasks⟩

end Taskq.Migrations
