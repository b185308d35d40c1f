import Mathlib.Algebra.Order.BigOperators.Group.List
import Mathlib.Algebra.Order.Ring.Nat
import Taskq.Lib.Keyed
import Taskq.Migrations.V3

/-!
# Taskq.Migrations.RoundTrip

Down from v3 and up again, and up from v2 and down again.

The downgrade keys on the *result's* id, and carries a result without a task of that id
on a `tasks` row of its own, under a name that may be taken. Coming back, the upgrade
reads a `NULL` under `task_id` as missing and puts the row's id there.
-/

namespace Taskq.Migrations

open Sqlite

variable {ν : Type} (codec : JsonCodec ν)

/-! ### Envelopes -/

theorem envelope_lookup (r : StoredResult ν) (key : String) :
    (envelope codec r).lookup key =
      if key = "id" then some (.str r.id)
      else if key = "task_id" then some (textJson r.taskId)
      else if key = "command" then some (textJson r.command)
      else if key = "exit_code" then some (valueJson codec r.exitCode)
      else if key = "stdout_tail" then some (textJson r.stdoutTail)
      else none := by
  rw [envelope, AList.lookup_to_alist]
  split_ifs with h₁ h₂ h₃ h₄ h₅
  case pos => rw [h₁]; rfl
  case pos => rw [h₂]; rfl
  case pos => rw [h₃]; rfl
  case pos => rw [h₄]; rfl
  case pos => rw [h₅]; rfl
  case neg =>
    rw [List.dlookup_eq_none]
    simp [List.keys, h₁, h₂, h₃, h₄, h₅]

theorem asText_textJson (s : Option String) :
    (sqlValue codec (textJson s)).asText codec.toConversions = s := by
  cases s <;> rfl

theorem sqlValue_valueJson (v : Value ν) : sqlValue codec (valueJson codec v) = v := by
  cases v with
  | number v => exact congrArg Value.number (codec.read_write v)
  | _ => rfl

/-- What comes back for a result: `task_id` is never `NULL`. -/
def StoredResult.returned (r : StoredResult ν) : StoredResult ν :=
  { r with taskId := some (r.taskId.getD r.id) }

theorem returned_of_taskId {r : StoredResult ν} (h : r.taskId ≠ none) : r.returned = r := by
  obtain ⟨id, hid⟩ := Option.ne_none_iff_exists'.mp h
  cases r
  simp_all [StoredResult.returned]

/-- Splitting the envelope of a result, on a row of its id. -/
theorem splitRow_envelope {r : StoredResult ν} {t : TaskRow} (h : t.id = r.id) :
    splitRow codec t (envelope codec r) = r.returned := by
  have hid : jsonExtract codec (envelope codec r) "id" = .text r.id := by
    simp [jsonExtract, envelope_lookup, sqlValue]
  have htask : jsonExtract codec (envelope codec r) "task_id"
      = sqlValue codec (textJson r.taskId) := by
    simp [jsonExtract, envelope_lookup]
  have hcommand : jsonExtract codec (envelope codec r) "command"
      = sqlValue codec (textJson r.command) := by
    simp [jsonExtract, envelope_lookup]
  have hexit : jsonExtract codec (envelope codec r) "exit_code" = r.exitCode := by
    simp [jsonExtract, envelope_lookup, sqlValue_valueJson]
  have hstdout : jsonExtract codec (envelope codec r) "stdout_tail"
      = sqlValue codec (textJson r.stdoutTail) := by
    simp [jsonExtract, envelope_lookup]
  have hother : jsonExtract codec (envelope codec r) "stdout" = .null := by
    simp [jsonExtract, envelope_lookup]
  rw [splitRow, hid, htask, hcommand, hexit, hstdout, hother, asText_textJson, asText_textJson,
    asText_textJson, Value.asInteger_self, h]
  simp [StoredResult.returned, Value.asText]

/-! ### What each direction leaves -/

theorem mem_splitRows {tasks : List TaskWithResult} {r : StoredResult ν} :
    r ∈ splitRows codec tasks ↔
      ∃ t ∈ tasks, ∃ doc, t.resultJson = some doc ∧ splitRow codec t.row doc = r := by
  simp [splitRows, List.mem_filterMap, Option.map_eq_some_iff]

/-- What an upgrade that went through has made. -/
theorem upgrade_some {db : V2} {db' : V3 ν} (h : db.upgrade codec = some db') :
    db'.tasks = db.tasks.map TaskWithResult.row ∧ db'.results = splitRows codec db.tasks := by
  unfold V2.upgrade at h
  split_ifs at h
  cases h
  exact ⟨rfl, rfl⟩

theorem upgrade_of_nodup {db : V2}
    (h : ((splitRows codec db.tasks).map StoredResult.id).Nodup) :
    ∃ db', db.upgrade codec = some db' := ⟨_, dif_pos h⟩

/-- A document on a row after the downgrade is the envelope of the result of its id. -/
theorem mem_restored {tasks : List TaskRow} {rs : List (StoredResult ν)} {t : TaskWithResult}
    {doc : Document} (ht : t ∈ restored codec tasks rs) (hdoc : t.resultJson = some doc) :
    ∃ r ∈ rs, t.row.id = r.id ∧ doc = envelope codec r := by
  rcases List.mem_append.mp ht with ht | ht
  · obtain ⟨row, -, rfl⟩ := List.mem_map.mp ht
    obtain ⟨r, hfind, rfl⟩ := Option.map_eq_some_iff.mp hdoc
    have hid : r.id = row.id := by simpa using List.find?_some hfind
    exact ⟨r, List.mem_of_find?_eq_some hfind, hid.symm, rfl⟩
  · obtain ⟨r, hr, rfl⟩ := List.mem_map.mp ht
    cases hdoc
    exact ⟨r, (mem_homeless.mp hr).1, rfl, rfl⟩

/-- Every result is on some row after the downgrade. -/
theorem exists_restored {tasks : List TaskRow} {rs : List (StoredResult ν)}
    (hids : (rs.map StoredResult.id).Nodup) {r : StoredResult ν} (hr : r ∈ rs) :
    ∃ t ∈ restored codec tasks rs, t.row.id = r.id ∧ t.resultJson = some (envelope codec r) := by
  by_cases htask : ∃ t ∈ tasks, t.id = r.id
  · obtain ⟨t, ht, hid⟩ := htask
    refine ⟨attach codec rs t, List.mem_append_left _ (List.mem_map_of_mem ht), hid, ?_⟩
    show (rs.find? fun p => p.id = t.id).map _ = _
    rw [Keyed.find?_eq_some hids hr hid.symm]
    rfl
  · have hhome : r ∈ homeless tasks rs :=
      mem_homeless.mpr ⟨hr, fun t ht hid => htask ⟨t, ht, hid⟩⟩
    exact ⟨carrier codec r, List.mem_append_right _ (List.mem_map_of_mem hhome), rfl, rfl⟩

/-- What comes back of the results. -/
theorem mem_splitRows_restored {tasks : List TaskRow} {rs : List (StoredResult ν)}
    (hids : (rs.map StoredResult.id).Nodup) {r' : StoredResult ν} :
    r' ∈ splitRows codec (restored codec tasks rs) ↔ ∃ r ∈ rs, r.returned = r' := by
  rw [mem_splitRows]
  refine ⟨?_, ?_⟩
  · intro hback
    obtain ⟨t, ht, doc, hdoc, rfl⟩ := hback
    obtain ⟨r, hr, hid, rfl⟩ := mem_restored codec ht hdoc
    exact ⟨r, hr, (splitRow_envelope codec hid).symm⟩
  · intro hback
    obtain ⟨r, hr, rfl⟩ := hback
    obtain ⟨t, ht, hid, hdoc⟩ : ∃ t ∈ restored codec tasks rs, t.row.id = r.id ∧
        t.resultJson = some (envelope codec r) := exists_restored codec hids hr
    exact ⟨t, ht, _, hdoc, splitRow_envelope codec hid⟩

/-- Rows that split into results of their own ids split into distinct ones. -/
theorem splitRows_nodup {db : V2}
    (h : ∀ t ∈ db.tasks, ∀ doc, t.resultJson = some doc →
      (splitRow codec t.row doc).id = t.row.id) :
    ((splitRows codec db.tasks).map StoredResult.id).Nodup := by
  refine db.ids_nodup.sublist (Keyed.map_filterMap_sublist fun t ht r hr => ?_)
  obtain ⟨doc, hdoc, rfl⟩ := Option.map_eq_some_iff.mp hr
  exact h t ht doc hdoc

/-! ### Down and up again -/

/-- `downgrade` and then `upgrade`. -/
def V3.roundTrip (db : V3 ν) : Option (V3 ν) := (db.downgrade codec).bind (V2.upgrade codec)

/-- A round trip whose downgrade goes through goes through. -/
theorem roundTrip_of_noClash {db : V3 ν} (h : NoClash db.tasks db.results) :
    ∃ db', db.roundTrip codec = some db' ∧
      db'.results = splitRows codec (restored codec db.tasks db.results) := by
  obtain ⟨db₂, hdown, htasks⟩ := downgrade_of_noClash codec h
  have hnodup : ((splitRows codec db₂.tasks).map StoredResult.id).Nodup := by
    refine splitRows_nodup codec ?_
    intro t ht doc hdoc
    rw [htasks] at ht
    obtain ⟨r, -, hid, rfl⟩ := mem_restored codec ht hdoc
    rw [splitRow_envelope codec hid, hid]
    rfl
  obtain ⟨db', hup⟩ := upgrade_of_nodup codec hnodup
  refine ⟨db', ?_, ?_⟩
  · rw [V3.roundTrip, hdown, Option.bind_some, hup]
  · rw [(upgrade_some codec hup).2, htasks]

/-- A result that comes back as it was has a `task_id`. -/
theorem taskId_of_roundTrip {db db' : V3 ν} (h : db.roundTrip codec = some db')
    (hperm : db'.results.Perm db.results) : ∀ r ∈ db.results, r.taskId ≠ none := by
  obtain ⟨db₂, hdown, hup⟩ := Option.bind_eq_some_iff.mp h
  intro r hr hnull
  have hback : r.returned ∈ db.results := by
    rw [← hperm.mem_iff, (upgrade_some codec hup).2, (downgrade_some codec hdown).2,
      mem_splitRows_restored codec db.result_ids]
    exact ⟨r, hr, rfl⟩
  -- it has the id of `r`, and ids are unique
  have hself : r.returned = r := List.inj_on_of_nodup_map db.result_ids hback hr rfl
  rw [← hself] at hnull
  cases hnull

/-- With `task_id`s everywhere, what comes back is what was there. -/
theorem perm_of_taskId {db db' : V3 ν} (h : ∀ r ∈ db.results, r.taskId ≠ none)
    (hresults : db'.results = splitRows codec (restored codec db.tasks db.results)) :
    db'.results.Perm db.results := by
  rw [List.perm_ext_iff_of_nodup (.of_map _ db'.result_ids) (.of_map _ db.result_ids)]
  intro r
  rw [hresults, mem_splitRows_restored codec db.result_ids]
  refine ⟨?_, ?_⟩
  · intro hback
    obtain ⟨p, hp, rfl⟩ := hback
    rw [returned_of_taskId (h p hp)]
    exact hp
  · intro hr
    exact ⟨r, hr, returned_of_taskId (h r hr)⟩

/-- **Down and up again gives back `task_results` if and only if** no result has a `NULL`
`task_id`, and no result without a task of its id has an id that is the name of one. -/
theorem results_roundTrip_iff (db : V3 ν) :
    (∃ db', db.roundTrip codec = some db' ∧ db'.results.Perm db.results) ↔
      (∀ r ∈ db.results, r.taskId ≠ none) ∧
        ∀ r ∈ db.results, (∃ t ∈ db.tasks, t.id = r.id) ∨ ∀ t ∈ db.tasks, t.name ≠ some r.id := by
  refine ⟨?_, ?_⟩
  · intro h
    obtain ⟨db', hround, hperm⟩ := h
    obtain ⟨db₂, hdown, -⟩ := Option.bind_eq_some_iff.mp hround
    exact ⟨taskId_of_roundTrip codec hround hperm, (downgrade_some codec hdown).1⟩
  · intro h
    obtain ⟨db', hround, hresults⟩ := roundTrip_of_noClash codec h.2
    exact ⟨db', hround, perm_of_taskId codec h.1 hresults⟩

/-- A result of no task. -/
def orphan : V3 ℤ where
  tasks := []
  results := [{ id := "r", taskId := none, command := some "echo hi",
                exitCode := ⟨.number 0, trivial⟩, stdoutTail := some "hi" }]
  unique := by decide
  result_ids := by decide

/-- It comes back as one of the task `"r"`. -/
theorem orphan_not_restored :
    ¬ ∃ db', orphan.roundTrip integerCodec = some db' ∧ db'.results.Perm orphan.results := by
  intro h
  obtain ⟨db', hround, hperm⟩ := h
  exact taskId_of_roundTrip integerCodec hround hperm _ List.mem_cons_self rfl

/-- A result whose id is the name of a task. -/
def nameTaken : V3 ℤ where
  tasks := [{ id := "t", name := some "r", command := none, status := none, createdAt := none }]
  results := [{ id := "r", taskId := some "t", command := none,
                exitCode := ⟨.null, trivial⟩, stdoutTail := none }]
  unique := by decide
  result_ids := by decide

example : nameTaken.downgrade integerCodec = none := rfl

/-- What a round trip makes of the tasks: itself a frame, were it not for the carriers,
which no upgrade removes. -/
theorem tasks_of_roundTrip {db db' : V3 ν} (h : db.roundTrip codec = some db') :
    db'.tasks = (restored codec db.tasks db.results).map TaskWithResult.row := by
  obtain ⟨db₂, hdown, hup⟩ := Option.bind_eq_some_iff.mp h
  rw [(upgrade_some codec hup).1, (downgrade_some codec hdown).2]

/-- **Down and up again leaves `tasks` as it was if and only if** every result has the id
of a task. -/
theorem tasks_roundTrip_iff {db db' : V3 ν} (h : db.roundTrip codec = some db') :
    db'.tasks.Perm db.tasks ↔ ∀ r ∈ db.results, ∃ t ∈ db.tasks, t.id = r.id := by
  rw [tasks_of_roundTrip codec h, restored_rows_perm_iff, homeless_eq_nil_iff]

/-- A task and its result, each under an id of its own, as the service makes them. -/
def ownIds : V3 ℤ where
  tasks := [{ id := "t", name := some "backup", command := some "true", status := some "queued",
              createdAt := some "2026-01-01 00:00:00.000000" }]
  results := [{ id := "r", taskId := some "t", command := some "true",
                exitCode := ⟨.number 0, trivial⟩, stdoutTail := some "" }]
  unique := by decide
  result_ids := by decide

theorem ownIds_roundTrip : ∃ db', ownIds.roundTrip integerCodec = some db' := by
  have hclash : NoClash ownIds.tasks ownIds.results := by
    intro r hr
    rw [List.mem_singleton.mp hr]
    exact Or.inr (by decide)
  obtain ⟨db', hround, -⟩ := roundTrip_of_noClash integerCodec hclash
  exact ⟨db', hround⟩

theorem tasks_roundTrip_iff_ownIds : ∃ db', ownIds.roundTrip integerCodec = some db' ∧
    (db'.tasks.Perm ownIds.tasks ↔ ∀ r ∈ ownIds.results, ∃ t ∈ ownIds.tasks, t.id = r.id) := by
  obtain ⟨db', hround⟩ := ownIds_roundTrip
  exact ⟨db', hround, tasks_roundTrip_iff integerCodec hround⟩

/-- The result's carrier is a second task. -/
theorem ownIds_gain_task :
    ∃ db', ownIds.roundTrip integerCodec = some db' ∧ ¬ db'.tasks.Perm ownIds.tasks := by
  obtain ⟨db', hround⟩ := ownIds_roundTrip
  refine ⟨db', hround, ?_⟩
  rw [tasks_of_roundTrip integerCodec hround, restored_rows_perm_iff, homeless_eq_nil_iff]
  decide

/-! ### Up and down again -/

/-- A `result_json` holds the same value under every key there was, or is `NULL` as it
was. -/
def Kept : Option Document → Option Document → Prop
  | none, after => after = none
  | some doc, after =>
      ∃ doc', after = some doc' ∧ ∀ key v, doc.lookup key = some v → doc'.lookup key = some v

/-- The same `tasks` rows, and in each what was in its `result_json`. -/
structure Restores (before after : V2) : Prop where
  rows : (after.tasks.map TaskWithResult.row).Perm (before.tasks.map TaskWithResult.row)
  kept : ∀ t ∈ before.tasks, ∀ t' ∈ after.tasks, t'.row.id = t.row.id →
    Kept t.resultJson t'.resultJson

def IsText : JsonValue → Prop
  | .str _ => True
  | _ => False

def IsNullableText : JsonValue → Prop
  | .null => True
  | v => IsText v

/-- What an `INTEGER` column gives back as it was: a number SQLite keeps, or a text that
does not read as one. -/
def IsExitCode : JsonValue → Prop
  | .null => True
  | .number q => codec.write (codec.read q) = q
  | .str s => looksNumeric s.toList = false
  | .bool _ => False
  | .arr _ => False
  | .obj _ => False

/-- The keys of an envelope. -/
def envelopeKeys : List String := ["id", "task_id", "command", "exit_code", "stdout_tail"]

/-- A document of the shape the downgrade writes, on the row of its id. -/
structure IsEnvelope (id : String) (doc : Document) : Prop where
  id : doc.lookup "id" = some (.str id)
  keys : ∀ key ∈ doc, key ∈ envelopeKeys
  taskId : ∀ v, doc.lookup "task_id" = some v → IsText v
  command : ∀ v, doc.lookup "command" = some v → IsNullableText v
  exitCode : ∀ v, doc.lookup "exit_code" = some v → IsExitCode codec v
  stdoutTail : ∀ v, doc.lookup "stdout_tail" = some v → IsNullableText v

theorem jsonExtract_of_lookup {doc : Document} {key : String} {v : JsonValue}
    (h : doc.lookup key = some v) : jsonExtract codec doc key = sqlValue codec v := by
  rw [jsonExtract, h]
  rfl

theorem isNullableText_textJson (s : Option String) : IsNullableText (textJson s) := by
  cases s <;> trivial

/-- A document with an id of its own becomes the result of that id. -/
theorem splitRow_id (t : TaskRow) {doc : Document} {id : String}
    (h : doc.lookup "id" = some (.str id)) : (splitRow codec t doc).id = id := by
  rw [splitRow, jsonExtract_of_lookup codec h]
  rfl

theorem textJson_asText (v : JsonValue) :
    textJson ((sqlValue codec v).asText codec.toConversions) = v ↔ IsNullableText v := by
  cases v <;> simp [sqlValue, Value.asText, textJson, IsNullableText, IsText]

theorem textJson_taskId (v : JsonValue) (id : String) :
    textJson (some (((sqlValue codec v).asText codec.toConversions).getD id)) = v ↔ IsText v := by
  cases v <;> simp [sqlValue, Value.asText, textJson, IsText]

/-- A text in an `INTEGER` column comes back as a text or as a number. -/
theorem valueJson_text (s : String) :
    valueJson codec ((Value.text s).asInteger codec.toConversions) =
      if looksNumeric s.toList then .number (codec.write (codec.textNumber s)) else .str s := by
  rw [Value.asInteger]
  split_ifs <;> rfl

theorem valueJson_asInteger (v : JsonValue) :
    valueJson codec ((sqlValue codec v).asInteger codec.toConversions) = v ↔
      IsExitCode codec v := by
  cases v with
  | str s =>
      rw [sqlValue, valueJson_text, IsExitCode]
      split_ifs with h <;> simp [h]
  | arr vs =>
      rw [sqlValue, valueJson_text, IsExitCode]
      split_ifs <;> simp
  | obj members =>
      rw [sqlValue, valueJson_text, IsExitCode]
      split_ifs <;> simp
  | _ => simp [sqlValue, Value.asInteger, valueJson, IsExitCode]

/-- Splitting a document and writing the envelope keeps every value if and only if the
document is an envelope. -/
theorem envelope_splitRow_iff {t : TaskRow} {doc : Document}
    (hid : doc.lookup "id" = some (.str t.id)) :
    (∀ key v, doc.lookup key = some v →
        (envelope codec (splitRow codec t doc)).lookup key = some v) ↔
      IsEnvelope codec t.id doc := by
  refine ⟨?_, ?_⟩
  · intro h
    -- each key is one of the envelope's, and its value is what the envelope has there
    have hlookup : ∀ {key v}, doc.lookup key = some v → _ := fun {key v} hv =>
      (envelope_lookup codec (splitRow codec t doc) key).symm.trans (h key v hv)
    constructor
    case id => exact hid
    case keys =>
      intro key hkey
      obtain ⟨v, hv⟩ := Option.isSome_iff_exists.mp (AList.lookup_isSome.mpr hkey)
      have hkeyed := hlookup hv
      by_contra hnot
      simp only [envelopeKeys, List.mem_cons, List.not_mem_nil, or_false, not_or] at hnot
      obtain ⟨h₁, h₂, h₃, h₄, h₅⟩ := hnot
      rw [if_neg h₁, if_neg h₂, if_neg h₃, if_neg h₄, if_neg h₅] at hkeyed
      cases hkeyed
    case taskId =>
      intro v hv
      have hkeyed := Option.some.inj (hlookup hv)
      rw [splitRow, jsonExtract_of_lookup codec hv] at hkeyed
      exact (textJson_taskId codec v t.id).mp hkeyed
    case command =>
      intro v hv
      have hkeyed := Option.some.inj (hlookup hv)
      rw [splitRow, jsonExtract_of_lookup codec hv] at hkeyed
      exact (textJson_asText codec v).mp hkeyed
    case exitCode =>
      intro v hv
      have hkeyed := Option.some.inj (hlookup hv)
      rw [splitRow, jsonExtract_of_lookup codec hv] at hkeyed
      exact (valueJson_asInteger codec v).mp hkeyed
    case stdoutTail =>
      intro v hv
      have hkeyed := Option.some.inj (hlookup hv)
      rw [← hkeyed]
      exact isNullableText_textJson _
  · intro h key v hv
    have hkey := h.keys key (AList.lookup_isSome.mp (by rw [hv]; rfl))
    simp only [envelopeKeys, List.mem_cons, List.not_mem_nil, or_false] at hkey
    rw [envelope_lookup]
    rcases hkey with rfl | rfl | rfl | rfl | rfl
    · show some (JsonValue.str (splitRow codec t doc).id) = some v
      rw [splitRow_id codec t hid, ← hid, hv]
    · show some (textJson (splitRow codec t doc).taskId) = some v
      rw [splitRow, jsonExtract_of_lookup codec hv,
        (textJson_taskId codec v t.id).mpr (h.taskId v hv)]
    · show some (textJson (splitRow codec t doc).command) = some v
      rw [splitRow, jsonExtract_of_lookup codec hv, (textJson_asText codec v).mpr (h.command v hv)]
    · show some (valueJson codec (splitRow codec t doc).exitCode) = some v
      rw [splitRow, jsonExtract_of_lookup codec hv,
        (valueJson_asInteger codec v).mpr (h.exitCode v hv)]
    · -- there is no `stdout` to fall back on
      have hstdout : jsonExtract codec doc "stdout" = .null := by
        have hnone : doc.lookup "stdout" = none := by
          rw [AList.lookup_eq_none]
          intro hmem
          exact absurd (h.keys "stdout" hmem) (by decide)
        rw [jsonExtract, hnone]
        rfl
      show some (textJson (splitRow codec t doc).stdoutTail) = some v
      rw [splitRow, jsonExtract_of_lookup codec hv, hstdout]
      show some (textJson (Option.or _ none)) = some v
      rw [Option.or_none, (textJson_asText codec v).mpr (h.stdoutTail v hv)]

/-! ### Where the results go -/

/-- The tasks with a document, and the documents. -/
def documents (tasks : List TaskWithResult) : List (TaskRow × Document) :=
  tasks.filterMap fun t => t.resultJson.map fun doc => (t.row, doc)

theorem mem_documents {tasks : List TaskWithResult} {row : TaskRow} {doc : Document} :
    (row, doc) ∈ documents tasks ↔ ∃ t ∈ tasks, t.row = row ∧ t.resultJson = some doc := by
  simp only [documents, List.mem_filterMap, Option.map_eq_some_iff, Prod.mk.injEq]
  refine ⟨?_, ?_⟩
  · intro h
    obtain ⟨t, ht, _, hdoc, hrow, rfl⟩ := h
    exact ⟨t, ht, hrow, hdoc⟩
  · intro h
    obtain ⟨t, ht, hrow, hdoc⟩ := h
    exact ⟨t, ht, _, hdoc, hrow, rfl⟩

theorem splitRows_eq_map (tasks : List TaskWithResult) :
    splitRows codec tasks = (documents tasks).map fun p => splitRow codec p.1 p.2 := by
  rw [documents, List.map_filterMap, splitRows]
  refine List.filterMap_congr fun t _ => ?_
  rw [Option.map_map]
  rfl

theorem documents_ids (db : V2) : ((documents db.tasks).map fun p => p.1.id).Nodup := by
  refine db.ids_nodup.sublist (Keyed.map_filterMap_sublist fun t ht p hp => ?_)
  obtain ⟨doc, -, rfl⟩ := Option.map_eq_some_iff.mp hp
  rfl

/-- Two sums of which one is nowhere behind the other, and which are equal, are equal
term by term. -/
theorem forall_eq_of_sum_eq {α : Type*} {f g : α → ℕ} {l : List α} (hle : ∀ a ∈ l, f a ≤ g a)
    (hsum : (l.map f).sum = (l.map g).sum) : ∀ a ∈ l, f a = g a := by
  induction l with
  | nil =>
      intro a ha
      cases ha
  | cons b l ih =>
      obtain ⟨hhead, htail⟩ := List.forall_mem_cons.mp hle
      have hrest := List.sum_le_sum htail
      rw [List.map_cons, List.sum_cons, List.map_cons, List.sum_cons] at hsum
      rw [List.forall_mem_cons]
      exact ⟨by omega, ih htail (by omega)⟩

/-- A document goes to a result of its task's id, or to one of a longer id. -/
theorem splitRow_id_cases {t : TaskRow} {doc : Document}
    (h : ∀ v, doc.lookup "id" = some v → v = .str t.id) :
    doc.lookup "id" = some (.str t.id) ∨
      (splitRow codec t doc).id = t.id ++ "-result" := by
  cases hlookup : doc.lookup "id" with
  | some v =>
      rw [h v hlookup]
      exact Or.inl rfl
  | none =>
      refine Or.inr ?_
      rw [splitRow, jsonExtract, hlookup]
      rfl

/-- When every result goes to the id of a task with a document, and the other way round,
each goes to its own: an id can only get longer. -/
theorem id_of_splitRows {db : V2}
    (hkept : ∀ p ∈ documents db.tasks, ∀ v, p.2.lookup "id" = some v → v = .str p.1.id)
    (hperm : ((splitRows codec db.tasks).map StoredResult.id).Perm
      ((documents db.tasks).map fun p => p.1.id)) :
    ∀ p ∈ documents db.tasks, p.2.lookup "id" = some (.str p.1.id) := by
  have hcases := fun p hp => splitRow_id_cases codec (hkept p hp)
  have hle : ∀ p ∈ documents db.tasks, p.1.id.length ≤ (splitRow codec p.1 p.2).id.length := by
    intro p hp
    rcases hcases p hp with h | h
    · rw [splitRow_id codec p.1 h]
    · rw [h, String.length_append]
      omega
  -- both sides are the lengths of the same ids, in another order
  have hsum : ((documents db.tasks).map fun p => p.1.id.length).sum
      = ((documents db.tasks).map fun p => (splitRow codec p.1 p.2).id.length).sum := by
    have hlengths := (hperm.map String.length).sum_eq
    rw [splitRows_eq_map, List.map_map, List.map_map, List.map_map] at hlengths
    exact hlengths.symm
  intro p hp
  rcases hcases p hp with h | h
  · exact h
  · have heq := forall_eq_of_sum_eq hle hsum p hp
    rw [h, String.length_append] at heq
    -- the fallback id would be longer than the id it is said to be as long as
    have hlong : "-result".length = 7 := rfl
    omega

/-! ### What a downgrade restores -/

/-- The result of a task's id is the only one that can be kept on its row. -/
theorem kept_find?_iff {rs : List (StoredResult ν)} (hids : (rs.map StoredResult.id).Nodup)
    (id : String) (doc : Document) :
    Kept (some doc) ((rs.find? fun r => r.id = id).map (envelope codec)) ↔
      ∃ r ∈ rs, r.id = id ∧
        ∀ key v, doc.lookup key = some v → (envelope codec r).lookup key = some v := by
  refine ⟨?_, ?_⟩
  · intro h
    obtain ⟨doc', hfound, hkept⟩ := h
    obtain ⟨r, hfind, rfl⟩ := Option.map_eq_some_iff.mp hfound
    have hid : r.id = id := by simpa using List.find?_some hfind
    exact ⟨r, List.mem_of_find?_eq_some hfind, hid, hkept⟩
  · intro h
    obtain ⟨r, hr, hid, hkept⟩ := h
    rw [Keyed.find?_eq_some hids hr hid]
    exact ⟨_, rfl, hkept⟩

theorem kept_none_find?_iff {rs : List (StoredResult ν)} (id : String) :
    Kept none ((rs.find? fun r => r.id = id).map (envelope codec)) ↔ ∀ r ∈ rs, r.id ≠ id := by
  show Option.map _ _ = none ↔ _
  simp [List.find?_eq_none]

/-- What is left of a database is what was there when no result needs a carrier and each
row has its own result back. -/
theorem restores_iff {db after : V2} {rs : List (StoredResult ν)}
    (hafter : after.tasks = restored codec (db.tasks.map TaskWithResult.row) rs) :
    Restores db after ↔
      (∀ r ∈ rs, ∃ t ∈ db.tasks, t.row.id = r.id) ∧
        ∀ t ∈ db.tasks,
          Kept t.resultJson ((rs.find? fun r => r.id = t.row.id).map (envelope codec)) := by
  have hrows : ((restored codec (db.tasks.map TaskWithResult.row) rs).map TaskWithResult.row).Perm
      (db.tasks.map TaskWithResult.row) ↔ _ := restored_rows_perm_iff codec
  rw [← hafter, homeless_eq_nil_iff] at hrows
  simp only [List.mem_map, exists_exists_and_eq_and] at hrows
  refine ⟨?_, ?_⟩
  · intro h
    refine ⟨hrows.mp h.rows, ?_⟩
    intro t ht
    have hmem : attach codec rs t.row ∈ after.tasks := by
      rw [hafter]
      exact List.mem_append_left _ (List.mem_map_of_mem (List.mem_map_of_mem ht))
    exact h.kept t ht _ hmem rfl
  · intro h
    obtain ⟨hhome, hkept⟩ := h
    have hnil : homeless (db.tasks.map TaskWithResult.row) rs = [] := by
      simpa [homeless_eq_nil_iff] using hhome
    constructor
    case rows => exact hrows.mpr hhome
    case kept =>
      intro t ht t' ht' hid
      rw [hafter, restored, hnil, List.map_nil, List.append_nil] at ht'
      obtain ⟨row, -, rfl⟩ := List.mem_map.mp ht'
      have hkept := hkept t ht
      rw [← hid] at hkept
      exact hkept

/-- Where every row has its own result back, every result has gone to the id of the task
it came from. -/
theorem splitRows_ids_perm {db : V2} (hids : ((splitRows codec db.tasks).map StoredResult.id).Nodup)
    (hhome : ∀ r ∈ splitRows codec db.tasks, ∃ t ∈ db.tasks, t.row.id = r.id)
    (hkept : ∀ t ∈ db.tasks, Kept t.resultJson
      (((splitRows codec db.tasks).find? fun r => r.id = t.row.id).map (envelope codec))) :
    ((splitRows codec db.tasks).map StoredResult.id).Perm
      ((documents db.tasks).map fun p => p.1.id) := by
  rw [List.perm_ext_iff_of_nodup hids (documents_ids db)]
  intro id
  simp only [List.mem_map, Prod.exists, mem_documents]
  refine ⟨?_, ?_⟩
  · intro h
    obtain ⟨r, hr, rfl⟩ := h
    obtain ⟨t, ht, hid⟩ := hhome r hr
    have hkept := hkept t ht
    cases hdoc : t.resultJson with
    | none =>
        rw [hdoc, kept_none_find?_iff] at hkept
        exact absurd hid.symm (hkept r hr)
    | some doc => exact ⟨t.row, doc, ⟨t, ht, rfl, hdoc⟩, hid⟩
  · intro h
    obtain ⟨_, doc, ⟨t, ht, rfl, hdoc⟩, rfl⟩ := h
    have hkept := hkept t ht
    rw [hdoc, kept_find?_iff codec hids] at hkept
    obtain ⟨r, hr, hid, -⟩ := hkept
    exact ⟨r, hr, hid⟩

/-- A database that comes back has envelopes only. -/
theorem isEnvelope_of_kept {db : V2} (hids : ((splitRows codec db.tasks).map StoredResult.id).Nodup)
    (hhome : ∀ r ∈ splitRows codec db.tasks, ∃ t ∈ db.tasks, t.row.id = r.id)
    (hkept : ∀ t ∈ db.tasks, Kept t.resultJson
      (((splitRows codec db.tasks).find? fun r => r.id = t.row.id).map (envelope codec)))
    {t : TaskWithResult} {doc : Document} (ht : t ∈ db.tasks) (hdoc : t.resultJson = some doc) :
    IsEnvelope codec t.row.id doc := by
  have hfound : ∀ t ∈ db.tasks, ∀ doc, t.resultJson = some doc →
      ∃ r ∈ splitRows codec db.tasks, r.id = t.row.id ∧
        ∀ key v, doc.lookup key = some v → (envelope codec r).lookup key = some v := by
    intro t ht doc hdoc
    have hkept := hkept t ht
    rw [hdoc, kept_find?_iff codec hids] at hkept
    exact hkept
  have hdocument : ∀ p ∈ documents db.tasks, p.2.lookup "id" = some (.str p.1.id) := by
    refine id_of_splitRows codec ?_ (splitRows_ids_perm codec hids hhome hkept)
    intro p hp v hv
    obtain ⟨t, ht, hrow, hdoc⟩ := mem_documents.mp hp
    obtain ⟨r, -, hid, hlookup⟩ := hfound t ht p.2 hdoc
    have hkey := hlookup "id" v hv
    rw [envelope_lookup, if_pos rfl, hid, hrow] at hkey
    exact (Option.some.inj hkey).symm
  have hid := hdocument (t.row, doc) (mem_documents.mpr ⟨t, ht, rfl, hdoc⟩)
  obtain ⟨r, hr, hrid, hlookup⟩ := hfound t ht doc hdoc
  -- the one result of this id is the one the document was split into
  have hown : splitRow codec t.row doc ∈ splitRows codec db.tasks :=
    (mem_splitRows codec).mpr ⟨t, ht, doc, hdoc, rfl⟩
  have hr' : r = splitRow codec t.row doc :=
    List.inj_on_of_nodup_map hids hr hown (hrid.trans (splitRow_id codec t.row hid).symm)
  rw [hr'] at hlookup
  exact (envelope_splitRow_iff codec hid).mp hlookup

/-- With envelopes only, each result finds the row it came from. -/
theorem kept_of_isEnvelope {db : V2}
    (hids : ((splitRows codec db.tasks).map StoredResult.id).Nodup)
    (h : ∀ t ∈ db.tasks, ∀ doc, t.resultJson = some doc → IsEnvelope codec t.row.id doc) :
    (∀ r ∈ splitRows codec db.tasks, ∃ t ∈ db.tasks, t.row.id = r.id) ∧
      ∀ t ∈ db.tasks, Kept t.resultJson
        (((splitRows codec db.tasks).find? fun r => r.id = t.row.id).map (envelope codec)) := by
  refine ⟨?_, ?_⟩
  · intro r hr
    obtain ⟨t, ht, doc, hdoc, rfl⟩ := (mem_splitRows codec).mp hr
    exact ⟨t, ht, (splitRow_id codec t.row (h t ht doc hdoc).id).symm⟩
  · intro t ht
    cases hdoc : t.resultJson with
    | none =>
        rw [kept_none_find?_iff]
        intro r hr hid
        obtain ⟨t', ht', doc, hdoc', rfl⟩ := (mem_splitRows codec).mp hr
        rw [splitRow_id codec t'.row (h t' ht' doc hdoc').id] at hid
        rw [List.inj_on_of_nodup_map db.ids_nodup ht' ht hid, hdoc] at hdoc'
        cases hdoc'
    | some doc =>
        rw [kept_find?_iff codec hids]
        have henvelope := h t ht doc hdoc
        exact ⟨_, (mem_splitRows codec).mpr ⟨t, ht, doc, hdoc, rfl⟩,
          splitRow_id codec t.row henvelope.id,
          (envelope_splitRow_iff codec henvelope.id).mpr henvelope⟩

/-- **Up and down again loses nothing if and only if** every document is an envelope on
the row of its id. -/
theorem upgrade_downgrade_iff {db : V2} {db₃ : V3 ν} (hup : db.upgrade codec = some db₃) :
    (∃ after, db₃.downgrade codec = some after ∧ Restores db after) ↔
      ∀ t ∈ db.tasks, ∀ doc, t.resultJson = some doc → IsEnvelope codec t.row.id doc := by
  obtain ⟨htasks, hresults⟩ := upgrade_some codec hup
  have hids := db₃.result_ids
  rw [hresults] at hids
  refine ⟨?_, ?_⟩
  · intro h t ht doc hdoc
    obtain ⟨after, hdown, hrestores⟩ := h
    have hafter := (downgrade_some codec hdown).2
    rw [htasks, hresults] at hafter
    obtain ⟨hhome, hkept⟩ := (restores_iff codec hafter).mp hrestores
    exact isEnvelope_of_kept codec hids hhome hkept ht hdoc
  · intro h
    obtain ⟨hhome, hkept⟩ := kept_of_isEnvelope codec hids h
    have hclash : NoClash db₃.tasks db₃.results := by
      rw [htasks, hresults]
      intro r hr
      obtain ⟨t, ht, hid⟩ := hhome r hr
      exact Or.inl ⟨t.row, List.mem_map_of_mem ht, hid⟩
    obtain ⟨after, hdown, hafter⟩ := downgrade_of_noClash codec hclash
    rw [htasks, hresults] at hafter
    exact ⟨after, hdown, (restores_iff codec hafter).mpr ⟨hhome, hkept⟩⟩

/-- A task as a downgrade leaves it. -/
def downgraded : V2 where
  tasks :=
    [{ row := { id := "t", name := none, command := none, status := some "done", createdAt := none }
       resultJson := some (envelope integerCodec
         { id := "t", taskId := some "t", command := some "echo hi",
           exitCode := ⟨.number 0, trivial⟩, stdoutTail := none }) }]
  unique := by decide

theorem upgrade_downgrade_iff_downgraded : ∃ db₃, downgraded.upgrade integerCodec = some db₃ ∧
    ∃ after, db₃.downgrade integerCodec = some after ∧ Restores downgraded after := by
  obtain ⟨db₃, hup⟩ : ∃ db₃, downgraded.upgrade integerCodec = some db₃ :=
    upgrade_of_nodup integerCodec (List.nodup_singleton _)
  refine ⟨db₃, hup, (upgrade_downgrade_iff integerCodec hup).mpr ?_⟩
  intro t ht doc hdoc
  rw [List.mem_singleton.mp ht] at hdoc ⊢
  cases hdoc
  refine (envelope_splitRow_iff integerCodec ?_).mp ?_
  · rw [envelope_lookup, if_pos rfl]
  · intro key v hv
    rw [splitRow_envelope integerCodec rfl]
    exact hv

/-- A task with a result that does not say whose it is. -/
def unlabelled : V2 where
  tasks :=
    [{ row := { id := "t", name := none, command := none, status := some "done", createdAt := none }
       resultJson := some (List.toAList [⟨"exit_code", .number 0⟩, ⟨"stdout", .str "hello A"⟩]) }]
  unique := by decide

/-- It comes back on a row of its own, `"t-result"`. -/
theorem unlabelled_not_restored : ∃ db₃, unlabelled.upgrade integerCodec = some db₃ ∧
    ¬ ∃ after, db₃.downgrade integerCodec = some after ∧ Restores unlabelled after := by
  obtain ⟨db₃, hup⟩ : ∃ db₃, unlabelled.upgrade integerCodec = some db₃ :=
    upgrade_of_nodup integerCodec (List.nodup_singleton _)
  refine ⟨db₃, hup, ?_⟩
  intro h
  obtain ⟨after, hdown, hrestores⟩ := h
  obtain ⟨htasks, hresults⟩ := upgrade_some integerCodec hup
  have hafter := (downgrade_some integerCodec hdown).2
  rw [htasks, hresults] at hafter
  have hhome := ((restores_iff integerCodec hafter).mp hrestores).1
  obtain ⟨t, ht, hid⟩ := hhome _ List.mem_cons_self
  rw [List.mem_singleton.mp ht] at hid
  exact absurd hid (by decide)

end Taskq.Migrations
