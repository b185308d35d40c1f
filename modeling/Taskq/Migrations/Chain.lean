import Taskq.Lib.Transition
import Taskq.Migrations.RoundTrip

/-!
# Taskq.Migrations.Chain

The revisions `v1`, `v2_head_marker` and `v3` (`migrations/versions`) in a row, and a
database that is taken up and down them.

`v2` adds two tables, a column and the unique index on `tasks.name`, and its downgrade drops
all of it; `v3` moves the column to a table of its own and back (`Migrations.V3`). A
revision whose upgrade or downgrade fails leaves no database here: what SQLite keeps of
the statements before the one that failed is not said.

Back and forth between `v2` and `v3` settles: what one round trip has made of a database
the next one leaves alone (`roundTrip_idempotent`).
-/

namespace Taskq.Migrations

open Transition

/-! ### What the other revisions keep -/

/-- An `api_keys` row. -/
structure KeyRow where
  id : String
  keyHash : String
  owner : Option String
  createdAt : Option String
  deriving DecidableEq

/-- `api_keys`, with its primary key and its unique index. -/
structure KeyTable where
  rows : List KeyRow
  ids : (rows.map KeyRow.id).Nodup
  hashes : (rows.map KeyRow.keyHash).Nodup

def KeyTable.empty : KeyTable where
  rows := []
  ids := List.nodup_nil
  hashes := List.nodup_nil

/-- A `tags` row. -/
structure Tag where
  id : String
  name : String
  deriving DecidableEq

/-- `tags`, and `task_tags` by its composite key. -/
structure TagTables where
  tags : List Tag
  taskTags : List (String × String)
  tag_ids : (tags.map Tag.id).Nodup
  pairs : taskTags.Nodup

def TagTables.empty : TagTables where
  tags := []
  taskTags := []
  tag_ids := List.nodup_nil
  pairs := List.nodup_nil

/-- `tasks` at revision v1: its primary key, and no other. -/
@[ext] structure V1 where
  tasks : List TaskRow
  ids : (tasks.map TaskRow.id).Nodup

def V1.empty : V1 where
  tasks := []
  ids := List.nodup_nil

/-- The unique index on `name` can be created. -/
def V1.DistinctNames (db : V1) : Prop := (db.tasks.filterMap TaskRow.name).Nodup

instance (db : V1) : Decidable db.DistinctNames :=
  inferInstanceAs (Decidable (db.tasks.filterMap TaskRow.name).Nodup)

/-- `ADD COLUMN result_json`. -/
def withoutResult (t : TaskRow) : TaskWithResult where
  row := t
  resultJson := none

theorem withoutResult_rows (tasks : List TaskRow) :
    (tasks.map withoutResult).map TaskWithResult.row = tasks := by
  rw [List.map_map]
  exact List.map_id tasks

/-- `upgrade` of `v2`, on `tasks`; `none` when two tasks share a name. -/
def V1.upgrade (db : V1) : Option V2 :=
  if h : db.DistinctNames then
    some
      { tasks := db.tasks.map withoutResult
        unique := by
          rw [withoutResult_rows]
          exact ⟨db.ids, h⟩ }
  else none

/-- `downgrade` of `v2`, on `tasks`. -/
def V2.downgrade (db : V2) : V1 where
  tasks := db.tasks.map TaskWithResult.row
  ids := db.unique.1

/-! ### The chain -/

/-- A database at one of the revisions. -/
inductive Content (ν : Type)
  | base
  | v1 (db : V1) (keys : KeyTable)
  | v2 (db : V2) (tags : TagTables) (keys : KeyTable)
  | v3 (db : V3 ν) (tags : TagTables) (keys : KeyTable)

inductive Command
  /-- `alembic upgrade +1`. -/
  | upgrade
  /-- `alembic downgrade -1`. -/
  | downgrade
  deriving DecidableEq

variable {ν : Type} (codec : JsonCodec ν)

namespace Content

/-- One revision up or down; `none` when there is none, or when its script fails. -/
def next : Content ν → Command → Option (Content ν)
  | .base, .upgrade => some (.v1 .empty .empty)
  | .base, .downgrade => none
  | .v1 db keys, .upgrade => db.upgrade.map fun db' => .v2 db' .empty keys
  | .v1 _ _, .downgrade => some .base
  | .v2 db tags keys, .upgrade => (db.upgrade codec).map fun db' => .v3 db' tags keys
  | .v2 db _ keys, .downgrade => some (.v1 db.downgrade keys)
  | .v3 _ _ _, .upgrade => none
  | .v3 db tags keys, .downgrade => (db.downgrade codec).map fun db' => .v2 db' tags keys

/-- How many revisions are applied. -/
def height : Content ν → ℕ
  | .base => 0
  | .v1 _ _ => 1
  | .v2 _ _ _ => 2
  | .v3 _ _ _ => 3

/-- The columns of `tasks` that every revision has. -/
def tasks : Content ν → List TaskRow
  | .base => []
  | .v1 db _ => db.tasks
  | .v2 db _ _ => db.tasks.map TaskWithResult.row
  | .v3 db _ _ => db.tasks

def keys : Content ν → KeyTable
  | .base => .empty
  | .v1 _ keys => keys
  | .v2 _ _ keys => keys
  | .v3 _ _ keys => keys

def tags : Content ν → TagTables
  | .base => .empty
  | .v1 _ _ => .empty
  | .v2 _ tags _ => tags
  | .v3 _ tags _ => tags

/-- Is there a result anywhere, in a row or in a document? -/
def HasResults : Content ν → Prop
  | .base => False
  | .v1 _ _ => False
  | .v2 db _ _ => documents db.tasks ≠ []
  | .v3 db _ _ => db.results ≠ []

end Content

/-- The runs from a database. -/
def chain (start : Content ν) : Lts (Content ν) Command :=
  Lts.ofNext (· = start) (Content.next codec)

/-- The command does not go below this height. -/
def StaysAbove (n : ℕ) (c : Content ν) (cmd : Command) : Prop := cmd = .downgrade → n < c.height

instance (n : ℕ) (c : Content ν) (cmd : Command) : Decidable (StaysAbove n c cmd) :=
  inferInstanceAs (Decidable (cmd = .downgrade → n < c.height))

/-- What one command does. -/
inductive Migrates : Content ν → Command → Content ν → Prop
  | create : Migrates .base .upgrade (.v1 .empty .empty)
  | drop {db keys} : Migrates (.v1 db keys) .downgrade .base
  | addTags {db db' keys} (h : db.upgrade = some db') :
      Migrates (.v1 db keys) .upgrade (.v2 db' .empty keys)
  | dropTags {db tags keys} : Migrates (.v2 db tags keys) .downgrade (.v1 db.downgrade keys)
  | split {db db' tags keys} (h : db.upgrade codec = some db') :
      Migrates (.v2 db tags keys) .upgrade (.v3 db' tags keys)
  | merge {db db' tags keys} (h : db.downgrade codec = some db') :
      Migrates (.v3 db tags keys) .downgrade (.v2 db' tags keys)

theorem next_migrates {c c' : Content ν} {cmd : Command} (h : c.next codec cmd = some c') :
    Migrates codec c cmd c' := by
  cases c with
  | base =>
      cases cmd <;> cases h
      exact .create
  | v1 db keys =>
      cases cmd with
      | upgrade =>
          obtain ⟨db', hdb', rfl⟩ := Option.map_eq_some_iff.mp h
          exact .addTags hdb'
      | downgrade =>
          cases h
          exact .drop
  | v2 db tags keys =>
      cases cmd with
      | upgrade =>
          obtain ⟨db', hdb', rfl⟩ := Option.map_eq_some_iff.mp h
          exact .split hdb'
      | downgrade =>
          cases h
          exact .dropTags
  | v3 db tags keys =>
      cases cmd with
      | upgrade => cases h
      | downgrade =>
          obtain ⟨db', hdb', rfl⟩ := Option.map_eq_some_iff.mp h
          exact .merge hdb'

/-! ### Back and forth between v2 and v3 -/

theorem returned_returned (r : StoredResult ν) : r.returned.returned = r.returned := rfl

/-- Every row that a downgrade leaves splits into the result it carries, also when what it
carries has been split and put back once before. -/
theorem attach_splitRows {tasks : List TaskRow} {rs : List (StoredResult ν)}
    (hrows : ((restored codec tasks rs).map fun t => t.row.id).Nodup)
    (hids : ((splitRows codec (restored codec tasks rs)).map StoredResult.id).Nodup)
    {t : TaskWithResult} (ht : t ∈ restored codec tasks rs) :
    (attach codec (splitRows codec (restored codec tasks rs)) t.row).resultJson.map
        (splitRow codec t.row)
      = t.resultJson.map (splitRow codec t.row) := by
  have hsplit : ∀ u ∈ restored codec tasks rs, ∀ doc, u.resultJson = some doc →
      splitRow codec u.row doc ∈ splitRows codec (restored codec tasks rs) ∧
        ∃ r, u.row.id = r.id ∧ doc = envelope codec r ∧ splitRow codec u.row doc = r.returned := by
    intro u hu doc hdoc
    obtain ⟨r, -, hid, rfl⟩ := mem_restored codec hu hdoc
    exact ⟨(mem_splitRows codec).mpr ⟨u, hu, _, hdoc, rfl⟩, r, hid, rfl,
      splitRow_envelope codec hid⟩
  cases hdoc : t.resultJson with
  | none =>
      -- a result of this id would come from a row of this id, and that is `t`
      have hnone : (splitRows codec (restored codec tasks rs)).find? (fun r => r.id = t.row.id)
          = none := by
        rw [List.find?_eq_none]
        intro r hr hid
        obtain ⟨u, hu, doc, hudoc, rfl⟩ := (mem_splitRows codec).mp hr
        obtain ⟨-, r, hur, -, hreturned⟩ := hsplit u hu doc hudoc
        rw [hreturned, decide_eq_true_eq] at hid
        have hut : u = t := List.inj_on_of_nodup_map hrows hu ht (hur.trans hid)
        rw [hut, hdoc] at hudoc
        cases hudoc
      rw [attach, hnone]
      rfl
  | some doc =>
      obtain ⟨hmem, r, hid, rfl, hreturned⟩ := hsplit t ht doc hdoc
      have hown : (splitRow codec t.row (envelope codec r)).id = t.row.id := by
        rw [hreturned, hid]
        rfl
      rw [attach, Keyed.find?_eq_some hids hmem hown, Option.map_some, Option.map_some,
        Option.map_some, splitRow_envelope codec hown.symm, hreturned, returned_returned]

/-- Every result that comes back has a task of its id. -/
theorem homeless_splitRows (tasks : List TaskRow) (rs : List (StoredResult ν)) :
    homeless ((restored codec tasks rs).map TaskWithResult.row)
      (splitRows codec (restored codec tasks rs)) = [] := by
  rw [homeless_eq_nil_iff]
  intro r hr
  obtain ⟨t, ht, doc, hdoc, rfl⟩ := (mem_splitRows codec).mp hr
  obtain ⟨r, -, hid, rfl⟩ := mem_restored codec ht hdoc
  refine ⟨t.row, List.mem_map_of_mem ht, ?_⟩
  rw [splitRow_envelope codec hid, hid]
  rfl

theorem V3.ext_tables {db db' : V3 ν} (htasks : db.tasks = db'.tasks)
    (hresults : db.results = db'.results) : db = db' := by
  cases db
  cases db'
  cases htasks
  cases hresults
  rfl

/-- **A second round trip changes nothing**: what the first one has made of a database goes
through `downgrade` and `upgrade`, and comes back as it is. -/
theorem roundTrip_idempotent {db db' : V3 ν} (h : db.roundTrip codec = some db') :
    db'.roundTrip codec = some db' := by
  obtain ⟨db₂, hdown, hup⟩ := Option.bind_eq_some_iff.mp h
  obtain ⟨htasks, hresults⟩ := upgrade_some codec hup
  have hrestored := (downgrade_some codec hdown).2
  rw [hrestored] at htasks hresults
  have hids := db'.result_ids
  rw [hresults] at hids
  have hrows := db₂.ids_nodup
  rw [hrestored] at hrows
  have hhome := homeless_splitRows codec db.tasks db.results
  have hclash : NoClash db'.tasks db'.results := by
    rw [htasks, hresults]
    intro r hr
    exact Or.inl (homeless_eq_nil_iff.mp hhome r hr)
  obtain ⟨db'', hround, hagain⟩ := roundTrip_of_noClash codec hclash
  have htasks' := tasks_of_roundTrip codec hround
  rw [hround]
  refine congrArg some (V3.ext_tables ?_ ?_)
  · rw [htasks', restored_rows, htasks, hresults, hhome, List.map_nil, List.append_nil]
  · -- row by row, what is split is the envelope of what was split before
    have hback : restored codec db'.tasks db'.results
        = (restored codec db.tasks db.results).map fun t =>
            attach codec (splitRows codec (restored codec db.tasks db.results)) t.row := by
      rw [restored, htasks, hresults, hhome, List.map_nil, List.append_nil, List.map_map]
      rfl
    rw [hagain, hback, hresults, splitRows, List.filterMap_map, splitRows]
    exact List.filterMap_congr fun t ht => attach_splitRows codec hrows hids ht

/-- Where a database can be that goes back and forth: as it was, as one round trip leaves it,
or on its way there. -/
inductive Between (db db' : V3 ν) (tags : TagTables) (keys : KeyTable) : Content ν → Prop
  | start : Between db db' tags keys (.v3 db tags keys)
  | settled : Between db db' tags keys (.v3 db' tags keys)
  | down {db₂} (h : db₂.upgrade codec = some db') : Between db db' tags keys (.v2 db₂ tags keys)

theorem Between.step {db db' : V3 ν} {tags : TagTables} {keys : KeyTable} {c c' : Content ν}
    {cmd : Command} (h : Between codec db db' tags keys c) (hround : db.roundTrip codec = some db')
    (hstep : Migrates codec c cmd c') (habove : StaysAbove 2 c cmd) :
    Between codec db db' tags keys c' := by
  have hagain := roundTrip_idempotent codec hround
  -- a downgrade of either database leads to one whose upgrade is `db'`
  have hmerge : ∀ {db₁ db₂ : V3 ν} {down : V2}, db₁.roundTrip codec = some db₂ →
      db₁.downgrade codec = some down → down.upgrade codec = some db₂ := by
    intro db₁ db₂ down hround hdown
    obtain ⟨down', hdown', hup⟩ := Option.bind_eq_some_iff.mp hround
    rw [hdown] at hdown'
    cases hdown'
    exact hup
  cases h with
  | start =>
      cases hstep with
      | merge hdown => exact .down (hmerge hround hdown)
  | settled =>
      cases hstep with
      | merge hdown => exact .down (hmerge hagain hdown)
  | down hup =>
      cases hstep with
      | split hup' =>
          rw [hup] at hup'
          cases hup'
          exact .settled
      | dropTags => exact absurd (habove rfl) (by simp [Content.height])

/-- It can always go on, the other way. -/
theorem Between.progress {db db' : V3 ν} {tags : TagTables} {keys : KeyTable} {c : Content ν}
    (h : Between codec db db' tags keys c) (hround : db.roundTrip codec = some db') :
    ∃ cmd c', c.next codec cmd = some c' ∧ 2 ≤ c'.height := by
  have hdown : ∀ {db₁ db₂ : V3 ν}, db₁.roundTrip codec = some db₂ →
      ∃ cmd c', (Content.v3 db₁ tags keys).next codec cmd = some c' ∧ 2 ≤ c'.height := by
    intro db₁ db₂ hround
    obtain ⟨down, hdown, -⟩ := Option.bind_eq_some_iff.mp hround
    exact ⟨.downgrade, .v2 down tags keys, by rw [Content.next, hdown]; rfl, le_refl 2⟩
  cases h with
  | start => exact hdown hround
  | settled => exact hdown (roundTrip_idempotent codec hround)
  | @down db₂ hup =>
      exact ⟨.upgrade, .v3 db' tags keys, by rw [Content.next, hup]; rfl, by simp [Content.height]⟩

/-- **Going back and forth settles.** From a database at v3 that makes one round trip, however
often it goes down to v2 and up again, it is at v3 only as it was or as that round trip has
left it, no step of the way fails, and its results stay what they were when each has a
`task_id`. -/
theorem settles {db db' : V3 ν} (hround : db.roundTrip codec = some db') {tags : TagTables}
    {keys : KeyTable} {c : Content ν}
    (hc : ((chain codec (.v3 db tags keys)).restrict (StaysAbove 2)).Reachable c) :
    Between codec db db' tags keys c ∧
      (∃ cmd c', c.next codec cmd = some c' ∧ 2 ≤ c'.height) ∧
      ((∀ r ∈ db.results, r.taskId ≠ none) → db'.results.Perm db.results) := by
  have hbetween : Between codec db db' tags keys c := by
    refine hc.invariant ?_ fun c cmd c' _ hinv hstep =>
      hinv.step codec hround (next_migrates codec hstep.1) hstep.2
    intro c hinit
    obtain rfl : c = _ := hinit
    exact .start
  refine ⟨hbetween, hbetween.progress codec hround, ?_⟩
  intro htaskId
  have hclash := (downgrade_some codec (Option.bind_eq_some_iff.mp hround).choose_spec.1).1
  obtain ⟨db'', hround', hresults⟩ := roundTrip_of_noClash codec hclash
  rw [hround] at hround'
  cases hround'
  exact perm_of_taskId codec htaskId hresults

theorem settles_ownIds : ∃ db', ownIds.roundTrip integerCodec = some db' ∧
    ∀ c, ((chain integerCodec (.v3 ownIds .empty .empty)).restrict (StaysAbove 2)).Reachable c →
      Between integerCodec ownIds db' .empty .empty c ∧
        (∃ cmd c', c.next integerCodec cmd = some c' ∧ 2 ≤ c'.height) ∧
        ((∀ r ∈ ownIds.results, r.taskId ≠ none) → db'.results.Perm ownIds.results) := by
  obtain ⟨db', hround⟩ := ownIds_roundTrip
  exact ⟨db', hround, fun c hc => settles integerCodec hround hc⟩

/-! ### What every run keeps -/

/-- A row that a downgrade has made up to carry a result. -/
structure Placeholder (t : TaskRow) : Prop where
  name : t.name = some t.id
  status : t.status = some "migrated"
  createdAt : t.createdAt = none
  command : t.command ≠ none

theorem placeholder_carrier (r : StoredResult ν) : Placeholder (carrier codec r).row :=
  ⟨rfl, rfl, rfl, nofun⟩

/-- The same keys, and the same tasks before any made-up ones. -/
structure Keeps (start c : Content ν) : Prop where
  height : 1 ≤ c.height
  keys : c.keys = start.keys
  tasks : ∃ extra, c.tasks = start.tasks ++ extra ∧ ∀ t ∈ extra, Placeholder t

theorem upgrade_rows {db : V1} {db' : V2} (h : db.upgrade = some db') :
    db.DistinctNames ∧ db'.tasks = db.tasks.map withoutResult := by
  unfold V1.upgrade at h
  split_ifs at h with hnames
  cases h
  exact ⟨hnames, rfl⟩

/-- What a downgrade from v3 leaves of the tasks. -/
theorem downgrade_rows {db : V3 ν} {db' : V2} (h : db.downgrade codec = some db') :
    ∃ extra, db'.tasks.map TaskWithResult.row = db.tasks ++ extra ∧ ∀ t ∈ extra, Placeholder t := by
  rw [(downgrade_some codec h).2, restored_rows]
  refine ⟨_, rfl, ?_⟩
  intro t ht
  obtain ⟨r, -, rfl⟩ := List.mem_map.mp ht
  exact placeholder_carrier codec r

theorem Keeps.step {start c c' : Content ν} {cmd : Command} (h : Keeps start c)
    (hstep : Migrates codec c cmd c') (habove : StaysAbove 1 c cmd) : Keeps start c' := by
  obtain ⟨hheight, hkeys, extra, htasks, hextra⟩ := h
  cases hstep with
  | create => exact absurd hheight (by simp [Content.height])
  | drop => exact absurd (habove rfl) (by simp [Content.height])
  | addTags hup =>
      refine ⟨by simp [Content.height], hkeys, extra, ?_, hextra⟩
      rw [Content.tasks, (upgrade_rows hup).2, withoutResult_rows]
      exact htasks
  | dropTags => exact ⟨le_refl 1, hkeys, extra, htasks, hextra⟩
  | split hup =>
      refine ⟨by simp [Content.height], hkeys, extra, ?_, hextra⟩
      rw [Content.tasks, (upgrade_some codec hup).1]
      exact htasks
  | merge hdown =>
      obtain ⟨more, hrows, hmore⟩ := downgrade_rows codec hdown
      refine ⟨by simp [Content.height], hkeys, extra ++ more, ?_, ?_⟩
      · rw [Content.tasks, hrows, ← List.append_assoc]
        exact congrArg (· ++ more) htasks
      · intro t ht
        exact (List.mem_append.mp ht).elim (hextra t) (hmore t)

/-- **No migration loses a task or an API key.** In every run that does not go below v1 the
tasks are those of the start, in order and column by column, and behind them only rows that
a downgrade has made up; `api_keys` is as it was. -/
theorem tasks_kept {start c : Content ν} (hstart : 1 ≤ start.height)
    (h : ((chain codec start).restrict (StaysAbove 1)).Reachable c) : Keeps start c := by
  refine h.invariant ?_ fun c cmd c' _ hinv hstep =>
    hinv.step codec (next_migrates codec hstep.1) hstep.2
  intro c hinit
  obtain rfl : c = start := hinit
  exact ⟨hstart, rfl, [], (List.append_nil _).symm, fun t ht => absurd ht List.not_mem_nil⟩

theorem tasks_kept_ownIds :
    1 ≤ (Content.v3 ownIds TagTables.empty KeyTable.empty).height ∧
      ∀ c, ((chain integerCodec (.v3 ownIds .empty .empty)).restrict (StaysAbove 1)).Reachable c →
        Keeps (.v3 ownIds .empty .empty) c := by
  have hheight : 1 ≤ (Content.v3 ownIds TagTables.empty KeyTable.empty).height := by decide
  exact ⟨hheight, fun c hc => tasks_kept integerCodec hheight hc⟩

/-! ### From v1 -/

/-- Nothing but the tasks and the keys of a database at v1. -/
structure Bare (db : V1) (keys : KeyTable) (c : Content ν) : Prop where
  height : 1 ≤ c.height
  tasks : c.tasks = db.tasks
  keys : c.keys = keys
  tags : c.tags = .empty
  results : ¬ c.HasResults

theorem documents_withoutResult (tasks : List TaskRow) :
    documents (tasks.map withoutResult) = [] := by
  rw [documents, List.filterMap_map, List.filterMap_eq_nil_iff]
  intro t _
  rfl

theorem splitRows_of_bare {tasks : List TaskWithResult} (h : documents tasks = []) :
    splitRows codec tasks = [] := by
  rw [splitRows_eq_map, h, List.map_nil]

theorem documents_of_bare {db : V3 ν} {db' : V2} (h : db.downgrade codec = some db')
    (hresults : db.results = []) :
    db'.tasks.map TaskWithResult.row = db.tasks ∧ documents db'.tasks = [] := by
  have hrestored : db'.tasks = db.tasks.map withoutResult := by
    rw [(downgrade_some codec h).2, hresults]
    simp [restored, homeless, attach, withoutResult]
  rw [hrestored]
  exact ⟨withoutResult_rows _, documents_withoutResult _⟩

theorem Bare.step {db : V1} {keys : KeyTable} {c c' : Content ν} {cmd : Command}
    (h : Bare db keys c) (hstep : Migrates codec c cmd c') (habove : StaysAbove 1 c cmd) :
    Bare db keys c' := by
  obtain ⟨hheight, htasks, hkeys, htags, hresults⟩ := h
  cases hstep with
  | create => exact absurd hheight (by simp [Content.height])
  | drop => exact absurd (habove rfl) (by simp [Content.height])
  | addTags hup =>
      refine ⟨by simp [Content.height], ?_, hkeys, rfl, ?_⟩
      · rw [Content.tasks, (upgrade_rows hup).2, withoutResult_rows]
        exact htasks
      · rw [Content.HasResults, (upgrade_rows hup).2, documents_withoutResult]
        exact not_not.mpr rfl
  | dropTags => exact ⟨le_refl 1, htasks, hkeys, rfl, id⟩
  | split hup =>
      obtain ⟨hrows, hsplit⟩ := upgrade_some codec hup
      refine ⟨by simp [Content.height], ?_, hkeys, htags, ?_⟩
      · rw [Content.tasks, hrows]
        exact htasks
      · rw [Content.HasResults, hsplit, splitRows_of_bare codec (not_not.mp hresults)]
        exact not_not.mpr rfl
  | merge hdown =>
      obtain ⟨hrows, hdocuments⟩ := documents_of_bare codec hdown (not_not.mp hresults)
      refine ⟨by simp [Content.height], ?_, hkeys, htags, not_not.mpr hdocuments⟩
      rw [Content.tasks, hrows]
      exact htasks

/-- Which commands fail on such a database. -/
theorem Bare.next_eq_none_iff {db : V1} {keys : KeyTable} {c : Content ν} (h : Bare db keys c)
    (cmd : Command) :
    c.next codec cmd = none ↔
      cmd = .upgrade ∧ (c.height = 3 ∨ c.height = 1 ∧ ¬ db.DistinctNames) := by
  obtain ⟨hheight, htasks, -, -, hresults⟩ := h
  cases c with
  | base => exact absurd hheight (by simp [Content.height])
  | v1 db₁ keys₁ =>
      have hnames : db₁.DistinctNames ↔ db.DistinctNames := by
        have heq : db₁.tasks = db.tasks := htasks
        rw [V1.DistinctNames, heq, V1.DistinctNames]
      cases cmd with
      | upgrade =>
          rw [Content.next, Option.map_eq_none_iff, V1.upgrade, ← hnames]
          split_ifs with h <;> simp [Content.height, h]
      | downgrade => simp [Content.next]
  | v2 db₂ tags₂ keys₂ =>
      cases cmd with
      | upgrade =>
          have hsplit := splitRows_of_bare codec (not_not.mp hresults)
          obtain ⟨db₃, hup⟩ : ∃ db₃, db₂.upgrade codec = some db₃ :=
            upgrade_of_nodup codec (by rw [hsplit]; exact List.nodup_nil)
          simp [Content.next, hup, Content.height]
      | downgrade => simp [Content.next]
  | v3 db₃ tags₃ keys₃ =>
      cases cmd with
      | upgrade => simp [Content.next, Content.height]
      | downgrade =>
          have hclash : NoClash db₃.tasks db₃.results := by
            rw [not_not.mp hresults]
            exact fun r hr => absurd hr List.not_mem_nil
          obtain ⟨db₂, hdown, -⟩ := downgrade_of_noClash codec hclash
          simp [Content.next, hdown]

/-- **What has been at v1 is bare.** In every run from there that does not go below, there are
the tasks and the keys of the start and nothing else: no result, no tag, and no made-up task.
The only upgrade that fails is that of `v2`, and it does exactly when two tasks share a
name. -/
theorem from_v1 (db : V1) (keys : KeyTable) {c : Content ν}
    (h : ((chain codec (.v1 db keys)).restrict (StaysAbove 1)).Reachable c) :
    Bare db keys c ∧ ∀ cmd, c.next codec cmd = none ↔
      cmd = .upgrade ∧ (c.height = 3 ∨ c.height = 1 ∧ ¬ db.DistinctNames) := by
  have hbare : Bare db keys c := by
    refine h.invariant ?_ fun c cmd c' _ hinv hstep =>
      hinv.step codec (next_migrates codec hstep.1) hstep.2
    intro c hinit
    obtain rfl : c = _ := hinit
    exact ⟨le_refl 1, rfl, rfl, rfl, id⟩
  exact ⟨hbare, hbare.next_eq_none_iff codec⟩

/-- Two tasks without names. -/
def unnamed : V1 where
  tasks := [{ id := "a", name := none, command := none, status := none, createdAt := none },
    { id := "b", name := none, command := none, status := none, createdAt := none }]
  ids := by decide

theorem from_v1_unnamed :
    ((chain integerCodec (.v1 unnamed .empty)).restrict (StaysAbove 1)).Reachable
        (.v1 unnamed .empty) ∧
      Bare (ν := ℤ) unnamed .empty (.v1 unnamed .empty) ∧
      ∀ cmd, (Content.v1 unnamed .empty).next integerCodec cmd = none ↔
        cmd = .upgrade ∧ ((Content.v1 (ν := ℤ) unnamed .empty).height = 3 ∨
          (Content.v1 (ν := ℤ) unnamed .empty).height = 1 ∧ ¬ unnamed.DistinctNames) := by
  have hreach : ((chain integerCodec (.v1 unnamed .empty)).restrict (StaysAbove 1)).Reachable
      (.v1 unnamed .empty) := .init rfl
  exact ⟨hreach, from_v1 integerCodec unnamed .empty hreach⟩

end Taskq.Migrations
