import Taskq.Api.App

/-!
# Taskq.Api.Health

The readiness probe (`api/routes/health.py`).

`readyz` makes two checks, each with a session of its own and each `False` when anything
is raised in it. The second one asks whether the revision that is recorded has fallen
behind the scripts; where nothing is recorded, nothing has (`readyz_answers`).
-/

namespace Taskq.Http

/-! ### The database, as the probes see it -/

/-- A table `alembic_version`: the `version_num` of each row, `none` being NULL. -/
abbrev VersionTable := List (Option String)

inductive DatabaseState
  | unreachable
  /-- It answers; `alembicVersion` is the table, when there is one. -/
  | reachable (alembicVersion : Option VersionTable)
  deriving DecidableEq

/-- What a probe may raise. -/
inductive ProbeError
  /-- `OperationalError`: there is no connection. -/
  | operational
  /-- The scripts cannot be read. -/
  | script
  deriving DecidableEq

/-- `LIMIT 1`: a row of the table when it has one; which one is not said. -/
structure FirstRow where
  pick : VersionTable → Option (Option String)
  mem : ∀ rows r, pick rows = some r → r ∈ rows
  isSome : ∀ rows, rows ≠ [] → (pick rows).isSome

/-- The row that was inserted first. -/
def FirstRow.oldest : FirstRow where
  pick := List.head?
  mem _ _ := List.mem_of_head?
  isSome rows h := by
    cases rows with
    | nil => exact absurd rfl h
    | cons => rfl

namespace DatabaseState

/-- `SELECT 1`. -/
def selectOne : DatabaseState → Except ProbeError Unit
  | .unreachable => .error .operational
  | .reachable _ => .ok ()

/-- `"alembic_version" in inspect(engine).get_table_names()`. -/
def hasVersionTable : DatabaseState → Except ProbeError Bool
  | .unreachable => .error .operational
  | .reachable table => .ok table.isSome

/-- `SELECT version_num FROM alembic_version LIMIT 1`. -/
def selectVersion (first : FirstRow) : DatabaseState → Except ProbeError (Option (Option String))
  | .reachable (some rows) => .ok (first.pick rows)
  | _ => .error .operational

end DatabaseState

/-- The migration scripts on disk. -/
structure Scripts where
  /-- Is there a directory `versions`? -/
  versionsDir : Bool
  /-- `ScriptDirectory.get_heads()`. -/
  heads : Except ProbeError (List String)

/-! ### The probes -/

/-- `_alembic_head_revision`. -/
def alembicHeadRevision (scripts : Scripts) : Except ProbeError String :=
  if scripts.versionsDir = false then .ok "None"
  else
    match scripts.heads with
    | .error e => .error e
    | .ok [] => .ok "None"
    | .ok (head :: _) => .ok head

/-- `is_db_reachable`. -/
def isDbReachable (s : DatabaseState) : Bool :=
  match s.selectOne with
  | .ok () => true
  | .error _ => false

/-- What `alembic_current_is_head` makes of the row it has read: no row, or one without a
revision, is as good as the head. -/
def rowIsHead (scripts : Scripts) : Option (Option String) → Except ProbeError Bool
  | none | some none => .ok true
  | some (some version) =>
      if version = "" then .ok true
      else (alembicHeadRevision scripts).map fun head => version = head

/-- The body of `alembic_current_is_head`. -/
def currentIsHead (scripts : Scripts) (first : FirstRow) (s : DatabaseState) :
    Except ProbeError Bool :=
  match s.hasVersionTable with
  | .error e => .error e
  | .ok false => .ok true
  | .ok true =>
      match s.selectVersion first with
      | .error e => .error e
      | .ok row => rowIsHead scripts row

/-- `alembic_current_is_head`. -/
def alembicCurrentIsHead (scripts : Scripts) (first : FirstRow) (s : DatabaseState) : Bool :=
  match currentIsHead scripts first s with
  | .ok current => current
  | .error _ => false

/-- The response of `GET /readyz`. -/
def readyzResponse (scripts : Scripts) (first : FirstRow) (s : DatabaseState) (scope : Scope) :
    Option Response :=
  outcomeResponse scope .readyz (readyz (isDbReachable s) (alembicCurrentIsHead scripts first s))

/-! ### What the checks say -/

/-- What a row records has not fallen behind the scripts: it records no revision, or the
head. -/
def RowCurrent (scripts : Scripts) (r : Option String) : Prop :=
  r = none ∨ r = some "" ∨ ∃ head, alembicHeadRevision scripts = .ok head ∧ r = some head

/-- The same of what a database has recorded. -/
def DatabaseState.Current (scripts : Scripts) : DatabaseState → Prop
  | .unreachable => False
  | .reachable none => True
  | .reachable (some rows) => ∀ r ∈ rows, RowCurrent scripts r

/-- By the row that is read. -/
def DatabaseState.ReadsCurrent (scripts : Scripts) (first : FirstRow) : DatabaseState → Prop
  | .unreachable => False
  | .reachable none => True
  | .reachable (some rows) => ∀ r, first.pick rows = some r → RowCurrent scripts r

/-- The row that is read speaks for the table: there is no other, or none is current. -/
theorem DatabaseState.readsCurrent_iff {scripts : Scripts} (first : FirstRow) {s : DatabaseState}
    (hrows : ∀ rows, s = .reachable (some rows) →
      rows.length ≤ 1 ∨ ∀ r ∈ rows, ¬ RowCurrent scripts r) :
    s.ReadsCurrent scripts first ↔ s.Current scripts := by
  match s with
  | .unreachable => exact Iff.rfl
  | .reachable none => exact Iff.rfl
  | .reachable (some rows) =>
      constructor
      · intro hreads r hr
        obtain ⟨q, hq⟩ := Option.isSome_iff_exists.mp (first.isSome rows (List.ne_nil_of_mem hr))
        have hmem := first.mem rows q hq
        rcases hrows rows rfl with hone | hnone
        · obtain ⟨a, rfl⟩ := List.length_eq_one_iff.mp
            (le_antisymm hone (List.length_pos_of_mem hr))
          rw [List.mem_singleton.mp hr, ← List.mem_singleton.mp hmem]
          exact hreads q hq
        · exact absurd (hreads q hq) (hnone q hmem)
      · exact fun hall r hr => hall r (first.mem rows r hr)

theorem rowIsHead_iff {scripts : Scripts} {row : Option (Option String)} :
    rowIsHead scripts row = .ok true ↔ ∀ r, row = some r → RowCurrent scripts r := by
  match row with
  | none => exact iff_of_true rfl nofun
  | some none => simp [rowIsHead, RowCurrent]
  | some (some version) =>
      by_cases hempty : version = ""
      · simp [rowIsHead, RowCurrent, hempty]
      · cases hhead : alembicHeadRevision scripts <;>
          simp [rowIsHead, RowCurrent, hempty, hhead, Except.map]

theorem isDbReachable_iff {s : DatabaseState} : isDbReachable s = true ↔ s ≠ .unreachable := by
  cases s <;> simp [isDbReachable, DatabaseState.selectOne]

theorem alembicCurrentIsHead_iff {scripts : Scripts} {first : FirstRow} {s : DatabaseState} :
    alembicCurrentIsHead scripts first s = true ↔ s.ReadsCurrent scripts first := by
  have hbody : alembicCurrentIsHead scripts first s = true ↔
      currentIsHead scripts first s = .ok true := by
    rw [alembicCurrentIsHead]
    cases currentIsHead scripts first s <;> simp
  rw [hbody]
  match s with
  | .unreachable => exact iff_of_false nofun id
  | .reachable none => exact iff_of_true rfl trivial
  | .reachable (some rows) => exact rowIsHead_iff

/-! ### The answer -/

/-- The checks that fail: the second one does when the first one does. -/
theorem mem_failedChecks {scripts : Scripts} {first : FirstRow} {s : DatabaseState}
    {check : String} :
    check ∈ failedChecks (isDbReachable s) (alembicCurrentIsHead scripts first s) ↔
      check = "db" ∧ s = .unreachable ∨ check = "alembic" ∧ ¬ s.ReadsCurrent scripts first := by
  rw [← alembicCurrentIsHead_iff, ← not_not (a := s = .unreachable), ← ne_eq s, ← isDbReachable_iff]
  cases isDbReachable s <;> cases alembicCurrentIsHead scripts first s <;> simp [failedChecks]

theorem nodup_failedChecks (reachable atHead : Bool) : (failedChecks reachable atHead).Nodup := by
  cases reachable <;> cases atHead <;> decide

/-- `{"failed_checks": failed}`. -/
def checksExtra (failed : List String) : List (String × Content) :=
  [("failed_checks", .list (failed.map fun check => .str check.toList))]

theorem renders_checksExtra (failed : List String) :
    ∀ m ∈ checksExtra failed, m.1 ∉ fieldNames → m.2.renders = true := by
  simp [checksExtra, Content.renders, Content.rendersElements_iff]

theorem readyz_failed {reachable atHead : Bool} (h : ¬ (reachable = true ∧ atHead = true)) :
    ∃ p, p.status = 503 ∧ readyz reachable atHead =
      .error (.problem (.raised p (checksExtra (failedChecks reachable atHead)))) := by
  cases reachable <;> cases atHead <;> first
    | exact absurd ⟨rfl, rfl⟩ h
    | exact ⟨_, rfl, rfl⟩

/-- The response says that these checks have failed. -/
structure Unready (r : Response) (names : List String) : Prop where
  status : r.status = 503
  body : ∃ document, r.body = .problem document ∧
    document.lookup "failed_checks" = some (.list (names.map fun name => .str name.toList))

/-- What a problem adds is in the document of its response. -/
theorem lookup_problemAnswer {scope : Scope} {cid : List Char} (h : scope.Identified cid)
    {p : TaskApi.Problem} {name : String} {c : Content} (hname : name ∉ fieldNames) :
    (enrichProblem scope (.raised p [(name, c)])).toDict.lookup name = some c := by
  have hextra : [(name, c)].filter (fun m => m.1 ∉ fieldNames) = [(name, c)] := by simp [hname]
  have hskip : ∀ {l : List (String × Content)} (m : List (String × Content)),
      (∀ entry ∈ l, entry.1 ∈ fieldNames) → (l ++ m).lookup name = m.lookup name := by
    intro l m hl
    have hnone : l.lookup name = none := by
      rw [List.lookup_eq_none_iff]
      intro entry hentry
      simpa using (ne_of_mem_of_not_mem (hl entry hentry) hname).symm
    rw [List.lookup_append, hnone]
    rfl
  rw [enrichProblem_raised h, Problem.toDict_eq, hskip, hskip, hskip, hskip]
  · show ([(name, c)].filter fun m => m.1 ∉ fieldNames).lookup name = _
    rw [hextra]
    simp
  · split_ifs <;> simp [fieldNames]
  · split_ifs <;> simp [fieldNames]
  · split_ifs <;> simp [fieldNames]
  · simp [fieldNames]

theorem readyz_unready {reachable atHead : Bool} (h : ¬ (reachable = true ∧ atHead = true))
    (x : Exchange) : ∃ r, outcomeResponse x.scope .readyz (readyz reachable atHead) = some r ∧
      Unready r (failedChecks reachable atHead) := by
  obtain ⟨p, hstatus, hraised⟩ := readyz_failed h
  have hbound : p.status < 1000 := by omega
  have hresponse := (problemResponse_raised x.identified hbound).trans
    (if_pos (renders_checksExtra (failedChecks reachable atHead)))
  rw [hraised]
  exact ⟨problemAnswer x.scope x.cid p _, hresponse, hstatus, _, rfl,
    lookup_problemAnswer x.identified (by decide)⟩

/-- `alembic_version` records the head, and nothing else. -/
def DatabaseState.RecordsHead (scripts : Scripts) (s : DatabaseState) : Prop :=
  ∃ head, alembicHeadRevision scripts = .ok head ∧ s = .reachable (some [some head])

/-- A database that was never migrated is ready. -/
theorem unmigrated_is_ready : ¬ ∀ (s : DatabaseState) (x : Exchange) (r : Response),
    readyzResponse { versionsDir := true, heads := .ok ["v3"] } .oldest s x.scope = some r →
      (r.status = 200 ↔ s.RecordsHead { versionsDir := true, heads := .ok ["v3"] }) := by
  intro h
  obtain ⟨head, -, hstate⟩ := (h (.reachable none)
    (.plain "GET" RateLimit.readyz [] (.read .absent)) _ rfl).mp rfl
  cases hstate

/-- **`readyz` answers 200 if and only if the database is reachable and what it has
recorded has not fallen behind the scripts; otherwise 503, naming the checks that fail.** -/
theorem readyz_answers (scripts : Scripts) (first : FirstRow) (s : DatabaseState) (x : Exchange)
    (hrows : ∀ rows, s = .reachable (some rows) →
      rows.length ≤ 1 ∨ ∀ r ∈ rows, ¬ RowCurrent scripts r) :
    ∃ r, readyzResponse scripts first s x.scope = some r ∧
      (r.status = 200 ↔ s ≠ .unreachable ∧ s.Current scripts) ∧
      (¬ (s ≠ .unreachable ∧ s.Current scripts) → ∃ names : List String, Unready r names ∧
        names.Nodup ∧ ∀ check, check ∈ names ↔
          check = "db" ∧ s = .unreachable ∨ check = "alembic" ∧ ¬ s.Current scripts) := by
  rw [← DatabaseState.readsCurrent_iff first hrows, ← isDbReachable_iff,
    ← alembicCurrentIsHead_iff]
  by_cases h : isDbReachable s = true ∧ alembicCurrentIsHead scripts first s = true
  · refine ⟨replyResponse .readyz (.status "ok"), ?_, iff_of_true rfl h, fun hnot => absurd h hnot⟩
    rw [readyzResponse, h.1, h.2]
    rfl
  · obtain ⟨r, hr, hunready⟩ := readyz_unready h x
    refine ⟨r, hr, iff_of_false ?_ h,
      fun _ => ⟨_, hunready, nodup_failedChecks _ _, fun check => ?_⟩⟩
    · rw [hunready.status]
      decide
    · rw [mem_failedChecks, alembicCurrentIsHead_iff]

/-- A database that stands at an older revision is not. -/
theorem readyz_answers_outdated : ∃ r names,
    readyzResponse { versionsDir := true, heads := .ok ["v3"] } .oldest
      (.reachable (some [some "v2"]))
      (Exchange.plain "GET" RateLimit.readyz [] (.read .absent)).scope = some r ∧ Unready r names ∧
        ∀ check, check ∈ names ↔ check = "alembic" := by
  obtain ⟨r, hr, -, hunready⟩ := readyz_answers { versionsDir := true, heads := .ok ["v3"] } .oldest
    (.reachable (some [some "v2"])) (.plain "GET" RateLimit.readyz [] (.read .absent))
    fun rows h => Or.inl (by cases h; exact le_rfl)
  have hbehind : ¬ (DatabaseState.reachable (some [some "v2"])).Current
      { versionsDir := true, heads := .ok ["v3"] } := by
    intro hcurrent
    rcases hcurrent (some "v2") List.mem_cons_self with h | h | ⟨head, hhead, h⟩
    · cases h
    · exact absurd (Option.some.inj h) (by decide)
    · obtain rfl := Except.ok.inj hhead
      exact absurd (Option.some.inj h) (by decide)
  obtain ⟨names, hnames, -, hmem⟩ := hunready fun h => hbehind h.2
  exact ⟨r, names, hr, hnames, fun check => by simp [hmem, hbehind]⟩

end Taskq.Http
