import Taskq.Api.Runs
import Taskq.Lib.IsoZulu

/-!
# Taskq.Api.FinishedAt

What becomes of the instant of a `finished_at` value.

The parser tags a naive `datetime` as UTC, and leaves a naive text naive; the column
keeps the wall clock and drops the offset. An instant comes through both exactly when
the value is in UTC (`keepsInstant_iff`).
-/

namespace Taskq

open TaskResultRepository Transaction

/-! ### What is accepted -/

theorem parseFinishedAt_text {s : List Char} {d : PyDateTime} :
    parseFinishedAt (.text s) = .ok d ↔ IsoFormat.fromisoformat? (replaceZ s) = some d := by
  rw [parseFinishedAt]
  cases IsoFormat.fromisoformat? (replaceZ s) <;> simp

theorem parseFinishedAt_datetime {e d : PyDateTime} :
    parseFinishedAt (.datetime e) = .ok d ↔ d = ⟨e.wall, some (e.offset.getD UtcOffset.utc)⟩ := by
  obtain ⟨wall, offset⟩ := e
  cases offset <;> simp [parseFinishedAt, eq_comm]

/-! ### What a value denotes -/

theorem replaceZ_zulu {pre : List Char} (h : 'Z' ∉ pre) (post : List Char) :
    replaceZ (pre ++ 'Z' :: post) =
      pre ++ '+' :: '0' :: '0' :: ':' :: '0' :: '0' :: replaceZ post := by
  have hpre := replaceZ_of_not_mem h
  unfold replaceZ at hpre ⊢
  rw [List.flatMap_append, hpre]
  rfl

/-- A text that is read as it stands is read as the same after the replacement. -/
theorem fromisoformat?_replaceZ {s : List Char} {d e : PyDateTime}
    (h : IsoFormat.fromisoformat? (replaceZ s) = some d)
    (hs : IsoFormat.fromisoformat? s = some e) : d = e := by
  by_cases hZ : 'Z' ∈ s
  · obtain ⟨pre, post, rfl, hpre⟩ := List.eq_append_cons_of_mem hZ
    rw [replaceZ_zulu hpre] at h
    exact IsoFormat.fromisoformat?_zulu (fun c hc => if_neg hc) hpre hs h
  · rw [replaceZ_of_not_mem hZ, hs] at h
    exact (Option.some.inj h).symm

namespace FinishedAt

/-- The instant a value denotes: a naive one is UTC, and a text is what
`datetime.fromisoformat` makes of it as it stands. -/
def instant? : FinishedAt → Option ℤ
  | .datetime d => some d.instant
  | .text s => (IsoFormat.fromisoformat? s).map PyDateTime.instant
  | .other => none

/-- An object that is naive or at offset zero, or a text with an offset of zero, `Z`
being one. -/
def InUtc : FinishedAt → Prop
  | .datetime d => ∀ o, d.offset = some o → o.micros = 0
  | .text s => ∃ e o, IsoFormat.fromisoformat? (replaceZ s) = some e ∧ e.offset = some o ∧
      o.micros = 0
  | .other => False

end FinishedAt

/-- What is parsed denotes the instant of the value. -/
theorem parseFinishedAt_instant {v : FinishedAt} {d : PyDateTime} (h : parseFinishedAt v = .ok d)
    {t : ℤ} (ht : v.instant? = some t) : d.instant = t := by
  cases v with
  | datetime e =>
      obtain rfl := parseFinishedAt_datetime.mp h
      obtain rfl := Option.some.inj ht
      obtain ⟨wall, offset⟩ := e
      cases offset <;> rfl
  | text s =>
      obtain ⟨e, he, rfl⟩ := Option.map_eq_some_iff.mp ht
      rw [fromisoformat?_replaceZ (parseFinishedAt_text.mp h) he]
  | other => cases ht

/-- A value is in UTC when what it is parsed as is aware, and at offset zero. -/
theorem inUtc_iff {v : FinishedAt} {d : PyDateTime} (h : parseFinishedAt v = .ok d) :
    v.InUtc ↔ ∃ o, d.offset = some o ∧ o.micros = 0 := by
  cases v with
  | datetime e =>
      obtain rfl := parseFinishedAt_datetime.mp h
      obtain ⟨wall, offset⟩ := e
      cases offset <;> simp [FinishedAt.InUtc, UtcOffset.utc]
  | text s =>
      rw [parseFinishedAt_text] at h
      simp [FinishedAt.InUtc, h]
  | other => cases h

/-! ### What a listing shows -/

/-- The instants a listing shows for a run. -/
def shownInstants (db : Database) (taskId runId : String) : List (Option ℤ) :=
  (listedRun db taskId runId).map fun entry => shownInstant (entry.lookup "finished_at")

/-- The wall clock of a row is listed, as UTC. -/
theorem shownInstants_of_mem {db : Database} {row : TaskResult} (hrow : row ∈ db.results)
    {wall : DateTime} (hwall : row.finishedAt = some wall) :
    shownInstants db row.taskId row.id = [some wall.micros] := by
  have hshown : (toDict row.load).lookup "finished_at"
      = some (.str (String.ofList wall.isoformat)) := by
    have hload : row.load.finishedAt = some ⟨wall, none⟩ := by
      show row.finishedAt.map _ = _
      rw [hwall]
      rfl
    show some (Value.ofTime? row.load.finishedAt) = _
    rw [hload]
    rfl
  rw [shownInstants, listedRun_of_mem hrow, List.map_singleton, hshown, shownInstant,
    String.toList_ofList, IsoFormat.fromisoformat?_isoformat]
  simp [PyDateTime.instant]

/-- After `record_result` the listing shows the wall clock of what was parsed. -/
theorem shownInstants_recordResult {engine : Engine} {faults : Faults StorageError}
    {db db' : Database} {id taskId command : String} {now : DateTime} {o : Outcome}
    {finished : PyDateTime} {entry : Dict} (hparse : parseFinishedAt o.finishedAt = .ok finished)
    (h : recordResult engine faults id now taskId command o db = (.ok entry, db')) :
    shownInstants db' taskId id = [some finished.wall.micros] := by
  simp only [recordResult, hparse] at h
  have hrow : (recordRow id now taskId command o finished).store ∈ db'.results := by
    rcases transaction_cases faults
      (insertBody engine (recordRow id now taskId command o finished)) db with
      ⟨e, he⟩ | ⟨entry', db'', -, hbody, hok⟩
    · rw [he] at h
      cases h
    · rw [hok] at h
      cases h
      exact mem_of_insertBody hbody
  exact shownInstants_of_mem hrow rfl

/-- After `update_result` the listing shows it for the row that was updated. -/
theorem shownInstants_updateResult {faults : Faults StorageError} {db db' : Database}
    {o : Outcome} {finished : PyDateTime} {entry : Dict} {row : TaskResult}
    (hparse : parseFinishedAt o.finishedAt = .ok finished) (hrow : row ∈ db.results)
    (h : updateResult faults row.id o db = (.ok entry, db')) :
    shownInstants db' row.taskId row.id = [some finished.wall.micros] := by
  simp only [updateResult, hparse] at h
  rcases transaction_cases faults (updateBody row.id o finished) db with
    ⟨e, he⟩ | ⟨entry', db'', -, hbody, hok⟩
  · rw [he] at h
    cases h
  · rw [hok] at h
    cases h
    obtain rfl := updateBody_state hbody
    have hmem : setOutcome o finished row ∈
        (db.updateResult row.id (setOutcome o finished) (setOutcome_id o finished)).results :=
      List.mem_map.mpr ⟨row, hrow, if_pos rfl⟩
    exact shownInstants_of_mem hmem rfl

/-! ### Keeping the instant -/

/-- What is promised of an accepted value `v` and the `datetime` it is parsed as: that is
aware, denotes the same instant, and is listed with it after either way of writing. -/
structure KeepsInstant (v : FinishedAt) (d : PyDateTime) : Prop where
  aware : d.offset.isSome
  same : ∀ t, v.instant? = some t → d.instant = t
  recorded : ∀ engine faults db db' id taskId command now (o : Outcome) entry,
    o.finishedAt = v → recordResult engine faults id now taskId command o db = (.ok entry, db') →
      shownInstants db' taskId id = [some d.instant]
  updated : ∀ faults db db' (row : TaskResult) (o : Outcome) entry, row ∈ db.results →
    o.finishedAt = v → updateResult faults row.id o db = (.ok entry, db') →
      shownInstants db' row.taskId row.id = [some d.instant]

/-- A value that keeps its instant is at offset zero: the row recorded in an empty table
shows the wall clock. -/
theorem KeepsInstant.offset {v : FinishedAt} {d : PyDateTime} (h : KeepsInstant v d)
    (hparse : parseFinishedAt v = .ok d) : ∃ o, d.offset = some o ∧ o.micros = 0 := by
  obtain ⟨o, ho⟩ := Option.isSome_iff_exists.mp h.aware
  refine ⟨o, ho, ?_⟩
  let outcome : Outcome :=
    { exitCode := none, stdoutTail := "", stderrTail := "", durationMs := none, finishedAt := v
      status := "done" }
  let row := recordRow "r" d.wall "t" "true" outcome d
  obtain ⟨db', hbody, -, -⟩ :=
    @insertBody_ok { foreignKeys := false } .empty row nofun (by simp [Database.empty])
  have hrecord : recordResult { foreignKeys := false } Faults.none "r" d.wall "t" "true" outcome
      .empty = (.ok (toDict row), db') := by
    simp only [recordResult, outcome, hparse]
    exact transaction_ok hbody
  have hshown := h.recorded _ _ _ _ _ _ _ _ outcome _ rfl hrecord
  rw [shownInstants_recordResult hparse hrecord] at hshown
  have hinstant : d.wall.micros = d.wall.micros - o.micros := by
    simpa [PyDateTime.instant, ho] using hshown
  omega

/-- Noon in August. -/
def noon : DateTime := ⟨2026, 8, 22, 12, 0, 0, 0, by decide⟩

/-- Two hours east of UTC. -/
def twoHoursEast : UtcOffset := ⟨7200000000, by decide⟩

/-- A naive text stays naive, and the row of an object two hours east shows another
instant. -/
theorem noon_is_moved :
    (parseFinishedAt (.text "2026-08-22T12:00:00".toList) = .ok ⟨noon, none⟩ ∧
      ¬ KeepsInstant (.text "2026-08-22T12:00:00".toList) ⟨noon, none⟩) ∧
    (parseFinishedAt (.datetime ⟨noon, some twoHoursEast⟩) = .ok ⟨noon, some twoHoursEast⟩ ∧
      ¬ KeepsInstant (.datetime ⟨noon, some twoHoursEast⟩) ⟨noon, some twoHoursEast⟩) := by
  refine ⟨⟨by decide, fun h => ?_⟩, ⟨rfl, fun h => ?_⟩⟩
  · cases h.aware
  · obtain ⟨o, ho, hzero⟩ := h.offset rfl
    cases ho
    cases hzero

/-- **A `finished_at` value keeps its instant if and only if it is in UTC.** -/
theorem keepsInstant_iff {v : FinishedAt} {d : PyDateTime} (h : parseFinishedAt v = .ok d) :
    KeepsInstant v d ↔ v.InUtc := by
  rw [inUtc_iff h]
  refine ⟨fun hkeeps => hkeeps.offset h, ?_⟩
  intro hutc
  obtain ⟨o, ho, hzero⟩ := hutc
  have hwall : d.instant = d.wall.micros := by simp [PyDateTime.instant, ho, hzero]
  constructor
  case aware => simp [ho]
  case same => exact fun t ht => parseFinishedAt_instant h ht
  case recorded =>
    rintro engine faults db db' id taskId command now o entry rfl hrecord
    rw [hwall]
    exact shownInstants_recordResult h hrecord
  case updated =>
    rintro faults db db' row o entry hrow rfl hupdate
    rw [hwall]
    exact shownInstants_updateResult h hrow hupdate

theorem keepsInstant_iff_zulu :
    parseFinishedAt (.text "2026-08-22T12:00:00Z".toList) = .ok ⟨noon, some UtcOffset.utc⟩ ∧
      (KeepsInstant (.text "2026-08-22T12:00:00Z".toList) ⟨noon, some UtcOffset.utc⟩ ↔
        FinishedAt.InUtc (.text "2026-08-22T12:00:00Z".toList)) :=
  ⟨by decide, keepsInstant_iff (by decide)⟩

end Taskq
