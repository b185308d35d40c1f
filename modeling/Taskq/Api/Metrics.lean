import Taskq.Api.Problem
import Taskq.Api.RunRows
import Taskq.Service.Metrics

/-!
# Taskq.Api.Metrics

`GET /v1/metrics` (`api/routes/metrics.py`) while other requests go on.

The tasks are counted in one session and the durations are collected in another, so between
the two anything may happen. No statement of the service assigns to `tasks.status`: there is
only one status to count. And a row has a duration when it is not pending, so what the
percentiles are taken of is the runs that have come back by the second read.
-/

namespace Taskq.Metrics

open Interleaving TaskResultRepository Transition

/-- `count_tasks_by_status`. The order of the groups is left open by the statement. -/
def countTasksByStatus (db : Database) : List (String × ℕ) :=
  (db.tasks.map Task.status).dedup.map fun status =>
    (status, db.tasks.countP fun t => t.status = status)

/-- `metrics`: the first database is read for the counts, the second for the durations. -/
def metrics (rejections : ℕ) (first second : Database) : Http.Metrics where
  taskCountsByStatus := countTasksByStatus first
  latencyPercentiles := latencyPercentiles (collectDurationMs second)
  rateLimitRejections := rejections

/-! ### What is counted -/

/-- With one status there is one group. -/
theorem countTasksByStatus_of_forall {db : Database} {status : String}
    (h : ∀ t ∈ db.tasks, t.status = status) :
    countTasksByStatus db = if db.tasks = [] then [] else [(status, db.tasks.length)] := by
  have hmap : db.tasks.map Task.status = List.replicate db.tasks.length status :=
    List.eq_replicate_iff.mpr ⟨List.length_map _, by simpa using h⟩
  have hcount : db.tasks.countP (fun t => decide (t.status = status)) = db.tasks.length :=
    List.countP_eq_length.mpr fun t ht => by simpa using h t ht
  split_ifs with hnil
  · simp [countTasksByStatus, hnil]
  · have hlength : db.tasks.length ≠ 0 := fun hzero => hnil (List.length_eq_zero_iff.mp hzero)
    rw [countTasksByStatus, hmap, List.replicate_dedup hlength, List.map_singleton, hcount]

/-- **Task rule.** What holds of every task that `create` inserts holds of every task in every
state. -/
theorem every_task {db : Database} {P : Task → Prop}
    (hnew : ∀ id now name command, P (TaskRepository.newTask id now name command))
    (hdb : ∀ t ∈ db.tasks, P t) {s : System} (h : (interleavings db).Reachable s) :
    ∀ t ∈ s.database.tasks, P t := by
  refine h.invariant (I := fun s => ∀ t ∈ s.database.tasks, P t) ?_ ?_
  · intro s hs
    obtain rfl : s = _ := hs
    exact hdb
  · intro s a s' _ hs hstep t ht
    cases a with
    | arrive r =>
        cases hstep
        exact hs t ht
    | turn i d =>
        obtain ⟨pc, -, hpc, rfl⟩ := next_turn hstep
        have htransacts := advance_transacts d hpc s.database
        generalize advance d pc s.database = out at ht htransacts
        cases htransacts with
        | create htasks =>
            rw [htasks] at ht
            rcases List.mem_cons.mp ht with rfl | ht
            · exact hnew _ _ _ _
            · exact hs t ht
        | insert _ htasks => exact hs t (htasks ▸ ht)
        | complete htasks => exact hs t (htasks ▸ ht)
        | deleteRow => exact hs t (List.mem_of_mem_filter ht)
        | _ => exact hs t ht

/-! ### What is measured -/

/-- The row has a duration when its run has come back. -/
def Timed (row : TaskResult) : Prop := row.durationMs = none ↔ row.status = "pending"

/-- The runs that have come back. -/
def finished (db : Database) : List TaskResult :=
  db.results.filter fun row => row.status ≠ "pending"

theorem mem_collectDurationMs {db : Database} (h : ∀ row ∈ db.results, Timed row) {v : ℤ} :
    v ∈ collectDurationMs db ↔ ∃ row ∈ finished db, row.durationMs = some v := by
  rw [collectDurationMs, List.mem_filterMap]
  refine ⟨?_, ?_⟩
  · rintro ⟨row, hrow, hv⟩
    refine ⟨row, List.mem_filter.mpr ⟨hrow, ?_⟩, hv⟩
    simpa using fun hpending => by rw [(h row hrow).mpr hpending] at hv; cases hv
  · rintro ⟨row, hrow, hv⟩
    exact ⟨row, List.mem_of_mem_filter hrow, hv⟩

theorem length_collectDurationMs {db : Database} (h : ∀ row ∈ db.results, Timed row) :
    (collectDurationMs db).length = (finished db).length := by
  rw [collectDurationMs, finished, List.length_filterMap_eq_countP, ← List.countP_eq_length_filter]
  refine List.countP_congr fun row hrow => ?_
  rw [Option.isSome_iff_ne_none, decide_eq_true_iff]
  exact not_congr (h row hrow)

/-- What a response of the endpoint says, of what the two reads have seen. -/
structure Reports (first second : Database) (m : Http.Metrics) : Prop where
  counts : m.taskCountsByStatus = if first.tasks = [] then [] else [("queued", first.tasks.length)]
  named : m.latencyPercentiles.map Prod.fst = reported.map key
  ordered : (m.latencyPercentiles.map Prod.snd).Pairwise (· ≤ ·)
  measured : finished second ≠ [] →
    ∀ v ∈ m.latencyPercentiles.map Prod.snd, ∃ row ∈ finished second, row.durationMs = some v
  idle : finished second = [] → ∀ v ∈ m.latencyPercentiles.map Prod.snd, v = 0

/-- Four numbers are in order, and they are samples, or zeros when there are none. -/
theorem latencyPercentiles_cases (durations : List ℤ) :
    durations = [] ∧ (latencyPercentiles durations).map Prod.snd = [0, 0, 0, 0] ∨
      durations ≠ [] ∧ (latencyPercentiles durations).map Prod.snd =
        reported.map (pct (sorted durations)) := by
  by_cases hnil : durations = []
  · subst hnil
    exact Or.inl ⟨rfl, rfl⟩
  · have hsorted : sorted durations ≠ [] := fun h =>
      hnil (List.perm_nil.mp (h ▸ (sorted_perm durations).symm))
    refine Or.inr ⟨hnil, ?_⟩
    simp only [latencyPercentiles, if_neg hsorted]
    rfl

theorem named_latencyPercentiles (durations : List ℤ) :
    (latencyPercentiles durations).map Prod.fst = reported.map key := by
  by_cases hnil : sorted durations = []
  · simp only [latencyPercentiles, if_pos hnil]
    rfl
  · simp only [latencyPercentiles, if_neg hnil]
    rfl

theorem ordered_latencyPercentiles (durations : List ℤ) :
    ((latencyPercentiles durations).map Prod.snd).Pairwise (· ≤ ·) := by
  rcases latencyPercentiles_cases durations with ⟨-, hzero⟩ | ⟨hne, hpct⟩
  · rw [hzero]
    decide
  · have hsorted : sorted durations ≠ [] := fun h =>
      hne (List.perm_nil.mp (h ▸ (sorted_perm durations).symm))
    have hreported : reported.Pairwise (· ≤ ·) := by decide
    rw [hpct]
    exact hreported.map _ fun p q hle => pct_mono (sorted_pairwise durations) hsorted hle

theorem metrics_of_timed {first second : Database} (htasks : ∀ t ∈ first.tasks, t.status = "queued")
    (hrows : ∀ row ∈ second.results, Timed row) (rejections : ℕ) :
    Reports first second (metrics rejections first second) := by
  have hnil : collectDurationMs second = [] ↔ finished second = [] := by
    rw [← List.length_eq_zero_iff, length_collectDurationMs hrows, List.length_eq_zero_iff]
  constructor
  case counts => exact countTasksByStatus_of_forall htasks
  case named => exact named_latencyPercentiles _
  case ordered => exact ordered_latencyPercentiles _
  case measured =>
    intro hsome v hv
    rcases latencyPercentiles_cases (collectDurationMs second) with ⟨hnone, -⟩ | ⟨hne, hpct⟩
    · exact absurd (hnil.mp hnone) hsome
    · have hsorted : sorted (collectDurationMs second) ≠ [] := fun h =>
        hne (List.perm_nil.mp (h ▸ (sorted_perm _).symm))
      simp only [metrics] at hv
      rw [hpct] at hv
      obtain ⟨p, -, rfl⟩ := List.mem_map.mp hv
      exact (mem_collectDurationMs hrows).mp ((sorted_perm _).mem_iff.mp (pct_mem hsorted p))
  case idle =>
    intro hnone v hv
    rcases latencyPercentiles_cases (collectDurationMs second) with ⟨-, hzero⟩ | ⟨hne, -⟩
    · simp only [metrics] at hv
      rw [hzero] at hv
      simpa using hv
    · exact absurd (hnil.mpr hnone) hne

/-- **What an operator sees.** Where the tasks are queued at the start and the rows that have come
back have their durations: whenever the two reads of `metrics` happen in a run of the service,
and whatever happens between them, the counts say how many tasks there were, all of them queued,
and the percentiles are in order and the durations of runs that had come back, or all zero when
none had. -/
theorem metrics_reports {db : Database} (htasks : ∀ t ∈ db.tasks, t.status = "queued")
    (hrows : ∀ row ∈ db.results, Timed row) {s s' : System} (h : (interleavings db).Reachable s)
    (hlater : Relation.ReflTransGen (interleavings db).Move s s') (rejections : ℕ) :
    Reports s.database s'.database (metrics rejections s.database s'.database) := by
  refine metrics_of_timed (every_task (fun _ _ _ _ => rfl) htasks h) ?_ rejections
  refine rows_kept (fun now taskId runId command => ?_) ?_ hrows
    (reachable_onHosts (h.moves hlater))
  · exact (coherent_pending now taskId runId command).duration_ms
  · intro host taskId command r old _ hrun
    exact (coherent_setOutcome hrun _ old).duration_ms

/-- A run comes back between the two reads. -/
theorem metrics_reports_between :
    ∃ s s', (interleavings oneTask).Reachable s ∧
      Relation.ReflTransGen (interleavings oneTask).Move s s' ∧
      (finished s.database).map ResultRow.id = [] ∧
      (finished s'.database).map ResultRow.id = ["r"] ∧
      Reports s.database s'.database (metrics 0 s.database s'.database) := by
  let d : Draw := { id := "r", now := TaskService.newYear, host := quietHost }
  have htasks : ∀ t ∈ oneTask.tasks, t.status = "queued" := by decide
  have hrows : ∀ row ∈ oneTask.results, Timed row := by
    simp [oneTask, TaskService.oneResult, Database.removeResults]
  have hrun : ((Lts.exec System.next ⟨oneTask, []⟩ ((oneRun quietHost).take 3)).bind fun s =>
      (s.next (.turn 0 d)).map fun s' => decide ((finished s.database).map ResultRow.id = [] ∧
        (finished s'.database).map ResultRow.id = ["r"])) = some true := by decide
  obtain ⟨s, hs, hnext⟩ := Option.bind_eq_some_iff.mp hrun
  obtain ⟨s', hs', hend⟩ := Option.map_eq_some_iff.mp hnext
  have hreach : (interleavings oneTask).Reachable s := Lts.Reachable.exec (.init rfl) _ hs
  have hlater : Relation.ReflTransGen (interleavings oneTask).Move s s' := .single ⟨_, hs'⟩
  obtain ⟨hbefore, hafter⟩ := of_decide_eq_true hend
  exact ⟨s, s', hreach, hlater, hbefore, hafter, metrics_reports htasks hrows hreach hlater 0⟩

end Taskq.Metrics
