import Taskq.Api.Interleaving

/-!
# Taskq.Api.RunHistory

What becomes of each run while other requests go on.

`trigger_run` inserts a pending row, `_execute_and_persist` completes it, and
`delete_task` removes it, each in a transaction of its own. `Tracked` keeps beside the
system what these calls were asked to do: one entry for a trigger that has answered, and
the runner's dict once the body has it. The entries are compared with the rows in every
state.

What the rows show is what the entries say, but for `stderr_tail`, of which
`update_result` keeps nothing.
-/

namespace Taskq.Interleaving

open Transaction TaskResultRepository Transition

/-! ### The runs that were triggered -/

/-- A trigger that has answered, and what the runner returned for it, once it has. -/
structure Trigger where
  runId : String
  taskId : String
  command : String
  completion : Option RunResult
  deriving DecidableEq

/-- The runner has returned this dict for the run of this id. -/
def Trigger.complete (runId : String) (r : RunResult) (g : Trigger) : Trigger :=
  if g.runId = runId then { g with completion := some r } else g

@[simp] theorem Trigger.complete_runId (runId : String) (r : RunResult) (g : Trigger) :
    (g.complete runId r).runId = g.runId := by
  unfold complete
  split_ifs <;> rfl

@[simp] theorem Trigger.complete_taskId (runId : String) (r : RunResult) (g : Trigger) :
    (g.complete runId r).taskId = g.taskId := by
  unfold complete
  split_ifs <;> rfl

theorem Trigger.complete_of_ne {runId : String} {r : RunResult} {g : Trigger}
    (h : g.runId ≠ runId) : g.complete runId r = g :=
  if_neg h

/-- The system, and the triggers it has answered. -/
structure Tracked where
  system : System
  triggers : List Trigger

/-- The triggers after a transaction of a request. -/
def recorded (d : Draw) (pc : Pc) (db : Database) (triggers : List Trigger) : List Trigger :=
  match pc with
  | .found taskId command =>
      match (Taskq.triggerRun buildEngine Faults.none d.now taskId command d.id db).1 with
      | .error _ => triggers
      | .ok runId =>
          { runId := runId, taskId := taskId, command := command, completion := none } :: triggers
  | .running taskId command runId =>
      match TaskRunner.run d.host taskId command with
      | .error _ => triggers
      | .ok r => triggers.map (Trigger.complete runId r)
  | _ => triggers

/-- The triggers after an event. -/
def Tracked.record (t : Tracked) : Event → List Trigger
  | .arrive _ => t.triggers
  | .turn i d =>
      match t.system.requests[i]? with
      | none => t.triggers
      | some pc => recorded d pc t.system.database t.triggers

def Tracked.next (t : Tracked) (a : Event) : Option Tracked :=
  (t.system.next a).map fun s => { system := s, triggers := t.record a }

/-- The runs from a database, before any trigger. -/
def trackedRuns (db : Database) : Lts Tracked Event :=
  Lts.ofNext (· = { system := { database := db, requests := [] }, triggers := [] }) Tracked.next

/-- Keeping the triggers beside the system gets in the way of nothing. -/
theorem reachable_iff_tracked {db : Database} {s : System} :
    (interleavings db).Reachable s ↔
      ∃ triggers, (trackedRuns db).Reachable { system := s, triggers := triggers } := by
  refine ⟨?_, ?_⟩
  · intro h
    induction h with
    | init hs =>
        obtain rfl := hs
        exact ⟨[], .init rfl⟩
    | @step s s' a _ hstep ih =>
        obtain ⟨triggers, htracked⟩ := ih
        have hnext : Tracked.next { system := s, triggers := triggers } a = some
            { system := s', triggers := Tracked.record { system := s, triggers := triggers } a } :=
          congrArg (Option.map _) hstep
        exact ⟨_, htracked.step hnext⟩
  · intro h
    obtain ⟨triggers, h⟩ := h
    refine h.invariant (I := fun t => (interleavings db).Reachable t.system) ?_ ?_
    · intro t ht
      obtain rfl : t = _ := ht
      exact .init rfl
    · intro t a t' _ hsystem hstep
      obtain ⟨s', hnext, rfl⟩ := Option.map_eq_some_iff.mp hstep
      exact hsystem.step hnext

/-- The task whose row the request has removed. -/
def Pc.rowDeleted? : Pc → Option String
  | .rowDeleted taskId => some taskId
  | _ => none

/-- No run, no task of a run and no delete on its way has this id. -/
def Tracked.Unseen (t : Tracked) (id : String) : Prop :=
  id ∉ t.triggers.map Trigger.runId ∧ id ∉ t.triggers.map Trigger.taskId ∧
    id ∉ t.system.requests.filterMap Pc.rowDeleted?

instance (t : Tracked) (id : String) : Decidable (t.Unseen id) :=
  inferInstanceAs (Decidable (_ ∧ _ ∧ _))

/-- The next transaction of the request takes an id from `uuid4`. -/
def Pc.draws : Pc → Bool
  | .arrived (.createTask _) => true
  | .found _ _ => true
  | _ => false

/-- The ids that `uuid4` gives have not been seen before. -/
def Fresh (t : Tracked) : Event → Prop
  | .arrive _ => True
  | .turn i d => ∀ pc ∈ t.system.requests[i]?, pc.draws = true → t.Unseen d.id

instance (t : Tracked) : (a : Event) → Decidable (Fresh t a)
  | .arrive _ => isTrue trivial
  | .turn i d =>
      inferInstanceAs (Decidable (∀ pc ∈ t.system.requests[i]?, pc.draws = true → t.Unseen d.id))

/-! ### What is asked of the rows -/

/-- The row as it is before the run has completed. -/
structure Pending (row : TaskResult) : Prop where
  status : row.status = "pending"
  exit_code : row.exitCode = none
  duration_ms : row.durationMs = none
  finished_at : row.finishedAt = none

/-- The row shows what the runner returned; `stderr_tail` apart. -/
structure Completed (r : RunResult) (row : TaskResult) : Prop where
  status : row.status = r.terminal
  exit_code : row.exitCode = some r.exitCode
  stdout_tail : row.stdoutTail = r.stdoutTail
  duration_ms : row.durationMs = some r.durationMs
  finished_at : row.finishedAt.map (fun d => PyDateTime.instant ⟨d, none⟩)
    = (IsoFormat.fromisoformat? r.finishedAt).map PyDateTime.instant

/-- The row, as far as the run has come. -/
def Trigger.Shown (g : Trigger) (row : TaskResult) : Prop :=
  row.taskId = g.taskId ∧ row.command = g.command ∧
    match g.completion with
    | none => Pending row
    | some r => Completed r row ∧ row.stderrTail = r.stderrTail

/-- The run has one row, and it shows how far the run has come. -/
def Trigger.OwnsOneRow (g : Trigger) (db : Database) : Prop :=
  ∃ row, db.results.filter (fun row => row.id = g.runId) = [row] ∧ g.Shown row

/-- The background body touches no other row, and raises where its own is gone. -/
structure CompletesAlone (host : Host) (taskId command runId : String) (db : Database) : Prop where
  tasks : (executeAndPersist host Faults.none taskId command runId db).2.tasks = db.tasks
  others :
    (executeAndPersist host Faults.none taskId command runId db).2.results.filter
        (fun row => row.id ≠ runId)
      = db.results.filter fun row => row.id ≠ runId
  gone : runId ∉ db.results.map ResultRow.id →
    ∃ e, executeAndPersist host Faults.none taskId command runId db = (.error e, db)

/-- The property of a state: each trigger whose task is there owns one row, no two the
same; a body about to complete a run is the first to, and does so alone. -/
structure RunsForward (t : Tracked) : Prop where
  distinct : (t.triggers.map Trigger.runId).Nodup
  owns : ∀ g ∈ t.triggers, t.system.database.HasTask g.taskId → g.OwnsOneRow t.system.database
  first : ∀ taskId command runId, .running taskId command runId ∈ t.system.requests →
    ∃ g ∈ t.triggers, g.runId = runId ∧ g.taskId = taskId ∧ g.command = command ∧
      g.completion = none
  alone : ∀ taskId command runId, .running taskId command runId ∈ t.system.requests →
    ∀ host, CompletesAlone host taskId command runId t.system.database

/-- Where the transaction completes a run whose task is there, the runner has read nothing
from stderr. -/
def Pc.Silent (d : Draw) (db : Database) : Pc → Prop
  | .running taskId command _ =>
      db.HasTask taskId → ∀ r, TaskRunner.run d.host taskId command = .ok r → r.stderrTail = ""
  | _ => True

/-- Where the event completes a run whose task is there, the runner has read nothing from
stderr. -/
def Silent (t : Tracked) : Event → Prop
  | .arrive _ => True
  | .turn i d => ∀ pc ∈ t.system.requests[i]?, pc.Silent d t.system.database

/-! ### A body on its own -/

/-- An assignment to the row under one key leaves the other rows alone. -/
theorem filter_updateResult (db : Database) (id : String) (set : TaskResult → TaskResult)
    (hset : ∀ row, (set row).id = row.id) :
    (db.updateResult id set hset).results.filter (fun row => row.id ≠ id)
      = db.results.filter fun row => row.id ≠ id := by
  show (db.results.map fun row => if row.id = id then set row else row).filter _ = _
  rw [List.filter_map]
  have hkeys : ((fun row : TaskResult => decide (row.id ≠ id)) ∘
      fun row => if row.id = id then set row else row) = fun row => decide (row.id ≠ id) := by
    funext row
    simp only [Function.comp_apply]
    split_ifs
    · rw [hset]
    · rfl
  rw [hkeys]
  conv_rhs => rw [← List.map_id (db.results.filter fun row => row.id ≠ id)]
  refine List.map_congr_left fun row hrow => ?_
  have hne : row.id ≠ id := by simpa using (List.mem_filter.mp hrow).2
  exact if_neg hne

theorem completesAlone (host : Host) (taskId command runId : String) (db : Database) :
    CompletesAlone host taskId command runId db := by
  constructor
  case tasks => exact (executeAndPersist_frame host Faults.none taskId command runId db).1
  case gone => exact executeAndPersist_gone host taskId command
  case others =>
    by_cases hgone : runId ∈ db.results.map ResultRow.id
    · obtain ⟨row, hrow, rfl⟩ := List.mem_map.mp hgone
      cases hrun : TaskRunner.run host taskId command with
      | error e => rw [executeAndPersist_error hrun]
      | ok r =>
          rw [executeAndPersist_completes hrun hrow rfl]
          exact filter_updateResult db row.id _ _
    · obtain ⟨e, he⟩ := executeAndPersist_gone host taskId command hgone
      rw [he]

/-- The other rows are there after the body has run. -/
theorem CompletesAlone.mem {host : Host} {taskId command runId : String} {db : Database}
    (h : CompletesAlone host taskId command runId db) {row : TaskResult} (hrow : row ∈ db.results)
    (hne : row.id ≠ runId) :
    row ∈ (executeAndPersist host Faults.none taskId command runId db).2.results := by
  have hmem : row ∈ db.results.filter fun row => row.id ≠ runId :=
    List.mem_filter.mpr ⟨hrow, by simpa using hne⟩
  rw [← h.others] at hmem
  exact List.mem_of_mem_filter hmem

/-- What `update_result` writes for the runner's dict. -/
theorem completed_setOutcome {host : Host} {taskId command : String} {r : RunResult}
    (hrun : TaskRunner.run host taskId command = .ok r) (row : TaskResult) :
    Completed r (setOutcome r.outcome ⟨host.now, some UtcOffset.utc⟩ row) := by
  constructor
  case status => rfl
  case exit_code => rfl
  case stdout_tail => exact strOr_empty _
  case duration_ms => rfl
  case finished_at =>
    obtain ⟨p, hreport⟩ := TaskRunner.run_ok hrun
    rw [TaskRunner.report_finishedAt hreport, nowIso, IsoFormat.fromisoformat?_isoformat_utc]
    rfl

/-! ### What every run keeps -/

/-- The row as the code leaves it: of `stderr_tail` nothing is kept. -/
def Trigger.Left (g : Trigger) (row : TaskResult) : Prop :=
  row.taskId = g.taskId ∧ row.command = g.command ∧
    match g.completion with
    | none => Pending row
    | some r => Completed r row ∧ row.stderrTail = ""

/-- Request `i` is the background body of this run. -/
def System.Runs (s : System) (i : ℕ) (taskId command runId : String) : Prop :=
  s.requests[i]? = some (.running taskId command runId)

/-- The bodies under way are those of the triggers that have not completed, one each, and
no task is there whose row a delete has removed. -/
structure Tracks (t : Tracked) : Prop where
  distinct : (t.triggers.map Trigger.runId).Nodup
  rows : ∀ g ∈ t.triggers, t.system.database.HasTask g.taskId →
    ∃ row ∈ t.system.database.results, row.id = g.runId ∧ g.Left row
  running : ∀ {i taskId command runId}, t.system.Runs i taskId command runId →
    ⟨runId, taskId, command, none⟩ ∈ t.triggers
  once : ∀ {i j taskId command runId}, t.system.Runs i taskId command runId →
    t.system.Runs j taskId command runId → i = j
  deleted : ∀ {taskId}, Pc.rowDeleted taskId ∈ t.system.requests →
    ¬ t.system.database.HasTask taskId

theorem Tracks.init (db : Database) :
    Tracks { system := { database := db, requests := [] }, triggers := [] } where
  distinct := List.nodup_nil
  rows := by simp
  running := by simp [System.Runs]
  once := by simp [System.Runs]
  deleted := by simp

section

variable {t : Tracked} {db : Database} {i j : ℕ} {pc : Pc} {taskId command runId : String}

/-- A body that runs after a request has moved on is that request, or ran before. -/
theorem System.Runs.of_set
    (h : System.Runs ⟨db, t.system.requests.set i pc⟩ j taskId command runId) :
    i = j ∧ pc = .running taskId command runId ∨
      i ≠ j ∧ t.system.Runs j taskId command runId := by
  have hset : (t.system.requests.set i pc)[j]? = some (.running taskId command runId) := h
  by_cases hij : i = j
  · subst hij
    rw [List.getElem?_set, if_pos rfl] at hset
    split_ifs at hset
    exact Or.inl ⟨rfl, Option.some.inj hset⟩
  · rw [List.getElem?_set_ne hij] at hset
    exact Or.inr ⟨hij, hset⟩

/-- A request that arrives is no body of a run. -/
theorem System.Runs.of_append {r : Request}
    (h : System.Runs ⟨db, t.system.requests ++ [.arrived r]⟩ j taskId command runId) :
    t.system.Runs j taskId command runId := by
  have happend : (t.system.requests ++ [.arrived r])[j]? = some (.running taskId command runId) :=
    h
  rw [List.getElem?_append] at happend
  split_ifs at happend
  · exact happend
  · cases List.mem_singleton.mp (List.mem_of_getElem? happend)

/-- A request that arrives has done nothing yet. -/
theorem Tracks.arrive (h : Tracks t) (r : Request) :
    Tracks ⟨⟨t.system.database, t.system.requests ++ [.arrived r]⟩, t.triggers⟩ := by
  constructor
  case distinct => exact h.distinct
  case rows => exact h.rows
  case running => exact fun hj => h.running hj.of_append
  case once => exact fun hj hk => h.once hj.of_append hk.of_append
  case deleted =>
    intro taskId hmem
    rcases List.mem_append.mp hmem with hmem | hmem
    · exact h.deleted hmem
    · cases List.mem_singleton.mp hmem

/-- A turn after which nothing more runs than before, which keeps the rows of the tasks
that stay and brings no task back. -/
theorem Tracks.keep (h : Tracks t)
    (hpc : ∀ taskId command runId, pc ≠ .running taskId command runId)
    (htask : ∀ g ∈ t.triggers, db.HasTask g.taskId → t.system.database.HasTask g.taskId)
    (hrows : ∀ row ∈ t.system.database.results, db.HasTask row.taskId → row ∈ db.results)
    (hdeleted : ∀ taskId, Pc.rowDeleted taskId ∈ t.system.requests ∨ pc = .rowDeleted taskId →
      ¬ db.HasTask taskId) :
    Tracks ⟨⟨db, t.system.requests.set i pc⟩, t.triggers⟩ := by
  have hold : ∀ {j taskId command runId},
      System.Runs ⟨db, t.system.requests.set i pc⟩ j taskId command runId →
        t.system.Runs j taskId command runId := by
    intro j taskId command runId hj
    rcases hj.of_set with ⟨-, heq⟩ | ⟨-, hj⟩
    · exact absurd heq (hpc taskId command runId)
    · exact hj
  constructor
  case distinct => exact h.distinct
  case rows =>
    intro g hg hhas
    obtain ⟨row, hrow, hid, hleft⟩ := h.rows g hg (htask g hg hhas)
    refine ⟨row, hrows row hrow ?_, hid, hleft⟩
    rw [hleft.1]
    exact hhas
  case running => exact fun hj => h.running (hold hj)
  case once => exact fun hj hk => h.once (hold hj) (hold hk)
  case deleted =>
    intro taskId hmem
    refine hdeleted taskId ?_
    rcases List.mem_or_eq_of_mem_set hmem with hmem | heq
    · exact Or.inl hmem
    · exact Or.inr heq.symm

/-- A turn that leaves the database as it is. -/
theorem Tracks.idle (h : Tracks t)
    (hpc : ∀ taskId command runId, pc ≠ .running taskId command runId)
    (hrow : ∀ taskId, pc ≠ .rowDeleted taskId) :
    Tracks ⟨⟨t.system.database, t.system.requests.set i pc⟩, t.triggers⟩ := by
  refine h.keep hpc (fun g _ hhas => hhas) (fun row hrow _ => hrow) ?_
  exact fun taskId hmem => h.deleted (hmem.resolve_right (hrow taskId))

/-- A pending row under a new id. -/
theorem Tracks.insert (h : Tracks t) {now : DateTime}
    (hunseen : runId ∉ t.triggers.map Trigger.runId)
    (htasks : db.tasks = t.system.database.tasks)
    (hresults : db.results =
      (pendingRow now taskId runId command).store :: t.system.database.results) :
    Tracks ⟨⟨db, t.system.requests.set i (.running taskId command runId)⟩,
      ⟨runId, taskId, command, none⟩ :: t.triggers⟩ := by
  have hidle : ∀ {j taskId' command'}, ¬ t.system.Runs j taskId' command' runId :=
    fun hj => hunseen (List.mem_map.mpr ⟨_, h.running hj, rfl⟩)
  constructor
  case distinct => exact List.nodup_cons.mpr ⟨hunseen, h.distinct⟩
  case rows =>
    intro g hg hhas
    show ∃ row ∈ db.results, _
    rw [hresults]
    rcases List.mem_cons.mp hg with rfl | hg
    · exact ⟨_, List.mem_cons_self, rfl, rfl, rfl, rfl, rfl, rfl, rfl⟩
    · obtain ⟨row, hrow, hleft⟩ := h.rows g hg ((hasTask_congr htasks).mp hhas)
      exact ⟨row, List.mem_cons_of_mem _ hrow, hleft⟩
  case running =>
    intro j taskId' command' runId' hj
    rcases hj.of_set with ⟨-, heq⟩ | ⟨-, hj⟩
    · cases heq
      exact List.mem_cons_self
    · exact List.mem_cons_of_mem _ (h.running hj)
  case once =>
    intro j k taskId' command' runId' hj hk
    rcases hj.of_set with ⟨hij, heq⟩ | ⟨-, hj⟩ <;> rcases hk.of_set with ⟨hik, heq'⟩ | ⟨-, hk⟩
    · exact hij.symm.trans hik
    · cases heq
      exact absurd hk hidle
    · cases heq'
      exact absurd hj hidle
    · exact h.once hj hk
  case deleted =>
    intro taskId' hmem
    rcases List.mem_or_eq_of_mem_set hmem with hmem | heq
    · exact (hasTask_congr htasks).not.mpr (h.deleted hmem)
    · cases heq

/-- A body whose runner has returned. -/
theorem Tracks.complete (h : Tracks t) {host : Host} {r : RunResult}
    (hruns : t.system.Runs i taskId command runId)
    (hreturned : TaskRunner.run host taskId command = .ok r) :
    Tracks ⟨⟨(executeAndPersist host Faults.none taskId command runId t.system.database).2,
        t.system.requests.set i .finished⟩,
      t.triggers.map (Trigger.complete runId r)⟩ := by
  have halone := completesAlone host taskId command runId t.system.database
  have hown := h.running hruns
  -- whichever body goes on is that of another run
  have hold : ∀ {j taskId' command' runId'},
      System.Runs ⟨(executeAndPersist host Faults.none taskId command runId t.system.database).2,
          t.system.requests.set i .finished⟩ j taskId' command' runId' →
        t.system.Runs j taskId' command' runId' ∧ runId' ≠ runId := by
    intro j taskId' command' runId' hj
    rcases hj.of_set with ⟨-, heq⟩ | ⟨hij, hbefore⟩
    · cases heq
    · refine ⟨hbefore, ?_⟩
      intro heq
      subst heq
      cases List.inj_on_of_nodup_map h.distinct hown (h.running hbefore) rfl
      exact hij (h.once hruns hbefore)
  constructor
  case distinct =>
    have hids : Trigger.runId ∘ Trigger.complete runId r = Trigger.runId :=
      funext (Trigger.complete_runId runId r)
    rw [List.map_map, hids]
    exact h.distinct
  case rows =>
    intro g' hg' hhas
    obtain ⟨g, hg, rfl⟩ := List.mem_map.mp hg'
    rw [Trigger.complete_taskId] at hhas
    obtain ⟨row, hrow, hid, hleft⟩ := h.rows g hg ((hasTask_congr halone.tasks).mp hhas)
    by_cases hsame : g.runId = runId
    · obtain rfl : ⟨runId, taskId, command, none⟩ = g :=
        List.inj_on_of_nodup_map h.distinct hown hg hsame.symm
      obtain rfl : row.id = runId := hid
      rw [executeAndPersist_completes hreturned hrow rfl]
      rw [Trigger.complete, if_pos rfl]
      refine ⟨_, List.mem_map.mpr ⟨row, hrow, if_pos rfl⟩, rfl, ?_⟩
      exact ⟨hleft.1, hleft.2.1, completed_setOutcome hreturned row, strAnd_empty _⟩
    · rw [Trigger.complete_of_ne hsame]
      exact ⟨row, halone.mem hrow (by rw [hid]; exact hsame), hid, hleft⟩
  case running =>
    intro j taskId' command' runId' hj
    obtain ⟨hj, hne⟩ := hold hj
    exact List.mem_map.mpr ⟨_, h.running hj, Trigger.complete_of_ne hne⟩
  case once => exact fun hj hk => h.once (hold hj).1 (hold hk).1
  case deleted =>
    intro taskId' hmem
    rcases List.mem_or_eq_of_mem_set hmem with hmem | heq
    · exact (hasTask_congr halone.tasks).not.mpr (h.deleted hmem)
    · cases heq

end

/-- What an event is, with the triggers beside it. -/
theorem Tracked.next_turn {t t' : Tracked} {i : ℕ} {d : Draw} (h : t.next (.turn i d) = some t') :
    ∃ pc, t.system.requests[i]? = some pc ∧ pc ≠ .finished ∧
      t' = ⟨⟨(advance d pc t.system.database).2,
          t.system.requests.set i (advance d pc t.system.database).1⟩,
        recorded d pc t.system.database t.triggers⟩ := by
  obtain ⟨s, hs, rfl⟩ := Option.map_eq_some_iff.mp h
  obtain ⟨pc, hpc, hfinished, rfl⟩ := Interleaving.next_turn hs
  exact ⟨pc, hpc, hfinished, by simp only [Tracked.record, hpc]⟩

/-- No delete on its way has an unseen id. -/
theorem Tracked.Unseen.not_deleted {t : Tracked} {id : String} (h : t.Unseen id) :
    .rowDeleted id ∉ t.system.requests :=
  fun hmem => h.2.2 (List.mem_filterMap.mpr ⟨_, hmem, rfl⟩)

/-- No transaction brings back the task of a run. -/
theorem Fresh.hasTask {t : Tracked} {i : ℕ} {d : Draw} (h : Fresh t (.turn i d)) {pc : Pc}
    (hpc : t.system.requests[i]? = some pc) (hfinished : pc ≠ .finished) {g : Trigger}
    (hg : g ∈ t.triggers) (hhas : (advance d pc t.system.database).2.HasTask g.taskId) :
    t.system.database.HasTask g.taskId := by
  rcases (advance_transacts d hfinished t.system.database).hasTask_of hhas with
    hhas | ⟨heq, body, rfl⟩
  · exact hhas
  · exact absurd (List.mem_map.mpr ⟨g, hg, heq.symm⟩) (h _ hpc rfl).2.1

/-- A turn of `create_task` or of `delete_task`, or one that only reads. -/
theorem Tracks.turn_other {t : Tracked} (h : Tracks t) {i : ℕ} {d : Draw} {pc : Pc}
    (hpc : t.system.requests[i]? = some pc) (hfresh : Fresh t (.turn i d))
    (hfound : ∀ taskId command, pc ≠ .found taskId command)
    (hrunning : ∀ taskId command runId, pc ≠ .running taskId command runId)
    (hfinished : pc ≠ .finished) :
    Tracks ⟨⟨(advance d pc t.system.database).2,
        t.system.requests.set i (advance d pc t.system.database).1⟩, t.triggers⟩ := by
  have htransacts := advance_transacts d hfinished t.system.database
  have htask : ∀ g ∈ t.triggers, (advance d pc t.system.database).2.HasTask g.taskId →
      t.system.database.HasTask g.taskId := fun g => hfresh.hasTask hpc hfinished
  have hunseen := hfresh pc hpc
  generalize advance d pc t.system.database = out at htransacts htask
  have hcreated : ∀ id, out.2.HasTask id → t.system.database.HasTask id ∨
      d.id = id ∧ ∃ body, pc = .arrived (.createTask body) := fun id => htransacts.hasTask_of
  cases htransacts with
  | create _ hresults =>
      refine h.keep nofun htask (fun row hrow _ => hresults ▸ hrow) ?_
      intro id hrow hhas
      have hrow := hrow.resolve_right nofun
      rcases hcreated id hhas with hhas | ⟨rfl, -⟩
      · exact h.deleted hrow hhas
      · exact (hunseen rfl).not_deleted hrow
  | @deleteRow taskId =>
      refine h.keep nofun htask (fun row hrow _ => hrow) ?_
      intro id hrow hhas
      obtain ⟨task, htask, rfl⟩ := hhas
      rw [Database.removeTask_tasks, List.mem_filter] at htask
      rcases hrow with hrow | heq
      · exact h.deleted hrow ⟨task, htask.1, rfl⟩
      · cases heq
        simp at htask
  | @deleteResults taskId =>
      -- the task of a row that goes is gone already
      have hgone := h.deleted (List.mem_of_getElem? hpc)
      refine h.keep nofun htask ?_ fun id hrow => h.deleted (hrow.resolve_right nofun)
      intro row hrow hhas
      have hne : row.taskId ≠ taskId := fun heq => hgone (heq ▸ hhas)
      rw [Database.removeResults_results, List.mem_filter]
      exact ⟨hrow, by simpa using hne⟩
  | insert => exact absurd rfl (hfound _ _)
  | clash => exact absurd rfl (hfound _ _)
  | complete => exact absurd rfl (hrunning _ _ _)
  | find => exact h.idle nofun nofun
  | _ => exact h.idle nofun nofun

/-- **One event.** -/
theorem Tracks.step {t t' : Tracked} (h : Tracks t) {a : Event} (hfresh : Fresh t a)
    (hstep : t.next a = some t') : Tracks t' := by
  cases a with
  | arrive r =>
      cases hstep
      exact h.arrive r
  | turn i d =>
      obtain ⟨pc, hpc, hfinished, rfl⟩ := Tracked.next_turn hstep
      cases pc with
      | arrived r => exact h.turn_other hpc hfresh (by simp) (by simp) hfinished
      | inserted id => exact h.turn_other hpc hfresh (by simp) (by simp) hfinished
      | rowDeleted taskId => exact h.turn_other hpc hfresh (by simp) (by simp) hfinished
      | finished => exact absurd rfl hfinished
      | found taskId command =>
          have hengine : buildEngine.foreignKeys = false := rfl
          rcases createPendingResult_cases hengine d.now taskId d.id command t.system.database
            with ⟨-, db', hcreate, htasks, hresults⟩ | ⟨-, hcreate⟩
          · simp only [advance, recorded, Taskq.triggerRun, hcreate]
            exact h.insert (hfresh _ hpc rfl).1 htasks hresults
          · simp only [advance, recorded, Taskq.triggerRun, hcreate]
            exact h.idle (by simp) (by simp)
      | running taskId command runId =>
          cases hrun : TaskRunner.run d.host taskId command with
          | error e =>
              simp only [advance, recorded, executeAndPersist_error hrun, hrun]
              exact h.idle (by simp) (by simp)
          | ok r =>
              simp only [advance, recorded, hrun]
              exact h.complete hpc hrun

theorem tracks {db : Database} {t : Tracked} (h : ((trackedRuns db).restrict Fresh).Reachable t) :
    Tracks t := by
  refine h.invariant ?_ fun s a s' _ hs hstep => hs.step hstep.2 hstep.1
  intro s hs
  obtain rfl : s = _ := hs
  exact Tracks.init db

/-! ### When the rows show what was returned -/

/-- Of the runs whose task is there, none has completed with anything on stderr. -/
def SilentSoFar (t : Tracked) : Prop :=
  ∀ g ∈ t.triggers, t.system.database.HasTask g.taskId → ∀ r ∈ g.completion, r.stderrTail = ""

instance (t : Tracked) : Decidable (SilentSoFar t) :=
  inferInstanceAs (Decidable (∀ g ∈ t.triggers,
    t.system.database.HasTask g.taskId → ∀ r ∈ g.completion, r.stderrTail = ""))

/-- In a state that a run reaches, a lost stderr is all that can be wrong. -/
theorem Tracks.runsForward_iff {t : Tracked} (h : Tracks t) :
    RunsForward t ↔ SilentSoFar t := by
  have hrow : ∀ {g}, g ∈ t.triggers → t.system.database.HasTask g.taskId →
      ∃ row, t.system.database.results.filter (fun row => row.id = g.runId) = [row] ∧
        g.Left row := by
    intro g hg hhas
    obtain ⟨row, hrow, hid, hleft⟩ := h.rows g hg hhas
    exact ⟨row, Keyed.filter_eq_singleton t.system.database.result_ids hrow hid, hleft⟩
  refine ⟨?_, ?_⟩
  · intro hforward g hg hhas r hr
    obtain ⟨row, hone, -, -, hshown⟩ := hforward.owns g hg hhas
    obtain ⟨row', hone', -, -, hleft⟩ := hrow hg hhas
    rw [hone] at hone'
    cases hone'
    rw [Option.mem_def.mp hr] at hshown hleft
    exact hshown.2.symm.trans hleft.2
  · intro hsilent
    constructor
    case distinct => exact h.distinct
    case owns =>
      intro g hg hhas
      obtain ⟨row, hone, htaskId, hcommand, hleft⟩ := hrow hg hhas
      refine ⟨row, hone, htaskId, hcommand, ?_⟩
      cases hcompletion : g.completion with
      | none =>
          rw [hcompletion] at hleft
          exact hleft
      | some r =>
          rw [hcompletion] at hleft
          exact ⟨hleft.1, hleft.2.trans (hsilent g hg hhas r hcompletion).symm⟩
    case first =>
      intro taskId command runId hmem
      obtain ⟨i, hi⟩ := List.mem_iff_getElem?.mp hmem
      exact ⟨_, h.running hi, rfl, rfl, rfl, rfl⟩
    case alone =>
      intro taskId command runId _ host
      exact completesAlone host taskId command runId _

/-- Where a trigger comes from: it was there, is new, or has just been completed. -/
theorem mem_recorded {d : Draw} {pc : Pc} {db : Database} {triggers : List Trigger} {g : Trigger}
    (h : g ∈ recorded d pc db triggers) :
    g ∈ triggers ∨ g.completion = none ∨ ∃ taskId command runId r, ∃ g₀ ∈ triggers,
      pc = .running taskId command runId ∧ TaskRunner.run d.host taskId command = .ok r ∧
        g₀.runId = runId ∧ g = { g₀ with completion := some r } := by
  cases pc with
  | found taskId command =>
      simp only [recorded] at h
      split at h
      · exact Or.inl h
      · rcases List.mem_cons.mp h with rfl | h
        · exact Or.inr (Or.inl rfl)
        · exact Or.inl h
  | running taskId command runId =>
      simp only [recorded] at h
      split at h
      · exact Or.inl h
      next r hrun =>
        obtain ⟨g₀, hg₀, rfl⟩ := List.mem_map.mp h
        by_cases hid : g₀.runId = runId
        · exact Or.inr (Or.inr ⟨taskId, command, runId, r, g₀, hg₀, rfl, hrun, hid, if_pos hid⟩)
        · rw [Trigger.complete_of_ne hid]
          exact Or.inl hg₀
  | _ => exact Or.inl h

/-- A turn keeps to what is asked of stderr exactly when it completes no run against it. -/
theorem SilentSoFar.turn_iff {t : Tracked} (h : SilentSoFar t) (htracks : Tracks t) {i : ℕ}
    {d : Draw} {pc : Pc} (hpc : t.system.requests[i]? = some pc) (hfinished : pc ≠ .finished)
    (hfresh : Fresh t (.turn i d)) :
    SilentSoFar ⟨⟨(advance d pc t.system.database).2,
        t.system.requests.set i (advance d pc t.system.database).1⟩,
      recorded d pc t.system.database t.triggers⟩ ↔ pc.Silent d t.system.database := by
  refine ⟨?_, ?_⟩
  · intro hafter
    cases pc with
    | running taskId command runId =>
        intro hhas r hrun
        have hown := List.mem_map_of_mem (f := Trigger.complete runId r) (htracks.running hpc)
        rw [Trigger.complete, if_pos rfl] at hown
        refine hafter ⟨runId, taskId, command, some r⟩ ?_ ?_ r rfl
        · simp only [recorded, hrun]
          exact hown
        · exact (hasTask_congr (completesAlone d.host taskId command runId _).tasks).mpr hhas
    | _ => exact trivial
  · intro hsilent g hg hhas r hr
    rcases mem_recorded hg with
      hg | hnone | ⟨taskId, command, runId, r', g₀, hg₀, rfl, hrun, hid, rfl⟩
    · exact h g hg (hfresh.hasTask hpc hfinished hg hhas) r hr
    · rw [hnone] at hr
      cases hr
    · obtain rfl : r' = r := Option.some.inj hr
      -- the body is that of the trigger, so its task is there
      obtain rfl := List.inj_on_of_nodup_map htracks.distinct hg₀ (htracks.running hpc) hid
      exact hsilent (hfresh.hasTask hpc hfinished hg₀ hhas) r' hrun

theorem SilentSoFar.step_iff {t t' : Tracked} (h : SilentSoFar t) (htracks : Tracks t) {a : Event}
    (hfresh : Fresh t a) (hstep : t.next a = some t') : SilentSoFar t' ↔ Silent t a := by
  cases a with
  | arrive r =>
      cases hstep
      exact ⟨fun _ => trivial, fun _ => h⟩
  | turn i d =>
      obtain ⟨pc, hpc, hfinished, rfl⟩ := Tracked.next_turn hstep
      rw [h.turn_iff htracks hpc hfinished hfresh]
      refine ⟨?_, fun hsilent => hsilent pc hpc⟩
      intro hsilent pc' hpc'
      obtain rfl : pc = pc' := Option.some.inj (hpc.symm.trans hpc')
      exact hsilent

/-- **Runs go forward, each by itself, as long as none of them writes to stderr.** In a run of
the system whose completions all have an empty `stderr_tail`, those of deleted tasks apart,
every trigger has its one row and the row shows how far the run has come. The first
completion with anything on stderr ends that. -/
theorem runsForward_iff_silent (db : Database) :
    (∀ t, ((trackedRuns db).restrict fun t a => Fresh t a ∧ Silent t a).Reachable t →
        RunsForward t) ∧
      ∀ t a t', ((trackedRuns db).restrict Fresh).Reachable t → RunsForward t → Fresh t a →
        t.next a = some t' → (RunsForward t' ↔ Silent t a) := by
  refine ⟨?_, ?_⟩
  · intro t ht
    have hboth : Tracks t ∧ SilentSoFar t := by
      refine ht.invariant (I := fun t => Tracks t ∧ SilentSoFar t) ?_ ?_
      · intro s hs
        obtain rfl : s = _ := hs
        exact ⟨Tracks.init db, by simp [SilentSoFar]⟩
      · intro s a s' _ hs hstep
        obtain ⟨hnext, hfresh, hsilent⟩ := hstep
        exact ⟨hs.1.step hfresh hnext, (hs.2.step_iff hs.1 hfresh hnext).mpr hsilent⟩
    exact hboth.1.runsForward_iff.mpr hboth.2
  · intro t a t' ht hforward hfresh hnext
    have htracks := tracks ht
    rw [(htracks.step hfresh hnext).runsForward_iff]
    exact (htracks.runsForward_iff.mp hforward).step_iff htracks hfresh hnext

instance instDecidableReturns {ε α : Type} {p : α → Prop} [DecidablePred p] :
    (x : Except ε α) → Decidable (∀ a, x = .ok a → p a)
  | .error _ => isTrue nofun
  | .ok a => decidable_of_iff (p a) ⟨fun h _ heq => Except.ok.inj heq ▸ h, fun h => h a rfl⟩

instance (d : Draw) (db : Database) : (pc : Pc) → Decidable (pc.Silent d db)
  | .running taskId command _ =>
      inferInstanceAs (Decidable (db.HasTask taskId →
        ∀ r, TaskRunner.run d.host taskId command = .ok r → r.stderrTail = ""))
  | .arrived _ => isTrue trivial
  | .inserted _ => isTrue trivial
  | .found _ _ => isTrue trivial
  | .rowDeleted _ => isTrue trivial
  | .finished => isTrue trivial

instance (t : Tracked) : (a : Event) → Decidable (Silent t a)
  | .arrive _ => isTrue trivial
  | .turn i d =>
      inferInstanceAs (Decidable (∀ pc ∈ t.system.requests[i]?, pc.Silent d t.system.database))

/-- One run from its trigger to its end, on this machine. -/
def oneRun (host : Host) : List Event :=
  let d : Draw := { id := "r", now := TaskService.newYear, host := host }
  [.arrive (.triggerRun "t"), .turn 0 d, .turn 0 d, .turn 0 d]

theorem runsForward_iff_silent_quiet :
    ∃ t, ((trackedRuns oneTask).restrict fun t a => Fresh t a ∧ Silent t a).Reachable t ∧
      t.triggers.map (fun g => g.completion.map RunResult.terminal) = [some "done"] ∧
        RunsForward t := by
  have hrun : ((Lts.exec (fun t a => if Fresh t a ∧ Silent t a then Tracked.next t a else none)
      ⟨⟨oneTask, []⟩, []⟩ (oneRun quietHost)).map fun t =>
        decide (t.triggers.map (fun g => g.completion.map RunResult.terminal) = [some "done"]))
      = some true := by decide
  obtain ⟨t, ht, hend⟩ := Option.map_eq_some_iff.mp hrun
  have hreach : ((trackedRuns oneTask).restrict fun t a => Fresh t a ∧ Silent t a).Reachable t :=
    Lts.Reachable.exec_restrict (.init rfl) (oneRun quietHost) ht
  exact ⟨t, hreach, of_decide_eq_true hend, (runsForward_iff_silent oneTask).1 t hreach⟩

/-- A program that complains on stderr is run, and its row shows nothing of it. -/
theorem loudRun_shows_no_stderr :
    ¬ ∀ t, ((trackedRuns oneTask).restrict Fresh).Reachable t → RunsForward t := by
  intro h
  have hrun : ((Lts.exec (fun t a => if Fresh t a then Tracked.next t a else none)
      ⟨⟨oneTask, []⟩, []⟩ (oneRun loudHost)).map fun t => decide (SilentSoFar t))
      = some false := by decide
  obtain ⟨t, ht, hend⟩ := Option.map_eq_some_iff.mp hrun
  have hreach : ((trackedRuns oneTask).restrict Fresh).Reachable t :=
    Lts.Reachable.exec_restrict (.init rfl) (oneRun loudHost) ht
  exact of_decide_eq_false hend ((tracks hreach).runsForward_iff.mp (h t hreach))

end Taskq.Interleaving
