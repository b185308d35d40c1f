import Taskq.Api.Tasks
import Taskq.Lib.Transition

/-!
# Taskq.Api.Interleaving

Requests at the same time, each taking its transactions one by one.

`delete_task` is two transactions, the task row first, and so is `create_task`, which reads
the row that it has inserted. `trigger_run` is two as well: it reads the task, and then
inserts a row under what it has read. A whole delete fits between the two, and what is
inserted then has no task (`lateInsert`). Where every insert finds the task still there, or
a delete of it that has not come to the results yet, no orphan is left when all requests are
done.
-/

namespace Taskq.Interleaving

open Transaction TaskRepository Transition

/-! ### The requests -/

inductive Request
  | createTask (body : TaskCreate)
  | triggerRun (taskId : String)
  | deleteTask (taskId : String)

/-- Where a request stands. -/
inductive Pc
  /-- None of its transactions has run. -/
  | arrived (r : Request)
  /-- `create` has committed the row, and is about to read it again. -/
  | inserted (id : String)
  /-- `trigger_run` has read the task. -/
  | found (taskId command : String)
  /-- `trigger_run` has answered; `_execute_and_persist` has not written yet. -/
  | running (taskId command runId : String)
  /-- `delete_task` has removed the task row. -/
  | rowDeleted (taskId : String)
  | finished

/-- What a transaction is given from outside: an id and a time, and how a run goes. -/
structure Draw where
  id : String
  now : DateTime
  host : Host

/-- The next transaction of a request. -/
def advance (d : Draw) : Pc → Database → Pc × Database
  | .arrived (.createTask body), db =>
      match TaskRepository.insert Faults.none (newTask d.id d.now body.name body.command) db with
      | (.error _, db') => (.finished, db')
      | (.ok _, db') => (.inserted d.id, db')
  | .inserted id, db => (.finished, (TaskRepository.refresh none id db).2)
  | .arrived (.triggerRun taskId), db =>
      match TaskRepository.get Faults.none taskId db with
      | (.error _, db') => (.finished, db')
      | (.ok task, db') => (.found taskId task.command, db')
  | .found taskId command, db =>
      match Taskq.triggerRun buildEngine Faults.none d.now taskId command d.id db with
      | (.error _, db') => (.finished, db')
      | (.ok runId, db') => (.running taskId command runId, db')
  | .running taskId command runId, db =>
      (.finished, (executeAndPersist d.host Faults.none taskId command runId db).2)
  | .arrived (.deleteTask taskId), db =>
      match deleteTaskRow buildEngine Faults.none taskId db with
      | (.error _, db') => (.finished, db')
      | (.ok _, db') => (.rowDeleted taskId, db')
  | .rowDeleted taskId, db => (.finished, (deleteResultsForTask Faults.none taskId db).2)
  | .finished, db => (.finished, db)

structure System where
  database : Database
  requests : List Pc

inductive Event
  | arrive (r : Request)
  /-- Request `i` runs its next transaction. -/
  | turn (i : ℕ) (d : Draw)

instance : (pc : Pc) → Decidable (pc = .finished)
  | .finished => isTrue rfl
  | .arrived _ => isFalse nofun
  | .inserted _ => isFalse nofun
  | .found _ _ => isFalse nofun
  | .running _ _ _ => isFalse nofun
  | .rowDeleted _ => isFalse nofun

/-- The state after an event; `none` when it cannot happen now. -/
def System.next (s : System) : Event → Option System
  | .arrive r => some { s with requests := s.requests ++ [.arrived r] }
  | .turn i d =>
      match s.requests[i]? with
      | none => none
      | some pc =>
          if pc = .finished then none
          else
            some
              { database := (advance d pc s.database).2
                requests := s.requests.set i (advance d pc s.database).1 }

/-- Every result row is one of a task. -/
def NoOrphans (db : Database) : Prop := ∀ r ∈ db.results, db.HasTask r.taskId

instance (db : Database) : Decidable (NoOrphans db) :=
  inferInstanceAs (Decidable (∀ r ∈ db.results, db.HasTask r.taskId))

/-- No request is in progress, in the background or otherwise. -/
def Idle (s : System) : Prop := ∀ pc ∈ s.requests, pc = .finished

instance (s : System) : Decidable (Idle s) :=
  inferInstanceAs (Decidable (∀ pc ∈ s.requests, pc = .finished))

/-- The runs from a database, with no request in progress yet. -/
def interleavings (db : Database) : Lts System Event :=
  Lts.ofNext (· = { database := db, requests := [] }) System.next

/-- The result rows of this task are still to be deleted by the request. -/
def Pc.Owes (taskId : String) : Pc → Prop
  | .arrived (.deleteTask id) => id = taskId
  | .rowDeleted id => id = taskId
  | _ => False

/-- Some request has the result rows of this task still to delete. -/
def Deleting (s : System) (taskId : String) : Prop := ∃ pc ∈ s.requests, pc.Owes taskId

/-- Where the event inserts a pending row, the task is still there, or its results are
still to be deleted. -/
def Timely (s : System) : Event → Prop
  | .arrive _ => True
  | .turn i _ =>
      ∀ taskId command, s.requests[i]? = some (.found taskId command) →
        s.database.HasTask taskId ∨ Deleting s taskId

/-! ### One transaction -/

/-- What one transaction of a request does. -/
inductive Transacts (d : Draw) (db : Database) : Pc → Pc × Database → Prop
  | create {body db'} (htasks : db'.tasks = newTask d.id d.now body.name body.command :: db.tasks)
      (hresults : db'.results = db.results) :
      Transacts d db (.arrived (.createTask body)) (.inserted d.id, db')
  | refresh {id} : Transacts d db (.inserted id) (.finished, db)
  | refuse {body} : Transacts d db (.arrived (.createTask body)) (.finished, db)
  | find {taskId command} :
      Transacts d db (.arrived (.triggerRun taskId)) (.found taskId command, db)
  | miss {taskId} : Transacts d db (.arrived (.triggerRun taskId)) (.finished, db)
  | insert {taskId command row db'} (hrow : row.taskId = taskId) (htasks : db'.tasks = db.tasks)
      (hresults : db'.results = row :: db.results) :
      Transacts d db (.found taskId command) (.running taskId command d.id, db')
  | clash {taskId command} (htaken : d.id ∈ db.results.map ResultRow.id) :
      Transacts d db (.found taskId command) (.finished, db)
  | complete {taskId command runId db'} (htasks : db'.tasks = db.tasks)
      (hresults : db'.results.map ResultRow.taskId = db.results.map ResultRow.taskId) :
      Transacts d db (.running taskId command runId) (.finished, db')
  | deleteRow {taskId} :
      Transacts d db (.arrived (.deleteTask taskId)) (.rowDeleted taskId, db.removeTask taskId)
  | deleteResults {taskId} :
      Transacts d db (.rowDeleted taskId) (.finished, db.removeResults taskId)

theorem advance_transacts (d : Draw) {pc : Pc} (hpc : pc ≠ .finished) (db : Database) :
    Transacts d db pc (advance d pc db) := by
  cases pc with
  | arrived r =>
      cases r with
      | createTask body =>
          rcases insert_cases (newTask d.id d.now body.name body.command) db with
            ⟨-, -, db', hinsert, htasks, hresults⟩ | ⟨-, hinsert⟩
          · simp only [advance, hinsert]
            exact .create htasks hresults
          · simp only [advance, hinsert]
            exact .refuse
      | triggerRun taskId =>
          rcases get_cases taskId db with ⟨t, -, -, hget⟩ | ⟨-, hget⟩
          · simp only [advance, hget]
            exact .find
          · simp only [advance, hget]
            exact .miss
      | deleteTask taskId => exact .deleteRow
  | inserted id =>
      rw [advance, refresh_database]
      exact .refresh
  | found taskId command =>
      have hengine : buildEngine.foreignKeys = false := rfl
      rcases TaskResultRepository.createPendingResult_cases hengine d.now taskId d.id command db
        with ⟨-, db', hcreate, htasks, hresults⟩ | ⟨htaken, hcreate⟩
      · simp only [advance, Taskq.triggerRun, hcreate]
        exact .insert rfl htasks hresults
      · simp only [advance, Taskq.triggerRun, hcreate]
        exact .clash htaken
  | running taskId command runId =>
      obtain ⟨htasks, hkeys⟩ := executeAndPersist_frame d.host Faults.none taskId command runId db
      have hresults := congrArg (List.map Prod.snd) hkeys
      rw [List.map_map, List.map_map] at hresults
      exact .complete htasks hresults
  | rowDeleted taskId => exact .deleteResults
  | finished => exact absurd rfl hpc

/-- What an event is. -/
theorem next_turn {s s' : System} {i : ℕ} {d : Draw} (h : s.next (.turn i d) = some s') :
    ∃ pc, s.requests[i]? = some pc ∧ pc ≠ .finished ∧
      s' = ⟨(advance d pc s.database).2, s.requests.set i (advance d pc s.database).1⟩ := by
  simp only [System.next] at h
  split at h
  next => cases h
  next pc hpc =>
    split_ifs at h with hfinished
    exact ⟨pc, hpc, hfinished, (Option.some.inj h).symm⟩

theorem next_turn_of {s : System} {i : ℕ} {pc : Pc} (d : Draw) (hpc : s.requests[i]? = some pc)
    (hfinished : pc ≠ .finished) :
    s.next (.turn i d) = some
      ⟨(advance d pc s.database).2, s.requests.set i (advance d pc s.database).1⟩ := by
  simp only [System.next, hpc, if_neg hfinished]

section

variable {d : Draw} {db : Database} {pc : Pc} {out : Pc × Database} {taskId : String}

theorem hasResult_congr {db db' : Database}
    (h : db'.results.map ResultRow.taskId = db.results.map ResultRow.taskId) :
    db'.HasResult taskId ↔ db.HasResult taskId := by
  have hmem : ∀ db : Database, db.HasResult taskId ↔ taskId ∈ db.results.map ResultRow.taskId :=
    fun db => List.mem_map.symm
  rw [hmem, hmem, h]

theorem hasTask_congr {db db' : Database} (h : db'.tasks = db.tasks) :
    db'.HasTask taskId ↔ db.HasTask taskId := by
  rw [Database.HasTask, h, Database.HasTask]

/-- A task stays, or a delete of it goes on to the results. -/
theorem Transacts.hasTask (h : Transacts d db pc out) (htask : db.HasTask taskId) :
    out.2.HasTask taskId ∨ out.1.Owes taskId := by
  cases h with
  | create htasks =>
      obtain ⟨t, ht, hid⟩ := htask
      refine Or.inl ⟨t, ?_, hid⟩
      rw [htasks]
      exact List.mem_cons_of_mem _ ht
  | @deleteRow id =>
      by_cases hid : id = taskId
      · exact Or.inr hid
      · obtain ⟨t, ht, rfl⟩ := htask
        refine Or.inl ⟨t, ?_, rfl⟩
        rw [Database.removeTask_tasks, List.mem_filter]
        exact ⟨ht, by simpa using fun h => hid h.symm⟩
  | insert _ htasks => exact Or.inl ((hasTask_congr htasks).mpr htask)
  | complete htasks => exact Or.inl ((hasTask_congr htasks).mpr htask)
  | _ => exact Or.inl htask

/-- A delete goes on owing the results until it deletes them. -/
theorem Transacts.owes (h : Transacts d db pc out) (howes : pc.Owes taskId) :
    out.1.Owes taskId ∨ pc = .rowDeleted taskId := by
  cases h with
  | deleteRow => exact Or.inl howes
  | deleteResults => exact Or.inr (congrArg Pc.rowDeleted howes)
  | _ => exact howes.elim

/-- Where a result row comes from. -/
theorem Transacts.hasResult (h : Transacts d db pc out) (hresult : out.2.HasResult taskId) :
    db.HasResult taskId ∧ pc ≠ .rowDeleted taskId ∨ ∃ command, pc = .found taskId command := by
  cases h with
  | create _ hresults =>
      exact Or.inl ⟨(hasResult_congr (congrArg _ hresults)).mp hresult, nofun⟩
  | complete _ hresults => exact Or.inl ⟨(hasResult_congr hresults).mp hresult, nofun⟩
  | @insert id command row db' hrow _ hresults =>
      obtain ⟨r, hr, rfl⟩ := hresult
      rw [hresults] at hr
      rcases List.mem_cons.mp hr with rfl | hr
      · rw [hrow]
        exact Or.inr ⟨command, rfl⟩
      · exact Or.inl ⟨⟨r, hr, rfl⟩, nofun⟩
  | @deleteResults id =>
      obtain ⟨r, hr, rfl⟩ := hresult
      rw [Database.removeResults_results, List.mem_filter] at hr
      obtain ⟨hr, hne⟩ := hr
      refine Or.inl ⟨⟨r, hr, rfl⟩, ?_⟩
      intro heq
      cases heq
      simp at hne
  | _ => exact Or.inl ⟨hresult, nofun⟩

/-- A result row stays, unless it is a delete of its task that runs. -/
theorem Transacts.hasResult_of (h : Transacts d db pc out) (hresult : db.HasResult taskId)
    (howes : ¬ pc.Owes taskId) : out.2.HasResult taskId := by
  cases h with
  | create _ hresults => exact (hasResult_congr (congrArg _ hresults)).mpr hresult
  | complete _ hresults => exact (hasResult_congr hresults).mpr hresult
  | insert _ _ hresults =>
      obtain ⟨r, hr, hid⟩ := hresult
      refine ⟨r, ?_, hid⟩
      rw [hresults]
      exact List.mem_cons_of_mem _ hr
  | deleteResults =>
      obtain ⟨r, hr, rfl⟩ := hresult
      refine ⟨r, ?_, rfl⟩
      rw [Database.removeResults_results, List.mem_filter]
      exact ⟨hr, by simpa using fun h => howes h.symm⟩
  | _ => exact hresult

/-- A task that was not there has been created just now. -/
theorem Transacts.hasTask_of (h : Transacts d db pc out) (htask : out.2.HasTask taskId) :
    db.HasTask taskId ∨ d.id = taskId ∧ ∃ body, pc = .arrived (.createTask body) := by
  cases h with
  | create htasks =>
      obtain ⟨t, ht, rfl⟩ := htask
      rw [htasks] at ht
      rcases List.mem_cons.mp ht with rfl | ht
      · exact Or.inr ⟨rfl, _, rfl⟩
      · exact Or.inl ⟨t, ht, rfl⟩
  | insert _ htasks => exact Or.inl ((hasTask_congr htasks).mp htask)
  | complete htasks => exact Or.inl ((hasTask_congr htasks).mp htask)
  | deleteRow =>
      obtain ⟨t, ht, hid⟩ := htask
      exact Or.inl ⟨t, List.mem_of_mem_filter ht, hid⟩
  | _ => exact Or.inl htask

theorem Transacts.owes_of (h : Transacts d db pc out) (howes : out.1.Owes taskId) :
    pc.Owes taskId := by
  cases h with
  | deleteRow => exact howes
  | _ => exact howes.elim

end

/-! ### Whole runs -/

theorem deleting_append {s : System} {taskId : String} (r : Request) (h : Deleting s taskId) :
    Deleting { s with requests := s.requests ++ [.arrived r] } taskId := by
  obtain ⟨pc, hpc, howes⟩ := h
  exact ⟨pc, List.mem_append_left _ hpc, howes⟩

/-- A delete that some request owes is still owed after a turn, unless the turn was its
last. -/
theorem deleting_set {s : System} {i : ℕ} {pc : Pc} {d : Draw} {taskId : String}
    (hpc : s.requests[i]? = some pc) (hfinished : pc ≠ .finished) (h : Deleting s taskId)
    (hrow : pc ≠ .rowDeleted taskId) :
    ∃ pc' ∈ s.requests.set i (advance d pc s.database).1, pc'.Owes taskId := by
  obtain ⟨other, hother, howes⟩ := h
  obtain ⟨hi, rfl⟩ := List.getElem?_eq_some_iff.mp hpc
  obtain ⟨j, hj⟩ := List.mem_iff_getElem?.mp hother
  by_cases hij : i = j
  · subst hij
    rw [hpc] at hj
    cases hj
    rcases (advance_transacts d hfinished s.database).owes howes with h | h
    · exact ⟨_, List.mem_set hi _, h⟩
    · exact absurd h hrow
  · refine ⟨other, List.mem_of_getElem? (i := j) ?_, howes⟩
    rw [List.getElem?_set_ne hij, hj]

/-- Every result has a task, or is still to be deleted. -/
def Covered (s : System) : Prop :=
  ∀ taskId, s.database.HasResult taskId → s.database.HasTask taskId ∨ Deleting s taskId

theorem Covered.step {s s' : System} {a : Event} (h : Covered s) (hstep : s.next a = some s')
    (htimely : Timely s a) : Covered s' := by
  intro taskId hresult
  cases a with
  | arrive r =>
      cases hstep
      rcases h taskId hresult with htask | hdeleting
      · exact Or.inl htask
      · exact Or.inr (deleting_append r hdeleting)
  | turn i d =>
      obtain ⟨pc, hpc, hfinished, rfl⟩ := next_turn hstep
      have htransacts := advance_transacts d hfinished s.database
      -- the row was covered before, or is inserted now and in time
      have hbefore : (s.database.HasTask taskId ∨ Deleting s taskId) ∧ pc ≠ .rowDeleted taskId := by
        rcases htransacts.hasResult hresult with ⟨hold, hrow⟩ | ⟨command, rfl⟩
        · exact ⟨h taskId hold, hrow⟩
        · exact ⟨htimely taskId command hpc, nofun⟩
      obtain ⟨htask | hdeleting, hrow⟩ := hbefore
      · rcases htransacts.hasTask htask with htask | howes
        · exact Or.inl htask
        · obtain ⟨hi, -⟩ := List.getElem?_eq_some_iff.mp hpc
          exact Or.inr ⟨_, List.mem_set hi _, howes⟩
      · exact Or.inr (deleting_set hpc hfinished hdeleting hrow)

theorem NoOrphans.iff {db : Database} :
    NoOrphans db ↔ ∀ taskId, db.HasResult taskId → db.HasTask taskId := by
  refine ⟨?_, ?_⟩
  · intro h taskId hresult
    obtain ⟨r, hr, rfl⟩ := hresult
    exact h r hr
  · intro h r hr
    exact h r.taskId ⟨r, hr, rfl⟩

/-- An idle system has nothing left to delete. -/
theorem Idle.not_deleting {s : System} (h : Idle s) (taskId : String) : ¬ Deleting s taskId := by
  intro hdeleting
  obtain ⟨pc, hpc, howes⟩ := hdeleting
  rw [h pc hpc] at howes
  exact howes

theorem noOrphans_of_timely {db : Database} (hdb : NoOrphans db) {s : System}
    (h : ((interleavings db).restrict Timely).Reachable s) (hidle : Idle s) :
    NoOrphans s.database := by
  have hcovered : Covered s := by
    refine h.invariant ?_ fun s a s' _ hs hstep => hs.step hstep.1 hstep.2
    rintro s rfl taskId hresult
    exact Or.inl (NoOrphans.iff.mp hdb taskId hresult)
  rw [NoOrphans.iff]
  intro taskId hresult
  exact (hcovered taskId hresult).resolve_right (hidle.not_deleting taskId)

/-- Results of this task are there, the task is not, and nobody is about to delete them. -/
structure Orphaned (taskId : String) (s : System) : Prop where
  result : s.database.HasResult taskId
  task : ¬ s.database.HasTask taskId
  deleting : ¬ Deleting s taskId

/-- An orphan stays one, as long as no request creates a task under its id. -/
theorem Orphaned.turn {taskId : String} {s s' : System} {i : ℕ} {d : Draw}
    (h : Orphaned taskId s) (hstep : s.next (.turn i d) = some s') (hid : d.id ≠ taskId) :
    Orphaned taskId s' := by
  obtain ⟨pc, hpc, hfinished, rfl⟩ := next_turn hstep
  have htransacts := advance_transacts d hfinished s.database
  have howes : ¬ pc.Owes taskId := fun howes => h.deleting ⟨pc, List.mem_of_getElem? hpc, howes⟩
  constructor
  case result => exact htransacts.hasResult_of h.result howes
  case task =>
    intro htask
    rcases htransacts.hasTask_of htask with htask | ⟨heq, -⟩
    · exact h.task htask
    · exact hid heq
  case deleting =>
    intro hdeleting
    obtain ⟨other, hother, hother'⟩ := hdeleting
    rcases List.mem_or_eq_of_mem_set hother with hmem | rfl
    · exact h.deleting ⟨other, hmem, hother'⟩
    · exact howes (htransacts.owes_of hother')

/-- How many transactions a request has left, at most. -/
def Pc.turnsLeft : Pc → ℕ
  | .arrived _ => 3
  | .inserted _ => 1
  | .found _ _ => 2
  | .running _ _ _ => 1
  | .rowDeleted _ => 1
  | .finished => 0

theorem Transacts.turnsLeft_lt {d : Draw} {db : Database} {pc : Pc} {out : Pc × Database}
    (h : Transacts d db pc out) : out.1.turnsLeft < pc.turnsLeft := by
  cases h <;> simp [Pc.turnsLeft]

/-- An orphan is still there when all requests are done. -/
theorem Orphaned.moves_to_idle (db : Database) {taskId : String} {s : System}
    (h : Orphaned taskId s) :
    ∃ s', Relation.ReflTransGen (interleavings db).Move s s' ∧ Idle s' ∧
      ¬ NoOrphans s'.database := by
  have hprogress : ∀ s, Orphaned taskId s → ¬ Idle s → ∃ a s', (interleavings db).step s a s' ∧
      Orphaned taskId s' ∧
        (s'.requests.map Pc.turnsLeft).sum < (s.requests.map Pc.turnsLeft).sum := by
    intro s hs hbusy
    obtain ⟨pc, hmem, hfinished⟩ : ∃ pc ∈ s.requests, pc ≠ .finished := by
      simpa [Idle] using hbusy
    obtain ⟨i, hpc⟩ := List.mem_iff_getElem?.mp hmem
    -- any draw will do that is not the id of the task
    let d : Draw := { id := taskId ++ "-", now := TaskService.newYear, host := quietHost }
    have hid : d.id ≠ taskId := by
      intro heq
      have hlength := congrArg String.length heq
      rw [String.length_append, show "-".length = 1 from rfl] at hlength
      omega
    have hstep := next_turn_of d hpc hfinished
    exact ⟨_, _, hstep, hs.turn hstep hid,
      Keyed.sum_map_set_lt (advance_transacts d hfinished s.database).turnsLeft_lt hpc⟩
  obtain ⟨s', hmoves, horphaned, hidle⟩ := Lts.moves_to_goal _ hprogress h
  refine ⟨s', hmoves, hidle, ?_⟩
  rw [NoOrphans.iff]
  exact fun hnone => horphaned.task (hnone taskId horphaned.result)

/-- An insert that comes too late makes an orphan. -/
theorem Orphaned.of_not_timely {s : System} {i : ℕ} {d : Draw} (h : ¬ Timely s (.turn i d))
    (hfresh : d.id ∉ s.database.results.map ResultRow.id) :
    ∃ s' taskId, s.next (.turn i d) = some s' ∧ Orphaned taskId s' := by
  simp only [Timely, not_forall, not_or] at h
  obtain ⟨taskId, command, hpc, htask, hdeleting⟩ := h
  have hfound : Pc.found taskId command ≠ .finished := nofun
  have htransacts := advance_transacts d hfound s.database
  refine ⟨_, taskId, next_turn_of d hpc hfound, ?_⟩
  generalize advance d (.found taskId command) s.database = out at htransacts
  cases htransacts with
  | clash htaken => exact absurd htaken hfresh
  | @insert _ _ row db' hrow htasks hresults =>
      constructor
      case result =>
        refine ⟨row, ?_, hrow⟩
        show row ∈ db'.results
        rw [hresults]
        exact List.mem_cons_self
      case task => exact (hasTask_congr htasks).not.mpr htask
      case deleting =>
        intro hafter
        obtain ⟨other, hother, howes⟩ := hafter
        rcases List.mem_or_eq_of_mem_set hother with hmem | rfl
        · exact hdeleting ⟨other, hmem, howes⟩
        · exact howes

/-- **No orphan is left behind if and only if no insert comes too late.** In a run in which
every pending row is inserted while its task is there, or while a delete of it has yet to
come to the results, no orphan is there when nothing is in progress. From a state in
which one is inserted later than that, under a key that is free, a state is reached in
which nothing is in progress and an orphan is there. -/
theorem noOrphans_iff_timely {db : Database} (hdb : NoOrphans db) :
    (∀ s, ((interleavings db).restrict Timely).Reachable s → Idle s → NoOrphans s.database) ∧
      ∀ s i d, (interleavings db).Reachable s → ¬ Timely s (.turn i d) →
        d.id ∉ s.database.results.map ResultRow.id →
        ∃ s', s.next (.turn i d) = some s' ∧
          ∃ t, Relation.ReflTransGen (interleavings db).Move s' t ∧ Idle t ∧
            ¬ NoOrphans t.database := by
  refine ⟨fun s => noOrphans_of_timely hdb, ?_⟩
  intro s i d _ hlate hfresh
  obtain ⟨s', taskId, hstep, horphaned⟩ := Orphaned.of_not_timely hlate hfresh
  exact ⟨s', hstep, horphaned.moves_to_idle db⟩

/-- One task without results. -/
def oneTask : Database := TaskService.oneResult.removeResults "t"

theorem noOrphans_iff_timely_oneTask :
    NoOrphans oneTask ∧
      (∀ s, ((interleavings oneTask).restrict Timely).Reachable s → Idle s →
        NoOrphans s.database) ∧
      ∀ s i d, (interleavings oneTask).Reachable s → ¬ Timely s (.turn i d) →
        d.id ∉ s.database.results.map ResultRow.id →
        ∃ s', s.next (.turn i d) = some s' ∧
          ∃ t, Relation.ReflTransGen (interleavings oneTask).Move s' t ∧ Idle t ∧
            ¬ NoOrphans t.database :=
  have hdb : NoOrphans oneTask := by decide
  ⟨hdb, noOrphans_iff_timely hdb⟩

/-- A run is triggered and reads the task; a delete runs as a whole; the run goes on. -/
def lateInsert : List Event :=
  let d : Draw := { id := "r", now := TaskService.newYear, host := quietHost }
  [.arrive (.triggerRun "t"), .turn 0 d, .arrive (.deleteTask "t"), .turn 1 d, .turn 1 d,
    .turn 0 d, .turn 0 d]

/-- It is left behind as an orphan. -/
theorem lateInsert_leaves_orphan :
    NoOrphans oneTask ∧
      ¬ ∀ s, (interleavings oneTask).Reachable s → Idle s → NoOrphans s.database := by
  refine ⟨by decide, ?_⟩
  intro h
  have hrun : ((Lts.exec System.next ⟨oneTask, []⟩ lateInsert).map
      fun s => decide (Idle s ∧ ¬ NoOrphans s.database)) = some true := by decide
  obtain ⟨s, hs, hend⟩ := Option.map_eq_some_iff.mp hrun
  obtain ⟨hidle, horphan⟩ := of_decide_eq_true hend
  have hreach : (interleavings oneTask).Reachable s := Lts.Reachable.exec (.init rfl) lateInsert hs
  exact horphan (h s hreach hidle)

end Taskq.Interleaving
