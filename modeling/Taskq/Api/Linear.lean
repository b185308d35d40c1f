import Taskq.Api.Interleaving
import Taskq.Lib.Linear

/-!
# Taskq.Api.Linear

What the clients of the task API see of each other.

Here a request is made at one time, runs its transactions at others, and is answered at
another still; between any two of these everybody else goes on. Of each request one
transaction counts for the tasks: the `INSERT` of `create_task`, the only one of `get_task`,
the `SELECT` of `trigger_run`, the first `DELETE` of `delete_task`. With the requests in the
order of these transactions the answers are those of the map of tasks, one request after
the other. That a run may be accepted for a task that is gone by the time its row is
inserted (`lateInsert`) does not show in the answers: the run comes before the delete. That
a task may be deleted before `create_task` has read it again does: the creation counts, and
is answered with 500.
-/

namespace Taskq.Sessions

open Transaction TaskRepository TaskApi Transition Linear
open Interleaving (Pc Draw Transacts advance advance_transacts)

/-! ### Requests and answers -/

/-- A request of the API. -/
inductive Call
  | get (taskId : String)
  | change (r : Interleaving.Request)

/-- An answer, as far as it is about the tasks. -/
inductive Answer
  | created (id : String)
  /-- `create_task` is answered with 500, though it has committed the row of this id, which
  the answer does not name. -/
  | lost (id : String)
  | found (task : Entry)
  | accepted
  | deleted
  | refused (status : ℕ)
  deriving DecidableEq

/-- The answer to what a handler raises. -/
def refusal : Raised → Answer
  | .problem p => .refused p.status
  | .unhandled _ => .refused 500

/-- The answer to what a handler returns or raises. -/
def answer {α : Type} (f : α → Answer) : Except Raised α → Answer
  | .ok a => f a
  | .error e => refusal e

/-- What `get_task` is answered. -/
def got (taskId : String) (db : Database) : Answer :=
  answer (fun t => .found { name := t.name, command := t.command })
    (TaskApi.getTask Faults.none taskId db).1

/-- What a request is answered after its next transaction, if its handler is done then. -/
def returned (d : Draw) : Pc → Database → Option Answer
  | .arrived (.createTask body), db =>
      match
        (TaskRepository.insert Faults.none (newTask d.id d.now body.name body.command) db).1 with
      | .error e => some (refusal (createRaised e))
      | .ok _ => none
  | .inserted id, db =>
      match (TaskRepository.refresh none id db).1 with
      | .error _ => some (.lost id)
      | .ok t => some (.created t.id)
  | .arrived (.triggerRun taskId), db =>
      match (TaskApi.getTask Faults.none taskId db).1 with
      | .error e => some (refusal e)
      | .ok _ => none
  | .found taskId command, db =>
      match (Taskq.triggerRun buildEngine Faults.none d.now taskId command d.id db).1 with
      | .error e => some (refusal (.unhandled (.storage e)))
      | .ok _ => some .accepted
  | .running _ _ _, _ => none
  | .arrived (.deleteTask taskId), db =>
      match (deleteTaskRow buildEngine Faults.none taskId db).1 with
      | .error e => some (refusal (.unhandled (.storage e)))
      | .ok _ => none
  | .rowDeleted taskId, db =>
      match (deleteResultsForTask Faults.none taskId db).1 with
      | .error e => some (refusal (.unhandled (.storage e)))
      | .ok _ => some .deleted
  | .finished, _ => none

/-- Where a request stands. -/
inductive Stage
  /-- `get_task`, before its transaction. -/
  | reading (taskId : String)
  | changing (pc : Pc)

/-- A request, what it has still to do, and what its handler has returned. -/
structure Session where
  call : Call
  stage : Stage
  answer : Option Answer
  replied : Bool

def Session.start : Call → Session
  | .get taskId => ⟨.get taskId, .reading taskId, none, false⟩
  | .change r => ⟨.change r, .changing (.arrived r), none, false⟩

structure Service where
  database : Database
  sessions : List Session
  history : List (Mark Call Answer)

inductive Event
  | invoke (call : Call)
  /-- Request `i` runs its next transaction. -/
  | turn (i : ℕ) (d : Draw)
  /-- The answer to request `i` reaches the client. -/
  | reply (i : ℕ)

/-- The next transaction of a request; `none` when it has none left. -/
def Session.advance (d : Draw) (x : Session) (db : Database) : Option (Session × Database) :=
  match x.stage with
  | .reading taskId =>
      some ({ x with stage := .changing .finished, answer := some (got taskId db) }, db)
  | .changing pc =>
      if pc = .finished then none
      else
        some
          ({ x with
              stage := .changing (Interleaving.advance d pc db).1
              answer := (returned d pc db).or x.answer },
            (Interleaving.advance d pc db).2)

/-- The state after an event; `none` when it cannot happen now. -/
def Service.next (s : Service) : Event → Option Service
  | .invoke call =>
      some
        { s with
          sessions := s.sessions ++ [Session.start call]
          history := s.history ++ [.invoke s.sessions.length call] }
  | .turn i d =>
      (s.sessions[i]?.bind fun x => x.advance d s.database).map fun out =>
        { s with database := out.2, sessions := s.sessions.set i out.1 }
  | .reply i =>
      match s.sessions[i]? with
      | some { call, stage, answer := some a, replied := false } =>
          some
            { s with
              sessions := s.sessions.set i ⟨call, stage, some a, true⟩
              history := s.history ++ [.respond i a] }
      | _ => none

/-- The runs from a database, before any request. -/
def services (db : Database) : Lts Service Event :=
  Lts.ofNext (· = { database := db, sessions := [], history := [] }) Service.next

/-- The id that `uuid4` gives the transaction is no task's and no run's. -/
def Fresh (s : Service) : Event → Prop
  | .turn _ d => ¬ s.database.HasTask d.id ∧ d.id ∉ s.database.results.map ResultRow.id
  | _ => True

instance (s : Service) : (a : Event) → Decidable (Fresh s a)
  | .turn _ d =>
      inferInstanceAs (Decidable (¬ s.database.HasTask d.id ∧
        d.id ∉ s.database.results.map ResultRow.id))
  | .invoke _ => isTrue trivial
  | .reply _ => isTrue trivial

/-! ### What one request does to the map of tasks -/

/-- The map of tasks, one request at a time. Deleting is answered alike whether the task is
there or not. -/
inductive Spec : TaskMap → Call → Answer → TaskMap → Prop
  | create {m : TaskMap} {body : TaskCreate} {id : String} (hid : ¬ m.Has id)
      (hfree : ¬ m.Taken body.name) :
      Spec m (.change (.createTask body)) (.created id)
        (m.insert id { name := body.name, command := body.command } hfree)
  | lost {m : TaskMap} {body : TaskCreate} {id : String} (hid : ¬ m.Has id)
      (hfree : ¬ m.Taken body.name) :
      Spec m (.change (.createTask body)) (.lost id)
        (m.insert id { name := body.name, command := body.command } hfree)
  | conflict {m : TaskMap} {body : TaskCreate} (htaken : m.Taken body.name) :
      Spec m (.change (.createTask body)) (.refused 409) m
  | get {m : TaskMap} {taskId : String} {task : Entry} (htask : m.entry taskId = some task) :
      Spec m (.get taskId) (.found task) m
  | getMissing {m : TaskMap} {taskId : String} (htask : ¬ m.Has taskId) :
      Spec m (.get taskId) (.refused 404) m
  | run {m : TaskMap} {taskId : String} (htask : m.Has taskId) :
      Spec m (.change (.triggerRun taskId)) .accepted m
  | runMissing {m : TaskMap} {taskId : String} (htask : ¬ m.Has taskId) :
      Spec m (.change (.triggerRun taskId)) (.refused 404) m
  | delete {m : TaskMap} {taskId : String} :
      Spec m (.change (.deleteTask taskId)) .deleted (m.erase taskId)

/-- A creation that was lost did what one that is answered does. -/
theorem Spec.lost_of_created {m m' : TaskMap} {call : Call} {id : String}
    (h : Spec m call (.created id) m') : Spec m call (.lost id) m' := by
  cases h with
  | create hid hfree => exact .lost hid hfree

theorem Spec.has_created {m m' : TaskMap} {call : Call} {id : String}
    (h : Spec m call (.created id) m') : m'.Has id := by
  cases h with
  | create hid hfree => exact ⟨_, if_pos rfl⟩

/-- Only a deletion takes a task away. -/
theorem Spec.deletes {m m' : TaskMap} {call : Call} {a : Answer} {id : String}
    (h : Spec m call a m') (hhas : m.Has id) (hgone : ¬ m'.Has id) :
    call = .change (.deleteTask id) := by
  obtain ⟨v, hv⟩ := hhas
  have hinsert : ∀ {j : String} {w : Entry} (hfree : ¬ m.Taken w.name), ¬ m.Has j →
      (m.insert j w hfree).Has id := by
    intro j w hfree hj
    have hne : id ≠ j := fun heq => hj ⟨v, heq ▸ hv⟩
    refine ⟨v, ?_⟩
    rw [Registry.insert_entry, if_neg hne]
    exact hv
  cases h with
  | create hid hfree => exact absurd (hinsert hfree hid) hgone
  | lost hid hfree => exact absurd (hinsert hfree hid) hgone
  | @delete taskId =>
      by_cases heq : id = taskId
      · rw [heq]
      · refine absurd ⟨v, ?_⟩ hgone
        rw [Registry.erase_entry, if_neg heq]
        exact hv
  | _ => exact absurd ⟨v, hv⟩ hgone

/-- The task with this id is deleted after the entry. -/
def DeletedAfter (order : List (Linear.Entry Call Answer)) (e : Linear.Entry Call Answer)
    (id : String) : Prop :=
  ∃ e', e'.call = .change (.deleteTask id) ∧ [e, e'].Sublist order

theorem DeletedAfter.concat {order : List (Linear.Entry Call Answer)}
    {e : Linear.Entry Call Answer} {id : String} (h : DeletedAfter order e id)
    (f : Linear.Entry Call Answer) : DeletedAfter (order ++ [f]) e id := by
  obtain ⟨e', hcall, hpair⟩ := h
  exact ⟨e', hcall, hpair.trans (List.sublist_append_left _ _)⟩

theorem DeletedAfter.amend {order : List (Linear.Entry Call Answer)}
    {e : Linear.Entry Call Answer} {id : String} (h : DeletedAfter order e id) (i : ℕ)
    (a : Answer) : DeletedAfter (order.map (Linear.Entry.amend i a)) (e.amend i a) id := by
  obtain ⟨e', hcall, hpair⟩ := h
  exact ⟨e'.amend i a, by rw [Linear.Entry.amend_call, hcall], hpair.map _⟩

/-- What was created and is not there has been deleted since. -/
theorem deletedAfter_of_replays {m₀ m : TaskMap} {order : List (Linear.Entry Call Answer)}
    (h : Replays Spec m₀ order m) {e : Linear.Entry Call Answer} (he : e ∈ order) {id : String}
    (hcreated : e.answer = .created id) (hgone : ¬ m.Has id) : DeletedAfter order e id := by
  induction h with
  | nil => cases he
  | @snoc order s s' f _ hlast ih =>
      rcases List.mem_append.mp he with he | he
      · by_cases hhas : s.Has id
        · exact ⟨f, hlast.deletes hhas hgone, (List.singleton_sublist.mpr he).append (.refl [f])⟩
        · exact (ih he hhas).concat f
      · rw [← List.mem_singleton.mp he, hcreated] at hlast
        exact absurd hlast.has_created hgone

/-- The order explains what the clients have seen, and each creation that was lost is undone
in it. -/
structure Accounts (m₀ : TaskMap) (history : List (Mark Call Answer))
    (order : List (Linear.Entry Call Answer)) (m : TaskMap) : Prop where
  explains : Explains Spec m₀ history order m
  undone : ∀ e ∈ order, ∀ id, e.answer = .lost id → DeletedAfter order e id

section

variable {m₀ m m' : TaskMap} {history : List (Mark Call Answer)}
  {order : List (Linear.Entry Call Answer)}

theorem Accounts.nil : Accounts m₀ [] [] m₀ where
  explains := .nil
  undone := by simp

theorem Accounts.invoke (h : Accounts m₀ history order m) {i : ℕ}
    (hnew : ∀ call, .invoke i call ∉ history) (call : Call) :
    Accounts m₀ (history ++ [.invoke i call]) order m where
  explains := h.explains.invoke hnew call
  undone := h.undone

theorem Accounts.effect (h : Accounts m₀ history order m) {e : Linear.Entry Call Answer}
    (hmade : .invoke e.request e.call ∈ history)
    (hnew : e.request ∉ order.map Linear.Entry.request) (hkept : ∀ id, e.answer ≠ .lost id)
    (hspec : Spec m e.call e.answer m') : Accounts m₀ history (order ++ [e]) m' where
  explains := h.explains.effect hmade hnew hspec
  undone e' he' id hlost := by
    rcases List.mem_append.mp he' with he' | he'
    · exact (h.undone e' he' id hlost).concat e
    · rw [List.mem_singleton.mp he'] at hlost
      exact absurd hlost (hkept id)

theorem Accounts.respond (h : Accounts m₀ history order m) {e : Linear.Entry Call Answer}
    (he : e ∈ order) : Accounts m₀ (history ++ [.respond e.request e.answer]) order m where
  explains := h.explains.respond he
  undone := h.undone

/-- A creation is lost: its task is not there any more. -/
theorem Accounts.lose (h : Accounts m₀ history order m) {e : Linear.Entry Call Answer}
    (he : e ∈ order) (hopen : ∀ a, .respond e.request a ∉ history) {id : String}
    (hcreated : e.answer = .created id) (hgone : ¬ m.Has id) :
    Accounts m₀ history (order.map (Linear.Entry.amend e.request (.lost id))) m where
  explains := by
    refine h.explains.amend he hopen fun s s' hspec => ?_
    rw [hcreated] at hspec
    exact hspec.lost_of_created
  undone f hf j hlost := by
    obtain ⟨e₀, he₀, rfl⟩ := List.mem_map.mp hf
    by_cases hi : e₀.request = e.request
    · obtain rfl : e₀ = e := List.inj_on_of_nodup_map h.explains.once he₀ he hi
      rw [Linear.Entry.amend_of_eq rfl] at hlost
      cases hlost
      exact (deletedAfter_of_replays h.explains.legal he hcreated hgone).amend _ _
    · rw [Linear.Entry.amend_of_ne hi] at hlost
      exact (h.undone e₀ he₀ j hlost).amend _ _

end

/-! ### Where the requests stand -/

/-- Request `i` has taken effect, with this answer. -/
def InOrder (order : List (Entry Call Answer)) (i : ℕ) (call : Call) (a : Answer) : Prop :=
  (⟨i, call, a⟩ : Linear.Entry Call Answer) ∈ order

/-- A request is in the order from the transaction on that counts. -/
inductive Stands (order : List (Linear.Entry Call Answer)) (i : ℕ) : Session → Prop
  | start {call} (h : i ∉ order.map Linear.Entry.request) : Stands order i (Session.start call)
  | inserted {body id} (h : InOrder order i (.change (.createTask body)) (.created id)) :
      Stands order i ⟨.change (.createTask body), .changing (.inserted id), none, false⟩
  | found {taskId command} (h : InOrder order i (.change (.triggerRun taskId)) .accepted) :
      Stands order i
        ⟨.change (.triggerRun taskId), .changing (.found taskId command), none, false⟩
  | rowDeleted {taskId} (h : InOrder order i (.change (.deleteTask taskId)) .deleted) :
      Stands order i ⟨.change (.deleteTask taskId), .changing (.rowDeleted taskId), none, false⟩
  | running {call a b taskId command runId} (h : InOrder order i call a) :
      Stands order i ⟨call, .changing (.running taskId command runId), some a, b⟩
  | finished {call a b} (h : InOrder order i call a) :
      Stands order i ⟨call, .changing .finished, some a, b⟩

/-- The order differs in request `i` only. -/
def DiffersIn (i : ℕ) (order order' : List (Linear.Entry Call Answer)) : Prop :=
  ∀ e, e.request ≠ i → (e ∈ order' ↔ e ∈ order)

theorem DiffersIn.refl (i : ℕ) (order : List (Linear.Entry Call Answer)) :
    DiffersIn i order order :=
  fun _ _ => Iff.rfl

theorem DiffersIn.concat (order : List (Linear.Entry Call Answer)) (e : Linear.Entry Call Answer) :
    DiffersIn e.request order (order ++ [e]) := by
  intro f hf
  have hne : f ≠ e := fun heq => hf (heq ▸ rfl)
  simp [hne]

theorem DiffersIn.amend (order : List (Linear.Entry Call Answer)) (i : ℕ) (a : Answer) :
    DiffersIn i order (order.map (Linear.Entry.amend i a)) := by
  intro f hf
  rw [List.mem_map]
  refine ⟨?_, fun hmem => ⟨f, hmem, Linear.Entry.amend_of_ne hf a⟩⟩
  rintro ⟨e, he, rfl⟩
  rw [Linear.Entry.amend_request] at hf
  rw [Linear.Entry.amend_of_ne hf]
  exact he

theorem DiffersIn.mem {i : ℕ} {order order' : List (Linear.Entry Call Answer)}
    (h : DiffersIn i order order') {e : Linear.Entry Call Answer} (hne : e.request ≠ i)
    (he : e ∈ order) : e ∈ order' :=
  (h e hne).mpr he

theorem DiffersIn.not_mem {i j : ℕ} {order order' : List (Linear.Entry Call Answer)}
    (h : DiffersIn i order order') (hij : i ≠ j) (hj : j ∉ order.map Linear.Entry.request) :
    j ∉ order'.map Linear.Entry.request := by
  intro hmem
  obtain ⟨e, he, rfl⟩ := List.mem_map.mp hmem
  exact hj (List.mem_map.mpr ⟨e, (h e hij.symm).mp he, rfl⟩)

/-- The other requests stand where they stood. -/
theorem Stands.others {i j : ℕ} {order order' : List (Linear.Entry Call Answer)} {x : Session}
    (h : Stands order j x) (hothers : DiffersIn i order order') (hij : i ≠ j) :
    Stands order' j x := by
  cases h with
  | start h => exact .start (hothers.not_mem hij h)
  | inserted h => exact .inserted (hothers.mem hij.symm h)
  | found h => exact .found (hothers.mem hij.symm h)
  | rowDeleted h => exact .rowDeleted (hothers.mem hij.symm h)
  | running h => exact .running (hothers.mem hij.symm h)
  | finished h => exact .finished (hothers.mem hij.symm h)

/-! ### One transaction -/

section

variable {m₀ : TaskMap} {history : List (Mark Call Answer)}
  {order : List (Linear.Entry Call Answer)} {d : Draw} {i : ℕ} {db : Database}

/-- Request `i` has moved on, and is explained. -/
def Moved (m₀ : TaskMap) (history : List (Mark Call Answer))
    (order : List (Linear.Entry Call Answer)) (i : ℕ) (out : Session × Database) : Prop :=
  ∃ order', DiffersIn i order order' ∧ Accounts m₀ history order' (taskMap out.2) ∧
    Stands order' i out.1

/-- A transaction that counts. -/
theorem moved_of_spec (h : Accounts m₀ history order (taskMap db)) {call : Call}
    (hmade : .invoke i call ∈ history) (hnew : i ∉ order.map Linear.Entry.request) {a : Answer}
    {out : Session × Database} (hspec : Spec (taskMap db) call a (taskMap out.2))
    (hkept : ∀ id, a ≠ .lost id)
    (hstands : ∀ order', InOrder order' i call a → Stands order' i out.1) :
    Moved m₀ history order i out :=
  ⟨order ++ [⟨i, call, a⟩], .concat order ⟨i, call, a⟩, h.effect hmade hnew hkept hspec,
    hstands _ (List.mem_append_right _ (List.mem_singleton_self _))⟩

/-- A transaction that does not. -/
theorem moved_of_tasks (h : Accounts m₀ history order (taskMap db))
    {out : Session × Database} (htasks : out.2.tasks = db.tasks)
    (hstands : Stands order i out.1) : Moved m₀ history order i out := by
  refine ⟨order, .refl i order, ?_, hstands⟩
  rw [taskMap_congr htasks]
  exact h

/-- A task is shown as the map has it, and is missing where the map has none. -/
theorem spec_got (taskId : String) (db : Database) :
    Spec (taskMap db) (.get taskId) (got taskId db) (taskMap db) := by
  rcases get_cases taskId db with ⟨t, ht, rfl, hget⟩ | ⟨hnone, hget⟩
  · have hgot : got t.id db = .found (Entry.ofTask t) := by
      simp only [got, TaskApi.getTask, hget, answer]
      rfl
    rw [hgot]
    exact .get (taskMap_entry.mpr ⟨t, ht, rfl, rfl⟩)
  · have hgot : got taskId db = .refused 404 := by
      simp only [got, TaskApi.getTask, hget, answer, refusal, notFound]
    rw [hgot]
    exact .getMissing (has_taskMap.not.mpr hnone)

/-- A handler's first transaction is what counts. -/
theorem moved_start (h : Accounts m₀ history order (taskMap db)) {call : Call}
    (hmade : .invoke i call ∈ history) (hnew : i ∉ order.map Linear.Entry.request)
    (htask : ¬ db.HasTask d.id) {out : Session × Database}
    (hout : (Session.start call).advance d db = some out) : Moved m₀ history order i out := by
  cases call with
  | get taskId =>
      cases hout
      have hspec := spec_got taskId db
      refine moved_of_spec h hmade hnew hspec (fun id hlost => ?_) fun _ hmem => .finished hmem
      rw [hlost] at hspec
      cases hspec
  | change r =>
      cases r with
      | createTask body =>
          rcases insert_cases (newTask d.id d.now body.name body.command) db with
            ⟨hid, hname, db', hinsert, htasks, -⟩ | ⟨htaken, hinsert⟩
          · have hfree : ¬ (taskMap db).Taken body.name := taken_taskMap.not.mpr hname
            simp only [Session.advance, Session.start, Interleaving.advance, returned, hinsert,
              reduceCtorEq, if_false] at hout
            cases hout
            refine moved_of_spec (a := .created d.id) h hmade hnew ?_
              (fun _ hlost => by cases hlost) fun _ hmem => .inserted hmem
            rw [taskMap_insert htasks hid hfree]
            exact .create (has_taskMap.not.mpr htask) hfree
          · have hname : (taskMap db).Taken body.name := by
              by_contra hfree
              refine htaken ⟨fun hid => htask ?_, taken_taskMap.not.mp hfree⟩
              exact List.mem_map.mp hid
            simp only [Session.advance, Session.start, Interleaving.advance, returned, hinsert,
              reduceCtorEq, if_false, refusal, createRaised, conflict] at hout
            cases hout
            exact moved_of_spec h hmade hnew (.conflict hname)
              (fun _ hlost => by cases hlost) fun _ hmem => .finished hmem
      | triggerRun taskId =>
          rcases get_cases taskId db with ⟨t, ht, hid, hget⟩ | ⟨hnone, hget⟩
          · simp only [Session.advance, Session.start, Interleaving.advance, returned,
              TaskApi.getTask, hget, reduceCtorEq, if_false] at hout
            cases hout
            exact moved_of_spec h hmade hnew (.run (has_taskMap.mpr ⟨t, ht, hid⟩))
              (fun _ hlost => by cases hlost) fun _ hmem => .found hmem
          · simp only [Session.advance, Session.start, Interleaving.advance, returned,
              TaskApi.getTask, hget, reduceCtorEq, if_false, refusal, notFound] at hout
            cases hout
            exact moved_of_spec h hmade hnew (.runMissing (has_taskMap.not.mpr hnone))
              (fun _ hlost => by cases hlost) fun _ hmem => .finished hmem
      | deleteTask taskId =>
          have hrow : deleteTaskRow buildEngine Faults.none taskId db
              = (.ok (), db.removeTask taskId) := transaction_ok rfl
          simp only [Session.advance, Session.start, Interleaving.advance, returned, hrow,
            reduceCtorEq, if_false] at hout
          cases hout
          have hmap : taskMap (db.removeTask taskId) = (taskMap db).erase taskId :=
            taskMap_removeTask rfl
          refine moved_of_spec (a := .deleted) h hmade hnew ?_
            (fun _ hlost => by cases hlost) fun _ hmem => .rowDeleted hmem
          rw [hmap]
          exact .delete

/-- **One transaction of one request**, wherever it stands. -/
theorem Stands.moved {x : Session} (hx : Stands order i x)
    (h : Accounts m₀ history order (taskMap db)) (hmade : .invoke i x.call ∈ history)
    (hopen : x.answer = none → ∀ a, .respond i a ∉ history)
    (htask : ¬ db.HasTask d.id) (hresult : d.id ∉ db.results.map ResultRow.id)
    {out : Session × Database} (hout : x.advance d db = some out) :
    Moved m₀ history order i out := by
  cases hx with
  | @start call hnew =>
      have hcall : (Session.start call).call = call := by cases call <;> rfl
      rw [hcall] at hmade
      exact moved_start h hmade hnew htask hout
  | @inserted body id hmem =>
      by_cases hhas : db.HasTask id
      · obtain ⟨t, ht, rfl⟩ := hhas
        simp only [Session.advance, Interleaving.advance, returned, refresh_of_mem ht,
          reduceCtorEq, if_false] at hout
        cases hout
        exact moved_of_tasks h rfl (.finished hmem)
      · simp only [Session.advance, Interleaving.advance, returned, refresh_of_not_mem hhas,
          reduceCtorEq, if_false] at hout
        cases hout
        refine ⟨_, .amend order i (.lost id),
          h.lose hmem (hopen rfl) rfl (has_taskMap.not.mpr hhas), .finished ?_⟩
        exact List.mem_map.mpr ⟨_, hmem, Linear.Entry.amend_of_eq rfl _⟩
  | @found taskId command hmem =>
      have hengine : buildEngine.foreignKeys = false := rfl
      rcases TaskResultRepository.createPendingResult_cases hengine d.now taskId d.id command db
        with ⟨-, db', hcreate, htasks, -⟩ | ⟨htaken, -⟩
      · simp only [Session.advance, Interleaving.advance, returned, Taskq.triggerRun, hcreate,
          reduceCtorEq, if_false] at hout
        cases hout
        exact moved_of_tasks h htasks (.running hmem)
      · exact absurd htaken hresult
  | @rowDeleted taskId hmem =>
      have hresults : deleteResultsForTask Faults.none taskId db = (.ok _, db.removeResults taskId)
        := transaction_ok rfl
      simp only [Session.advance, Interleaving.advance, returned, hresults, reduceCtorEq, if_false]
        at hout
      cases hout
      exact moved_of_tasks h rfl (.finished hmem)
  | @running call a b taskId command runId hmem =>
      simp only [Session.advance, Interleaving.advance, returned, reduceCtorEq, if_false] at hout
      cases hout
      exact moved_of_tasks h (executeAndPersist_frame d.host Faults.none taskId command runId db).1
        (.finished hmem)
  | finished => simp [Session.advance] at hout

end

/-! ### Whole runs -/

/-- Every request was made, stands where the order says, and what the clients have seen is
accounted for. -/
structure Linearized (m₀ : TaskMap) (s : Service) (order : List (Linear.Entry Call Answer)) :
    Prop where
  accounts : Accounts m₀ s.history order (taskMap s.database)
  made : ∀ i x, s.sessions[i]? = some x → .invoke i x.call ∈ s.history
  known : ∀ i call, .invoke i call ∈ s.history → i < s.sessions.length
  told : ∀ i a, .respond i a ∈ s.history → ∃ x, s.sessions[i]? = some x ∧ x.answer ≠ none
  stands : ∀ i x, s.sessions[i]? = some x → Stands order i x

theorem Linearized.init (db : Database) :
    Linearized (taskMap db) { database := db, sessions := [], history := [] } [] where
  accounts := .nil
  made := by simp
  known := by simp
  told := by simp
  stands := by simp

theorem Linearized.invoke {m₀ : TaskMap} {s : Service} {order : List (Linear.Entry Call Answer)}
    (h : Linearized m₀ s order) (call : Call) :
    Linearized m₀
      { s with
        sessions := s.sessions ++ [Session.start call]
        history := s.history ++ [.invoke s.sessions.length call] } order := by
  have hnew : ∀ call, .invoke s.sessions.length call ∉ s.history :=
    fun call hmem => absurd (h.known _ call hmem) (lt_irrefl _)
  have hcases : ∀ {i x}, (s.sessions ++ [Session.start call])[i]? = some x →
      s.sessions[i]? = some x ∨ i = s.sessions.length ∧ x = Session.start call := by
    intro i x hx
    obtain ⟨hi, rfl⟩ := List.getElem?_eq_some_iff.mp hx
    rw [List.length_append, List.length_singleton] at hi
    by_cases hlt : i < s.sessions.length
    · rw [List.getElem_append_left hlt]
      exact Or.inl (List.getElem?_eq_getElem hlt)
    · obtain rfl : i = s.sessions.length := by omega
      exact Or.inr ⟨rfl, List.getElem_concat_length rfl _⟩
  constructor
  case accounts => exact h.accounts.invoke hnew call
  case made =>
    intro i x hx
    rcases hcases hx with hx | ⟨rfl, rfl⟩
    · exact List.mem_append_left _ (h.made i x hx)
    · have hcall : (Session.start call).call = call := by cases call <;> rfl
      rw [hcall]
      exact List.mem_append_right _ (List.mem_singleton_self _)
  case known =>
    intro i call' hmem
    rw [List.length_append]
    rcases List.mem_append.mp hmem with hmem | hmem
    · exact Nat.lt_add_right _ (h.known i call' hmem)
    · cases List.mem_singleton.mp hmem
      exact Nat.lt_succ_self _
  case told =>
    intro i a hmem
    rcases List.mem_append.mp hmem with hmem | hmem
    · obtain ⟨x, hx, ha⟩ := h.told i a hmem
      have hi := (List.getElem?_eq_some_iff.mp hx).1
      exact ⟨x, (List.getElem?_append_left hi).trans hx, ha⟩
    · cases List.mem_singleton.mp hmem
  case stands =>
    intro i x hx
    rcases hcases hx with hx | ⟨rfl, rfl⟩
    · exact h.stands i x hx
    · refine .start fun hmem => ?_
      obtain ⟨e, he, heq⟩ := List.mem_map.mp hmem
      exact hnew e.call (heq ▸ h.accounts.explains.made e he)

/-- Request `i` goes on, and the others stand where they stood. -/
theorem Linearized.set {m₀ : TaskMap} {s : Service} {order order' : List (Linear.Entry Call Answer)}
    (h : Linearized m₀ s order) {i : ℕ} {x y : Session} (hx : s.sessions[i]? = some x)
    (hcall : y.call = x.call) {db : Database} {history : List (Mark Call Answer)}
    (hhistory : ∀ j call, .invoke j call ∈ history ↔ .invoke j call ∈ s.history)
    (htold : ∀ j a, .respond j a ∈ history → .respond j a ∈ s.history ∨ j = i)
    (hanswer : ∀ a, .respond i a ∈ history → y.answer ≠ none)
    (hothers : DiffersIn i order order') (haccounts : Accounts m₀ history order' (taskMap db))
    (hstands : Stands order' i y) :
    Linearized m₀ { database := db, sessions := s.sessions.set i y, history := history }
      order' := by
  have hcases : ∀ {j z}, (s.sessions.set i y)[j]? = some z →
      i = j ∧ z = y ∨ i ≠ j ∧ s.sessions[j]? = some z := by
    intro j z hz
    by_cases hij : i = j
    · subst hij
      rw [List.getElem?_set_self (List.getElem?_eq_some_iff.mp hx).1] at hz
      exact Or.inl ⟨rfl, (Option.some.inj hz).symm⟩
    · rw [List.getElem?_set_ne hij] at hz
      exact Or.inr ⟨hij, hz⟩
  constructor
  case accounts => exact haccounts
  case made =>
    intro j z hz
    rw [hhistory]
    rcases hcases hz with ⟨rfl, rfl⟩ | ⟨-, hz⟩
    · rw [hcall]
      exact h.made i x hx
    · exact h.made j z hz
  case known =>
    intro j call hmem
    rw [List.length_set]
    exact h.known j call ((hhistory j call).mp hmem)
  case told =>
    intro j a hmem
    by_cases hij : i = j
    · subst hij
      exact ⟨y, List.getElem?_set_self (List.getElem?_eq_some_iff.mp hx).1, hanswer a hmem⟩
    · rcases htold j a hmem with hold | heq
      · obtain ⟨z, hz, ha⟩ := h.told j a hold
        exact ⟨z, (List.getElem?_set_ne hij).trans hz, ha⟩
      · exact absurd heq.symm hij
  case stands =>
    intro j z hz
    rcases hcases hz with ⟨rfl, rfl⟩ | ⟨hij, hz⟩
    · exact hstands
    · exact (h.stands j z hz).others hothers hij

/-- A transaction leaves the request what it is. -/
theorem Session.advance_call {d : Draw} {x : Session} {db : Database} {out : Session × Database}
    (h : x.advance d db = some out) : out.1.call = x.call := by
  unfold Session.advance at h
  split at h
  · cases h
    rfl
  · split_ifs at h
    cases h
    rfl

/-- What a handler has returned stays. -/
theorem Session.advance_answer {d : Draw} {x : Session} {db : Database} {out : Session × Database}
    (h : x.advance d db = some out) (ha : x.answer ≠ none) : out.1.answer ≠ none := by
  unfold Session.advance at h
  split at h
  · cases h
    exact nofun
  · split_ifs at h
    cases h
    intro hnone
    exact ha (Option.or_eq_none_iff.mp hnone).2

/-- What a handler has returned is in the order. -/
theorem Stands.of_answer {order : List (Linear.Entry Call Answer)} {i : ℕ} {x : Session}
    (h : Stands order i x) {a : Answer} (ha : x.answer = some a) :
    InOrder order i x.call a ∧ Stands order i ⟨x.call, x.stage, some a, true⟩ := by
  cases h with
  | @start call => cases call <;> cases ha
  | inserted => cases ha
  | found => cases ha
  | rowDeleted => cases ha
  | running hmem =>
      cases ha
      exact ⟨hmem, .running hmem⟩
  | finished hmem =>
      cases ha
      exact ⟨hmem, .finished hmem⟩

/-- **One event.** -/
theorem Linearized.step {m₀ : TaskMap} {s s' : Service} {order : List (Linear.Entry Call Answer)}
    (h : Linearized m₀ s order) {a : Event} (hfresh : Fresh s a) (hstep : s.next a = some s') :
    ∃ order', Linearized m₀ s' order' := by
  cases a with
  | invoke call =>
      cases hstep
      exact ⟨order, h.invoke call⟩
  | turn i d =>
      obtain ⟨out, hbind, rfl⟩ := Option.map_eq_some_iff.mp hstep
      obtain ⟨x, hx, hout⟩ := Option.bind_eq_some_iff.mp hbind
      obtain ⟨htask, hresult⟩ := hfresh
      have hanswer : ∀ a, .respond i a ∈ s.history → x.answer ≠ none := by
        intro a hmem
        obtain ⟨y, hy, ha⟩ := h.told i a hmem
        rw [hx] at hy
        cases hy
        exact ha
      obtain ⟨order', hothers, haccounts, hstands⟩ :=
        (h.stands i x hx).moved h.accounts (h.made i x hx)
          (fun hnone a hmem => hanswer a hmem hnone) htask hresult hout
      exact ⟨order', h.set hx (Session.advance_call hout) (fun _ _ => Iff.rfl) (fun _ _ => Or.inl)
        (fun a hmem => Session.advance_answer hout (hanswer a hmem)) hothers haccounts hstands⟩
  | reply i =>
      simp only [Service.next] at hstep
      split at hstep
      next call stage a hx =>
        cases hstep
        obtain ⟨hmem, hstands⟩ := (h.stands i _ hx).of_answer rfl
        refine ⟨order, h.set hx (y := ⟨call, stage, some a, true⟩) rfl ?_ ?_ (fun _ _ => nofun)
          (.refl i order) (h.accounts.respond hmem) hstands⟩
        · intro j call'
          simp
        · intro j b hmem
          rcases List.mem_append.mp hmem with hmem | hmem
          · exact Or.inl hmem
          · cases List.mem_singleton.mp hmem
            exact Or.inr rfl
      next => cases hstep

/-- **The task API is linearizable.** Whatever the clients have seen of requests that ran
at the same time, there is an order of the requests in which the map of tasks gives the
same answers to one after the other, and which puts no request before one that had been
answered when it was made; the map it ends with is that of the database. A creation that is
answered with 500 is one of them: it has its effect, and its task is deleted after it. -/
theorem linearizable (db : Database) {s : Service}
    (h : ((services db).restrict Fresh).Reachable s) :
    ∃ order, Accounts (taskMap db) s.history order (taskMap s.database) := by
  have hlinearized : ∃ order, Linearized (taskMap db) s order := by
    refine h.invariant (I := fun s => ∃ order, Linearized (taskMap db) s order) ?_ ?_
    · intro s hs
      obtain rfl : s = _ := hs
      exact ⟨[], Linearized.init db⟩
    · intro s a s' _ hs hstep
      obtain ⟨order, hs⟩ := hs
      exact hs.step hstep.2 hstep.1
  obtain ⟨order, hlinearized⟩ := hlinearized
  exact ⟨order, hlinearized.accounts⟩

/-- A task is created, found by another client and deleted, and only then read again. -/
def deletedEarly : List Event :=
  let d : Draw := { id := "n", now := TaskService.newYear, host := quietHost }
  let e : Draw := { id := "e", now := TaskService.newYear, host := quietHost }
  [.invoke (.change (.createTask backupBody)), .turn 0 d, .invoke (.get "n"), .turn 1 e, .reply 1,
    .invoke (.change (.deleteTask "n")), .turn 2 e, .turn 2 e, .reply 2, .turn 0 e, .reply 0]

theorem linearizable_deletedEarly :
    ∃ s, ((services Database.empty).restrict Fresh).Reachable s ∧
      s.history = [.invoke 0 (.change (.createTask backupBody)), .invoke 1 (.get "n"),
        .respond 1 (.found { name := "backup", command := "true" }),
        .invoke 2 (.change (.deleteTask "n")), .respond 2 .deleted, .respond 0 (.lost "n")] ∧
      ∃ order, Accounts (taskMap Database.empty) s.history order (taskMap s.database) := by
  have hrun : (Lts.exec (fun s a => if Fresh s a then Service.next s a else none)
      ⟨Database.empty, [], []⟩ deletedEarly).map Service.history
      = some [.invoke 0 (.change (.createTask backupBody)), .invoke 1 (.get "n"),
          .respond 1 (.found { name := "backup", command := "true" }),
          .invoke 2 (.change (.deleteTask "n")), .respond 2 .deleted, .respond 0 (.lost "n")] := rfl
  obtain ⟨s, hs, hhistory⟩ := Option.map_eq_some_iff.mp hrun
  have hreach : ((services Database.empty).restrict Fresh).Reachable s :=
    Lts.Reachable.exec_restrict (.init rfl) deletedEarly hs
  exact ⟨s, hreach, hhistory, linearizable Database.empty hreach⟩

end Taskq.Sessions
