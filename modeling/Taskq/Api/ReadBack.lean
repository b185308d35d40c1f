import Taskq.Api.Access
import Taskq.Api.Rejected
import Taskq.Api.Served
import Taskq.Lib.Ledger

/-!
# Taskq.Api.ReadBack

What the answers of the service say of its tasks, over whole runs of a deployment.

Where exchanges are served one after another, a task is there once its creation is answered with
201, and gone once its deletion is answered with 200; no other answer changes anything, whatever
went wrong before it was given. The answers that leave a doubt are the 500 of a deletion and of a
creation, whose first transaction may have committed. So who has all the answers knows the tasks
(`tasks_as_answered`), and what a request is shown is what the answers before it said
(`reads_as_answered`).
-/

namespace Taskq.ReadBack

open Http Access TaskList Transaction Transition
open TaskApi (Entry taskMap taskMap_entry has_taskMap taskMap_congr taskMap_removeTask)

/-! ### Answers -/

/-- A request, with what came back. -/
structure Answered where
  exchange : Exchange
  response : Option Response

/-- The entry that an item of the API shows. -/
def entryOf (d : TaskDict) : Entry where
  name := d.name
  command := d.command

/-- What an answer means for the task under an id. -/
def meaning : Ledger.Meaning String Entry Answered := fun a id old =>
  match route a.exchange.arrival.request, a.response with
  | .ok .createTask, some r =>
      match r.body with
      | .reply (.task d) => if r.status = 201 ∧ d.id = id then some (entryOf d) else old
      | _ => old
  | .ok (.deleteTask taskId), some r => if r.status = 200 ∧ taskId = id then none else old
  | _, _ => old

theorem overwrites_meaning : Ledger.Overwrites meaning := by
  intro a id
  unfold meaning
  split
  · split
    · split_ifs
      · exact Or.inr fun _ => rfl
      · exact Or.inl fun _ => rfl
    · exact Or.inl fun _ => rfl
  · split_ifs
    · exact Or.inr fun _ => rfl
    · exact Or.inl fun _ => rfl
  · exact Or.inl fun _ => rfl

/-- A delete of this task that was answered with 500. -/
def FailedDelete (a : Answered) (id : String) : Prop :=
  route a.exchange.arrival.request = .ok (.deleteTask id) ∧
    ∃ r, a.response = some r ∧ r.status = 500

/-- A creation of this task that was answered with 500. The id is the one that was drawn, which
the answer does not name. -/
def FailedCreate (a : Answered) (id : String) (v : Entry) : Prop :=
  route a.exchange.arrival.request = .ok .createTask ∧ a.exchange.draw.id = id ∧
    (∃ decoded body, readPayload .createTask a.exchange.payload = .ok decoded ∧
      taskCreate decoded = .ok body ∧ v = { name := body.name, command := body.command }) ∧
    ∃ r, a.response = some r ∧ r.status = 500

/-- What an answer leaves in doubt: the task may be gone, or there. -/
inductive Doubtful (a : Answered) (id : String) : Option Entry → Prop
  | gone (h : FailedDelete a id) : Doubtful a id none
  | stored {v} (h : FailedCreate a id v) : Doubtful a id (some v)

theorem doubtful_none {a : Answered} {id : String} (h : Doubtful a id none) :
    FailedDelete a id := by
  cases h with
  | gone h => exact h

theorem doubtful_some {a : Answered} {id : String} {v : Entry} (h : Doubtful a id (some v)) :
    FailedCreate a id v := by
  cases h with
  | stored h => exact h

/-- The items of a reply. -/
def items : Reply → List TaskDict
  | .task d => [d]
  | .tasks ds _ => ds
  | _ => []

/-- The items that a response shows. -/
def shown (r : Response) : List TaskDict :=
  match r.body with
  | .reply reply => items reply
  | _ => []

/-- The task that a request needs to be there. -/
def subject? : Operation → Option String
  | .getTask taskId => some taskId
  | .triggerRun taskId => some taskId
  | _ => none

/-- The entries of a database. -/
def entries (db : Database) : String → Option Entry := (taskMap db).entry

/-! ### The handlers, with whatever goes wrong in their sessions -/

section Handlers

variable {db : Database}

theorem entries_congr {db' : Database} (h : db'.tasks = db.tasks) : entries db' = entries db := by
  rw [entries, taskMap_congr h, entries]

theorem entries_cons {db' : Database} {t : Task} (h : db'.tasks = t :: db.tasks) (id : String) :
    entries db' id = if t.id = id then some (entryOf (taskToDict t)) else entries db id := by
  show (db'.findTask? id).map Entry.ofTask = _
  rw [Database.findTask?, h, List.find?_cons]
  by_cases hid : t.id = id
  · simp only [hid, decide_true, if_true]
    rfl
  · simp only [hid, decide_false, if_false]
    rfl

theorem entries_of_mem {t : Task} (h : t ∈ db.tasks) :
    entries db t.id = some (entryOf (taskToDict t)) :=
  taskMap_entry.mpr ⟨t, h, rfl, rfl⟩

theorem entries_of_not {id : String} (h : ¬ db.HasTask id) : entries db id = none := by
  rw [← has_taskMap] at h
  exact Option.eq_none_iff_forall_ne_some.mpr fun v hv => h ⟨v, hv⟩

section Handled

variable {α : Type} {reply : α → Reply} {call : Call Database TaskApi.Raised α} {db' : Database}

theorem handled_ok {a : α} (h : call db = (.ok a, db')) :
    handled reply call db = (.ok (reply a), db') := by
  simp only [handled, h]

theorem handled_unhandled {e : TaskRepository.TaskError}
    (h : call db = (.error (.unhandled e), db')) :
    handled reply call db = (.error .other, db') := by
  simp only [handled, h]

theorem handled_problem {p : TaskApi.Problem} (h : call db = (.error (.problem p), db')) :
    handled reply call db = (.error (.problem (.raised p [])), db') := by
  simp only [handled, h]

theorem handled_eq_ok {r : Reply} (h : handled reply call db = (.ok r, db')) :
    ∃ a, call db = (.ok a, db') ∧ reply a = r := by
  rcases hcall : call db with ⟨(p | e) | a, db''⟩
  · simp only [handled, hcall] at h
    cases h
  · simp only [handled, hcall] at h
    cases h
  · simp only [handled, hcall] at h
    cases h
    exact ⟨a, rfl, rfl⟩

theorem handled_eq_error {e : Http.Raised} (h : handled reply call db = (.error e, db')) :
    (∃ p, call db = (.error (.problem p), db') ∧ e = .problem (.raised p [])) ∨
      ∃ e', call db = (.error (.unhandled e'), db') ∧ e = .other := by
  rcases hcall : call db with ⟨(p | e) | a, db''⟩
  · simp only [handled, hcall] at h
    cases h
    exact Or.inl ⟨p, rfl, rfl⟩
  · simp only [handled, hcall] at h
    cases h
    exact Or.inr ⟨e, rfl, rfl⟩
  · simp only [handled, hcall] at h
    cases h

end Handled

/-- Only creating and deleting change the tasks. -/
theorem touches_tasks {op : Operation} {db' : Database} (h : Touches db op db')
    (hcreate : op ≠ .createTask) (hdelete : ∀ taskId, op ≠ .deleteTask taskId) :
    db'.tasks = db.tasks := by
  cases h with
  | nothing => rfl
  | create => exact absurd rfl hcreate
  | trigger htasks => exact htasks
  | deleteRow => exact absurd rfl (hdelete _)
  | delete => exact absurd rfl (hdelete _)

theorem entries_removeTask {db' : Database} {taskId : String}
    (h : db'.tasks = (db.removeTask taskId).tasks) (id : String) :
    entries db' id = if id = taskId then none else entries db id := by
  rw [entries, taskMap_removeTask h, Registry.erase_entry]
  rfl

/-- Everything a page shows is a task. -/
theorem listTasks_items {site : Site} {draw : Http.Draw} {query : Query} {items : List TaskDict}
    {next : Option Unicode.PyStr} (h : (listTasks site draw query db).1 = .ok (.tasks items next)) :
    ∀ d ∈ items, ∃ t ∈ db.tasks, d = taskToDict t := by
  unfold listTasks at h
  split at h
  next => cases h
  next limit hlimit =>
      split_ifs at h with hhigh
      split at h
      next => cases h
      next items' next' hlist =>
          cases h
          have hlow : 1 ≤ limit := by
            unfold readLimit at hlimit
            split at hlimit
            · cases hlimit
              decide
            · split_ifs at hlimit
              cases hlimit
              assumption
            · cases hlimit
            · cases hlimit
          cases hp : position query.cursor with
          | error e =>
              unfold TaskList.list at hlist
              simp only [if_neg (not_lt.mpr hlow), if_neg hhigh, hp] at hlist
              cases hlist
          | ok p =>
              rw [list_of_position site.realText hlow (not_lt.mp hhigh) hp] at hlist
              cases hlist
              intro d hd
              obtain ⟨t, ht, rfl⟩ := List.mem_map.mp hd
              have hselect : t ∈ select site.realText db query.status p :=
                List.mem_of_mem_take ht
              rw [select_eq_filter] at hselect
              exact ⟨t, mem_tasks_of_matching (List.mem_of_mem_filter hselect), rfl⟩

end Handlers

/-! ### One exchange -/

section Exchange

variable {site : Site} {t : APIKeyTable} {scan : t.Scan} {app : App} {x : Exchange}

/-- The status that an exception stands for. -/
def code : Http.Raised → ℕ
  | .problem p => p.status
  | .validation _ => 422
  | .http status _ => status
  | .other => 500

/-- The response is none of a handler's own, and its status is this one or 500. -/
def Refuses (status : ℕ) (response : Option Response) : Prop :=
  ∀ r, response = some r → (∀ reply, r.body ≠ .reply reply) ∧ (r.status = status ∨ r.status = 500)

theorem refuses_jsonResponse {status : ℕ} {body : Body} {mediaType : List Char}
    {headers : List (List Unicode.Byte × List Char)} (hbody : ∀ reply, body ≠ .reply reply) :
    Refuses status (jsonResponse status body mediaType headers) := by
  intro r hr
  unfold jsonResponse at hr
  split_ifs at hr
  cases hr
  exact ⟨hbody, Or.inl rfl⟩

theorem refuses_exceptionHandler (scope : Scope) (e : Http.Raised) :
    Refuses (code e) (exceptionHandler scope e) := by
  cases e with
  | problem p => exact refuses_jsonResponse fun _ h => by cases h
  | validation errors => exact refuses_jsonResponse fun _ h => by cases h
  | http status detail => exact refuses_jsonResponse fun _ h => by cases h
  | other => exact fun r hr => by cases hr

/-- What is raised is answered with its status, or as the last resort is. -/
theorem refuses_raised (x : Exchange) (e : Http.Raised) :
    Refuses (code e) (x.answer (exceptionHandler x.scope e)) := by
  intro r hr
  cases hinner : exceptionHandler x.scope e with
  | none =>
      rw [hinner] at hr
      have hlast : Refuses 500 (problemResponse x.scope internalServerError) :=
        refuses_jsonResponse fun _ h => by cases h
      obtain ⟨hbody, hstatus⟩ := hlast r hr
      exact ⟨hbody, Or.inr (hstatus.elim id id)⟩
  | some inner =>
      rw [hinner] at hr
      cases hr
      exact refuses_exceptionHandler x.scope e inner hinner

/-- The statuses of a request that has a handler and does not get to it. -/
def stopCodes : List ℕ := [400, 401, 403, 422, 429]

/-- What a request comes to: it is stopped on its way to a handler, and nothing is done, or a
handler returns or raises. -/
inductive Comes (site : Site) (app : App) (x : Exchange) : Option Response → Database → Prop
  | stopped {status response} (hrefuses : Refuses status response)
      (hstatus : ∀ op, route x.arrival.request = .ok op → status ∈ stopCodes) :
      Comes site app x response app.db
  | handled {op decoded out db'} (hroute : route x.arrival.request = .ok op)
      (hhandle : handle site x.draw decoded x.query (app.metered x).limiter.rejections op app.db =
        (out, db')) (hpayload : readPayload op x.payload = .ok decoded) :
      Comes site app x (x.answer (outcomeResponse x.scope op out)) db'

theorem code_readPayload {op : Operation} {payload : Payload} {e : Http.Raised}
    (h : readPayload op payload = .error e) : code e ∈ [400, 422] := by
  rcases readPayload_cases op payload with ⟨-, ⟨decoded, hpayload⟩ | ⟨errors, hpayload⟩⟩ |
    ⟨-, hpayload⟩
  · rw [hpayload] at h
    cases h
  · rw [hpayload] at h
    cases h
    show 422 ∈ [400, 422]
    decide
  · rw [hpayload] at h
    cases h
    decide

theorem code_authorize {key : Option Unicode.PyStr} {dependencies : List Unicode.PyStr}
    {e : Http.Raised} (h : authorize site scan key dependencies = .error e) :
    code e ∈ [401, 403] := by
  induction dependencies with
  | nil => cases h
  | cons required rest ih =>
      rw [authorize] at h
      split at h
      next e' hfirst =>
          cases h
          unfold requireScope at hfirst
          split at hfirst
          · cases hfirst
            decide
          · cases hfirst
            decide
          · cases hfirst
      next => exact ih h

theorem serve_comes (site : Site) (scan : t.Scan) (app : App) (x : Exchange) :
    Comes site app x (serve site scan app x).response (serve site scan app x).app.db := by
  cases hverdict : (RateLimit.dispatch app.limiter x.arrival).1 with
  | rejected retryAfter =>
      have hserve : _ ∧ (serve site scan app x).app = app.metered x := serve_rejected hverdict
      rw [hserve.1, hserve.2]
      have hlimited : Refuses 429 (some (sendWrapper x.cid (limitAnswer x.scope retryAfter))) := by
        intro r hr
        cases hr
        refine ⟨fun reply h => ?_, Or.inl rfl⟩
        cases h
      exact .stopped hlimited fun _ _ => by decide
  | passed =>
      have hserve : _ ∧ (serve site scan app x).app = _ := serve_passed hverdict
      cases hroute : route x.arrival.request with
      | error e =>
          rw [routes_unrouted hroute] at hserve
          rw [hserve.1, hserve.2]
          refine .stopped (refuses_raised x e) fun op hop => ?_
          rw [hroute] at hop
          cases hop
      | ok op =>
          rw [routes_routed hroute] at hserve
          rw [hserve.1, hserve.2]
          cases hpayload : readPayload op x.payload with
          | error e =>
              have hout : outcome site scan app x op = (.error e, app.db) := by
                simp only [outcome, endpoint, hpayload]
              rw [hout]
              exact .stopped (refuses_raised x e) fun _ _ =>
                List.Sublist.subset (by decide) (code_readPayload hpayload)
          | ok decoded =>
              cases hauth : authorize site scan (apiKey x.arrival.request) op.dependencies with
              | error e =>
                  have hout : outcome site scan app x op = (.error e, app.db) := by
                    simp only [outcome, endpoint, hpayload, hauth]
                  rw [hout]
                  exact .stopped (refuses_raised x e) fun _ _ =>
                    List.Sublist.subset (by decide) (code_authorize hauth)
              | ok u =>
                  have hout : outcome site scan app x op = _ := outcome_authorized hpayload hauth
                  rw [hout]
                  exact .handled hroute rfl hpayload

/-- What a handler returns is shown as it is. -/
theorem answer_ok {op : Operation} {reply : Reply} {r : Response}
    (h : x.answer (outcomeResponse x.scope op (.ok reply)) = some r) :
    r.body = .reply reply ∧ r.status = op.success := by
  cases h
  exact ⟨rfl, rfl⟩

theorem meaning_refuses {status : ℕ} {response : Option Response}
    (h : Refuses status response) (hstatus : status ≠ 200) (id : String) (old : Option Entry) :
    meaning ⟨x, response⟩ id old = old := by
  unfold meaning
  split
  next r hroute hr =>
      have hbody := (h r hr).1
      split
      next d hd => exact absurd hd (hbody _)
      next => rfl
  next taskId r hroute hr =>
      have hr200 : r.status ≠ 200 := by
        rcases (h r hr).2 with hstatus' | h500
        · omega
        · omega
      rw [if_neg fun hboth => hr200 hboth.1]
  next => rfl

/-- What is raised leaves what was known. -/
theorem learn_raised {e : Http.Raised} (h : code e ≠ 200) (op : Operation)
    (view : String → Option Entry) (id : String) :
    Ledger.learn meaning view ⟨x, x.answer (outcomeResponse x.scope op (.error e))⟩ id = view id :=
  meaning_refuses (refuses_raised x e) h id _

/-- What an answer means where no task is created or deleted. -/
theorem meaning_other {op : Operation} {response : Option Response}
    (hroute : route x.arrival.request = .ok op) (hcreate : op ≠ .createTask)
    (hdelete : ∀ taskId, op ≠ .deleteTask taskId) (id : String) (old : Option Entry) :
    meaning ⟨x, response⟩ id old = old := by
  unfold meaning
  split
  next r hop hr =>
      rw [hroute] at hop
      cases hop
      exact absurd rfl hcreate
  next taskId r hop hr =>
      rw [hroute] at hop
      cases hop
      exact absurd rfl (hdelete taskId)
  next => rfl

/-- A handler that creates a task, or may have. -/
theorem createTask_tells {decoded : Decoded} {out : Except Http.Raised Reply} {db' : Database}
    (hroute : route x.arrival.request = .ok .createTask)
    (hhandle : handle site x.draw decoded x.query (app.metered x).limiter.rejections .createTask
      app.db = (out, db')) (hpayload : readPayload .createTask x.payload = .ok decoded)
    (id : String) :
    let a : Answered := ⟨x, x.answer (outcomeResponse x.scope .createTask out)⟩
    entries db' id = Ledger.learn meaning (entries app.db) a id ∨
      Doubtful a id (entries db' id) := by
  intro a
  simp only [handle] at hhandle
  split at hhandle
  next errors _ =>
      cases hhandle
      exact Or.inl (learn_raised (by simp [code]) _ _ _).symm
  next body hbody =>
      rcases createTask_inv app.db x.draw.first x.draw.second.statement x.draw.id x.draw.now body
        with ⟨t, db'', ht, htasks, -, hcreate | ⟨e, hcreate⟩⟩ | hcreate | ⟨e, hcreate⟩
      · rw [handled_ok hcreate] at hhandle
        cases hhandle
        left
        rw [Ledger.learn, meaning, hroute, entries_cons htasks]
        by_cases hid : t.id = id
        · simp [a, outcomeResponse, Exchange.answer, sendWrapper, replyResponse, Operation.success,
            taskToDict, hid]
        · simp [a, outcomeResponse, Exchange.answer, sendWrapper, replyResponse, Operation.success,
            taskToDict, hid]
      · -- stored, and not read again
        rw [handled_unhandled hcreate] at hhandle
        cases hhandle
        rw [entries_cons htasks]
        by_cases hid : t.id = id
        · obtain ⟨p, hstatus, -, hanswer⟩ := problemResponse_internalServerError x.identified
          have hdrawn : x.draw.id = id := by
            rw [← hid, ht]
            rfl
          rw [if_pos hid, ht]
          exact Or.inr (.stored ⟨hroute, hdrawn, ⟨decoded, body, hpayload, hbody, rfl⟩, _, hanswer,
            hstatus⟩)
        · rw [if_neg hid]
          exact Or.inl (learn_raised (by simp [code]) _ _ _).symm
      · rw [handled_problem hcreate] at hhandle
        cases hhandle
        exact Or.inl (learn_raised (by decide) _ _ _).symm
      · rw [handled_unhandled hcreate] at hhandle
        cases hhandle
        exact Or.inl (learn_raised (by simp [code]) _ _ _).symm

/-- A handler that deletes a task, or may have. -/
theorem deleteTask_tells {decoded : Decoded} {out : Except Http.Raised Reply} {db' : Database}
    {taskId : String} (hroute : route x.arrival.request = .ok (.deleteTask taskId))
    (hhandle : handle site x.draw decoded x.query (app.metered x).limiter.rejections
      (.deleteTask taskId) app.db = (out, db')) (id : String) :
    let a : Answered := ⟨x, x.answer (outcomeResponse x.scope (.deleteTask taskId) out)⟩
    entries db' id = Ledger.learn meaning (entries app.db) a id ∨
      Doubtful a id (entries db' id) := by
  intro a
  simp only [handle] at hhandle
  rcases deleteTask_inv app.db site.engine x.draw.first x.draw.second taskId with
    ⟨d, hdelete⟩ | ⟨e, db'', hdelete, hdb⟩
  · rw [handled_ok hdelete] at hhandle
    cases hhandle
    left
    have htasks : (TaskService.deleted app.db taskId).tasks = (app.db.removeTask taskId).tasks :=
      rfl
    rw [Ledger.learn, meaning, hroute, entries_removeTask htasks]
    by_cases hid : taskId = id
    · simp [a, outcomeResponse, Exchange.answer, sendWrapper, replyResponse, Operation.success, hid]
    · simp [a, outcomeResponse, Exchange.answer, sendWrapper, replyResponse, Operation.success, hid,
        Ne.symm hid]
  · rw [handled_unhandled hdelete] at hhandle
    cases hhandle
    obtain ⟨p, hstatus, -, hanswer⟩ := problemResponse_internalServerError x.identified
    rcases hdb with rfl | rfl
    · exact Or.inl (learn_raised (by simp [code]) _ _ _).symm
    · rw [entries_removeTask rfl]
      by_cases hid : id = taskId
      · subst hid
        rw [if_pos rfl]
        exact Or.inr (.gone ⟨hroute, _, hanswer, hstatus⟩)
      · rw [if_neg hid]
        exact Or.inl (learn_raised (by simp [code]) _ _ _).symm

/-- **What an answer tells**: the change of the tasks, or a doubt. -/
theorem serve_tells (site : Site) (scan : t.Scan) (app : App) (x : Exchange) :
    Ledger.Tells meaning Doubtful (entries app.db) ⟨x, (serve site scan app x).response⟩
      (entries (serve site scan app x).app.db) := by
  intro id
  have hcomes := serve_comes site scan app x
  generalize (serve site scan app x).response = response at hcomes
  generalize (serve site scan app x).app.db = db' at hcomes
  cases hcomes with
  | @stopped status response hrefuses hstatus =>
      left
      cases hroute : route x.arrival.request with
      | error e =>
          rw [Ledger.learn, meaning, hroute]
      | ok op =>
          have hne : status ≠ 200 := fun h => absurd (h ▸ hstatus op hroute) (by decide)
          rw [Ledger.learn, meaning_refuses hrefuses hne]
  | @handled op decoded out db' hroute hhandle hpayload =>
      by_cases hcreate : op = .createTask
      · subst hcreate
        exact createTask_tells hroute hhandle hpayload id
      by_cases hdelete : ∃ taskId, op = .deleteTask taskId
      · obtain ⟨taskId, rfl⟩ := hdelete
        exact deleteTask_tells hroute hhandle id
      have hdelete' : ∀ taskId, op ≠ .deleteTask taskId := fun taskId h => hdelete ⟨taskId, h⟩
      have htouches : Touches app.db op db' := by
        have hhandler : Touches app.db op _ := handle_touches site x.draw decoded x.query
          (app.metered x).limiter.rejections op
        rwa [hhandle] at hhandler
      left
      rw [Ledger.learn, meaning_other hroute hcreate hdelete',
        entries_congr (touches_tasks htouches hcreate hdelete')]

theorem shown_of_refuses {status : ℕ} {response : Option Response} (h : Refuses status response)
    {r : Response} (hr : response = some r) : shown r = [] := by
  have hbody := (h r hr).1
  unfold shown
  split
  next reply hreply => exact absurd hreply (hbody reply)
  next => rfl

theorem listTasks_ok {draw : Http.Draw} {query : Query} {db db' : Database} {reply : Reply}
    (h : listTasks site draw query db = (.ok reply, db')) : ∃ ds next, reply = .tasks ds next := by
  unfold listTasks at h
  split at h
  · cases h
  · split_ifs at h
    · cases h
    · split at h
      · cases h
      · cases h
        exact ⟨_, _, rfl⟩
    · cases h

/-- A page shows the tasks there are. -/
theorem listTasks_shows {draw : Http.Draw} {query : Query} {db db' : Database} {reply : Reply}
    (h : listTasks site draw query db = (.ok reply, db')) :
    ∀ d ∈ items reply, entries db' d.id = some (entryOf d) := by
  have hsnd : (listTasks site draw query db).2 = db := listTasks_snd site draw query
  have hdb : db' = db := by
    rw [← hsnd, h]
  subst hdb
  obtain ⟨ds, next, rfl⟩ := listTasks_ok h
  have hpage : (listTasks site draw query db').1 = .ok (.tasks ds next) := by
    rw [h]
  intro d hd
  obtain ⟨t, ht, rfl⟩ := listTasks_items hpage d hd
  exact entries_of_mem ht

/-- A handler shows the tasks there are. -/
theorem handle_shows {draw : Http.Draw} {decoded : Decoded} {query : Query} {rejections : ℕ}
    {op : Operation} {db db' : Database} {reply : Reply}
    (h : handle site draw decoded query rejections op db = (.ok reply, db')) :
    ∀ d ∈ items reply, entries db' d.id = some (entryOf d) := by
  cases op with
  | createTask =>
      simp only [handle] at h
      split at h
      next => cases h
      next body _ =>
          obtain ⟨d, hd, rfl⟩ := handled_eq_ok h
          rcases createTask_inv db draw.first draw.second.statement draw.id draw.now body with
            ⟨t, db'', -, htasks, -, hcreate | ⟨e, hcreate⟩⟩ | hcreate | ⟨e, hcreate⟩
          · rw [hcreate] at hd
            cases hd
            intro d hd
            obtain rfl := List.mem_singleton.mp hd
            exact entries_of_mem (htasks ▸ List.mem_cons_self)
          · rw [hcreate] at hd
            cases hd
          · rw [hcreate] at hd
            cases hd
          · rw [hcreate] at hd
            cases hd
  | getTask taskId =>
      obtain ⟨d, hd, rfl⟩ := handled_eq_ok h
      rcases getTask_inv db draw.first taskId with
        ⟨t, ht, hget⟩ | ⟨-, hget⟩ | ⟨e, hget⟩
      · rw [hget] at hd
        cases hd
        intro d hd
        obtain rfl := List.mem_singleton.mp hd
        exact entries_of_mem ht
      · rw [hget] at hd
        cases hd
      · rw [hget] at hd
        cases hd
  | listTasks => exact listTasks_shows h
  | deleteTask taskId =>
      obtain ⟨d, -, rfl⟩ := handled_eq_ok h
      simp [items]
  | triggerRun taskId =>
      obtain ⟨d, -, rfl⟩ := handled_eq_ok h
      simp [items]
  | listRuns taskId =>
      simp only [handle, listRuns] at h
      split at h <;> cases h
      simp [items]
  | readyz =>
      simp only [handle, readyz] at h
      split at h <;> cases h
      simp [items]
  | metrics =>
      simp only [handle] at h
      split at h <;> cases h
      simp [items]
  | _ =>
      cases h
      simp [items]

/-- **What an answer shows** is there. -/
theorem serve_shows {r : Response} (hr : (serve site scan app x).response = some r) :
    ∀ d ∈ shown r, entries (serve site scan app x).app.db d.id = some (entryOf d) := by
  have hcomes := serve_comes site scan app x
  generalize (serve site scan app x).response = response at hcomes hr
  generalize (serve site scan app x).app.db = db' at hcomes
  cases hcomes with
  | stopped hrefuses =>
      rw [shown_of_refuses hrefuses hr]
      simp
  | @handled op decoded out db' hroute hhandle =>
      cases out with
      | error e =>
          rw [shown_of_refuses (refuses_raised x e) hr]
          simp
      | ok reply =>
          have hbody := (answer_ok hr).1
          have hshown : shown r = items reply := by
            rw [shown, hbody]
          rw [hshown]
          exact handle_shows hhandle

/-- A task that is not found is not there. -/
theorem serve_missing {op : Operation} {taskId : String} {r : Response}
    (hroute : route x.arrival.request = .ok op) (hsubject : subject? op = some taskId)
    (hr : (serve site scan app x).response = some r) (hstatus : r.status = 404) :
    entries (serve site scan app x).app.db taskId = none := by
  have hcomes := serve_comes site scan app x
  generalize (serve site scan app x).response = response at hcomes hr
  generalize (serve site scan app x).app.db = db' at hcomes
  cases hcomes with
  | @stopped status response hrefuses hstopped =>
      have hne : status ≠ 404 := fun h => absurd (h ▸ hstopped op hroute) (by decide)
      rcases (hrefuses r hr).2 with h | h
      · omega
      · omega
  | @handled op' decoded out db' hroute' hhandle =>
      rw [hroute] at hroute'
      cases hroute'
      cases out with
      | ok reply =>
          have hsuccess := (answer_ok hr).2
          have hbounds := op.success_bounds
          omega
      | error e =>
          -- the one answer with that status is the one to `TaskNotFound`
          have hcode : code e = 404 := by
            rcases (refuses_raised x e r hr).2 with h | h
            · omega
            · omega
          cases op with
          | getTask id =>
              cases hsubject
              rcases getTask_inv app.db x.draw.first taskId with
                ⟨t, -, hget⟩ | ⟨hnone, hget⟩ | ⟨e', hget⟩
              · rw [handle, handled_ok hget] at hhandle
                cases hhandle
              · rw [handle, handled_problem hget] at hhandle
                cases hhandle
                exact entries_of_not hnone
              · rw [handle, handled_unhandled hget] at hhandle
                cases hhandle
                cases hcode
          | triggerRun id =>
              cases hsubject
              rcases triggerRun_inv app.db site.engine x.draw.first x.draw.second x.draw.id
                x.draw.now taskId with ⟨row, db'', htrigger, -⟩ | ⟨hnone, htrigger⟩ | ⟨e', htrigger⟩
              · rw [handle, handled_ok htrigger] at hhandle
                cases hhandle
              · rw [handle, handled_problem htrigger] at hhandle
                cases hhandle
                exact entries_of_not hnone
              · rw [handle, handled_unhandled htrigger] at hhandle
                cases hhandle
                cases hcode
          | _ => cases hsubject

end Exchange

/-! ### Whole runs -/

/-- A deployment, with the requests it has answered. -/
structure Watched where
  deployment : Deployment
  history : List Answered

/-- As in `Access.Step`, no two exchanges overlap: each is answered before the next one begins. -/
inductive Watch (site : Site) : Watched → Access.Event → Watched → Prop
  | key {d h op} : Watch site ⟨d, h⟩ (.key op) ⟨{ d with keys := d.keys.step op }, h⟩
  | request {d h x} (scan : d.keys.Scan) :
      Watch site ⟨d, h⟩ (.request x)
        ⟨{ d with app := (serve site scan d.app x).app },
          h ++ [⟨x, (serve site scan d.app x).response⟩]⟩
  | completion {d h host faults taskId command runId} :
      Watch site ⟨d, h⟩ (.completion host faults taskId command runId)
        ⟨{ d with
            app :=
              { d.app with
                db := (executeAndPersist host faults taskId command runId d.app.db).2 } }, h⟩

/-- The runs of a deployment, watched. -/
def watched (site : Site) (d₀ : Deployment) : Lts Watched Access.Event where
  init := (· = ⟨d₀, []⟩)
  step := Watch site

/-- What the answers leave known, from a deployment on. -/
def known (d₀ : Deployment) (h : List Answered) : String → Option Entry :=
  Ledger.learned meaning (entries d₀.app.db) h

/-- An answer is in line with the ones before it. -/
structure InLine (d₀ : Deployment) (h : List Answered) (a : Answered) : Prop where
  shown : ∀ r, a.response = some r → ∀ d ∈ shown r,
    known d₀ (h ++ [a]) d.id = some (entryOf d) ∨ ∃ b ∈ h ++ [a], FailedCreate b d.id (entryOf d)
  missing : ∀ r op taskId, a.response = some r → r.status = 404 →
    route a.exchange.arrival.request = .ok op → subject? op = some taskId →
      known d₀ (h ++ [a]) taskId = none ∨ ∃ b ∈ h ++ [a], FailedDelete b taskId

section Runs

variable {site : Site} {d₀ : Deployment} {w w' : Watched} {a : Access.Event}

/-- The tasks are as answered. -/
def AsAnswered (d₀ : Deployment) (w : Watched) : Prop :=
  Ledger.Agrees meaning Doubtful (entries d₀.app.db) w.history
    (entries w.deployment.app.db)

theorem AsAnswered.step (h : AsAnswered d₀ w) (hstep : Watch site w a w') : AsAnswered d₀ w' := by
  cases hstep with
  | key => exact h
  | @request d history x scan =>
      exact Ledger.agrees_concat overwrites_meaning h (serve_tells site scan d.app x)
  | @completion d history host faults taskId command runId =>
      have htasks := (executeAndPersist_frame host faults taskId command runId d.app.db).1
      show Ledger.Agrees meaning Doubtful _ history (entries _)
      rw [entries_congr htasks]
      exact h

theorem asAnswered (h : (watched site d₀).Reachable w) : AsAnswered d₀ w := by
  refine h.invariant (I := AsAnswered d₀) ?_ fun _ _ _ _ hw hstep => hw.step hstep
  intro w hw
  obtain rfl : w = _ := hw
  exact Ledger.agrees_nil

/-- Every answer of a history was given in a state with the history before it. -/
theorem answer_of_history (h : (watched site d₀).Reachable w) {before after : List Answered}
    {x : Answered} (hhistory : w.history = before ++ x :: after) :
    ∃ w₁ : Watched, ∃ scan : w₁.deployment.keys.Scan, (watched site d₀).Reachable w₁ ∧
      w₁.history = before ∧
        x.response = (serve site scan w₁.deployment.app x.exchange).response := by
  induction h generalizing after with
  | init hw =>
      cases hw
      cases before <;> cases hhistory
  | step hreach hstep ih =>
      cases hstep with
      | key => exact ih hhistory
      | completion => exact ih hhistory
      | @request d history y scan =>
          rcases List.eq_nil_or_concat after with rfl | ⟨rest, b, rfl⟩
          · obtain ⟨rfl, hlast⟩ := List.append_inj' hhistory rfl
            obtain rfl := List.singleton_inj.mp hlast
            exact ⟨_, scan, hreach, rfl, rfl⟩
          · have hsplit : before ++ x :: (rest ++ [b]) = (before ++ x :: rest) ++ [b] := by simp
            rw [List.concat_eq_append, hsplit] at hhistory
            exact ih (List.append_inj' hhistory rfl).1

/-- **The tasks are as answered.** In every run of a deployment that serves its exchanges one after
another, whatever keys come and go, requests are refused and transactions fail: the tasks are those
of the start, but for what the answers say, with every 201 to a creation and every 200 to a
deletion. Only a task whose deletion was answered with 500 may be gone unsaid, and only one whose
creation was answered with 500 may be there unsaid. -/
theorem tasks_as_answered (h : (watched site d₀).Reachable w) (id : String) :
    (taskMap w.deployment.app.db).entry id = known d₀ w.history id ∨
      ∃ a ∈ w.history, Doubtful a id ((taskMap w.deployment.app.db).entry id) :=
  asAnswered h id

/-- A body that is accepted. -/
def postedBody : Json.Value :=
  .obj [(nameKey, .str (Unicode.PyStr.ofChars ['a'])),
    (commandKey, .str (Unicode.PyStr.ofChars ['t', 'r', 'u', 'e']))]

/-- The created task is read. -/
def writerReads : Exchange :=
  .plain "GET" (tasksPath ++ ['/', 'i', 'd'])
    ['t', 'a', 's', 'k', 'q', '-', 'w', 'r', 'i', 't', 'e', '-', 't', 'e', 's', 't', '-', 'k', 'e',
      'y', '-', 'a', 'b', 'c', '1', '2', '3'] (.read .absent)

/-- A deployment without tasks and keys. -/
def blank : Deployment where
  app := App.new .empty
  keys := .empty

/-- The statuses that were answered. -/
def statuses (h : List Answered) : List (Option ℕ) := h.map fun a => a.response.map Response.status

theorem tasks_as_answered_posted :
    ∃ w, (watched plainSite blank).Reachable w ∧ statuses w.history = [some 201] ∧
      ((taskMap w.deployment.app.db).entry "id" = known blank w.history "id" ∨
        ∃ a ∈ w.history, Doubtful a "id" ((taskMap w.deployment.app.db).entry "id")) := by
  obtain ⟨w, hstep, hstatuses⟩ : ∃ w, Watch plainSite ⟨blank, []⟩
      (.request (writerPosts postedBody)) w ∧ statuses w.history = [some 201] :=
    ⟨_, .request noKeys, by decide +kernel⟩
  have hreach : (watched plainSite blank).Reachable w := .step (.init rfl) hstep
  exact ⟨w, hreach, hstatuses, tasks_as_answered hreach "id"⟩

/-- **Reads are as answered.** In every run that serves its exchanges one after another, what a
creation, a read or a page shows of a task is what the answers up to it leave known, or what a
creation asked for that was answered with 500; and where a task is not found none is known, but for
one whose deletion was answered with 500. -/
theorem reads_as_answered (h : (watched site d₀).Reachable w) {before after : List Answered}
    {a : Answered} (hhistory : w.history = before ++ a :: after) : InLine d₀ before a := by
  obtain ⟨w₁, scan, hreach, rfl, hresponse⟩ := answer_of_history h hhistory
  have hstep : Watch site w₁ (.request a.exchange) _ := .request scan
  have hafter : AsAnswered d₀ _ := (asAnswered hreach).step hstep
  rw [← hresponse] at hafter
  constructor
  case shown =>
    intro r hr e he
    rw [hresponse] at hr
    exact (hafter.learned_or_doubt (serve_shows hr e he)).imp_right
      fun ⟨b, hb, hdoubt⟩ => ⟨b, hb, doubtful_some hdoubt⟩
  case missing =>
    intro r op taskId hr hstatus hroute hsubject
    rw [hresponse] at hr
    exact (hafter.learned_or_doubt (serve_missing hroute hsubject hr hstatus)).imp_right
      fun ⟨b, hb, hdoubt⟩ => ⟨b, hb, doubtful_none hdoubt⟩

theorem reads_as_answered_posted :
    ∃ w posted read, (watched plainSite blank).Reachable w ∧ w.history = [posted, read] ∧
      statuses w.history = [some 201, some 200] ∧ InLine blank [posted] read := by
  obtain ⟨w, hfirst, hstatuses⟩ : ∃ w, (∃ w₁, Watch plainSite ⟨blank, []⟩
      (.request (writerPosts postedBody)) w₁ ∧ Watch plainSite w₁ (.request writerReads) w) ∧
      statuses w.history = [some 201, some 200] :=
    ⟨_, ⟨_, .request noKeys, .request noKeys⟩, by decide +kernel⟩
  obtain ⟨w₁, hfirst, hsecond⟩ := hfirst
  have hreach : (watched plainSite blank).Reachable w := .step (.step (.init rfl) hfirst) hsecond
  obtain ⟨posted, read, hhistory⟩ : ∃ posted read, w.history = [posted, read] := by
    cases hfirst
    cases hsecond
    exact ⟨_, _, rfl⟩
  exact ⟨w, posted, read, hreach, hhistory, hstatuses, reads_as_answered hreach hhistory⟩

end Runs

end Taskq.ReadBack
