import Taskq.Api.ReadBack

/-!
# Taskq.Api.RunBack

What the answers of the service say of its runs, over whole runs of a deployment.

Where exchanges are served one after another nothing is left in doubt: a run is there once it was
answered with its id, and gone once the deletion of its task was answered with 200, which is when
the second transaction of the deletion has committed. A deletion that was answered with 500 has left
the rows of the runs, whether the task is still there or not. So a listing of runs shows exactly
those that were accepted (`listings_as_answered`).
-/

namespace Taskq.ReadBack

open Http Access TaskList Transaction Transition

/-- The task that a run is of. -/
def runs (db : Database) : String → Option String := fun runId =>
  ((runKeys db).find? fun k => k.1 = runId).map Prod.snd

/-- What an answer means for the run under an id. -/
def runMeaning : Ledger.Meaning String String Answered := fun a runId old =>
  match route a.exchange.arrival.request, a.response with
  | .ok (.triggerRun taskId), some r =>
      match r.body with
      | .reply (.run id) => if id = runId then some taskId else old
      | _ => old
  | .ok (.deleteTask taskId), some r => if r.status = 200 ∧ old = some taskId then none else old
  | _, _ => old

/-- What the answers leave known of the runs, from a deployment on. -/
def knownRuns (d₀ : Deployment) (h : List Answered) : String → Option String :=
  Ledger.learned runMeaning (runs d₀.app.db) h

/-! ### The table -/

section Table

variable {db db' : Database} {taskId : String}

theorem runs_congr (h : runKeys db' = runKeys db) : runs db' = runs db := by
  unfold runs
  rw [h]

theorem runs_cons {row : TaskResult} (h : db'.results = row :: db.results) (runId : String) :
    runs db' runId = if row.id = runId then some row.taskId else runs db runId := by
  rw [runs, runKeys, h, List.map_cons, List.find?_cons]
  by_cases hid : row.id = runId
  · simp only [hid, decide_true, if_true]
    rfl
  · simp only [hid, decide_false, if_false]
    rfl

theorem nodup_runKeys (db : Database) : ((runKeys db).map Prod.fst).Nodup := by
  have hids : (runKeys db).map Prod.fst = db.results.map ResultRow.id := by
    rw [runKeys, List.map_map]
    rfl
  rw [hids]
  exact db.result_ids

theorem runs_eq_some {runId : String} :
    runs db runId = some taskId ↔ (runId, taskId) ∈ runKeys db := by
  refine ⟨fun h => ?_, fun h => ?_⟩
  · obtain ⟨key, hfind, hkey⟩ := Option.map_eq_some_iff.mp h
    have hid : key.1 = runId := by simpa using List.find?_some hfind
    have hmem := List.mem_of_find?_eq_some hfind
    rwa [← hid, ← hkey]
  · rw [runs, Keyed.find?_eq_some (nodup_runKeys db) h rfl]
    rfl

theorem mem_runKeys {runId : String} :
    (runId, taskId) ∈ runKeys db ↔ ∃ row ∈ db.results, row.id = runId ∧ row.taskId = taskId := by
  rw [runKeys, List.mem_map]
  refine exists_congr fun row => and_congr_right fun _ => ?_
  rw [Prod.mk.injEq]

/-- Deleting the runs of a task. -/
theorem runs_deleted (db : Database) (taskId runId : String) :
    runs (TaskService.deleted db taskId) runId =
      if runs db runId = some taskId then none else runs db runId := by
  have hmem : ∀ id, runs (TaskService.deleted db taskId) runId = some id ↔
      runs db runId = some id ∧ id ≠ taskId := by
    intro id
    rw [runs_eq_some, runs_eq_some, mem_runKeys, mem_runKeys]
    simp only [TaskService.deleted, Database.removeResults, List.mem_filter, decide_eq_true_eq]
    refine ⟨?_, ?_⟩
    · intro h
      obtain ⟨row, ⟨hrow, hne⟩, hid, htask⟩ := h
      exact ⟨⟨row, hrow, hid, htask⟩, htask ▸ hne⟩
    · intro h
      obtain ⟨⟨row, hrow, hid, htask⟩, hne⟩ := h
      exact ⟨row, ⟨hrow, htask ▸ hne⟩, hid, htask⟩
  refine Option.ext fun id => ?_
  rw [hmem]
  split_ifs with h
  · rw [h]
    simp only [Option.some.injEq, iff_false, not_and, not_not]
    exact fun heq => heq.symm
  · refine ⟨fun hboth => hboth.1, fun hid => ⟨hid, ?_⟩⟩
    rintro rfl
    exact h hid

/-- Only triggering and deleting change which runs there are. -/
theorem touches_runs {op : Operation} (h : Touches db op db')
    (htrigger : ∀ taskId, op ≠ .triggerRun taskId) (hdelete : ∀ taskId, op ≠ .deleteTask taskId) :
    runs db' = runs db := by
  cases h with
  | nothing => rfl
  | create _ hresults => exact runs_congr (by rw [runKeys, runKeys, hresults])
  | trigger => exact absurd rfl (htrigger _)
  | deleteRow => exact absurd rfl (hdelete _)
  | delete => exact absurd rfl (hdelete _)

end Table

/-! ### One exchange -/

section Exchange

variable {site : Site} {t : APIKeyTable} {scan : t.Scan} {app : App} {x : Exchange}

theorem runMeaning_refuses {status : ℕ} {response : Option Response}
    (h : Refuses status response) (hstatus : status ≠ 200) (runId : String) (old : Option String) :
    runMeaning ⟨x, response⟩ runId old = old := by
  unfold runMeaning
  split
  next taskId r hroute hr =>
      have hbody := (h r hr).1
      split
      next id hid => exact absurd hid (hbody _)
      next => rfl
  next taskId r hroute hr =>
      have hr200 : r.status ≠ 200 := by
        rcases (h r hr).2 with hstatus' | h500
        · omega
        · omega
      rw [if_neg fun hboth => hr200 hboth.1]
  next => rfl

/-- What an answer means where no run is triggered and no task is deleted. -/
theorem runMeaning_other {op : Operation} {response : Option Response}
    (hroute : route x.arrival.request = .ok op) (htrigger : ∀ taskId, op ≠ .triggerRun taskId)
    (hdelete : ∀ taskId, op ≠ .deleteTask taskId) (runId : String) (old : Option String) :
    runMeaning ⟨x, response⟩ runId old = old := by
  unfold runMeaning
  split
  next taskId r hop hr =>
      rw [hroute] at hop
      cases hop
      exact absurd rfl (htrigger taskId)
  next taskId r hop hr =>
      rw [hroute] at hop
      cases hop
      exact absurd rfl (hdelete taskId)
  next => rfl

/-- A handler that triggers a run, or does not. -/
theorem triggerRun_tells {decoded : Decoded} {out : Except Http.Raised Reply} {db' : Database}
    {taskId : String} (hroute : route x.arrival.request = .ok (.triggerRun taskId))
    (hhandle : handle site x.draw decoded x.query (app.metered x).limiter.rejections
      (.triggerRun taskId) app.db = (out, db')) :
    runs db' = Ledger.learn runMeaning (runs app.db)
      ⟨x, x.answer (outcomeResponse x.scope (.triggerRun taskId) out)⟩ := by
  funext runId
  simp only [handle] at hhandle
  rcases triggerRun_inv app.db site.engine x.draw.first x.draw.second x.draw.id x.draw.now
    taskId with ⟨row, db'', htrigger, -, hresults, hid, htask⟩ | ⟨-, htrigger⟩ | ⟨e, htrigger⟩
  · rw [handled_ok htrigger] at hhandle
    cases hhandle
    rw [Ledger.learn, runMeaning, hroute, runs_cons hresults, hid, htask]
    rfl
  · rw [handled_problem htrigger] at hhandle
    cases hhandle
    rw [Ledger.learn, outcomeResponse, runMeaning_refuses (refuses_raised x _) (by decide)]
  · rw [handled_unhandled htrigger] at hhandle
    cases hhandle
    rw [Ledger.learn, outcomeResponse, runMeaning_refuses (refuses_raised x _) (by simp [code])]

/-- A handler that deletes the runs of a task, or none. -/
theorem deleteTask_tells_runs {decoded : Decoded} {out : Except Http.Raised Reply} {db' : Database}
    {taskId : String} (hroute : route x.arrival.request = .ok (.deleteTask taskId))
    (hhandle : handle site x.draw decoded x.query (app.metered x).limiter.rejections
      (.deleteTask taskId) app.db = (out, db')) :
    runs db' = Ledger.learn runMeaning (runs app.db)
      ⟨x, x.answer (outcomeResponse x.scope (.deleteTask taskId) out)⟩ := by
  funext runId
  simp only [handle] at hhandle
  rcases deleteTask_inv app.db site.engine x.draw.first x.draw.second taskId with
    ⟨d, hdelete⟩ | ⟨e, db'', hdelete, hdb⟩
  · rw [handled_ok hdelete] at hhandle
    cases hhandle
    rw [Ledger.learn, runMeaning, hroute, runs_deleted]
    simp [outcomeResponse, Exchange.answer, sendWrapper, replyResponse, Operation.success]
  · rw [handled_unhandled hdelete] at hhandle
    cases hhandle
    rw [Ledger.learn, outcomeResponse, runMeaning_refuses (refuses_raised x _) (by simp [code])]
    -- the first transaction leaves the runs alone
    rcases hdb with rfl | rfl <;> rfl

/-- **What an answer tells** of the runs. -/
theorem serve_tells_runs (site : Site) (scan : t.Scan) (app : App) (x : Exchange) :
    runs (serve site scan app x).app.db =
      Ledger.learn runMeaning (runs app.db) ⟨x, (serve site scan app x).response⟩ := by
  have hcomes := serve_comes site scan app x
  generalize (serve site scan app x).response = response at hcomes
  generalize (serve site scan app x).app.db = db' at hcomes
  cases hcomes with
  | @stopped status response hrefuses hstatus =>
      funext runId
      cases hroute : route x.arrival.request with
      | error e => rw [Ledger.learn, runMeaning, hroute]
      | ok op =>
          have hne : status ≠ 200 := fun h => absurd (h ▸ hstatus op hroute) (by decide)
          rw [Ledger.learn, runMeaning_refuses hrefuses hne]
  | @handled op decoded out db' hroute hhandle =>
      by_cases htrigger : ∃ taskId, op = .triggerRun taskId
      · obtain ⟨taskId, rfl⟩ := htrigger
        exact triggerRun_tells hroute hhandle
      by_cases hdelete : ∃ taskId, op = .deleteTask taskId
      · obtain ⟨taskId, rfl⟩ := hdelete
        exact deleteTask_tells_runs hroute hhandle
      have htrigger' : ∀ taskId, op ≠ .triggerRun taskId := fun id h => htrigger ⟨id, h⟩
      have hdelete' : ∀ taskId, op ≠ .deleteTask taskId := fun id h => hdelete ⟨id, h⟩
      have htouches : Touches app.db op db' := by
        have hhandler : Touches app.db op _ := handle_touches site x.draw decoded x.query
          (app.metered x).limiter.rejections op
        rwa [hhandle] at hhandler
      funext runId
      rw [Ledger.learn, runMeaning_other hroute htrigger' hdelete',
        touches_runs htouches htrigger' hdelete']

/-- The ids of the runs in a listing. -/
def runIds (rows : List Dict) : List (Option Value) := rows.map fun d => d.lookup "run_id"

/-- The rows of a listing are those of the task. -/
theorem listRuns_rows {draw : Http.Draw} {taskId : String} {db db' : Database} {rows : List Dict}
    (h : listRuns draw taskId db = (.ok (.runs rows), db')) :
    rows = (TaskResultRepository.selectResults db taskId).map fun row => toDict row.load := by
  unfold listRuns TaskResultRepository.listResultsForTask at h
  rcases transaction_cases draw.first (fun db => .ok
      ((TaskResultRepository.selectResults db taskId).map fun row => toDict row.load, db)) db with
    ⟨e, he⟩ | ⟨rows', db'', -, hbody, hok⟩
  · rw [he] at h
    cases h
  · cases hbody
    rw [hok] at h
    cases h
    rfl

/-- The ids of the selected rows: those of the runs of the task, each once. -/
theorem selectResults_ids (db : Database) (taskId : String) :
    ((TaskResultRepository.selectResults db taskId).map ResultRow.id).Nodup ∧
      ∀ runId, runId ∈ (TaskResultRepository.selectResults db taskId).map ResultRow.id ↔
        runs db runId = some taskId := by
  have hperm : (TaskResultRepository.selectResults db taskId).Perm
      (db.results.filter fun row => row.taskId = taskId) := List.mergeSort_perm _ _
  refine ⟨?_, fun runId => ?_⟩
  · exact (hperm.map _).nodup_iff.mpr (db.result_ids.sublist (List.filter_sublist.map _))
  · rw [(hperm.map _).mem_iff, runs_eq_some, mem_runKeys]
    simp only [List.mem_map, List.mem_filter, decide_eq_true_eq]
    refine exists_congr fun row => ?_
    tauto

/-- **What a listing shows**: the runs there are, each once. -/
theorem serve_lists {taskId : String} {r : Response} {rows : List Dict}
    (hroute : route x.arrival.request = .ok (.listRuns taskId))
    (hr : (serve site scan app x).response = some r) (hbody : r.body = .reply (.runs rows)) :
    (runIds rows).Nodup ∧
      ∀ v, v ∈ runIds rows ↔ ∃ runId, runs app.db runId = some taskId ∧ v = some (.str runId) := by
  have hcomes := serve_comes site scan app x
  generalize (serve site scan app x).response = response at hcomes hr
  generalize (serve site scan app x).app.db = db' at hcomes
  cases hcomes with
  | stopped hrefuses => exact absurd hbody ((hrefuses r hr).1 _)
  | @handled op decoded out db' hroute' hhandle =>
      rw [hroute] at hroute'
      cases hroute'
      cases out with
      | error e => exact absurd hbody ((refuses_raised x e r hr).1 _)
      | ok reply =>
          have hreply := (answer_ok hr).1
          rw [hbody] at hreply
          obtain rfl : .runs rows = reply := Body.reply.inj hreply
          have hids : runIds rows = ((TaskResultRepository.selectResults app.db taskId).map
              ResultRow.id).map fun id => some (.str id) := by
            rw [listRuns_rows hhandle, runIds, List.map_map, List.map_map]
            rfl
          obtain ⟨hnodup, hmem⟩ := selectResults_ids app.db taskId
          rw [hids]
          refine ⟨hnodup.map fun i j hij => by simpa using hij, fun v => ?_⟩
          simp only [List.mem_map (f := fun id : String => some (Value.str id)), hmem]
          exact exists_congr fun runId => and_congr_right fun _ => eq_comm

end Exchange

/-! ### Whole runs -/

section Runs

variable {site : Site} {d₀ : Deployment} {w : Watched}

theorem runs_watched (h : (watched site d₀).Reachable w) :
    runs w.deployment.app.db = knownRuns d₀ w.history := by
  refine h.invariant
    (I := fun w => runs w.deployment.app.db = knownRuns d₀ w.history) ?_ ?_
  · intro w hw
    obtain rfl : w = _ := hw
    rfl
  · intro w e w' _ hw hstep
    cases hstep with
    | key => exact hw
    | @request d history x scan =>
        exact (Ledger.learned_concat_eq hw.symm (serve_tells_runs site scan d.app x)).symm
    | @completion d history host faults taskId command runId =>
        have hkeys := (executeAndPersist_frame host faults taskId command runId d.app.db).2
        exact (runs_congr hkeys).trans hw

/-- **Listings are as answered.** In every run of a deployment that serves its exchanges one after
another, whatever goes wrong in its transactions: a listing of the runs of a task shows, each once,
the runs whose triggering was answered with their id and whose task's deletion has not been answered
with 200 since. -/
theorem listings_as_answered (h : (watched site d₀).Reachable w) {before after : List Answered}
    {a : Answered} (hhistory : w.history = before ++ a :: after) {taskId : String} {r : Response}
    {rows : List Dict} (hroute : route a.exchange.arrival.request = .ok (.listRuns taskId))
    (hr : a.response = some r) (hbody : r.body = .reply (.runs rows)) :
    (runIds rows).Nodup ∧
      ∀ v, v ∈ runIds rows ↔
        ∃ runId, knownRuns d₀ before runId = some taskId ∧ v = some (.str runId) := by
  obtain ⟨w₁, scan, hreach, rfl, hresponse⟩ := answer_of_history h hhistory
  rw [hresponse] at hr
  rw [← runs_watched hreach]
  exact serve_lists hroute hr hbody

/-- A run of the created task is triggered. -/
def writerRuns : Exchange :=
  .plain "POST" (tasksPath ++ ['/', 'i', 'd', '/', 'r', 'u', 'n'])
    ['t', 'a', 's', 'k', 'q', '-', 'w', 'r', 'i', 't', 'e', '-', 't', 'e', 's', 't', '-', 'k', 'e',
      'y', '-', 'a', 'b', 'c', '1', '2', '3'] (.read .absent)

/-- Its runs are listed. -/
def writerLists : Exchange :=
  .plain "GET" (tasksPath ++ ['/', 'i', 'd', '/', 'r', 'u', 'n', 's'])
    ['t', 'a', 's', 'k', 'q', '-', 'w', 'r', 'i', 't', 'e', '-', 't', 'e', 's', 't', '-', 'k', 'e',
      'y', '-', 'a', 'b', 'c', '1', '2', '3'] (.read .absent)

/-- The rows that were listed, if they were. -/
def rowsOf (r : Response) : Option (List Dict) :=
  match r.body with
  | .reply (.runs rows) => some rows
  | _ => none

theorem body_of_rowsOf {r : Response} {rows : List Dict} (h : rowsOf r = some rows) :
    r.body = .reply (.runs rows) := by
  unfold rowsOf at h
  split at h
  next hbody =>
      cases h
      exact hbody
  next => cases h

theorem listings_as_answered_posted :
    ∃ (w : Watched) (before : List Answered) (a : Answered) (rows : List Dict),
      (watched plainSite blank).Reachable w ∧ w.history = before ++ [a] ∧
        statuses w.history = [some 201, some 202, some 200] ∧ runIds rows = [some (.str "id")] ∧
          (runIds rows).Nodup ∧ ∀ v, v ∈ runIds rows ↔
            ∃ runId, knownRuns blank before runId = some "id" ∧ v = some (.str runId) := by
  obtain ⟨w, ⟨w₁, w₂, h₁, h₂, h₃⟩, hstatuses, hlast⟩ : ∃ w, (∃ w₁ w₂,
      Watch plainSite ⟨blank, []⟩ (.request (writerPosts postedBody)) w₁ ∧
        Watch plainSite w₁ (.request writerRuns) w₂ ∧
          Watch plainSite w₂ (.request writerLists) w) ∧
      statuses w.history = [some 201, some 202, some 200] ∧
        ((w.history.getLast?.bind Answered.response).bind rowsOf).map runIds =
          some [some (.str "id")] :=
    ⟨_, ⟨_, _, .request noKeys, .request noKeys, .request noKeys⟩, by decide +kernel,
      by decide +kernel⟩
  have hreach : (watched plainSite blank).Reachable w := .step (.step (.step (.init rfl) h₁) h₂) h₃
  obtain ⟨posted, triggered, listed, hhistory, hexchange⟩ : ∃ posted triggered listed,
      w.history = [posted, triggered] ++ [listed] ∧ listed.exchange = writerLists := by
    cases h₁
    cases h₂
    cases h₃
    exact ⟨_, _, _, rfl, rfl⟩
  rw [hhistory] at hlast
  obtain ⟨rows, hrows, hids⟩ := Option.map_eq_some_iff.mp hlast
  obtain ⟨r, hr, hbody⟩ := Option.bind_eq_some_iff.mp hrows
  have hroute : route listed.exchange.arrival.request = .ok (.listRuns "id") := by
    rw [hexchange]
    rfl
  exact ⟨w, _, listed, rows, hreach, hhistory, hstatuses, hids,
    listings_as_answered hreach hhistory hroute hr (body_of_rowsOf hbody)⟩

end Runs

end Taskq.ReadBack
