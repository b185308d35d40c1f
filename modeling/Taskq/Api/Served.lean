import Taskq.Api.App

/-!
# Taskq.Api.Served

The app as a whole serves what the task handlers answer.

A request that the limiter lets through, that has a route and a key good enough for it, and
whose body is accepted is answered with the status of `TaskApi.respond`, and leaves the
database that `TaskApi.respond` leaves. So what `TaskApi` shows of whole histories of
requests holds of the app, as long as nothing stops a request on its way in.
-/

namespace Taskq.Http

open Transaction

/-- What an exchange asks of the task handlers, where it gets to one of them. -/
def taskRequest (x : Exchange) : Operation → Option TaskApi.Request
  | .createTask =>
      match x.payload with
      | .read decoded =>
          match taskCreate decoded with
          | .ok body => some (.create x.draw.id x.draw.now body)
          | .error _ => none
      | _ => none
  | .getTask taskId => some (.get taskId)
  | .deleteTask taskId => some (.delete taskId)
  | .triggerRun taskId => some (.run taskId x.draw.id x.draw.now)
  | _ => none

section Served

variable {site : Site} {t : APIKeyTable} {scan : t.Scan} {app : App} {x : Exchange}
  {op : Operation} {db : Database}

/-- The response to an outcome has this status. -/
def AnsweredWith (x : Exchange) (op : Operation) (out : Except Raised Reply) (status : ℕ) : Prop :=
  ∃ r, x.answer (outcomeResponse x.scope op out) = some r ∧ r.status = status

theorem answeredWith_problem {p : TaskApi.Problem} (hstatus : p.status < 1000) :
    AnsweredWith x op (.error (.problem (.raised p []))) p.status := by
  refine ⟨sendWrapper x.cid (problemAnswer x.scope x.cid p []), ?_, rfl⟩
  rw [outcomeResponse, exceptionHandler, problemResponse_raised x.identified hstatus,
    if_pos (by simp), Exchange.answer]

/-- A task handler's outcome is answered with the status it stands for. -/
theorem answeredWith_handled {α : Type} {reply : α → Reply}
    {call : Call Database TaskApi.Raised α}
    (hcall : ∀ p, (call db).1 = .error (.problem p) → p = TaskApi.conflict ∨ p = TaskApi.notFound) :
    AnsweredWith x op (handled reply call db).1 (TaskApi.status op.success (call db).1) ∧
      (handled reply call db).2 = (call db).2 := by
  rcases hout : call db with ⟨e | a, db'⟩
  · cases e with
    | problem p =>
        have hhandled : handled reply call db = (.error (.problem (.raised p [])), db') := by
          simp only [handled, hout]
        have hstatus : p.status < 1000 := by
          rcases hcall p (by rw [hout]) with rfl | rfl
          · decide
          · decide
        rw [hhandled]
        exact ⟨answeredWith_problem hstatus, rfl⟩
    | unhandled e =>
        have hhandled : handled reply call db = (.error .other, db') := by
          simp only [handled, hout]
        obtain ⟨p, hstatus, -, hanswer⟩ := problemResponse_internalServerError x.identified
        rw [hhandled]
        exact ⟨⟨_, hanswer, hstatus⟩, rfl⟩
  · have hhandled : handled reply call db = (.ok (reply a), db') := by
      simp only [handled, hout]
    rw [hhandled]
    exact ⟨⟨_, rfl, rfl⟩, rfl⟩

/-- What becomes of a request whose key is good enough. -/
theorem outcome_authorized {decoded : Decoded} (hpayload : readPayload op x.payload = .ok decoded)
    (hauth : authorize site scan (apiKey x.arrival.request) op.dependencies = .ok ()) :
    outcome site scan app x op =
      handle site x.draw decoded x.query (app.metered x).limiter.rejections op app.db := by
  simp only [outcome, endpoint, hpayload, hauth]

/-- The task handlers behind their routes answer as they do by themselves. -/
theorem outcome_taskRequest {req : TaskApi.Request} (hengine : site.engine = buildEngine)
    (hfirst : x.draw.first = Faults.none) (hsecond : x.draw.second = Faults.none)
    (hauth : authorize site scan (apiKey x.arrival.request) op.dependencies = .ok ())
    (hreq : taskRequest x op = some req) :
    AnsweredWith x op (outcome site scan app x op).1 (TaskApi.respond app.db req).1 ∧
      (outcome site scan app x op).2 = (TaskApi.respond app.db req).2 := by
  cases op with
  | createTask =>
      simp only [taskRequest] at hreq
      split at hreq
      next decoded hpayload =>
          split at hreq
          next body hbody =>
              cases hreq
              have hread : readPayload .createTask x.payload = .ok decoded := by
                rw [hpayload]
                rfl
              rw [outcome_authorized hread hauth]
              simp only [handle, hbody, hfirst, hsecond]
              exact answeredWith_handled fun p hp => Or.inl (createTask_problem hp)
          next => cases hreq
      next => cases hreq
  | getTask taskId =>
      cases hreq
      rw [outcome_authorized rfl hauth]
      simp only [handle, hfirst]
      exact answeredWith_handled fun p hp => Or.inr (getTask_problem hp)
  | deleteTask taskId =>
      cases hreq
      rw [outcome_authorized rfl hauth]
      simp only [handle, hfirst, hsecond, hengine]
      exact answeredWith_handled fun p hp => absurd hp deleteTask_problem
  | triggerRun taskId =>
      cases hreq
      rw [outcome_authorized rfl hauth]
      simp only [handle, hfirst, hsecond, hengine]
      exact answeredWith_handled fun p hp => Or.inr (triggerRun_problem hp)
  | listTasks => cases hreq
  | listRuns taskId => cases hreq
  | healthz => cases hreq
  | readyz => cases hreq
  | metrics => cases hreq
  | openapi => cases hreq
  | page => cases hreq

/-- **The app serves the task handlers**: a request that gets to one of them is answered with
its status, and the database becomes what the handler makes of it. -/
theorem serve_taskRequest {req : TaskApi.Request} (hengine : site.engine = buildEngine)
    (hfirst : x.draw.first = Faults.none) (hsecond : x.draw.second = Faults.none)
    (hverdict : (RateLimit.dispatch app.limiter x.arrival).1 = .passed)
    (hroute : route x.arrival.request = .ok op)
    (hauth : authorize site scan (apiKey x.arrival.request) op.dependencies = .ok ())
    (hreq : taskRequest x op = some req) :
    ((serve site scan app x).response.map Response.status,
        (serve site scan app x).app.db)
      = (some (TaskApi.respond app.db req).1, (TaskApi.respond app.db req).2) := by
  have hout : AnsweredWith x op (outcome site scan app x op).1 (TaskApi.respond app.db req).1 ∧
      (outcome site scan app x op).2 = (TaskApi.respond app.db req).2 :=
    outcome_taskRequest hengine hfirst hsecond hauth hreq
  obtain ⟨⟨r, hr, hstatus⟩, hdb⟩ := hout
  have hserve : (serve site scan app x).response = _ ∧ _ := serve_passed hverdict
  rw [routes_routed hroute] at hserve
  rw [hserve.1, hserve.2, hr, Option.map_some, hstatus, hdb]

end Served

end Taskq.Http
