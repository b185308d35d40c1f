import Taskq.Api.Contract

/-!
# Taskq.Api.Rejected

What a client gets whose body `TaskCreate` rejects.

The errors go into the problem document as pydantic lists them, input echoed and exceptions
included. A list that cannot be rendered raises in the handler of the exception, and the
client gets a 500. `rejected_cleanly_iff` says for which bodies it is a 422.
-/

namespace Taskq.Http

open Unicode

/-- The answer is 422, a problem document, and the database is as before. -/
def RejectedCleanly (db : Database) (out : Outcome) : Prop :=
  ∃ r, out.response = some r ∧ r.status = 422 ∧
    getHeader r.headers contentTypeHeader = some problemJson ∧ out.app.db = db

section Rejected

variable {site : Site} {t : APIKeyTable} {scan : t.Scan} {app : App} {x : Exchange} {v : Json.Value}
  {errors : List ErrorEntry}

/-- The key of the request may write. -/
def MayWrite (site : Site) {t : APIKeyTable} (scan : t.Scan) (request : Request) : Prop :=
  ∃ p, verifyAPIKey site.sha256 scan (apiKey request) (some (PyStr.ofString "write")) = .ok p

/-- A rejected body is reported, and nothing is stored. -/
theorem outcome_rejected (hwrite : MayWrite site scan x.arrival.request)
    (hbody : x.payload = .read (.json v)) (hreject : TaskCreate.validate v = .error errors) :
    outcome site scan app x .createTask = (.error (.validation errors), app.db) := by
  obtain ⟨p, hverify⟩ := hwrite
  have hauth : authorize site scan (apiKey x.arrival.request)
      Operation.createTask.dependencies = .ok () := by
    simp only [Operation.dependencies, Operation.scope?, authorize, requireScope, hverify]
  simp only [outcome, endpoint, hbody, readPayload, hauth, handle, taskCreate, hreject]

/-- Whatever the answer, the database is as before. -/
theorem rejected_keeps_db (hroute : route x.arrival.request = .ok .createTask)
    (hwrite : MayWrite site scan x.arrival.request) (hbody : x.payload = .read (.json v))
    (hreject : TaskCreate.validate v = .error errors) :
    (serve site scan app x).app.db = app.db := by
  cases hverdict : (RateLimit.dispatch app.limiter x.arrival).1 with
  | rejected retryAfter =>
      rw [(serve_rejected hverdict).2]
      rfl
  | passed =>
      rw [(serve_passed hverdict).2, routes_routed hroute,
        outcome_rejected hwrite hbody hreject]

/-- The answer to a body that is let through and rejected. -/
theorem response_rejected (hroute : route x.arrival.request = .ok .createTask)
    (hwrite : MayWrite site scan x.arrival.request) (hbody : x.payload = .read (.json v))
    (hreject : TaskCreate.validate v = .error errors)
    (hverdict : (RateLimit.dispatch app.limiter x.arrival).1 = .passed) :
    (serve site scan app x).response =
      x.answer (problemResponse x.scope (validationProblem errors)) := by
  rw [(serve_passed hverdict).1, routes_routed hroute, outcome_rejected hwrite hbody hreject]
  rfl

/-- Through the wrapper, the answer to the errors is a 422 with its media type. -/
theorem answer_validation {extra : List (String × Content)} :
    ∃ r, x.answer (some (problemAnswer x.scope x.cid validationFailed extra)) = some r ∧
      r.status = 422 ∧ getHeader r.headers contentTypeHeader = some problemJson := by
  refine ⟨_, rfl, rfl, ?_⟩
  rw [getHeader_sendWrapper (by decide)]
  exact getHeader_contentType (by decide) isLatin1_problemJson

/-- Errors that cannot be rendered end in a 500. -/
theorem response_unrendered (hroute : route x.arrival.request = .ok .createTask)
    (hwrite : MayWrite site scan x.arrival.request) (hbody : x.payload = .read (.json v))
    (hreject : TaskCreate.validate v = .error errors)
    (hverdict : (RateLimit.dispatch app.limiter x.arrival).1 = .passed)
    (hbad : ¬ (Json.writable v = true ∧ ¬ TaskCreate.TripsBlacklist v)) :
    ∃ r, (serve site scan app x).response = some r ∧ r.status = 500 := by
  rw [← TaskCreate.validate_renders_iff hreject] at hbad
  obtain ⟨p, hstatus, -, hanswer⟩ := problemResponse_internalServerError x.identified
  refine ⟨problemAnswer x.scope x.cid p [], ?_, hstatus⟩
  rw [response_rejected hroute hwrite hbody hreject hverdict,
    problemResponse_validation x.identified, if_neg hbad]
  exact hanswer

/-- Errors that can be rendered are the answer. -/
theorem response_rendered (hroute : route x.arrival.request = .ok .createTask)
    (hwrite : MayWrite site scan x.arrival.request) (hbody : x.payload = .read (.json v))
    (hreject : TaskCreate.validate v = .error errors)
    (hverdict : (RateLimit.dispatch app.limiter x.arrival).1 = .passed)
    (hgood : Json.writable v = true ∧ ¬ TaskCreate.TripsBlacklist v) :
    RejectedCleanly app.db (serve site scan app x) := by
  rw [← TaskCreate.validate_renders_iff hreject] at hgood
  obtain ⟨r, hr, hstatus, hmedia⟩ := answer_validation (x := x)
  refine ⟨r, ?_, hstatus, hmedia, rejected_keeps_db hroute hwrite hbody hreject⟩
  rw [response_rejected hroute hwrite hbody hreject hverdict,
    problemResponse_validation x.identified, if_pos hgood]
  exact hr

theorem not_rejectedCleanly {db : Database} {out : Outcome} {r : Response}
    (hr : out.response = some r) (hstatus : r.status ≠ 422) : ¬ RejectedCleanly db out := by
  intro h
  obtain ⟨r', hr', hstatus', -⟩ := h
  rw [hr, Option.some.injEq] at hr'
  exact hstatus (hr' ▸ hstatus')

end Rejected

/-! ### Main results -/

/-- **Which rejected bodies are answered with 422**: those that the limiter lets through, that
can be written back, and in which no field would do but for a blacklisted character. -/
theorem rejected_cleanly_iff (site : Site) {t : APIKeyTable} (scan : t.Scan) (app : App)
    (x : Exchange) {v : Json.Value} {errors : List ErrorEntry}
    (hroute : route x.arrival.request = .ok .createTask)
    (hwrite : MayWrite site scan x.arrival.request) (hbody : x.payload = .read (.json v))
    (hreject : TaskCreate.validate v = .error errors) :
    RejectedCleanly app.db (serve site scan app x) ↔
      (RateLimit.dispatch app.limiter x.arrival).1 = .passed ∧
        Json.writable v = true ∧ ¬ TaskCreate.TripsBlacklist v := by
  cases hverdict : (RateLimit.dispatch app.limiter x.arrival).1 with
  | rejected retryAfter =>
      refine iff_of_false (not_rejectedCleanly (serve_rejected hverdict).1 ?_) ?_
      · show 429 ≠ 422
        decide
      · intro h
        cases h.1
  | passed =>
      rw [and_iff_right rfl]
      by_cases hgood : Json.writable v = true ∧ ¬ TaskCreate.TripsBlacklist v
      · exact iff_of_true (response_rendered hroute hwrite hbody hreject hverdict hgood) hgood
      · obtain ⟨r, hr, hstatus⟩ := response_unrendered hroute hwrite hbody hreject hverdict hgood
        exact iff_of_false (not_rejectedCleanly hr (by omega)) hgood

/-- A task is posted with a key that may write. -/
def writerPosts (v : Json.Value) : Exchange :=
  .plain "POST" tasksPath
    ['t', 'a', 's', 'k', 'q', '-', 'w', 'r', 'i', 't', 'e', '-', 't', 'e', 's', 't', '-', 'k', 'e',
      'y', '-', 'a', 'b', 'c', '1', '2', '3'] (.read (.json v))

theorem mayWrite_writerPosts (v : Json.Value) :
    MayWrite plainSite noKeys (writerPosts v).arrival.request := by
  refine ⟨{ scope := PyStr.ofString "write"
            keyId := PyStr.ofString "taskq-write-test-key-abc123" }, ?_⟩
  show verifyAPIKey plainSite.sha256 noKeys
    (apiKey (writerPosts .null).arrival.request) _ = _
  decide +kernel

theorem rejected_cleanly_iff_empty :
    let x := writerPosts (.obj [])
    RejectedCleanly .empty (serve plainSite noKeys (App.new .empty) x) ↔
      (RateLimit.dispatch (App.new .empty).limiter x.arrival).1 = .passed ∧
        Json.writable (.obj []) = true ∧ ¬ TaskCreate.TripsBlacklist (.obj []) :=
  rejected_cleanly_iff plainSite noKeys (App.new .empty) (writerPosts (.obj [])) rfl
    (mayWrite_writerPosts _) rfl rfl

/-- A name with a semicolon. -/
def semicolonBody : Json.Value :=
  .obj [(nameKey, .str (PyStr.ofChars ['a', ';', 'b'])),
    (commandKey, .str (PyStr.ofChars ['t', 'r', 'u', 'e']))]

/-- The exception in the entry for a blacklisted character cannot be rendered. -/
theorem blacklisted_name_answered_500 :
    ¬ ∀ (site : Site) (t : APIKeyTable) (scan : t.Scan) (app : App) (x : Exchange)
        (v : Json.Value) (errors : List ErrorEntry),
      route x.arrival.request = .ok .createTask → MayWrite site scan x.arrival.request →
        x.payload = .read (.json v) → TaskCreate.validate v = .error errors →
          RejectedCleanly app.db (serve site scan app x) := by
  intro h
  have htrips : TaskCreate.TripsBlacklist semicolonBody :=
    Or.inl ⟨['a', ';', 'b'], rfl, by decide, by decide, ';', by decide, by decide⟩
  obtain ⟨errors, hreject⟩ := TaskCreate.validate_of_tripsBlacklist htrips
  have hverdict : (RateLimit.dispatch (App.new .empty).limiter
      (writerPosts semicolonBody).arrival).1 = .passed := by
    decide +kernel
  obtain ⟨r, hr, hstatus⟩ := response_unrendered rfl (mayWrite_writerPosts semicolonBody) rfl
    hreject hverdict fun hgood => hgood.2 htrips
  exact not_rejectedCleanly hr (by omega)
    (h plainSite _ noKeys (App.new .empty) (writerPosts semicolonBody) semicolonBody errors rfl
      (mayWrite_writerPosts _) rfl hreject)

end Taskq.Http
