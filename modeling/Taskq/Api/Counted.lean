import Taskq.Api.Metrics
import Taskq.Api.ReadBack

/-!
# Taskq.Api.Counted

The counter of `GET /v1/metrics` against the answers.

The middleware adds to `_REJECTION_COUNT` on its own 429, no handler answers with that status, and
nothing else touches the counter. So what the endpoint reports is the number of 429s that were
answered since the process started, by the time it is asked.
-/

namespace Taskq.ReadBack

open Http Access TaskList Transaction Transition

/-- The statuses of what is raised behind the limiter. -/
def raisedCodes : List ℕ := [400, 401, 403, 404, 405, 409, 422, 500, 503]

/-- The answer is a 429. -/
def limited (response : Option Response) : Bool := response.any fun r => r.status = 429

/-- The number of requests answered with 429. -/
def rejectionsIn (h : List Answered) : ℕ := h.countP fun a => limited a.response

/-- `metrics` of the site is the one of `api/routes/metrics.py`, whatever its two sessions see. -/
def Reporting (site : Site) : Prop :=
  ∀ n db m, site.metrics n db = .ok m → ∃ first second, m = Metrics.metrics n first second

/-! ### The codes behind the limiter -/

section Codes

variable {site : Site} {t : APIKeyTable} {scan : t.Scan} {app : App} {x : Exchange}

theorem code_route {request : Request} {e : Http.Raised} (h : route request = .error e) :
    code e ∈ raisedCodes := by
  unfold route at h
  split at h
  · cases h
    decide
  · split at h
    · cases h
      decide
    · cases h

theorem code_handled {α : Type} {reply : α → Reply} {call : Call Database TaskApi.Raised α}
    {db : Database} {e : Http.Raised}
    (hcall : ∀ p, (call db).1 = .error (.problem p) → p = TaskApi.conflict ∨ p = TaskApi.notFound)
    (h : (handled reply call db).1 = .error e) : code e ∈ raisedCodes := by
  rcases hhandled : handled reply call db with ⟨out, db'⟩
  rw [hhandled] at h
  obtain rfl : out = .error e := h
  rcases handled_eq_error hhandled with ⟨p, hp, rfl⟩ | ⟨e', -, rfl⟩
  · rcases hcall p (by rw [hp]) with rfl | rfl
    · decide
    · decide
  · decide

theorem code_listTasks {draw : Http.Draw} {query : Query} {db : Database} {e : Http.Raised}
    (h : (listTasks site draw query db).1 = .error e) : code e ∈ raisedCodes := by
  have hvalidation : ∀ errors, code (.validation errors) ∈ raisedCodes := fun _ => by
    show 422 ∈ raisedCodes
    decide
  unfold listTasks at h
  split at h
  next =>
      cases h
      exact hvalidation _
  next =>
      split_ifs at h
      · cases h
        decide
      · split at h
        · cases h
          decide
        · cases h
      · cases h
        decide

theorem code_handle {draw : Http.Draw} {decoded : Decoded} {query : Query} {rejections : ℕ}
    {op : Operation} {db : Database} {e : Http.Raised}
    (h : (handle site draw decoded query rejections op db).1 = .error e) :
    code e ∈ raisedCodes := by
  cases op with
  | createTask =>
      simp only [handle] at h
      split at h
      · cases h
        show 422 ∈ raisedCodes
        decide
      · exact code_handled (fun p hp => Or.inl (createTask_problem hp)) h
  | getTask taskId => exact code_handled (fun p hp => Or.inr (getTask_problem hp)) h
  | listTasks => exact code_listTasks h
  | deleteTask taskId => exact code_handled (fun p hp => absurd hp deleteTask_problem) h
  | triggerRun taskId => exact code_handled (fun p hp => Or.inr (triggerRun_problem hp)) h
  | listRuns taskId =>
      simp only [handle, listRuns] at h
      split at h
      · cases h
        decide
      · cases h
  | readyz =>
      simp only [handle, readyz] at h
      split at h
      · cases h
      · cases h
        show 503 ∈ raisedCodes
        decide
  | metrics =>
      simp only [handle] at h
      split at h
      · cases h
        decide
      · cases h
  | _ => cases h

/-- What comes of a request that the limiter lets through is no 429. -/
theorem limited_raised {e : Http.Raised} (h : code e ∈ raisedCodes) :
    limited (x.answer (exceptionHandler x.scope e)) = false := by
  cases hr : x.answer (exceptionHandler x.scope e) with
  | none => rfl
  | some r =>
      have hne : code e ≠ 429 := fun heq => absurd (heq ▸ h) (by decide)
      rcases (refuses_raised x e r hr).2 with hstatus | hstatus
      · simpa [limited, hstatus] using hne
      · simp [limited, hstatus]

/-- **One request**: it is answered with 429, or nothing is counted. -/
theorem serve_counted (site : Site) (scan : t.Scan) (app : App) (x : Exchange) :
    (serve site scan app x).app.limiter.rejections =
      app.limiter.rejections + (limited (serve site scan app x).response).toNat := by
  cases hverdict : (RateLimit.dispatch app.limiter x.arrival).1 with
  | rejected retryAfter =>
      have hserve : (serve site scan app x).response = _ ∧ _ := serve_rejected hverdict
      rw [hserve.1, hserve.2, App.metered, RateLimit.dispatch_rejections, hverdict]
      rfl
  | passed =>
      have hserve : (serve site scan app x).response = _ ∧ _ := serve_passed hverdict
      have hcount : (RateLimit.dispatch app.limiter x.arrival).2.rejections =
          app.limiter.rejections := by
        rw [RateLimit.dispatch_rejections, hverdict]
        rfl
      cases hroute : route x.arrival.request with
      | error e =>
          rw [routes_unrouted hroute] at hserve
          rw [hserve.1, hserve.2, limited_raised (code_route hroute), App.metered, hcount]
          rfl
      | ok op =>
          rw [routes_routed hroute] at hserve
          have hlimited : limited (serve site scan app x).response = false := by
            rw [hserve.1]
            cases hout : (outcome site scan app x op).1 with
            | ok reply =>
                have hbounds := op.success_bounds
                have hne : op.success ≠ 429 := by omega
                simpa [limited, outcomeResponse, Exchange.answer, sendWrapper, replyResponse]
                  using hne
            | error e =>
                refine limited_raised ?_
                simp only [outcome, endpoint] at hout
                split at hout
                next e' hpayload =>
                    cases hout
                    exact List.Sublist.subset (by decide) (code_readPayload hpayload)
                next decoded hpayload =>
                    split at hout
                    next e' hauth =>
                        cases hout
                        exact List.Sublist.subset (by decide) (code_authorize hauth)
                    next hauth => exact code_handle hout
          rw [hlimited, hserve.2, App.metered, hcount]
          rfl

end Codes

/-- Only `metrics` returns metrics. -/
theorem handle_metrics {site : Site} {draw : Http.Draw} {decoded : Decoded} {query : Query}
    {rejections : ℕ} {op : Operation} {db db' : Database} {m : Http.Metrics}
    (h : handle site draw decoded query rejections op db = (.ok (.metrics m), db')) :
    site.metrics rejections db = .ok m := by
  cases op with
  | createTask =>
      simp only [handle] at h
      split at h
      · cases h
      · obtain ⟨d, -, hreply⟩ := handled_eq_ok h
        cases hreply
  | getTask taskId =>
      obtain ⟨d, -, hreply⟩ := handled_eq_ok h
      cases hreply
  | deleteTask taskId =>
      obtain ⟨d, -, hreply⟩ := handled_eq_ok h
      cases hreply
  | triggerRun taskId =>
      obtain ⟨d, -, hreply⟩ := handled_eq_ok h
      cases hreply
  | listTasks =>
      obtain ⟨ds, next, hreply⟩ := listTasks_ok h
      cases hreply
  | listRuns taskId =>
      simp only [handle, listRuns] at h
      split at h <;> cases h
  | readyz =>
      simp only [handle, readyz] at h
      split at h <;> cases h
  | metrics =>
      simp only [handle] at h
      split at h
      next => cases h
      next hmetrics =>
          cases h
          exact hmetrics
  | _ => cases h

/-- What the endpoint reports is the counter. -/
theorem serve_metrics {site : Site} {t : APIKeyTable} {scan : t.Scan} {app : App} {x : Exchange}
    (hsite : Reporting site) {r : Response} {m : Http.Metrics}
    (hr : (serve site scan app x).response = some r) (hbody : r.body = .reply (.metrics m)) :
    m.rateLimitRejections = app.limiter.rejections := by
  cases hverdict : (RateLimit.dispatch app.limiter x.arrival).1 with
  | rejected retryAfter =>
      have hserve : (serve site scan app x).response = _ ∧ _ := serve_rejected hverdict
      rw [hserve.1] at hr
      cases hr
      cases hbody
  | passed =>
      have hmetered : (app.metered x).limiter.rejections = app.limiter.rejections := by
        rw [App.metered, RateLimit.dispatch_rejections, hverdict]
        rfl
      have hcomes := serve_comes site scan app x
      generalize (serve site scan app x).response = response at hcomes hr
      generalize (serve site scan app x).app.db = db' at hcomes
      cases hcomes with
      | stopped hrefuses => exact absurd hbody ((hrefuses r hr).1 _)
      | @handled op decoded out db' hroute hhandle =>
          cases out with
          | error e => exact absurd hbody ((refuses_raised x e r hr).1 _)
          | ok reply =>
              have hreply := (answer_ok hr).1
              rw [hbody] at hreply
              obtain rfl : .metrics m = reply := Body.reply.inj hreply
              obtain ⟨first, second, hm⟩ := hsite _ _ _ (handle_metrics hhandle)
              rw [hm, ← hmetered]
              rfl

/-! ### Whole runs -/

section Runs

variable {site : Site} {d₀ : Deployment} {w : Watched}

theorem counted_watched (h : (watched site d₀).Reachable w) :
    w.deployment.app.limiter.rejections =
      d₀.app.limiter.rejections + rejectionsIn w.history := by
  refine h.invariant (I := fun w => w.deployment.app.limiter.rejections =
    d₀.app.limiter.rejections + rejectionsIn w.history) ?_ ?_
  · intro w hw
    obtain rfl : w = _ := hw
    rfl
  · intro w e w' _ hw hstep
    cases hstep with
    | key => exact hw
    | completion => exact hw
    | @request d history x scan =>
        have hstart : d.app.limiter.rejections =
            d₀.app.limiter.rejections + rejectionsIn history := hw
        show (serve site scan d.app x).app.limiter.rejections = _
        rw [serve_counted, hstart, rejectionsIn, rejectionsIn, List.countP_append,
          List.countP_singleton, add_assoc]
        cases limited (serve site scan d.app x).response <;> rfl

/-- **Rejections are as answered.** In every run of a deployment that serves its exchanges one after
another, what `GET /v1/metrics` reports of rejections is the number of requests that had been
answered with 429, over whatever was counted at the start. -/
theorem rejections_as_answered (hsite : Reporting site) (h : (watched site d₀).Reachable w)
    {before after : List Answered} {a : Answered} (hhistory : w.history = before ++ a :: after)
    {r : Response} {m : Http.Metrics} (hr : a.response = some r)
    (hbody : r.body = .reply (.metrics m)) :
    m.rateLimitRejections = d₀.app.limiter.rejections + rejectionsIn before := by
  obtain ⟨w₁, scan, hreach, rfl, hresponse⟩ := answer_of_history h hhistory
  rw [hresponse] at hr
  rw [← counted_watched hreach]
  exact serve_metrics hsite hr hbody

/-- The site that reports what it counts. -/
def reportingSite : Site :=
  { plainSite with metrics := fun rejections db => .ok (Metrics.metrics rejections db db) }

/-- Every key has one request. -/
def strict : Deployment where
  app := { limiter := RateLimit.Limiter.new ⟨1, 0⟩, db := .empty }
  keys := .empty

/-- The metrics are read with a key that may. -/
def adminMeasures : Exchange :=
  .plain "GET" metricsPath
    ['t', 'a', 's', 'k', 'q', '-', 'a', 'd', 'm', 'i', 'n', '-', 't', 'e', 's', 't', '-', 'k', 'e',
      'y', '-', 'x', 'y', 'z', '7', '8', '9'] (.read .absent)

/-- The metrics that were reported, if they were. -/
def metricsOf (r : Response) : Option Http.Metrics :=
  match r.body with
  | .reply (.metrics m) => some m
  | _ => none

theorem body_of_metricsOf {r : Response} {m : Http.Metrics} (h : metricsOf r = some m) :
    r.body = .reply (.metrics m) := by
  unfold metricsOf at h
  split at h
  next hbody =>
      cases h
      exact hbody
  next => cases h

theorem rejections_as_answered_strict :
    ∃ (w : Watched) (before : List Answered) (a : Answered) (m : Http.Metrics),
      (watched reportingSite strict).Reachable w ∧ w.history = before ++ [a] ∧
        statuses w.history = [some 201, some 429, some 200] ∧ a.response.bind metricsOf = some m ∧
          m.rateLimitRejections = strict.app.limiter.rejections + rejectionsIn before := by
  obtain ⟨w, ⟨w₁, w₂, h₁, h₂, h₃⟩, hstatuses, hlast⟩ : ∃ w, (∃ w₁ w₂,
      Watch reportingSite ⟨strict, []⟩ (.request (writerPosts postedBody)) w₁ ∧
        Watch reportingSite w₁ (.request writerReads) w₂ ∧
          Watch reportingSite w₂ (.request adminMeasures) w) ∧
      statuses w.history = [some 201, some 429, some 200] ∧
        ((w.history.getLast?.bind Answered.response).bind metricsOf).isSome = true :=
    ⟨_, ⟨_, _, .request noKeys, .request noKeys, .request noKeys⟩, by decide +kernel,
      by decide +kernel⟩
  have hreach : (watched reportingSite strict).Reachable w :=
    .step (.step (.step (.init rfl) h₁) h₂) h₃
  obtain ⟨posted, limited, measured, hhistory⟩ : ∃ posted limited measured,
      w.history = [posted, limited] ++ [measured] := by
    cases h₁
    cases h₂
    cases h₃
    exact ⟨_, _, _, rfl⟩
  rw [hhistory] at hlast
  obtain ⟨m, hm⟩ := Option.isSome_iff_exists.mp hlast
  obtain ⟨r, hr, hmetrics⟩ := Option.bind_eq_some_iff.mp hm
  have hsite : Reporting reportingSite := by
    intro n db m hm
    cases hm
    exact ⟨db, db, rfl⟩
  exact ⟨w, _, measured, m, hreach, hhistory, hstatuses, hm,
    rejections_as_answered hsite hreach hhistory hr (body_of_metricsOf hmetrics)⟩

end Runs

end Taskq.ReadBack
