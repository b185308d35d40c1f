import Taskq.Api.App

/-!
# Taskq.Api.Forbidden

What a client learns whose scope is too low: nothing about tasks or runs.

The body is read and the scope is checked before a handler looks at the database, so what
is raised is the same whatever there is in the two tables (`endpoint_refused`), and the
layers around make the same of it.
-/

namespace Taskq.Http

open Unicode

section Refused

variable {site : Site} {t : APIKeyTable} {scan : t.Scan} {key held required : PyStr}

/-- The scope a key resolves to. -/
def Resolves (site : Site) {t : APIKeyTable} (scan : t.Scan) (request : Request)
    (held : PyStr) : Prop :=
  ∃ c key, apiKey request = some (c :: key) ∧
    orElse (lookupScope site.sha256 scan (c :: key)) (legacyKeyScopes (c :: key)) = some held

/-- A key with a scope that does not meet the requirement is known, and refused. -/
theorem requireScope_of_low {request : Request} (hheld : Resolves site scan request held)
    (hlow : ¬ Meets held required) :
    requireScope site scan (apiKey request) required
      = .error (.problem (.raised forbidden [])) := by
  obtain ⟨c, key, hkey, hscope⟩ := hheld
  have hverify : verifyAPIKey site.sha256 scan (apiKey request) (some required)
      = .error .insufficientScope := by
    rw [hkey]
    simp only [verifyAPIKey, hscope]
    split
    next requiredRank heldRank hrequired hrank =>
        rw [if_pos]
        by_contra hge
        exact hlow ⟨heldRank, requiredRank, hrank, hrequired, not_lt.mp hge⟩
    next => rfl
  rw [requireScope, hverify]

theorem dependencies_of_scope {op : Operation} (h : op.scope? = some required) :
    ∃ rest, op.dependencies = required :: rest := by
  cases op <;> cases h <;> exact ⟨_, rfl⟩

/-- A request of somebody whose scope is too low raises the same on every database, and
leaves it alone. -/
theorem endpoint_refused {request : Request} {op : Operation} (hscope : op.scope? = some required)
    (hheld : Resolves site scan request held) (hlow : ¬ Meets held required)
    (payload : Payload) : ∃ e, ∀ draw query rejections db,
      endpoint site scan draw request payload query rejections op db = (.error e, db) := by
  cases hpayload : readPayload op payload with
  | error e =>
      refine ⟨e, fun draw query rejections db => ?_⟩
      simp only [endpoint, hpayload]
  | ok decoded =>
      obtain ⟨rest, hdependencies⟩ := dependencies_of_scope hscope
      refine ⟨.problem (.raised forbidden []), fun draw query rejections db => ?_⟩
      simp only [endpoint, hpayload, hdependencies, authorize, requireScope_of_low hheld hlow]

end Refused

/-- The same request, with other things drawn while it is handled. -/
def Exchange.withDraw (x : Exchange) (draw : Draw) : Exchange := { x with draw := draw }

/-- The answer to such a request is one, and the database is as before. -/
theorem serve_refused {site : Site} {t : APIKeyTable} {scan : t.Scan} {held required : PyStr}
    (limiter : RateLimit.Limiter) {x : Exchange} {op : Operation}
    (hroute : route x.arrival.request = .ok op) (hscope : op.scope? = some required)
    (hheld : Resolves site scan x.arrival.request held) (hlow : ¬ Meets held required) :
    ∃ response, ∀ (app : App) draw, app.limiter = limiter →
      (serve site scan app (x.withDraw draw)).response = response ∧
      (serve site scan app (x.withDraw draw)).app.db = app.db := by
  cases hverdict : (RateLimit.dispatch limiter x.arrival).1 with
  | rejected retryAfter =>
      refine ⟨some (sendWrapper x.cid (limitAnswer x.scope retryAfter)), fun app draw h => ?_⟩
      subst h
      have hserve : (serve site scan app (x.withDraw draw)).response
            = some (sendWrapper x.cid (limitAnswer x.scope retryAfter)) ∧
          (serve site scan app (x.withDraw draw)).app = app.metered (x.withDraw draw) :=
        serve_rejected hverdict
      exact ⟨hserve.1, by rw [hserve.2, App.metered]⟩
  | passed =>
      obtain ⟨e, hrefused⟩ := endpoint_refused hscope hheld hlow x.payload
      refine ⟨x.answer (exceptionHandler x.scope e), fun app draw h => ?_⟩
      subst h
      have hserve : (serve site scan app (x.withDraw draw)).response
            = x.answer (routes site scan (x.withDraw draw) x.scope
                (app.metered (x.withDraw draw))).response ∧
          (serve site scan app (x.withDraw draw)).app
            = (routes site scan (x.withDraw draw) x.scope (app.metered (x.withDraw draw))).app :=
        serve_passed hverdict
      have hroutes :
          routes site scan (x.withDraw draw) x.scope (app.metered (x.withDraw draw)) = _ :=
        routes_routed hroute
      have hout : outcome site scan app (x.withDraw draw) op = (.error e, app.db) :=
        hrefused _ _ _ _
      rw [hroutes, hout] at hserve
      exact ⟨hserve.1, by rw [hserve.2]⟩

/-! ### Main results -/

/-- What matches the whole of a path agrees with what it starts with. -/
theorem prefix_of_chomp {path start whole : List Char} (hstart : start <+: path)
    (hwhole : chomp path = whole) : start <+: whole ∨ whole <+: start := by
  have hchomp : chomp path <+: path := by
    unfold chomp
    split_ifs
    · exact List.dropLast_prefix path
    · exact List.prefix_rfl
  exact List.prefix_or_prefix_of_prefix hstart (hwhole ▸ hchomp)

/-- The resources that anybody may ask for. -/
def openResources : List Resource := [.healthz, .readyz, .openapi, .page]

theorem belowTasks_closed {rest : List Char} {resource : Resource}
    (h : belowTasks rest = some resource) : resource ∉ openResources := by
  simp only [belowTasks] at h
  split_ifs at h <;> cases h <;> simp [openResources]

/-- None of them is under `/v1`. -/
theorem resource_of_v1 {path : List Char} {resource : Resource}
    (h : resource? path = some resource) (hv1 : ['/', 'v', '1', '/'] <+: path) :
    resource ∉ openResources := by
  have hpages : ∀ page ∈ pagePaths,
      ¬ (['/', 'v', '1', '/'] <+: page ∨ page <+: ['/', 'v', '1', '/']) := by decide
  unfold resource? at h
  split_ifs at h with hopenapi hpage htasks hhealthz hreadyz
  · exact absurd (prefix_of_chomp hv1 hopenapi) (by decide)
  · exact absurd (prefix_of_chomp hv1 rfl) (hpages _ hpage)
  · cases h
    simp [openResources]
  · exact absurd (prefix_of_chomp hv1 hhealthz) (by decide)
  · exact absurd (prefix_of_chomp hv1 hreadyz) (by decide)
  · cases h
    simp [openResources]
  · exact belowTasks_closed h

theorem scope_of_closed {resource : Resource} {method : String} {op : Operation}
    (h : operation? resource method = some op) (hclosed : resource ∉ openResources) :
    op.scope?.isSome = true := by
  cases resource with
  | tasks =>
      simp only [operation?] at h
      split_ifs at h
      · cases h
        rfl
      · cases h
        rfl
  | task taskId =>
      simp only [operation?] at h
      split_ifs at h
      · cases h
        rfl
      · cases h
        rfl
  | run taskId =>
      obtain ⟨-, hop⟩ := Option.ite_none_right_eq_some.mp h
      cases hop
      rfl
  | runs taskId =>
      obtain ⟨-, hop⟩ := Option.ite_none_right_eq_some.mp h
      cases hop
      rfl
  | metrics =>
      obtain ⟨-, hop⟩ := Option.ite_none_right_eq_some.mp h
      cases hop
      rfl
  | healthz => exact absurd (by simp [openResources]) hclosed
  | readyz => exact absurd (by simp [openResources]) hclosed
  | openapi => exact absurd (by simp [openResources]) hclosed
  | page => exact absurd (by simp [openResources]) hclosed

/-- Every route under `/v1` asks for a scope. -/
theorem scope_of_v1 {request : Request} {op : Operation} (hroute : route request = .ok op)
    (hv1 : ['/', 'v', '1', '/'] <+: request.path) : op.scope?.isSome = true := by
  unfold route at hroute
  split at hroute
  next => cases hroute
  next resource hresource =>
      split at hroute
      next => cases hroute
      next op' hop =>
          cases hroute
          exact scope_of_closed hop (resource_of_v1 hresource hv1)

/-- **A refusal reveals nothing.** On any two databases, the answers to somebody whose scope
is too low for the route are the same, and both databases stay as they are. -/
theorem forbidden_reveals_nothing (site : Site) {t : APIKeyTable} (scan : t.Scan)
    (app₁ app₂ : App) (x : Exchange) (draw₁ draw₂ : Draw) {op : Operation} {held required : PyStr}
    (hlimiter : app₁.limiter = app₂.limiter) (hroute : route x.arrival.request = .ok op)
    (hscope : op.scope? = some required) (hheld : Resolves site scan x.arrival.request held)
    (hlow : ¬ Meets held required) :
    (serve site scan app₁ (x.withDraw draw₁)).response =
        (serve site scan app₂ (x.withDraw draw₂)).response ∧
      (serve site scan app₁ (x.withDraw draw₁)).app.db = app₁.db ∧
      (serve site scan app₂ (x.withDraw draw₂)).app.db = app₂.db := by
  obtain ⟨response, hserve⟩ := serve_refused app₂.limiter hroute hscope hheld hlow
  obtain ⟨hresponse₁, hdb₁⟩ := hserve app₁ draw₁ hlimiter
  obtain ⟨hresponse₂, hdb₂⟩ := hserve app₂ draw₂ rfl
  exact ⟨hresponse₁.trans hresponse₂.symm, hdb₁, hdb₂⟩

/-- Deleting a task with a key that may only read. -/
def readerDeletes : Exchange :=
  .plain "DELETE" ['/', 'v', '1', '/', 't', 'a', 's', 'k', 's', '/', 'a']
    ['t', 'a', 's', 'k', 'q', '-', 'r', 'e', 'a', 'd', '-', 't', 'e', 's', 't', '-', 'k', 'e', 'y',
      '-', 'a', 'b', 'c', '4', '5', '6'] (.read .absent)

theorem forbidden_reveals_nothing_reader :
    let x := readerDeletes
    let app₁ := App.new .empty
    let app₂ := App.new TaskService.oneResult
    (serve plainSite noKeys app₁ (x.withDraw x.draw)).response =
        (serve plainSite noKeys app₂ (x.withDraw x.draw)).response ∧
      (serve plainSite noKeys app₁ (x.withDraw x.draw)).app.db = app₁.db ∧
      (serve plainSite noKeys app₂ (x.withDraw x.draw)).app.db = app₂.db := by
  have hresolves : Resolves plainSite noKeys readerDeletes.arrival.request
      (PyStr.ofString "read") := by
    refine ⟨_, _, rfl, ?_⟩
    decide +kernel
  have hlow : ¬ Meets (PyStr.ofString "read") (PyStr.ofString "admin") := by
    intro hmeets
    obtain ⟨h, r, hheld, hrequired, hle⟩ := hmeets
    have hread : scopeRank (PyStr.ofString "read") = some 0 := by decide
    have hadmin : scopeRank (PyStr.ofString "admin") = some 2 := by decide
    rw [hread, Option.some.injEq] at hheld
    rw [hadmin, Option.some.injEq] at hrequired
    omega
  exact forbidden_reveals_nothing plainSite noKeys _ _ readerDeletes _ _ rfl rfl rfl hresolves hlow

end Taskq.Http
