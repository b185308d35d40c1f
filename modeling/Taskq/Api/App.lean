import Taskq.Api.Endpoints

/-!
# Taskq.Api.App

The app that `create_app` builds (`api/app.py`): the routes inside Starlette's exception
layer, that inside the rate limiter, that inside the correlation-id middleware, and all of
it inside Starlette's server-error layer.

A layer takes the scope and the app and gives a response, or lets an exception out. The
`state` dict of the scope is one dict for all of them: what an inner layer puts there, an
outer one finds.
-/

namespace Taskq.Http

open Unicode

/-! ### Layers -/

/-- What changes from request to request. -/
structure App where
  limiter : RateLimit.Limiter
  db : Database

/-- A record of the logger `taskq.api.correlation`. -/
structure LogRecord where
  method : String
  path : List Char
  correlationId : List Char
  deriving DecidableEq

/-- `logger.info("request %s %s correlation_id=%s", ...)`. -/
def LogRecord.message (r : LogRecord) : List Char :=
  "request ".toList ++ r.method.toList ++ [' '] ++ r.path ++ " correlation_id=".toList ++
    r.correlationId

/-- What comes of a request in a layer; without a response an exception is on its way out. -/
structure Outcome where
  response : Option Response
  scope : Scope
  log : List LogRecord
  app : App

abbrev Layer := Scope → App → Outcome

/-- A request, and what happens while it is handled. -/
structure Exchange where
  arrival : RateLimit.Arrival
  payload : Payload
  query : Query
  draw : Draw
  /-- `uuid4` of the correlation id. -/
  uuid : Fin (2 ^ 128)

/-! ### The routes and their exceptions -/

def validationFailed : TaskApi.Problem where
  status := 422
  title := "Validation failed"
  detail := "Request validation failed"
  type := "about:blank"

/-- The errors go along, when there are any. -/
def validationExtra (errors : List ErrorEntry) : List (String × Content) :=
  if errors.isEmpty then [] else [("errors", .list (errors.map ErrorEntry.toContent))]

/-- `_validation_problem`. -/
def validationProblem (errors : List ErrorEntry) : Problem :=
  .raised validationFailed (validationExtra errors)

/-- The problem of `_unhandled_handler`. -/
def internalServerError : Problem :=
  .raised
    { status := 500
      title := "Internal server error"
      detail := "An unexpected error occurred."
      type := "about:blank" }
    []

/-- The handlers that are registered for an exception; without one it goes on, and so does
what a handler raises itself. The `Allow` header of a 405 is left out. -/
def exceptionHandler (scope : Scope) : Raised → Option Response
  | .problem p => problemResponse scope p
  | .validation errors => problemResponse scope (validationProblem errors)
  | .http status detail => jsonResponse status (.detail detail) applicationJson []
  | .other => none

/-- The response to what a handler returned. -/
def replyResponse (op : Operation) (reply : Reply) : Response where
  status := op.success
  headers :=
    [{ name := contentTypeHeader
       value := encodeLatin1 <| match reply with
         | .page => "text/html; charset=utf-8".toList
         | _ => applicationJson }]
  body := .reply reply

/-- The response to what a handler raised or returned. -/
def outcomeResponse (scope : Scope) (op : Operation) : Except Raised Reply → Option Response
  | .error e => exceptionHandler scope e
  | .ok reply => some (replyResponse op reply)

section Routes

variable (site : Site) {t : APIKeyTable} (scan : t.Scan)

/-- The routes, in `ExceptionMiddleware`. -/
def routes (x : Exchange) : Layer := fun scope app =>
  match route scope.request with
  | .error e => { response := exceptionHandler scope e, scope, log := [], app }
  | .ok op =>
      let out := endpoint site scan x.draw scope.request x.payload x.query
        app.limiter.rejections op app.db
      { response := outcomeResponse scope op out.1
        scope
        log := []
        app := { app with db := out.2 } }

end Routes

/-! ### The middlewares -/

/-- The problem of a request that `RateLimitMiddleware` does not let through. -/
def rateLimitExceeded (scope : Scope) : Problem where
  status := 429
  title := "Too Many Requests"
  detail := "Rate limit exceeded."
  type := "about:blank"
  instance? := some scope.request.urlPath
  correlationId? := scope.correlationId
  extra := []

/-- The response to it: `_problem_response` of the middlewares. -/
def tooManyRequests (scope : Scope) (retryAfter : ℤ) : Option Response :=
  jsonResponse 429 (.problem (rateLimitExceeded scope).toDict) problemJson
    [(retryAfterHeader, (toString retryAfter).toList)]

/-- `RateLimitMiddleware`. -/
def rateLimited (x : Exchange) (inner : Layer) : Layer := fun scope app =>
  let out := RateLimit.dispatch app.limiter x.arrival
  match out.1 with
  | .passed => inner scope { app with limiter := out.2 }
  | .rejected retryAfter =>
      { response := tooManyRequests scope retryAfter
        scope
        log := []
        app := { app with limiter := out.2 } }

/-- The `w` lowest hexadecimal digits. -/
def hexDigits : ℕ → ℕ → List Char
  | 0, _ => []
  | w + 1, n => Json.hexDigit (n / 16 ^ w) :: hexDigits w n

/-- `mint_correlation_id`: the `hex` of a UUID. -/
def mintCorrelationId (uuid : Fin (2 ^ 128)) : List Char := hexDigits 32 uuid.val

/-- The id of a request: the first incoming one, or a new one when that is empty or there is
none. -/
def correlationId (headers : List Header) (uuid : Fin (2 ^ 128)) : List Char :=
  match getHeader headers correlationHeader with
  | some (c :: cs) => c :: cs
  | _ => mintCorrelationId uuid

/-- `bytes.lower`. -/
def lower (bytes : List Byte) : List Byte :=
  bytes.map fun b => if 65 ≤ b.val ∧ b.val ≤ 90 then byte (b.val + 32) else b

/-- `send_wrapper`: the id of the request in place of any other. -/
def sendWrapper (cid : List Char) (r : Response) : Response :=
  { r with
    headers := r.headers.filter (fun h => lower h.name ≠ correlationHeader) ++
      [{ name := correlationHeader, value := encodeLatin1 cid }] }

/-- `CorrelationIdMiddleware`. -/
def correlated (x : Exchange) (inner : Layer) : Layer := fun scope app =>
  let cid := correlationId scope.request.headers x.uuid
  let out := inner { scope with correlationId := some cid } app
  { out with
    response := out.response.map (sendWrapper cid)
    log :=
      { method := scope.request.method
        path := scope.request.path
        correlationId := cid } :: out.log }

/-- `ServerErrorMiddleware`, with `_unhandled_handler` for what comes out of the layers. -/
def guarded (inner : Layer) : Layer := fun scope app =>
  let out := inner scope app
  match out.response with
  | some _ => out
  | none => { out with response := problemResponse out.scope internalServerError }

/-- A request, from the server to the server. -/
def serve (site : Site) {t : APIKeyTable} (scan : t.Scan) (app : App) (x : Exchange) : Outcome :=
  guarded (correlated x (rateLimited x (routes site scan x)))
    { request := x.arrival.request, correlationId := none } app

/-! ### The id of a request -/

@[simp] theorem length_hexDigits (w n : ℕ) : (hexDigits w n).length = w := by
  induction w with
  | zero => rfl
  | succ w ih => rw [hexDigits, List.length_cons, ih]

theorem isLatin1_hexDigits (w n : ℕ) : IsLatin1 (hexDigits w n) := by
  induction w with
  | zero => exact fun c hc => absurd hc List.not_mem_nil
  | succ w ih =>
      intro c hc
      rcases List.mem_cons.mp hc with rfl | hc
      · exact (Json.hexDigit_ascii _).trans (by decide)
      · exact ih c hc

theorem mintCorrelationId_ne_nil (uuid : Fin (2 ^ 128)) : mintCorrelationId uuid ≠ [] := by
  rw [← List.length_pos_iff, mintCorrelationId, length_hexDigits]
  decide

/-- The two ways a request gets its id. -/
theorem correlationId_cases (headers : List Header) (uuid : Fin (2 ^ 128)) :
    (∃ c cs, getHeader headers correlationHeader = some (c :: cs) ∧
        correlationId headers uuid = c :: cs) ∨
      ((getHeader headers correlationHeader = none ∨
          getHeader headers correlationHeader = some []) ∧
        correlationId headers uuid = mintCorrelationId uuid) := by
  unfold correlationId
  split
  next c cs h => exact Or.inl ⟨c, cs, h, rfl⟩
  next h =>
      refine Or.inr ⟨?_, rfl⟩
      cases hget : getHeader headers correlationHeader with
      | none => exact Or.inl rfl
      | some cs =>
          cases cs with
          | nil => exact Or.inr rfl
          | cons c cs => exact absurd hget (h c cs)

theorem isLatin1_getHeader {headers : List Header} {name : List Byte} {cs : List Char}
    (h : getHeader headers name = some cs) : IsLatin1 cs := by
  obtain ⟨header, -, rfl⟩ := Option.map_eq_some_iff.mp h
  exact isLatin1_latin1 header.value

/-- A scope that the correlation-id middleware has passed on. -/
structure Scope.Identified (scope : Scope) (cid : List Char) : Prop where
  id : scope.correlationId = some cid
  ne_nil : cid ≠ []
  isLatin1 : IsLatin1 cid

theorem identified (request : Request) (uuid : Fin (2 ^ 128)) :
    Scope.Identified
      { request := request, correlationId := some (correlationId request.headers uuid) }
      (correlationId request.headers uuid) := by
  rcases correlationId_cases request.headers uuid with ⟨c, cs, hget, hcid⟩ | ⟨-, hcid⟩
  · rw [hcid]
    exact ⟨rfl, List.cons_ne_nil c cs, isLatin1_getHeader hget⟩
  · rw [hcid]
    exact ⟨rfl, mintCorrelationId_ne_nil uuid, isLatin1_hexDigits 32 _⟩

/-! ### Problems on their way out -/

section Problems

variable {scope : Scope} {cid : List Char} {p : TaskApi.Problem} {extra : List (String × Content)}

/-- What the handlers add to a problem. -/
theorem enrichProblem_raised (h : scope.Identified cid) :
    enrichProblem scope (.raised p extra) =
      { Problem.raised p extra with
        instance? := if p.status = 403 then none else some scope.request.urlPath
        correlationId? := some cid } := by
  have hcid : given (some cid) = true := given_some.mpr h.ne_nil
  simp only [enrichProblem, Problem.raised, h.id, hcid]
  by_cases hstatus : p.status = 403 <;> simp [given, hstatus]

/-- The response a problem gets: its status, the two headers, the document. -/
def problemAnswer (scope : Scope) (cid : List Char) (p : TaskApi.Problem)
    (extra : List (String × Content)) : Response where
  status := p.status
  headers :=
    [{ name := correlationHeader, value := encodeLatin1 cid },
      { name := contentTypeHeader, value := encodeLatin1 problemJson }]
  body := .problem (enrichProblem scope (.raised p extra)).toDict

/-- A problem is answered when what it adds can be rendered, and raises when not. -/
theorem problemResponse_raised (h : scope.Identified cid) (hstatus : p.status < 1000) :
    problemResponse scope (.raised p extra) =
      if ∀ m ∈ extra, m.1 ∉ fieldNames → m.2.renders = true then
        some (problemAnswer scope cid p extra)
      else none := by
  have henriched : enrichProblem scope (.raised p extra) = _ := enrichProblem_raised h
  have hrenders : Content.rendersMembers (enrichProblem scope (.raised p extra)).toDict = true ↔
      ∀ m ∈ extra, m.1 ∉ fieldNames → m.2.renders = true := by
    rw [henriched]
    exact Problem.renders_toDict hstatus
  have hresponse : problemResponse scope (.raised p extra) =
      jsonResponse p.status (.problem (enrichProblem scope (.raised p extra)).toDict) problemJson
        [(correlationHeader, cid)] := by
    obtain ⟨c, cs, rfl⟩ := List.exists_cons_of_ne_nil h.ne_nil
    rw [problemResponse, henriched]
    rfl
  rw [hresponse, jsonResponse, Body.renders]
  refine if_congr ?_ rfl rfl
  rw [hrenders, List.forall_mem_singleton]
  exact and_iff_left h.isLatin1

/-- The errors of a request can be rendered when each of them can. -/
theorem validationExtra_renders_iff {errors : List ErrorEntry} :
    (∀ m ∈ validationExtra errors, m.1 ∉ fieldNames → m.2.renders = true) ↔
      ∀ e ∈ errors, e.toContent.renders = true := by
  cases errors with
  | nil => simp [validationExtra]
  | cons e errors =>
      have hname : "errors" ∉ fieldNames := by decide
      simp [validationExtra, hname, Content.renders, Content.rendersElements_iff]

/-- Errors that cannot be rendered raise where they are reported. -/
theorem problemResponse_validation (h : scope.Identified cid) (errors : List ErrorEntry) :
    problemResponse scope (validationProblem errors) =
      if ∀ e ∈ errors, e.toContent.renders = true then
        some (problemAnswer scope cid validationFailed (validationExtra errors))
      else none := by
  rw [validationProblem, problemResponse_raised h (by decide)]
  exact if_congr validationExtra_renders_iff rfl rfl

/-- The last resort always answers. -/
theorem problemResponse_internalServerError (h : scope.Identified cid) :
    ∃ p, p.status = 500 ∧ p.detail ≠ "" ∧
      problemResponse scope internalServerError = some (problemAnswer scope cid p []) :=
  ⟨_, rfl, by decide, (problemResponse_raised h (by decide)).trans (if_pos (by simp))⟩

/-- The response of the limiter. -/
def limitAnswer (scope : Scope) (retryAfter : ℤ) : Response where
  status := 429
  headers :=
    [{ name := retryAfterHeader, value := encodeLatin1 (toString retryAfter).toList },
      { name := contentTypeHeader, value := encodeLatin1 problemJson }]
  body := .problem (rateLimitExceeded scope).toDict

/-- The limiter always answers. -/
theorem tooManyRequests_eq (scope : Scope) (retryAfter : ℤ) :
    tooManyRequests scope retryAfter = some (limitAnswer scope retryAfter) := by
  have hstatus : (rateLimitExceeded scope).status < 1000 := by
    show 429 < 1000
    decide
  have hrenders : Content.rendersMembers (rateLimitExceeded scope).toDict = true :=
    (Problem.renders_toDict hstatus).mpr (by simp [rateLimitExceeded])
  have hlatin1 : ∀ h ∈ [(retryAfterHeader, (toString retryAfter).toList)], IsLatin1 h.2 := by
    rw [List.forall_mem_singleton]
    exact isLatin1_toString retryAfter
  exact if_pos ⟨hrenders, hlatin1⟩

end Problems

/-! ### A request through the layers -/

/-- A layer that leaves the scope alone and logs nothing. -/
structure Quiet (inner : Layer) : Prop where
  scope : ∀ scope app, (inner scope app).scope = scope
  log : ∀ scope app, (inner scope app).log = []

section Serve

variable {site : Site} {t : APIKeyTable} {scan : t.Scan} {app : App} {x : Exchange} {inner : Layer}

theorem quiet_routes : Quiet (routes site scan x) := by
  refine ⟨fun scope app => ?_, fun scope app => ?_⟩
  · unfold routes
    split <;> rfl
  · unfold routes
    split <;> rfl

theorem Quiet.rateLimited (h : Quiet inner) : Quiet (rateLimited x inner) := by
  refine ⟨fun scope app => ?_, fun scope app => ?_⟩
  · simp only [Http.rateLimited]
    split
    · exact h.scope _ _
    · rfl
  · simp only [Http.rateLimited]
    split
    · exact h.log _ _
    · rfl

/-- The id that a request goes by. -/
def Exchange.cid (x : Exchange) : List Char := correlationId x.arrival.request.headers x.uuid

/-- The scope behind the correlation-id middleware. -/
def Exchange.scope (x : Exchange) : Scope where
  request := x.arrival.request
  correlationId := some x.cid

theorem Exchange.identified (x : Exchange) : x.scope.Identified x.cid :=
  Http.identified x.arrival.request x.uuid

/-- The answer to a request: the inner response with its id, or that of the last resort. -/
def Exchange.answer (x : Exchange) : Option Response → Option Response
  | some r => some (sendWrapper x.cid r)
  | none => problemResponse x.scope internalServerError

/-- What the two outer layers make of an inner one. -/
theorem guarded_correlated (h : Quiet inner) :
    guarded (correlated x inner) { request := x.arrival.request, correlationId := none } app =
      { response := x.answer (inner x.scope app).response
        scope := x.scope
        log :=
          [{ method := x.arrival.request.method
             path := x.arrival.request.path
             correlationId := x.cid }]
        app := (inner x.scope app).app } := by
  have hscope := h.scope x.scope app
  have hlog := h.log x.scope app
  have hinner : correlated x inner { request := x.arrival.request, correlationId := none } app =
      { inner x.scope app with
        response := (inner x.scope app).response.map (sendWrapper x.cid)
        log :=
          { method := x.arrival.request.method
            path := x.arrival.request.path
            correlationId := x.cid } :: (inner x.scope app).log } := rfl
  simp only [guarded, hinner]
  cases hresponse : (inner x.scope app).response with
  | none => simp [hscope, hlog, Exchange.answer]
  | some r => simp [hscope, hlog, Exchange.answer]

theorem serve_eq : serve site scan app x =
    { response := x.answer (rateLimited x (routes site scan x) x.scope app).response
      scope := x.scope
      log :=
        [{ method := x.arrival.request.method
           path := x.arrival.request.path
           correlationId := x.cid }]
      app := (rateLimited x (routes site scan x) x.scope app).app } :=
  guarded_correlated quiet_routes.rateLimited

/-- The app when the limiter has seen the request. -/
def App.metered (app : App) (x : Exchange) : App :=
  { app with limiter := (RateLimit.dispatch app.limiter x.arrival).2 }

/-- A request that the limiter refuses. -/
theorem serve_rejected {retryAfter : ℤ}
    (h : (RateLimit.dispatch app.limiter x.arrival).1 = .rejected retryAfter) :
    (serve site scan app x).response = some (sendWrapper x.cid (limitAnswer x.scope retryAfter)) ∧
      (serve site scan app x).app = app.metered x := by
  have hinner : rateLimited x (routes site scan x) x.scope app =
      { response := tooManyRequests x.scope retryAfter
        scope := x.scope
        log := []
        app := app.metered x } := by
    simp only [rateLimited, h]
    rfl
  rw [serve_eq, hinner, tooManyRequests_eq]
  exact ⟨rfl, rfl⟩

/-- A request that the limiter lets through. -/
theorem serve_passed (h : (RateLimit.dispatch app.limiter x.arrival).1 = .passed) :
    (serve site scan app x).response =
        x.answer (routes site scan x x.scope (app.metered x)).response ∧
      (serve site scan app x).app = (routes site scan x x.scope (app.metered x)).app := by
  have hinner : rateLimited x (routes site scan x) x.scope app =
      routes site scan x x.scope (app.metered x) := by
    simp only [rateLimited, h]
    rfl
  rw [serve_eq, hinner]
  exact ⟨rfl, rfl⟩

/-- What becomes of a handler's request: what it raised or returned, and the database. -/
def outcome (site : Site) (scan : t.Scan) (app : App) (x : Exchange) (op : Operation) :
    Except Raised Reply × Database :=
  endpoint site scan x.draw x.arrival.request x.payload x.query
    (app.metered x).limiter.rejections op app.db

/-- Only FastAPI's own exceptions come from a request without a route. -/
theorem route_error {e : Raised} (h : route x.arrival.request = .error e) :
    ∃ status detail, 400 ≤ status ∧ e = .http status detail := by
  unfold route at h
  split at h
  · cases h
    exact ⟨404, _, by decide, rfl⟩
  · split at h
    · cases h
      exact ⟨405, _, by decide, rfl⟩
    · cases h

theorem routes_unrouted {e : Raised} (h : route x.arrival.request = .error e) :
    routes site scan x x.scope app =
      { response := exceptionHandler x.scope e, scope := x.scope, log := [], app := app } := by
  have hroute : route x.scope.request = .error e := h
  simp only [routes, hroute]

theorem routes_routed {op : Operation} (h : route x.arrival.request = .ok op) :
    routes site scan x x.scope (app.metered x) =
      { response := outcomeResponse x.scope op (outcome site scan app x op).1
        scope := x.scope
        log := []
        app := { app.metered x with db := (outcome site scan app x op).2 } } := by
  have hroute : route x.scope.request = .ok op := h
  simp only [routes, hroute]
  rfl

end Serve

/-! ### An app to try -/

def plainSite : Site where
  engine := buildEngine
  sha256 := transparentDigest
  realText := fun _ => []
  metrics := fun rejections _ =>
    .ok { taskCountsByStatus := [], latencyPercentiles := [], rateLimitRejections := rejections }

/-- The storage finds no keys. -/
def noKeys : APIKeyTable.empty.Scan := .scanned [] (List.Perm.refl [])

/-- A new app with the default limits. -/
def App.new (db : Database) : App where
  limiter := RateLimit.Limiter.new ⟨20, 5⟩
  db := db

/-- A request of one client, in which nothing goes wrong. -/
def Exchange.plain (method : String) (path key : List Char) (payload : Payload) : Exchange where
  arrival :=
    .at
      { method := method
        path := path
        urlPath := path
        headers := [{ name := apiKeyHeader, value := encodeLatin1 key }]
        client := some ['h'] } 0
  payload := payload
  query := { limit := .absent, cursor := none, status := none }
  draw :=
    { id := "id"
      now := TaskService.newYear
      first := Transaction.Faults.none
      second := Transaction.Faults.none
      reachable := true
      atHead := true }
  uuid := 0

end Taskq.Http
