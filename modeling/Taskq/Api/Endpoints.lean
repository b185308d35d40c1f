import Taskq.Api.RateLimit
import Taskq.Api.Validation
import Taskq.Service.Auth

/-!
# Taskq.Api.Endpoints

From a path and a method to a handler (`api/app.py`, `api/deps.py`, `api/routes`).

FastAPI reads the body first, then runs the dependencies, `require_scope` among them, and
only then looks at what the parameters say; the handler comes last. What is raised on the
way is raised at once.
-/

namespace Taskq.Http

open Transaction Unicode

/-! ### Routes -/

/-- What a path leads to. -/
inductive Resource
  | tasks
  | task (taskId : List Char)
  | run (taskId : List Char)
  | runs (taskId : List Char)
  | metrics
  | healthz
  | readyz
  /-- FastAPI's own routes: the schema, and the pages that show it. -/
  | openapi
  | page
  deriving DecidableEq

def tasksPath : List Char := ['/', 'v', '1', '/', 't', 'a', 's', 'k', 's']

def metricsPath : List Char := ['/', 'v', '1', '/', 'm', 'e', 't', 'r', 'i', 'c', 's']

def openapiPath : List Char := ['/', 'o', 'p', 'e', 'n', 'a', 'p', 'i', '.', 'j', 's', 'o', 'n']

def pagePaths : List (List Char) :=
  [['/', 'd', 'o', 'c', 's'],
    ['/', 'd', 'o', 'c', 's', '/', 'o', 'a', 'u', 't', 'h', '2', '-', 'r', 'e', 'd', 'i', 'r', 'e',
      'c', 't'],
    ['/', 'r', 'e', 'd', 'o', 'c']]

/-- The end that `$` matches is before a last newline as well. -/
def chomp (cs : List Char) : List Char := if cs.getLast? = some '\n' then cs.dropLast else cs

/-- Below `/v1/tasks/`: an id, alone or before `/run` or `/runs`. -/
def belowTasks (rest : List Char) : Option Resource :=
  let taskId := rest.takeWhile (· ≠ '/')
  let sub := rest.dropWhile (· ≠ '/')
  if taskId = [] then none
  else if sub = [] then some (.task taskId)
  else if chomp sub = ['/', 'r', 'u', 'n'] then some (.run taskId)
  else if chomp sub = ['/', 'r', 'u', 'n', 's'] then some (.runs taskId)
  else none

/-- The route whose pattern a path matches. -/
def resource? (path : List Char) : Option Resource :=
  if chomp path = openapiPath then some .openapi
  else if chomp path ∈ pagePaths then some .page
  else if chomp path = tasksPath then some .tasks
  else if chomp path = RateLimit.healthz then some .healthz
  else if chomp path = RateLimit.readyz then some .readyz
  else if chomp path = metricsPath then some .metrics
  else if tasksPath ++ ['/'] <+: path then belowTasks (path.drop (tasksPath.length + 1))
  else none

/-- A handler, with its path parameter. -/
inductive Operation
  | createTask
  | getTask (taskId : String)
  | listTasks
  | deleteTask (taskId : String)
  | triggerRun (taskId : String)
  | listRuns (taskId : String)
  | healthz
  | readyz
  | metrics
  | openapi
  | page
  deriving DecidableEq

/-- The handler of a method, where the route has one. -/
def operation? (resource : Resource) (method : String) : Option Operation :=
  match resource with
  | .tasks =>
      if method = "POST" then some .createTask
      else if method = "GET" then some .listTasks
      else none
  | .task taskId =>
      if method = "GET" then some (.getTask (String.ofList taskId))
      else if method = "DELETE" then some (.deleteTask (String.ofList taskId))
      else none
  | .run taskId => if method = "POST" then some (.triggerRun (String.ofList taskId)) else none
  | .runs taskId => if method = "GET" then some (.listRuns (String.ofList taskId)) else none
  | .metrics => if method = "GET" then some .metrics else none
  | .healthz => if method = "GET" then some .healthz else none
  | .readyz => if method = "GET" then some .readyz else none
  | .openapi => if method = "GET" ∨ method = "HEAD" then some .openapi else none
  | .page => if method = "GET" ∨ method = "HEAD" then some .page else none

/-- The status of a route's own responses. -/
def Operation.success : Operation → ℕ
  | .createTask => 201
  | .triggerRun _ => 202
  | _ => 200

theorem Operation.success_bounds (op : Operation) : 200 ≤ op.success ∧ op.success < 300 := by
  cases op <;> simp [success]

/-- What `require_scope` is called with. -/
def Operation.scope? : Operation → Option PyStr
  | .createTask | .triggerRun _ => some (PyStr.ofString "write")
  | .getTask _ | .listTasks | .listRuns _ => some (PyStr.ofString "read")
  | .deleteTask _ | .metrics => some (PyStr.ofString "admin")
  | .healthz | .readyz | .openapi | .page => none

/-- The dependencies of a route; `metrics` has one from its registration and one of its
own. -/
def Operation.dependencies (op : Operation) : List PyStr :=
  match op, op.scope? with
  | _, none => []
  | .metrics, some required => [required, required]
  | _, some required => [required]

/-! ### What is raised -/

inductive Raised
  | problem (p : Problem)
  /-- `RequestValidationError`. -/
  | validation (errors : List ErrorEntry)
  /-- `HTTPException`. -/
  | http (status : ℕ) (detail : String)
  /-- Anything else. -/
  | other

/-- The handler of a request, when its path and its method have one. -/
def route (request : Request) : Except Raised Operation :=
  match resource? request.path with
  | none => .error (.http 404 "Not Found")
  | some resource =>
      match operation? resource request.method with
      | none => .error (.http 405 "Method Not Allowed")
      | some op => .ok op

def unauthorized : TaskApi.Problem where
  status := 401
  title := "Unauthorized"
  detail := "Invalid or missing API key."
  type := "about:blank"

def forbidden : TaskApi.Problem where
  status := 403
  title := "Forbidden"
  detail := "Operation not permitted."
  type := "about:blank"

def limitTooHigh : TaskApi.Problem where
  status := 422
  title := "Validation failed"
  detail := "limit must be <= 200"
  type := "about:blank"

/-! ### Parameters -/

/-- A body that was read. -/
inductive Decoded
  | absent
  | json (v : Json.Value)
  /-- It is not declared as JSON, and is handed on as bytes. -/
  | raw

/-- A body as it comes in. -/
inductive Payload
  | read (decoded : Decoded)
  /-- It is declared as JSON and is not, from here on and for this reason. -/
  | malformed (position : ℕ) (reason : List Char)
  /-- Reading it raises something else: bytes that are no text, a number with too many
  digits. -/
  | unreadable

/-- `limit`, and what there is to read in it. -/
inductive LimitText
  | absent
  | number (text : List Char) (n : ℤ)
  | unreadable (text : List Char) (tooLong : Bool)

/-- The query of a listing. -/
structure Query where
  limit : LimitText
  cursor : Option PyStr
  status : Option String

def jsonInvalid (position : ℕ) (reason : List Char) : ErrorEntry where
  type := "json_invalid"
  loc := [.str bodyKey, .int position]
  msg := "JSON decode error"
  input := .value (.obj [])
  ctx := [("error", .str reason)]

/-- The body is read where a handler has one, before anything else happens. -/
def readPayload (op : Operation) (payload : Payload) : Except Raised Decoded :=
  match op, payload with
  | .createTask, .malformed position reason =>
      .error (.validation [jsonInvalid position reason])
  | .createTask, .unreadable => .error (.http 400 "There was an error parsing the body")
  | .createTask, .read decoded => .ok decoded
  | _, _ => .ok .absent

/-- The parameter `body`. -/
def taskCreate : Decoded → Except (List ErrorEntry) TaskCreate
  | .absent => .error [missingBody]
  | .json v => TaskCreate.validate v
  | .raw => .error [notAnObject .object]

def limitEntry (type msg : String) (text : List Char) (ctx : List (String × Content)) :
    ErrorEntry where
  type := type
  loc := [.str (PyStr.ofChars ['q', 'u', 'e', 'r', 'y']),
    .str (PyStr.ofChars ['l', 'i', 'm', 'i', 't'])]
  msg := msg
  input := .str text
  ctx := ctx

/-- The parameter `limit`: `DEFAULT_LIMIT`, or an integer that is at least 1. -/
def readLimit : LimitText → Except (List ErrorEntry) ℤ
  | .absent => .ok 50
  | .number text n =>
      if 1 ≤ n then .ok n
      else
        .error [limitEntry "greater_than_equal"
          "Input should be greater than or equal to 1" text [("ge", .int 1)]]
  | .unreadable text false =>
      .error [limitEntry "int_parsing"
        "Input should be a valid integer, unable to parse string as an integer" text []]
  | .unreadable text true =>
      .error [limitEntry "int_parsing_size"
        "Unable to parse input string as an integer, exceeded maximum size" text []]

/-! ### Handlers -/

/-- What does not change from request to request. -/
structure Site where
  engine : Engine
  sha256 : List Byte → String
  /-- How SQLite writes a floating-point number. -/
  realText : Json.Float → List Char
  /-- What `metrics` makes of the counter and the database. -/
  metrics : ℕ → Database → Except StorageError Metrics

/-- What is drawn while a request is handled, and what goes wrong in its transactions. -/
structure Draw where
  id : String
  now : DateTime
  first : Faults StorageError
  second : Faults StorageError
  /-- `is_db_reachable`. -/
  reachable : Bool
  /-- `alembic_current_is_head`. -/
  atHead : Bool

/-- The names of the checks that failed. -/
def failedChecks (reachable atHead : Bool) : List String :=
  (if reachable then [] else ["db"]) ++ if atHead then [] else ["alembic"]

/-- `readyz`. -/
def readyz (reachable atHead : Bool) : Except Raised Reply :=
  match failedChecks reachable atHead with
  | [] => .ok (.status "ok")
  | failed =>
      .error (.problem (.raised
        { status := 503
          title := "Service Unavailable"
          detail := "readiness check(s) failed: " ++ ", ".intercalate failed
          type := "about:blank" }
        [("failed_checks", .list (failed.map fun check => .str check.toList))]))

/-- A handler of `TaskApi`, with its dict as the reply. -/
def handled {α : Type} (reply : α → Reply) (call : Call Database TaskApi.Raised α) :
    Call Database Raised Reply := fun db =>
  match call db with
  | (.ok a, db') => (.ok (reply a), db')
  | (.error (.problem p), db') => (.error (.problem (.raised p [])), db')
  | (.error (.unhandled _), db') => (.error .other, db')

/-- `list_tasks`, which reads in one session. -/
def listTasks (site : Site) (draw : Draw) (query : Query) : Call Database Raised Reply := fun db =>
  match readLimit query.limit with
  | .error errors => (.error (.validation errors), db)
  | .ok limit =>
      if 200 < limit then (.error (.problem (.raised limitTooHigh [])), db)
      else if draw.first = Faults.none then
        match TaskList.list site.realText db limit query.cursor query.status with
        | .error _ => (.error .other, db)
        | .ok (items, nextCursor) => (.ok (.tasks items nextCursor), db)
      else (.error .other, db)

/-- `list_runs`. -/
def listRuns (draw : Draw) (taskId : String) : Call Database Raised Reply := fun db =>
  match TaskResultRepository.listResultsForTask draw.first taskId db with
  | (.error _, db') => (.error .other, db')
  | (.ok rows, db') => (.ok (.runs rows), db')

/-- The parameters of a handler, and the handler. -/
def handle (site : Site) (draw : Draw) (decoded : Decoded) (query : Query) (rejections : ℕ) :
    Operation → Call Database Raised Reply
  | .createTask => fun db =>
      match taskCreate decoded with
      | .error errors => (.error (.validation errors), db)
      | .ok body =>
          handled .task
            (TaskApi.createTask draw.first draw.second.statement draw.id draw.now body) db
  | .getTask taskId => handled .task (TaskApi.getTask draw.first taskId)
  | .listTasks => listTasks site draw query
  | .deleteTask taskId =>
      handled .deleted (TaskApi.deleteTask site.engine draw.first draw.second taskId)
  | .triggerRun taskId =>
      handled .run (TaskApi.triggerRun site.engine draw.first draw.second draw.id draw.now taskId)
  | .listRuns taskId => listRuns draw taskId
  | .healthz => fun db => (.ok (.status "ok"), db)
  | .readyz => fun db => (readyz draw.reachable draw.atHead, db)
  | .metrics => fun db =>
      match site.metrics rejections db with
      | .error _ => (.error .other, db)
      | .ok m => (.ok (.metrics m), db)
  | .openapi => fun db => (.ok .openapi, db)
  | .page => fun db => (.ok .page, db)

/-- `X-API-Key`, as `require_scope` reads it. -/
def apiKey (request : Request) : Option PyStr :=
  (getHeader request.headers apiKeyHeader).map PyStr.ofChars

section Auth

variable (site : Site) {t : APIKeyTable} (scan : t.Scan)

/-- `require_scope(required)`. -/
def requireScope (key : Option PyStr) (required : PyStr) : Except Raised Principal :=
  match verifyAPIKey site.sha256 scan key (some required) with
  | .error .invalidAPIKey => .error (.problem (.raised unauthorized []))
  | .error .insufficientScope => .error (.problem (.raised forbidden []))
  | .ok p => .ok p

/-- One dependency after the other. -/
def authorize (key : Option PyStr) : List PyStr → Except Raised Unit
  | [] => .ok ()
  | required :: rest =>
      match requireScope site scan key required with
      | .error e => .error e
      | .ok _ => authorize key rest

/-- What FastAPI does once the handler is known. -/
def endpoint (draw : Draw) (request : Request) (payload : Payload) (query : Query)
    (rejections : ℕ) (op : Operation) : Call Database Raised Reply := fun db =>
  match readPayload op payload with
  | .error e => (.error e, db)
  | .ok decoded =>
      match authorize site scan (apiKey request) op.dependencies with
      | .error e => (.error e, db)
      | .ok () => handle site draw decoded query rejections op db

end Auth

/-! ### What is raised on the way -/

/-- A problem that can be answered as it is raised. -/
structure Proper (p : TaskApi.Problem) (extra : List (String × Content)) : Prop where
  status_ge : 400 ≤ p.status
  status_lt : p.status < 600
  detail : p.detail ≠ ""
  renders : ∀ m ∈ extra, m.2.renders = true

/-- Everything that has a handler of the app's own. -/
def Raised.Handled : Raised → Prop
  | .problem p => ∃ q extra, p = .raised q extra ∧ Proper q extra
  | .http _ _ => False
  | _ => True

/-- The body of the request can be read, or nobody asks for it. -/
def Payload.Readable : Operation → Payload → Prop
  | .createTask, .unreadable => False
  | _, _ => True

theorem handled_problem {p : TaskApi.Problem} (hstatus : 400 ≤ p.status ∧ p.status < 600)
    (hdetail : p.detail ≠ "") : Raised.Handled (.problem (.raised p [])) :=
  ⟨p, [], rfl, hstatus.1, hstatus.2, hdetail, by simp⟩

/-- What the task handlers raise. -/
theorem handled_error {α : Type} {reply : α → Reply} {call : Call Database TaskApi.Raised α}
    {db : Database} {e : Raised}
    (hcall : ∀ p, (call db).1 = .error (.problem p) → p = TaskApi.conflict ∨ p = TaskApi.notFound)
    (h : (handled reply call db).1 = .error e) : e.Handled := by
  unfold handled at h
  split at h
  next => cases h
  next p db' hraised =>
      cases h
      rcases hcall p (by rw [hraised]) with rfl | rfl
      · exact handled_problem (by decide) (by decide)
      · exact handled_problem (by decide) (by decide)
  next =>
      cases h
      trivial

theorem createTask_problem {faults : Faults StorageError} {fault : Option StorageError}
    {id : String} {now : DateTime} {body : TaskCreate} {db : Database} {p : TaskApi.Problem}
    (h : (TaskApi.createTask faults fault id now body db).1 = .error (.problem p)) :
    p = TaskApi.conflict := by
  unfold TaskApi.createTask at h
  split at h
  next e db' hcreate =>
      cases e with
      | duplicateTaskName =>
          cases h
          rfl
      | _ => cases h
  next => cases h

theorem getTask_problem {faults : Faults StorageError} {taskId : String} {db : Database}
    {p : TaskApi.Problem} (h : (TaskApi.getTask faults taskId db).1 = .error (.problem p)) :
    p = TaskApi.notFound := by
  unfold TaskApi.getTask at h
  split at h
  · cases h
    rfl
  · cases h
  · cases h

theorem deleteTask_problem {engine : Engine} {row results : Faults StorageError}
    {taskId : String} {db : Database} {p : TaskApi.Problem} :
    (TaskApi.deleteTask engine row results taskId db).1 ≠ .error (.problem p) := by
  unfold TaskApi.deleteTask
  split
  · exact fun h => by cases h
  · exact fun h => by cases h

theorem triggerRun_problem {engine : Engine} {read write : Faults StorageError} {runId : String}
    {now : DateTime} {taskId : String} {db : Database} {p : TaskApi.Problem}
    (h : (TaskApi.triggerRun engine read write runId now taskId db).1 = .error (.problem p)) :
    p = TaskApi.notFound := by
  unfold TaskApi.triggerRun at h
  split at h
  · cases h
    rfl
  · cases h
  · split at h
    · cases h
    · cases h

theorem readyz_error {reachable atHead : Bool} {e : Raised}
    (h : readyz reachable atHead = .error e) : e.Handled := by
  unfold readyz at h
  split at h
  next => cases h
  next failed hfailed =>
      cases h
      refine ⟨_, _, rfl, by simp, by simp, ?_, ?_⟩
      · simp
      · simp [Content.renders, Content.rendersElements_iff]

theorem listTasks_error {site : Site} {draw : Draw} {query : Query} {db : Database} {e : Raised}
    (h : (listTasks site draw query db).1 = .error e) : e.Handled := by
  unfold listTasks at h
  split at h
  next =>
      cases h
      trivial
  next =>
      split_ifs at h
      · cases h
        exact handled_problem (by decide) (by decide)
      · split at h
        · cases h
          trivial
        · cases h
      · cases h
        trivial

theorem listRuns_error {draw : Draw} {taskId : String} {db : Database} {e : Raised}
    (h : (listRuns draw taskId db).1 = .error e) : e.Handled := by
  unfold listRuns at h
  split at h
  · cases h
    trivial
  · cases h

/-- What the handlers raise has a handler. -/
theorem handle_error {site : Site} {draw : Draw} {decoded : Decoded} {query : Query}
    {rejections : ℕ} {op : Operation} {db : Database} {e : Raised}
    (h : (handle site draw decoded query rejections op db).1 = .error e) : e.Handled := by
  cases op with
  | createTask =>
      simp only [handle] at h
      split at h
      · cases h
        trivial
      · exact handled_error (fun p hp => Or.inl (createTask_problem hp)) h
  | getTask taskId => exact handled_error (fun p hp => Or.inr (getTask_problem hp)) h
  | listTasks => exact listTasks_error h
  | deleteTask taskId => exact handled_error (fun p hp => absurd hp deleteTask_problem) h
  | triggerRun taskId => exact handled_error (fun p hp => Or.inr (triggerRun_problem hp)) h
  | listRuns taskId => exact listRuns_error h
  | healthz => cases h
  | readyz => exact readyz_error h
  | metrics =>
      simp only [handle] at h
      split at h
      · cases h
        trivial
      · cases h
  | openapi => cases h
  | page => cases h

section Auth

variable {site : Site} {t : APIKeyTable} {scan : t.Scan}

theorem requireScope_error {key : Option PyStr} {required : PyStr} {e : Raised}
    (h : requireScope site scan key required = .error e) : e.Handled := by
  unfold requireScope at h
  split at h
  · cases h
    exact handled_problem (by decide) (by decide)
  · cases h
    exact handled_problem (by decide) (by decide)
  · cases h

theorem authorize_error {key : Option PyStr} {dependencies : List PyStr} {e : Raised}
    (h : authorize site scan key dependencies = .error e) : e.Handled := by
  induction dependencies with
  | nil => cases h
  | cons required rest ih =>
      rw [authorize] at h
      split at h
      next hfirst =>
          cases h
          exact requireScope_error hfirst
      next => exact ih h

theorem readPayload_cases (op : Operation) (payload : Payload) :
    (payload.Readable op ∧ ((∃ decoded, readPayload op payload = .ok decoded) ∨
        ∃ errors, readPayload op payload = .error (.validation errors))) ∨
      (¬ payload.Readable op ∧
        readPayload op payload = .error (.http 400 "There was an error parsing the body")) := by
  cases op with
  | createTask =>
      cases payload with
      | read decoded => exact Or.inl ⟨trivial, Or.inl ⟨decoded, rfl⟩⟩
      | malformed position reason => exact Or.inl ⟨trivial, Or.inr ⟨_, rfl⟩⟩
      | unreadable => exact Or.inr ⟨id, rfl⟩
  | _ => exact Or.inl ⟨by cases payload <;> trivial, Or.inl ⟨_, rfl⟩⟩

/-- A body that cannot be read is FastAPI's business; whatever else is raised has a
handler. -/
theorem endpoint_error {draw : Draw} {request : Request} {payload : Payload} {query : Query}
    {rejections : ℕ} {op : Operation} {db : Database} {e : Raised}
    (h : (endpoint site scan draw request payload query rejections op db).1 = .error e) :
    (payload.Readable op ∧ e.Handled) ∨
      (¬ payload.Readable op ∧ e = .http 400 "There was an error parsing the body") := by
  unfold endpoint at h
  rcases readPayload_cases op payload with ⟨hread, ⟨decoded, hpayload⟩ | ⟨errors, hpayload⟩⟩ |
    ⟨hread, hpayload⟩
  · refine Or.inl ⟨hread, ?_⟩
    simp only [hpayload] at h
    split at h
    next hauth =>
        cases h
        exact authorize_error hauth
    next => exact handle_error h
  · simp only [hpayload] at h
    cases h
    exact Or.inl ⟨hread, trivial⟩
  · simp only [hpayload] at h
    cases h
    exact Or.inr ⟨hread, rfl⟩

/-- A handler that returns was asked with a body that could be read. -/
theorem endpoint_ok {draw : Draw} {request : Request} {payload : Payload} {query : Query}
    {rejections : ℕ} {op : Operation} {db : Database} {reply : Reply}
    (h : (endpoint site scan draw request payload query rejections op db).1 = .ok reply) :
    payload.Readable op := by
  rcases readPayload_cases op payload with ⟨hread, -⟩ | ⟨-, hpayload⟩
  · exact hread
  · simp only [endpoint, hpayload] at h
    cases h

end Auth

end Taskq.Http
