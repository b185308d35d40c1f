import Taskq.Api.Http
import Taskq.Api.Tasks

/-!
# Taskq.Api.Problem

Problem documents (`api/problem.py`) and the responses that carry them.

A `Problem` is raised with a status, a title, a detail and a type; the handlers fill in
where it happened and to which request. `JSONResponse` renders with `json.dumps`, NaN and
objects refused, and encodes as UTF-8: rendering can raise, and what it renders may come
from the request.
-/

namespace Taskq.Http

open Unicode

/-! ### Contents -/

/-- What a body is made of: values of `json`, and what holds objects it does not know. -/
inductive Content
  | value (v : Json.Value)
  /-- An exception, or `bytes`. -/
  | object
  | list (cs : List Content)
  | dict (members : List (String × Content))

namespace Content

def str (cs : List Char) : Content := .value (.str (PyStr.ofChars cs))

def int (n : ℤ) : Content := .value (.int n)

/-- Python's truth value. -/
def truthy : Content → Bool
  | .value v => v.truthy
  | .object => true
  | .list cs => !cs.isEmpty
  | .dict members => !members.isEmpty

mutual

/-- Does `JSONResponse` render it? -/
def renders : Content → Bool
  | .value v => Json.writable v
  | .object => false
  | .list cs => rendersElements cs
  | .dict members => rendersMembers members

def rendersElements : List Content → Bool
  | [] => true
  | c :: cs => renders c && rendersElements cs

def rendersMembers : List (String × Content) → Bool
  | [] => true
  | (_, c) :: members => renders c && rendersMembers members

end

theorem rendersElements_iff {cs : List Content} :
    rendersElements cs = true ↔ ∀ c ∈ cs, renders c = true := by
  induction cs with
  | nil => simp [rendersElements]
  | cons c cs ih => rw [rendersElements, Bool.and_eq_true, ih, List.forall_mem_cons]

theorem rendersMembers_iff {members : List (String × Content)} :
    rendersMembers members = true ↔ ∀ m ∈ members, renders m.2 = true := by
  induction members with
  | nil => simp [rendersMembers]
  | cons m members ih => rw [rendersMembers, Bool.and_eq_true, ih, List.forall_mem_cons]

@[simp] theorem renders_str (cs : List Char) : renders (str cs) = true := by
  rw [str, renders, Json.writable, Json.encodable, PyStr.chars?_ofChars, Option.isSome_some]

@[simp] theorem truthy_str {cs : List Char} : truthy (str cs) = true ↔ cs ≠ [] := by
  simp [str, truthy, Json.Value.truthy, PyStr.ofChars]

end Content

/-! ### Responses -/

/-- What `metrics` returns. -/
structure Metrics where
  taskCountsByStatus : List (String × ℕ)
  latencyPercentiles : List (String × ℤ)
  rateLimitRejections : ℕ
  deriving DecidableEq

/-- What the handlers return. -/
inductive Reply
  | task (d : TaskList.TaskDict)
  | tasks (items : List TaskList.TaskDict) (nextCursor : Option PyStr)
  | deleted (d : TaskApi.Deleted)
  | run (runId : String)
  | runs (rows : List Dict)
  | metrics (m : Metrics)
  | status (text : String)
  /-- The schema of the API. -/
  | openapi
  /-- A page that shows it. -/
  | page
  deriving DecidableEq

inductive Body
  /-- A problem document. -/
  | problem (document : List (String × Content))
  /-- What FastAPI says of its own `HTTPException`s. -/
  | detail (text : String)
  | reply (r : Reply)

structure Response where
  status : ℕ
  headers : List Header
  body : Body

def contentTypeHeader : List Byte :=
  encodeLatin1 ['c', 'o', 'n', 't', 'e', 'n', 't', '-', 't', 'y', 'p', 'e']

def retryAfterHeader : List Byte :=
  encodeLatin1 ['r', 'e', 't', 'r', 'y', '-', 'a', 'f', 't', 'e', 'r']

/-- `CONTENT_TYPE`. -/
def problemJson : List Char :=
  ['a', 'p', 'p', 'l', 'i', 'c', 'a', 't', 'i', 'o', 'n', '/', 'p', 'r', 'o', 'b', 'l', 'e', 'm',
    '+', 'j', 's', 'o', 'n']

def applicationJson : List Char :=
  ['a', 'p', 'p', 'l', 'i', 'c', 'a', 't', 'i', 'o', 'n', '/', 'j', 's', 'o', 'n']

/-- Does the body render? What the handlers return is made of text and numbers. -/
def Body.renders : Body → Bool
  | .problem document => Content.rendersMembers document
  | _ => true

/-- `JSONResponse`, its headers under lower-case names; `none` when it raises. The length
of the body is left out. -/
def jsonResponse (status : ℕ) (body : Body) (mediaType : List Char)
    (headers : List (List Byte × List Char)) : Option Response :=
  if body.renders = true ∧ ∀ h ∈ headers, ∀ c ∈ h.2, c.toNat < 256 then
    some
      { status
        headers := headers.map (fun h => { name := h.1, value := encodeLatin1 h.2 }) ++
          [{ name := contentTypeHeader, value := encodeLatin1 mediaType }]
        body }
  else none

/-! ### Problems -/

/-- `Problem`, with what may be added to it. -/
structure Problem extends TaskApi.Problem where
  instance? : Option (List Char)
  correlationId? : Option (List Char)
  extra : List (String × Content)

/-- A `Problem` as it is raised. -/
def Problem.raised (p : TaskApi.Problem) (extra : List (String × Content)) : Problem where
  toProblem := p
  instance? := none
  correlationId? := none
  extra := extra

/-- An optional string: `None` when it is not there. -/
def optionalStr : Option (List Char) → Content
  | none => .value .null
  | some cs => .str cs

/-- `_OPTIONAL_BODY_FIELDS`. -/
def optionalBodyFields : List String := ["detail", "instance", "correlation_id"]

/-- The fields of the document, empty ones included. -/
def Problem.fields (p : Problem) : List (String × Content) :=
  [("type", .str p.type.toList),
    ("title", .str p.title.toList),
    ("status", .int p.status),
    ("detail", .str p.detail.toList),
    ("instance", optionalStr p.instance?),
    ("correlation_id", optionalStr p.correlationId?)]

/-- `Problem.to_dict`. -/
def Problem.toDict (p : Problem) : List (String × Content) :=
  p.fields.filter (fun m => m.2.truthy || m.1 ∉ optionalBodyFields) ++
    p.extra.filter fun m => m.1 ∉ p.fields.map Prod.fst

/-- A request on its way in, with the `state` dict of its scope. -/
structure Scope where
  request : Request
  /-- `state["correlation_id"]`. -/
  correlationId : Option (List Char)

/-- Is the string there, and not empty? -/
def given : Option (List Char) → Bool
  | none | some [] => false
  | some (_ :: _) => true

theorem given_some {cs : List Char} : given (some cs) = true ↔ cs ≠ [] := by
  cases cs <;> simp [given]

/-- `_enrich_problem`. -/
def enrichProblem (scope : Scope) (p : Problem) : Problem :=
  { p with
    instance? :=
      if given p.instance? = false ∧ p.status ≠ 403 then some scope.request.urlPath
      else p.instance?
    correlationId? :=
      if given p.correlationId? = false ∧ given scope.correlationId = true then
        scope.correlationId
      else p.correlationId? }

/-- `_problem_response` of the handlers. -/
def problemResponse (scope : Scope) (p : Problem) : Option Response :=
  let enriched := enrichProblem scope p
  let headers := match enriched.correlationId? with
    | some (c :: cs) => [(correlationHeader, c :: cs)]
    | _ => []
  jsonResponse enriched.status (.problem enriched.toDict) problemJson headers

/-! ### What a document holds -/

theorem truthy_optionalStr (cs : Option (List Char)) : (optionalStr cs).truthy = given cs := by
  match cs with
  | none => rfl
  | some [] => rfl
  | some (c :: cs) => rfl

/-- The names that `extra` cannot take. -/
def fieldNames : List String := ["type", "title", "status", "detail", "instance", "correlation_id"]

/-- The document: three fields that are always there, three that may be empty, and what
`extra` adds. -/
theorem Problem.toDict_eq (p : Problem) : p.toDict =
    [("type", .str p.type.toList), ("title", .str p.title.toList), ("status", .int p.status)] ++
      ((if p.detail = "" then [] else [("detail", .str p.detail.toList)]) ++
      ((if given p.instance? then [("instance", optionalStr p.instance?)] else []) ++
      ((if given p.correlationId? then [("correlation_id", optionalStr p.correlationId?)] else []) ++
        p.extra.filter fun m => m.1 ∉ fieldNames))) := by
  have hdetail : (Content.str p.detail.toList).truthy = decide (p.detail ≠ "") := by
    rw [Bool.eq_iff_iff, Content.truthy_str]
    simp
  rw [toDict, fields]
  simp only [List.filter_cons, List.filter_nil, truthy_optionalStr, hdetail]
  by_cases h : p.detail = "" <;> cases given p.instance? <;> cases given p.correlationId? <;>
    simp [optionalBodyFields, fieldNames, h]

theorem mem_extra_keys {extra : List (String × Content)} {name : String} (h : name ∈ fieldNames) :
    name ∉ (extra.filter fun m => m.1 ∉ fieldNames).map Prod.fst := by
  intro hmem
  obtain ⟨m, hm, rfl⟩ := List.mem_map.mp hmem
  simp [h] at hm

/-- The fields that every non-2xx answer should carry. -/
structure Documented (code : ℕ) (document : List (String × Content)) : Prop where
  type : "type" ∈ document.map Prod.fst
  title : "title" ∈ document.map Prod.fst
  status : document.lookup "status" = some (.int code)
  detail : "detail" ∈ document.map Prod.fst
  correlation_id : "correlation_id" ∈ document.map Prod.fst
  occurrence : code = 403 ∨ "instance" ∈ document.map Prod.fst

theorem Problem.documented_iff {p : Problem} (hdetail : p.detail ≠ "")
    (hcid : given p.correlationId? = true) :
    Documented p.status p.toDict ↔ p.status = 403 ∨ given p.instance? = true := by
  have hkeys : p.toDict.map Prod.fst = ["type", "title", "status", "detail"] ++
      ((if given p.instance? then ["instance"] else []) ++
        ("correlation_id" :: (p.extra.filter fun m => m.1 ∉ fieldNames).map Prod.fst)) := by
    rw [toDict_eq, if_neg hdetail, if_pos hcid]
    cases given p.instance? <;> simp
  have hinstance : "instance" ∈ p.toDict.map Prod.fst ↔ given p.instance? = true := by
    have hextra : "instance" ∉ (p.extra.filter fun m => m.1 ∉ fieldNames).map Prod.fst :=
      mem_extra_keys (by decide)
    rw [hkeys]
    generalize (p.extra.filter fun m => m.1 ∉ fieldNames).map Prod.fst = names at hextra
    cases given p.instance? <;> simp [hextra]
  refine ⟨fun h => h.occurrence.imp_right hinstance.mp, fun h => ?_⟩
  exact
    { type := by simp [hkeys]
      title := by simp [hkeys]
      status := by
        rw [toDict_eq]
        rfl
      detail := by simp [hkeys]
      correlation_id := by simp [hkeys]
      occurrence := h.imp_right hinstance.mpr }

theorem Problem.lookup_correlationId {p : Problem} (hcid : given p.correlationId? = true) :
    p.toDict.lookup "correlation_id" = some (optionalStr p.correlationId?) := by
  rw [toDict_eq, if_pos hcid]
  by_cases h : p.detail = "" <;> cases given p.instance? <;> simp [h, List.lookup_cons]

/-- A document renders when what `extra` adds to it does. -/
theorem Problem.renders_toDict {p : Problem} (hstatus : p.status < 1000) :
    Content.rendersMembers p.toDict = true ↔
      ∀ m ∈ p.extra, m.1 ∉ fieldNames → m.2.renders = true := by
  have hcode : (Content.int p.status).renders = true := by
    have hbound : (10 : ℕ) ^ 3 ≤ 10 ^ Json.maxIntDigits :=
      Nat.pow_le_pow_right (by omega) (by decide)
    simp only [Content.int, Content.renders, Json.writable, decide_eq_true_eq]
    omega
  have hoptional : ∀ cs, (optionalStr cs).renders = true := by
    intro cs
    cases cs with
    | none => rfl
    | some cs => exact Content.renders_str cs
  rw [Content.rendersMembers_iff, toDict_eq]
  simp only [List.forall_mem_append, List.forall_mem_cons, Content.renders_str, hcode]
  refine ⟨?_, ?_⟩
  · rintro ⟨-, -, -, -, hextra⟩ m hm hname
    exact hextra m (List.mem_filter.mpr ⟨hm, by simpa using hname⟩)
  · intro hextra
    refine ⟨by simp, ?_, ?_, ?_, ?_⟩
    · split_ifs <;> simp
    · split_ifs <;> simp [hoptional]
    · split_ifs <;> simp [hoptional]
    · intro m hm
      obtain ⟨hmem, hname⟩ := List.mem_filter.mp hm
      exact hextra m hmem (by simpa using hname)

end Taskq.Http
