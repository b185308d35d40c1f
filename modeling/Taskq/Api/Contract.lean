import Taskq.Api.App

/-!
# Taskq.Api.Contract

The problem contract: what every answer that is no success should look like.

The app's own handlers keep it, and so does the limiter. FastAPI's `HTTPException`s have no
handler among them: a path or a method without a route and a body that cannot be read are
answered with `application/json`. `honours_iff` says exactly which requests get an answer
that keeps the contract.
-/

namespace Taskq.Http

open Unicode

/-- The contract: a success, or a problem document with its fields. -/
def Honours (r : Response) : Prop :=
  (200 ≤ r.status ∧ r.status < 300) ∨
    getHeader r.headers contentTypeHeader = some problemJson ∧
      ∃ document, r.body = .problem document ∧ Documented r.status document

/-! ### Producer by producer -/

section Producers

variable {scope : Scope} {cid : List Char} {r : Response}

/-- The wrapper leaves every other header as it is. -/
theorem getHeader_sendWrapper {name : List Byte} (hname : lower name ≠ correlationHeader) :
    getHeader (sendWrapper cid r).headers name = getHeader r.headers name := by
  have hne : correlationHeader ≠ name := by
    intro heq
    subst heq
    exact hname (by decide)
  have hkept : (r.headers.filter fun h => lower h.name ≠ correlationHeader).find?
      (fun h => h.name = name) = r.headers.find? fun h => h.name = name := by
    rw [List.find?_filter]
    congr 1
    funext h
    by_cases heq : h.name = name
    · simp [heq, hname]
    · simp [heq]
  rw [getHeader, getHeader, sendWrapper, List.find?_append, hkept]
  simp [hne]

theorem honours_sendWrapper : Honours (sendWrapper cid r) ↔ Honours r := by
  rw [Honours, Honours, getHeader_sendWrapper (by decide)]
  rfl

theorem getHeader_contentType {name value : List Byte} {mediaType : List Char}
    (hname : name ≠ contentTypeHeader) (hlatin1 : IsLatin1 mediaType) :
    getHeader [{ name := name, value := value },
      { name := contentTypeHeader, value := encodeLatin1 mediaType }] contentTypeHeader
        = some mediaType := by
  simp [getHeader, hname, latin1_encodeLatin1 hlatin1]

theorem isLatin1_problemJson : IsLatin1 problemJson := by
  have hall : problemJson.all (fun c => c.toNat < 256) = true := by decide
  intro c hc
  simpa using List.all_eq_true.mp hall c hc

/-- A problem document with the status of its response keeps the contract when it says where
it happened, or need not. -/
theorem honours_document_iff (p : Problem) {headers : List Header} (hstatus : 400 ≤ p.status)
    (hdetail : p.detail ≠ "") (hcid : given p.correlationId? = true)
    (hmedia : getHeader headers contentTypeHeader = some problemJson) :
    Honours { status := p.status, headers := headers, body := .problem p.toDict } ↔
      p.status = 403 ∨ given p.instance? = true := by
  rw [← Problem.documented_iff hdetail hcid]
  refine ⟨?_, ?_⟩
  · intro hhonours
    rcases hhonours with ⟨-, hlt⟩ | ⟨-, document, hbody, hdoc⟩
    · exact absurd hlt (by simp; omega)
    · cases hbody
      exact hdoc
  · intro hdoc
    exact Or.inr ⟨hmedia, _, rfl, hdoc⟩

theorem honours_problemAnswer_iff {p : TaskApi.Problem} {extra : List (String × Content)}
    (h : scope.Identified cid) (hstatus : 400 ≤ p.status) (hdetail : p.detail ≠ "") :
    Honours (problemAnswer scope cid p extra) ↔ p.status = 403 ∨ scope.request.urlPath ≠ [] := by
  have henriched : enrichProblem scope (.raised p extra) = _ := enrichProblem_raised h
  have hmedia : getHeader (problemAnswer scope cid p extra).headers contentTypeHeader
      = some problemJson := getHeader_contentType (by decide) isLatin1_problemJson
  have hdoc : Honours (problemAnswer scope cid p extra) ↔
      p.status = 403 ∨ given (enrichProblem scope (.raised p extra)).instance? = true := by
    refine honours_document_iff (enrichProblem scope (.raised p extra)) hstatus hdetail ?_ hmedia
    rw [henriched]
    exact given_some.mpr h.ne_nil
  rw [hdoc, henriched]
  by_cases hforbidden : p.status = 403
  · simp [hforbidden]
  · simp [hforbidden, given_some]

end Producers

/-! ### Request by request -/

section Serve

variable {site : Site} {t : APIKeyTable} {scan : t.Scan} {app : App} {x : Exchange}

theorem not_honours_http {status : ℕ} (detail : String) (hstatus : 400 ≤ status) :
    ∃ r, jsonResponse status (.detail detail) applicationJson [] = some r ∧ ¬ Honours r := by
  refine ⟨_, if_pos ⟨rfl, by simp⟩, ?_⟩
  intro hhonours
  rcases hhonours with ⟨-, hlt⟩ | ⟨-, document, hbody, -⟩
  · exact absurd hlt (by simp; omega)
  · cases hbody

/-- The app answers, and its answer keeps the contract. -/
def AnswersWell (response : Option Response) : Prop := ∃ r, response = some r ∧ Honours r

theorem answersWell_some {r : Response} : AnswersWell (some r) ↔ Honours r := by
  simp [AnswersWell]

/-- What the limiter refuses is answered well when the request has a path. -/
theorem rejected_iff {retryAfter : ℤ}
    (h : (RateLimit.dispatch app.limiter x.arrival).1 = .rejected retryAfter) :
    AnswersWell (serve site scan app x).response ↔ x.arrival.request.urlPath ≠ [] := by
  have hmedia : getHeader (limitAnswer x.scope retryAfter).headers contentTypeHeader
      = some problemJson := getHeader_contentType (by decide) isLatin1_problemJson
  have hdoc : Honours (limitAnswer x.scope retryAfter) ↔
      (rateLimitExceeded x.scope).status = 403 ∨
        given (rateLimitExceeded x.scope).instance? = true :=
    honours_document_iff (rateLimitExceeded x.scope) (by show 400 ≤ 429; decide)
      (by show "Rate limit exceeded." ≠ ""; decide) (given_some.mpr x.identified.ne_nil) hmedia
  rw [(serve_rejected h).1, answersWell_some, honours_sendWrapper, hdoc]
  simp [rateLimitExceeded, given_some, Exchange.scope]

theorem not_answersWell_http {status : ℕ} {detail : String} (hstatus : 400 ≤ status) :
    ¬ AnswersWell (x.answer (exceptionHandler x.scope (.http status detail))) := by
  obtain ⟨r, hr, hnot⟩ := not_honours_http detail hstatus
  rw [exceptionHandler, hr, Exchange.answer, answersWell_some, honours_sendWrapper]
  exact hnot

/-- What comes to the last resort is answered well when the request has a path. -/
theorem answersWell_none_iff :
    AnswersWell (x.answer none) ↔ x.arrival.request.urlPath ≠ [] := by
  obtain ⟨p, hstatus, hdetail, hanswer⟩ := problemResponse_internalServerError x.identified
  rw [Exchange.answer, hanswer, answersWell_some,
    honours_problemAnswer_iff x.identified (by omega) hdetail]
  simp [hstatus, Exchange.scope]

/-- So is a problem, unless it is the one that does not say. -/
theorem answersWell_problem_iff {p : TaskApi.Problem} {extra : List (String × Content)}
    (hstatus : 400 ≤ p.status) (hdetail : p.detail ≠ "") :
    AnswersWell (x.answer (some (problemAnswer x.scope x.cid p extra))) ↔
      p.status = 403 ∨ x.arrival.request.urlPath ≠ [] := by
  rw [Exchange.answer, answersWell_some, honours_sendWrapper,
    honours_problemAnswer_iff x.identified hstatus hdetail]
  rfl

/-- An outcome that is answered without saying where: a success, or the refusal of a
scope. -/
def NeedsNoPath : Except Raised Reply → Prop
  | .ok _ => True
  | .error (.problem p) => p.status = 403
  | .error _ => False

theorem answersWell_handled_iff {op : Operation} {e : Raised} (h : e.Handled) :
    AnswersWell (x.answer (outcomeResponse x.scope op (.error e))) ↔
      x.arrival.request.urlPath ≠ [] ∨ NeedsNoPath (.error e) := by
  rw [outcomeResponse]
  cases e with
  | problem p =>
      obtain ⟨q, extra, rfl, hproper⟩ := h
      have hstatus := hproper.status_lt
      rw [exceptionHandler, problemResponse_raised x.identified (by omega),
        if_pos fun m hm _ => hproper.renders m hm,
        answersWell_problem_iff hproper.status_ge hproper.detail, or_comm]
      rfl
  | validation errors =>
      have hnever : ¬ NeedsNoPath (.error (.validation errors)) := id
      rw [or_iff_left hnever, exceptionHandler, problemResponse_validation x.identified]
      split_ifs
      · rw [answersWell_problem_iff (by decide) (by decide)]
        exact or_iff_right (by decide)
      · exact answersWell_none_iff
  | http status detail => exact h.elim
  | other =>
      have hnever : ¬ NeedsNoPath (.error .other) := id
      rw [or_iff_left hnever]
      exact answersWell_none_iff

theorem answersWell_ok {op : Operation} {reply : Reply} :
    AnswersWell (x.answer (outcomeResponse x.scope op (.ok reply))) := by
  rw [outcomeResponse, Exchange.answer, answersWell_some, honours_sendWrapper]
  exact Or.inl op.success_bounds

/-- A request that has a route is answered well when its body can be read, and it has a path
where one is needed. -/
theorem routed_iff {op : Operation} (h : route x.arrival.request = .ok op) :
    AnswersWell (x.answer (routes site scan x x.scope (app.metered x)).response) ↔
      x.payload.Readable op ∧
        (x.arrival.request.urlPath ≠ [] ∨ NeedsNoPath (outcome site scan app x op).1) := by
  rw [routes_routed h]
  cases hout : (outcome site scan app x op).1 with
  | ok reply => exact iff_of_true answersWell_ok ⟨endpoint_ok hout, Or.inr trivial⟩
  | error e =>
      rcases endpoint_error hout with ⟨hread, hhandled⟩ | ⟨hread, rfl⟩
      · rw [answersWell_handled_iff hhandled]
        exact (and_iff_right hread).symm
      · exact iff_of_false (not_answersWell_http (by decide)) fun h => hread h.1

/-! ### Main results -/

/-- The requests whose answers keep the contract: those the limiter refuses, and those with a
route and a body that can be read; as long as the request has a path, or its answer needs
none. -/
def Covered (site : Site) {t : APIKeyTable} (scan : t.Scan) (app : App) (x : Exchange) : Prop :=
  match (RateLimit.dispatch app.limiter x.arrival).1 with
  | .rejected _ => x.arrival.request.urlPath ≠ []
  | .passed =>
      ∃ op, route x.arrival.request = .ok op ∧ x.payload.Readable op ∧
        (x.arrival.request.urlPath ≠ [] ∨ NeedsNoPath (outcome site scan app x op).1)

/-- **Which answers keep the problem contract.** -/
theorem answers_well_iff (site : Site) {t : APIKeyTable} (scan : t.Scan) (app : App)
    (x : Exchange) :
    AnswersWell (serve site scan app x).response ↔ Covered site scan app x := by
  unfold Covered
  split
  next retryAfter hverdict => exact rejected_iff hverdict
  next hverdict =>
      rw [(serve_passed hverdict).1]
      cases hroute : route x.arrival.request with
      | error e =>
          obtain ⟨status, detail, hstatus, rfl⟩ := route_error hroute
          rw [routes_unrouted hroute]
          refine iff_of_false (not_answersWell_http hstatus) ?_
          intro hwell
          obtain ⟨op, hop, -⟩ := hwell
          cases hop
      | ok op =>
          rw [routed_iff hroute]
          refine ⟨fun h => ⟨op, rfl, h⟩, ?_⟩
          intro hwell
          obtain ⟨op', hop, h⟩ := hwell
          cases hop
          exact h

end Serve

/-- A path without a route is answered by FastAPI. -/
theorem unknown_path_breaks_contract :
    ¬ ∀ (site : Site) (t : APIKeyTable) (scan : t.Scan) (app : App) (x : Exchange),
      AnswersWell (serve site scan app x).response := by
  intro h
  have hwell := h plainSite _ noKeys (App.new .empty)
    (.plain "GET" ['/', 'n', 'o', 'p', 'e'] ['k'] (.read .absent))
  rw [(serve_passed (by decide +kernel)).1, routes_unrouted rfl] at hwell
  exact not_answersWell_http (by decide) hwell

end Taskq.Http
