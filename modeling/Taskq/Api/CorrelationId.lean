import Taskq.Api.App

/-!
# Taskq.Api.CorrelationId

One id for each request: in the answer's header, in its problem document and in the log.

The middleware's wrapper sees every answer but two: a success goes through it, and so does
what the limiter and the exception layer answer; the last resort is outside, and so its
answer carries the header only because the handler puts it there.
-/

namespace Taskq.Http

open Unicode

/-- The first incoming id, as it was sent. -/
def incoming (headers : List Header) : Option (List Byte) :=
  (headers.find? (·.name = correlationHeader)).map Header.value

/-- The id a request should go by: the first incoming one, unless that is empty or there is
none. -/
def expectedId (headers : List Header) (uuid : Fin (2 ^ 128)) : List Byte :=
  match incoming headers with
  | some (b :: bs) => b :: bs
  | _ => encodeLatin1 (mintCorrelationId uuid)

/-- The middleware reads the id that was sent. -/
theorem correlationId_eq (headers : List Header) (uuid : Fin (2 ^ 128)) :
    correlationId headers uuid = latin1 (expectedId headers uuid) := by
  have hget : getHeader headers correlationHeader = (incoming headers).map latin1 := by
    rw [getHeader, incoming, Option.map_map]
    rfl
  rw [correlationId, expectedId, hget]
  cases incoming headers with
  | none => exact (latin1_encodeLatin1 (isLatin1_hexDigits 32 _)).symm
  | some bytes =>
      cases bytes with
      | nil => exact (latin1_encodeLatin1 (isLatin1_hexDigits 32 _)).symm
      | cons b bs => rfl

/-- The header of the id, under whatever case its name has. -/
def idHeaders (r : Response) : List Header :=
  r.headers.filter fun h => lower h.name = correlationHeader

/-- A problem document names the request it is about. -/
def Names (cid : List Char) (r : Response) : Prop :=
  ∀ document, r.body = .problem document →
    document.lookup "correlation_id" = some (.str cid)

section Answers

variable {scope : Scope} {cid : List Char} {p : TaskApi.Problem} {extra : List (String × Content)}
  {r : Response}

theorem idHeaders_sendWrapper (cid : List Char) (r : Response) :
    idHeaders (sendWrapper cid r) =
      [{ name := correlationHeader, value := encodeLatin1 cid }] := by
  have hlower : lower correlationHeader = correlationHeader := by decide
  have hnone : (r.headers.filter fun h => lower h.name ≠ correlationHeader).filter
      (fun h => lower h.name = correlationHeader) = [] := by
    rw [List.filter_filter, List.filter_eq_nil_iff]
    simp
  rw [idHeaders, sendWrapper, List.filter_append, hnone]
  simp [hlower]

theorem idHeaders_problemAnswer : idHeaders (problemAnswer scope cid p extra) =
    [{ name := correlationHeader, value := encodeLatin1 cid }] := by
  have hlower : lower correlationHeader = correlationHeader := by decide
  have hother : lower contentTypeHeader ≠ correlationHeader := by decide
  simp [idHeaders, problemAnswer, hlower, hother]

theorem names_sendWrapper (h : Names cid r) : Names cid (sendWrapper cid r) := h

theorem names_problemAnswer (h : scope.Identified cid) :
    Names cid (problemAnswer scope cid p extra) := by
  intro document hbody
  cases hbody
  rw [enrichProblem_raised h]
  exact Problem.lookup_correlationId (given_some.mpr h.ne_nil)

theorem names_limitAnswer (h : scope.Identified cid) (retryAfter : ℤ) :
    Names cid (limitAnswer scope retryAfter) := by
  intro document hbody
  cases hbody
  have hid : (rateLimitExceeded scope).correlationId? = some cid := h.id
  have hgiven : given (rateLimitExceeded scope).correlationId? = true := by
    rw [hid]
    exact given_some.mpr h.ne_nil
  rw [Problem.lookup_correlationId hgiven, hid]
  rfl

theorem names_problemResponse (h : scope.Identified cid) (hstatus : p.status < 1000)
    (hr : problemResponse scope (.raised p extra) = some r) : Names cid r := by
  rw [problemResponse_raised h hstatus] at hr
  split_ifs at hr
  cases hr
  exact names_problemAnswer h

/-- What a handler of exceptions answers names the request. -/
theorem names_exceptionHandler (h : scope.Identified cid) {e : Raised}
    (he : e.Handled ∨ ∃ status detail, e = .http status detail)
    (hr : exceptionHandler scope e = some r) : Names cid r := by
  cases e with
  | problem p =>
      rcases he with ⟨q, extra, rfl, hproper⟩ | ⟨status, detail, hhttp⟩
      · exact names_problemResponse h (by have := hproper.status_lt; omega) hr
      · cases hhttp
  | validation errors => exact names_problemResponse h (by decide) hr
  | http status detail =>
      rw [exceptionHandler, jsonResponse] at hr
      split_ifs at hr
      cases hr
      intro document hbody
      cases hbody
  | other => cases hr

end Answers

section Serve

variable {site : Site} {t : APIKeyTable} {scan : t.Scan} {app : App} {x : Exchange} {r : Response}

theorem names_routes (hr : (routes site scan x x.scope (app.metered x)).response = some r) :
    Names x.cid r := by
  cases hroute : route x.arrival.request with
  | error e =>
      obtain ⟨status, detail, -, rfl⟩ := route_error hroute
      rw [routes_unrouted hroute] at hr
      exact names_exceptionHandler x.identified (Or.inr ⟨status, detail, rfl⟩) hr
  | ok op =>
      rw [routes_routed hroute] at hr
      cases hout : (outcome site scan app x op).1 with
      | ok reply =>
          rw [hout] at hr
          cases hr
          intro document hbody
          cases hbody
      | error e =>
          rw [hout] at hr
          refine names_exceptionHandler x.identified ?_ hr
          rcases endpoint_error hout with ⟨-, hhandled⟩ | ⟨-, rfl⟩
          · exact Or.inl hhandled
          · exact Or.inr ⟨400, _, rfl⟩

/-- What goes through the wrapper has the header from there, and what does not has it from
the handler. -/
theorem answer_has_id {response : Option Response} (h : ∀ r, response = some r → Names x.cid r) :
    ∃ r, x.answer response = some r ∧
      idHeaders r = [{ name := correlationHeader, value := encodeLatin1 x.cid }] ∧
      Names x.cid r := by
  cases response with
  | some r => exact ⟨_, rfl, idHeaders_sendWrapper _ r, names_sendWrapper (h r rfl)⟩
  | none =>
      obtain ⟨p, -, -, hanswer⟩ := problemResponse_internalServerError x.identified
      exact ⟨_, hanswer, idHeaders_problemAnswer, names_problemAnswer x.identified⟩

/-! ### Main results -/

/-- One id everywhere: in one header of the answer, in its problem document, in the log. -/
structure OneId (id : List Byte) (out : Outcome) : Prop where
  answer : ∃ r, out.response = some r ∧
    idHeaders r = [{ name := correlationHeader, value := id }] ∧ Names (latin1 id) r
  log : ∃ record, out.log = [record] ∧ record.correlationId = latin1 id ∧
    latin1 id <:+ record.message

/-- **Every request has one id**: the one it should go by is in its answer, whatever becomes
of it, and in its log record. -/
theorem one_id (site : Site) {t : APIKeyTable} (scan : t.Scan) (app : App) (x : Exchange) :
    OneId (expectedId x.arrival.request.headers x.uuid) (serve site scan app x) := by
  have hcid : latin1 (expectedId x.arrival.request.headers x.uuid) = x.cid :=
    (correlationId_eq _ _).symm
  have hid : expectedId x.arrival.request.headers x.uuid = encodeLatin1 x.cid := by
    rw [← hcid, encodeLatin1_latin1]
  refine ⟨?_, ?_⟩
  · rw [hcid, hid]
    cases hverdict : (RateLimit.dispatch app.limiter x.arrival).1 with
    | rejected retryAfter =>
        rw [(serve_rejected hverdict).1]
        exact ⟨_, rfl, idHeaders_sendWrapper _ _,
          names_sendWrapper (names_limitAnswer x.identified retryAfter)⟩
    | passed =>
        rw [(serve_passed hverdict).1]
        exact answer_has_id fun r hr => names_routes hr
  · rw [hcid, serve_eq]
    exact ⟨_, rfl, rfl, List.suffix_append _ _⟩

end Serve

end Taskq.Http
