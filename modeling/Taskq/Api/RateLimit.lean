import Mathlib.Algebra.Order.Floor.Semiring
import Mathlib.Data.Rat.Floor
import Mathlib.Logic.Function.Basic
import Taskq.Api.Http
import Taskq.Lib.Machine
import Taskq.Service.Envelope

/-!
# Taskq.Api.RateLimit

`RateLimitMiddleware` (`api/middleware.py`) and the counter it keeps
(`service/metrics.py`).

One app has one dict of buckets, by a key that is made of the API key or of the
client's host; buckets are created when they are first asked for. A request reads
the clock up to three times: when its bucket is created, when it consumes, and when it is
told how long to wait.
-/

namespace Taskq.RateLimit

open Http Machine

/-! ### The middleware -/

def healthz : List Char := ['/', 'h', 'e', 'a', 'l', 't', 'h', 'z']

def readyz : List Char := ['/', 'r', 'e', 'a', 'd', 'y', 'z']

/-- Is the path one that stays reachable whatever the buckets hold? -/
def isExempt (path : List Char) : Bool :=
  path = healthz || path = readyz || (healthz ++ ['/']).isPrefixOf path
    || (readyz ++ ['/']).isPrefixOf path

/-- `_bucket_key`. -/
def bucketKey (r : Request) : List Char :=
  match getHeader r.headers apiKeyHeader with
  | some (c :: cs) => ['k', 'e', 'y', ':'] ++ c :: cs
  | _ =>
      match r.client with
      | some (c :: cs) => ['i', 'p', ':'] ++ c :: cs
      | _ => ['i', 'p', ':', 'u', 'n', 'k', 'n', 'o', 'w', 'n']

/-- A request, with what the clock showed while it was handled. -/
structure Arrival where
  request : Request
  /-- When its bucket was created, if it was. -/
  created : ℚ
  /-- In `consume`. -/
  consumed : ℚ
  /-- In `seconds_until_next_token`. -/
  waited : ℚ
  deriving DecidableEq

/-- An app's buckets, and the rejections its process has counted. -/
structure Limiter where
  config : RateLimitConfig
  buckets : List Char → Option TokenBucket
  rejections : ℕ

/-- `create_app`: no buckets yet. -/
def Limiter.new (config : RateLimitConfig) : Limiter where
  config := config
  buckets := fun _ => none
  rejections := 0

/-- `dict.__setitem__`. -/
def Limiter.put (s : Limiter) (key : List Char) (b : TokenBucket) : Limiter :=
  { s with buckets := Function.update s.buckets key (some b) }

/-- `record_rate_limit_rejection`. -/
def Limiter.recordRejection (s : Limiter) : Limiter := { s with rejections := s.rejections + 1 }

/-- What `dispatch` does with a request. -/
inductive Verdict
  /-- It is passed on. -/
  | passed
  /-- 429, with the seconds of `Retry-After`. -/
  | rejected (retryAfter : ℤ)
  deriving DecidableEq, Repr

/-- The seconds advertised for a wait; `none` is an infinite one. -/
def retryAfter : Option ℚ → ℤ
  | none => 1
  | some wait => if wait < 0 then 1 else max 0 ⌈wait⌉

/-- The bucket of a key, created when there is none. -/
def Limiter.bucket (s : Limiter) (key : List Char) (created : ℚ) : TokenBucket :=
  (s.buckets key).getD (TokenBucket.fresh s.config created)

/-- What `dispatch` does with the bucket of a request: consume, and ask for the wait when
there was no token. -/
def meter (b : TokenBucket) (a : Arrival) : Verdict × TokenBucket :=
  let out := b.consume a.consumed
  if out.1 then (.passed, out.2)
  else
    let wait := out.2.secondsUntilNextToken a.waited
    (.rejected (retryAfter wait.1), wait.2)

/-- `RateLimitMiddleware.dispatch`. -/
def dispatch : Step Limiter Arrival Verdict := fun s a =>
  if isExempt a.request.urlPath then (.passed, s)
  else
    let key := bucketKey a.request
    let out := meter (s.bucket key a.created) a
    match out.1 with
    | .passed => (.passed, s.put key out.2)
    | .rejected retryAfter => (.rejected retryAfter, (s.put key out.2).recordRejection)

def Verdict.isRejected : Verdict → Bool
  | .passed => false
  | .rejected _ => true

/-- The two ways a request can go with its bucket. -/
theorem meter_cases (b : TokenBucket) (a : Arrival) :
    ((b.consume a.consumed).1 = true ∧ meter b a = (.passed, (b.consume a.consumed).2)) ∨
      ((b.consume a.consumed).1 = false ∧
        meter b a =
          (.rejected (retryAfter ((b.consume a.consumed).2.secondsUntilNextToken a.waited).1),
            ((b.consume a.consumed).2.secondsUntilNextToken a.waited).2)) := by
  unfold meter
  cases h : (b.consume a.consumed).1 with
  | true => exact Or.inl ⟨rfl, by simp [h]⟩
  | false => exact Or.inr ⟨rfl, by simp [h]⟩

section Dispatch

variable {s : Limiter} {a : Arrival}

theorem dispatch_exempt (h : isExempt a.request.urlPath = true) : dispatch s a = (.passed, s) := by
  simp [dispatch, h]

/-- A request that is not exempt is answered by its bucket, and touches no other. -/
theorem dispatch_metered (h : isExempt a.request.urlPath = false) :
    let out := meter (s.bucket (bucketKey a.request) a.created) a
    (dispatch s a).1 = out.1 ∧ (dispatch s a).2.config = s.config ∧
      (dispatch s a).2.buckets = Function.update s.buckets (bucketKey a.request) (some out.2) ∧
      (dispatch s a).2.rejections = s.rejections + out.1.isRejected.toNat := by
  simp only [dispatch, h, Bool.false_eq_true, if_false]
  split
  next hpassed =>
      rw [hpassed]
      exact ⟨rfl, rfl, rfl, rfl⟩
  next r hrejected =>
      rw [hrejected]
      exact ⟨rfl, rfl, rfl, rfl⟩

@[simp] theorem dispatch_config : (dispatch s a).2.config = s.config := by
  cases h : isExempt a.request.urlPath with
  | true => rw [dispatch_exempt h]
  | false => exact (dispatch_metered h).2.1

/-- The counter counts the rejections. -/
theorem dispatch_rejections :
    (dispatch s a).2.rejections = s.rejections + (dispatch s a).1.isRejected.toNat := by
  cases h : isExempt a.request.urlPath with
  | true => rw [dispatch_exempt h]; rfl
  | false =>
      obtain ⟨hverdict, -, -, hrejections⟩ := dispatch_metered (s := s) h
      rw [hrejections, hverdict]

end Dispatch

/-! ### Principals -/

/-- Whom a request is counted for: its key, or its host when there is no key. -/
inductive Principal
  | key (k : List Char)
  | host (h : List Char)
  deriving DecidableEq

/-- The principal of a request; neither an empty key nor an empty host is one. -/
def principal? (r : Request) : Option Principal :=
  match getHeader r.headers apiKeyHeader with
  | some (c :: cs) => some (.key (c :: cs))
  | _ =>
      match r.client with
      | some (c :: cs) => some (.host (c :: cs))
      | _ => none

/-- The key of a principal's bucket. -/
def Principal.bucketKey : Principal → List Char
  | .key k => ['k', 'e', 'y', ':'] ++ k
  | .host h => ['i', 'p', ':'] ++ h

/-- Keys and hosts never share a bucket, nor do two of one kind. -/
theorem Principal.bucketKey_injective : Function.Injective Principal.bucketKey := by
  intro p q h
  cases p with
  | key k =>
      cases q with
      | key k' => simpa [Principal.bucketKey] using h
      | host h' => simp [Principal.bucketKey] at h
  | host h' =>
      cases q with
      | key k' => simp [Principal.bucketKey] at h
      | host h'' => simpa [Principal.bucketKey] using h

theorem bucketKey_of_principal {r : Request} {p : Principal} (h : principal? r = some p) :
    RateLimit.bucketKey r = p.bucketKey := by
  unfold principal? at h
  unfold RateLimit.bucketKey
  split at h
  next hkey =>
      cases h
      rfl
  next hkey =>
      split at h
      next => cases h; rfl
      next => cases h

/-- Is this a request that the bucket of `key` is asked about? -/
def metered (key : List Char) (a : Arrival) : Bool :=
  !isExempt a.request.urlPath && bucketKey a.request = key

theorem metered_iff {key : List Char} {a : Arrival} :
    metered key a = true ↔ isExempt a.request.urlPath = false ∧ bucketKey a.request = key := by
  simp [metered]

/-- Is this a request that the principal is charged for? -/
def charged (p : Principal) (a : Arrival) : Bool :=
  !isExempt a.request.urlPath && principal? a.request = some p

/-- Where every request that is charged has a principal, principals are told apart by
their buckets. -/
theorem metered_eq_charged {p : Principal} {a : Arrival}
    (h : isExempt a.request.urlPath = true ∨ (principal? a.request).isSome) :
    metered p.bucketKey a = charged p a := by
  unfold metered charged
  cases hexempt : isExempt a.request.urlPath with
  | true => rfl
  | false =>
      rw [hexempt, Option.isSome_iff_exists] at h
      obtain ⟨q, hq⟩ := h.resolve_left Bool.false_ne_true
      rw [bucketKey_of_principal hq, hq]
      simp [Principal.bucketKey_injective.eq_iff]

/-- Two limiters that agree on the bucket of one key. -/
structure SameBucket (key : List Char) (s t : Limiter) : Prop where
  config : s.config = t.config
  bucket : s.buckets key = t.buckets key

/-- A limiter is, to the requests of one key, a limiter that gets no others. -/
theorem projection (key : List Char) :
    Projection dispatch dispatch (SameBucket key) (metered key) where
  answer s t a h hmine := by
    obtain ⟨hexempt, hkey⟩ := metered_iff.mp hmine
    rw [(dispatch_metered hexempt).1, (dispatch_metered hexempt).1, hkey, Limiter.bucket,
      Limiter.bucket, h.bucket, h.config]
  step s t a h hmine := by
    obtain ⟨hexempt, hkey⟩ := metered_iff.mp hmine
    refine ⟨by simpa using h.config, ?_⟩
    rw [(dispatch_metered hexempt).2.2.1, (dispatch_metered hexempt).2.2.1, hkey, Limiter.bucket,
      Limiter.bucket, h.bucket, h.config, Function.update_self, Function.update_self]
  skip s t a h hother := by
    refine ⟨by simpa using h.config, ?_⟩
    cases hexempt : isExempt a.request.urlPath with
    | true => rw [dispatch_exempt hexempt, h.bucket]
    | false =>
        have hne : key ≠ bucketKey a.request := by
          rintro rfl
          simp [metered, hexempt] at hother
        rw [(dispatch_metered hexempt).2.2.1, Function.update_of_ne hne, h.bucket]

@[simp] theorem final_config (s : Limiter) (as : List Arrival) :
    (final dispatch s as).config = s.config := by
  induction as generalizing s with
  | nil => rfl
  | cons a as ih => rw [final, ih, dispatch_config]

/-- The counter at the end of a run. -/
theorem final_rejections (s : Limiter) (as : List Arrival) :
    (final dispatch s as).rejections =
      s.rejections + (answers dispatch s as).countP Verdict.isRejected := by
  induction as generalizing s with
  | nil => rfl
  | cons a as ih =>
      rw [final, answers, ih, dispatch_rejections, List.countP_cons]
      cases (dispatch s a).1.isRejected <;> simp [add_assoc, add_comm]

/-- Exempt requests are always passed on. -/
theorem exempt_passed (s : Limiter) (as : List Arrival) :
    ∀ q ∈ transcript dispatch s as, isExempt q.1.request.urlPath = true → q.2 = .passed := by
  induction as generalizing s with
  | nil => simp [transcript]
  | cons a as ih =>
      intro q hq hexempt
      rw [transcript, List.mem_cons] at hq
      rcases hq with rfl | hq
      · rw [dispatch_exempt hexempt]
      · exact ih _ q hq hexempt

/-- The bucket that is created for a key is full; a negative capacity is none. -/
theorem bucket_starts_full {s : Limiter} {key : List Char} (h : s.buckets key = none)
    (created : ℚ) : (s.bucket key created).tokens = max 0 (s.config.burst : ℚ) := by
  rw [Limiter.bucket, h]
  simp [TokenBucket.fresh, TokenBucket.init]

/-- **Principals are limited independently.** In any interleaving of requests of any
principals with exempt ones, every principal sees the verdicts it would see alone in a
fresh app; exempt requests are passed on; the counter grows by the number of rejections;
and a bucket that is created is full. -/
theorem principals_independent (config : RateLimitConfig) (as : List Arrival)
    (hprincipal : ∀ a ∈ as, isExempt a.request.urlPath = true ∨ (principal? a.request).isSome) :
    (∀ p, (transcript dispatch (Limiter.new config) as).filter (fun q => charged p q.1) =
      transcript dispatch (Limiter.new config) (as.filter (charged p))) ∧
    (∀ q ∈ transcript dispatch (Limiter.new config) as,
      isExempt q.1.request.urlPath = true → q.2 = .passed) ∧
    (final dispatch (Limiter.new config) as).rejections =
      (answers dispatch (Limiter.new config) as).countP Verdict.isRejected ∧
    (∀ before after, as = before ++ after → ∀ key created,
      (final dispatch (Limiter.new config) before).buckets key = none →
        ((final dispatch (Limiter.new config) before).bucket key created).tokens
          = max 0 (config.burst : ℚ)) := by
  refine ⟨fun p => ?_, exempt_passed _ as, ?_, ?_⟩
  · have hcharged : ∀ a ∈ as, metered p.bucketKey a = charged p a := fun a ha =>
      metered_eq_charged (hprincipal a ha)
    have hseen : ∀ q ∈ transcript dispatch (Limiter.new config) as,
        metered p.bucketKey q.1 = charged p q.1 := fun q hq =>
      hcharged q.1 (mem_of_mem_transcript hq)
    rw [← List.filter_congr hcharged, ← List.filter_congr hseen]
    exact (projection p.bucketKey).transcript_filter ⟨rfl, rfl⟩
  · rw [final_rejections]
    simp [Limiter.new]
  · intro before after _ key created hnone
    rw [bucket_starts_full hnone, final_config]
    rfl

/-- A request for a task, by a client with this key. -/
def keyRequest (key : List Char) : Request where
  method := "GET"
  path := ['/', 'v', '1', '/', 't', 'a', 's', 'k', 's']
  urlPath := ['/', 'v', '1', '/', 't', 'a', 's', 'k', 's']
  headers := [{ name := apiKeyHeader, value := encodeLatin1 key }]
  client := some ['h']

/-- All three readings of the clock at once. -/
def Arrival.at (request : Request) (now : ℚ) : Arrival where
  request := request
  created := now
  consumed := now
  waited := now

theorem principals_independent_two :
    let config : RateLimitConfig := ⟨1, 1⟩
    let as := [Arrival.at (keyRequest ['a']) 0, Arrival.at (keyRequest ['b']) 0,
      Arrival.at (keyRequest ['a']) 0]
    (∀ p, (transcript dispatch (Limiter.new config) as).filter (fun q => charged p q.1) =
      transcript dispatch (Limiter.new config) (as.filter (charged p))) ∧
    (∀ q ∈ transcript dispatch (Limiter.new config) as,
      isExempt q.1.request.urlPath = true → q.2 = .passed) ∧
    (final dispatch (Limiter.new config) as).rejections =
      (answers dispatch (Limiter.new config) as).countP Verdict.isRejected ∧
    (∀ before after, as = before ++ after → ∀ key created,
      (final dispatch (Limiter.new config) before).buckets key = none →
        ((final dispatch (Limiter.new config) before).bucket key created).tokens
          = max 0 (config.burst : ℚ)) :=
  principals_independent ⟨1, 1⟩ _ (by decide)

end Taskq.RateLimit
