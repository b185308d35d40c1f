import Taskq.Api.Access
import Taskq.Lib.Lockstep

/-!
# Taskq.Api.KeyTexts

What the service lets out about the texts of its keys: nothing.

Give every key another text, in the requests that come with it and in the hash of its rows, so
that keys which were one are still one and a key fits the rows that it fitted. What the service
answers, what it logs and what it stores is then the same, over whole runs
(`key_texts_unseen`): the requests are found by the same rows and charged to buckets that hold the
same. So no text of a key shows up anywhere, and nothing depends on one.

The keys that need no row are an exception, since their texts are in the code.
-/

namespace Taskq.KeyTexts

open Http Access Lockstep Unicode

/-- Other texts for the keys, and other hashes for the rows of the keys. -/
structure Renaming (sha256 : List Byte → String) where
  key : List Char → List Char → Prop
  hash : String → String → Prop
  same : ∀ {k l k' l'}, key k l → key k' l' → (k = k' ↔ l = l')
  empty : ∀ {k l}, key k l → (k = [] ↔ l = [])
  legacy : ∀ {k l}, key k l →
    legacyKeyScopes (PyStr.ofChars k) = legacyKeyScopes (PyStr.ofChars l)
  hashed : ∀ {k l g h}, key k l → hash g h →
    (hashAPIKey sha256 (PyStr.ofChars k) = .ok g ↔ hashAPIKey sha256 (PyStr.ofChars l) = .ok h)

namespace Renaming

variable {sha256 : List Byte → String} (ρ : Renaming sha256)

/-- Back to the first texts. -/
def symm : Renaming sha256 where
  key := flip ρ.key
  hash := flip ρ.hash
  same h h' := (ρ.same h h').symm
  empty h := (ρ.empty h).symm
  legacy h := (ρ.legacy h).symm
  hashed h h' := (ρ.hashed h h').symm

/-! ### What goes with what -/

/-- Rows that differ in their hashes only. -/
structure Row (row other : APIKey) : Prop where
  id : row.id = other.id
  keyHash : ρ.hash row.keyHash other.keyHash
  scope : row.scope = other.scope
  createdAt : row.createdAt = other.createdAt
  revokedAt : row.revokedAt = other.revokedAt

/-- Requests that differ in their keys only, as far as they are read. -/
structure Request (request other : Http.Request) : Prop where
  method : request.method = other.method
  path : request.path = other.path
  urlPath : request.urlPath = other.urlPath
  client : request.client = other.client
  correlation :
    getHeader request.headers correlationHeader = getHeader other.headers correlationHeader
  apiKey : Option.Rel ρ.key (getHeader request.headers apiKeyHeader)
    (getHeader other.headers apiKeyHeader)

structure Exchange (x y : Http.Exchange) : Prop where
  request : ρ.Request x.arrival.request y.arrival.request
  created : x.arrival.created = y.arrival.created
  consumed : x.arrival.consumed = y.arrival.consumed
  waited : x.arrival.waited = y.arrival.waited
  payload : x.payload = y.payload
  query : x.query = y.query
  draw : x.draw = y.draw
  uuid : x.uuid = y.uuid

inductive Event : Access.Event → Access.Event → Prop
  | create {row other} : ρ.Row row other → Event (.key (.create row)) (.key (.create other))
  | revoke {id time} : Event (.key (.revoke id time)) (.key (.revoke id time))
  | request {x y} : ρ.Exchange x y → Event (.request x) (.request y)
  | completion {host faults taskId command runId} :
      Event (.completion host faults taskId command runId)
        (.completion host faults taskId command runId)

/-- Keys of buckets: those of one key each, or of one host. -/
inductive Bucket : List Char → List Char → Prop
  | key {k l} : ρ.key k l → Bucket (['k', 'e', 'y', ':'] ++ k) (['k', 'e', 'y', ':'] ++ l)
  | host {h} : Bucket (['i', 'p', ':'] ++ h) (['i', 'p', ':'] ++ h)

structure Limiter (s s' : RateLimit.Limiter) : Prop where
  config : s.config = s'.config
  rejections : s.rejections = s'.rejections
  buckets : ∀ {b b'}, ρ.Bucket b b' → s.buckets b = s'.buckets b'

structure App (app other : Http.App) : Prop where
  limiter : ρ.Limiter app.limiter other.limiter
  db : app.db = other.db

structure Deployment (d e : Access.Deployment) : Prop where
  app : ρ.App d.app e.app
  keys : List.Forall₂ ρ.Row d.keys.rows e.keys.rows

/-- Answers of the storage: it raises alike, or scans in one order. -/
inductive Scan {t u : APIKeyTable} : t.Scan → u.Scan → Prop
  | failed {e} : Scan (.failed e) (.failed e)
  | scanned {rows others perm perm'} : List.Forall₂ ρ.Row rows others →
      Scan (.scanned rows perm) (.scanned others perm')

/-! ### Keys -/

section Keys

variable {ρ} {t u : APIKeyTable} {scan : t.Scan} {other : u.Scan} {k l : List Char}

/-- Whatever the storage answers, it can answer for the other table. -/
theorem exists_scan (h : List.Forall₂ ρ.Row t.rows u.rows) (scan : t.Scan) :
    ∃ other : u.Scan, ρ.Scan scan other := by
  cases scan with
  | failed e => exact ⟨.failed e, .failed⟩
  | scanned rows perm =>
      obtain ⟨others, hrows, hperm⟩ := List.perm_comp_forall₂ perm h
      exact ⟨.scanned others hperm, .scanned hrows⟩

/-- The row is active, and the key's. -/
def opens (sha256 : List Byte → String) (key : PyStr) (row : APIKey) : Bool :=
  match hashAPIKey sha256 key with
  | .ok hash => row.Active hash
  | .error _ => false

theorem opens_iff {key : PyStr} {row : APIKey} : opens sha256 key row = true ↔
    hashAPIKey sha256 key = .ok row.keyHash ∧ row.revokedAt = none := by
  unfold opens
  split
  next hash hhash =>
      rw [hhash, decide_eq_true_iff, Except.ok.injEq]
      exact and_congr_left fun _ => eq_comm
  next hhash => simp [hhash]

theorem lookupScope_scanned {rows : List APIKey} {perm : rows.Perm t.rows} {key : PyStr} :
    lookupScope sha256 (.scanned rows perm : t.Scan) key =
      (rows.find? (opens sha256 key)).map fun row => PyStr.ofString row.scope := by
  unfold lookupScope APIKeyTable.lookupActive opens
  cases hhash : hashAPIKey sha256 key with
  | error e => simp [bind, Except.bind]
  | ok hash =>
      simp only [bind, Except.bind, pure, Except.pure]
      cases rows.find? fun row => decide (row.Active hash) <;> rfl

theorem opens_eq (h : ρ.key k l) {row other : APIKey} (hrow : ρ.Row row other) :
    opens sha256 (PyStr.ofChars k) row = opens sha256 (PyStr.ofChars l) other := by
  rw [Bool.eq_iff_iff, opens_iff, opens_iff, ρ.hashed h hrow.keyHash, hrow.revokedAt]

theorem find?_scope (h : ρ.key k l) {rows others : List APIKey}
    (hrows : List.Forall₂ ρ.Row rows others) :
    ((rows.find? (opens sha256 (PyStr.ofChars k))).map fun row => PyStr.ofString row.scope) =
      (others.find? (opens sha256 (PyStr.ofChars l))).map fun row => PyStr.ofString row.scope := by
  induction hrows with
  | nil => rfl
  | cons hrow _ ih =>
      rw [List.find?_cons, List.find?_cons, opens_eq h hrow]
      split
      · rw [Option.map_some, Option.map_some, hrow.scope]
      · exact ih

/-- A key finds the same scope. -/
theorem lookupScope_eq (h : ρ.key k l) (hscan : ρ.Scan scan other) :
    lookupScope sha256 scan (PyStr.ofChars k) = lookupScope sha256 other (PyStr.ofChars l) := by
  cases hscan with
  | @failed e =>
      have hfirst : (.failed e : t.Scan).Failed := trivial
      have hsecond : (.failed e : u.Scan).Failed := trivial
      rw [lookupScope_failed hfirst, lookupScope_failed hsecond]
  | scanned hrows => rw [lookupScope_scanned, lookupScope_scanned, find?_scope h hrows]

theorem exists_cons {c : Char} {cs : List Char} (h : ρ.key (c :: cs) l) : ∃ d ds, l = d :: ds :=
  List.exists_cons_of_ne_nil fun hl => List.cons_ne_nil c cs ((ρ.empty h).mpr hl)

/-- A key is let through, or refused, for the same reason. -/
theorem verifyAPIKey_eq (h : ρ.key k l) (hscan : ρ.Scan scan other) (required : Option PyStr) :
    (verifyAPIKey sha256 scan (some (PyStr.ofChars k)) required).map Principal.scope =
      (verifyAPIKey sha256 other (some (PyStr.ofChars l)) required).map Principal.scope := by
  cases k with
  | nil =>
      rw [(ρ.empty h).mp rfl]
      rfl
  | cons c cs =>
      obtain ⟨d, ds, rfl⟩ := exists_cons h
      have hlookup := lookupScope_eq h hscan
      have hlegacy := ρ.legacy h
      rw [PyStr.ofChars, List.map_cons, PyStr.ofChars, List.map_cons] at hlookup hlegacy
      simp only [PyStr.ofChars, List.map_cons, verifyAPIKey, hlookup, hlegacy]
      split
      · rfl
      · split
        · rfl
        · split
          · split_ifs <;> rfl
          · rfl

variable {site : Site} {σ : Renaming site.sha256}

/-- A dependency lets both through, or raises the same. -/
theorem requireScope_cases {keys others : Option (List Char)} (h : Option.Rel σ.key keys others)
    (hscan : σ.Scan scan other) (required : PyStr) :
    (∃ e, requireScope site scan (keys.map PyStr.ofChars) required = .error e ∧
        requireScope site other (others.map PyStr.ofChars) required = .error e) ∨
      ∃ p q, requireScope site scan (keys.map PyStr.ofChars) required = .ok p ∧
        requireScope site other (others.map PyStr.ofChars) required = .ok q := by
  cases h with
  | none => exact Or.inl ⟨_, rfl, rfl⟩
  | @some k l hkey =>
      have hverify := verifyAPIKey_eq hkey hscan (some required)
      simp only [requireScope, Option.map_some]
      cases hfirst : verifyAPIKey site.sha256 scan (some (PyStr.ofChars k)) (some required) with
      | error e =>
          cases hsecond : verifyAPIKey site.sha256 other (some (PyStr.ofChars l))
              (some required) with
          | error e' =>
              rw [hfirst, hsecond] at hverify
              cases hverify
              cases e
              · exact Or.inl ⟨_, rfl, rfl⟩
              · exact Or.inl ⟨_, rfl, rfl⟩
          | ok q =>
              rw [hfirst, hsecond] at hverify
              cases hverify
      | ok p =>
          cases hsecond : verifyAPIKey site.sha256 other (some (PyStr.ofChars l))
              (some required) with
          | error e =>
              rw [hfirst, hsecond] at hverify
              cases hverify
          | ok q => exact Or.inr ⟨p, q, rfl, rfl⟩

theorem authorize_eq {keys others : Option (List Char)} (h : Option.Rel σ.key keys others)
    (hscan : σ.Scan scan other) (dependencies : List PyStr) :
    authorize site scan (keys.map PyStr.ofChars) dependencies =
      authorize site other (others.map PyStr.ofChars) dependencies := by
  induction dependencies with
  | nil => rfl
  | cons required rest ih =>
      rw [authorize, authorize]
      rcases requireScope_cases h hscan required with ⟨e, hfirst, hsecond⟩ | ⟨p, q, hfirst, hsecond⟩
      · rw [hfirst, hsecond]
      · rw [hfirst, hsecond]
        exact ih

end Keys

/-! ### Buckets -/

section Buckets

variable {ρ} {s s' : RateLimit.Limiter} {x y : Http.Exchange}

theorem Bucket.same {b b' c c' : List Char} (h : ρ.Bucket b b') (h' : ρ.Bucket c c') :
    b = c ↔ b' = c' := by
  cases h with
  | key hkey =>
      cases h' with
      | key hkey' => simpa using ρ.same hkey hkey'
      | host => simp
  | host =>
      cases h' with
      | key hkey' => simp
      | host => exact Iff.rfl

/-- Without a key it is the bucket of the host. -/
theorem host_bucket (client : Option (List Char)) :
    let bucket := match client with
      | some (c :: cs) => ['i', 'p', ':'] ++ c :: cs
      | _ => ['i', 'p', ':', 'u', 'n', 'k', 'n', 'o', 'w', 'n']
    ρ.Bucket bucket bucket := by
  rcases client with _ | _ | ⟨c, cs⟩
  · exact .host (h := ['u', 'n', 'k', 'n', 'o', 'w', 'n'])
  · exact .host (h := ['u', 'n', 'k', 'n', 'o', 'w', 'n'])
  · exact .host

theorem Request.bucket {request other : Http.Request} (h : ρ.Request request other) :
    ρ.Bucket (RateLimit.bucketKey request) (RateLimit.bucketKey other) := by
  have hkey := h.apiKey
  unfold RateLimit.bucketKey
  rw [h.client]
  generalize other.client = client
  generalize getHeader request.headers apiKeyHeader = keys at hkey
  generalize getHeader other.headers apiKeyHeader = others at hkey
  cases hkey with
  | none => exact host_bucket client
  | @some k l hkl =>
      cases k with
      | nil =>
          obtain rfl : l = [] := (ρ.empty hkl).mp rfl
          exact host_bucket client
      | cons c cs =>
          obtain ⟨d, ds, rfl⟩ := exists_cons hkl
          exact .key hkl

theorem Limiter.bucket (h : ρ.Limiter s s') {b b' : List Char} (hb : ρ.Bucket b b')
    (created : ℚ) : s.bucket b created = s'.bucket b' created := by
  rw [RateLimit.Limiter.bucket, RateLimit.Limiter.bucket, h.buckets hb, h.config]

/-- The limiter tells the two requests the same, and keeps its buckets alike. -/
theorem dispatch_like (h : ρ.Limiter s s') (hx : ρ.Exchange x y) :
    (RateLimit.dispatch s x.arrival).1 = (RateLimit.dispatch s' y.arrival).1 ∧
      ρ.Limiter (RateLimit.dispatch s x.arrival).2 (RateLimit.dispatch s' y.arrival).2 := by
  cases hexempt : RateLimit.isExempt x.arrival.request.urlPath with
  | true =>
      have hexempt' : RateLimit.isExempt y.arrival.request.urlPath = true :=
        hx.request.urlPath ▸ hexempt
      rw [RateLimit.dispatch_exempt hexempt, RateLimit.dispatch_exempt hexempt']
      exact ⟨rfl, h⟩
  | false =>
      have hexempt' : RateLimit.isExempt y.arrival.request.urlPath = false :=
        hx.request.urlPath ▸ hexempt
      have hbucket := hx.request.bucket
      have hmeter : RateLimit.meter (s.bucket (RateLimit.bucketKey x.arrival.request)
            x.arrival.created) x.arrival =
          RateLimit.meter (s'.bucket (RateLimit.bucketKey y.arrival.request)
            y.arrival.created) y.arrival := by
        rw [h.bucket hbucket, RateLimit.meter, RateLimit.meter, hx.created, hx.consumed, hx.waited]
      obtain ⟨hverdict, hconfig, hbuckets, hrejections⟩ :=
        RateLimit.dispatch_metered (s := s) hexempt
      obtain ⟨hverdict', hconfig', hbuckets', hrejections'⟩ :=
        RateLimit.dispatch_metered (s := s') hexempt'
      refine ⟨by rw [hverdict, hverdict', hmeter], ?_, ?_, ?_⟩
      · rw [hconfig, hconfig', h.config]
      · rw [hrejections, hrejections', hmeter, h.rejections]
      · intro b b' hb
        rw [hbuckets, hbuckets', hmeter, Function.update_apply, Function.update_apply,
          h.buckets hb]
        exact if_congr (hb.same hbucket) rfl rfl

end Buckets

/-! ### One request -/

section Serve

variable {site : Site} {ρ : Renaming site.sha256} {t u : APIKeyTable} {scan : t.Scan}
  {other : u.Scan} {app app' : Http.App} {x y : Http.Exchange}

theorem route_eq {request other : Http.Request} (h : ρ.Request request other) :
    route request = route other := by
  rw [route, route, h.path, h.method]

theorem Exchange.cid (h : ρ.Exchange x y) : x.cid = y.cid := by
  rw [Http.Exchange.cid, Http.Exchange.cid, correlationId, correlationId, h.request.correlation,
    h.uuid]

theorem Exchange.problemResponse (h : ρ.Exchange x y) (p : Problem) :
    problemResponse x.scope p = problemResponse y.scope p := by
  have hpath : x.scope.request.urlPath = y.scope.request.urlPath := h.request.urlPath
  have hid : x.scope.correlationId = y.scope.correlationId := congrArg some h.cid
  have henriched : enrichProblem x.scope p = enrichProblem y.scope p := by
    rw [enrichProblem, enrichProblem, hpath, hid]
  rw [Http.problemResponse, Http.problemResponse, henriched]

theorem Exchange.exceptionHandler (h : ρ.Exchange x y) (e : Http.Raised) :
    exceptionHandler x.scope e = exceptionHandler y.scope e := by
  cases e with
  | problem p => exact h.problemResponse p
  | validation errors => exact h.problemResponse _
  | http status detail => rfl
  | other => rfl

theorem Exchange.answer (h : ρ.Exchange x y) (response : Option Response) :
    x.answer response = y.answer response := by
  cases response with
  | none => exact h.problemResponse _
  | some r => rw [Http.Exchange.answer, Http.Exchange.answer, h.cid]

theorem Exchange.endpoint (h : ρ.Exchange x y) (hscan : ρ.Scan scan other) (rejections : ℕ)
    (op : Operation) (db : Database) :
    endpoint site scan x.draw x.arrival.request x.payload x.query rejections op db =
      endpoint site other y.draw y.arrival.request y.payload y.query rejections op db := by
  rw [Http.endpoint, Http.endpoint, apiKey, apiKey, authorize_eq h.request.apiKey hscan, h.draw,
    h.payload, h.query]

/-- The routes answer the same and leave the same tables. -/
theorem Exchange.routes (h : ρ.Exchange x y) (hscan : ρ.Scan scan other)
    (happ : ρ.App app app') :
    (routes site scan x x.scope app).response = (routes site other y y.scope app').response ∧
      ρ.App (routes site scan x x.scope app).app (routes site other y y.scope app').app := by
  have hroute : route x.scope.request = route y.scope.request := route_eq h.request
  cases hresult : route y.scope.request with
  | error e =>
      simp only [Http.routes, hroute, hresult]
      exact ⟨h.exceptionHandler e, happ⟩
  | ok op =>
      have hendpoint : Http.endpoint site scan x.draw x.scope.request x.payload x.query
            app.limiter.rejections op app.db =
          Http.endpoint site other y.draw y.scope.request y.payload y.query
            app'.limiter.rejections op app'.db := by
        rw [happ.limiter.rejections, happ.db]
        exact h.endpoint hscan _ op _
      simp only [Http.routes, hroute, hresult, hendpoint]
      refine ⟨?_, happ.limiter, rfl⟩
      cases (Http.endpoint site other y.draw y.scope.request y.payload y.query
          app'.limiter.rejections op app'.db).1 with
      | error e => exact h.exceptionHandler e
      | ok reply => rfl

theorem tooManyRequests_eq (h : ρ.Exchange x y) (retryAfter : ℤ) :
    tooManyRequests x.scope retryAfter = tooManyRequests y.scope retryAfter := by
  have hpath : x.scope.request.urlPath = y.scope.request.urlPath := h.request.urlPath
  have hid : x.scope.correlationId = y.scope.correlationId := congrArg some h.cid
  rw [tooManyRequests, tooManyRequests, rateLimitExceeded, rateLimitExceeded, hpath, hid]

/-- **One request**: the answer, what is logged and what is stored are the same. -/
theorem Exchange.serve (h : ρ.Exchange x y) (hscan : ρ.Scan scan other) (happ : ρ.App app app') :
    (serve site scan app x).response = (serve site other app' y).response ∧
      (serve site scan app x).log = (serve site other app' y).log ∧
        ρ.App (serve site scan app x).app (serve site other app' y).app := by
  obtain ⟨hverdict, hlimiter⟩ := dispatch_like happ.limiter h
  have hinner : (rateLimited x (Http.routes site scan x) x.scope app).response =
        (rateLimited y (Http.routes site other y) y.scope app').response ∧
      ρ.App (rateLimited x (Http.routes site scan x) x.scope app).app
        (rateLimited y (Http.routes site other y) y.scope app').app := by
    simp only [rateLimited, hverdict]
    split
    · exact h.routes hscan ⟨hlimiter, happ.db⟩
    · exact ⟨tooManyRequests_eq h _, hlimiter, happ.db⟩
  rw [serve_eq, serve_eq]
  refine ⟨?_, ?_, hinner.2⟩
  · rw [hinner.1, h.answer]
  · rw [h.request.method, h.request.path, h.cid]

end Serve

/-! ### Back again -/

section Symm

variable {ρ}

theorem Row.symm {row other : APIKey} (h : ρ.Row row other) : ρ.symm.Row other row where
  id := h.id.symm
  keyHash := h.keyHash
  scope := h.scope.symm
  createdAt := h.createdAt.symm
  revokedAt := h.revokedAt.symm

theorem Request.symm {request other : Http.Request} (h : ρ.Request request other) :
    ρ.symm.Request other request where
  method := h.method.symm
  path := h.path.symm
  urlPath := h.urlPath.symm
  client := h.client.symm
  correlation := h.correlation.symm
  apiKey := by
    have hkey := h.apiKey
    generalize getHeader request.headers apiKeyHeader = keys at hkey
    generalize getHeader other.headers apiKeyHeader = others at hkey
    cases hkey with
    | none => exact .none
    | some hkl => exact .some hkl

theorem Exchange.symm {x y : Http.Exchange} (h : ρ.Exchange x y) : ρ.symm.Exchange y x where
  request := h.request.symm
  created := h.created.symm
  consumed := h.consumed.symm
  waited := h.waited.symm
  payload := h.payload.symm
  query := h.query.symm
  draw := h.draw.symm
  uuid := h.uuid.symm

theorem Event.symm {a b : Access.Event} (h : ρ.Event a b) : ρ.symm.Event b a := by
  cases h with
  | create hrow => exact .create hrow.symm
  | revoke => exact .revoke
  | request hx => exact .request hx.symm
  | completion => exact .completion

theorem Bucket.symm {b b' : List Char} (h : ρ.Bucket b b') : ρ.symm.Bucket b' b := by
  cases h with
  | key hkl => exact .key hkl
  | host => exact .host

theorem Limiter.symm {s s' : RateLimit.Limiter} (h : ρ.Limiter s s') : ρ.symm.Limiter s' s where
  config := h.config.symm
  rejections := h.rejections.symm
  buckets hb := (h.buckets hb.symm).symm

theorem Deployment.symm {d e : Access.Deployment} (h : ρ.Deployment d e) :
    ρ.symm.Deployment e d where
  app := ⟨h.app.limiter.symm, h.app.db.symm⟩
  keys := h.keys.flip.imp fun _ _ hrow => hrow.symm

end Symm

/-! ### The table of the keys -/

section Table

variable {ρ} {t u : APIKeyTable}

theorem ids_eq {rows others : List APIKey} (h : List.Forall₂ ρ.Row rows others) :
    rows.map APIKey.id = others.map APIKey.id := by
  induction h with
  | nil => rfl
  | cons hrow _ ih => rw [List.map_cons, List.map_cons, hrow.id, ih]

theorem step_create_rows (t : APIKeyTable) (row : APIKey) :
    (t.step (.create row)).rows =
      if row.id ∈ t.rows.map APIKey.id then t.rows else row :: t.rows := by
  simp only [APIKeyTable.step, APIKeyTable.create]
  by_cases hid : row.id ∈ t.rows.map APIKey.id
  · rw [dif_pos hid, if_pos hid]
  · rw [dif_neg hid, if_neg hid]

theorem create_like (h : List.Forall₂ ρ.Row t.rows u.rows) {row other : APIKey}
    (hrow : ρ.Row row other) :
    List.Forall₂ ρ.Row (t.step (.create row)).rows (u.step (.create other)).rows := by
  rw [step_create_rows, step_create_rows, ids_eq h, hrow.id]
  split_ifs
  · exact h
  · exact .cons hrow h

theorem Row.revoke {row other : APIKey} (h : ρ.Row row other) (id : String) (time : DateTime) :
    ρ.Row (row.revoke id time) (other.revoke id time) := by
  rw [APIKey.revoke, APIKey.revoke, h.id]
  split_ifs
  · exact ⟨rfl, h.keyHash, h.scope, h.createdAt, rfl⟩
  · exact h

theorem revoke_like (h : List.Forall₂ ρ.Row t.rows u.rows) (id : String) (time : DateTime) :
    List.Forall₂ ρ.Row (t.step (.revoke id time)).rows (u.step (.revoke id time)).rows :=
  List.forall₂_map_left_iff.mpr <| List.forall₂_map_right_iff.mpr <|
    h.imp fun _ _ hrow => hrow.revoke id time

end Table

end Renaming

/-! ### Whole runs -/

/-- What there is to see of a step: the answer, when there is one, what is logged of the request,
and the tables after it. -/
structure Seen where
  response : Option Response
  log : List LogRecord
  db : Database

/-- The steps of a deployment, with what there is to see. The command that creates a key is not in
it: it prints the key. -/
inductive Observed (site : Site) :
    Access.Deployment → Access.Event → Seen → Access.Deployment → Prop
  | key {d op} : Observed site d (.key op) ⟨none, [], d.app.db⟩ { d with keys := d.keys.step op }
  | request {d x} (scan : d.keys.Scan) :
      Observed site d (.request x)
        ⟨(serve site scan d.app x).response, (serve site scan d.app x).log,
          (serve site scan d.app x).app.db⟩
        { d with app := (serve site scan d.app x).app }
  | completion {d host faults taskId command runId} :
      Observed site d (.completion host faults taskId command runId)
        ⟨none, [], (executeAndPersist host faults taskId command runId d.app.db).2⟩
        { d with
          app :=
            { d.app with
              db := (executeAndPersist host faults taskId command runId d.app.db).2 } }

section Runs

variable {site : Site} (ρ : Renaming site.sha256)

/-- **One step**: with other texts the deployment can do the same and show the same. -/
theorem follows : Follows (Observed site) (Observed site) ρ.Deployment ρ.Event := by
  intro d e a b o d' hd hab hstep
  cases hab with
  | create hrow =>
      cases hstep
      rw [hd.app.db]
      exact ⟨_, .key, hd.app, Renaming.create_like hd.keys hrow⟩
  | revoke =>
      cases hstep
      rw [hd.app.db]
      exact ⟨_, .key, hd.app, Renaming.revoke_like hd.keys _ _⟩
  | @request x y hx =>
      cases hstep with
      | request scan =>
          obtain ⟨other, hscan⟩ := Renaming.exists_scan hd.keys scan
          obtain ⟨hresponse, hlog, happ⟩ := hx.serve hscan hd.app
          rw [hresponse, hlog, happ.db]
          exact ⟨_, .request other, happ, hd.keys⟩
  | completion =>
      cases hstep
      rw [hd.app.db]
      exact ⟨_, .completion, ⟨hd.app.limiter, rfl⟩, hd.keys⟩

/-- **Keys are opaque.** Give the keys other texts, in the requests and in the hashes of the rows:
over whole runs that serve one exchange after another, whatever the storage answers and whatever
goes wrong, the deployment can show exactly what it could show before, in its answers, its log of
requests and its tables. -/
theorem key_texts_unseen {d e : Access.Deployment} (hd : ρ.Deployment d e)
    {as bs : List Access.Event} (hevents : List.Forall₂ ρ.Event as bs) (seen : List Seen) :
    Shows (Observed site) d as seen ↔ Shows (Observed site) e bs seen := by
  refine shows_iff (follows ρ) ?_ hd hevents
  intro e d b a o e' he hba hstep
  obtain ⟨d', hstep', hd'⟩ := follows ρ.symm he.symm hba.symm hstep
  exact ⟨d', hstep', hd'.symm⟩

end Runs

/-- A key by another text. -/
def hidden : Renaming plainSite.sha256 where
  key k l := k = ['s', 'e', 'c', 'r', 'e', 't'] ∧ l = ['h', 'i', 'd', 'd', 'e', 'n']
  hash g h := g = "secret" ∧ h = "hidden"
  same h h' := iff_of_true (h.1.trans h'.1.symm) (h.2.trans h'.2.symm)
  empty h := by simp [h.1, h.2]
  legacy h := by
    rw [h.1, h.2]
    decide
  hashed h h' := by
    rw [h.1, h.2, h'.1, h'.2]
    decide

/-- A deployment with one key, of an admin. -/
def administered (hash : String) : Access.Deployment where
  app := App.new TaskService.oneResult
  keys :=
    { rows :=
        [{ id := "k"
           keyHash := hash
           scope := "admin"
           createdAt := TaskService.newYear
           revokedAt := none }]
      ids_nodup := List.nodup_singleton _ }

/-- The admin's request to delete the only task. -/
def deletion (key : List Char) : Exchange :=
  .plain "DELETE" ['/', 'v', '1', '/', 't', 'a', 's', 'k', 's', '/', 't'] key (.read .absent)

/-- The task is deleted with either key. -/
theorem key_texts_unseen_hidden : ∃ seen,
    seen.map (fun o => (o.response.map Response.status, o.db.tasks)) = [(some 200, [])] ∧
      Shows (Observed plainSite) (administered "secret")
        [.request (deletion ['s', 'e', 'c', 'r', 'e', 't'])] seen ∧
      Shows (Observed plainSite) (administered "hidden")
        [.request (deletion ['h', 'i', 'd', 'd', 'e', 'n'])] seen := by
  have hdeployment : hidden.Deployment (administered "secret") (administered "hidden") :=
    ⟨⟨⟨rfl, rfl, fun _ => rfl⟩, rfl⟩, .cons ⟨rfl, ⟨rfl, rfl⟩, rfl, rfl, rfl⟩ .nil⟩
  have hkey : Option.Rel hidden.key (some ['s', 'e', 'c', 'r', 'e', 't'])
    (some ['h', 'i', 'd', 'd', 'e', 'n']) := .some ⟨rfl, rfl⟩
  have hexchange : hidden.Exchange (deletion ['s', 'e', 'c', 'r', 'e', 't'])
      (deletion ['h', 'i', 'd', 'd', 'e', 'n']) :=
    ⟨⟨rfl, rfl, rfl, rfl, by decide, hkey⟩, rfl, rfl, rfl, rfl, rfl, rfl, rfl⟩
  have hshows : Shows (Observed plainSite) (administered "secret")
      [.request (deletion ['s', 'e', 'c', 'r', 'e', 't'])] [_] :=
    ⟨_, .cons (.request (.scanned _ (List.Perm.refl _))) .nil⟩
  exact ⟨_, by decide +kernel, hshows,
    (key_texts_unseen hidden hdeployment (.cons (.request hexchange) .nil) _).mp hshows⟩

end Taskq.KeyTexts
