import Taskq.Api.Counted
import Taskq.Api.Workers

/-!
# Taskq.Api.Quota

How much its clients can make the service store.

A request that the limiter refuses stores nothing, and one that it lets through adds at most one
row, if it goes to one of the two handlers that do; whether its answer says so, with 201 for a task
and 202 for a run, does not matter. So a client makes the service store no more than its bucket
allows, and the tables grow by no more than one allowance a bucket (`storage_bounded`).

The limiter passes over the probes, and tells them by the path of the URL; the router goes by the
path of the request.
-/

namespace Taskq.ReadBack

open Http Access Machine RateLimit TaskList Transaction Transition

/-- The rows of both tables. -/
def rows (db : Database) : ℕ := db.tasks.length + db.results.length

/-- The answer says that a row was added. -/
def accepted (response : Option Response) : Bool :=
  response.any fun r => r.status = 201 ∨ r.status = 202

/-- The requests to a handler that adds a row. -/
def Adds (op : Operation) : Prop := op = .createTask ∨ ∃ taskId, op = .triggerRun taskId

/-- The request goes to such a handler. -/
def adding (a : Arrival) : Bool :=
  match route a.request with
  | .ok .createTask => true
  | .ok (.triggerRun _) => true
  | _ => false

theorem adding_iff {a : Arrival} : adding a = true ↔ ∃ op, route a.request = .ok op ∧ Adds op := by
  unfold adding
  split
  next hroute => simp [hroute, Adds]
  next taskId hroute => simp [hroute, Adds]
  next hcreate htrigger =>
      refine iff_of_false nofun ?_
      rintro ⟨op, hroute, rfl | ⟨taskId, rfl⟩⟩
      · exact hcreate hroute
      · exact htrigger taskId hroute

/-- What the limiter passes over as a probe is routed as one. -/
def ProbesAlike (request : Request) : Prop :=
  isExempt request.urlPath = true → isExempt request.path = true

def arrivals (h : List Answered) : List Arrival := h.map fun a => a.exchange.arrival

/-- How many requests that a bucket was charged for were accepted. -/
def acceptedOf (key : List Char) (h : List Answered) : ℕ :=
  h.countP fun a => metered key a.exchange.arrival && accepted a.response

/-! ### What a bucket lets through -/

/-- Where everything counted is in a class, the classes add up to no less. -/
theorem countP_le_sum {α κ : Type*} {p : α → Bool} {f : κ → α → Bool} {keys : List κ} {l : List α}
    (h : ∀ a ∈ l, p a = true → ∃ k ∈ keys, f k a = true) :
    l.countP p ≤ (keys.map fun k => l.countP (f k)).sum := by
  induction l with
  | nil => exact Nat.zero_le _
  | cons a l ih =>
      have hrest := ih fun b hb => h b (List.mem_cons_of_mem _ hb)
      simp only [List.countP_cons, List.sum_map_add]
      refine Nat.add_le_add hrest ?_
      cases hp : p a with
      | false => exact Nat.zero_le _
      | true =>
          obtain ⟨k, hk, hf⟩ := h a List.mem_cons_self hp
          exact List.le_sum_of_mem (List.mem_map.mpr ⟨k, hk, by simp [hf]⟩)

theorem countP_passed (s : Limiter) (as : List Arrival) (key : List Char) :
    ((transcript dispatch s as).countP fun q => metered key q.1 && q.2.isPassed) =
      (answers dispatch s (as.filter (metered key))).countP Verdict.isPassed := by
  have hsame : SameBucket key s s := ⟨rfl, rfl⟩
  rw [← transcript_map_snd, List.countP_map, ← (projection key).transcript_filter hsame,
    List.countP_filter]
  exact List.countP_congr fun q _ => by simp [and_comm]

/-- From a fresh limiter a bucket lets through one allowance. -/
theorem passed_le {config : RateLimitConfig} (hburst : 0 ≤ config.burst)
    (hrate : 0 ≤ config.perSec) {as : List Arrival} (hordered : Ordered as) (key : List Char)
    {t₀ t₁ : ℚ} (hspan : t₀ ≤ t₁) (hbetween : ∀ a ∈ as, t₀ ≤ a.consumed ∧ a.consumed ≤ t₁) :
    (((transcript dispatch (Limiter.new config) as).countP
        fun q => metered key q.1 && q.2.isPassed : ℕ) : ℚ)
      ≤ config.burst + config.perSec * (t₁ - t₀) := by
  have hmine : ∀ a ∈ as.filter (metered key), metered key a = true := fun a ha =>
    (List.mem_filter.mp ha).2
  have hordered' : Ordered (as.filter (metered key)) := hordered.sublist List.filter_sublist
  have hgreedy := congrArg (List.countP id) (passed_eq_run_new hburst hrate hmine hordered')
  rw [List.countP_map, List.countP_map] at hgreedy
  have hburst' : (0 : ℚ) ≤ config.burst := by exact_mod_cast hburst
  rw [countP_passed]
  cases hfirst : (as.filter (metered key)).head? with
  | none =>
      rw [List.head?_eq_none_iff.mp hfirst]
      simpa [answers] using add_nonneg hburst' (mul_nonneg hrate (sub_nonneg.mpr hspan))
  | some first =>
      obtain ⟨last, hlast⟩ : ∃ last, (as.filter (metered key)).getLast? = some last := by
        rw [← Option.isSome_iff_exists, List.getLast?_isSome]
        rintro hnil
        rw [hnil] at hfirst
        cases hfirst
      have hhead : ((as.filter (metered key)).map Arrival.consumed).head? =
          some first.consumed := by
        rw [List.head?_map, hfirst, Option.map_some]
      have hback : ((as.filter (metered key)).map Arrival.consumed).getLast? =
          some last.consumed := by
        rw [List.getLast?_map, hlast, Option.map_some]
      have hcount := Greedy.countP_run_le hburst' hrate hordered'.consumed hhead hback
      have hlow := (hbetween first (List.mem_of_mem_filter (List.mem_of_mem_head? hfirst))).1
      have hhigh := (hbetween last (List.mem_of_mem_filter (List.mem_of_mem_getLast? hlast))).2
      have hshort : config.perSec * (last.consumed - first.consumed) ≤
          config.perSec * (t₁ - t₀) := mul_le_mul_of_nonneg_left (sub_le_sub hhigh hlow) hrate
      calc (((answers dispatch (Limiter.new config) (as.filter (metered key))).countP
              Verdict.isPassed : ℕ) : ℚ)
          = ((Greedy.run (config.burst : ℚ) config.perSec []
              ((as.filter (metered key)).map Arrival.consumed)).countP fun d => d.2 : ℕ) :=
            congrArg _ hgreedy
        _ ≤ config.burst + config.perSec * (last.consumed - first.consumed) := hcount
        _ ≤ config.burst + config.perSec * (t₁ - t₀) := by linarith

/-! ### One request -/

section Exchange

variable {site : Site} {t : APIKeyTable} {scan : t.Scan} {app : App} {x : Exchange}

theorem rows_removeTask_le (db : Database) (taskId : String) :
    rows (db.removeTask taskId) ≤ rows db :=
  Nat.add_le_add_right (List.length_filter_le _ _) _

theorem rows_deleted_le (db : Database) (taskId : String) :
    rows (TaskService.deleted db taskId) ≤ rows db :=
  Nat.add_le_add (List.length_filter_le _ _) (List.length_filter_le _ _)

/-- One row at most, and only two handlers add one. -/
theorem touches_rows {db db' : Database} {op : Operation} (h : Touches db op db') :
    rows db' ≤ rows db ∨ Adds op ∧ rows db' = rows db + 1 := by
  cases h with
  | nothing => exact Or.inl le_rfl
  | create htasks hresults =>
      refine Or.inr ⟨Or.inl rfl, ?_⟩
      rw [rows, rows, htasks, hresults, List.length_cons]
      omega
  | @trigger taskId _ _ htasks hresults =>
      refine Or.inr ⟨Or.inr ⟨taskId, rfl⟩, ?_⟩
      rw [rows, rows, htasks, hresults, List.length_cons]
      omega
  | deleteRow => exact Or.inl (rows_removeTask_le db _)
  | delete => exact Or.inl (rows_deleted_le db _)

/-- **One request** adds a row only where it is let through to a handler that does. -/
theorem serve_rows (site : Site) (scan : t.Scan) (app : App) (x : Exchange) :
    rows (serve site scan app x).app.db ≤
      rows app.db + (adding x.arrival && (dispatch app.limiter x.arrival).1.isPassed).toNat := by
  cases hverdict : (dispatch app.limiter x.arrival).1 with
  | rejected retryAfter =>
      have hserve : _ ∧ (serve site scan app x).app = app.metered x := serve_rejected hverdict
      rw [hserve.2]
      exact Nat.le_add_right _ _
  | passed =>
      have hcomes := serve_comes site scan app x
      generalize (serve site scan app x).response = response at hcomes
      generalize (serve site scan app x).app.db = db' at hcomes
      cases hcomes with
      | stopped => exact Nat.le_add_right _ _
      | @handled op decoded out db' hroute hhandle =>
          have htouches : Touches app.db op _ := handle_touches site x.draw decoded x.query
            (app.metered x).limiter.rejections op
          rw [hhandle] at htouches
          rcases touches_rows htouches with hle | ⟨hadds, hrows⟩
          · exact hle.trans (Nat.le_add_right _ _)
          · rw [adding_iff.mpr ⟨op, hroute, hadds⟩, hrows]
            exact le_rfl

/-- What the limiter refuses is not accepted. -/
theorem passed_of_accepted (h : accepted (serve site scan app x).response = true) :
    (dispatch app.limiter x.arrival).1.isPassed = true := by
  cases hverdict : (dispatch app.limiter x.arrival).1 with
  | passed => rfl
  | rejected retryAfter =>
      have hserve : (serve site scan app x).response = _ ∧ _ := serve_rejected hverdict
      rw [hserve.1] at h
      cases h

theorem not_adds_of_resource {resource : Resource} {method : String} {op : Operation}
    (h : operation? resource method = some op)
    (hresource : resource ∈ Resource.metrics :: openResources) : ¬ Adds op := by
  have hother : ∀ r ∈ Resource.metrics :: openResources, operation? r method ≠ some .createTask ∧
      ∀ taskId, operation? r method ≠ some (.triggerRun taskId) := by
    simp [openResources, operation?]
  rintro (rfl | ⟨taskId, rfl⟩)
  · exact (hother resource hresource).1 h
  · exact (hother resource hresource).2 taskId h

/-- A path that starts like a probe leads to neither of them. -/
theorem not_adds_of_prefix {start : List Char} {request : Request} {op : Operation}
    (hstart : start <+: request.path) (hapart : ¬ (start <+: tasksPath ∨ tasksPath <+: start))
    (hroute : route request = .ok op) : ¬ Adds op := by
  unfold route at hroute
  split at hroute
  next => cases hroute
  next resource hresource =>
      split at hroute
      next => cases hroute
      next op' hop =>
          cases hroute
          refine not_adds_of_resource hop ?_
          unfold resource? at hresource
          split_ifs at hresource with hopenapi hpage htasks hhealthz hreadyz hmetrics hbelow
          · cases hresource
            decide
          · cases hresource
            decide
          · exact absurd (prefix_of_chomp hstart htasks) hapart
          · cases hresource
            decide
          · cases hresource
            decide
          · cases hresource
            decide
          · exact absurd (List.prefix_or_prefix_of_prefix hstart
              ((List.prefix_append _ _).trans hbelow)) hapart

/-- A probe's path leads to neither of them. -/
theorem not_exempt_of_adds {request : Request} {op : Operation} (hroute : route request = .ok op)
    (hadds : Adds op) : isExempt request.path = false := by
  by_contra hexempt
  have hprobe : RateLimit.healthz <+: request.path ∨ RateLimit.readyz <+: request.path := by
    simp only [isExempt, Bool.not_eq_false, Bool.or_eq_true, decide_eq_true_eq,
      List.isPrefixOf_iff_prefix] at hexempt
    rcases hexempt with ((h | h) | h) | h
    · exact Or.inl (h ▸ List.prefix_rfl)
    · exact Or.inr (h ▸ List.prefix_rfl)
    · exact Or.inl ((List.prefix_append _ _).trans h)
    · exact Or.inr ((List.prefix_append _ _).trans h)
  rcases hprobe with h | h
  · exact not_adds_of_prefix h (by decide) hroute hadds
  · exact not_adds_of_prefix h (by decide) hroute hadds

/-- The limiter after a request. -/
theorem serve_limiter (site : Site) (scan : t.Scan) (app : App) (x : Exchange) :
    (serve site scan app x).app.limiter = (dispatch app.limiter x.arrival).2 := by
  cases hverdict : (dispatch app.limiter x.arrival).1 with
  | rejected retryAfter =>
      have hserve : _ ∧ (serve site scan app x).app = app.metered x := serve_rejected hverdict
      rw [hserve.2]
      rfl
  | passed =>
      have hserve : _ ∧ (serve site scan app x).app = _ := serve_passed hverdict
      rw [hserve.2]
      cases hroute : route x.arrival.request with
      | error e =>
          rw [routes_unrouted hroute]
          rfl
      | ok op =>
          rw [routes_routed hroute]
          rfl

end Exchange

/-- A run that comes back updates its row. -/
theorem rows_executeAndPersist (host : Host) (faults : Faults StorageError)
    (taskId command runId : String) (db : Database) :
    rows (executeAndPersist host faults taskId command runId db).2 = rows db := by
  obtain ⟨htasks, hkeys⟩ := executeAndPersist_frame host faults taskId command runId db
  have hlength := congrArg List.length hkeys
  rw [List.length_map, List.length_map] at hlength
  rw [rows, rows, htasks, hlength]

/-! ### Whole runs -/

section Runs

variable {site : Site} {d₀ : Deployment} {w w' : Watched} {a : Access.Event}

/-- A run, against the limiter by itself and the tables it started with. -/
structure Metered (d₀ : Deployment) (w : Watched) : Prop where
  limiter : w.deployment.app.limiter = final dispatch d₀.app.limiter (arrivals w.history)
  passed : ∀ key, acceptedOf key w.history ≤
    (transcript dispatch d₀.app.limiter (arrivals w.history)).countP fun q =>
      metered key q.1 && q.2.isPassed
  rows : ReadBack.rows w.deployment.app.db ≤ ReadBack.rows d₀.app.db +
    (transcript dispatch d₀.app.limiter (arrivals w.history)).countP fun q =>
      adding q.1 && q.2.isPassed

theorem Metered.step (h : Metered d₀ w) (hstep : Watch site w a w') : Metered d₀ w' := by
  cases hstep with
  | key => exact ⟨h.limiter, h.passed, h.rows⟩
  | @completion d history host faults taskId command runId =>
      have hsame := rows_executeAndPersist host faults taskId command runId d.app.db
      exact ⟨h.limiter, h.passed, hsame.le.trans h.rows⟩
  | @request d history x scan =>
      have hlimiter : d.app.limiter = final dispatch d₀.app.limiter (arrivals history) := h.limiter
      have harrivals : arrivals (history ++ [⟨x, (serve site scan d.app x).response⟩]) =
          arrivals history ++ [x.arrival] := List.map_append
      constructor
      case limiter =>
        rw [harrivals, final_concat, ← hlimiter]
        exact serve_limiter site scan d.app x
      case passed =>
        intro key
        have hold : acceptedOf key history ≤ _ := h.passed key
        rw [harrivals, transcript_concat, List.countP_append, ← hlimiter, acceptedOf,
          List.countP_append]
        refine Nat.add_le_add hold ?_
        rw [List.countP_singleton, List.countP_singleton]
        cases haccepted : accepted (serve site scan d.app x).response with
        | false => simp
        | true => rw [passed_of_accepted haccepted]
      case rows =>
        have hold : ReadBack.rows d.app.db ≤ _ := h.rows
        have hone := serve_rows site scan d.app x
        rw [harrivals, transcript_concat, List.countP_append, ← hlimiter, List.countP_singleton,
          ← add_assoc]
        refine hone.trans (Nat.add_le_add hold ?_)
        cases adding x.arrival && (dispatch d.app.limiter x.arrival).1.isPassed <;> exact le_rfl

theorem metered_watched (h : (watched site d₀).Reachable w) : Metered d₀ w := by
  refine h.invariant (I := Metered d₀) ?_ fun _ _ _ _ hw hstep => hw.step hstep
  intro w hw
  obtain rfl : w = _ := hw
  exact ⟨rfl, fun _ => le_rfl, le_rfl⟩

/-- **What is stored is bounded by the rate limit.** In every run of a deployment that serves its
exchanges one after another from a fresh limiter, on a clock that does not go back and whatever goes
wrong: of the requests that a bucket was charged for between two times, no more are accepted than
the capacity and what accrues between them; and the tables grow by no more rows than that for each
of the buckets, also where a creation has committed its row and is answered with 500. -/
theorem storage_bounded {config : RateLimitConfig} (hburst : 0 ≤ config.burst)
    (hrate : 0 ≤ config.perSec) (hfresh : d₀.app.limiter = Limiter.new config)
    (h : (watched site d₀).Reachable w) (hordered : Ordered (arrivals w.history)) {t₀ t₁ : ℚ}
    (hspan : t₀ ≤ t₁) (hbetween : ∀ a ∈ arrivals w.history, t₀ ≤ a.consumed ∧ a.consumed ≤ t₁)
    (hprobes : ∀ a ∈ arrivals w.history, ProbesAlike a.request) {keys : List (List Char)}
    (hkeys : ∀ a ∈ arrivals w.history, bucketKey a.request ∈ keys) :
    (∀ key, (acceptedOf key w.history : ℚ) ≤ config.burst + config.perSec * (t₁ - t₀)) ∧
      (rows w.deployment.app.db : ℚ) ≤
        rows d₀.app.db + keys.length * (config.burst + config.perSec * (t₁ - t₀)) := by
  have hmetered := metered_watched h
  have hpassed : ∀ key, (((transcript dispatch d₀.app.limiter (arrivals w.history)).countP
      fun q => metered key q.1 && q.2.isPassed : ℕ) : ℚ) ≤
        config.burst + config.perSec * (t₁ - t₀) := by
    intro key
    rw [hfresh]
    exact passed_le hburst hrate hordered key hspan hbetween
  refine ⟨fun key => le_trans (by exact_mod_cast hmetered.passed key) (hpassed key), ?_⟩
  -- every request that added a row was charged to a bucket
  have hclass : ∀ q ∈ transcript dispatch d₀.app.limiter (arrivals w.history),
      (adding q.1 && q.2.isPassed) = true →
        ∃ key ∈ keys, (metered key q.1 && q.2.isPassed) = true := by
    intro q hq hadds
    rw [Bool.and_eq_true] at hadds
    have harrival : q.1 ∈ arrivals w.history := mem_of_mem_transcript hq
    obtain ⟨op, hroute, hop⟩ := adding_iff.mp hadds.1
    refine ⟨_, hkeys _ harrival, ?_⟩
    rw [Bool.and_eq_true, metered_iff]
    refine ⟨⟨?_, rfl⟩, hadds.2⟩
    by_contra hexempt
    have hpath := hprobes _ harrival (by simpa using hexempt)
    rw [not_exempt_of_adds hroute hop] at hpath
    cases hpath
  have hcount := hmetered.rows.trans (Nat.add_le_add_left (countP_le_sum hclass) _)
  have hsum := List.sum_le_card_nsmul
    (keys.map fun key => (((transcript dispatch d₀.app.limiter (arrivals w.history)).countP
      fun q => metered key q.1 && q.2.isPassed : ℕ) : ℚ)) _
    (by simpa using fun key _ => hpassed key)
  rw [List.length_map, nsmul_eq_mul] at hsum
  have hrows : (rows w.deployment.app.db : ℚ) ≤ rows d₀.app.db +
      (keys.map fun key => (((transcript dispatch d₀.app.limiter (arrivals w.history)).countP
        fun q => metered key q.1 && q.2.isPassed : ℕ) : ℚ)).sum := by
    have hcast : (rows w.deployment.app.db : ℚ) ≤ ((_ : ℕ) : ℚ) := Nat.cast_le.mpr hcount
    rw [Nat.cast_add, ← Nat.coe_castRingHom, map_list_sum, List.map_map] at hcast
    exact hcast
  linarith

/-- A key with one request to spend posts a task and reads it. -/
theorem storage_bounded_strict :
    ∃ w, (watched plainSite strict).Reachable w ∧ statuses w.history = [some 201, some 429] ∧
      (∀ key, (acceptedOf key w.history : ℚ) ≤ ((1 : ℤ) : ℚ) + 0 * (0 - 0)) ∧
      (rows w.deployment.app.db : ℚ) ≤ rows strict.app.db +
        [bucketKey writerReads.arrival.request].length * (((1 : ℤ) : ℚ) + 0 * (0 - 0)) := by
  obtain ⟨w, hsteps, hstatuses⟩ : ∃ w, (∃ w₁, Watch plainSite ⟨strict, []⟩
      (.request (writerPosts postedBody)) w₁ ∧ Watch plainSite w₁ (.request writerReads) w) ∧
      statuses w.history = [some 201, some 429] :=
    ⟨_, ⟨_, .request noKeys, .request noKeys⟩, by decide +kernel⟩
  obtain ⟨w₁, hfirst, hsecond⟩ := hsteps
  have hreach : (watched plainSite strict).Reachable w := .step (.step (.init rfl) hfirst) hsecond
  have harrivals : arrivals w.history =
      [(writerPosts postedBody).arrival, writerReads.arrival] := by
    cases hfirst
    cases hsecond
    rfl
  refine ⟨w, hreach, hstatuses, storage_bounded (by decide) le_rfl rfl hreach ?_ le_rfl ?_ ?_ ?_⟩
  · rw [harrivals]
    simp [Ordered, Arrival.readings, writerPosts, writerReads, Exchange.plain, Arrival.at]
  · rw [harrivals]
    simp [writerPosts, writerReads, Exchange.plain, Arrival.at]
  · rw [harrivals]
    exact List.forall_mem_cons.mpr ⟨id, List.forall_mem_singleton.mpr id⟩
  · rw [harrivals]
    decide +kernel

end Runs

end Taskq.ReadBack
