import Mathlib.Data.List.Flatten
import Taskq.Api.RetryAfter

/-!
# Taskq.Api.Workers

The rate limit across workers.

Every worker process builds an app of its own, and `dispatch` looks for the bucket in
that app's state; the shared rows of `RateBucketRepository` are never asked. So each
worker has a whole allowance to give. `holds_across_iff` says for which routings of one
principal's requests that makes no difference.
-/

namespace Taskq.RateLimit

open Http Machine TokenBucket

/-! ### One limiter, one principal -/

def Verdict.isPassed : Verdict → Bool
  | .passed => true
  | .rejected _ => false

/-- The readings of the clock, in the order in which they are made. -/
def Arrival.readings (a : Arrival) : List ℚ := [a.created, a.consumed, a.waited]

/-- The clock never goes back. -/
def Ordered (as : List Arrival) : Prop := (as.flatMap Arrival.readings).Pairwise (· ≤ ·)

variable {config : RateLimitConfig} {key : List Char} {a : Arrival} {as : List Arrival}

theorem Ordered.cons (h : Ordered (a :: as)) :
    (a.created ≤ a.consumed ∧ a.consumed ≤ a.waited) ∧
      (∀ a' ∈ as, a.waited ≤ a'.created ∧ a.waited ≤ a'.consumed) ∧ Ordered as := by
  rw [Ordered, List.flatMap_cons, List.pairwise_append] at h
  obtain ⟨hhead, htail, hcross⟩ := h
  refine ⟨?_, ?_, htail⟩
  · simp only [Arrival.readings, List.pairwise_cons, List.mem_cons] at hhead
    exact ⟨hhead.1 _ (Or.inl rfl), hhead.2.1 _ (Or.inl rfl)⟩
  · intro a' ha'
    have hlater : ∀ t ∈ a'.readings, a.waited ≤ t := fun t ht =>
      hcross a.waited (by simp [Arrival.readings]) t (List.mem_flatMap.mpr ⟨a', ha', ht⟩)
    exact ⟨hlater _ (by simp [Arrival.readings]), hlater _ (by simp [Arrival.readings])⟩

theorem Ordered.sublist {as' : List Arrival} (h : Ordered as) (hsub : as'.Sublist as) :
    Ordered as' :=
  List.Pairwise.sublist (hsub.flatMap _) h

theorem Ordered.consumed (h : Ordered as) : (as.map Arrival.consumed).Pairwise (· ≤ ·) := by
  rw [Ordered, List.pairwise_flatMap] at h
  rw [List.pairwise_map]
  refine h.2.imp fun {a b} hab => hab _ ?_ _ ?_
  · simp [Arrival.readings]
  · simp [Arrival.readings]

/-- A request enters the history of its bucket with its verdict. -/
theorem meter_mirrors {b : TokenBucket} {past : List (ℚ × ℚ)} {t : ℚ}
    (h : Mirrors config b past t) (ht : t ≤ a.consumed) (hwait : a.consumed ≤ a.waited) :
    (meter b a).1.isPassed
        = decide (1 ≤ Greedy.level (config.burst : ℚ) config.perSec past a.consumed) ∧
      ∃ t' ≤ a.waited, Mirrors config (meter b a).2
        (Greedy.taking (a.consumed, (meter b a).1.isPassed) :: past) t' := by
  obtain ⟨hdecided, hafter⟩ := h.consume ht
  rcases meter_cases b a with ⟨hgrant, hmeter⟩ | ⟨hgrant, hmeter⟩
  · rw [hmeter, ← hdecided, hgrant]
    refine ⟨rfl, a.consumed, hwait, ?_⟩
    rw [hgrant] at hafter
    exact hafter
  · rw [hmeter, ← hdecided, hgrant]
    refine ⟨rfl, a.waited, le_rfl, ?_⟩
    rw [hgrant] at hafter
    rw [secondsUntilNextToken_snd]
    exact hafter.refillLocked hwait

theorem dispatch_mirrors {s : Limiter} {past : List (ℚ × ℚ)} {t : ℚ}
    (hmetered : metered key a = true) (h : Mirrors config (s.bucket key a.created) past t)
    (ht : t ≤ a.consumed) (hwait : a.consumed ≤ a.waited) :
    (dispatch s a).1.isPassed
        = decide (1 ≤ Greedy.level (config.burst : ℚ) config.perSec past a.consumed) ∧
      ∃ b t', (dispatch s a).2.buckets key = some b ∧ t' ≤ a.waited ∧
        Mirrors config b (Greedy.taking (a.consumed, (dispatch s a).1.isPassed) :: past) t' := by
  obtain ⟨hexempt, hkey⟩ := metered_iff.mp hmetered
  obtain ⟨hverdict, -, hbuckets, -⟩ := dispatch_metered (s := s) hexempt
  obtain ⟨hdecided, t', ht', hafter⟩ := meter_mirrors h ht hwait
  rw [hkey] at hverdict hbuckets
  rw [hverdict]
  refine ⟨hdecided, _, t', ?_, ht', hafter⟩
  rw [hbuckets, Function.update_self]

/-- From a bucket that mirrors a history, the verdicts are the greedy policy's. -/
theorem passed_eq_run {s : Limiter} {b : TokenBucket} {past : List (ℚ × ℚ)} {t : ℚ}
    (hall : ∀ a ∈ as, metered key a = true) (hb : s.buckets key = some b)
    (h : Mirrors config b past t) (hordered : Ordered as) (hlater : ∀ a ∈ as, t ≤ a.consumed) :
    (answers dispatch s as).map Verdict.isPassed
      = (Greedy.run (config.burst : ℚ) config.perSec past (as.map Arrival.consumed)).map
          Prod.snd := by
  induction as generalizing s b past t with
  | nil => rfl
  | cons a as ih =>
      obtain ⟨⟨-, hwait⟩, hnext, hrest⟩ := hordered.cons
      have hbucket : s.bucket key a.created = b := by rw [Limiter.bucket, hb, Option.getD_some]
      obtain ⟨hdecided, b', t', hb', ht', hafter⟩ :=
        dispatch_mirrors (hall a List.mem_cons_self) (hbucket ▸ h) (hlater a List.mem_cons_self)
          hwait
      have htail := ih (fun a' ha' => hall a' (List.mem_cons_of_mem _ ha')) hb' hafter hrest
        fun a' ha' => ht'.trans (hnext a' ha').2
      rw [answers, List.map_cons, List.map_cons, htail, Greedy.run_cons, List.map_cons, hdecided]

/-- **The verdicts of a fresh app on one principal's requests are the greedy policy's.** -/
theorem passed_eq_run_new (hburst : 0 ≤ config.burst) (hrate : 0 ≤ config.perSec)
    (hall : ∀ a ∈ as, metered key a = true) (hordered : Ordered as) :
    (answers dispatch (Limiter.new config) as).map Verdict.isPassed
      = (Greedy.run (config.burst : ℚ) config.perSec [] (as.map Arrival.consumed)).map
          Prod.snd := by
  cases as with
  | nil => rfl
  | cons a as =>
      obtain ⟨⟨hcreated, hwait⟩, hnext, hrest⟩ := hordered.cons
      have hfresh : Mirrors config ((Limiter.new config).bucket key a.created) [] a.created :=
        mirrors_fresh hburst hrate
      obtain ⟨hdecided, b', t', hb', ht', hafter⟩ :=
        dispatch_mirrors (hall a List.mem_cons_self) hfresh hcreated hwait
      have htail := passed_eq_run (fun a' ha' => hall a' (List.mem_cons_of_mem _ ha')) hb' hafter
        hrest fun a' ha' => ht'.trans (hnext a' ha').2
      rw [answers, List.map_cons, List.map_cons, htail, Greedy.run_cons, List.map_cons, hdecided]

/-! ### Many workers -/

/-- The apps, one for each worker. -/
abbrev Fleet := ℕ → Limiter

def Fleet.new (config : RateLimitConfig) : Fleet := fun _ => Limiter.new config

/-- A request, and the worker it is routed to. -/
abbrev Routed := ℕ × Arrival

/-- The request is dispatched by its worker, in that worker's app. -/
def deliver : Step Fleet Routed Verdict := fun fleet q =>
  let out := dispatch (fleet q.1) q.2
  (out.1, Function.update fleet q.1 out.2)

/-- To a worker's requests, the fleet is that worker's app. -/
theorem worker_projection (w : ℕ) :
    Projection deliver (fun s q => dispatch s q.2) (fun fleet s => fleet w = s)
      (fun q => q.1 = w) where
  answer fleet s q h hmine := by
    obtain rfl : q.1 = w := by simpa using hmine
    rw [deliver, ← h]
  step fleet s q h hmine := by
    obtain rfl : q.1 = w := by simpa using hmine
    rw [deliver, ← h]
    exact Function.update_self _ _ _
  skip fleet s q h hother := by
    have hne : w ≠ q.1 := by
      rintro rfl
      simp at hother
    rw [deliver, ← h]
    exact Function.update_of_ne hne _ _

/-- How many requests the workers let through. -/
def passedThrough (config : RateLimitConfig) (qs : List Routed) : ℕ :=
  (answers deliver (Fleet.new config) qs).countP Verdict.isPassed

section Fleet

variable {qs : List Routed}

theorem passedThrough_eq : passedThrough config qs =
    (transcript deliver (Fleet.new config) qs).countP fun q => q.2.isPassed := by
  rw [passedThrough, ← transcript_map_snd, List.countP_map]
  rfl

theorem passedThrough_le_length : passedThrough config qs ≤ qs.length := by
  rw [passedThrough_eq]
  refine List.countP_le_length.trans (le_of_eq ?_)
  rw [← List.length_map Prod.fst, transcript_map_fst]

/-- The verdicts of one worker. -/
theorem worker_passed (hburst : 0 ≤ config.burst) (hrate : 0 ≤ config.perSec)
    (hall : ∀ q ∈ qs, metered key q.2 = true) (hordered : Ordered (qs.map Prod.snd)) (w : ℕ) :
    ((transcript deliver (Fleet.new config) qs).filter (fun q => q.1.1 = w)).map
        (fun q => q.2.isPassed)
      = (Greedy.run (config.burst : ℚ) config.perSec []
          ((qs.filter (fun q => q.1 = w)).map (fun q => q.2.consumed))).map Prod.snd := by
  have hseen : (transcript deliver (Fleet.new config) qs).filter (fun q => q.1.1 = w) = _ :=
    (worker_projection w).transcript_filter (show Fleet.new config w = Limiter.new config from rfl)
  have hmine : ∀ a ∈ (qs.filter (fun q => q.1 = w)).map Prod.snd, metered key a = true := by
    intro a ha
    obtain ⟨q, hq, rfl⟩ := List.mem_map.mp ha
    exact hall q (List.mem_of_mem_filter hq)
  have hrun := passed_eq_run_new hburst hrate hmine (hordered.sublist (List.filter_sublist.map _))
  rw [List.map_map, ← answers_comap, ← transcript_map_snd, List.map_map] at hrun
  rw [hseen]
  exact hrun

/-- Every verdict is a decision of the greedy policy on the requests to that worker. -/
theorem exists_decision (hburst : 0 ≤ config.burst) (hrate : 0 ≤ config.perSec)
    (hall : ∀ q ∈ qs, metered key q.2 = true) (hordered : Ordered (qs.map Prod.snd))
    {q : Routed × Verdict} (hq : q ∈ transcript deliver (Fleet.new config) qs) :
    ∃ d ∈ Greedy.run (config.burst : ℚ) config.perSec []
      ((qs.filter (fun q' => q'.1 = q.1.1)).map (fun q' => q'.2.consumed)),
      d.2 = q.2.isPassed := by
  have hverdict : q.2.isPassed ∈ ((transcript deliver (Fleet.new config) qs).filter
      (fun q' => q'.1.1 = q.1.1)).map (fun q' => q'.2.isPassed) :=
    List.mem_map.mpr ⟨q, List.mem_filter.mpr ⟨hq, by simp⟩, rfl⟩
  rw [worker_passed hburst hrate hall hordered] at hverdict
  exact List.mem_map.mp hverdict

/-- Without capacity nothing is let through. -/
theorem passedThrough_of_no_burst (hburst : config.burst = 0) (hrate : 0 ≤ config.perSec)
    (hall : ∀ q ∈ qs, metered key q.2 = true) (hordered : Ordered (qs.map Prod.snd)) :
    passedThrough config qs = 0 := by
  rw [passedThrough_eq, List.countP_eq_zero]
  intro q hq
  obtain ⟨d, hd, hverdict⟩ := exists_decision hburst.ge hrate hall hordered hq
  have hnone : (config.burst : ℚ) < 1 := by
    rw [hburst]
    exact_mod_cast one_pos
  rw [← hverdict, Greedy.run_of_burst_lt_one hnone d hd]
  exact Bool.false_ne_true

/-- One worker gives one allowance. -/
theorem passedThrough_le_of_one_worker (hburst : 0 ≤ config.burst) (hrate : 0 ≤ config.perSec)
    (hall : ∀ q ∈ qs, metered key q.2 = true) (hordered : Ordered (qs.map Prod.snd))
    {first last : Routed} (hone : ∀ q ∈ qs, q.1 = first.1) (hfirst : qs.head? = some first)
    (hlast : qs.getLast? = some last) :
    (passedThrough config qs : ℚ)
      ≤ config.burst + config.perSec * (last.2.consumed - first.2.consumed) := by
  have hqs : qs.filter (fun q => q.1 = first.1) = qs := by
    rw [List.filter_eq_self]
    intro q hq
    simpa using hone q hq
  have hseen : (transcript deliver (Fleet.new config) qs).filter (fun q => q.1.1 = first.1)
      = transcript deliver (Fleet.new config) qs := by
    rw [List.filter_eq_self]
    intro q hq
    simpa using hone q.1 (mem_of_mem_transcript hq)
  have hverdicts := worker_passed hburst hrate hall hordered first.1
  rw [hqs, hseen] at hverdicts
  have hcount : passedThrough config qs = (Greedy.run (config.burst : ℚ) config.perSec []
      (qs.map fun q => q.2.consumed)).countP fun d => d.2 := by
    have hmap := congrArg (List.countP id) hverdicts
    rw [List.countP_map, List.countP_map] at hmap
    rw [passedThrough_eq]
    exact hmap
  have htimes := hordered.consumed
  rw [List.map_map] at htimes
  rw [hcount]
  refine Greedy.countP_run_le (by exact_mod_cast hburst) hrate htimes ?_ ?_
  · rw [List.head?_map, hfirst]
    rfl
  · rw [List.getLast?_map, hlast]
    rfl

/-- A request by itself is let through only where there is capacity. -/
theorem passedThrough_singleton (hburst : 0 ≤ config.burst) (q : Routed)
    (hmetered : metered key q.2 = true) : (passedThrough config [q] : ℤ) ≤ config.burst := by
  obtain ⟨hexempt, hkey⟩ := metered_iff.mp hmetered
  have hverdict : (deliver (Fleet.new config) q).1
      = (meter (TokenBucket.fresh config q.2.created) q.2).1 := (dispatch_metered hexempt).1
  have htokens : ((TokenBucket.fresh config q.2.created).refillLocked q.2.consumed).tokens
      = config.burst := by
    simp only [refillLocked, TokenBucket.fresh_tokens hburst]
    exact computeRefill_full.1
  rw [passedThrough, answers, answers, List.countP_singleton, hverdict]
  rcases meter_cases (TokenBucket.fresh config q.2.created) q.2 with
    ⟨hgrant, hmeter⟩ | ⟨-, hmeter⟩
  · rw [consume_fst_iff, htokens] at hgrant
    rw [hmeter]
    exact_mod_cast hgrant
  · rw [hmeter]
    exact hburst

end Fleet

/-! ### One client at two moments -/

/-- The requests of one client along a routing: the first at second zero, the others at
second `d`. -/
def stamped (d : ℚ) : List ℕ → List Routed
  | [] => []
  | w :: ws => (w, Arrival.at (keyRequest ['k']) 0) ::
      ws.map fun w => (w, Arrival.at (keyRequest ['k']) d)

variable {d : ℚ} {ws : List ℕ}

theorem stamped_zero : stamped 0 ws = ws.map fun w => (w, Arrival.at (keyRequest ['k']) 0) := by
  cases ws <;> rfl

theorem stamped_map_fst : (stamped d ws).map Prod.fst = ws := by
  cases ws with
  | nil => rfl
  | cons w ws =>
      rw [stamped, List.map_cons, List.map_map]
      exact congrArg (w :: ·) (List.map_id ws)

theorem stamped_charged : ∀ q ∈ stamped d ws, charged (.key ['k']) q.2 = true := by
  have hcharged : ∀ now, charged (.key ['k']) (Arrival.at (keyRequest ['k']) now) = true :=
    fun now => rfl
  cases ws with
  | nil => simp [stamped]
  | cons w ws =>
      intro q hq
      rw [stamped, List.mem_cons, List.mem_map] at hq
      rcases hq with rfl | ⟨w', -, rfl⟩
      · exact hcharged 0
      · exact hcharged d

theorem ordered_stamped (hd : 0 ≤ d) : Ordered ((stamped d ws).map Prod.snd) := by
  cases ws with
  | nil => exact List.Pairwise.nil
  | cons w ws =>
      have hlater : ∀ t ∈ ((ws.map fun w => ((w, Arrival.at (keyRequest ['k']) d) : Routed)).map
          Prod.snd).flatMap Arrival.readings, t = d := by
        intro t ht
        simp only [List.map_map, List.mem_flatMap, List.mem_map, Function.comp_apply] at ht
        obtain ⟨a, ⟨w', -, rfl⟩, ht⟩ := ht
        simpa [Arrival.readings, Arrival.at] using ht
      rw [stamped, List.map_cons, Ordered, List.flatMap_cons, List.pairwise_append]
      refine ⟨?_, ?_, ?_⟩
      · simp [Arrival.readings, Arrival.at]
      · exact List.pairwise_of_forall_mem_list fun s hs t ht => by rw [hlater s hs, hlater t ht]
      · intro s hs t ht
        have hzero : s = 0 := by simpa [Arrival.readings, Arrival.at] using hs
        rw [hzero, hlater t ht]
        exact hd

theorem metered_of_charged {p : Principal} (h : charged p a = true) :
    metered p.bucketKey a = true := by
  simp only [charged, Bool.and_eq_true, Bool.not_eq_true', decide_eq_true_eq] at h
  exact metered_iff.mpr ⟨h.1, bucketKey_of_principal h.2⟩

theorem metered_stamped (d : ℚ) (ws : List ℕ) :
    ∀ q ∈ stamped d ws, metered (Principal.key ['k']).bucketKey q.2 = true :=
  fun q hq => metered_of_charged (stamped_charged q hq)

/-- Everything at once: each worker gets its requests at second zero. -/
theorem consumed_stamped (w : ℕ) :
    ((stamped 0 ws).filter (fun q => q.1 = w)).map (fun q => q.2.consumed)
      = List.replicate (ws.count w) 0 := by
  rw [stamped_zero, List.filter_map, List.map_map]
  have hzero : (fun q : Routed => q.2.consumed) ∘
      (fun w => ((w, Arrival.at (keyRequest ['k']) 0) : Routed)) = fun _ => 0 := rfl
  rw [hzero, List.map_const', ← List.countP_eq_length_filter]
  rfl

/-- What one worker lets through when everything comes at once. -/
theorem worker_stamped (hburst : 0 ≤ config.burst) (hrate : 0 ≤ config.perSec) (w : ℕ) :
    (transcript deliver (Fleet.new config) (stamped 0 ws)).countP
        (fun q => q.2.isPassed && decide (q.1.1 = w))
      = (Greedy.run (config.burst : ℚ) config.perSec [] (List.replicate (ws.count w) 0)).countP
          fun d => d.2 := by
  have hverdicts := worker_passed hburst hrate (metered_stamped 0 ws) (ordered_stamped le_rfl) w
  rw [consumed_stamped] at hverdicts
  have hcount := congrArg (List.countP id) hverdicts
  rw [List.countP_map, List.countP_map, List.countP_filter] at hcount
  exact hcount

/-- A new bucket covers every number of tokens up to its capacity. -/
theorem le_level_new {j : ℕ} (hj : (j : ℤ) ≤ config.burst) :
    (j : ℚ) ≤ Greedy.level (config.burst : ℚ) config.perSec [] 0 := by
  rw [Greedy.level]
  exact_mod_cast hj

/-- What two workers let through counts towards the whole. -/
theorem workers_le_passedThrough {v v' : ℕ} (hne : v' ≠ v) :
    (transcript deliver (Fleet.new config) qs).countP
        (fun q => q.2.isPassed && decide (q.1.1 = v)) +
      (transcript deliver (Fleet.new config) qs).countP
        (fun q => q.2.isPassed && decide (q.1.1 = v')) ≤ passedThrough config qs := by
  rw [passedThrough_eq]
  have htotal := List.countP_eq_countP_filter_add (transcript deliver (Fleet.new config) qs)
    (fun q => q.2.isPassed) (fun q => decide (q.1.1 = v))
  rw [List.countP_filter, List.countP_filter] at htotal
  rw [htotal]
  refine Nat.add_le_add_left (List.countP_mono_left fun q _ hq => ?_) _
  simp only [Bool.and_eq_true, decide_eq_true_eq] at hq
  simp [hq.1, hq.2, hne]

/-- When no worker gets more requests than the capacity, all are let through. -/
theorem passedThrough_stamped (hburst : 0 ≤ config.burst) (hrate : 0 ≤ config.perSec)
    (hfew : ∀ w ∈ ws, (ws.count w : ℤ) ≤ config.burst) :
    passedThrough config (stamped 0 ws) = ws.length := by
  have hall : ∀ q ∈ transcript deliver (Fleet.new config) (stamped 0 ws),
      q.2.isPassed = true := by
    intro q hq
    obtain ⟨d, hd, hverdict⟩ :=
      exists_decision hburst hrate (metered_stamped 0 ws) (ordered_stamped le_rfl) hq
    have hworker : q.1.1 ∈ ws := by
      have hmem := List.mem_map_of_mem (f := Prod.fst) (mem_of_mem_transcript hq)
      rwa [stamped_map_fst] at hmem
    rw [consumed_stamped] at hd
    rw [← hverdict]
    exact Greedy.run_replicate (le_level_new (hfew _ hworker)) d hd
  rw [passedThrough_eq, List.countP_eq_length.mpr hall, ← List.length_map Prod.fst,
    transcript_map_fst, ← List.length_map Prod.fst, stamped_map_fst]

/-- Two workers let through more than one allowance. -/
theorem burst_lt_passedThrough (hburst : 1 ≤ config.burst) (hrate : 0 ≤ config.perSec)
    (hlong : config.burst < ws.length) {w w' : ℕ} (hw : w ∈ ws) (hw' : w' ∈ ws) (hne : w ≠ w') :
    config.burst < passedThrough config (stamped 0 ws) := by
  have hburst₀ : 0 ≤ config.burst := by omega
  obtain ⟨n, hn⟩ := Int.eq_ofNat_of_zero_le hburst₀
  by_cases hmany : ∃ v ∈ ws, n ≤ ws.count v
  · -- one worker gives its whole allowance, and another one at least one token
    obtain ⟨v, hv, hcount⟩ := hmany
    obtain ⟨v', hv', hvv⟩ : ∃ v' ∈ ws, v' ≠ v := by
      by_cases h : w = v
      · exact ⟨w', hw', fun h' => hne (h.trans h'.symm)⟩
      · exact ⟨w, hw, h⟩
    have hwhole := Greedy.le_countP_replicate (le_level_new hn.ge) hcount
    have hsome := Greedy.le_countP_replicate (le_level_new (by omega))
      (List.count_pos_iff.mpr hv')
    rw [← worker_stamped hburst₀ hrate] at hwhole hsome
    have htotal := @workers_le_passedThrough config (stamped 0 ws) v v' hvv
    omega
  · push Not at hmany
    have hfew : ∀ v ∈ ws, (ws.count v : ℤ) ≤ config.burst := by
      intro v hv
      have hlt := hmany v hv
      omega
    rw [passedThrough_stamped hburst₀ hrate hfew]
    exact hlong

/-! ### Main results -/

/-- What is let through stays within one allowance over the span of the requests. -/
def Within (config : RateLimitConfig) (qs : List Routed) : Prop :=
  ∀ first last, qs.head? = some first → qs.getLast? = some last →
    (passedThrough config qs : ℚ)
      ≤ config.burst + config.perSec * (last.2.consumed - first.2.consumed)

/-- The limit holds for every principal and all times that do not go back, when the requests
are routed like this. -/
def HoldsAcross (config : RateLimitConfig) (routing : List ℕ) : Prop :=
  ∀ p qs, qs.map Prod.fst = routing → (∀ q ∈ qs, charged p q.2 = true) →
    Ordered (qs.map Prod.snd) → Within config qs

/-- The last of the stamped requests comes at `d`, unless it is the first. -/
theorem exists_stamped_last (d : ℚ) (w : ℕ) (ws : List ℕ) :
    ∃ last, (stamped d (w :: ws)).getLast? = some last ∧
      last.2.consumed = if ws = [] then 0 else d := by
  rcases List.eq_nil_or_concat ws with rfl | ⟨ws', v, rfl⟩
  · exact ⟨_, rfl, rfl⟩
  · refine ⟨(v, Arrival.at (keyRequest ['k']) d), ?_, ?_⟩
    · rw [stamped, List.concat_eq_append, List.map_append, ← List.cons_append]
      exact List.getLast?_concat
    · rw [if_neg (by simp)]
      rfl

/-- What holding says of the stamped requests. -/
theorem HoldsAcross.stamped {w : ℕ} {ws : List ℕ} (h : HoldsAcross config (w :: ws)) {d : ℚ}
    (hd : 0 ≤ d) : (passedThrough config (stamped d (w :: ws)) : ℚ)
      ≤ config.burst + config.perSec * if ws = [] then 0 else d := by
  obtain ⟨last, hlast, hconsumed⟩ := exists_stamped_last d w ws
  have hwithin := h _ _ stamped_map_fst stamped_charged (ordered_stamped hd) _ last rfl hlast
  rw [hconsumed] at hwithin
  simpa [Arrival.at] using hwithin

theorem HoldsAcross.burst_nonneg {w : ℕ} {ws : List ℕ} (h : HoldsAcross config (w :: ws)) :
    0 ≤ config.burst := by
  have hwithin := h.stamped le_rfl
  rw [ite_self, mul_zero, add_zero] at hwithin
  exact_mod_cast (Nat.cast_nonneg _).trans hwithin

/-- With two requests far enough apart, a negative rate leaves less than nothing. -/
theorem HoldsAcross.perSec_nonneg {w w' : ℕ} {ws : List ℕ}
    (h : HoldsAcross config (w :: w' :: ws)) : 0 ≤ config.perSec := by
  by_contra hneg
  have hrate : 0 < -config.perSec := by linarith
  have hburst : (0 : ℚ) ≤ config.burst := by exact_mod_cast h.burst_nonneg
  have hd : 0 ≤ (config.burst + 1) / -config.perSec := div_nonneg (by linarith) hrate.le
  have hwithin := (Nat.cast_nonneg _).trans (h.stamped hd)
  rw [if_neg (by simp)] at hwithin
  have hspent : config.perSec * ((config.burst + 1) / -config.perSec) = -(config.burst + 1) := by
    rw [div_neg, mul_neg, mul_div_cancel₀ _ (neg_pos.mp hrate).ne]
  rw [hspent] at hwithin
  linarith

theorem first_le_last {qs : List Routed} (h : Ordered (qs.map Prod.snd)) {first last : Routed}
    (hfirst : qs.head? = some first) (hlast : qs.getLast? = some last) :
    first.2.consumed ≤ last.2.consumed := by
  have htimes := h.consumed
  cases qs with
  | nil => cases hfirst
  | cons q qs =>
      obtain rfl : q = first := by simpa using hfirst
      rcases List.mem_cons.mp (List.mem_of_mem_getLast? hlast) with rfl | hmem
      · exact le_rfl
      · rw [List.map_cons, List.map_cons, List.pairwise_cons] at htimes
        exact htimes.1 _ (List.mem_map_of_mem (List.mem_map_of_mem hmem))

/-- With more requests than capacity, and some of that, there is only one worker. -/
theorem HoldsAcross.one_worker {w w' : ℕ} {ws : List ℕ}
    (h : HoldsAcross config (w :: w' :: ws)) :
    config.burst = 0 ∨ ((w :: w' :: ws).length : ℤ) ≤ config.burst ∨
      ∀ v ∈ w :: w' :: ws, ∀ v' ∈ w :: w' :: ws, v = v' := by
  by_contra hcond
  push Not at hcond
  obtain ⟨hzero, hlong, v, hv, v', hv', hne⟩ := hcond
  have hburst : 1 ≤ config.burst := by
    have hnonneg := h.burst_nonneg
    omega
  have hmore := burst_lt_passedThrough hburst h.perSec_nonneg hlong hv hv' hne
  have hwithin := h.stamped le_rfl
  rw [ite_self, mul_zero, add_zero] at hwithin
  have hwithin' :
      (passedThrough config (RateLimit.stamped 0 (w :: w' :: ws)) : ℤ) ≤ config.burst := by
    exact_mod_cast hwithin
  omega

/-- A single request is within the limit whatever the rate. -/
theorem holdsAcross_singleton (hburst : 0 ≤ config.burst) (w : ℕ) : HoldsAcross config [w] := by
  intro p qs hrouting hcharged hordered first last hfirst hlast
  have hlength : qs.length = 1 := by
    rw [← List.length_map Prod.fst, hrouting, List.length_singleton]
  obtain ⟨q, rfl⟩ := List.length_eq_one_iff.mp hlength
  obtain rfl : q = first := by simpa using hfirst
  obtain rfl : q = last := by simpa using hlast
  have hone := passedThrough_singleton hburst q (metered_of_charged (hcharged q List.mem_cons_self))
  rw [sub_self, mul_zero, add_zero]
  exact_mod_cast hone

/-- Nothing, no more than the capacity, or what one worker lets through is within the
limit. -/
theorem holdsAcross_of_rate {routing : List ℕ} (hburst : 0 ≤ config.burst)
    (hrate : 0 ≤ config.perSec)
    (hcase : config.burst = 0 ∨ (routing.length : ℤ) ≤ config.burst ∨
      ∀ w ∈ routing, ∀ w' ∈ routing, w = w') : HoldsAcross config routing := by
  intro p qs hrouting hcharged hordered first last hfirst hlast
  have hmetered : ∀ q ∈ qs, metered p.bucketKey q.2 = true := fun q hq =>
    metered_of_charged (hcharged q hq)
  have hspan : 0 ≤ config.perSec * (last.2.consumed - first.2.consumed) :=
    mul_nonneg hrate (sub_nonneg.mpr (first_le_last hordered hfirst hlast))
  rcases hcase with hzero | hshort | hworker
  · rw [passedThrough_of_no_burst hzero hrate hmetered hordered, hzero]
    simpa using hspan
  · have hlength : qs.length = routing.length := by rw [← hrouting, List.length_map]
    have hcount : (passedThrough config qs : ℤ) ≤ config.burst :=
      le_trans (by exact_mod_cast passedThrough_le_length) (hlength ▸ hshort)
    have hcount' : (passedThrough config qs : ℚ) ≤ config.burst := by exact_mod_cast hcount
    linarith
  · have hmem : ∀ q ∈ qs, q.1 ∈ routing := fun q hq => hrouting ▸ List.mem_map_of_mem hq
    refine passedThrough_le_of_one_worker hburst hrate hmetered hordered ?_ hfirst hlast
    intro q hq
    exact hworker _ (hmem q hq) _ (hmem first (List.mem_of_mem_head? hfirst))

/-- **Across workers the limit holds exactly for these routings**: all requests go to one
worker, or there are no more of them than the capacity, or the capacity is zero; neither
the capacity nor, where there are two requests, the rate being negative. -/
theorem holds_across_iff (config : RateLimitConfig) (routing : List ℕ) :
    HoldsAcross config routing ↔
      routing = [] ∨ 0 ≤ config.burst ∧ (routing.length = 1 ∨ 0 ≤ config.perSec) ∧
        (config.burst = 0 ∨ routing.length ≤ config.burst ∨
          ∀ w ∈ routing, ∀ w' ∈ routing, w = w') := by
  refine ⟨?_, ?_⟩
  · intro h
    match routing, h with
    | [], _ => exact Or.inl rfl
    | [w], h => exact Or.inr ⟨h.burst_nonneg, Or.inl rfl, Or.inr (Or.inr (by simp))⟩
    | w :: w' :: ws, h => exact Or.inr ⟨h.burst_nonneg, Or.inr h.perSec_nonneg, h.one_worker⟩
  · intro h
    rcases h with rfl | ⟨hburst, hone | hrate, hcase⟩
    · -- no request, and so no first one
      intro p qs hrouting _ _ first last hfirst _
      rw [List.map_eq_nil_iff.mp hrouting] at hfirst
      cases hfirst
    · obtain ⟨w, rfl⟩ := List.length_eq_one_iff.mp hone
      exact holdsAcross_singleton hburst w
    · exact holdsAcross_of_rate hburst hrate hcase

/-- With a capacity of one, two workers let two requests through at once. -/
theorem second_worker_over_admits : ¬ ∀ routing, HoldsAcross ⟨1, 1⟩ routing := by
  intro h
  have hwithin := (h [0, 1]).stamped le_rfl
  revert hwithin
  decide +kernel

end Taskq.RateLimit
