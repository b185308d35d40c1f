import Taskq.Service.Waves

/-!
# Taskq.Service.Reuse

What one drain leaves for the next wave.

Only `_finalize_wave` empties the books, and only a drain that returns gets there: one
that is cancelled keeps `_submitted` and `_in_flight_count` as they are. Where no drain
with anything submitted is cancelled, and nothing slips in while a drain is about to
return, every drain leaves the executor at rest, and a wave that starts at rest and is
left alone drains normally (`waves_do_not_leak`).
-/

namespace Taskq.Reuse

open Executor Backlog Transition

/-! ### A wave that is left alone -/

/-- The runs of a wave on an executor, without a deadline or a cancellation. -/
def undisturbed (x : AsyncExecutor) (script : List Submission) : Lts Session Event :=
  Lts.ofNext (· = { system := { executor := x, drain := .idle }, script := script }) Session.next

/-- Whatever the order of events the drain returns, all drained, with a ledger of exactly
the ids of the wave. -/
structure DrainsNormally (x : AsyncExecutor) (script : List Submission) : Prop where
  terminates : (undisturbed x script).Terminating
  returns : ∀ s, (undisturbed x script).Reachable s → (undisturbed x script).Quiescent s →
    ∃ status ledger, s.system.drain = .returned status ledger
  ledger : ∀ s, (undisturbed x script).Reachable s → ∀ status ledger,
    s.system.drain = .returned status ledger →
      status = .drained ∧ ∀ id, id ∈ ledger ↔ id ∈ script.map Submission.taskId

/-- Nobody has been cancelled; what `_tasks` lists is running under its id, and every id
that was submitted is listed or has its result. -/
structure Calm (x : AsyncExecutor) : Prop where
  books : x.Books
  listed : ∀ id i, x.tasks.lookup id = some i →
    ∃ c, x.Running i c ∧ c.submission.taskId = id
  undisturbed : ∀ i c, x.Running i c → c.cancelRequested = false ∧ c.pc ≠ .reaping
  accounted : ∀ id ∈ x.submitted, id ∈ x.results ∨ ∃ i, x.tasks.lookup id = some i

theorem Calm.of_atRest {x : AsyncExecutor} (h : x.AtRest) : Calm x where
  books := h.books
  listed id i hlookup := by
    have hmem := AsyncExecutor.mem_live.mpr ⟨id, hlookup⟩
    rw [AsyncExecutor.live_eq_nil.mpr h.tasks] at hmem
    cases hmem
  undisturbed i c hrunning := absurd hrunning (h.finished.not_running i c)
  accounted := by simp [h.submitted]

theorem Calm.submit {x : AsyncExecutor} (h : Calm x) {e : Submission}
    (hroom : x.inFlightCount < x.maxConcurrent) : Calm (x.submit e) := by
  have hkeeps : ∀ i c, x.Running i c → (x.submit e).Running i c := by
    intro i c hrunning
    rw [AsyncExecutor.submit_of_lt hroom]
    exact ⟨AsyncExecutor.getElem?_concat_eq_some.mpr (Or.inl hrunning.1), hrunning.2⟩
  have hstarts : (x.submit e).Running x.coroutines.length (Coroutine.start e) := by
    rw [AsyncExecutor.submit_of_lt hroom]
    exact ⟨AsyncExecutor.getElem?_concat_eq_some.mpr (Or.inr ⟨rfl, rfl⟩), nofun⟩
  have htasks : (x.submit e).tasks = x.tasks.insert e.taskId x.coroutines.length := by
    rw [AsyncExecutor.submit_of_lt hroom]
  constructor
  case books => exact h.books.submit hroom
  case listed =>
    intro id i hlookup
    rw [htasks] at hlookup
    by_cases hid : id = e.taskId
    · rw [hid, AList.lookup_insert, Option.some.injEq] at hlookup
      exact ⟨Coroutine.start e, hlookup ▸ hstarts, hid.symm⟩
    · rw [AList.lookup_insert_ne hid] at hlookup
      obtain ⟨c, hrunning, hcid⟩ := h.listed id i hlookup
      exact ⟨c, hkeeps i c hrunning, hcid⟩
  case undisturbed =>
    intro i c hrunning
    rcases AsyncExecutor.running_submit hroom hrunning with hrunning | ⟨-, rfl⟩
    · exact h.undisturbed i c hrunning
    · exact ⟨rfl, nofun⟩
  case accounted =>
    intro id hid
    rw [htasks]
    by_cases hnew : id = e.taskId
    · rw [hnew]
      exact Or.inr ⟨_, x.tasks.lookup_insert⟩
    · rw [AsyncExecutor.submit_of_lt hroom, List.mem_insert_iff] at hid
      rw [AList.lookup_insert_ne hnew, AsyncExecutor.submit_of_lt hroom]
      exact h.accounted id (hid.resolve_left hnew)

/-- A turn of a coroutine that goes on changes the books in nothing. -/
theorem Calm.goto {x : AsyncExecutor} (h : Calm x) {i : ℕ} {c : Coroutine} {pc : Pc}
    (hc : x.Running i c) (hbooks : (x.settle i c (.goto pc)).Books)
    (hpc : pc ≠ .finished ∧ pc ≠ .reaping) : Calm (x.settle i c (.goto pc)) := by
  constructor
  case books => exact hbooks
  case listed =>
    intro id j hlookup
    obtain ⟨d, hd, hid⟩ := h.listed id j hlookup
    by_cases hij : i = j
    · subst hij
      cases hc.1.symm.trans hd.1
      refine ⟨c.moveTo pc, ⟨?_, hpc.1⟩, hid⟩
      rw [AsyncExecutor.settle_coroutines]
      exact List.getElem?_set_self (List.getElem?_eq_some_iff.mp hc.1).1
    · refine ⟨d, ⟨?_, hd.2⟩, hid⟩
      rw [AsyncExecutor.settle_coroutines, List.getElem?_set_ne hij]
      exact hd.1
  case undisturbed =>
    intro j d hrunning
    rcases AsyncExecutor.running_settle hrunning with ⟨-, rfl, -⟩ | ⟨-, hrunning⟩
    · exact ⟨rfl, hpc.2⟩
    · exact h.undisturbed j d hrunning
  case accounted => exact h.accounted

/-- A coroutine that ends has its result recorded, and is no longer listed. -/
theorem Calm.finish {x : AsyncExecutor} (h : Calm x) {i : ℕ} {c : Coroutine} {status : Status}
    (hc : x.Running i c) (hbooks : (x.settle i c (.finish (some status))).Books) :
    Calm (x.settle i c (.finish (some status))) := by
  constructor
  case books => exact hbooks
  case listed =>
    intro id j hlookup
    replace hlookup : (x.tasks.erase c.submission.taskId).lookup id = some j := hlookup
    by_cases hid : id = c.submission.taskId
    · rw [hid, AList.lookup_erase] at hlookup
      cases hlookup
    · rw [AList.lookup_erase_ne hid] at hlookup
      obtain ⟨d, hd, hdid⟩ := h.listed id j hlookup
      have hij : i ≠ j := by
        intro heq
        subst heq
        cases hc.1.symm.trans hd.1
        exact hid hdid.symm
      refine ⟨d, ⟨?_, hd.2⟩, hdid⟩
      rw [AsyncExecutor.settle_coroutines, List.getElem?_set_ne hij]
      exact hd.1
  case undisturbed =>
    intro j d hrunning
    rcases AsyncExecutor.running_settle hrunning with ⟨-, -, hpc⟩ | ⟨-, hrunning⟩
    · exact absurd rfl hpc
    · exact h.undisturbed j d hrunning
  case accounted =>
    intro id hid
    show id ∈ x.results.insert _ _ ∨ ∃ j, (x.tasks.erase _).lookup id = some j
    by_cases hown : id = c.submission.taskId
    · exact Or.inl (AList.mem_insert _ |>.mpr (Or.inl hown))
    · rw [AList.lookup_erase_ne hown, AList.mem_insert]
      exact (h.accounted id hid).imp_left Or.inr

theorem Calm.resume {x x' : AsyncExecutor} (h : Calm x) {i : ℕ} {o : Outcome}
    (hres : x.resume i o = some x') : Calm x' := by
  have hbooks := h.books.resume hres
  obtain ⟨c, turn, hc, hadmits, hturn, rfl⟩ := AsyncExecutor.resume_some hres
  have hrunning : x.Running i c := ⟨hc, AsyncExecutor.runTask_unfinished hturn⟩
  obtain ⟨hflag, hpc⟩ := h.undisturbed i c hrunning
  -- nobody asked for a cancellation, so none is delivered
  have ho : ∀ k, o ≠ .cancelled k := by
    intro k hcancel
    subst hcancel
    rw [Coroutine.Admits, hflag] at hadmits
    cases hadmits
  rcases runTask_uncancelled hturn hpc ho with ⟨pc, rfl, hgoes⟩ | ⟨status, rfl⟩
  · exact h.goto hrunning hbooks hgoes
  · exact h.finish hrunning hbooks

/-- When nothing is listed, everything submitted has its result. -/
theorem Calm.settled {x : AsyncExecutor} (h : Calm x) (hlive : x.live = []) : x.Settled := by
  refine ⟨AsyncExecutor.live_eq_nil.mp hlive, h.books.pending, ?_⟩
  intro id hid
  rcases h.accounted id hid with hrecorded | ⟨i, hlookup⟩
  · exact hrecorded
  · have hmem := AsyncExecutor.mem_live.mpr ⟨id, hlookup⟩
    rw [hlive] at hmem
    cases hmem

/-- What such a wave has to do with its coroutines, at each await of the drain. -/
def Normal (cap : ℕ) (script : List Submission) (s : Session) : Prop :=
  match s.system.drain with
  | .idle => Waves.Underway cap script s ∧ Calm s.system.executor
  | .scheduled => Waves.Underway cap script s ∧ Calm s.system.executor
  | .gathering waiting =>
      Waves.Underway cap script s ∧ Calm s.system.executor ∧
        (∀ i ∈ waiting, i < s.system.executor.coroutines.length) ∧
        ∀ i ∈ s.system.executor.live, i ∈ waiting
  | .awaited =>
      Waves.Underway cap script s ∧ Calm s.system.executor ∧
        ∀ id ∈ s.system.executor.submitted, id ∈ s.system.executor.results
  | .returned status ledger =>
      s.system.executor.pending = [] ∧ status = .drained ∧
        ∀ id, id ∈ ledger ↔ id ∈ script.map Submission.taskId
  | _ => False

/-- An iteration that finds nothing listed is the last. -/
theorem Normal.gathered {cap : ℕ} {script rest : List Submission} {x : AsyncExecutor} {d : Drain}
    (h : Waves.Underway cap script ⟨⟨x, d⟩, rest⟩) (hd : d ≠ .idle) (hcalm : Calm x)
    (hlive : x.live = []) : Normal cap script ⟨System.gathered x, rest⟩ := by
  have hsettled := hcalm.settled hlive
  rw [gathered_of_settled h.books.pending hsettled]
  exact ⟨h.frame ⟨rfl, rfl, rfl⟩ h.books (iff_of_false nofun hd), hcalm, hsettled.2.2⟩

/-- Once the gathered coroutines have ended, nothing is listed. -/
theorem Calm.live_eq_nil {x : AsyncExecutor} (h : Calm x) {waiting : List ℕ}
    (hwaiting : ∀ i ∈ x.live, i ∈ waiting) (hdone : ∀ i ∈ waiting, x.Done i) : x.live = [] := by
  rw [List.eq_nil_iff_forall_not_mem]
  intro i hi
  obtain ⟨id, hlookup⟩ := AsyncExecutor.mem_live.mp hi
  obtain ⟨c, hrunning, -⟩ := h.listed id i hlookup
  obtain ⟨d, hd, hfinished⟩ := hdone i (hwaiting i hi)
  cases hrunning.1.symm.trans hd
  exact hrunning.2 hfinished

/-- A turn lists nothing new. -/
theorem live_resume {x x' : AsyncExecutor} {i j : ℕ} {o : Outcome} (h : x.resume i o = some x')
    (hj : j ∈ x'.live) : j ∈ x.live := by
  obtain ⟨c, turn, -, -, -, rfl⟩ := AsyncExecutor.resume_some h
  cases turn with
  | finish result =>
      obtain ⟨id, hlookup⟩ := AsyncExecutor.mem_live.mp hj
      replace hlookup : (x.tasks.erase c.submission.taskId).lookup id = some j := hlookup
      have hid : id ≠ c.submission.taskId := by
        intro heq
        subst heq
        rw [AList.lookup_erase] at hlookup
        cases hlookup
      rw [AList.lookup_erase_ne hid] at hlookup
      exact AsyncExecutor.mem_live.mpr ⟨id, hlookup⟩
  | _ => exact hj

theorem Normal.step {cap : ℕ} {script : List Submission} {s s' : Session}
    (h : Normal cap script s) (hstep : Step s s') : Normal cap script s' := by
  cases hstep with
  | submit =>
      obtain ⟨hunderway, hcalm⟩ := h
      obtain ⟨hroom, hunderway'⟩ := hunderway.submit
      exact ⟨hunderway', hcalm.submit hroom⟩
  | drain => exact ⟨h.1.drain, h.2⟩
  | @resume x x' d rest i o hres =>
      have hframe : Waves.Underway cap script ⟨⟨x, d⟩, rest⟩ →
          Waves.Underway cap script ⟨⟨x', d⟩, rest⟩ := fun hunderway =>
        hunderway.frame (.resume hres) (hunderway.books.resume hres) Iff.rfl
      cases d with
      | idle => exact ⟨hframe h.1, h.2.resume hres⟩
      | scheduled => exact ⟨hframe h.1, h.2.resume hres⟩
      | gathering waiting =>
          obtain ⟨hunderway, hcalm, hvalid, hlive⟩ := h
          have hlength : x'.coroutines.length = x.coroutines.length := by
            simpa using congrArg List.length (dispatched_resume hres)
          refine ⟨hframe hunderway, hcalm.resume hres, ?_, ?_⟩
          · show ∀ i ∈ waiting, i < x'.coroutines.length
            rw [hlength]
            exact hvalid
          · intro j hj
            exact hlive j (live_resume hres hj)
      | awaited => exact ⟨hframe h.1, h.2.1.resume hres, AsyncExecutor.recorded_resume hres h.2.2⟩
      | returned status ledger =>
          obtain ⟨hpending, hledger⟩ := h
          obtain ⟨c, turn, -, -, -, rfl⟩ := AsyncExecutor.resume_some hres
          exact ⟨(x.settle_pending i c turn).trans hpending, hledger⟩
      | _ => exact h.elim
  | @enter x d rest hd =>
      rcases hd with rfl | rfl
      · obtain ⟨hunderway, hcalm⟩ := h
        unfold System.waitAll
        split_ifs with hlive
        · exact Normal.gathered hunderway nofun hcalm hlive
        · refine ⟨hunderway.frame ⟨rfl, rfl, rfl⟩ hunderway.books (iff_of_false nofun nofun), hcalm,
            ?_, fun i hi => hi⟩
          intro i hi
          obtain ⟨id, hlookup⟩ := AsyncExecutor.mem_live.mp hi
          obtain ⟨c, hrunning, -⟩ := hcalm.listed id i hlookup
          exact (List.getElem?_eq_some_iff.mp hrunning.1).1
      · exact h.elim
  | gathered hdone =>
      obtain ⟨hunderway, hcalm, -, hlive⟩ := h
      exact Normal.gathered hunderway nofun hcalm (hcalm.live_eq_nil hlive hdone)
  | finalize =>
      obtain ⟨hunderway, -, hrecorded⟩ := h
      exact ⟨hunderway.books.pending, rfl, Waves.ledger_iff hunderway nofun hrecorded⟩
  | cancelled hd =>
      rcases hd with ⟨waiting, rfl | rfl | rfl⟩
      all_goals exact h.elim

theorem Normal.orderly {cap : ℕ} {script : List Submission} {s : Session}
    (h : Normal cap script s) : Orderly s := by
  obtain ⟨⟨x, d⟩, rest⟩ := s
  constructor
  case pending =>
    cases d with
    | returned => exact h.1
    | idle | scheduled | gathering | awaited => exact h.1.books.pending
    | _ => exact h.elim
  case room =>
    intro hdrain hrest
    obtain rfl : d = .idle := hdrain
    cases rest with
    | nil => exact absurd rfl hrest
    | cons e rest => exact h.1.submit.1
  case settled =>
    intro hdrain hlive
    rcases hdrain with rfl | ⟨waiting, rfl⟩
    · exact h.2.settled hlive
    · exact h.2.1.settled hlive
  case gathered =>
    intro waiting hdrain hdone
    obtain rfl : d = .gathering waiting := hdrain
    exact h.2.1.live_eq_nil h.2.2.2 hdone
  case waiting =>
    intro waiting hdrain i hi hnot
    obtain rfl : d = .gathering waiting := hdrain
    have hc : x.coroutines[i]? = some _ := List.getElem?_eq_getElem (h.2.2.1 i hi)
    exact ⟨_, hc, (h.2.1.undisturbed i _ ⟨hc, fun hpc => hnot ⟨_, hc, hpc⟩⟩).1⟩
  case phase =>
    cases d with
    | idle => exact Or.inl rfl
    | scheduled => exact Or.inr (Or.inl rfl)
    | gathering waiting => exact Or.inr (Or.inr (Or.inl ⟨waiting, rfl⟩))
    | awaited => exact Or.inr (Or.inr (Or.inr (Or.inl rfl)))
    | returned status ledger => exact Or.inr (Or.inr (Or.inr (Or.inr ⟨_, _, rfl⟩)))
    | _ => exact h.elim

/-- **A wave that starts at rest drains normally**, also when an id comes twice. -/
theorem drainsNormally {x : AsyncExecutor} (hx : x.AtRest) {script : List Submission}
    (hlen : script.length ≤ x.maxConcurrent) : DrainsNormally x script := by
  have hnormal : ∀ {s}, (undisturbed x script).Reachable s → Normal x.maxConcurrent script s := by
    intro s hs
    refine hs.invariant ?_ fun s a s' _ hs hstep => hs.step (Session.next_step hstep)
    intro s hs
    obtain rfl : s = _ := hs
    exact ⟨Waves.Underway.start hx hlen, .of_atRest hx⟩
  constructor
  case terminates =>
    exact Lts.terminating_of_measure measure fun s a s' hs hstep =>
      (hnormal hs).orderly.measure_lt (Session.next_step hstep)
  case returns =>
    intro s hs hquiet
    by_contra hnot
    by_cases hwaited : s.WaitedAll
    · rcases hwaited with hd | hreturned
      · -- `_wait_all` has returned, so `run_until_drained` has a turn
        have hwake : s.system.next .wake = some (System.finalize s.system.executor .drained) := by
          rw [System.next, hd]
        exact hquiet .wake _ (Session.next_of_permits trivial hwake)
      · exact hnot hreturned
    · obtain ⟨a, s', hnext⟩ := (hnormal hs).orderly.progress hwaited
      exact hquiet a s' hnext
  case ledger =>
    intro s hs status ledger hreturned
    have hend := hnormal hs
    rw [Normal, hreturned] at hend
    exact hend.2

/-! ### Any number of waves -/

/-- No drain is cancelled with anything submitted, no wave is closed over something
running, and while a drain is about to end nothing is queued. -/
def Undisturbed (s : System) : Event → Prop
  | .cancel => s.executor.submitted = []
  | .wake => s.Clean .wake
  | .submit _ =>
      match s.drain with
      | .awaited | .interrupting _ => s.executor.inFlightCount < s.executor.maxConcurrent
      | .aborting _ => False
      | _ => True
  | _ => True

/-- Between the submissions of a wave and the end of its drain. -/
structure Tidy (s : System) : Prop where
  atRest : s.executor.submitted = [] → s.executor.AtRest
  aborting : ∀ waiting, s.drain = .aborting waiting → s.executor.submitted = []
  ending : (s.drain = .awaited ∨ ∃ waiting, s.drain = .interrupting waiting) →
    s.executor.pending = []

theorem submit_ne_nil (x : AsyncExecutor) (e : Submission) : (x.submit e).submitted ≠ [] := by
  have hmem : e.taskId ∈ x.submitted.insert e.taskId := List.mem_insert_self
  by_cases hroom : x.inFlightCount < x.maxConcurrent
  · rw [AsyncExecutor.submit_of_lt hroom]
    exact List.ne_nil_of_mem hmem
  · rw [AsyncExecutor.submit_of_ge (Nat.not_lt.mp hroom)]
    exact List.ne_nil_of_mem hmem

theorem pullFrom_submitted (pending : List Submission) (x : AsyncExecutor) :
    (AsyncExecutor.pullFrom pending x).submitted = x.submitted := by
  induction pending generalizing x with
  | nil => rfl
  | cons e rest ih =>
      rw [AsyncExecutor.pullFrom]
      split_ifs with hroom
      · rw [ih, AsyncExecutor.dispatch_of_lt hroom]
      · rfl

/-- With nothing submitted there is nothing to cancel and nothing to seed. -/
theorem atRest_cancelAll {x : AsyncExecutor} (h : x.AtRest) (is : List ℕ) :
    (x.cancelAll is).AtRest :=
  ⟨⟨h.pending, h.tasks, h.submitted, h.inFlightCount, h.results⟩, h.finished.cancelAll is⟩

theorem atRest_cancelAndSeed {x : AsyncExecutor} (h : x.AtRest) : x.cancelAndSeed.AtRest := by
  have hcancelled := atRest_cancelAll h x.live
  refine ⟨⟨rfl, h.tasks, h.submitted, h.inFlightCount, ?_⟩, hcancelled.finished⟩
  show ((x.pending.map Submission.taskId ++ x.submitted).foldl _ x.results).entries = []
  rw [h.pending, h.submitted]
  exact h.results

/-- A wave that is closed with nothing queued and nothing running leaves the executor at
rest. -/
theorem atRest_finalizeWave {x : AsyncExecutor} (hpending : x.pending = []) (h : x.Finished) :
    x.finalizeWave.AtRest :=
  ⟨⟨hpending, rfl, rfl, rfl, rfl⟩, h⟩

theorem Tidy.start (cap : ℕ) : Tidy { executor := .new cap, drain := .idle } where
  atRest _ := AsyncExecutor.atRest_new cap
  aborting _ h := by cases h
  ending h := by rcases h with h | ⟨_, h⟩ <;> cases h

theorem Tidy.gathered {x : AsyncExecutor} (h : x.submitted = [] → x.AtRest) :
    Tidy (System.gathered x) := by
  constructor
  case atRest =>
    intro hnone
    replace hnone : x.pull.submitted = [] := hnone
    rw [AsyncExecutor.pull, pullFrom_submitted] at hnone
    show x.pull.AtRest
    rw [AsyncExecutor.pull_of_pending_nil (h hnone).pending]
    exact h hnone
  case aborting =>
    intro waiting hd
    simp only [System.gathered] at hd
    split_ifs at hd
  case ending =>
    intro hd
    simp only [System.gathered] at hd ⊢
    split_ifs at hd with hsettled
    · exact hsettled.2.1
    · rcases hd with hd | ⟨_, hd⟩ <;> cases hd

/-- A drain that is not about to end. -/
theorem Tidy.of_atRest {x : AsyncExecutor} {d : Drain} (h : x.submitted = [] → x.AtRest)
    (hd : d = .idle ∨ d = .scheduled ∨ (∃ waiting, d = .gathering waiting) ∨
      (∃ waiting, d = .expiring waiting) ∨ d.Ended) : Tidy ⟨x, d⟩ := by
  constructor
  case atRest => exact h
  case aborting =>
    intro waiting hdrain
    obtain rfl : d = _ := hdrain
    rcases hd with hd | hd | ⟨_, hd⟩ | ⟨_, hd⟩ | hd <;> cases hd
  case ending =>
    intro hdrain
    rcases hdrain with rfl | ⟨waiting, rfl⟩
    all_goals rcases hd with hd | hd | ⟨_, hd⟩ | ⟨_, hd⟩ | hd <;> cases hd

theorem Tidy.step {s s' : System} {a : Event} (h : Tidy s) (hok : Undisturbed s a)
    (hstep : System.Step s a s') : Tidy s' := by
  cases hstep with
  | @submit x d e =>
      refine ⟨fun hnone => absurd hnone (submit_ne_nil x e), ?_, ?_⟩
      · intro waiting hdrain
        obtain rfl : d = .aborting waiting := hdrain
        exact hok.elim
      · intro hd
        have hpending := h.ending hd
        have hroom : x.inFlightCount < x.maxConcurrent := by
          rcases hd with rfl | ⟨waiting, rfl⟩ <;> exact hok
        show (x.submit e).pending = []
        rw [AsyncExecutor.submit_of_lt hroom]
        exact hpending
  | @resume x x' d i o _ hres =>
      have hsame := Waves.SameWave.resume hres
      constructor
      case atRest =>
        intro hnone
        replace hnone : x'.submitted = [] := hnone
        rw [hsame.submitted] at hnone
        exact ((h.atRest hnone).finished.no_turn hres).elim
      case aborting =>
        intro waiting hd
        exact hsame.submitted.trans (h.aborting waiting hd)
      case ending =>
        intro hd
        obtain ⟨c, turn, -, -, -, rfl⟩ := AsyncExecutor.resume_some hres
        exact (x.settle_pending i c turn).trans (h.ending hd)
  | drain => exact .of_atRest h.atRest (Or.inr (Or.inl rfl))
  | @enter x =>
      unfold System.waitAll
      split_ifs
      · exact .gathered h.atRest
      · exact .of_atRest h.atRest (Or.inr (Or.inr (Or.inl ⟨_, rfl⟩)))
  | gathered => exact .gathered h.atRest
  | @finalize x =>
      exact .of_atRest (fun _ => atRest_finalizeWave (h.ending (Or.inl rfl)) (hok trivial))
        (Or.inr (Or.inr (Or.inr (Or.inr trivial))))
  | @interrupt x waiting =>
      unfold System.interrupt
      split_ifs with hlive
      · have hfinished : x.cancelAndSeed.Finished := (hok hlive).cancelAll x.live
        exact .of_atRest (fun _ => atRest_finalizeWave rfl hfinished)
          (Or.inr (Or.inr (Or.inr (Or.inr trivial))))
      · exact ⟨fun hnone => atRest_cancelAndSeed (h.atRest hnone), nofun, fun _ => rfl⟩
  | @reap x waiting =>
      exact .of_atRest (fun _ => atRest_finalizeWave (h.ending (Or.inr ⟨_, rfl⟩)) (hok trivial))
        (Or.inr (Or.inr (Or.inr (Or.inr trivial))))
  | abort => exact .of_atRest h.atRest (Or.inr (Or.inr (Or.inr (Or.inr trivial))))
  | @deadline x d waiting =>
      exact .of_atRest (fun hnone => atRest_cancelAll (h.atRest hnone) waiting)
        (Or.inr (Or.inr (Or.inr (Or.inl ⟨_, rfl⟩))))
  | @cancel x d waiting =>
      refine ⟨fun hnone => atRest_cancelAll (h.atRest hnone) waiting, fun _ _ => hok, ?_⟩
      intro hdrain
      rcases hdrain with hd | ⟨_, hd⟩ <;> cases hd
  | giveUp => exact .of_atRest h.atRest (Or.inr (Or.inr (Or.inr (Or.inr trivial))))

theorem not_ended_of_inWave {d : Drain} (h : InWave d) : ¬ d.Ended := by
  cases d with
  | returned => exact h.elim
  | raised => exact h.elim
  | _ => exact id

/-- However a drain ends, nothing of its wave is left. -/
theorem Tidy.ended {s s' : System} {a : Event} (h : Tidy s) (hok : Undisturbed s a)
    (hstep : System.Step s a s') (hrunning : ¬ s.drain.Ended) (hended : s'.drain.Ended) :
    s'.executor.AtRest := by
  cases hstep with
  | submit => exact absurd hended hrunning
  | resume => exact absurd hended hrunning
  | drain => exact hended.elim
  | enter => exact absurd hended (not_ended_of_inWave (inWave_waitAll _))
  | gathered => exact absurd hended (not_ended_of_inWave (inWave_gathered _))
  | finalize => exact atRest_finalizeWave (h.ending (Or.inl rfl)) (hok trivial)
  | @interrupt x waiting =>
      unfold System.interrupt at hended ⊢
      split_ifs at hended ⊢ with hlive
      · have hfinished : x.cancelAndSeed.Finished := (hok hlive).cancelAll x.live
        exact atRest_finalizeWave rfl hfinished
      · exact hended.elim
  | reap => exact atRest_finalizeWave (h.ending (Or.inr ⟨_, rfl⟩)) (hok trivial)
  | @abort x waiting => exact h.atRest (h.aborting waiting rfl)
  | deadline => exact hended.elim
  | cancel => exact hended.elim
  | @giveUp x waiting => exact h.atRest hok

/-- **Waves do not leak into each other** where none is disturbed: whenever a drain ends,
the books are empty and nothing is running, and any wave of no more than the cap that
comes next drains normally. -/
theorem waves_do_not_leak (cap : ℕ) {s s' : System} {a : Event}
    (hs : ((System.runs cap).restrict Undisturbed).Reachable s)
    (hstep : ((System.runs cap).restrict Undisturbed).step s a s')
    (hrunning : ¬ s.drain.Ended) (hended : s'.drain.Ended) :
    s'.executor.AtRest ∧
      ∀ script : List Submission, script.length ≤ cap → DrainsNormally s'.executor script := by
  have htidy : Tidy s := by
    refine hs.invariant ?_ ?_
    · intro s hs
      obtain rfl : s = _ := hs
      exact Tidy.start cap
    · intro s a s' _ hs hstep
      exact hs.step hstep.2 (System.step_of_next hstep.1)
  have hrest := htidy.ended hstep.2 (System.step_of_next hstep.1) hrunning hended
  refine ⟨hrest, ?_⟩
  intro script hlen
  have hcap := System.maxConcurrent_of_reachable (.step hs.of_restrict hstep.1)
  exact drainsNormally hrest (hcap ▸ hlen)

/-- One command, drained to its end, by an executor with one slot. -/
theorem waves_do_not_leak_true : ∃ s s', ((System.runs 1).restrict Undisturbed).Reachable s ∧
    ((System.runs 1).restrict Undisturbed).step s .wake s' ∧
      ∀ script : List Submission, script.length ≤ 1 → DrainsNormally s'.executor script := by
  have h₀ : ((System.runs 1).restrict Undisturbed).Reachable ⟨.new 1, .idle⟩ := .init rfl
  have h₁ := h₀.next (.submit ⟨"a", "true"⟩) trivial rfl
  have h₂ := (h₁.next .drain trivial rfl).next .loop trivial rfl
  have h₃ := h₂.next (.resume 0 .done) trivial rfl
  have h₄ := (h₃.next (.resume 0 .done) trivial rfl).next (.resume 0 .done) trivial rfl
  have h₅ := h₄.next .loop trivial rfl
  have hrest := waves_do_not_leak 1 h₅ (a := .wake) ⟨rfl, fun _ => by decide⟩
    (fun hended => hended.elim) trivial
  exact ⟨_, _, h₅, ⟨rfl, fun _ => by decide⟩, hrest.2⟩

/-- Waves come one after the other. -/
def Sequential (s : System) : Event → Prop
  | .submit _ => s.drain = .idle ∨ s.drain.Ended
  | _ => True

/-- A drain that is cancelled while its command runs leaves the id and the slot behind. -/
theorem cancelled_drain_leaves_books :
    ¬ ∀ s a s', ((System.runs 1).restrict Sequential).Reachable s →
      ((System.runs 1).restrict Sequential).step s a s' → ¬ s.drain.Ended → s'.drain.Ended →
        s'.executor.Cleared := by
  intro h
  have h₀ : ((System.runs 1).restrict Sequential).Reachable ⟨.new 1, .idle⟩ := .init rfl
  have h₁ := h₀.next (.submit ⟨"a", "sleep 9"⟩) (Or.inl rfl) rfl
  have h₂ := (h₁.next .drain trivial rfl).next .loop trivial rfl
  have h₃ := h₂.next .cancel trivial rfl
  have h₄ := h₃.next (.resume 0 (.cancelled true)) trivial rfl
  have hraised := h _ .wake _ h₄ ⟨rfl, trivial⟩ (fun hended => hended.elim) trivial
  cases hraised.submitted

end Taskq.Reuse
