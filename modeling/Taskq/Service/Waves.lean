import Taskq.Service.Backlog
import Taskq.Service.Drain

/-!
# Taskq.Service.Waves

What a drain accounts for.

A wave is a list of submissions and then one `run_until_drained`; a deadline and a
cancellation come when they like. `submit` sleeps once before it returns, and in that time the
coroutine it has dispatched has its first turn, to the launch of its program.

`_tasks` has one entry for each id, so an id that is submitted again takes its first coroutine
off the books, and the drain neither waits for that one nor cancels it, unless it had no process
to launch and is over already (`accountsFor_iff`).
-/

namespace Taskq.Executor.AsyncExecutor

/-- Nothing of an earlier wave is left in the books. -/
structure Cleared (x : AsyncExecutor) : Prop where
  pending : x.pending = []
  tasks : x.tasks.entries = []
  submitted : x.submitted = []
  inFlightCount : x.inFlightCount = 0
  results : x.results.entries = []

/-- Between two waves: the books are empty and nothing is running. -/
structure AtRest (x : AsyncExecutor) : Prop extends Cleared x where
  finished : x.Finished

theorem atRest_new (cap : ℕ) : (new cap).AtRest :=
  ⟨⟨rfl, rfl, rfl, rfl, rfl⟩, by simp [Finished, new]⟩

theorem not_mem_of_entries_nil {d : TaskDictOf Status} (h : d.entries = []) (id : String) :
    id ∉ d := by
  rw [AList.mem_keys, AList.keys, h]
  exact List.not_mem_nil

/-- Seeding adds the ids that have nothing recorded, and no others. -/
theorem mem_foldl_seedInterrupted {id : String} (ids : List String) :
    ∀ {results : TaskDictOf Status},
      id ∈ ids.foldl seedInterrupted results ↔ id ∈ results ∨ id ∈ ids := by
  induction ids with
  | nil => simp
  | cons j ids ih =>
      intro results
      have hone : id ∈ seedInterrupted results j ↔ id ∈ results ∨ id = j := by
        unfold seedInterrupted
        split_ifs with hj
        · exact ⟨Or.inl, fun h => h.elim (fun h => h) fun h => h ▸ hj⟩
        · rw [AList.mem_insert, or_comm]
      rw [List.foldl_cons, ih, hone, List.mem_cons, or_assoc]

theorem mem_cancelAndSeed_results {x : AsyncExecutor} (hpending : x.pending = []) {id : String} :
    id ∈ x.cancelAndSeed.results ↔ id ∈ x.results ∨ id ∈ x.submitted := by
  show id ∈ (x.pending.map _ ++ x.submitted).foldl seedInterrupted x.results ↔ _
  rw [hpending, mem_foldl_seedInterrupted]
  rfl

/-- What a cancellation leaves of a coroutine. -/
theorem getElem?_of_cancelAll {x : AsyncExecutor} {is : List ℕ} {i : ℕ} {c : Coroutine}
    (h : (x.cancelAll is).coroutines[i]? = some c) :
    ∃ c₀, x.coroutines[i]? = some c₀ ∧ c.submission = c₀.submission ∧ c.pc = c₀.pc := by
  rw [cancelAll_getElem?] at h
  obtain ⟨c₀, hc₀, rfl⟩ := Option.map_eq_some_iff.mp h
  refine ⟨c₀, hc₀, ?_⟩
  split_ifs <;> exact ⟨rfl, rfl⟩

theorem Finished.cancelAll {x : AsyncExecutor} (h : x.Finished) (is : List ℕ) :
    (x.cancelAll is).Finished := by
  rw [← unfinished_eq_zero, unfinished_congr (cancelAll_pcs x is), unfinished_eq_zero]
  exact h

/-- Coroutine `i` is `c`, and has not finished. -/
def Running (x : AsyncExecutor) (i : ℕ) (c : Coroutine) : Prop :=
  x.coroutines[i]? = some c ∧ c.pc ≠ .finished

theorem Finished.not_running {x : AsyncExecutor} (h : x.Finished) (i : ℕ) (c : Coroutine) :
    ¬ x.Running i c := by
  intro hrunning
  exact hrunning.2 (h c (List.mem_of_getElem? hrunning.1))

theorem running_submit {x : AsyncExecutor} {e : Submission} {i : ℕ} {c : Coroutine}
    (hroom : x.inFlightCount < x.maxConcurrent) (h : (x.submit e).Running i c) :
    x.Running i c ∨ i = x.coroutines.length ∧ c = Coroutine.start e := by
  obtain ⟨hc, hpc⟩ := h
  rw [submit_of_lt hroom] at hc
  rcases getElem?_concat_eq_some.mp hc with hc | ⟨hi, hc⟩
  · exact Or.inl ⟨hc, hpc⟩
  · exact Or.inr ⟨hi, hc.symm⟩

/-- Who is running after a turn was running before it. -/
theorem running_settle {x : AsyncExecutor} {i j : ℕ} {c d : Coroutine} {turn : Turn}
    (h : (x.settle i c turn).Running j d) :
    j = i ∧ d = c.moveTo turn.pc ∧ turn.pc ≠ .finished ∨ j ≠ i ∧ x.Running j d := by
  obtain ⟨hd, hpc⟩ := h
  rw [settle_coroutines, List.getElem?_set] at hd
  split_ifs at hd with hij hi
  · cases hd
    exact Or.inl ⟨hij.symm, rfl, hpc⟩
  · exact Or.inr ⟨fun h => hij h.symm, hd, hpc⟩

theorem running_cancelAll {x : AsyncExecutor} {is : List ℕ} {i : ℕ} {c : Coroutine}
    (h : (x.cancelAll is).Running i c) :
    ∃ c₀, x.Running i c₀ ∧ c.submission = c₀.submission := by
  obtain ⟨c₀, hc₀, hsubmission, hpc⟩ := getElem?_of_cancelAll h.1
  exact ⟨c₀, ⟨hc₀, hpc ▸ h.2⟩, hsubmission⟩

/-! ### The books of a wave -/

/-- Everything in the books is of an id that the wave has submitted, and nothing waits
for a slot. -/
structure Books (x : AsyncExecutor) : Prop where
  pending : x.pending = []
  running : ∀ i c, x.Running i c → c.submission.taskId ∈ x.submitted
  recorded : ∀ id ∈ x.results, id ∈ x.submitted

theorem AtRest.books {x : AsyncExecutor} (h : x.AtRest) : x.Books where
  pending := h.pending
  running i c hrunning := absurd hrunning (h.finished.not_running i c)
  recorded id hid := absurd hid (not_mem_of_entries_nil h.results id)

theorem Books.submit {x : AsyncExecutor} (h : x.Books) {e : Submission}
    (hroom : x.inFlightCount < x.maxConcurrent) : (x.submit e).Books := by
  have hsubmitted : (x.submit e).submitted = x.submitted.insert e.taskId := by
    rw [submit_of_lt hroom]
  constructor
  case pending =>
    rw [submit_of_lt hroom]
    exact h.pending
  case running =>
    intro i c hrunning
    rw [hsubmitted]
    rcases running_submit hroom hrunning with hrunning | ⟨-, rfl⟩
    · exact List.mem_insert_of_mem (h.running i c hrunning)
    · exact List.mem_insert_self
  case recorded =>
    intro id hid
    rw [submit_of_lt hroom] at hid
    rw [hsubmitted]
    exact List.mem_insert_of_mem (h.recorded id hid)

/-- A turn only ever records the id of its coroutine. -/
theorem settle_results (x : AsyncExecutor) (i : ℕ) (c : Coroutine) (turn : Turn) :
    (x.settle i c turn).results = x.results ∨
      ∃ status, (x.settle i c turn).results = x.results.insert c.submission.taskId status := by
  cases turn with
  | finish result =>
      cases result with
      | none => exact Or.inl rfl
      | some status => exact Or.inr ⟨status, rfl⟩
  | _ => exact Or.inl rfl

/-- What has a result keeps it. -/
theorem recorded_resume {x x' : AsyncExecutor} {i : ℕ} {o : Outcome}
    (h : x.resume i o = some x') (hrecorded : ∀ id ∈ x.submitted, id ∈ x.results) :
    ∀ id ∈ x'.submitted, id ∈ x'.results := by
  obtain ⟨c, turn, -, -, -, rfl⟩ := AsyncExecutor.resume_some h
  intro id hid
  have hold := hrecorded id (x.settle_submitted i c turn ▸ hid)
  rcases x.settle_results i c turn with hsame | ⟨status, hinsert⟩
  · rw [hsame]
    exact hold
  · rw [hinsert, AList.mem_insert]
    exact Or.inr hold

theorem Books.resume {x x' : AsyncExecutor} (h : x.Books) {i : ℕ} {o : Outcome}
    (hres : x.resume i o = some x') : x'.Books := by
  obtain ⟨c, turn, hc, -, hturn, rfl⟩ := resume_some hres
  have hown := h.running i c ⟨hc, runTask_unfinished hturn⟩
  constructor
  case pending =>
    rw [settle_pending]
    exact h.pending
  case running =>
    intro j d hrunning
    rw [settle_submitted]
    rcases running_settle hrunning with ⟨-, rfl, -⟩ | ⟨-, hrunning⟩
    · exact hown
    · exact h.running j d hrunning
  case recorded =>
    intro id hid
    rw [settle_submitted]
    rcases settle_results x i c turn with hsame | ⟨status, hinsert⟩
    · rw [hsame] at hid
      exact h.recorded id hid
    · rw [hinsert, AList.mem_insert] at hid
      rcases hid with rfl | hid
      · exact hown
      · exact h.recorded id hid

theorem Books.cancelAll {x : AsyncExecutor} (h : x.Books) (is : List ℕ) :
    (x.cancelAll is).Books where
  pending := h.pending
  running := by
    intro i c hrunning
    obtain ⟨c₀, hrunning, hsubmission⟩ := running_cancelAll hrunning
    rw [hsubmission]
    exact h.running i c₀ hrunning
  recorded := h.recorded

theorem Books.cancelAndSeed {x : AsyncExecutor} (h : x.Books) : x.cancelAndSeed.Books where
  pending := rfl
  running := (h.cancelAll x.live).running
  recorded := by
    intro id hid
    rcases (mem_cancelAndSeed_results h.pending).mp hid with hid | hid
    · exact h.recorded id hid
    · exact hid

/-! ### What is running is listed -/

/-- `_tasks` lists every coroutine that is running under its own id. -/
def Listed (x : AsyncExecutor) : Prop :=
  ∀ i c, x.Running i c → x.tasks.lookup c.submission.taskId = some i

theorem AtRest.listed {x : AsyncExecutor} (h : x.AtRest) : x.Listed :=
  fun i c hrunning => absurd hrunning (h.finished.not_running i c)

theorem Listed.mem_live {x : AsyncExecutor} (h : x.Listed) {i : ℕ} {c : Coroutine}
    (hrunning : x.Running i c) : i ∈ x.live :=
  AsyncExecutor.mem_live.mpr ⟨_, h i c hrunning⟩

/-- Where all of some coroutines have ended and no others are running, everything has. -/
theorem finished_of_done {x : AsyncExecutor} {is : List ℕ} (hdone : ∀ i ∈ is, x.Done i)
    (hrunning : ∀ i c, x.Running i c → i ∈ is) : x.Finished := by
  intro c hc
  by_contra hpc
  obtain ⟨i, hi⟩ := List.mem_iff_getElem?.mp hc
  obtain ⟨d, hd, hfinished⟩ := hdone i (hrunning i c ⟨hi, hpc⟩)
  cases hi.symm.trans hd
  exact hpc hfinished

/-- A submission under an id that nothing is running under. -/
theorem Listed.submit {x : AsyncExecutor} (h : x.Listed) {e : Submission}
    (hroom : x.inFlightCount < x.maxConcurrent)
    (hnew : ∀ i c, x.Running i c → c.submission.taskId ≠ e.taskId) : (x.submit e).Listed := by
  intro i c hrunning
  have hold := running_submit hroom hrunning
  rw [submit_of_lt hroom]
  rcases hold with hrunning | ⟨rfl, rfl⟩
  · show (x.tasks.insert _ _).lookup _ = _
    rw [AList.lookup_insert_ne (hnew i c hrunning)]
    exact h i c hrunning
  · exact x.tasks.lookup_insert

theorem Listed.resume {x x' : AsyncExecutor} (h : x.Listed) {i : ℕ} {o : Outcome}
    (hres : x.resume i o = some x') : x'.Listed := by
  obtain ⟨c, turn, hc, -, hturn, rfl⟩ := resume_some hres
  have hown := h i c ⟨hc, runTask_unfinished hturn⟩
  intro j d hrunning
  rcases running_settle hrunning with ⟨rfl, rfl, hpc⟩ | ⟨hji, hrunning⟩
  · cases turn with
    | goto pc => exact hown
    | _ => exact absurd rfl hpc
  · have hother := h j d hrunning
    cases turn with
    | finish result =>
        -- another coroutine is listed under another id
        have hne : d.submission.taskId ≠ c.submission.taskId := by
          intro heq
          rw [heq, hown] at hother
          exact hji (Option.some.inj hother).symm
        show (x.tasks.erase _).lookup _ = _
        rw [AList.lookup_erase_ne hne]
        exact hother
    | _ => exact hother

theorem Listed.cancelAll {x : AsyncExecutor} (h : x.Listed) (is : List ℕ) :
    (x.cancelAll is).Listed := by
  intro i c hrunning
  obtain ⟨c₀, hrunning, hsubmission⟩ := running_cancelAll hrunning
  rw [hsubmission]
  exact h i c₀ hrunning

end Taskq.Executor.AsyncExecutor

namespace Taskq.Waves

open Executor Backlog Transition

/-! ### One wave -/

/-- Is coroutine `i` in its first turn? `create_subprocess_exec` launches the program before it
awaits anything, so a launch that fails ends the coroutine in that turn. -/
def InFirstTurn (launches : ℕ → Bool) (i : ℕ) (c : Coroutine) : Prop :=
  c.pc = .created ∨ c.pc = .spawning ∧ launches i = false

instance (launches : ℕ → Bool) (i : ℕ) (c : Coroutine) : Decidable (InFirstTurn launches i c) :=
  inferInstanceAs (Decidable (_ ∨ _))

/-- Every `submit` so far has returned: in the `await asyncio.sleep(0)` at its end, the
coroutine it has dispatched has had its first turn. -/
def Slept (launches : ℕ → Bool) (x : AsyncExecutor) : Prop :=
  ∀ p ∈ x.coroutines.zipIdx, ¬ InFirstTurn launches p.2 p.1

instance (launches : ℕ → Bool) (x : AsyncExecutor) : Decidable (Slept launches x) :=
  inferInstanceAs (Decidable (∀ p ∈ x.coroutines.zipIdx, _))

theorem slept_iff {launches : ℕ → Bool} {x : AsyncExecutor} :
    Slept launches x ↔ ∀ i c, x.coroutines[i]? = some c → ¬ InFirstTurn launches i c := by
  simp only [Slept, List.mem_zipIdx_iff_getElem?, Prod.forall]
  exact forall_comm

/-- The caller submits in order, awaiting each `submit`, and drains once, when everything is
submitted; the deadline and a cancellation may come. `launches` says of which coroutines the
program can be launched. -/
def Permits (launches : ℕ → Bool) (s : Session) : Event → Prop
  | .submit e => s.Permits (.submit e) ∧ Slept launches s.system.executor
  | .drain => s.Permits .drain ∧ Slept launches s.system.executor
  | .resume i o =>
      ∀ c ∈ s.system.executor.coroutines[i]?, c.pc = .spawning → launches i = false → o = .failed
  | .loop | .wake | .deadline | .cancel => True

instance (launches : ℕ → Bool) (s : Session) : (a : Event) → Decidable (Permits launches s a)
  | .submit _ => inferInstanceAs (Decidable (_ ∧ _))
  | .drain => inferInstanceAs (Decidable (_ ∧ _))
  | .resume i _ =>
      inferInstanceAs (Decidable (∀ c ∈ s.system.executor.coroutines[i]?, _ → _ → _))
  | .loop | .wake | .deadline | .cancel => inferInstanceAs (Decidable True)

def next (launches : ℕ → Bool) (s : Session) (a : Event) : Option Session :=
  if Permits launches s a then (s.system.next a).map fun t => { system := t, script := s.rest a }
  else none

/-- The runs of a wave on an executor. -/
def wave (launches : ℕ → Bool) (x : AsyncExecutor) (script : List Submission) : Lts Session Event :=
  Lts.ofNext (· = { system := { executor := x, drain := .idle }, script := script })
    (next launches)

/-- Whenever the drain returns, its ledger is of the submitted ids, and nothing that was
dispatched is still running. -/
def AccountsFor (launches : ℕ → Bool) (x : AsyncExecutor) (script : List Submission) : Prop :=
  ∀ s, (wave launches x script).Reachable s →
    ∀ status ledger, s.system.drain = .returned status ledger →
      (∀ id, id ∈ ledger ↔ id ∈ script.map Submission.taskId) ∧ s.system.executor.Finished

/-- The process of coroutine `i` is started, if that is its submission. -/
def Starts (launches : ℕ → Bool) (i : ℕ) (e : Submission) : Prop :=
  Launches e.command ∧ launches i = true

instance (launches : ℕ → Bool) (i : ℕ) (e : Submission) : Decidable (Starts launches i e) :=
  inferInstanceAs (Decidable (_ ∧ _))

/-- No id is submitted again after a submission of it whose process was started. The
submissions are numbered from `n`, as their coroutines are. -/
def NoneReplaced (launches : ℕ → Bool) (n : ℕ) (script : List Submission) : Prop :=
  (script.zipIdx n).Pairwise fun p q => Starts launches p.2 p.1 → p.1.taskId ≠ q.1.taskId

instance (launches : ℕ → Bool) (n : ℕ) (script : List Submission) :
    Decidable (NoneReplaced launches n script) :=
  inferInstanceAs (Decidable (List.Pairwise _ _))

variable {launches : ℕ → Bool}

theorem noneReplaced_iff {n : ℕ} {script : List Submission} :
    NoneReplaced launches n script ↔ ∀ i j e f, i < j → script[i]? = some e →
      script[j]? = some f → Starts launches (n + i) e → e.taskId ≠ f.taskId := by
  simp only [NoneReplaced, List.pairwise_iff_getElem, List.length_zipIdx, List.getElem_zipIdx]
  constructor
  · intro h i j e f hij he hf hstarts
    obtain ⟨hi, rfl⟩ := List.getElem?_eq_some_iff.mp he
    obtain ⟨hj, rfl⟩ := List.getElem?_eq_some_iff.mp hf
    exact h i j hi hj hij hstarts
  · intro h i j hi hj hij hstarts
    exact h i j _ _ hij (List.getElem?_eq_getElem hi) (List.getElem?_eq_getElem hj) hstarts

/-- Distinct ids never come again. -/
theorem noneReplaced_of_nodup {script : List Submission}
    (hids : (script.map Submission.taskId).Nodup) (n : ℕ) : NoneReplaced launches n script := by
  rw [noneReplaced_iff]
  intro i j e f hij he hf _ heq
  exact Nat.ne_of_lt hij (Keyed.index_eq hids he hf heq)

/-- What one step of a wave is. -/
theorem step_of_next {s s' : Session} {a : Event} (h : next launches s a = some s') :
    Permits launches s a ∧ System.Step s.system a s'.system ∧ s'.script = s.rest a := by
  unfold next at h
  split_ifs at h with hpermits
  obtain ⟨t, ht, rfl⟩ := Option.map_eq_some_iff.mp h
  exact ⟨hpermits, System.step_of_next ht, rfl⟩

/-- Before the drain has returned: what has been submitted is a first part of the script,
there are slots for the rest, and the books are of it. -/
structure Underway (cap : ℕ) (script : List Submission) (s : Session) : Prop where
  maxConcurrent : s.system.executor.maxConcurrent = cap
  books : s.system.executor.Books
  log : ∃ done, done ++ s.script = script ∧
    ∀ id, id ∈ s.system.executor.submitted ↔ id ∈ done.map Submission.taskId
  room : s.system.drain = .idle → s.system.executor.inFlightCount + s.script.length ≤ cap
  script : s.system.drain ≠ .idle → s.script = []

theorem Underway.start {x : AsyncExecutor} (hx : x.AtRest) {script : List Submission}
    (hlen : script.length ≤ x.maxConcurrent) :
    Underway x.maxConcurrent script
      { system := { executor := x, drain := .idle }, script := script } where
  maxConcurrent := rfl
  books := hx.books
  log := ⟨[], rfl, fun id => by simp [hx.submitted]⟩
  room _ := by
    show x.inFlightCount + script.length ≤ x.maxConcurrent
    rw [hx.inFlightCount]
    omega
  script h := absurd rfl h

/-- Once everything is submitted, the ids in the books are those of the script. -/
theorem Underway.submitted_iff {cap : ℕ} {script : List Submission} {s : Session}
    (h : Underway cap script s) (hdrain : s.system.drain ≠ .idle) (id : String) :
    id ∈ s.system.executor.submitted ↔ id ∈ script.map Submission.taskId := by
  obtain ⟨done, hdone, hids⟩ := h.log
  rw [h.script hdrain, List.append_nil] at hdone
  rw [hids, hdone]

/-- A submission of a wave. -/
theorem Underway.submit {cap : ℕ} {script rest : List Submission} {x : AsyncExecutor}
    {e : Submission} (h : Underway cap script ⟨⟨x, .idle⟩, e :: rest⟩) :
    x.inFlightCount < x.maxConcurrent ∧ Underway cap script ⟨⟨x.submit e, .idle⟩, rest⟩ := by
  have hcap : x.maxConcurrent = cap := h.maxConcurrent
  have hroom : x.inFlightCount + (e :: rest).length ≤ cap := h.room rfl
  rw [List.length_cons] at hroom
  have hlt : x.inFlightCount < x.maxConcurrent := by omega
  obtain ⟨done, hdone, hids⟩ := h.log
  refine ⟨hlt, ?_⟩
  constructor
  case maxConcurrent => exact (x.submit_maxConcurrent e).trans hcap
  case books => exact h.books.submit hlt
  case log =>
    refine ⟨done ++ [e], by simpa using hdone, fun id => ?_⟩
    show id ∈ (x.submit e).submitted ↔ _
    rw [AsyncExecutor.submit_of_lt hlt, List.mem_insert_iff, hids id]
    simp [or_comm]
  case room =>
    intro _
    show (x.submit e).inFlightCount + rest.length ≤ cap
    rw [AsyncExecutor.submit_of_lt hlt]
    simp only
    omega
  case script => exact fun hidle => absurd rfl hidle

/-- What a wave has submitted, and the slots it has taken, are the same. -/
structure SameWave (x x' : AsyncExecutor) : Prop where
  maxConcurrent : x'.maxConcurrent = x.maxConcurrent
  submitted : x'.submitted = x.submitted
  inFlightCount : x'.inFlightCount = x.inFlightCount

theorem SameWave.resume {x x' : AsyncExecutor} {i : ℕ} {o : Outcome}
    (h : x.resume i o = some x') : SameWave x x' := by
  obtain ⟨c, turn, -, -, -, rfl⟩ := AsyncExecutor.resume_some h
  exact ⟨x.settle_maxConcurrent i c turn, x.settle_submitted i c turn,
    x.settle_inFlightCount i c turn⟩

theorem SameWave.cancelAll (x : AsyncExecutor) (is : List ℕ) : SameWave x (x.cancelAll is) :=
  ⟨rfl, rfl, rfl⟩

theorem SameWave.cancelAndSeed (x : AsyncExecutor) : SameWave x x.cancelAndSeed := ⟨rfl, rfl, rfl⟩

/-- An event that submits nothing and leaves the books in order. -/
theorem Underway.frame {cap : ℕ} {script rest : List Submission} {x x' : AsyncExecutor}
    {d d' : Drain} (h : Underway cap script ⟨⟨x, d⟩, rest⟩) (hsame : SameWave x x')
    (hbooks : x'.Books) (hidle : d' = .idle ↔ d = .idle) :
    Underway cap script ⟨⟨x', d'⟩, rest⟩ where
  maxConcurrent := hsame.maxConcurrent.trans h.maxConcurrent
  books := hbooks
  log := by
    show ∃ done, done ++ rest = script ∧ ∀ id, id ∈ x'.submitted ↔ _
    rw [hsame.submitted]
    exact h.log
  room hd := by
    show x'.inFlightCount + rest.length ≤ cap
    rw [hsame.inFlightCount]
    exact h.room (hidle.mp hd)
  script hd := h.script fun hd' => hd (hidle.mpr hd')

/-- The caller has submitted everything and calls the drain. -/
theorem Underway.drain {cap : ℕ} {script : List Submission} {x : AsyncExecutor}
    (h : Underway cap script ⟨⟨x, .idle⟩, []⟩) : Underway cap script ⟨⟨x, .scheduled⟩, []⟩ where
  maxConcurrent := h.maxConcurrent
  books := h.books
  log := h.log
  room hd := by cases hd
  script _ := rfl

/-- Nothing waits for a slot, so an iteration only looks whether everything is settled. -/
theorem gathered_eq {x : AsyncExecutor} (h : x.pending = []) :
    System.gathered x = { executor := x, drain := if x.Settled then .awaited else .head } := by
  rw [System.gathered, AsyncExecutor.pull_of_pending_nil h]

/-! ### A wave of distinct ids -/

/-- What the drain has to do with the coroutines and the books, at each of its awaits. -/
def Accounted (cap : ℕ) (script : List Submission) (s : Session) : Prop :=
  match s.system.drain with
  | .raised => True
  | .returned _ ledger =>
      (∀ id, id ∈ ledger ↔ id ∈ script.map Submission.taskId) ∧ s.system.executor.Finished
  | .awaited =>
      Underway cap script s ∧ s.system.executor.Finished ∧
        ∀ id ∈ s.system.executor.submitted, id ∈ s.system.executor.results
  | .interrupting waiting =>
      Underway cap script s ∧ s.system.executor.Listed ∧
        (∀ i c, s.system.executor.Running i c → i ∈ waiting) ∧
        ∀ id ∈ s.system.executor.submitted, id ∈ s.system.executor.results
  | _ => Underway cap script s ∧ s.system.executor.Listed

/-- The ledger of a wave whose ids all have something recorded. -/
theorem ledger_iff {cap : ℕ} {script : List Submission} {s : Session} (h : Underway cap script s)
    (hdrain : s.system.drain ≠ .idle)
    (hrecorded : ∀ id ∈ s.system.executor.submitted, id ∈ s.system.executor.results) (id : String) :
    id ∈ s.system.executor.results ↔ id ∈ script.map Submission.taskId := by
  rw [← h.submitted_iff hdrain]
  exact ⟨h.books.recorded id, hrecorded id⟩

theorem accounted_gathered {cap : ℕ} {script rest : List Submission} {x : AsyncExecutor} {d : Drain}
    (h : Underway cap script ⟨⟨x, d⟩, rest⟩) (hlisted : x.Listed) (hd : d ≠ .idle) :
    Accounted cap script ⟨System.gathered x, rest⟩ := by
  have hframe : ∀ d', d' ≠ .idle → Underway cap script ⟨⟨x, d'⟩, rest⟩ := fun d' hd' =>
    h.frame ⟨rfl, rfl, rfl⟩ h.books (iff_of_false hd' hd)
  rw [gathered_eq h.books.pending]
  split_ifs with hsettled
  · obtain ⟨htasks, -, hrecorded⟩ := hsettled
    have hlive : ∀ i ∈ x.live, x.Done i := by simp [AsyncExecutor.live_eq_nil.mpr htasks]
    exact ⟨hframe _ nofun,
      AsyncExecutor.finished_of_done hlive fun i c => hlisted.mem_live, hrecorded⟩
  · exact ⟨hframe _ nofun, hlisted⟩

theorem accounted_interrupt {cap : ℕ} {script rest : List Submission} {x : AsyncExecutor}
    {waiting : List ℕ} (h : Underway cap script ⟨⟨x, .expiring waiting⟩, rest⟩)
    (hlisted : x.Listed) : Accounted cap script ⟨System.interrupt x, rest⟩ := by
  have hframe : Underway cap script ⟨⟨x.cancelAndSeed, .interrupting x.live⟩, rest⟩ :=
    h.frame (.cancelAndSeed x) h.books.cancelAndSeed (iff_of_false nofun nofun)
  have hrecorded : ∀ id ∈ x.cancelAndSeed.submitted, id ∈ x.cancelAndSeed.results :=
    fun id hid => (AsyncExecutor.mem_cancelAndSeed_results h.books.pending).mpr (Or.inr hid)
  have hlisted' : x.cancelAndSeed.Listed := hlisted.cancelAll x.live
  have hwaiting : ∀ i c, x.cancelAndSeed.Running i c → i ∈ x.live := by
    intro i c hrunning
    obtain ⟨c₀, hrunning, -⟩ := AsyncExecutor.running_cancelAll hrunning
    exact hlisted.mem_live hrunning
  unfold System.interrupt
  split_ifs with hlive
  · refine ⟨ledger_iff hframe nofun hrecorded, ?_⟩
    rw [hlive] at hwaiting
    exact AsyncExecutor.finished_of_done (by simp) hwaiting
  · exact ⟨hframe, hlisted', hwaiting, hrecorded⟩

/-- A turn of a coroutine. -/
theorem Accounted.resume {cap : ℕ} {script rest : List Submission} {x x' : AsyncExecutor}
    {d : Drain} {i : ℕ} {o : Outcome} (h : Accounted cap script ⟨⟨x, d⟩, rest⟩)
    (hres : x.resume i o = some x') : Accounted cap script ⟨⟨x', d⟩, rest⟩ := by
  have hframe : ∀ d, Underway cap script ⟨⟨x, d⟩, rest⟩ → Underway cap script ⟨⟨x', d⟩, rest⟩ :=
    fun d h => h.frame (.resume hres) (h.books.resume hres) Iff.rfl
  cases d with
  | raised => trivial
  | returned status ledger => exact (h.2.no_turn hres).elim
  | awaited => exact (h.2.1.no_turn hres).elim
  | interrupting waiting =>
      obtain ⟨hunderway, hlisted, hwaiting, hrecorded⟩ := h
      refine ⟨hframe _ hunderway, hlisted.resume hres, ?_,
        AsyncExecutor.recorded_resume hres hrecorded⟩
      obtain ⟨c, turn, hc, -, hturn, rfl⟩ := AsyncExecutor.resume_some hres
      intro j d hrunning
      rcases AsyncExecutor.running_settle hrunning with ⟨rfl, -⟩ | ⟨-, hrunning⟩
      · exact hwaiting j c ⟨hc, AsyncExecutor.runTask_unfinished hturn⟩
      · exact hwaiting j d hrunning
  | _ => exact ⟨hframe _ h.1, h.2.resume hres⟩

/-- The id that comes next has not been submitted yet. -/
theorem Underway.not_mem_submitted {cap : ℕ} {script rest : List Submission} {x : AsyncExecutor}
    {d : Drain} {e : Submission} (h : Underway cap script ⟨⟨x, d⟩, e :: rest⟩)
    (hids : (script.map Submission.taskId).Nodup) : e.taskId ∉ x.submitted := by
  obtain ⟨done, rfl, hsubmitted⟩ := h.log
  intro hmem
  rw [List.map_append, List.map_cons] at hids
  exact (List.nodup_append.mp hids).2.2 _ ((hsubmitted _).mp hmem) _ List.mem_cons_self rfl

/-! ### Where the coroutines of a wave stand -/

/-- The coroutines are those of earlier waves, which have ended, and one for each submission so
far; where no process was started, the first turn is not over or nothing is left. -/
structure Placed (launches : ℕ → Bool) (x₀ : AsyncExecutor) (script : List Submission)
    (s : Session) : Prop where
  log : s.dispatched ++ s.script = x₀.coroutines.map Coroutine.submission ++ script
  earlier : ∀ i < x₀.coroutines.length, s.system.executor.Done i
  halted : ∀ i c, s.system.executor.coroutines[i]? = some c →
    ¬ Starts launches i c.submission → c.pc = .finished ∨ InFirstTurn launches i c

theorem Placed.start {x : AsyncExecutor} (hx : x.AtRest) (script : List Submission) :
    Placed launches x script ⟨⟨x, .idle⟩, script⟩ where
  log := rfl
  earlier _ hi :=
    ⟨_, List.getElem?_eq_getElem hi, hx.finished _ (List.getElem_mem hi)⟩
  halted _ c hc _ := Or.inl (hx.finished c (List.mem_of_getElem? hc))

theorem Placed.congr {x₀ x y : AsyncExecutor} {script rest : List Submission} {d d' : Drain}
    (h : Placed launches x₀ script ⟨⟨x, d⟩, rest⟩) (hy : y.coroutines = x.coroutines) :
    Placed launches x₀ script ⟨⟨y, d'⟩, rest⟩ where
  log := by
    show y.coroutines.map Coroutine.submission ++ rest = _
    rw [hy]
    exact h.log
  earlier := by
    show ∀ i < _, ∃ c, y.coroutines[i]? = some c ∧ _
    rw [hy]
    exact h.earlier
  halted := by
    show ∀ i c, y.coroutines[i]? = some c → _
    rw [hy]
    exact h.halted

/-- What a coroutine was submitted as and where it stands is not changed by a cancellation. -/
theorem Placed.cancelAll {x₀ x : AsyncExecutor} {script rest : List Submission} {d : Drain}
    (h : Placed launches x₀ script ⟨⟨x, d⟩, rest⟩) (is : List ℕ) (d' : Drain) :
    Placed launches x₀ script ⟨⟨x.cancelAll is, d'⟩, rest⟩ where
  log := by
    have hsame : (x.cancelAll is).coroutines.map Coroutine.submission
        = x.coroutines.map Coroutine.submission := by
      refine List.ext_getElem? fun i => ?_
      rw [List.getElem?_map, List.getElem?_map, AsyncExecutor.cancelAll_getElem?, Option.map_map]
      congr 1
      funext c
      simp only [Function.comp_apply]
      split_ifs <;> rfl
    show (x.cancelAll is).coroutines.map Coroutine.submission ++ rest = _
    rw [hsame]
    exact h.log
  earlier := by
    intro i hi
    obtain ⟨c, hc, hpc⟩ := h.earlier i hi
    have hget := AsyncExecutor.cancelAll_getElem? x is i
    rw [show x.coroutines[i]? = some c from hc, Option.map_some] at hget
    refine ⟨_, hget, ?_⟩
    split_ifs <;> exact hpc
  halted i c hc hnot := by
    obtain ⟨c₀, hc₀, hsubmission, hpc⟩ := AsyncExecutor.getElem?_of_cancelAll hc
    rw [hsubmission] at hnot
    rw [InFirstTurn, hpc]
    exact h.halted i c₀ hc₀ hnot

theorem Placed.submit {x₀ x : AsyncExecutor} {script rest : List Submission} {e : Submission}
    (h : Placed launches x₀ script ⟨⟨x, .idle⟩, e :: rest⟩)
    (hroom : x.inFlightCount < x.maxConcurrent) :
    Placed launches x₀ script ⟨⟨x.submit e, .idle⟩, rest⟩ := by
  rw [AsyncExecutor.submit_of_lt hroom]
  constructor
  case log =>
    have hlog : x.coroutines.map Coroutine.submission ++ e :: rest = _ := h.log
    simpa [Session.dispatched, Coroutine.start] using hlog
  case earlier =>
    intro i hi
    obtain ⟨c, hc, hpc⟩ := h.earlier i hi
    exact ⟨c, AsyncExecutor.getElem?_concat_eq_some.mpr (Or.inl hc), hpc⟩
  case halted =>
    intro i c hc hnot
    rcases AsyncExecutor.getElem?_concat_eq_some.mp hc with hc | ⟨-, rfl⟩
    · exact h.halted i c hc hnot
    · exact Or.inr (Or.inl rfl)

/-- A first turn ends at the launch, if that goes through, or with the coroutine. -/
theorem Placed.resume {x₀ x x' : AsyncExecutor} {script rest : List Submission} {d : Drain}
    {i : ℕ} {o : Outcome} (h : Placed launches x₀ script ⟨⟨x, d⟩, rest⟩)
    (hpermits : Permits launches ⟨⟨x, d⟩, rest⟩ (.resume i o)) (hres : x.resume i o = some x') :
    Placed launches x₀ script ⟨⟨x', d⟩, rest⟩ := by
  constructor
  case log =>
    show x'.coroutines.map Coroutine.submission ++ rest = _
    rw [dispatched_resume hres]
    exact h.log
  case earlier => exact fun j hj => (h.earlier j hj).resume hres
  case halted =>
    obtain ⟨c, turn, hc, -, hturn, rfl⟩ := AsyncExecutor.resume_some hres
    intro j d' hd' hnot
    replace hd' : (x.settle i c turn).coroutines[j]? = some d' := hd'
    rw [AsyncExecutor.settle_coroutines, List.getElem?_set] at hd'
    split_ifs at hd' with hij hi
    · cases hd'
      subst hij
      replace hnot : ¬ (Launches c.submission.command ∧ launches i = true) := hnot
      have hfailed := hpermits c hc
      rcases h.halted i c hc hnot with hpc | hpc | ⟨hpc, hlaunch⟩
      · exact absurd hpc (AsyncExecutor.runTask_unfinished hturn)
      · rw [hpc] at hturn
        cases o with
        | done =>
            cases hturn
            by_cases hcommand : Launches c.submission.command
            · refine Or.inr (Or.inr ⟨?_, by simpa [hcommand] using hnot⟩)
              simp only [if_pos hcommand, Coroutine.moveTo, Turn.pc]
            · left
              simp only [if_neg hcommand, Coroutine.moveTo, Turn.pc]
        | cancelled killed =>
            cases hturn
            exact Or.inl rfl
        | failed => cases hturn
        | timedOut killed => cases hturn
      · obtain rfl := hfailed hpc hlaunch
        rw [hpc] at hturn
        cases hturn
        exact Or.inl rfl
    · exact h.halted j d' hd' hnot

theorem Placed.step {cap : ℕ} {x₀ : AsyncExecutor} {script : List Submission} {s s' : Session}
    {a : Event} (h : Placed launches x₀ script s) (haccounted : Accounted cap script s)
    (hpermits : Permits launches s a) (hstep : System.Step s.system a s'.system)
    (hrest : s'.script = s.rest a) : Placed launches x₀ script s' := by
  obtain ⟨⟨x, d⟩, rest⟩ := s
  obtain ⟨t, rest'⟩ := s'
  obtain rfl : rest' = Session.rest ⟨⟨x, d⟩, rest⟩ a := hrest
  replace hstep : System.Step ⟨x, d⟩ a t := hstep
  cases hstep with
  | @submit _ _ e _ =>
      obtain ⟨⟨rfl, hhead⟩, -⟩ := hpermits
      obtain ⟨tail, rfl⟩ : ∃ tail, rest = e :: tail := List.head?_eq_some_iff.mp hhead
      exact h.submit haccounted.1.submit.1
  | resume _ hres => exact h.resume hpermits hres
  | drain => exact h.congr rfl
  | enter hd =>
      have hpending : x.pending = [] := by
        rcases hd with rfl | rfl <;> exact haccounted.1.books.pending
      unfold System.waitAll
      split_ifs
      · rw [gathered_eq hpending]
        exact h.congr rfl
      · exact h.congr rfl
  | gathered =>
      rw [gathered_eq haccounted.1.books.pending]
      exact h.congr rfl
  | finalize => exact h.congr rfl
  | @interrupt _ waiting =>
      have hcancelled := h.cancelAll x.live (.expiring waiting)
      unfold System.interrupt
      split_ifs <;> exact hcancelled.congr rfl
  | reap => exact h.congr rfl
  | abort => exact h.congr rfl
  | deadline => exact h.cancelAll _ _
  | cancel => exact h.cancelAll _ _
  | giveUp => exact h.congr rfl

/-- What comes next has an id that nothing is running under. -/
theorem Placed.fresh {x₀ x : AsyncExecutor} {script rest : List Submission} {d : Drain}
    {e : Submission} (h : Placed launches x₀ script ⟨⟨x, d⟩, e :: rest⟩)
    (hslept : Slept launches x) (hids : NoneReplaced launches x₀.coroutines.length script) :
    ∀ i c, x.Running i c → c.submission.taskId ≠ e.taskId := by
  intro i c hrunning
  obtain ⟨hc, hpc⟩ := hrunning
  have hstarts : Starts launches i c.submission := by
    by_contra hnot
    rcases h.halted i c hc hnot with hfinished | hfirst
    · exact hpc hfinished
    · exact slept_iff.mp hslept i c hc hfirst
  have hlater : x₀.coroutines.length ≤ i := by
    by_contra hlt
    obtain ⟨c', hc', hdone⟩ := h.earlier i (Nat.not_le.mp hlt)
    cases hc.symm.trans hc'
    exact hpc hdone
  -- both places, in the log and in the script
  have hi : i < x.coroutines.length := (List.getElem?_eq_some_iff.mp hc).1
  have hlog : x.coroutines.map Coroutine.submission ++ e :: rest
      = x₀.coroutines.map Coroutine.submission ++ script := h.log
  have hget : ∀ k, x₀.coroutines.length ≤ k →
      script[k - x₀.coroutines.length]?
        = (x.coroutines.map Coroutine.submission ++ e :: rest)[k]? := by
    intro k hk
    rw [hlog, List.getElem?_append_right (by simpa using hk), List.length_map]
  refine noneReplaced_iff.mp hids (i - x₀.coroutines.length)
    (x.coroutines.length - x₀.coroutines.length) c.submission e (by omega) ?_ ?_ ?_
  · rw [hget i hlater, List.getElem?_append_left (by simpa using hi), List.getElem?_map, hc,
      Option.map_some]
  · rw [hget _ (by omega), List.getElem?_append_right (by simp)]
    simp
  · rwa [Nat.add_sub_cancel' hlater]

theorem Accounted.step {cap : ℕ} {x₀ : AsyncExecutor} {script : List Submission} {s s' : Session}
    {a : Event} (hids : NoneReplaced launches x₀.coroutines.length script)
    (h : Accounted cap script s) (hplaced : Placed launches x₀ script s)
    (hpermits : Permits launches s a) (hstep : System.Step s.system a s'.system)
    (hrest : s'.script = s.rest a) : Accounted cap script s' := by
  obtain ⟨⟨x, d⟩, rest⟩ := s
  obtain ⟨t, rest'⟩ := s'
  obtain rfl : rest' = Session.rest ⟨⟨x, d⟩, rest⟩ a := hrest
  replace hstep : System.Step ⟨x, d⟩ a t := hstep
  cases hstep with
  | @submit _ _ e _ =>
      obtain ⟨⟨rfl, hhead⟩, hslept⟩ := hpermits
      obtain ⟨tail, rfl⟩ : ∃ tail, rest = e :: tail := List.head?_eq_some_iff.mp hhead
      obtain ⟨hunderway, hlisted⟩ := h
      obtain ⟨hroom, hunderway'⟩ := hunderway.submit
      exact ⟨hunderway', hlisted.submit hroom (hplaced.fresh hslept hids)⟩
  | resume _ hres => exact h.resume hres
  | drain =>
      obtain ⟨⟨rfl, rfl⟩, -⟩ := hpermits
      exact ⟨h.1.drain, h.2⟩
  | enter hd =>
      have hparts : Underway cap script ⟨⟨x, d⟩, rest⟩ ∧ x.Listed := by
        rcases hd with rfl | rfl <;> exact h
      have hidle : d ≠ .idle := by
        rcases hd with rfl | rfl <;> nofun
      unfold System.waitAll
      split_ifs with hlive
      · exact accounted_gathered hparts.1 hparts.2 hidle
      · exact ⟨hparts.1.frame ⟨rfl, rfl, rfl⟩ hparts.1.books (iff_of_false nofun hidle), hparts.2⟩
  | gathered => exact accounted_gathered h.1 h.2 nofun
  | finalize => exact ⟨ledger_iff h.1 nofun h.2.2, h.2.1⟩
  | interrupt => exact accounted_interrupt h.1 h.2
  | reap hdone =>
      obtain ⟨hunderway, -, hwaiting, hrecorded⟩ := h
      exact ⟨ledger_iff hunderway nofun hrecorded, AsyncExecutor.finished_of_done hdone hwaiting⟩
  | abort => trivial
  | @deadline _ _ waiting hd =>
      have hparts : Underway cap script ⟨⟨x, d⟩, rest⟩ ∧ x.Listed := by
        cases d with
        | scheduled => exact h
        | gathering => exact h
        | _ => cases hd
      have hidle : d ≠ .idle := by
        intro heq
        subst heq
        cases hd
      exact ⟨hparts.1.frame (.cancelAll x waiting) (hparts.1.books.cancelAll waiting)
        (iff_of_false nofun hidle), hparts.2.cancelAll waiting⟩
  | @cancel _ _ waiting hd =>
      have hparts : Underway cap script ⟨⟨x, d⟩, rest⟩ ∧ x.Listed := by
        cases d with
        | scheduled => exact h
        | gathering => exact h
        | interrupting => exact ⟨h.1, h.2.1⟩
        | _ => rcases hd with hd | hd <;> cases hd
      have hidle : d ≠ .idle := by
        intro heq
        subst heq
        rcases hd with hd | hd <;> cases hd
      exact ⟨hparts.1.frame (.cancelAll x waiting) (hparts.1.books.cancelAll waiting)
        (iff_of_false nofun hidle), hparts.2.cancelAll waiting⟩
  | giveUp => trivial

/-- In every state of a wave that replaces nothing the books are in order. -/
theorem accounted_of_reachable {x : AsyncExecutor} (hx : x.AtRest) {script : List Submission}
    (hlen : script.length ≤ x.maxConcurrent)
    (hids : NoneReplaced launches x.coroutines.length script) {s : Session}
    (hs : (wave launches x script).Reachable s) :
    Accounted x.maxConcurrent script s ∧ Placed launches x script s := by
  refine Lts.Reachable.invariant
    (I := fun s => Accounted x.maxConcurrent script s ∧ Placed launches x script s) ?_ ?_ hs
  · intro s hs
    obtain rfl : s = _ := hs
    exact ⟨⟨Underway.start hx hlen, hx.listed⟩, .start hx script⟩
  · intro s a s' _ hboth hnext
    obtain ⟨haccounted, hplaced⟩ := hboth
    obtain ⟨hpermits, hstep, hrest⟩ := step_of_next hnext
    exact ⟨haccounted.step hids hplaced hpermits hstep hrest,
      hplaced.step haccounted hpermits hstep hrest⟩

theorem accountsFor_of_noneReplaced {x : AsyncExecutor} (hx : x.AtRest)
    {script : List Submission} (hlen : script.length ≤ x.maxConcurrent)
    (hids : NoneReplaced launches x.coroutines.length script) : AccountsFor launches x script := by
  intro s hs status ledger hreturned
  obtain ⟨haccounted, -⟩ := accounted_of_reachable hx hlen hids hs
  rw [Accounted, hreturned] at haccounted
  exact haccounted

/-! ### A wave in which a started process is replaced -/

/-- A turn, in a wave. -/
theorem next_resume (launches : ℕ → Bool) {x : AsyncExecutor} {d : Drain}
    (rest : List Submission) {i : ℕ} {o : Outcome} {c : Coroutine} {turn : Turn} (hd : d ≠ .head)
    (hc : x.coroutines[i]? = some c) (hadmits : c.Admits o)
    (hturn : runTask c.submission.command c.pc o = some turn)
    (hlaunch : c.pc = .spawning → launches i = false → o = .failed) :
    x.resume i o = some (x.settle i c turn) ∧
      next launches ⟨⟨x, d⟩, rest⟩ (.resume i o) = some ⟨⟨x.settle i c turn, d⟩, rest⟩ := by
  have hres : x.resume i o = some (x.settle i c turn) := by
    simp only [AsyncExecutor.resume, hc, if_pos hadmits, hturn, Option.map_some]
  have hpermits : Permits launches ⟨⟨x, d⟩, rest⟩ (.resume i o) := by
    intro c' hc'
    cases hc.symm.trans hc'
    exact hlaunch
  refine ⟨hres, ?_⟩
  rw [next, if_pos hpermits]
  simp [System.next, hd, hres, Session.rest]

/-- Everything submitted since coroutine `n` has had its first turn, and no other. -/
structure Launched (launches : ℕ → Bool) (n : ℕ) (x : AsyncExecutor) : Prop where
  slept : Slept launches x
  started : ∀ i c, n ≤ i → x.coroutines[i]? = some c → Starts launches i c.submission →
    c.pc = .spawning
  /-- `_tasks` lists, under each id, the coroutine that was dispatched last. -/
  latest : ∀ id i, x.tasks.lookup id = some i →
    (∃ c, x.coroutines[i]? = some c ∧ c.submission.taskId = id ∧ c.pc = .spawning ∧
      launches i = true) ∧
    ∀ (j : ℕ) (d : Coroutine), i < j → x.coroutines[j]? = some d → d.submission.taskId ≠ id
  recorded : ∀ id ∈ x.submitted, id ∈ x.results ∨ ∃ i, x.tasks.lookup id = some i

theorem Launched.start {x : AsyncExecutor} (hx : x.AtRest) :
    Launched launches x.coroutines.length x where
  slept := by
    rw [slept_iff]
    intro i c hc hfirst
    have hpc := hx.finished c (List.mem_of_getElem? hc)
    rcases hfirst with hcreated | ⟨hspawning, -⟩
    · rw [hcreated] at hpc
      cases hpc
    · rw [hspawning] at hpc
      cases hpc
  started i c hi hc := by
    have hlt := (List.getElem?_eq_some_iff.mp hc).1
    omega
  latest id i hlookup := by
    have hmem : id ∈ x.tasks := AList.lookup_isSome.mp (by rw [hlookup]; rfl)
    rw [AList.mem_keys, AList.keys, hx.tasks] at hmem
    cases hmem
  recorded id hid := by
    rw [hx.submitted] at hid
    cases hid

/-- `z` is `y` after a submission of `e` has had its first turn, and stands at `pc`. -/
structure Extends (y z : AsyncExecutor) (e : Submission) (pc : Pc) : Prop where
  coroutines : ∃ c, z.coroutines = y.coroutines ++ [c] ∧ c.submission = e ∧ c.pc = pc
  submitted : z.submitted = y.submitted.insert e.taskId

theorem Extends.getElem? {y z : AsyncExecutor} {e : Submission} {pc : Pc} (h : Extends y z e pc)
    {i : ℕ} {d : Coroutine} (hd : z.coroutines[i]? = some d) :
    y.coroutines[i]? = some d ∨ i = y.coroutines.length ∧ d.submission = e ∧ d.pc = pc := by
  obtain ⟨c, hcoroutines, hsubmission, hpc⟩ := h.coroutines
  rw [hcoroutines] at hd
  rcases AsyncExecutor.getElem?_concat_eq_some.mp hd with hold | ⟨hi, rfl⟩
  · exact Or.inl hold
  · exact Or.inr ⟨hi, hsubmission, hpc⟩

theorem Extends.mono {y z : AsyncExecutor} {e : Submission} {pc : Pc} (h : Extends y z e pc)
    {i : ℕ} {d : Coroutine} (hd : y.coroutines[i]? = some d) : z.coroutines[i]? = some d := by
  obtain ⟨c, hcoroutines, -⟩ := h.coroutines
  rw [hcoroutines]
  exact AsyncExecutor.getElem?_concat_eq_some.mpr (Or.inl hd)

theorem Extends.submissions {y z : AsyncExecutor} {e : Submission} {pc : Pc}
    (h : Extends y z e pc) :
    z.coroutines.map Coroutine.submission = y.coroutines.map Coroutine.submission ++ [e] := by
  obtain ⟨c, hcoroutines, rfl, -⟩ := h.coroutines
  rw [hcoroutines, List.map_append, List.map_singleton]

/-- A submission that has not had a turn yet. -/
theorem Extends.submit {y : AsyncExecutor} (hroom : y.inFlightCount < y.maxConcurrent)
    (e : Submission) : Extends y (y.submit e) e .created := by
  rw [AsyncExecutor.submit_of_lt hroom]
  exact ⟨⟨_, rfl, rfl, rfl⟩, rfl⟩

/-- And one after a turn. -/
theorem Extends.settle {y z : AsyncExecutor} {e : Submission} {pc : Pc} (h : Extends y z e pc)
    {c : Coroutine} (hc : z.coroutines[y.coroutines.length]? = some c) (turn : Turn) :
    Extends y (z.settle y.coroutines.length c turn) e turn.pc := by
  obtain ⟨c', hcoroutines, rfl, -⟩ := h.coroutines
  obtain rfl : c' = c := by
    rw [hcoroutines, List.getElem?_concat_length] at hc
    exact Option.some.inj hc
  refine ⟨⟨c'.moveTo turn.pc, ?_, rfl, rfl⟩, ?_⟩
  · rw [AsyncExecutor.settle_coroutines, hcoroutines, List.set_append_right _ _ le_rfl,
      Nat.sub_self, List.set_cons_zero]
  · rw [AsyncExecutor.settle_submitted, h.submitted]

/-- Where the new one has had its first turn, all have. -/
theorem Extends.slept {y z : AsyncExecutor} {e : Submission} {pc : Pc} (h : Extends y z e pc)
    (hslept : Slept launches y)
    (hpc : pc ≠ .created ∧ (pc = .spawning → launches y.coroutines.length = true)) :
    Slept launches z := by
  rw [slept_iff] at hslept ⊢
  intro i c hc hfirst
  rcases h.getElem? hc with hold | ⟨rfl, -, rfl⟩
  · exact hslept i c hold hfirst
  · rcases hfirst with hcreated | ⟨hspawning, hlaunch⟩
    · exact hpc.1 hcreated
    · rw [hpc.2 hspawning] at hlaunch
      cases hlaunch

/-- The other ids are listed as they were. -/
theorem Launched.latest_other {n : ℕ} {y z : AsyncExecutor} {e : Submission} {pc : Pc}
    (h : Launched launches n y) (hz : Extends y z e pc) {id : String} (hid : id ≠ e.taskId)
    {i : ℕ} (hlookup : y.tasks.lookup id = some i) :
    (∃ c, z.coroutines[i]? = some c ∧ c.submission.taskId = id ∧ c.pc = .spawning ∧
      launches i = true) ∧
    ∀ (j : ℕ) (d : Coroutine), i < j → z.coroutines[j]? = some d → d.submission.taskId ≠ id := by
  obtain ⟨⟨c, hc, hpc⟩, hlater⟩ := h.latest id i hlookup
  refine ⟨⟨c, hz.mono hc, hpc⟩, ?_⟩
  intro j d hij hd
  rcases hz.getElem? hd with hold | ⟨-, rfl, -⟩
  · exact hlater j d hij hold
  · exact fun heq => hid heq.symm

/-- One whose process is started is listed under its id, and no earlier one is. -/
theorem Launched.started_one {n : ℕ} {y z : AsyncExecutor} {e : Submission}
    (h : Launched launches n y) (hz : Extends y z e .spawning)
    (hstarts : Starts launches y.coroutines.length e)
    (htasks : z.tasks = y.tasks.insert e.taskId y.coroutines.length)
    (hresults : z.results = y.results) : Launched launches n z := by
  constructor
  case slept => exact hz.slept h.slept ⟨by simp, fun _ => hstarts.2⟩
  case started =>
    intro i c hi hc hs
    rcases hz.getElem? hc with hold | ⟨-, -, hpc⟩
    · exact h.started i c hi hold hs
    · exact hpc
  case latest =>
    intro id i hlookup
    rw [htasks] at hlookup
    by_cases hid : id = e.taskId
    · rw [hid, AList.lookup_insert, Option.some.injEq] at hlookup
      subst hlookup
      refine ⟨?_, ?_⟩
      · obtain ⟨c, hcoroutines, rfl, hpc⟩ := hz.coroutines
        refine ⟨c, ?_, hid.symm, hpc, hstarts.2⟩
        rw [hcoroutines]
        exact AsyncExecutor.getElem?_concat_eq_some.mpr (Or.inr ⟨rfl, rfl⟩)
      · intro j d hij hd
        rcases hz.getElem? hd with hold | ⟨rfl, -⟩
        · have hlt := (List.getElem?_eq_some_iff.mp hold).1
          omega
        · exact absurd hij (Nat.lt_irrefl _)
    · rw [AList.lookup_insert_ne hid] at hlookup
      exact h.latest_other hz hid hlookup
  case recorded =>
    intro id hid
    rw [hz.submitted, List.mem_insert_iff] at hid
    rw [hresults, htasks]
    by_cases hsame : id = e.taskId
    · rw [hsame]
      exact Or.inr ⟨_, AList.lookup_insert _⟩
    · rw [AList.lookup_insert_ne hsame]
      exact h.recorded id (hid.resolve_left hsame)

/-- One without a process is over, recorded and off the books. -/
theorem Launched.ended_one {n : ℕ} {y z : AsyncExecutor} {e : Submission}
    (h : Launched launches n y) (hz : Extends y z e .finished)
    (hstarts : ¬ Starts launches y.coroutines.length e)
    (htasks : z.tasks = (y.tasks.insert e.taskId y.coroutines.length).erase e.taskId)
    (hresults : z.results = y.results.insert e.taskId .drained) : Launched launches n z := by
  have hlookup : ∀ id, id ≠ e.taskId → z.tasks.lookup id = y.tasks.lookup id := by
    intro id hid
    rw [htasks, AList.lookup_erase_ne hid, AList.lookup_insert_ne hid]
  constructor
  case slept => exact hz.slept h.slept ⟨by simp, by simp⟩
  case started =>
    intro i c hi hc hs
    rcases hz.getElem? hc with hold | ⟨rfl, rfl, -⟩
    · exact h.started i c hi hold hs
    · exact absurd hs hstarts
  case latest =>
    intro id i hmem
    by_cases hid : id = e.taskId
    · rw [hid, htasks, AList.lookup_erase] at hmem
      cases hmem
    · rw [hlookup id hid] at hmem
      exact h.latest_other hz hid hmem
  case recorded =>
    intro id hid
    rw [hz.submitted, List.mem_insert_iff] at hid
    rw [hresults, AList.mem_insert]
    by_cases hsame : id = e.taskId
    · exact Or.inl (Or.inl hsame)
    · rw [hlookup id hsame, or_assoc]
      exact Or.inr (h.recorded id (hid.resolve_left hsame))

/-- A submission and its first turn. -/
theorem launch_one {x : AsyncExecutor} {script : List Submission} {cap n : ℕ} {y : AsyncExecutor}
    {e : Submission} {rest : List Submission}
    (hreach : (wave launches x script).Reachable ⟨⟨y, .idle⟩, e :: rest⟩)
    (hunderway : Underway cap script ⟨⟨y, .idle⟩, e :: rest⟩) (h : Launched launches n y) :
    ∃ z, (wave launches x script).Reachable ⟨⟨z, .idle⟩, rest⟩ ∧
      Underway cap script ⟨⟨z, .idle⟩, rest⟩ ∧ Launched launches n z ∧
      z.coroutines.map Coroutine.submission = y.coroutines.map Coroutine.submission ++ [e] := by
  obtain ⟨hroom, hunderway'⟩ := hunderway.submit
  have hsubmit : next launches ⟨⟨y, .idle⟩, e :: rest⟩ (.submit e)
      = some ⟨⟨y.submit e, .idle⟩, rest⟩ := if_pos ⟨⟨rfl, rfl⟩, h.slept⟩
  replace hreach := hreach.step hsubmit
  have htasks : (y.submit e).tasks = y.tasks.insert e.taskId y.coroutines.length := by
    rw [AsyncExecutor.submit_of_lt hroom]
  have hresults : (y.submit e).results = y.results := by
    rw [AsyncExecutor.submit_of_lt hroom]
  have hrecorded : (y.submit e).results.insert e.taskId Status.drained
      = y.results.insert e.taskId .drained := by rw [hresults]
  have hpopped : (y.submit e).tasks.erase e.taskId
      = (y.tasks.insert e.taskId y.coroutines.length).erase e.taskId := by rw [htasks]
  have hnew : Extends y (y.submit e) e .created := .submit hroom e
  have hc : (y.submit e).coroutines[y.coroutines.length]? = some (Coroutine.start e) := by
    rw [AsyncExecutor.submit_of_lt hroom, List.getElem?_concat_length]
  have hidle : Drain.idle ≠ .head := by decide
  have hcreated : (Coroutine.start e).pc ≠ .spawning := by simp [Coroutine.start]
  have hadmits : (Coroutine.start e).Admits .done := Or.inl (by simp [Coroutine.start])
  have hturned : ∀ {x' z : AsyncExecutor} {i : ℕ} {o : Outcome},
      Underway cap script ⟨⟨x', .idle⟩, rest⟩ → x'.resume i o = some z →
        Underway cap script ⟨⟨z, .idle⟩, rest⟩ := fun hunder hres =>
    hunder.frame (.resume hres) (hunder.books.resume hres) Iff.rfl
  by_cases hcommand : Launches e.command
  · -- the first turn comes to the launch
    have hturn : runTask e.command .created .done = some (.goto .spawning) := by
      simp only [runTask, if_pos hcommand]
    obtain ⟨hres, hstep⟩ := next_resume launches rest hidle hc hadmits hturn
      fun hpc => absurd hpc hcreated
    have hspawning := hnew.settle hc (.goto .spawning)
    have hunder := hturned hunderway' hres
    cases hlaunch : launches y.coroutines.length with
    | true =>
        exact ⟨_, hreach.step hstep, hunder,
          h.started_one hspawning ⟨hcommand, hlaunch⟩ htasks hresults, hspawning.submissions⟩
    | false =>
        -- which fails, and the coroutine is over in the same turn
        have hc' := AsyncExecutor.settle_getElem?_self hc (.goto .spawning)
        have hfails : ((Coroutine.start e).moveTo .spawning).Admits .failed :=
          Or.inl (by simp [Coroutine.moveTo])
        have hturn' : runTask e.command .spawning .failed = some (.finish (some .drained)) := rfl
        obtain ⟨hres', hstep'⟩ := next_resume launches rest hidle hc' hfails hturn'
          fun _ _ => rfl
        have hends := hspawning.settle hc' (.finish (some .drained))
        have hstarts : ¬ Starts launches y.coroutines.length e := by
          intro hstarts
          rw [hstarts.2] at hlaunch
          cases hlaunch
        exact ⟨_, (hreach.step hstep).step hstep', hturned hunder hres',
          h.ended_one hends hstarts hpopped hrecorded, hends.submissions⟩
  · have hturn : runTask e.command .created .done = some (.finish (some .drained)) := by
      simp only [runTask, if_neg hcommand]
    obtain ⟨hres, hstep⟩ := next_resume launches rest hidle hc hadmits hturn
      fun hpc => absurd hpc hcreated
    have hends := hnew.settle hc (.finish (some .drained))
    exact ⟨_, hreach.step hstep, hturned hunderway' hres,
      h.ended_one hends (fun hstarts => hcommand hstarts.1) hpopped hrecorded, hends.submissions⟩

/-- Everything is submitted, and nothing has had a second turn. -/
theorem launch_all {x : AsyncExecutor} {script : List Submission} {cap n : ℕ}
    (rest : List Submission) : ∀ y : AsyncExecutor,
      (wave launches x script).Reachable ⟨⟨y, .idle⟩, rest⟩ →
      Underway cap script ⟨⟨y, .idle⟩, rest⟩ → Launched launches n y →
      ∃ z, (wave launches x script).Reachable ⟨⟨z, .idle⟩, []⟩ ∧
        Underway cap script ⟨⟨z, .idle⟩, []⟩ ∧ Launched launches n z ∧
        z.coroutines.map Coroutine.submission = y.coroutines.map Coroutine.submission ++ rest := by
  induction rest with
  | nil =>
      intro y hreach hunderway h
      exact ⟨y, hreach, hunderway, h, (List.append_nil _).symm⟩
  | cons e rest ih =>
      intro y hreach hunderway h
      obtain ⟨y', hreach', hunderway', h', hlog'⟩ := launch_one hreach hunderway h
      obtain ⟨z, hz, hzunderway, hlaunched, hlog⟩ := ih y' hreach' hunderway' h'
      refine ⟨z, hz, hzunderway, hlaunched, ?_⟩
      rw [hlog, hlog', List.append_assoc, List.singleton_append]

/-- A coroutine whose id was submitted again is not listed. -/
theorem Launched.not_mem_live {n : ℕ} {x : AsyncExecutor} (h : Launched launches n x) {i j : ℕ}
    {c d : Coroutine} (hij : i < j) (hc : x.coroutines[i]? = some c)
    (hd : x.coroutines[j]? = some d) (hids : c.submission.taskId = d.submission.taskId) :
    i ∉ x.live := by
  intro hlive
  obtain ⟨id, hlookup⟩ := AsyncExecutor.mem_live.mp hlive
  obtain ⟨⟨c', hc', hid, -⟩, hlater⟩ := h.latest id i hlookup
  cases hc.symm.trans hc'
  exact hlater j d hij hd (hids.symm.trans hid)

/-- The deadline has passed: coroutine `j` is none of those the drain waits for, and those have
no turn left but their cancellation. -/
structure Reaping (launches : ℕ → Bool) (j : ℕ) (waiting : List ℕ) (s : Session) : Prop where
  drain : s.system.drain = .expiring waiting
  replaced : ∃ c, s.system.executor.Running j c
  not_mem : j ∉ waiting
  live : ∀ i ∈ s.system.executor.live, i ∈ waiting
  waiting : ∀ i ∈ waiting, ∃ c, s.system.executor.coroutines[i]? = some c ∧
    (c.pc = .finished ∨ c.pc = .spawning ∧ launches i = true ∧ c.cancelRequested = true)

/-- The coroutines that were cancelled end one by one. -/
theorem Reaping.progress {x : AsyncExecutor} {j : ℕ} {waiting : List ℕ} {s : Session}
    (h : Reaping launches j waiting s) (script : List Submission)
    (hbusy : ¬ ∀ i ∈ waiting, s.system.executor.Done i) :
    ∃ a s', (wave launches x script).step s a s' ∧ Reaping launches j waiting s' ∧
      (s'.system.executor.coroutines.map fun c => c.pc.turnsLeft).sum
        < (s.system.executor.coroutines.map fun c => c.pc.turnsLeft).sum := by
  obtain ⟨⟨y, d⟩, rest⟩ := s
  obtain ⟨hd, ⟨cj, hcj⟩, hj, hlive, hwaiting⟩ := h
  obtain rfl : d = .expiring waiting := hd
  simp only [not_forall] at hbusy
  obtain ⟨i, hi, hnot⟩ := hbusy
  obtain ⟨c, hc, hpc | ⟨hpc, hlaunch, hflag⟩⟩ := hwaiting i hi
  · exact absurd ⟨c, hc, hpc⟩ hnot
  have hturn : runTask c.submission.command c.pc (.cancelled false) = some (.finish none) := by
    rw [hpc]
    rfl
  obtain ⟨hres, hnext⟩ := next_resume launches rest
    (d := .expiring waiting) (o := .cancelled false) nofun hc hflag hturn
    fun _ hno => by rw [hlaunch] at hno; cases hno
  refine ⟨_, _, hnext, ?_, AsyncExecutor.turnsLeft_resume hres⟩
  have hget : ∀ k, (y.settle i c (.finish none)).coroutines[k]?
      = if i = k then some (c.moveTo .finished) else y.coroutines[k]? := by
    intro k
    rw [AsyncExecutor.settle_coroutines, List.getElem?_set]
    split_ifs with hik hlt
    · rfl
    · exact absurd (List.getElem?_eq_some_iff.mp hc).1 hlt
    · rfl
  constructor
  case drain => rfl
  case replaced =>
    have hij : i ≠ j := fun hij => hj (hij ▸ hi)
    exact ⟨cj, by rw [hget, if_neg hij]; exact hcj.1, hcj.2⟩
  case not_mem => exact hj
  case live =>
    intro k hk
    obtain ⟨id, hlookup⟩ := AsyncExecutor.mem_live.mp hk
    refine hlive k (AsyncExecutor.mem_live.mpr ⟨id, ?_⟩)
    replace hlookup : (y.tasks.erase c.submission.taskId).lookup id = some k := hlookup
    by_cases hid : id = c.submission.taskId
    · rw [hid, AList.lookup_erase] at hlookup
      cases hlookup
    · rwa [AList.lookup_erase_ne hid] at hlookup
  case waiting =>
    intro k hk
    rw [hget]
    split_ifs with hik
    · exact ⟨_, rfl, Or.inl rfl⟩
    · exact hwaiting k hk

/-- A drain whose deadline has passed comes back with the replaced coroutine running. -/
theorem Reaping.returns {x z : AsyncExecutor} {script rest : List Submission} {j : ℕ}
    {waiting : List ℕ} (h : Reaping launches j waiting ⟨⟨z, .expiring waiting⟩, rest⟩)
    (hreach : (wave launches x script).Reachable ⟨⟨z, .expiring waiting⟩, rest⟩)
    (hdone : ∀ i ∈ waiting, z.Done i) :
    ∃ s, (wave launches x script).Reachable s ∧ ∃ status ledger,
      s.system.drain = .returned status ledger ∧ ¬ s.system.executor.Finished := by
  obtain ⟨c, hrunning⟩ := h.replaced
  have hwake : next launches ⟨⟨z, .expiring waiting⟩, rest⟩ .wake
      = some ⟨System.interrupt z, rest⟩ := by
    have hwakes : System.next ⟨z, .expiring waiting⟩ .wake = some (System.interrupt z) :=
      if_pos hdone
    have hpermits : Permits launches ⟨⟨z, .expiring waiting⟩, rest⟩ .wake := trivial
    rw [next, if_pos hpermits, hwakes]
    rfl
  have hinterrupted := hreach.step hwake
  -- nobody cancels it
  have hstill : z.cancelAndSeed.Running j c := by
    refine ⟨?_, hrunning.2⟩
    show (z.cancelAll z.live).coroutines[j]? = some c
    rw [AsyncExecutor.cancelAll_getElem?, hrunning.1, Option.map_some,
      if_neg fun hlive => h.not_mem (h.live j hlive)]
  by_cases hlive : z.live = []
  · rw [System.interrupt, if_pos hlive] at hinterrupted
    exact ⟨_, hinterrupted, _, _, rfl, fun hfinished => hfinished.not_running j c hstill⟩
  rw [System.interrupt, if_neg hlive] at hinterrupted
  have hended : ∀ i ∈ z.live, z.cancelAndSeed.Done i := by
    intro i hi
    obtain ⟨d, hd, hpc⟩ := hdone i (h.live i hi)
    refine ⟨d.cancel, ?_, hpc⟩
    show (z.cancelAll z.live).coroutines[i]? = _
    rw [AsyncExecutor.cancelAll_getElem?, hd, Option.map_some, if_pos hi]
  have hreturn : next launches ⟨⟨z.cancelAndSeed, .interrupting z.live⟩, rest⟩ .wake
      = some ⟨System.finalize z.cancelAndSeed .interrupted, rest⟩ := by
    have hwakes : System.next ⟨z.cancelAndSeed, .interrupting z.live⟩ .wake
        = some (System.finalize z.cancelAndSeed .interrupted) := if_pos hended
    have hpermits : Permits launches ⟨⟨z.cancelAndSeed, .interrupting z.live⟩, rest⟩ .wake :=
      trivial
    rw [next, if_pos hpermits, hwakes]
    rfl
  exact ⟨_, hinterrupted.step hreturn, _, _, rfl,
    fun hfinished => hfinished.not_running j c hstill⟩

/-- Whether the deadline has to pass first or not, the drain comes back with the replaced
coroutine running. -/
theorem returns_running {x y : AsyncExecutor} {script : List Submission} {cap n i : ℕ}
    {c : Coroutine} (hreach : (wave launches x script).Reachable ⟨⟨y, .idle⟩, []⟩)
    (hunderway : Underway cap script ⟨⟨y, .idle⟩, []⟩) (h : Launched launches n y)
    (hrunning : y.Running i c) (hi : i ∉ y.live) :
    ∃ s, (wave launches x script).Reachable s ∧ ∃ status ledger,
      s.system.drain = .returned status ledger ∧ ¬ s.system.executor.Finished := by
  have hdrain : next launches ⟨⟨y, .idle⟩, []⟩ .drain = some ⟨⟨y, .scheduled⟩, []⟩ :=
    if_pos ⟨⟨rfl, rfl⟩, h.slept⟩
  have hloop : next launches ⟨⟨y, .scheduled⟩, []⟩ .loop = some ⟨System.waitAll y, []⟩ :=
    if_pos trivial
  have hlooped := (hreach.step hdrain).step hloop
  by_cases hlive : y.live = []
  · -- everything is recorded, and the drain is content
    have hsettled : y.Settled := by
      refine ⟨AsyncExecutor.live_eq_nil.mp hlive, hunderway.books.pending, ?_⟩
      intro id hid
      refine (h.recorded id hid).resolve_right fun hlookup => ?_
      obtain ⟨k, hk⟩ := hlookup
      have hmem := AsyncExecutor.mem_live.mpr ⟨id, hk⟩
      rw [hlive] at hmem
      cases hmem
    rw [System.waitAll, if_pos hlive, gathered_eq hunderway.books.pending, if_pos hsettled]
      at hlooped
    have hwake : next launches ⟨⟨y, .awaited⟩, []⟩ .wake = some ⟨System.finalize y .drained, []⟩ :=
      if_pos trivial
    exact ⟨_, hlooped.step hwake, _, _, rfl,
      fun hfinished => AsyncExecutor.Finished.not_running hfinished i c hrunning⟩
  · rw [System.waitAll, if_neg hlive] at hlooped
    have hdeadline : next launches ⟨⟨y, .gathering y.live⟩, []⟩ .deadline
        = some ⟨⟨y.cancelAll y.live, .expiring y.live⟩, []⟩ := if_pos trivial
    have hexpired := hlooped.step hdeadline
    have hreaping : Reaping launches i y.live ⟨⟨y.cancelAll y.live, .expiring y.live⟩, []⟩ := by
      constructor
      case drain => rfl
      case replaced =>
        refine ⟨c, ?_, hrunning.2⟩
        show (y.cancelAll y.live).coroutines[i]? = some c
        rw [AsyncExecutor.cancelAll_getElem?, hrunning.1, Option.map_some, if_neg hi]
      case not_mem => exact hi
      case live => exact fun k hk => hk
      case waiting =>
        intro k hk
        obtain ⟨id, hlookup⟩ := AsyncExecutor.mem_live.mp hk
        obtain ⟨⟨d, hd, -, hpc, hlaunch⟩, -⟩ := h.latest id k hlookup
        refine ⟨d.cancel, ?_, Or.inr ⟨hpc, hlaunch, by simp [Coroutine.cancel, hpc]⟩⟩
        show (y.cancelAll y.live).coroutines[k]? = _
        rw [AsyncExecutor.cancelAll_getElem?, hd, Option.map_some, if_pos hk]
    have hprogress := fun (s : Session) (hs : Reaping launches i y.live s)
      (hbusy : ¬ ∀ k ∈ y.live, s.system.executor.Done k) => hs.progress (x := x) script hbusy
    obtain ⟨⟨⟨z, d⟩, rest⟩, hmoves, hend, hdone⟩ := Lts.moves_to_goal _ hprogress hreaping
    obtain rfl : d = .expiring y.live := hend.drain
    exact hend.returns (hexpired.moves hmoves) hdone

/-- An id that is submitted again can leave its first process running. -/
theorem not_accountsFor_of_replaced {x : AsyncExecutor} (hx : x.AtRest) {script : List Submission}
    (hlen : script.length ≤ x.maxConcurrent)
    (hids : ¬ NoneReplaced launches x.coroutines.length script) :
    ¬ AccountsFor launches x script := by
  intro h
  obtain ⟨y, hreach, hunderway, hlaunched, hlog⟩ :=
    launch_all script x (.init rfl) (Underway.start hx hlen) (Launched.start hx)
  -- the two places of the script
  simp only [noneReplaced_iff, not_forall, Classical.not_not] at hids
  obtain ⟨i, j, e, f, hij, he, hf, hstarts, heq⟩ := hids
  have hget : ∀ k g, script[k]? = some g →
      ∃ c, y.coroutines[x.coroutines.length + k]? = some c ∧ c.submission = g := by
    intro k g hk
    have hplace : (y.coroutines.map Coroutine.submission)[x.coroutines.length + k]? = some g := by
      rw [hlog, List.getElem?_append_right (by simp), List.length_map, Nat.add_sub_cancel_left, hk]
    rwa [List.getElem?_map, Option.map_eq_some_iff] at hplace
  obtain ⟨c, hc, rfl⟩ := hget i e he
  obtain ⟨d, hd, rfl⟩ := hget j f hf
  have hpc := hlaunched.started _ c (Nat.le_add_right _ _) hc hstarts
  have hrunning : y.Running (x.coroutines.length + i) c := ⟨hc, by simp [hpc]⟩
  have hi := hlaunched.not_mem_live (Nat.add_lt_add_left hij _) hc hd heq
  obtain ⟨s, hs, status, ledger, hreturned, hnot⟩ :=
    returns_running hreach hunderway hlaunched hrunning hi
  exact hnot (h s hs status ledger hreturned).2

/-- **A drain accounts for its wave if and only if no id comes again after a submission of it
whose process was started.** -/
theorem accountsFor_iff {x : AsyncExecutor} (hx : x.AtRest) {script : List Submission}
    (hlen : script.length ≤ x.maxConcurrent) :
    AccountsFor launches x script ↔ NoneReplaced launches x.coroutines.length script := by
  refine ⟨?_, accountsFor_of_noneReplaced hx hlen⟩
  intro h
  by_contra hids
  exact not_accountsFor_of_replaced hx hlen hids h

/-- One task submitted with nothing to run, and again with something. -/
def retried : List Submission := [⟨"a", " "⟩, ⟨"a", "true"⟩]

/-- Every launch goes through. -/
def launchesAll : ℕ → Bool := fun _ => true

theorem accountsFor_iff_retried :
    (AsyncExecutor.new 2).AtRest ∧ retried.length ≤ (AsyncExecutor.new 2).maxConcurrent ∧
      (AccountsFor launchesAll (.new 2) retried ↔ NoneReplaced launchesAll 0 retried) :=
  ⟨AsyncExecutor.atRest_new 2, by decide,
    accountsFor_iff (AsyncExecutor.atRest_new 2) (by decide)⟩

example : NoneReplaced launchesAll 0 retried := by decide

/-- One task run twice. -/
def twice : List Submission := [⟨"a", "true"⟩, ⟨"a", "true"⟩]

/-- Both processes are launched; the second one ends, and the drain is content. -/
def secondEndsFirst : List Event :=
  [.submit ⟨"a", "true"⟩, .resume 0 .done, .submit ⟨"a", "true"⟩, .resume 1 .done, .resume 0 .done,
    .resume 1 .done, .drain, .loop, .resume 1 .done, .loop, .wake]

/-- Has the drain returned? -/
def hasReturned : Drain → Bool
  | .returned _ _ => true
  | _ => false

/-- The first one is still running when it returns. -/
theorem twice_leaves_first_running : ¬ AccountsFor launchesAll (.new 2) twice := by
  intro h
  have hrun : ((Lts.exec (next launchesAll) ⟨⟨.new 2, .idle⟩, twice⟩ secondEndsFirst).map fun s =>
      (hasReturned s.system.drain, decide s.system.executor.Finished)) = some (true, false) := by
    decide
  obtain ⟨s, hs, hend⟩ := Option.map_eq_some_iff.mp hrun
  obtain ⟨hreturned, hrunning⟩ := Prod.ext_iff.mp hend
  have hreach : (wave launchesAll (.new 2) twice).Reachable s :=
    Lts.Reachable.exec (.init rfl) _ hs
  cases hdrain : s.system.drain with
  | returned status ledger =>
      exact of_decide_eq_false hrunning (h s hreach status ledger hdrain).2
  | _ =>
      rw [hdrain] at hreturned
      cases hreturned

end Taskq.Waves
