import Taskq.Service.Executor

/-!
# Taskq.Service.Drain

One step of an executor and its drain, and the cap over all runs.

`_in_flight_count` only goes up until `_finalize_wave` sets it back to zero, and so bounds
the coroutines that are running from above (`Capped`) as long as none is running when it
does. Whoever submits while the drain has already looked for the last time, or reaps
what it has cancelled, makes it do otherwise: the count then forgets a coroutine, and a
full load of submissions goes on top of it.
-/

namespace Taskq.Executor

open Transition

/-! ### What an event does -/

/-- `run_until_drained` is over. -/
def Drain.Ended : Drain → Prop
  | .returned _ _ | .raised => True
  | _ => False

/-- What a cancellation of `_wait_all` is passed on to. -/
def Drain.gathers : Drain → Option (List ℕ)
  | .scheduled => some []
  | .gathering waiting => some waiting
  | _ => none

namespace AsyncExecutor

theorem cancelAll_nil (x : AsyncExecutor) : x.cancelAll [] = x := by
  have hself : x.coroutines.mapIdx (fun _ c => c) = x.coroutines :=
    List.ext_getElem? fun i => by simp
  simp [cancelAll, hself]

end AsyncExecutor

namespace System

/-- What one event is. -/
inductive Step : System → Event → System → Prop
  | submit {x d e} (h : d ≠ .head) : Step ⟨x, d⟩ (.submit e) ⟨x.submit e, d⟩
  | resume {x x' d i o} (h : d ≠ .head) (hres : x.resume i o = some x') :
      Step ⟨x, d⟩ (.resume i o) ⟨x', d⟩
  | drain {x d} (h : d = .idle ∨ d.Ended) : Step ⟨x, d⟩ .drain ⟨x, .scheduled⟩
  | enter {x d} (h : d = .scheduled ∨ d = .head) : Step ⟨x, d⟩ .loop (waitAll x)
  | gathered {x waiting} (h : ∀ i ∈ waiting, x.Done i) :
      Step ⟨x, .gathering waiting⟩ .loop (gathered x)
  | finalize {x} : Step ⟨x, .awaited⟩ .wake (finalize x .drained)
  | interrupt {x waiting} (h : ∀ i ∈ waiting, x.Done i) :
      Step ⟨x, .expiring waiting⟩ .wake (interrupt x)
  | reap {x waiting} (h : ∀ i ∈ waiting, x.Done i) :
      Step ⟨x, .interrupting waiting⟩ .wake (System.finalize x .interrupted)
  | abort {x waiting} (h : ∀ i ∈ waiting, x.Done i) :
      Step ⟨x, .aborting waiting⟩ .wake ⟨x, .raised⟩
  | deadline {x d waiting} (h : d.gathers = some waiting) :
      Step ⟨x, d⟩ .deadline ⟨x.cancelAll waiting, .expiring waiting⟩
  | cancel {x d waiting} (h : d.gathers = some waiting ∨ d = .interrupting waiting) :
      Step ⟨x, d⟩ .cancel ⟨x.cancelAll waiting, .aborting waiting⟩
  | giveUp {x waiting} : Step ⟨x, .expiring waiting⟩ .cancel ⟨x, .raised⟩

theorem step_of_next {s s' : System} {a : Event} (h : s.next a = some s') : Step s a s' := by
  obtain ⟨x, d⟩ := s
  cases a with
  | submit e =>
      simp only [next] at h
      split_ifs at h with hd
      cases h
      exact .submit hd
  | resume i o =>
      simp only [next] at h
      split_ifs at h with hd
      obtain ⟨x', hx, rfl⟩ := Option.map_eq_some_iff.mp h
      exact .resume hd hx
  | drain =>
      cases d with
      | idle =>
          cases h
          exact .drain (Or.inl rfl)
      | returned status ledger =>
          cases h
          exact .drain (Or.inr trivial)
      | raised =>
          cases h
          exact .drain (Or.inr trivial)
      | _ => cases h
  | loop =>
      cases d with
      | scheduled =>
          cases h
          exact .enter (Or.inl rfl)
      | head =>
          cases h
          exact .enter (Or.inr rfl)
      | gathering waiting =>
          simp only [next] at h
          split_ifs at h with hdone
          cases h
          exact .gathered hdone
      | _ => cases h
  | wake =>
      cases d with
      | awaited =>
          cases h
          exact .finalize
      | expiring waiting =>
          simp only [next] at h
          split_ifs at h with hdone
          cases h
          exact .interrupt hdone
      | interrupting waiting =>
          simp only [next] at h
          split_ifs at h with hdone
          cases h
          exact .reap hdone
      | aborting waiting =>
          simp only [next] at h
          split_ifs at h with hdone
          cases h
          exact .abort hdone
      | _ => cases h
  | deadline =>
      cases d with
      | scheduled =>
          cases h
          have hstep : Step ⟨x, .scheduled⟩ .deadline ⟨x.cancelAll [], .expiring []⟩ :=
            .deadline rfl
          rw [x.cancelAll_nil] at hstep
          exact hstep
      | gathering waiting =>
          cases h
          exact .deadline rfl
      | _ => cases h
  | cancel =>
      cases d with
      | scheduled =>
          cases h
          have hstep : Step ⟨x, .scheduled⟩ .cancel ⟨x.cancelAll [], .aborting []⟩ :=
            .cancel (Or.inl rfl)
          rw [x.cancelAll_nil] at hstep
          exact hstep
      | gathering waiting =>
          cases h
          exact .cancel (Or.inl rfl)
      | expiring waiting =>
          cases h
          exact .giveUp
      | interrupting waiting =>
          cases h
          exact .cancel (Or.inr rfl)
      | _ => cases h

end System

/-! ### What is running -/

namespace AsyncExecutor

/-- How many dispatched coroutines have not finished. -/
def unfinished (x : AsyncExecutor) : ℕ := x.coroutines.countP fun c => c.pc ≠ .finished

/-- Everything dispatched has finished. -/
def Finished (x : AsyncExecutor) : Prop := ∀ c ∈ x.coroutines, c.pc = .finished

instance (x : AsyncExecutor) : Decidable x.Finished :=
  inferInstanceAs (Decidable (∀ c ∈ x.coroutines, c.pc = .finished))

theorem unfinished_eq_zero {x : AsyncExecutor} : x.unfinished = 0 ↔ x.Finished := by
  simp [unfinished, Finished, List.countP_eq_zero]

theorem Finished.no_turn {x x' : AsyncExecutor} {i : ℕ} {o : Outcome} (h : x.Finished)
    (hres : x.resume i o = some x') : False := by
  obtain ⟨c, turn, hc, -, hturn, -⟩ := resume_some hres
  exact runTask_unfinished hturn (h c (List.mem_of_getElem? hc))

/-- Cancelling asks coroutines to stop; none has a turn. -/
theorem cancelAll_getElem? (x : AsyncExecutor) (is : List ℕ) (i : ℕ) :
    (x.cancelAll is).coroutines[i]?
      = x.coroutines[i]?.map fun c => if i ∈ is then c.cancel else c := by
  simp [cancelAll]

theorem cancelAll_pcs (x : AsyncExecutor) (is : List ℕ) :
    (x.cancelAll is).coroutines.map Coroutine.pc = x.coroutines.map Coroutine.pc := by
  refine List.ext_getElem? fun i => ?_
  rw [List.getElem?_map, List.getElem?_map, cancelAll_getElem?, Option.map_map]
  refine congrArg (Option.map · _) (funext fun c => ?_)
  show (if i ∈ is then c.cancel else c).pc = c.pc
  split_ifs <;> rfl

theorem unfinished_congr {x x' : AsyncExecutor}
    (h : x'.coroutines.map Coroutine.pc = x.coroutines.map Coroutine.pc) :
    x'.unfinished = x.unfinished := by
  have hmap : ∀ x : AsyncExecutor,
      x.unfinished = (x.coroutines.map Coroutine.pc).countP fun pc => pc ≠ .finished := by
    intro x
    rw [List.countP_map]
    rfl
  rw [hmap, hmap, h]

/-- A turn starts nothing. -/
theorem unfinished_resume {x x' : AsyncExecutor} {i : ℕ} {o : Outcome}
    (h : x.resume i o = some x') : x'.unfinished ≤ x.unfinished := by
  obtain ⟨c, turn, hc, -, hturn, rfl⟩ := resume_some h
  obtain ⟨hi, rfl⟩ := List.getElem?_eq_some_iff.mp hc
  have hrunning := runTask_unfinished hturn
  have hpos : 0 < x.unfinished :=
    List.countP_pos_iff.mpr ⟨_, List.getElem_mem hi, by simpa using hrunning⟩
  have hset := List.countP_set (p := fun c : Coroutine => decide (c.pc ≠ .finished))
    (a := x.coroutines[i].moveTo turn.pc) hi
  simp only [unfinished, settle_coroutines, hset] at hpos ⊢
  rw [if_pos (by simpa using hrunning)]
  split_ifs <;> omega

theorem unfinished_start (cs : List Coroutine) (e : Submission) :
    (cs ++ [Coroutine.start e]).countP (fun c => decide (c.pc ≠ .finished))
      = cs.countP (fun c => decide (c.pc ≠ .finished)) + 1 := by
  rw [List.countP_append]
  rfl

/-! ### The cap -/

/-- The count is between what is running and the cap. -/
structure Capped (cap : ℕ) (x : AsyncExecutor) : Prop where
  maxConcurrent : x.maxConcurrent = cap
  unfinished_le : x.unfinished ≤ x.inFlightCount
  le_cap : x.inFlightCount ≤ cap

theorem capped_new (cap : ℕ) : Capped cap (new cap) := ⟨rfl, Nat.le_refl 0, Nat.zero_le cap⟩

theorem Capped.dispatch {cap : ℕ} {x : AsyncExecutor} (h : Capped cap x) (e : Submission) :
    Capped cap (x.dispatch e) := by
  obtain ⟨hcap, hle, hcount⟩ := h
  by_cases hroom : x.inFlightCount < x.maxConcurrent
  · rw [dispatch_of_lt hroom]
    refine ⟨hcap, ?_, by simp only; omega⟩
    simp only [unfinished] at hle ⊢
    rw [unfinished_start]
    omega
  · rw [AsyncExecutor.dispatch, if_pos (Nat.not_lt.mp hroom)]
    exact ⟨hcap, hle, hcount⟩

theorem Capped.submit {cap : ℕ} {x : AsyncExecutor} (h : Capped cap x) (e : Submission) :
    Capped cap (x.submit e) := by
  have hlisted : Capped cap { x with submitted := x.submitted.insert e.taskId } :=
    ⟨h.maxConcurrent, h.unfinished_le, h.le_cap⟩
  rw [AsyncExecutor.submit]
  split_ifs
  · exact hlisted.dispatch e
  · exact ⟨h.maxConcurrent, h.unfinished_le, h.le_cap⟩

theorem Capped.pullFrom {cap : ℕ} (pending : List Submission) :
    ∀ {x : AsyncExecutor}, Capped cap x → Capped cap (pullFrom pending x) := by
  induction pending with
  | nil =>
      intro x h
      exact ⟨h.maxConcurrent, h.unfinished_le, h.le_cap⟩
  | cons e rest ih =>
      intro x h
      rw [AsyncExecutor.pullFrom]
      split_ifs
      · exact ih (h.dispatch e)
      · exact ⟨h.maxConcurrent, h.unfinished_le, h.le_cap⟩

theorem Capped.resume {cap : ℕ} {x x' : AsyncExecutor} (h : Capped cap x) {i : ℕ} {o : Outcome}
    (hres : x.resume i o = some x') : Capped cap x' := by
  have hle := unfinished_resume hres
  obtain ⟨c, turn, -, -, -, rfl⟩ := resume_some hres
  refine ⟨by simp [h.maxConcurrent], ?_, by simp [h.le_cap]⟩
  rw [settle_inFlightCount]
  exact Nat.le_trans hle h.unfinished_le

theorem Capped.cancelAll {cap : ℕ} {x : AsyncExecutor} (h : Capped cap x) (is : List ℕ) :
    Capped cap (x.cancelAll is) := by
  refine ⟨h.maxConcurrent, ?_, h.le_cap⟩
  rw [unfinished_congr (cancelAll_pcs x is)]
  exact h.unfinished_le

theorem Capped.cancelAndSeed {cap : ℕ} {x : AsyncExecutor} (h : Capped cap x) :
    Capped cap x.cancelAndSeed := by
  obtain ⟨hcap, hle, hcount⟩ := h.cancelAll x.live
  exact ⟨hcap, hle, hcount⟩

/-- A wave is closed with nothing left running. -/
theorem Capped.finalizeWave {cap : ℕ} {x : AsyncExecutor} (h : Capped cap x) (hdone : x.Finished) :
    Capped cap x.finalizeWave := by
  refine ⟨h.maxConcurrent, ?_, Nat.zero_le cap⟩
  have hnone : x.finalizeWave.unfinished = 0 := unfinished_eq_zero.mpr hdone
  rw [hnone]
  exact Nat.zero_le _

/-! ### What no event changes -/

@[simp] theorem dispatch_maxConcurrent (x : AsyncExecutor) (e : Submission) :
    (x.dispatch e).maxConcurrent = x.maxConcurrent := by
  unfold dispatch
  split_ifs <;> rfl

@[simp] theorem submit_maxConcurrent (x : AsyncExecutor) (e : Submission) :
    (x.submit e).maxConcurrent = x.maxConcurrent := by
  rw [submit]
  split_ifs
  · rw [dispatch_maxConcurrent]
  · rfl

@[simp] theorem pullFrom_maxConcurrent (pending : List Submission) (x : AsyncExecutor) :
    (pullFrom pending x).maxConcurrent = x.maxConcurrent := by
  induction pending generalizing x with
  | nil => rfl
  | cons e rest ih =>
      rw [pullFrom]
      split_ifs
      · rw [ih, dispatch_maxConcurrent]
      · rfl

end AsyncExecutor

namespace System

theorem waitAll_executor (x : AsyncExecutor) :
    (waitAll x).executor = x ∨ (waitAll x).executor = x.pull := by
  unfold waitAll
  split_ifs
  · exact Or.inr rfl
  · exact Or.inl rfl

theorem interrupt_executor (x : AsyncExecutor) :
    (interrupt x).executor = x.cancelAndSeed ∨
      x.live = [] ∧ (interrupt x).executor = x.cancelAndSeed.finalizeWave := by
  unfold interrupt
  split_ifs with hlive
  · exact Or.inr ⟨hlive, rfl⟩
  · exact Or.inl rfl

theorem Step.maxConcurrent {s s' : System} {a : Event} (h : Step s a s') :
    s'.executor.maxConcurrent = s.executor.maxConcurrent := by
  cases h with
  | submit => exact AsyncExecutor.submit_maxConcurrent _ _
  | resume _ hres =>
      obtain ⟨c, turn, -, -, -, rfl⟩ := AsyncExecutor.resume_some hres
      exact AsyncExecutor.settle_maxConcurrent _ _ _ _
  | @enter x =>
      rcases waitAll_executor x with hx | hx
      · rw [hx]
      · rw [hx]
        exact AsyncExecutor.pullFrom_maxConcurrent _ x
  | gathered => exact AsyncExecutor.pullFrom_maxConcurrent _ _
  | @interrupt x =>
      rcases interrupt_executor x with hx | ⟨-, hx⟩ <;> rw [hx] <;> rfl
  | _ => rfl

/-! ### The cap over all runs -/

/-- Does this event run `_finalize_wave`? -/
def Finalizes (s : System) : Event → Prop
  | .wake =>
      match s.drain with
      | .awaited | .interrupting _ => True
      | .expiring _ => s.executor.live = []
      | _ => False
  | _ => False

/-- `_finalize_wave` runs when everything that was dispatched has finished. -/
def Clean (s : System) (a : Event) : Prop := s.Finalizes a → s.executor.Finished

/-- The runs of an executor, whoever submits and whenever. -/
def runs (cap : ℕ) : Lts System Event :=
  Lts.ofNext (· = { executor := .new cap, drain := .idle }) System.next

theorem Step.capped {cap : ℕ} {s s' : System} {a : Event} (h : Step s a s')
    (hcapped : AsyncExecutor.Capped cap s.executor) (hclean : s.Clean a) :
    AsyncExecutor.Capped cap s'.executor := by
  cases h with
  | submit => exact hcapped.submit _
  | resume _ hres => exact hcapped.resume hres
  | drain => exact hcapped
  | @enter x =>
      rcases waitAll_executor x with hx | hx
      · rw [hx]
        exact hcapped
      · rw [hx]
        exact hcapped.pullFrom _
  | gathered => exact hcapped.pullFrom _
  | finalize => exact hcapped.finalizeWave (hclean trivial)
  | @interrupt x =>
      rcases interrupt_executor x with hx | ⟨hlive, hx⟩
      · rw [hx]
        exact hcapped.cancelAndSeed
      · rw [hx]
        refine hcapped.cancelAndSeed.finalizeWave ?_
        have hzero : x.cancelAndSeed.unfinished = x.unfinished :=
          AsyncExecutor.unfinished_congr (x.cancelAll_pcs x.live)
        rw [← AsyncExecutor.unfinished_eq_zero, hzero, AsyncExecutor.unfinished_eq_zero]
        exact hclean hlive
  | reap => exact hcapped.finalizeWave (hclean trivial)
  | abort => exact hcapped
  | deadline => exact hcapped.cancelAll _
  | cancel => exact hcapped.cancelAll _
  | giveUp => exact hcapped

/-- After a `_finalize_wave` the count is zero, whatever is running. -/
theorem Step.finalized {s s' : System} {a : Event} (h : Step s a s') (hfinalizes : s.Finalizes a) :
    s'.drain ≠ .head ∧ s'.executor.inFlightCount = 0 ∧
      s'.executor.unfinished = s.executor.unfinished := by
  cases h with
  | finalize => exact ⟨nofun, rfl, rfl⟩
  | reap => exact ⟨nofun, rfl, rfl⟩
  | @interrupt x waiting =>
      have hlive : x.live = [] := hfinalizes
      rw [System.interrupt, if_pos hlive]
      exact ⟨nofun, rfl, AsyncExecutor.unfinished_congr (x.cancelAll_pcs x.live)⟩
  | abort => exact hfinalizes.elim
  | _ => exact hfinalizes.elim

/-- While there are slots, submissions are dispatched one after the other. -/
theorem fill_slots (cap n : ℕ) : ∀ {s : System}, s.drain ≠ .head →
    s.executor.inFlightCount + n ≤ s.executor.maxConcurrent →
    ∃ t, Relation.ReflTransGen (runs cap).Move s t ∧
      t.executor.unfinished = s.executor.unfinished + n := by
  induction n with
  | zero =>
      intro s _ _
      exact ⟨s, .refl, rfl⟩
  | succ n ih =>
      intro s hdrain hroom
      let e : Submission := ⟨"a", "true"⟩
      have hlt : s.executor.inFlightCount < s.executor.maxConcurrent := by omega
      have hmove : (runs cap).Move s { s with executor := s.executor.submit e } :=
        ⟨.submit e, if_neg hdrain⟩
      have hone : (s.executor.submit e).unfinished = s.executor.unfinished + 1 := by
        rw [AsyncExecutor.submit_of_lt hlt]
        exact AsyncExecutor.unfinished_start _ e
      obtain ⟨t, hmoves, ht⟩ := ih (s := { s with executor := s.executor.submit e }) hdrain (by
        rw [AsyncExecutor.submit_of_lt hlt]
        simp only
        omega)
      refine ⟨t, .head hmove hmoves, ?_⟩
      rw [ht, hone]
      omega

theorem maxConcurrent_of_reachable {cap : ℕ} {s : System} (h : (runs cap).Reachable s) :
    s.executor.maxConcurrent = cap := by
  refine Lts.Reachable.invariant (I := fun s => s.executor.maxConcurrent = cap) ?_ ?_ h
  · rintro s rfl
    rfl
  · intro s a s' _ hs hstep
    rw [(step_of_next hstep).maxConcurrent, hs]

/-- **The cap holds if and only if no wave is closed over something running.** In a run in
which `_finalize_wave` only ever runs when every dispatched coroutine has finished, no
more than `max_concurrent` are unfinished at any time. After any other call of it, one
more than that many can be. -/
theorem cap_respected_iff (cap : ℕ) :
    (∀ s, ((runs cap).restrict Clean).Reachable s → s.executor.unfinished ≤ cap) ∧
      ∀ s a s', (runs cap).Reachable s → (runs cap).step s a s' → ¬ s.Clean a →
        ∃ t, Relation.ReflTransGen (runs cap).Move s' t ∧ cap < t.executor.unfinished := by
  refine ⟨?_, ?_⟩
  · intro s hs
    have hcapped : AsyncExecutor.Capped cap s.executor := by
      refine Lts.Reachable.invariant (I := fun s => AsyncExecutor.Capped cap s.executor) ?_ ?_ hs
      · rintro s rfl
        exact AsyncExecutor.capped_new cap
      · intro s a s' _ hs hstep
        exact (step_of_next hstep.1).capped hs hstep.2
    exact Nat.le_trans hcapped.unfinished_le hcapped.le_cap
  · intro s a s' hs hstep hclean
    simp only [Clean, Classical.not_imp] at hclean
    obtain ⟨hfinalizes, hrunning⟩ := hclean
    obtain ⟨hdrain, hcount, hunfinished⟩ := (step_of_next hstep).finalized hfinalizes
    have hmax := maxConcurrent_of_reachable (.step hs hstep)
    rw [← AsyncExecutor.unfinished_eq_zero] at hrunning
    obtain ⟨t, hmoves, ht⟩ := fill_slots cap cap hdrain (by omega)
    exact ⟨t, hmoves, by omega⟩

/-- One command has been drained; another is submitted before `run_until_drained` has
noticed, and two more when it has returned. -/
def lateSubmit : List Event :=
  [.submit ⟨"a", "true"⟩, .drain, .loop, .resume 0 .done, .resume 0 .done, .resume 0 .done, .loop,
    .submit ⟨"b", "true"⟩, .wake, .submit ⟨"c", "true"⟩, .submit ⟨"d", "true"⟩]

/-- Three are then running under a cap of two. -/
theorem lateSubmit_exceeds_cap :
    ¬ ∀ s, (runs 2).Reachable s → s.executor.unfinished ≤ 2 := by
  intro h
  have hrun : ((Lts.exec System.next { executor := .new 2, drain := .idle } lateSubmit).map
      fun s => s.executor.unfinished) = some 3 := by decide
  obtain ⟨s, hs, hthree⟩ := Option.map_eq_some_iff.mp hrun
  have hreach : (runs 2).Reachable s := Lts.Reachable.exec (.init rfl) lateSubmit hs
  have hle := h s hreach
  omega

end System

end Taskq.Executor
