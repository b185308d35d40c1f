import Taskq.Service.Executor

/-!
# Taskq.Service.Backlog

What becomes of a backlog: a caller submits a list and calls `run_until_drained`,
nobody cancels anything and the drain deadline is far away.

`_dispatch` counts a slot up and nothing counts it down before `_finalize_wave`, which
runs after the drain. A wave therefore dispatches at most `max_concurrent`
coroutines, ever. Up to that many submissions the drain comes to its end by a
measure (`Session.measure`); with one more, `_wait_all` ends up going round with an
empty `_tasks`, a queue it may not touch, and no await in between.
-/

namespace Taskq.Backlog

open Executor Transition

/-- A caller with a list of submissions to make, then to drain. -/
structure Session where
  system : System
  script : List Submission

namespace Session

/-- `AsyncExecutor(maxConcurrent)` and what is to be submitted to it. -/
def start (maxConcurrent : ℕ) (script : List Submission) : Session where
  system := { executor := AsyncExecutor.new maxConcurrent, drain := .idle }
  script := script

/-- The caller submits in order and drains once, when everything is submitted. -/
def Permits (s : Session) : Event → Prop
  | .submit e => s.system.drain = .idle ∧ s.script.head? = some e
  | .drain => s.system.drain = .idle ∧ s.script = []
  | .deadline => False
  | .cancel => False
  | _ => True

instance (s : Session) : (a : Event) → Decidable (s.Permits a)
  | .submit e => inferInstanceAs (Decidable (s.system.drain = .idle ∧ s.script.head? = some e))
  | .drain => inferInstanceAs (Decidable (s.system.drain = .idle ∧ s.script = []))
  | .deadline => inferInstanceAs (Decidable False)
  | .cancel => inferInstanceAs (Decidable False)
  | .resume _ _ => inferInstanceAs (Decidable True)
  | .loop => inferInstanceAs (Decidable True)
  | .wake => inferInstanceAs (Decidable True)

/-- What is left to submit after an event. -/
def rest (s : Session) : Event → List Submission
  | .submit _ => s.script.tail
  | _ => s.script

def next (s : Session) (a : Event) : Option Session :=
  if s.Permits a then (s.system.next a).map fun t => { system := t, script := s.rest a } else none

/-- What has been dispatched, in order. -/
def dispatched (s : Session) : List Submission :=
  s.system.executor.coroutines.map Coroutine.submission

/-- `_wait_all` has returned. -/
def WaitedAll (s : Session) : Prop :=
  s.system.drain = .awaited ∨ ∃ status ledger, s.system.drain = .returned status ledger

/-- A state in which the loop of `_wait_all` goes round without awaiting or changing
anything. -/
def Spins (s : Session) : Prop :=
  s.system.executor.tasks.entries = [] ∧ s.system.executor.pending ≠ [] ∧
    s.system.executor.maxConcurrent ≤ s.system.executor.inFlightCount

end Session

/-- The runs of a session. -/
def wave (maxConcurrent : ℕ) (script : List Submission) : Lts Session Event :=
  Lts.ofNext (· = Session.start maxConcurrent script) Session.next

/-- A backlog is drained: whatever the order of events, the run is over after finitely
many, it does not get stuck before `_wait_all` has returned, everything has then been
dispatched once and in order, and the loop never spins. -/
structure DrainsBacklog (maxConcurrent : ℕ) (script : List Submission) : Prop where
  terminates : (wave maxConcurrent script).Terminating
  returns : ∀ s, (wave maxConcurrent script).Reachable s → (wave maxConcurrent script).Quiescent s →
    s.WaitedAll
  dispatches : ∀ s, (wave maxConcurrent script).Reachable s → s.WaitedAll → s.dispatched = script
  never_spins : ∀ s, (wave maxConcurrent script).Reachable s → ¬ s.Spins

/-! ### One step -/

/-- What one step of a session is. -/
inductive Step : Session → Session → Prop
  | submit {x e rest} : Step ⟨⟨x, .idle⟩, e :: rest⟩ ⟨⟨x.submit e, .idle⟩, rest⟩
  | drain {x} : Step ⟨⟨x, .idle⟩, []⟩ ⟨⟨x, .scheduled⟩, []⟩
  | resume {x x' d script i o} (h : x.resume i o = some x') :
      Step ⟨⟨x, d⟩, script⟩ ⟨⟨x', d⟩, script⟩
  | enter {x d script} (h : d = .scheduled ∨ d = .head) :
      Step ⟨⟨x, d⟩, script⟩ ⟨System.waitAll x, script⟩
  | gathered {x waiting script} (h : ∀ i ∈ waiting, x.Done i) :
      Step ⟨⟨x, .gathering waiting⟩, script⟩ ⟨System.gathered x, script⟩
  | finalize {x script} : Step ⟨⟨x, .awaited⟩, script⟩ ⟨System.finalize x .drained, script⟩
  /-- Not in a session: the drain only gets there when it is cancelled. -/
  | cancelled {x d script s'} (h : ∃ waiting, d = .expiring waiting ∨ d = .interrupting waiting ∨
      d = .aborting waiting) : Step ⟨⟨x, d⟩, script⟩ s'

theorem Session.next_step {s s' : Session} {a : Event} (h : s.next a = some s') : Step s s' := by
  obtain ⟨⟨x, d⟩, script⟩ := s
  unfold Session.next at h
  split_ifs at h with hpermits
  obtain ⟨t, ht, rfl⟩ := Option.map_eq_some_iff.mp h
  cases a with
  | submit e =>
      obtain ⟨hidle, hhead⟩ := hpermits
      obtain rfl : d = .idle := hidle
      cases script with
      | nil => cases hhead
      | cons e' rest =>
          cases hhead
          cases ht
          exact Step.submit
  | drain =>
      obtain ⟨hidle, hnil⟩ := hpermits
      obtain rfl : d = .idle := hidle
      obtain rfl : script = [] := hnil
      cases ht
      exact Step.drain
  | resume i o =>
      unfold System.next at ht
      simp only at ht
      split_ifs at ht
      obtain ⟨x', hx, rfl⟩ := Option.map_eq_some_iff.mp ht
      exact Step.resume hx
  | loop =>
      cases d with
      | scheduled =>
          cases ht
          exact Step.enter (Or.inl rfl)
      | head =>
          cases ht
          exact Step.enter (Or.inr rfl)
      | gathering waiting =>
          simp only [System.next] at ht
          split_ifs at ht with hdone
          cases ht
          exact Step.gathered hdone
      | _ => cases ht
  | wake =>
      cases d with
      | awaited =>
          cases ht
          exact Step.finalize
      | expiring waiting => exact Step.cancelled ⟨waiting, Or.inl rfl⟩
      | interrupting waiting => exact Step.cancelled ⟨waiting, Or.inr (Or.inl rfl)⟩
      | aborting waiting => exact Step.cancelled ⟨waiting, Or.inr (Or.inr rfl)⟩
      | _ => cases ht
  | deadline => exact hpermits.elim
  | cancel => exact hpermits.elim

theorem Session.next_of_permits {s : Session} {a : Event} {t : System} (h : s.Permits a)
    (ht : s.system.next a = some t) : s.next a = some ⟨t, s.rest a⟩ := by
  rw [Session.next, if_pos h, ht]
  rfl

/-! ### No wave dispatches more than the cap -/

/-- Has the drain been called and not been reset yet, without being cancelled? -/
def InWave : Drain → Prop
  | .idle | .scheduled | .gathering _ | .head | .awaited => True
  | _ => False

/-- The slots of a session: counted until the drain has returned. -/
structure Bounded (cap : ℕ) (s : Session) : Prop where
  length_le : s.system.executor.coroutines.length ≤ cap
  counted : InWave s.system.drain → AsyncExecutor.Counted cap s.system.executor
  phase : InWave s.system.drain ∨ ∃ status ledger, s.system.drain = .returned status ledger

theorem Bounded.of_counted {cap : ℕ} {s : Session} (h : AsyncExecutor.Counted cap s.system.executor)
    (hd : InWave s.system.drain) : Bounded cap s where
  length_le := by
    rw [← h.count]
    exact h.le_cap
  counted _ := h
  phase := Or.inl hd

theorem Bounded.start (cap : ℕ) (script : List Submission) :
    Bounded cap (Session.start cap script) :=
  Bounded.of_counted ⟨rfl, rfl, Nat.zero_le cap⟩ trivial

theorem inWave_gathered (x : AsyncExecutor) : InWave (System.gathered x).drain := by
  rw [System.gathered]
  show InWave (if _ then _ else _)
  split_ifs <;> trivial

theorem inWave_waitAll (x : AsyncExecutor) : InWave (System.waitAll x).drain := by
  rw [System.waitAll]
  split_ifs
  · exact inWave_gathered x
  · trivial

theorem counted_waitAll {cap : ℕ} {x : AsyncExecutor} (h : AsyncExecutor.Counted cap x) :
    AsyncExecutor.Counted cap (System.waitAll x).executor := by
  rw [System.waitAll]
  split_ifs
  · exact h.pullFrom _
  · exact h

theorem Bounded.step {cap : ℕ} {s s' : Session} (h : Bounded cap s) (hstep : Step s s') :
    Bounded cap s' := by
  cases hstep with
  | submit => exact .of_counted ((h.counted trivial).submit _) trivial
  | drain => exact .of_counted (h.counted trivial) trivial
  | resume hres =>
      -- a turn may also come after the drain, when only the length is still bounded
      refine ⟨?_, fun hd => (h.counted hd).resume hres, h.phase⟩
      obtain ⟨c, turn, -, -, -, rfl⟩ := AsyncExecutor.resume_some hres
      simpa using h.length_le
  | @enter x d script hd =>
      have hwave : InWave d := by
        rcases hd with rfl | rfl <;> trivial
      exact .of_counted (counted_waitAll (h.counted hwave)) (inWave_waitAll _)
  | gathered hdone => exact .of_counted ((h.counted trivial).pullFrom _) (inWave_gathered _)
  | finalize => exact ⟨h.length_le, fun hd => hd.elim, Or.inr ⟨_, _, rfl⟩⟩
  | cancelled hd =>
      rcases hd with ⟨waiting, rfl | rfl | rfl⟩ <;> rcases h.phase with hwave | ⟨_, _, hret⟩
      all_goals first
        | exact hwave.elim
        | cases hret

/-- **A wave dispatches no more than the cap**, before its drain and while it drains. -/
theorem dispatched_length_le {cap : ℕ} {script : List Submission} {s : Session}
    (h : (wave cap script).Reachable s) : s.dispatched.length ≤ cap := by
  have hbounded : Bounded cap s := by
    refine h.invariant ?_ fun s a s' _ hs hstep => hs.step (Session.next_step hstep)
    intro s hs
    obtain rfl : s = Session.start cap script := hs
    exact Bounded.start cap script
  rw [Session.dispatched, List.length_map]
  exact hbounded.length_le

/-! ### Up to the cap, everything is dispatched at once -/

/-- What the drain has to do with the coroutines, at each of its awaits. -/
def Phase (s : Session) : Prop :=
  match s.system.drain with
  | .idle => s.system.executor.Tracks
  | .scheduled => s.system.executor.Tracks ∧ s.script = []
  | .gathering waiting =>
      s.system.executor.Tracks ∧ s.script = [] ∧
        (∀ i ∈ waiting, i < s.system.executor.coroutines.length) ∧
        ∀ i ∈ s.system.executor.live, i ∈ waiting
  | .awaited => s.script = []
  | .returned _ _ => s.script = []
  | _ => False

/-- A session whose script fits under the cap: nothing is ever queued. -/
structure Fits (cap : ℕ) (script : List Submission) (s : Session) : Prop where
  maxConcurrent : s.system.executor.maxConcurrent = cap
  pending : s.system.executor.pending = []
  log : s.dispatched ++ s.script = script
  phase : Phase s

theorem Fits.start (cap : ℕ) (script : List Submission) :
    Fits cap script (Session.start cap script) where
  maxConcurrent := rfl
  pending := rfl
  log := rfl
  phase := AsyncExecutor.tracks_new cap

theorem dispatched_resume {x x' : AsyncExecutor} {i : ℕ} {o : Outcome}
    (h : x.resume i o = some x') :
    x'.coroutines.map Coroutine.submission = x.coroutines.map Coroutine.submission := by
  obtain ⟨c, turn, hc, -, -, rfl⟩ := AsyncExecutor.resume_some h
  rw [AsyncExecutor.settle_coroutines]
  exact Keyed.map_set hc rfl

/-- An iteration that finds everything settled is the last. -/
theorem gathered_of_settled {x : AsyncExecutor} (hpending : x.pending = []) (h : x.Settled) :
    System.gathered x = { executor := x, drain := .awaited } := by
  rw [System.gathered, AsyncExecutor.pull_of_pending_nil hpending]
  simp only [if_pos h]

/-- While there is something to submit there is a slot for it. -/
theorem Fits.room {cap : ℕ} {script rest : List Submission} {x : AsyncExecutor} {e : Submission}
    (h : Fits cap script ⟨⟨x, .idle⟩, e :: rest⟩) (hlen : script.length ≤ cap) :
    x.inFlightCount < x.maxConcurrent := by
  have htracks : x.Tracks := h.phase
  have hcap : x.maxConcurrent = cap := h.maxConcurrent
  have hlength := congrArg List.length h.log
  rw [Session.dispatched, List.length_append, List.length_map, List.length_cons] at hlength
  rw [htracks.count]
  simp only at hlength
  omega

/-- Once the gathered coroutines have ended, all have. -/
theorem Fits.gathered_live {cap : ℕ} {script rest : List Submission} {x : AsyncExecutor}
    {waiting : List ℕ} (h : Fits cap script ⟨⟨x, .gathering waiting⟩, rest⟩)
    (hdone : ∀ i ∈ waiting, x.Done i) : x.Tracks ∧ x.live = [] := by
  obtain ⟨htracks, -, -, hlive⟩ := h.phase
  refine ⟨htracks, ?_⟩
  rw [List.eq_nil_iff_forall_not_mem]
  intro i hi
  exact (htracks.mem_live.mp hi).2 (hdone i (hlive i hi))

theorem Fits.step {cap : ℕ} {script : List Submission} {s s' : Session}
    (hids : (script.map Submission.taskId).Nodup) (hlen : script.length ≤ cap)
    (h : Fits cap script s) (hstep : Step s s') : Fits cap script s' := by
  have hfits := h
  obtain ⟨hcap, hpending, hlog, hphase⟩ := h
  cases hstep with
  | @submit x e rest =>
      have hroom := hfits.room hlen
      have htracks : x.Tracks := hphase
      have hlog' : x.coroutines.map Coroutine.submission ++ e :: rest = script := hlog
      -- ids are distinct along the script, of which the coroutines are the first part
      have hnew : ∀ c ∈ x.coroutines, c.submission.taskId ≠ e.taskId := by
        intro c hc hid
        rw [← hlog', List.map_append, List.map_map] at hids
        refine (List.nodup_append.mp hids).2.2 _ (List.mem_map_of_mem hc) _ ?_ hid
        simp
      have hsubmit := htracks.submit hroom hnew
      rw [AsyncExecutor.submit_of_lt hroom] at hsubmit ⊢
      refine ⟨hcap, hpending, ?_, hsubmit⟩
      simpa [Session.dispatched, Coroutine.start] using hlog'
  | drain => exact ⟨hcap, hpending, hlog, hphase, rfl⟩
  | @resume x x' d script' i o hres =>
      refine ⟨?_, ?_, ?_, ?_⟩
      · obtain ⟨c, turn, -, -, -, rfl⟩ := AsyncExecutor.resume_some hres
        simpa using hcap
      · obtain ⟨c, turn, -, -, -, rfl⟩ := AsyncExecutor.resume_some hres
        simpa using hpending
      · rw [Session.dispatched, dispatched_resume hres]
        exact hlog
      · cases d with
        | idle => exact AsyncExecutor.Tracks.resume hphase hres
        | scheduled => exact ⟨hphase.1.resume hres, hphase.2⟩
        | gathering waiting =>
            obtain ⟨htracks, hscript, hvalid, hlive⟩ := hphase
            have htracks' := htracks.resume hres
            have hlength : x'.coroutines.length = x.coroutines.length := by
              simpa using congrArg List.length (dispatched_resume hres)
            refine ⟨htracks', hscript, ?_, ?_⟩
            · rw [hlength]
              exact hvalid
            -- what has not ended now had not ended before
            · intro j hj
              obtain ⟨hj, hdone⟩ := htracks'.mem_live.mp hj
              rw [hlength] at hj
              exact hlive j (htracks.mem_live.mpr ⟨hj, fun h => hdone (h.resume hres)⟩)
        | awaited => exact hphase
        | returned status ledger => exact hphase
        | _ => exact hphase.elim
  | @enter x d script' hd =>
      rcases hd with rfl | rfl
      · obtain ⟨htracks, hscript⟩ := hphase
        rw [System.waitAll]
        split_ifs with hlive
        · rw [gathered_of_settled hpending (htracks.settled hpending hlive)]
          exact ⟨hcap, hpending, hlog, hscript⟩
        · exact ⟨hcap, hpending, hlog, htracks, hscript,
            fun i hi => (htracks.mem_live.mp hi).1, fun i hi => hi⟩
      · exact hphase.elim
  | @gathered x waiting script' hdone =>
      obtain ⟨htracks, hlive⟩ := hfits.gathered_live hdone
      rw [gathered_of_settled hpending (htracks.settled hpending hlive)]
      exact ⟨hcap, hpending, hlog, hphase.2.1⟩
  | finalize => exact ⟨hcap, hpending, hlog, hphase⟩
  | cancelled hd =>
      rcases hd with ⟨waiting, rfl | rfl | rfl⟩ <;> exact hphase.elim

/-! ### Progress and measure -/

/-- A session that nothing can hold up: there is a slot for what is to be submitted, and
when `_wait_all` has nothing left to wait for it is done. -/
structure Orderly (s : Session) : Prop where
  pending : s.system.executor.pending = []
  room : s.system.drain = .idle → s.script ≠ [] →
    s.system.executor.inFlightCount < s.system.executor.maxConcurrent
  settled : (s.system.drain = .scheduled ∨ ∃ waiting, s.system.drain = .gathering waiting) →
    s.system.executor.live = [] → s.system.executor.Settled
  gathered : ∀ waiting, s.system.drain = .gathering waiting →
    (∀ i ∈ waiting, s.system.executor.Done i) → s.system.executor.live = []
  waiting : ∀ waiting, s.system.drain = .gathering waiting → ∀ i ∈ waiting,
    ¬ s.system.executor.Done i →
      ∃ c, s.system.executor.coroutines[i]? = some c ∧ c.cancelRequested = false
  phase : s.system.drain = .idle ∨ s.system.drain = .scheduled ∨
    (∃ waiting, s.system.drain = .gathering waiting) ∨ s.WaitedAll

/-- Until `_wait_all` has returned, something can happen. -/
theorem Orderly.progress {s : Session} (h : Orderly s) (hwaiting : ¬ s.WaitedAll) :
    ∃ a s', s.next a = some s' := by
  obtain ⟨⟨x, d⟩, rest⟩ := s
  rcases h.phase with rfl | rfl | ⟨waiting, rfl⟩ | hwaited
  · cases rest with
    | nil => exact ⟨.drain, _, Session.next_of_permits ⟨rfl, rfl⟩ rfl⟩
    | cons e rest => exact ⟨.submit e, _, Session.next_of_permits ⟨rfl, rfl⟩ rfl⟩
  · exact ⟨.loop, _, Session.next_of_permits trivial rfl⟩
  · by_cases hdone : ∀ i ∈ waiting, x.Done i
    · exact ⟨.loop, _, Session.next_of_permits trivial (if_pos hdone)⟩
    · -- some coroutine that is waited for can have its next turn
      simp only [not_forall] at hdone
      obtain ⟨i, hi, hnot⟩ := hdone
      obtain ⟨c, hc, hflag⟩ := h.waiting waiting rfl i hi hnot
      obtain ⟨x', hx'⟩ := AsyncExecutor.resume_done_isSome hc hflag fun hpc => hnot ⟨_, hc, hpc⟩
      have hnext : System.next ⟨x, .gathering waiting⟩ (.resume i .done)
          = some ⟨x', .gathering waiting⟩ := by
        simp [System.next, hx']
      exact ⟨.resume i .done, _, Session.next_of_permits trivial hnext⟩
  · exact absurd hwaited hwaiting

/-- How far the drain still has to go. -/
def drainRank : Drain → ℕ
  | .idle => 4
  | .scheduled => 3
  | .gathering _ => 2
  | .awaited => 1
  | _ => 0

/-- What is left: a submission is worth more than the turns of its coroutine. -/
def measure (s : Session) : ℕ :=
  6 * s.script.length + (s.system.executor.coroutines.map fun c => c.pc.turnsLeft).sum
    + drainRank s.system.drain

theorem Orderly.measure_lt {s s' : Session} (h : Orderly s) (hstep : Step s s') :
    measure s' < measure s := by
  cases hstep with
  | @submit x e rest =>
      rw [AsyncExecutor.submit_of_lt (h.room rfl (List.cons_ne_nil e rest))]
      simp only [measure, List.map_append, List.sum_append, List.map_singleton, List.sum_singleton,
        List.length_cons, Coroutine.start, Pc.turnsLeft]
      omega
  | drain =>
      simp only [measure, drainRank]
      omega
  | @resume x x' d script' i o hres =>
      have hturns := AsyncExecutor.turnsLeft_resume hres
      simp only [measure]
      omega
  | @enter x d script' hd =>
      rcases hd with rfl | rfl
      · rw [System.waitAll]
        split_ifs with hlive
        · rw [gathered_of_settled h.pending (h.settled (Or.inl rfl) hlive)]
          simp only [measure, drainRank]
          omega
        · simp only [measure, drainRank]
          omega
      · rcases h.phase with hd | hd | ⟨_, hd⟩ | hd | ⟨_, _, hd⟩ <;> cases hd
  | @gathered x waiting script' hdone =>
      have hlive := h.gathered waiting rfl hdone
      rw [gathered_of_settled h.pending (h.settled (Or.inr ⟨_, rfl⟩) hlive)]
      simp only [measure, drainRank]
      omega
  | @finalize x script' =>
      show measure ⟨⟨x.finalizeWave, _⟩, _⟩ < _
      simp only [measure, drainRank, AsyncExecutor.finalizeWave]
      omega
  | cancelled hd =>
      rcases hd with ⟨waiting, rfl | rfl | rfl⟩
      all_goals rcases h.phase with hd | hd | ⟨_, hd⟩ | hd | ⟨_, _, hd⟩ <;> cases hd

theorem Fits.orderly {cap : ℕ} {script : List Submission} {s : Session} (h : Fits cap script s)
    (hlen : script.length ≤ cap) : Orderly s := by
  obtain ⟨⟨x, d⟩, rest⟩ := s
  have hphase := h.phase
  constructor
  case pending => exact h.pending
  case room =>
    intro hdrain hrest
    obtain rfl : d = .idle := hdrain
    cases rest with
    | nil => exact absurd rfl hrest
    | cons e rest => exact h.room hlen
  case settled =>
    intro hdrain hlive
    rcases hdrain with rfl | ⟨waiting, rfl⟩
    · exact hphase.1.settled h.pending hlive
    · exact hphase.1.settled h.pending hlive
  case gathered =>
    intro waiting hdrain hdone
    obtain rfl : d = .gathering waiting := hdrain
    exact (h.gathered_live hdone).2
  case waiting =>
    intro waiting hdrain i hi _
    obtain rfl : d = .gathering waiting := hdrain
    obtain ⟨htracks, -, hvalid, -⟩ := hphase
    have hc : x.coroutines[i]? = some _ := List.getElem?_eq_getElem (hvalid i hi)
    exact ⟨_, hc, (htracks.undisturbed _ (List.mem_of_getElem? hc)).1⟩
  case phase =>
    cases d with
    | idle => exact Or.inl rfl
    | scheduled => exact Or.inr (Or.inl rfl)
    | gathering waiting => exact Or.inr (Or.inr (Or.inl ⟨waiting, rfl⟩))
    | awaited => exact Or.inr (Or.inr (Or.inr (Or.inl rfl)))
    | returned status ledger => exact Or.inr (Or.inr (Or.inr (Or.inr ⟨_, _, rfl⟩)))
    | _ => exact hphase.elim

/-! ### When a backlog is drained -/

theorem Fits.of_reachable {cap : ℕ} {script : List Submission} {s : Session}
    (hids : (script.map Submission.taskId).Nodup) (hlen : script.length ≤ cap)
    (h : (wave cap script).Reachable s) : Fits cap script s := by
  refine h.invariant ?_ fun s a s' _ hs hstep => hs.step hids hlen (Session.next_step hstep)
  intro s hs
  obtain rfl : s = Session.start cap script := hs
  exact Fits.start cap script

theorem Fits.dispatched_eq {cap : ℕ} {script : List Submission} {s : Session}
    (h : Fits cap script s) (hwaited : s.WaitedAll) : s.dispatched = script := by
  have hnil : s.script = [] := by
    have hphase := h.phase
    rcases hwaited with hd | ⟨status, ledger, hd⟩
    · rw [Phase, hd] at hphase
      exact hphase
    · rw [Phase, hd] at hphase
      exact hphase
  have hlog := h.log
  rw [hnil, List.append_nil] at hlog
  exact hlog

/-- **A backlog of distinct ids is drained if and only if it is no longer than the cap.**
A longer one cannot be: the drain would have to dispatch more than there are slots. -/
theorem drainsBacklog_iff {cap : ℕ} {script : List Submission}
    (hids : (script.map Submission.taskId).Nodup) :
    DrainsBacklog cap script ↔ script.length ≤ cap := by
  refine ⟨?_, ?_⟩
  · intro h
    -- some run comes to an end, and has then dispatched the whole script
    obtain ⟨s, hs, hquiet⟩ := h.terminates.exists_quiescent rfl
    rw [← h.dispatches s hs (h.returns s hs hquiet)]
    exact dispatched_length_le hs
  · intro hlen
    have hfits : ∀ {s}, (wave cap script).Reachable s → Fits cap script s :=
      fun hs => Fits.of_reachable hids hlen hs
    constructor
    case terminates =>
      exact Lts.terminating_of_measure measure fun s a s' hs hstep =>
        ((hfits hs).orderly hlen).measure_lt (Session.next_step hstep)
    case returns =>
      intro s hs hquiet
      by_contra hwaiting
      obtain ⟨a, s', hnext⟩ := ((hfits hs).orderly hlen).progress hwaiting
      exact hquiet a s' hnext
    case dispatches =>
      intro s hs hwaited
      exact (hfits hs).dispatched_eq hwaited
    case never_spins =>
      intro s hs hspins
      exact hspins.2.1 (hfits hs).pending

/-- Two submissions. -/
def pair : List Submission := [⟨"a", "true"⟩, ⟨"b", "true"⟩]

theorem drainsBacklog_iff_pair : DrainsBacklog 2 pair :=
  (drainsBacklog_iff (by decide)).mpr (by decide)

/-- Both are submitted, the drain starts, and the one process there is room for runs to
its end. -/
def exhaustSlot : List Event :=
  [.submit ⟨"a", "true"⟩, .submit ⟨"b", "true"⟩, .drain, .loop, .resume 0 .done, .resume 0 .done,
    .resume 0 .done, .loop]

instance (s : Session) : Decidable s.Spins :=
  inferInstanceAs (Decidable (_ ∧ _ ∧ _))

/-- With one slot for two submissions the loop ends up spinning. -/
theorem pair_spins : ¬ DrainsBacklog 1 pair := by
  intro h
  have hrun : ((Lts.exec Session.next (Session.start 1 pair) exhaustSlot).map
      fun s => decide s.Spins) = some true := by decide
  obtain ⟨s, hs, hspins⟩ := Option.map_eq_some_iff.mp hrun
  have hreach : (wave 1 pair).Reachable s := Lts.Reachable.exec (.init rfl) exhaustSlot hs
  exact h.never_spins s hreach (of_decide_eq_true hspins)

end Taskq.Backlog
