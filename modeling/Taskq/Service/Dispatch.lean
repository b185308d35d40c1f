import Taskq.Service.Backlog
import Taskq.Service.Drain

/-!
# Taskq.Service.Dispatch

What becomes of a submission over all waves.

Nothing is dispatched twice or made up: what has been dispatched, what is queued and what
a deadline has thrown out of the queue are together what has been submitted
(`submissions_accounted`). The queue is first in, first out, as long as it is empty when
a wave is closed: `_finalize_wave` frees all slots and leaves `_pending` as it is, and
what is submitted next goes past whatever is still there (`overtakes`).
-/

namespace Taskq.Executor

open Transition

namespace AsyncExecutor

/-- What has been dispatched, in order. -/
def dispatched (x : AsyncExecutor) : List Submission := x.coroutines.map Coroutine.submission

/-- What has been dispatched, and what will be next. -/
def taken (x : AsyncExecutor) : List Submission := x.dispatched ++ x.pending

/-- Something is queued only while there is no slot. -/
def Full (x : AsyncExecutor) : Prop := x.pending ≠ [] → x.maxConcurrent ≤ x.inFlightCount

theorem dispatched_of_lt {x : AsyncExecutor} (h : x.inFlightCount < x.maxConcurrent)
    (e : Submission) : (x.dispatch e).dispatched = x.dispatched ++ [e] := by
  rw [dispatch_of_lt h]
  simp [dispatched, Coroutine.start]

/-- A submission is taken, though it may go past what is queued. -/
theorem taken_submit (x : AsyncExecutor) (e : Submission) :
    (x.submit e).taken.Perm (x.taken ++ [e]) ∧
      (x.Full → (x.submit e).taken = x.taken ++ [e] ∧ (x.submit e).Full) := by
  by_cases hroom : x.inFlightCount < x.maxConcurrent
  · have htaken : (x.submit e).taken = x.dispatched ++ [e] ++ x.pending := by
      rw [submit_of_lt hroom]
      simp [taken, dispatched, Coroutine.start]
    rw [htaken]
    refine ⟨?_, ?_⟩
    · rw [taken, List.append_assoc, List.append_assoc]
      exact List.perm_append_comm.append_left _
    · intro hfull
      have hpending : x.pending = [] := by
        by_contra hne
        exact absurd (hfull hne) (Nat.not_le.mpr hroom)
      refine ⟨by simp [taken, hpending], ?_⟩
      rw [submit_of_lt hroom]
      exact fun hne => absurd hpending hne
  · have htaken : (x.submit e).taken = x.taken ++ [e] := by
      rw [submit_of_ge (Nat.not_lt.mp hroom)]
      exact (List.append_assoc _ _ _).symm
    rw [htaken]
    refine ⟨List.Perm.refl _, fun _ => ⟨rfl, ?_⟩⟩
    rw [submit_of_ge (Nat.not_lt.mp hroom)]
    exact fun _ => Nat.not_lt.mp hroom

/-- The queue is dispatched from its front. -/
theorem taken_pullFrom (pending : List Submission) :
    ∀ x : AsyncExecutor, (pullFrom pending x).taken = x.dispatched ++ pending ∧
      (pullFrom pending x).Full := by
  induction pending with
  | nil => exact fun x => ⟨rfl, fun hne => absurd rfl hne⟩
  | cons e rest ih =>
      intro x
      rw [pullFrom]
      split_ifs with hroom
      · obtain ⟨htaken, hfull⟩ := ih (x.dispatch e)
        rw [htaken, dispatched_of_lt hroom, List.append_assoc]
        exact ⟨rfl, hfull⟩
      · exact ⟨rfl, fun _ => Nat.not_lt.mp hroom⟩

theorem taken_pull (x : AsyncExecutor) : x.pull.taken = x.taken := (taken_pullFrom x.pending x).1

theorem taken_resume {x x' : AsyncExecutor} {i : ℕ} {o : Outcome} (h : x.resume i o = some x') :
    x'.taken = x.taken ∧ (x.Full → x'.Full) := by
  have hdispatched : x'.dispatched = x.dispatched := Backlog.dispatched_resume h
  obtain ⟨c, turn, -, -, -, rfl⟩ := resume_some h
  rw [taken, hdispatched, settle_pending, taken]
  refine ⟨rfl, ?_⟩
  simp [Full]

theorem dispatched_cancelAll (x : AsyncExecutor) (is : List ℕ) :
    (x.cancelAll is).dispatched = x.dispatched := by
  refine List.ext_getElem? fun i => ?_
  simp only [dispatched, List.getElem?_map, cancelAll_getElem?, Option.map_map]
  congr 1
  funext c
  simp only [Function.comp_apply]
  split_ifs <;> rfl

end AsyncExecutor

/-! ### One event -/

/-- What has been submitted, in order. -/
def submissions (as : List Event) : List Submission :=
  as.filterMap fun
    | .submit e => some e
    | _ => none

/-- The wave has been waited for, or given up, and is about to be closed. -/
def Drain.closing : Drain → Bool
  | .awaited => true
  | .interrupting _ => true
  | _ => false

namespace System

/-- The event submits nothing to a wave that is about to be closed. -/
def InTime (s : System) : Event → Prop
  | .submit _ => s.drain.closing = false
  | _ => True

instance (s : System) : (a : Event) → Decidable (s.InTime a)
  | .submit _ => inferInstanceAs (Decidable (s.drain.closing = false))
  | .drain | .resume _ _ | .loop | .wake | .deadline | .cancel => isTrue trivial

/-- An event, where it is in time. -/
def nextInTime (s : System) (a : Event) : Option System := if s.InTime a then s.next a else none

/-- Nothing is queued while there is a slot, nor when the wave is about to be closed. -/
structure Queues (s : System) : Prop where
  full : s.executor.Full
  closing : s.drain.closing = true → s.executor.pending = []

/-- What one event does to the queue and to what has been dispatched. -/
inductive Takes (s : System) : Event → System → Prop
  | submit {e s'} (htaken : s'.executor.taken.Perm (s.executor.taken ++ [e]))
      (hdrain : s'.drain = s.drain)
      (hqueues : s.Queues → s.InTime (.submit e) →
        s'.executor.taken = s.executor.taken ++ [e] ∧ s'.Queues) :
      Takes s (.submit e) s'
  | same {a s'} (ha : submissions [a] = []) (htaken : s'.executor.taken = s.executor.taken)
      (hdrain : (∃ waiting, s'.drain = .expiring waiting) →
        a = .deadline ∨ ∃ waiting, s.drain = .expiring waiting)
      (hqueues : s.Queues → s'.Queues) : Takes s a s'
  | discard {waiting s'} (hexpiring : s.drain = .expiring waiting)
      (hdispatched : s'.executor.taken = s.executor.dispatched)
      (hdrain : ∀ waiting, s'.drain ≠ .expiring waiting) (hqueues : s'.Queues) :
      Takes s .wake s'

theorem gathered_drain (x : AsyncExecutor) :
    (gathered x).drain = if x.pull.Settled then .awaited else .head := rfl

theorem gathered_not_expiring (x : AsyncExecutor) (waiting : List ℕ) :
    (gathered x).drain ≠ .expiring waiting := by
  rw [gathered_drain]
  split_ifs <;> nofun

theorem queues_gathered (x : AsyncExecutor) : (gathered x).Queues := by
  refine ⟨(AsyncExecutor.taken_pullFrom x.pending x).2, ?_⟩
  rw [gathered_drain]
  split_ifs with hsettled
  · exact fun _ => hsettled.2.1
  · exact nofun

/-- **Inversion.** -/
theorem Step.takes {s s' : System} {a : Event} (h : Step s a s') : Takes s a s' := by
  cases h with
  | @submit x d e hd =>
      obtain ⟨hperm, hfull⟩ := x.taken_submit e
      refine .submit hperm rfl ?_
      intro hqueues htime
      obtain ⟨htaken, hfull'⟩ := hfull hqueues.full
      refine ⟨htaken, hfull', ?_⟩
      exact fun hclosing => absurd hclosing (Bool.eq_false_iff.mp htime)
  | @resume x x' d i o hd hres =>
      obtain ⟨htaken, hfull⟩ := AsyncExecutor.taken_resume hres
      refine .same rfl htaken Or.inr fun hqueues => ⟨hfull hqueues.full, ?_⟩
      intro hclosing
      obtain ⟨c, turn, -, -, -, rfl⟩ := AsyncExecutor.resume_some hres
      rw [AsyncExecutor.settle_pending]
      exact hqueues.closing hclosing
  | drain => exact .same rfl rfl nofun fun hqueues => ⟨hqueues.full, nofun⟩
  | @enter x d hd =>
      unfold waitAll
      split_ifs
      · exact .same rfl x.taken_pull
          (fun hexp => absurd hexp.choose_spec (gathered_not_expiring x _))
          fun _ => queues_gathered x
      · exact .same rfl rfl nofun fun hqueues => ⟨hqueues.full, nofun⟩
  | @gathered x waiting hdone =>
      exact .same rfl x.taken_pull
        (fun hexp => absurd hexp.choose_spec (gathered_not_expiring x _))
        fun _ => queues_gathered x
  | @finalize x =>
      refine .same rfl rfl nofun fun hqueues => ⟨?_, nofun⟩
      have hpending : x.pending = [] := hqueues.closing rfl
      exact fun hne => absurd hpending hne
  | @interrupt x waiting hdone =>
      have hdispatched : x.cancelAndSeed.taken = x.dispatched :=
        (List.append_nil _).trans (x.dispatched_cancelAll x.live)
      unfold System.interrupt
      split_ifs
      · exact .discard rfl hdispatched nofun ⟨fun hne => absurd rfl hne, nofun⟩
      · exact .discard rfl hdispatched nofun ⟨fun hne => absurd rfl hne, fun _ => rfl⟩
  | @reap x waiting hdone =>
      refine .same rfl rfl nofun fun hqueues => ⟨?_, nofun⟩
      have hpending : x.pending = [] := hqueues.closing rfl
      exact fun hne => absurd hpending hne
  | abort => exact .same rfl rfl nofun fun hqueues => ⟨hqueues.full, nofun⟩
  | @deadline x d waiting hgathers =>
      have htaken : (x.cancelAll waiting).taken = x.taken :=
        congrArg (· ++ x.pending) (x.dispatched_cancelAll waiting)
      exact .same rfl htaken (fun _ => Or.inl rfl) fun hqueues => ⟨hqueues.full, nofun⟩
  | @cancel x d waiting hgathers =>
      have htaken : (x.cancelAll waiting).taken = x.taken :=
        congrArg (· ++ x.pending) (x.dispatched_cancelAll waiting)
      exact .same rfl htaken nofun fun hqueues => ⟨hqueues.full, nofun⟩
  | giveUp => exact .same rfl rfl nofun fun hqueues => ⟨hqueues.full, nofun⟩

/-! ### Whole runs -/

theorem submissions_concat (as : List Event) (a : Event) :
    submissions (as ++ [a]) = submissions as ++ submissions [a] :=
  List.filterMap_append

/-- What has been submitted is dispatched, queued, or thrown away, the last only by a
deadline. -/
structure Accounted (as : List Event) (s : System) : Prop where
  perm : ∃ dropped, (s.executor.taken ++ dropped).Perm (submissions as) ∧
    (.deadline ∉ as → dropped = [])
  expiring : (∃ waiting, s.drain = .expiring waiting) → .deadline ∈ as

theorem Accounted.step {as : List Event} {s s' : System} {a : Event} (h : Accounted as s)
    (hstep : Takes s a s') : Accounted (as ++ [a]) s' := by
  obtain ⟨⟨dropped, hperm, hnone⟩, hexpiring⟩ := h
  have hmem : .deadline ∉ as ++ [a] → .deadline ∉ as :=
    fun hno hin => hno (List.mem_append_left _ hin)
  cases hstep with
  | @submit e s' htaken hdrain =>
      refine ⟨⟨dropped, ?_, fun hno => hnone (hmem hno)⟩, ?_⟩
      · rw [submissions_concat]
        refine (htaken.append_right dropped).trans ?_
        rw [List.append_assoc]
        refine (List.perm_append_comm.append_left _).trans ?_
        rw [← List.append_assoc]
        exact hperm.append_right [e]
      · rw [hdrain]
        exact fun hexp => List.mem_append_left _ (hexpiring hexp)
  | same ha htaken hdrain =>
      rw [← htaken] at hperm
      refine ⟨⟨dropped, ?_, fun hno => hnone (hmem hno)⟩, ?_⟩
      · rw [submissions_concat, ha, List.append_nil]
        exact hperm
      · intro hexp
        rcases hdrain hexp with rfl | hexp
        · exact List.mem_append_right _ (List.mem_singleton_self _)
        · exact List.mem_append_left _ (hexpiring hexp)
  | discard hexp hdispatched hdrain =>
      have hin := hexpiring ⟨_, hexp⟩
      refine ⟨⟨s.executor.pending ++ dropped, ?_, ?_⟩, ?_⟩
      · rw [hdispatched, ← List.append_assoc, submissions_concat]
        exact hperm.trans (by simp [submissions])
      · exact fun hno => absurd (List.mem_append_left _ hin) hno
      · exact fun hexp => absurd hexp.choose_spec (hdrain _)

/-- **No submission is lost, made up or dispatched twice.** Over any number of waves, whoever
submits and whenever, what has been dispatched and what is queued are, each as often as it
was, what has been submitted, but for what a deadline has thrown out of the queue. -/
theorem submissions_accounted (cap : ℕ) {as : List Event} {s : System}
    (h : Lts.exec next ⟨.new cap, .idle⟩ as = some s) :
    ∃ dropped, (s.executor.dispatched ++ s.executor.pending ++ dropped).Perm (submissions as) ∧
      (.deadline ∉ as → dropped = []) := by
  have haccounted : Accounted as s := by
    refine Lts.exec_trace (I := Accounted) ?_ ?_ h
    · exact ⟨⟨[], List.Perm.refl _, fun _ => rfl⟩, by simp⟩
    · exact fun as s a s' hs hstep => hs.step (step_of_next hstep).takes
  exact haccounted.perm

/-- Two commands, one slot, and a deadline before the drain has looked. -/
def cutOff : List Event :=
  [.submit ⟨"a", "true"⟩, .submit ⟨"b", "true"⟩, .drain, .deadline, .wake]

theorem submissions_accounted_cutOff :
    ∃ s, Lts.exec next ⟨.new 1, .idle⟩ cutOff = some s ∧
      ∃ dropped,
        (s.executor.dispatched ++ s.executor.pending ++ dropped).Perm (submissions cutOff) ∧
        (.deadline ∉ cutOff → dropped = []) := by
  obtain ⟨s, hs⟩ : ∃ s, Lts.exec next ⟨.new 1, .idle⟩ cutOff = some s :=
    Option.isSome_iff_exists.mp (by decide)
  exact ⟨s, hs, submissions_accounted 1 hs⟩

/-- What has been dispatched and what is queued came in this order. -/
structure InOrder (as : List Event) (s : System) : Prop where
  queues : s.Queues
  order : s.executor.taken.Sublist (submissions as)
  complete : .deadline ∉ as → s.executor.taken = submissions as
  expiring : (∃ waiting, s.drain = .expiring waiting) → .deadline ∈ as

theorem InOrder.step {as : List Event} {s s' : System} {a : Event} (h : InOrder as s)
    (htime : s.InTime a) (hstep : Takes s a s') : InOrder (as ++ [a]) s' := by
  have hmem : .deadline ∉ as ++ [a] → .deadline ∉ as :=
    fun hno hin => hno (List.mem_append_left _ hin)
  cases hstep with
  | @submit e s' htaken hdrain hqueues =>
      obtain ⟨heq, hqueues'⟩ := hqueues h.queues htime
      refine ⟨hqueues', ?_, ?_, ?_⟩
      · rw [heq, submissions_concat]
        exact h.order.append (List.Sublist.refl _)
      · intro hno
        rw [heq, submissions_concat, h.complete (hmem hno)]
        rfl
      · rw [hdrain]
        exact fun hexp => List.mem_append_left _ (h.expiring hexp)
  | same ha htaken hdrain hqueues =>
      refine ⟨hqueues h.queues, ?_, ?_, ?_⟩
      · rw [htaken, submissions_concat, ha, List.append_nil]
        exact h.order
      · intro hno
        rw [htaken, submissions_concat, ha, List.append_nil]
        exact h.complete (hmem hno)
      · intro hexp
        rcases hdrain hexp with rfl | hexp
        · exact List.mem_append_right _ (List.mem_singleton_self _)
        · exact List.mem_append_left _ (h.expiring hexp)
  | discard hexp hdispatched hdrain hqueues =>
      have hin := h.expiring ⟨_, hexp⟩
      refine ⟨hqueues, ?_, fun hno => absurd (List.mem_append_left _ hin) hno,
        fun hexp => absurd hexp.choose_spec (hdrain _)⟩
      rw [hdispatched, submissions_concat]
      exact ((List.sublist_append_left _ _).trans h.order).trans (List.sublist_append_left _ _)

/-- **First in, first out.** In a run in which nothing is submitted to a wave that is being
closed, commands are dispatched in the order they were submitted, each at most once, and
what is queued comes behind; as long as there is no deadline, that is all of them. -/
theorem dispatched_in_order (cap : ℕ) {as : List Event} {s : System}
    (h : Lts.exec nextInTime ⟨.new cap, .idle⟩ as = some s) :
    (s.executor.dispatched ++ s.executor.pending).Sublist (submissions as) ∧
      (.deadline ∉ as → s.executor.dispatched ++ s.executor.pending = submissions as) := by
  have horder : InOrder as s := by
    refine Lts.exec_trace (I := InOrder) ?_ ?_ h
    · exact ⟨⟨fun hne => absurd rfl hne, fun _ => rfl⟩, List.Sublist.refl _, fun _ => rfl, by simp⟩
    · intro as s a s' hs hstep
      unfold nextInTime at hstep
      split_ifs at hstep with htime
      exact hs.step htime (step_of_next hstep).takes
  exact ⟨horder.order, horder.complete⟩

theorem dispatched_in_order_cutOff :
    ∃ s, Lts.exec nextInTime ⟨.new 1, .idle⟩ cutOff = some s ∧
      (s.executor.dispatched ++ s.executor.pending).Sublist (submissions cutOff) ∧
        (.deadline ∉ cutOff →
          s.executor.dispatched ++ s.executor.pending = submissions cutOff) := by
  obtain ⟨s, hs⟩ : ∃ s, Lts.exec nextInTime ⟨.new 1, .idle⟩ cutOff = some s :=
    Option.isSome_iff_exists.mp (by decide)
  exact ⟨s, hs, dispatched_in_order 1 hs⟩

/-- A command is queued while the drain that has waited for another is about to return; the
one submitted after that goes first. -/
def overtakes : List Event :=
  [.submit ⟨"a", "true"⟩, .drain, .loop, .resume 0 .done, .resume 0 .done, .resume 0 .done, .loop,
    .submit ⟨"b", "true"⟩, .wake, .submit ⟨"c", "true"⟩]

example : ((Lts.exec next ⟨.new 1, .idle⟩ overtakes).map fun s =>
    (s.executor.dispatched.map Submission.taskId, s.executor.pending.map Submission.taskId))
      = some (["a", "c"], ["b"]) := by decide

end System

end Taskq.Executor
