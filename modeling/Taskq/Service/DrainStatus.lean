import Taskq.Service.Waves

/-!
# Taskq.Service.DrainStatus

The status of a drain against its ledger.

`run_until_drained` decides its status by how `wait_for` ends, and `_run_task` records
what became of its own process. A process that outlives its own timeout is killed and
recorded as interrupted, and `_wait_all` then finds everything recorded
(`summarises_iff`).
-/

namespace Taskq.Executor

/-- How a turn that nobody has cancelled bears on the timeout of its process. -/
inductive Cut : Pc → Outcome → Turn → Prop
  | expires {pc} : Cut pc (.timedOut true) (.goto .killing)
  | killed {o} (ho : o ≠ .timedOut true) : Cut .killing o (.finish (some .interrupted))
  | goesOn {pc pc' o} (ho : o ≠ .timedOut true) (hpc : pc ≠ .killing)
      (hpc' : pc' ≠ .killing ∧ pc' ≠ .reaping) : Cut pc o (.goto pc')
  | drained {pc o} (ho : o ≠ .timedOut true) (hpc : pc ≠ .killing) :
      Cut pc o (.finish (some .drained))

theorem cut_of_runTask {command : String} {pc : Pc} {o : Outcome} {turn : Turn}
    (h : runTask command pc o = some turn) (hpc : pc ≠ .reaping) (ho : ∀ k, o ≠ .cancelled k) :
    Cut pc o turn := by
  unfold runTask at h
  split at h
  case h_1 =>
      cases h
      split_ifs
      · exact .goesOn (by decide) (by decide) (by decide)
      · exact .drained (by decide) (by decide)
  all_goals
    cases h <;> first
      | exact .expires
      | exact .killed (by decide)
      | exact .goesOn (by decide) (by decide) (by decide)
      | exact .drained (by decide) (by decide)
      | exact absurd rfl (ho _)
      | exact absurd rfl hpc

namespace AsyncExecutor

/-- A process is being killed after its own timeout. -/
def Killing (x : AsyncExecutor) : Prop :=
  ∃ (i : ℕ) (c : Coroutine), x.coroutines[i]? = some c ∧ c.pc = .killing

/-- A process has run into its own timeout: it is being killed, or is recorded. -/
def CutShort (x : AsyncExecutor) : Prop :=
  x.Killing ∨ ∃ id, x.results.lookup id = some .interrupted

/-- Nobody has cancelled what is running, and nothing is recorded for it. -/
def Undisturbed (x : AsyncExecutor) : Prop :=
  ∀ i c, x.Running i c →
    c.cancelRequested = false ∧ c.pc ≠ .reaping ∧ c.submission.taskId ∉ x.results

theorem Finished.not_killing {x : AsyncExecutor} (h : x.Finished) : ¬ x.Killing := by
  intro hkilling
  obtain ⟨i, c, hc, hpc⟩ := hkilling
  exact h.not_running i c ⟨hc, by simp [hpc]⟩

theorem AtRest.not_cutShort {x : AsyncExecutor} (h : x.AtRest) : ¬ x.CutShort := by
  intro hcut
  rcases hcut with hkilling | ⟨id, hid⟩
  · exact h.finished.not_killing hkilling
  · have hmem : id ∈ x.results := AList.lookup_isSome.mp (by rw [hid]; rfl)
    exact not_mem_of_entries_nil h.results id hmem

theorem AtRest.undisturbed {x : AsyncExecutor} (h : x.AtRest) : x.Undisturbed :=
  fun i c hrunning => absurd hrunning (h.finished.not_running i c)

/-- A submission under a new id cuts nothing short. -/
theorem cutShort_submit {x : AsyncExecutor} {e : Submission}
    (hroom : x.inFlightCount < x.maxConcurrent) : (x.submit e).CutShort ↔ x.CutShort := by
  rw [submit_of_lt hroom]
  refine or_congr ⟨?_, ?_⟩ Iff.rfl
  · intro hkilling
    obtain ⟨i, c, hc, hpc⟩ := hkilling
    rcases getElem?_concat_eq_some.mp hc with hc | ⟨-, rfl⟩
    · exact ⟨i, c, hc, hpc⟩
    · cases hpc
  · intro hkilling
    obtain ⟨i, c, hc, hpc⟩ := hkilling
    exact ⟨i, c, getElem?_concat_eq_some.mpr (Or.inl hc), hpc⟩

theorem Undisturbed.submit {x : AsyncExecutor} (h : x.Undisturbed) {e : Submission}
    (hroom : x.inFlightCount < x.maxConcurrent) (hnew : e.taskId ∉ x.results) :
    (x.submit e).Undisturbed := by
  intro i c hrunning
  have hold := running_submit hroom hrunning
  rw [submit_of_lt hroom]
  rcases hold with hrunning | ⟨-, rfl⟩
  · exact h i c hrunning
  · exact ⟨rfl, nofun, hnew⟩

/-- A turn from and to elsewhere neither begins nor ends a kill. -/
theorem killing_settle {x : AsyncExecutor} {i : ℕ} {c : Coroutine} {turn : Turn}
    (hc : x.coroutines[i]? = some c) (hpc : c.pc ≠ .killing) (hturn : turn.pc ≠ .killing) :
    (x.settle i c turn).Killing ↔ x.Killing := by
  have hi : i < x.coroutines.length := (List.getElem?_eq_some_iff.mp hc).1
  unfold Killing
  rw [settle_coroutines]
  refine ⟨?_, ?_⟩
  · intro hkilling
    obtain ⟨j, d, hd, hdpc⟩ := hkilling
    rw [List.getElem?_set, if_pos hi] at hd
    split_ifs at hd with hij
    · cases hd
      exact absurd hdpc hturn
    · exact ⟨j, d, hd, hdpc⟩
  · intro hkilling
    obtain ⟨j, d, hd, hdpc⟩ := hkilling
    have hij : i ≠ j := by
      rintro rfl
      cases hc.symm.trans hd
      exact hpc hdpc
    refine ⟨j, d, ?_, hdpc⟩
    rw [List.getElem?_set_ne hij]
    exact hd

/-- A turn of a coroutine that nobody has cancelled. -/
theorem Undisturbed.turn {x x' : AsyncExecutor} (h : x.Undisturbed) {i : ℕ} {o : Outcome}
    (hres : x.resume i o = some x') :
    ∃ c turn, x' = x.settle i c turn ∧ x.Running i c ∧ c.submission.taskId ∉ x.results ∧
      Cut c.pc o turn := by
  obtain ⟨c, turn, hc, hadmits, hturn, rfl⟩ := resume_some hres
  have hrunning : x.Running i c := ⟨hc, runTask_unfinished hturn⟩
  obtain ⟨hflag, hpc, hnew⟩ := h i c hrunning
  have ho : ∀ k, o ≠ .cancelled k := by
    intro k hcancel
    subst hcancel
    rw [Coroutine.Admits, hflag] at hadmits
    cases hadmits
  exact ⟨c, turn, rfl, hrunning, hnew, cut_of_runTask hturn hpc ho⟩

/-- One turn cuts a process short exactly when its own timeout passes. -/
theorem cutShort_resume {x x' : AsyncExecutor} (h : x.Undisturbed) {i : ℕ} {o : Outcome}
    (hres : x.resume i o = some x') : x'.CutShort ↔ x.CutShort ∨ o = .timedOut true := by
  obtain ⟨c, turn, rfl, ⟨hc, -⟩, hnew, hcut⟩ := h.turn hres
  generalize hfrom : c.pc = pc at hcut
  cases hcut with
  | expires =>
      have hi : i < x.coroutines.length := (List.getElem?_eq_some_iff.mp hc).1
      have hkilling : (x.settle i c (.goto .killing)).Killing := by
        refine ⟨i, c.moveTo .killing, ?_, rfl⟩
        rw [settle_coroutines, List.getElem?_set_self hi]
        rfl
      exact iff_of_true (Or.inl hkilling) (Or.inr rfl)
  | killed =>
      have hrecorded : (x.settle i c (.finish (some .interrupted))).results.lookup
          c.submission.taskId = some .interrupted := AList.lookup_insert _
      exact iff_of_true (Or.inr ⟨_, hrecorded⟩) (Or.inl (Or.inl ⟨i, c, hc, hfrom⟩))
  | goesOn ho hpc hpc' =>
      rw [or_iff_left ho]
      exact or_congr (killing_settle hc (hfrom ▸ hpc) hpc'.1) Iff.rfl
  | drained ho hpc =>
      rw [or_iff_left ho]
      refine or_congr (killing_settle hc (hfrom ▸ hpc) nofun) (exists_congr fun id => ?_)
      show (x.results.insert c.submission.taskId .drained).lookup id = _ ↔ _
      by_cases hid : id = c.submission.taskId
      · rw [hid, AList.lookup_insert, AList.lookup_eq_none.mpr hnew]
        exact iff_of_false nofun nofun
      · rw [AList.lookup_insert_ne hid]

theorem Undisturbed.resume {x x' : AsyncExecutor} (h : x.Undisturbed) (hlisted : x.Listed)
    {i : ℕ} {o : Outcome} (hres : x.resume i o = some x') : x'.Undisturbed := by
  obtain ⟨c, turn, rfl, hrunning, hnew, hcut⟩ := h.turn hres
  generalize c.pc = pc at hcut
  intro j d hd
  rcases running_settle hd with ⟨rfl, rfl, hunfinished⟩ | ⟨hji, hother⟩
  · cases hcut with
    | expires => exact ⟨rfl, nofun, hnew⟩
    | goesOn _ _ hpc' => exact ⟨rfl, hpc'.2, hnew⟩
    | _ => exact absurd rfl hunfinished
  · obtain ⟨hflag, hpc, hdnew⟩ := h j d hother
    refine ⟨hflag, hpc, ?_⟩
    rcases x.settle_results i c turn with hsame | ⟨status, hinsert⟩
    · rw [hsame]
      exact hdnew
    · rw [hinsert, AList.mem_insert, not_or]
      refine ⟨?_, hdnew⟩
      -- what is listed under the id that is recorded is the coroutine itself
      intro hid
      have hlookup := hlisted j d hother
      rw [hid, hlisted i c hrunning] at hlookup
      exact hji (Option.some.inj hlookup).symm

end AsyncExecutor

end Taskq.Executor

namespace Taskq.Waves

open Executor Backlog Transition

variable {launches : ℕ → Bool}

/-! ### What the events of a run tell -/

/-- A task has run into its own timeout, and its process could be killed. -/
def TimedOut (as : List Event) : Prop := ∃ i, .resume i (.timedOut true) ∈ as

theorem timedOut_resume {as : List Event} {i : ℕ} {o : Outcome} :
    TimedOut (as ++ [.resume i o]) ↔ TimedOut as ∨ o = .timedOut true := by
  simp [TimedOut, exists_or, @eq_comm _ o]

theorem timedOut_concat {as : List Event} {a : Event} (ha : ∀ i o, a ≠ .resume i o) :
    TimedOut (as ++ [a]) ↔ TimedOut as := by
  have hother : ∀ i, Event.resume i (.timedOut true) ≠ a := fun i h => ha i _ h.symm
  simp [TimedOut, hother]

/-- The events so far and the executor agree, as long as the deadline has not passed. -/
structure Agrees (as : List Event) (x : AsyncExecutor) : Prop where
  deadline : .deadline ∉ as
  undisturbed : x.Undisturbed
  cutShort : x.CutShort ↔ TimedOut as

theorem Agrees.start {x : AsyncExecutor} (hx : x.AtRest) : Agrees [] x where
  deadline := List.not_mem_nil
  undisturbed := hx.undisturbed
  cutShort := iff_of_false hx.not_cutShort (by simp [TimedOut])

/-- An event of the drain. -/
theorem Agrees.concat {as : List Event} {x : AsyncExecutor} (h : Agrees as x) {a : Event}
    (hdeadline : a ≠ .deadline) (ha : ∀ i o, a ≠ .resume i o) : Agrees (as ++ [a]) x where
  deadline := by simp [h.deadline, hdeadline.symm]
  undisturbed := h.undisturbed
  cutShort := h.cutShort.trans (timedOut_concat ha).symm

theorem Agrees.submit {as : List Event} {x : AsyncExecutor} (h : Agrees as x) {e : Submission}
    (hroom : x.inFlightCount < x.maxConcurrent) (hnew : e.taskId ∉ x.results) :
    Agrees (as ++ [.submit e]) (x.submit e) where
  deadline := by simp [h.deadline]
  undisturbed := h.undisturbed.submit hroom hnew
  cutShort := by
    rw [AsyncExecutor.cutShort_submit hroom, timedOut_concat (by simp)]
    exact h.cutShort

theorem Agrees.resume {as : List Event} {x x' : AsyncExecutor} (h : Agrees as x)
    (hlisted : x.Listed) {i : ℕ} {o : Outcome} (hres : x.resume i o = some x') :
    Agrees (as ++ [.resume i o]) x' where
  deadline := by simp [h.deadline]
  undisturbed := h.undisturbed.resume hlisted hres
  cutShort := by
    rw [AsyncExecutor.cutShort_resume h.undisturbed hres, timedOut_resume]
    exact or_congr h.cutShort Iff.rfl

/-! ### What the drain tells -/

/-- What the status and the ledger of a drain say about the events before it. -/
def Tells (as : List Event) (s : Session) : Prop :=
  match s.system.drain with
  | .returned .interrupted _ => .deadline ∈ as
  | .returned .drained ledger =>
      .deadline ∉ as ∧ ((∃ id, ledger.lookup id = some .interrupted) ↔ TimedOut as)
  | .expiring _ | .interrupting _ => .deadline ∈ as
  | .aborting _ | .raised => True
  | _ => Agrees as s.system.executor

theorem tells_gathered {as : List Event} {x : AsyncExecutor} {rest : List Submission}
    (h : Agrees as x) (hpending : x.pending = []) : Tells as ⟨System.gathered x, rest⟩ := by
  rw [gathered_eq hpending]
  unfold Tells
  split_ifs <;> exact h

theorem Tells.step {cap : ℕ} {script : List Submission} {as : List Event} {s s' : Session}
    {a : Event} (hids : (script.map Submission.taskId).Nodup) (h : Tells as s)
    (haccounted : Accounted cap script s) (hpermits : Permits launches s a)
    (hstep : System.Step s.system a s'.system) (hrest : s'.script = s.rest a) :
    Tells (as ++ [a]) s' := by
  obtain ⟨⟨x, d⟩, rest⟩ := s
  obtain ⟨t, rest'⟩ := s'
  obtain rfl : rest' = Session.rest ⟨⟨x, d⟩, rest⟩ a := hrest
  replace hstep : System.Step ⟨x, d⟩ a t := hstep
  cases hstep with
  | @submit _ _ e _ =>
      obtain ⟨⟨rfl, hhead⟩, -⟩ := hpermits
      obtain ⟨tail, rfl⟩ : ∃ tail, rest = e :: tail := List.head?_eq_some_iff.mp hhead
      obtain ⟨hunderway, -⟩ := haccounted
      have hnew : e.taskId ∉ x.results := fun hmem =>
        hunderway.not_mem_submitted hids (hunderway.books.recorded _ hmem)
      exact Agrees.submit h hunderway.submit.1 hnew
  | @resume _ _ _ i o _ hres =>
      cases d with
      | returned status ledger => exact (haccounted.2.no_turn hres).elim
      | expiring => exact List.mem_append_left _ h
      | interrupting => exact List.mem_append_left _ h
      | awaited => exact (haccounted.2.1.no_turn hres).elim
      | aborting => trivial
      | raised => trivial
      | _ => exact Agrees.resume h haccounted.2 hres
  | drain =>
      obtain ⟨⟨rfl, rfl⟩, -⟩ := hpermits
      exact Agrees.concat h (by simp) (by simp)
  | enter hd =>
      have hparts : Agrees (as ++ [.loop]) x ∧ x.pending = [] := by
        rcases hd with rfl | rfl <;>
          exact ⟨Agrees.concat h (by simp) (by simp), haccounted.1.books.pending⟩
      unfold System.waitAll
      split_ifs
      · exact tells_gathered hparts.1 hparts.2
      · exact hparts.1
  | gathered =>
      exact tells_gathered (Agrees.concat h (by simp) (by simp)) haccounted.1.books.pending
  | finalize =>
      obtain ⟨hdeadline, -, hcut⟩ := Agrees.concat h (a := .wake) (by simp) (by simp)
      rw [AsyncExecutor.CutShort, or_iff_right haccounted.2.1.not_killing] at hcut
      exact ⟨hdeadline, hcut⟩
  | interrupt =>
      unfold System.interrupt
      split_ifs <;> exact List.mem_append_left _ h
  | reap => exact List.mem_append_left _ h
  | abort => trivial
  | deadline => exact List.mem_append_right _ List.mem_cons_self
  | cancel => trivial
  | giveUp => trivial

theorem tells_of_exec {x : AsyncExecutor} (hx : x.AtRest) {script : List Submission}
    (hlen : script.length ≤ x.maxConcurrent) (hids : (script.map Submission.taskId).Nodup)
    {as : List Event} {s : Session}
    (hrun : Lts.exec (next launches) ⟨⟨x, .idle⟩, script⟩ as = some s) : Tells as s := by
  have hreached : ((wave launches x script).Reachable s ∧ Tells as s) := by
    refine Lts.exec_trace (I := fun as s => (wave launches x script).Reachable s ∧ Tells as s)
      ⟨.init rfl, Agrees.start hx⟩ ?_ hrun
    intro as s a s' hboth hnext
    obtain ⟨hs, htells⟩ := hboth
    obtain ⟨haccounted, -⟩ := accounted_of_reachable hx hlen (noneReplaced_of_nodup hids _) hs
    obtain ⟨hpermits, hstep, hrest⟩ := step_of_next hnext
    exact ⟨hs.step hnext, htells.step hids haccounted hpermits hstep hrest⟩
  exact hreached.2

/-- A drain that says it is `drained` has a ledger in which everything is. -/
def Summarises (status : Status) (ledger : TaskDictOf Status) : Prop :=
  status = .drained → ∀ id entry, ledger.lookup id = some entry → entry = .drained

theorem summarises_drained {ledger : TaskDictOf Status} :
    Summarises .drained ledger ↔ ¬ ∃ id, ledger.lookup id = some .interrupted := by
  refine ⟨?_, ?_⟩
  · intro h hinterrupted
    obtain ⟨id, hid⟩ := hinterrupted
    cases h rfl id _ hid
  · intro h _ id entry hid
    cases entry with
    | drained => rfl
    | interrupted => exact absurd ⟨id, hid⟩ h

/-- One process that outlives its own timeout. -/
def overdue : List Submission := [⟨"a", "sleep 60"⟩]

/-- It is killed, and the drain finds nothing left to wait for. -/
def killedInTime : List Event :=
  [.submit ⟨"a", "sleep 60"⟩, .resume 0 .done, .resume 0 .done, .drain, .loop,
    .resume 0 (.timedOut true), .resume 0 .done, .loop, .wake]

/-- What a drain has returned: its status, and its ledger at an id. -/
def reported (id : String) : Drain → Option (Status × Option Status)
  | .returned status ledger => some (status, ledger.lookup id)
  | _ => none

/-- `{"status": "drained", "tasks": {"a": "interrupted"}}`. -/
theorem overdue_reported : ∃ s ledger,
    Lts.exec (next launchesAll) ⟨⟨.new 1, .idle⟩, overdue⟩ killedInTime = some s ∧
      s.system.drain = .returned .drained ledger ∧ ledger.lookup "a" = some .interrupted := by
  have hrun : ((Lts.exec (next launchesAll) ⟨⟨.new 1, .idle⟩, overdue⟩ killedInTime).map fun s =>
      reported "a" s.system.drain) = some (some (.drained, some .interrupted)) := by
    decide
  obtain ⟨s, hs, hreported⟩ := Option.map_eq_some_iff.mp hrun
  cases hdrain : s.system.drain with
  | returned status ledger =>
      rw [hdrain] at hreported
      obtain ⟨rfl, hentry⟩ := Prod.ext_iff.mp (Option.some.inj hreported)
      exact ⟨s, ledger, hs, hdrain, hentry⟩
  | _ =>
      rw [hdrain] at hreported
      cases hreported

theorem status_hides_timeout :
    ¬ ∀ as s status ledger, Lts.exec (next launchesAll) ⟨⟨.new 1, .idle⟩, overdue⟩ as = some s →
      s.system.drain = .returned status ledger → Summarises status ledger := by
  intro h
  obtain ⟨s, ledger, hs, hdrain, hentry⟩ := overdue_reported
  cases h killedInTime s .drained ledger hs hdrain rfl "a" .interrupted hentry

/-- **The status of a drain summarises its ledger if and only if the deadline has passed,
or no task has run into its own timeout.** -/
theorem summarises_iff {x : AsyncExecutor} (hx : x.AtRest) {script : List Submission}
    (hlen : script.length ≤ x.maxConcurrent) (hids : (script.map Submission.taskId).Nodup)
    {as : List Event} {s : Session}
    (hrun : Lts.exec (next launches) ⟨⟨x, .idle⟩, script⟩ as = some s)
    {status : Status} {ledger : TaskDictOf Status}
    (hreturned : s.system.drain = .returned status ledger) :
    Summarises status ledger ↔ .deadline ∈ as ∨ ¬ TimedOut as := by
  have htells := tells_of_exec hx hlen hids hrun
  rw [Tells, hreturned] at htells
  cases status with
  | interrupted => exact iff_of_true nofun (Or.inl htells)
  | drained =>
      obtain ⟨hdeadline, hcut⟩ := htells
      rw [summarises_drained, hcut, or_iff_right hdeadline]

theorem summarises_iff_overdue : ∃ s ledger,
    Lts.exec (next launchesAll) ⟨⟨.new 1, .idle⟩, overdue⟩ killedInTime = some s ∧
      s.system.drain = .returned .drained ledger ∧
      (Summarises .drained ledger ↔ .deadline ∈ killedInTime ∨ ¬ TimedOut killedInTime) := by
  obtain ⟨s, ledger, hs, hdrain, -⟩ := overdue_reported
  exact ⟨s, ledger, hs, hdrain,
    summarises_iff (AsyncExecutor.atRest_new 1) (by decide) (by decide) hs hdrain⟩

end Taskq.Waves
