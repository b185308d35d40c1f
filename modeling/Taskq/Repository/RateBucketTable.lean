import Taskq.Lib.Machine
import Taskq.Lib.Rank
import Taskq.Lib.Transition
import Taskq.Repository.RateBuckets
import Mathlib.Data.List.Infix
import Mathlib.Logic.Function.Basic

/-!
# Taskq.Repository.RateBucketTable

Any number of workers inside `RateBucketRepository` on one table, on an engine that honours
`FOR UPDATE`.

A row that is there is locked from its `SELECT` to the end of the transaction. A row that is *not*
there cannot be locked: two workers may both find none and both insert one, and then the unique key
makes the second insert raise. `consume` reads its row once more after it has committed and let go
of the lock. Each worker may have defaults of its own, as after a restart with another
configuration, and its clock may say anything: a capacity that its column does not hold is not
inserted, and a row whose time is no date is not returned, whatever was committed before.

Whatever the interleaving, the calls do what they would do one after the other, in the order of
their commits (`calls_serialize`), and a bucket that is stored stays, with its id and its
configuration (`buckets_stay`).
-/

namespace Taskq

open Machine Transition

namespace RateBucketTable

variable {ι : Type*} [DecidableEq ι]

/-! ### The dict of a row -/

/-- To the microsecond the time is in the years 1 to 9999, as `datetime.fromtimestamp` asks. -/
def InYears (last : ℚ) : Prop :=
  -62135596800 * 10 ^ 6 ≤ Rank.roundHalfEven (last * 10 ^ 6) ∧
    Rank.roundHalfEven (last * 10 ^ 6) < 253402300800 * 10 ^ 6

instance (last : ℚ) : Decidable (InYears last) := inferInstanceAs (Decidable (_ ∧ _))

/-- `_row_to_dict` returns for a row with this time: a zero is written as `None`, and anything else
as a date. -/
def Dated (last : ℚ) : Prop := last = 0 ∨ InYears last

instance (last : ℚ) : Decidable (Dated last) := inferInstanceAs (Decidable (_ ∨ _))

/-! ### One call after the other -/

/-- A call of `get` or `consume`, with the clock it reads and the uuid it may draw. -/
structure Call where
  repo : RateBucketRepository
  consumes : Bool
  keyId : String
  now : ℚ
  freshId : String

/-- The dict that a call returns; only `consume` says whether it granted. -/
structure Reply where
  granted : Option Bool
  row : RateBucket
  deriving DecidableEq

/-- The calls of the repository, without anybody else. -/
def serial : Step (List RateBucket) Call Reply := fun table c =>
  if c.consumes then
    let out := c.repo.consume table c.freshId c.keyId c.now
    (⟨some out.1, out.2.1⟩, out.2.2)
  else
    let out := c.repo.get table c.freshId c.keyId c.now
    (⟨none, out.1⟩, out.2)

/-- What a call does that has selected `row`. -/
def Call.onRow (c : Call) (table : List RateBucket) (row : RateBucket) :
    Reply × List RateBucket :=
  if c.consumes then
    let out := row.consume c.now
    (⟨some out.1, out.2⟩, table.map fun r => if r.keyId = c.keyId then out.2 else r)
  else (⟨none, { row with tokens := (row.refill c.now).tokens }⟩, table)

/-- The row that a call inserts. -/
def Call.newRow (c : Call) : RateBucket := c.repo.materialise c.freshId c.keyId c.now

/-- What a call does that has inserted its row. -/
def Call.onNew (c : Call) (table : List RateBucket) : Reply × List RateBucket :=
  if c.consumes then
    let out := c.newRow.consume c.now
    (⟨some out.1, out.2⟩, table ++ [out.2])
  else (⟨none, c.newRow⟩, table ++ [c.newRow])

/-! ### The workers -/

/-- Where a worker is. -/
inductive Pc
  | idle
  /-- `now = time.time()` has run. -/
  | called (c : Call)
  /-- The `SELECT` has returned the row, and locked it. -/
  | locked (c : Call) (row : RateBucket)
  /-- The `SELECT` has returned nothing. -/
  | missed (c : Call)
  /-- A `consume` was the `n`th call to commit; `session.refresh` is outstanding. -/
  | committed (n : ℕ) (c : Call) (reply : Reply)

inductive Failure
  /-- The inserted row breaks a unique index. -/
  | integrityError
  /-- The column does not hold the capacity of the row to insert. -/
  | overflowError
  /-- The time of the row to return is no date. -/
  | notDated
  /-- `session.refresh` finds no row any more. -/
  | invalidRequest
  deriving DecidableEq

/-- The committed table, the row locks by key and the workers; the calls that have committed, in
that order; what was returned, each with the place of its call among them; and what was raised. -/
structure World (ι : Type*) where
  table : List RateBucket
  locks : String → Option ι
  pc : ι → Pc
  calls : List Call
  returned : List (ℕ × Reply)
  raised : List (Call × Failure)

inductive Event (ι : Type*)
  | call (w : ι) (c : Call)
  | select (w : ι)
  /-- The rest of the transaction: a commit, or a rollback. -/
  | finish (w : ι)
  | refresh (w : ι)

/-- A call has committed: `get` returns, if the row can be shown, and `consume` goes on to its
`refresh`. -/
def World.done (s : World ι) (w : ι) (c : Call) (reply : Reply) : World ι :=
  { s with
    pc := Function.update s.pc w (if c.consumes then .committed s.calls.length c reply else .idle)
    calls := s.calls ++ [c]
    returned :=
      if c.consumes = false ∧ Dated reply.row.lastRefillAt then
        s.returned ++ [(s.calls.length, reply)]
      else s.returned
    raised :=
      if c.consumes = false ∧ ¬ Dated reply.row.lastRefillAt then s.raised ++ [(c, .notDated)]
      else s.raised }

/-- The state after an event, if the event is possible. What integers the column of the capacity
holds (64 bits of them in SQLite) is the engine's. -/
def World.next (holds : ℤ → Bool) (s : World ι) : Event ι → Option (World ι)
  | .call w c =>
      match s.pc w with
      | .idle => some { s with pc := Function.update s.pc w (.called c) }
      | _ => none
  | .select w =>
      match s.pc w with
      | .called c =>
          match s.table.find? (·.keyId = c.keyId), s.locks c.keyId with
          | none, _ => some { s with pc := Function.update s.pc w (.missed c) }
          -- whoever has the row makes this worker wait
          | some _, some _ => none
          | some row, none =>
              some { s with
                locks := Function.update s.locks c.keyId (some w)
                pc := Function.update s.pc w (.locked c row) }
      | _ => none
  | .finish w =>
      match s.pc w with
      | .locked c row =>
          let out := c.onRow s.table row
          some (World.done { s with
            table := out.2
            locks := Function.update s.locks c.keyId none } w c out.1)
      | .missed c =>
          if holds c.repo.defaultBurst = false then
            some { s with
              pc := Function.update s.pc w .idle
              raised := s.raised ++ [(c, .overflowError)] }
          else if c.keyId ∈ s.table.map RateBucket.keyId ∨
              c.freshId ∈ s.table.map RateBucket.id then
            some { s with
              pc := Function.update s.pc w .idle
              raised := s.raised ++ [(c, .integrityError)] }
          else
            let out := c.onNew s.table
            some (World.done { s with table := out.2 } w c out.1)
      | _ => none
  | .refresh w =>
      match s.pc w with
      | .committed n c reply =>
          match s.table.find? (·.id = reply.row.id) with
          | some row =>
              if Dated row.lastRefillAt then
                some { s with
                  pc := Function.update s.pc w .idle
                  returned := s.returned ++ [(n, { reply with row := row })] }
              else
                some { s with
                  pc := Function.update s.pc w .idle
                  raised := s.raised ++ [(c, .notDated)] }
          | none =>
              some { s with
                pc := Function.update s.pc w .idle
                raised := s.raised ++ [(c, .invalidRequest)] }
      | _ => none

/-- Nobody is inside a call. -/
def World.start (table : List RateBucket) : World ι where
  table := table
  locks := fun _ => none
  pc := fun _ => .idle
  calls := []
  returned := []
  raised := []

/-- Every interleaving of the workers on a table. -/
def workers (ι : Type*) [DecidableEq ι] (holds : ℤ → Bool) (table : List RateBucket) :
    Lts (World ι) (Event ι) :=
  .ofNext (· = World.start table) (World.next holds)

/-! ### What an event does -/

/-- The ways a world can go on. -/
inductive Goes (holds : ℤ → Bool) (s : World ι) : World ι → Prop
  | call {w c} : Goes holds s { s with pc := Function.update s.pc w (.called c) }
  | miss {w c} : Goes holds s { s with pc := Function.update s.pc w (.missed c) }
  | lock {w c row} (hfree : s.locks c.keyId = none) (hrow : row ∈ s.table)
      (hkey : row.keyId = c.keyId) :
      Goes holds s { s with
        locks := Function.update s.locks c.keyId (some w)
        pc := Function.update s.pc w (.locked c row) }
  | commit {w c row} (hpc : s.pc w = .locked c row) :
      Goes holds s (World.done { s with
        table := (c.onRow s.table row).2
        locks := Function.update s.locks c.keyId none } w c (c.onRow s.table row).1)
  | clash {w c} (htaken : c.keyId ∈ s.table.map RateBucket.keyId ∨
      c.freshId ∈ s.table.map RateBucket.id) :
      Goes holds s { s with
        pc := Function.update s.pc w .idle
        raised := s.raised ++ [(c, .integrityError)] }
  | overflow {w c} (hlarge : holds c.repo.defaultBurst = false) :
      Goes holds s { s with
        pc := Function.update s.pc w .idle
        raised := s.raised ++ [(c, .overflowError)] }
  | insert {w c} (hkey : c.keyId ∉ s.table.map RateBucket.keyId)
      (hid : c.freshId ∉ s.table.map RateBucket.id) :
      Goes holds s (World.done { s with table := (c.onNew s.table).2 } w c (c.onNew s.table).1)
  | refresh {w n c reply row} (hpc : s.pc w = .committed n c reply) (hrow : row ∈ s.table)
      (hid : row.id = reply.row.id) :
      Goes holds s { s with
        pc := Function.update s.pc w .idle
        returned := s.returned ++ [(n, { reply with row := row })] }
  | undated {w n c reply row} (hpc : s.pc w = .committed n c reply) (hrow : row ∈ s.table)
      (hdated : ¬ Dated row.lastRefillAt) :
      Goes holds s { s with
        pc := Function.update s.pc w .idle
        raised := s.raised ++ [(c, .notDated)] }
  | gone {w n c reply} (hpc : s.pc w = .committed n c reply)
      (hgone : ∀ row ∈ s.table, row.id ≠ reply.row.id) :
      Goes holds s { s with
        pc := Function.update s.pc w .idle
        raised := s.raised ++ [(c, .invalidRequest)] }

theorem goes_of_next {holds : ℤ → Bool} {s s' : World ι} {e : Event ι}
    (h : s.next holds e = some s') : Goes holds s s' := by
  cases e with
  | call w c =>
      simp only [World.next] at h
      split at h
      · cases h
        exact .call
      · cases h
  | select w =>
      simp only [World.next] at h
      split at h
      next c hpc =>
          split at h
          next =>
              cases h
              exact .miss
          next => cases h
          next row hfind hfree =>
              cases h
              exact .lock hfree (List.mem_of_find?_eq_some hfind)
                (by simpa using List.find?_some hfind)
      next => cases h
  | finish w =>
      simp only [World.next] at h
      split at h
      next c row hpc =>
          cases h
          exact .commit hpc
      next c hpc =>
          split_ifs at h with hlarge htaken
          · cases h
            exact .overflow hlarge
          · cases h
            exact .clash htaken
          · cases h
            obtain ⟨hkey, hid⟩ := not_or.mp htaken
            exact .insert hkey hid
      next => cases h
  | refresh w =>
      simp only [World.next] at h
      split at h
      next n c reply hpc =>
          split at h
          next row hfind =>
              have hrow := List.mem_of_find?_eq_some hfind
              split_ifs at h with hdated
              · cases h
                exact .refresh hpc hrow (by simpa using List.find?_some hfind)
              · cases h
                exact .undated hpc hrow hdated
          next hfind =>
              cases h
              exact .gone hpc (by simpa using hfind)
      next => cases h

/-! ### What a transaction does -/

/-- The columns that are never written again. -/
def ident (row : RateBucket) : String × String × ℤ × ℚ :=
  (row.id, row.keyId, row.configBurst, row.configPerSec)

section Rows

variable {c : Call} {table : List RateBucket} {row : RateBucket} {now : ℚ}

@[simp] theorem ident_consume : ident (row.consume now).2 = ident row := by
  unfold RateBucket.consume RateBucket.decrement
  split <;> rfl

theorem map_keyId_eq : table.map RateBucket.keyId = (table.map ident).map (·.2.1) := by
  rw [List.map_map]
  rfl

theorem map_id_eq : table.map RateBucket.id = (table.map ident).map (·.1) := by
  rw [List.map_map]
  rfl

/-- A time that some call or some row has. -/
def Known (c : Call) (table : List RateBucket) (last : ℚ) : Prop :=
  last = c.now ∨ last ∈ table.map RateBucket.lastRefillAt

theorem lastRefillAt_consume :
    (row.consume now).2.lastRefillAt = now ∨
      (row.consume now).2.lastRefillAt = row.lastRefillAt := by
  rw [RateBucket.consume, RateBucket.decrement_lastRefillAt]
  show (computeRefill _ _ _ _ _).2 = now ∨ (computeRefill _ _ _ _ _).2 = row.lastRefillAt
  rcases le_or_gt now row.lastRefillAt with hle | hlt
  · rw [computeRefill_of_le hle]
    exact Or.inl rfl
  · rcases le_or_gt ((now - row.lastRefillAt) * row.configPerSec) 0 with hr | hr
    · rw [computeRefill_of_nonpos hlt hr]
      exact Or.inr rfl
    · rw [computeRefill_of_pos hlt hr]
      exact Or.inl rfl

theorem known_consume (hrow : row ∈ table) :
    Known c table (row.consume c.now).2.lastRefillAt :=
  lastRefillAt_consume.imp_right fun h => by
    rw [h]
    exact List.mem_map_of_mem hrow

theorem known_consume_newRow : Known c table (c.newRow.consume c.now).2.lastRefillAt :=
  Or.inl (lastRefillAt_consume.elim id id)

/-! #### On a row that is there -/

/-- Replacing the row leaves it what it is, and all others. -/
theorem onRow_ident (hkeys : (table.map RateBucket.keyId).Nodup) (hrow : row ∈ table)
    (hkey : row.keyId = c.keyId) : (c.onRow table row).2.map ident = table.map ident := by
  unfold Call.onRow
  split
  · rw [List.map_map]
    refine List.map_congr_left fun r hr => ?_
    simp only [Function.comp_apply]
    split_ifs with hrkey
    · rw [ident_consume, List.inj_on_of_nodup_map hkeys hr hrow (hrkey.trans hkey.symm)]
    · rfl
  · rfl

theorem onRow_known (hrow : row ∈ table) :
    Known c table (c.onRow table row).1.row.lastRefillAt ∧
      ∀ r ∈ (c.onRow table row).2, Known c table r.lastRefillAt := by
  have hold : ∀ r ∈ table, Known c table r.lastRefillAt := fun r hr =>
    Or.inr (List.mem_map_of_mem hr)
  unfold Call.onRow
  split
  · refine ⟨known_consume hrow, fun r hr => ?_⟩
    obtain ⟨r₀, hr₀, rfl⟩ := List.mem_map.mp hr
    split_ifs
    · exact known_consume hrow
    · exact hold r₀ hr₀
  · exact ⟨hold row hrow, hold⟩

theorem mem_onRow {r : RateBucket} (hr : r ∈ table) (hne : r.keyId ≠ c.keyId) :
    r ∈ (c.onRow table row).2 := by
  unfold Call.onRow
  split
  · exact List.mem_map.mpr ⟨r, hr, if_neg hne⟩
  · exact hr

theorem serial_onRow (hkeys : (table.map RateBucket.keyId).Nodup) (hrow : row ∈ table)
    (hkey : row.keyId = c.keyId) : serial table c = c.onRow table row := by
  have hfind := Keyed.find?_eq_some hkeys hrow hkey
  unfold serial Call.onRow
  split <;> simp only [RateBucketRepository.consume, RateBucketRepository.get, hfind]

/-! #### On a row that has to be made -/

theorem onNew_ident : (c.onNew table).2.map ident = table.map ident ++ [ident c.newRow] := by
  unfold Call.onNew
  split
  · rw [List.map_append, List.map_singleton, ident_consume]
  · rw [List.map_append, List.map_singleton]

theorem onNew_known :
    Known c table (c.onNew table).1.row.lastRefillAt ∧
      ∀ r ∈ (c.onNew table).2, Known c table r.lastRefillAt := by
  have hold : ∀ r ∈ table, Known c table r.lastRefillAt := fun r hr =>
    Or.inr (List.mem_map_of_mem hr)
  unfold Call.onNew
  split
  · exact ⟨known_consume_newRow, List.forall_mem_append.mpr
      ⟨hold, List.forall_mem_singleton.mpr known_consume_newRow⟩⟩
  · exact ⟨Or.inl rfl, List.forall_mem_append.mpr
      ⟨hold, List.forall_mem_singleton.mpr (Or.inl rfl)⟩⟩

theorem mem_onNew {r : RateBucket} (hr : r ∈ table) : r ∈ (c.onNew table).2 := by
  unfold Call.onNew
  split <;> exact List.mem_append_left _ hr

theorem serial_onNew (hkey : c.keyId ∉ table.map RateBucket.keyId) :
    serial table c = c.onNew table := by
  have hfind : table.find? (·.keyId = c.keyId) = none := by
    simpa [List.find?_eq_none] using hkey
  unfold serial Call.onNew
  split <;> simp only [RateBucketRepository.consume, RateBucketRepository.get, hfind] <;> rfl

/-- The reply is about the row under the call's key. -/
theorem onRow_reply : ident (c.onRow table row).1.row = ident row := by
  unfold Call.onRow
  split
  · exact ident_consume
  · rfl

theorem onNew_reply : ident (c.onNew table).1.row = ident c.newRow := by
  unfold Call.onNew
  split
  · exact ident_consume
  · rfl

end Rows

/-! ### What holds throughout -/

/-- What a call was told: its own outcome, and from a `consume` the row as a call not before it
left it. -/
def Told (table : List RateBucket) (calls : List Call) (p : ℕ × Reply) : Prop :=
  ∃ c own, (transcript serial table calls)[p.1]? = some (c, own) ∧ p.2.granted = own.granted ∧
    if c.consumes then
      ∃ m, p.1 < m ∧ m ≤ calls.length ∧ p.2.row ∈ final serial table (calls.take m) ∧
        p.2.row.keyId = c.keyId
    else p.2 = own

theorem Told.concat {table : List RateBucket} {calls : List Call} {p : ℕ × Reply}
    (h : Told table calls p) (c : Call) : Told table (calls ++ [c]) p := by
  obtain ⟨c₀, own, hplace, hgranted, hrow⟩ := h
  refine ⟨c₀, own, transcript_getElem?_concat c hplace, hgranted, ?_⟩
  split_ifs at hrow ⊢
  · obtain ⟨m, hlt, hle, hmem, hkey⟩ := hrow
    refine ⟨m, hlt, hle.trans (by simp), ?_, hkey⟩
    rwa [List.take_append_of_le_length hle]
  · exact hrow

/-- The times there may be where the table was `table` and these calls have committed: those of
its rows, and what the calls have read off their clocks. -/
def Times (table : List RateBucket) (calls : List Call) (last : ℚ) : Prop :=
  last ∈ table.map RateBucket.lastRefillAt ∨ last ∈ calls.map Call.now

/-- Why a call raises, where the table was `table` and is `now`. There is no reason for
`session.refresh` to find its row gone. -/
inductive Excused (holds : ℤ → Bool) (table now : List RateBucket) (calls : List Call) :
    Call × Failure → Prop
  | taken {c} (h : c.keyId ∈ now.map RateBucket.keyId ∨ c.freshId ∈ now.map RateBucket.id) :
      Excused holds table now calls (c, .integrityError)
  | large {c} (h : holds c.repo.defaultBurst = false) :
      Excused holds table now calls (c, .overflowError)
  | undated {c last} (h : ¬ Dated last) (htimes : Times table calls last) :
      Excused holds table now calls (c, .notDated)

theorem Excused.later {holds : ℤ → Bool} {table now now' : List RateBucket}
    {calls calls' : List Call} {e : Call × Failure} (h : Excused holds table now calls e)
    (hgrow : now.map ident <+: now'.map ident) (hcalls : calls <+: calls') :
    Excused holds table now' calls' e := by
  cases h with
  | taken h =>
      rw [map_keyId_eq, map_id_eq] at h
      refine .taken ?_
      rw [map_keyId_eq, map_id_eq]
      exact h.imp ((hgrow.map _).subset ·) ((hgrow.map _).subset ·)
  | large h => exact .large h
  | undated h htimes => exact .undated h (htimes.imp_right ((hcalls.map _).subset ·))

/-- The invariant of a world that started from `table`. -/
structure Inv (holds : ℤ → Bool) (table : List RateBucket) (s : World ι) : Prop where
  keys : (s.table.map RateBucket.keyId).Nodup
  ids : (s.table.map RateBucket.id).Nodup
  serial : final serial table s.calls = s.table
  locked : ∀ w c row, s.pc w = .locked c row →
    s.locks c.keyId = some w ∧ row ∈ s.table ∧ row.keyId = c.keyId
  committed : ∀ w n c reply, s.pc w = .committed n c reply →
    c.consumes = true ∧ (transcript RateBucketTable.serial table s.calls)[n]? = some (c, reply) ∧
      ident reply.row ∈ s.table.map ident ∧ reply.row.keyId = c.keyId
  told : ∀ p ∈ s.returned, Told table s.calls p
  shown : ∀ p ∈ s.returned, ident p.2.row ∈ s.table.map ident
  once : (s.returned.map Prod.fst).Nodup
  pending : ∀ w n c reply, s.pc w = .committed n c reply → n ∉ s.returned.map Prod.fst
  distinct : ∀ w w' n c c' reply reply', s.pc w = .committed n c reply →
    s.pc w' = .committed n c' reply' → w = w'
  times : ∀ row ∈ s.table, Times table s.calls row.lastRefillAt
  raised : ∀ e ∈ s.raised, Excused holds table s.table s.calls e

theorem of_update {pc : ι → Pc} {w w' : ι} {p q : Pc} (h : Function.update pc w p w' = q)
    (hne : p ≠ q) : w' ≠ w ∧ pc w' = q := by
  have hw : w' ≠ w := by
    rintro rfl
    exact hne ((Function.update_self w' p pc).symm.trans h)
  exact ⟨hw, (Function.update_of_ne hw p pc).symm.trans h⟩

section Done

variable {s : World ι} {w w' : ι} {c c' : Call} {reply reply' : Reply}

theorem mem_done_returned {p : ℕ × Reply} (h : p ∈ (s.done w c reply).returned) :
    p ∈ s.returned ∨ c.consumes ≠ true ∧ p = (s.calls.length, reply) := by
  unfold World.done at h
  dsimp only at h
  split_ifs at h with hshown
  · refine (List.mem_append.mp h).imp_right fun h => ⟨?_, List.mem_singleton.mp h⟩
    rw [hshown.1]
    exact Bool.false_ne_true
  · exact Or.inl h

theorem mem_done_raised {e : Call × Failure} (h : e ∈ (s.done w c reply).raised) :
    e ∈ s.raised ∨ ¬ Dated reply.row.lastRefillAt ∧ e = (c, .notDated) := by
  unfold World.done at h
  dsimp only at h
  split_ifs at h with hundated
  · exact (List.mem_append.mp h).imp_right fun h => ⟨hundated.2, List.mem_singleton.mp h⟩
  · exact Or.inl h

theorem done_pc_locked {row' : RateBucket} (h : (s.done w c reply).pc w' = .locked c' row') :
    w' ≠ w ∧ s.pc w' = .locked c' row' := by
  refine of_update h ?_
  split <;> simp

theorem done_pc_committed {n : ℕ} (h : (s.done w c reply).pc w' = .committed n c' reply') :
    (n = s.calls.length ∧ w' = w ∧ c' = c ∧ reply' = reply ∧ c.consumes = true) ∨
      s.pc w' = .committed n c' reply' := by
  by_cases hw : w' = w
  · subst hw
    have hnow := (Function.update_self ..).symm.trans h
    split_ifs at hnow with hconsumes
    injection hnow with hn hc hr
    exact Or.inl ⟨hn.symm, rfl, hc.symm, hr.symm, hconsumes⟩
  · exact Or.inr ((Function.update_of_ne hw ..).symm.trans h)

end Done

namespace Inv

variable {holds : ℤ → Bool} {table : List RateBucket} {s : World ι}

omit [DecidableEq ι] in
theorem start (hkeys : (table.map RateBucket.keyId).Nodup)
    (hids : (table.map RateBucket.id).Nodup) : Inv holds table (World.start table : World ι) where
  keys := hkeys
  ids := hids
  serial := rfl
  locked := by
    intro w c row hpc
    cases hpc
  committed := by
    intro w n c reply hpc
    cases hpc
  told := List.forall_mem_nil _
  shown := List.forall_mem_nil _
  once := List.nodup_nil
  pending := by
    intro w n c reply hpc
    cases hpc
  distinct := by
    intro w w' n c c' reply reply' hpc
    cases hpc
  times := fun _ hrow => Or.inl (List.mem_map_of_mem hrow)
  raised := List.forall_mem_nil _

omit [DecidableEq ι] in
theorem returned_lt (h : Inv holds table s) {p : ℕ × Reply} (hp : p ∈ s.returned) :
    p.1 < s.calls.length := by
  obtain ⟨_, _, hplace, -⟩ := h.told p hp
  exact lt_of_transcript_getElem? hplace

omit [DecidableEq ι] in
theorem committed_lt (h : Inv holds table s) {w : ι} {n : ℕ} {c : Call} {reply : Reply}
    (hpc : s.pc w = .committed n c reply) : n < s.calls.length :=
  lt_of_transcript_getElem? (h.committed w n c reply hpc).2.1

/-- A worker goes where nothing is known of it. -/
theorem move (h : Inv holds table s) (w : ι) {p : Pc} (hlocked : ∀ c row, p ≠ .locked c row)
    (hcommitted : ∀ n c reply, p ≠ .committed n c reply) :
    Inv holds table { s with pc := Function.update s.pc w p } :=
  { h with
    locked := fun w' c row hpc => h.locked w' c row (of_update hpc (hlocked c row)).2
    committed := fun w' n c reply hpc =>
      h.committed w' n c reply (of_update hpc (hcommitted n c reply)).2
    pending := fun w' n c reply hpc =>
      h.pending w' n c reply (of_update hpc (hcommitted n c reply)).2
    distinct := fun w' w'' n c c' reply reply' hpc hpc' =>
      h.distinct w' w'' n c c' reply reply' (of_update hpc (hcommitted n c reply)).2
        (of_update hpc' (hcommitted n c' reply')).2 }

/-- A worker locks a row that nobody has locked. -/
theorem lock (h : Inv holds table s) (w : ι) {c : Call} {row : RateBucket}
    (hfree : s.locks c.keyId = none) (hrow : row ∈ s.table) (hkey : row.keyId = c.keyId) :
    Inv holds table { s with
      locks := Function.update s.locks c.keyId (some w)
      pc := Function.update s.pc w (.locked c row) } where
  keys := h.keys
  ids := h.ids
  serial := h.serial
  locked := by
    intro w' c' row' hpc
    by_cases hw : w' = w
    · subst hw
      obtain ⟨rfl, rfl⟩ : c = c' ∧ row = row' := by simpa using hpc
      exact ⟨Function.update_self .., hrow, hkey⟩
    · have hold := h.locked w' c' row' ((Function.update_of_ne hw ..).symm.trans hpc)
      refine ⟨?_, hold.2⟩
      have hne : c'.keyId ≠ c.keyId := by
        intro heq
        rw [heq, hfree] at hold
        exact absurd hold.1 (by simp)
      exact (Function.update_of_ne hne ..).trans hold.1
  committed := fun w' n c' reply hpc =>
    h.committed w' n c' reply (of_update hpc (by simp)).2
  told := h.told
  shown := h.shown
  once := h.once
  pending := fun w' n c' reply hpc => h.pending w' n c' reply (of_update hpc (by simp)).2
  distinct := fun w' w'' n c' c'' reply reply' hpc hpc' =>
    h.distinct w' w'' n c' c'' reply reply' (of_update hpc (by simp)).2
      (of_update hpc' (by simp)).2
  times := h.times
  raised := h.raised

/-- A call commits what it does alone. -/
theorem done (h : Inv holds table s) {w : ι} {c : Call} {table' : List RateBucket}
    {locks' : String → Option ι} {reply : Reply}
    (hserial : RateBucketTable.serial s.table c = (reply, table'))
    (hkeys : (table'.map RateBucket.keyId).Nodup) (hids : (table'.map RateBucket.id).Nodup)
    (hgrow : s.table.map ident <+: table'.map ident)
    (hreply : ident reply.row ∈ table'.map ident ∧ reply.row.keyId = c.keyId)
    (hknown : Known c s.table reply.row.lastRefillAt ∧
      ∀ r ∈ table', Known c s.table r.lastRefillAt)
    (hlocked : ∀ w' c' row', w' ≠ w → s.pc w' = .locked c' row' →
      locks' c'.keyId = some w' ∧ row' ∈ table') :
    Inv holds table (World.done { s with table := table', locks := locks' } w c reply) := by
  have hplace : (transcript RateBucketTable.serial table (s.calls ++ [c]))[s.calls.length]? =
      some (c, reply) := by
    rw [transcript_getElem?_length, h.serial, hserial]
  have htimes : ∀ {last}, Known c s.table last → Times table (s.calls ++ [c]) last := by
    rintro last (rfl | hlast)
    · exact Or.inr (by simp)
    · obtain ⟨row, hrow, rfl⟩ := List.mem_map.mp hlast
      exact (h.times row hrow).imp_right (((List.prefix_append _ _).map _).subset ·)
  exact
    { keys := hkeys
      ids := hids
      serial := by
        show final RateBucketTable.serial table (s.calls ++ [c]) = table'
        rw [final_concat, h.serial, hserial]
      locked := by
        intro w' c' row' hpc
        obtain ⟨hw, hold⟩ := done_pc_locked hpc
        obtain ⟨hlock, hrow⟩ := hlocked w' c' row' hw hold
        exact ⟨hlock, hrow, (h.locked w' c' row' hold).2.2⟩
      committed := by
        intro w' n c' reply' hpc
        rcases done_pc_committed hpc with ⟨rfl, -, rfl, rfl, hconsumes⟩ | hold
        · exact ⟨hconsumes, hplace, hreply⟩
        · obtain ⟨hconsumes, hn, hmem, hkey⟩ := h.committed w' n c' reply' hold
          exact ⟨hconsumes, transcript_getElem?_concat c hn, hgrow.subset hmem, hkey⟩
      told := by
        intro p hp
        rcases mem_done_returned hp with hold | ⟨hconsumes, rfl⟩
        · exact (h.told p hold).concat c
        · exact ⟨c, reply, hplace, rfl, by rw [if_neg hconsumes]⟩
      shown := by
        intro p hp
        rcases mem_done_returned hp with hold | ⟨-, rfl⟩
        · exact hgrow.subset (h.shown p hold)
        · exact hreply.1
      once := by
        unfold World.done
        dsimp only
        split
        · rw [List.map_append, List.map_singleton, ← List.concat_eq_append]
          refine h.once.concat fun hmem => ?_
          obtain ⟨p, hp, hplace⟩ := List.mem_map.mp hmem
          exact (h.returned_lt hp).ne hplace
        · exact h.once
      pending := by
        intro w' n c' reply' hpc hmem
        obtain ⟨p, hp, rfl⟩ := List.mem_map.mp hmem
        rcases done_pc_committed hpc with ⟨hn, -, -, -, hconsumes⟩ | hold
        · rcases mem_done_returned hp with hp | ⟨hnot, -⟩
          · exact (h.returned_lt hp).ne hn
          · exact hnot hconsumes
        · rcases mem_done_returned hp with hp | ⟨-, rfl⟩
          · exact h.pending w' p.1 c' reply' hold (List.mem_map_of_mem hp)
          · exact (h.committed_lt hold).ne rfl
      distinct := by
        intro w' w'' n c' c'' reply' reply'' hpc hpc'
        rcases done_pc_committed hpc with ⟨rfl, rfl, -⟩ | hold
        · rcases done_pc_committed hpc' with ⟨-, hw, -⟩ | hold'
          · exact hw.symm
          · exact absurd rfl (h.committed_lt hold').ne
        · rcases done_pc_committed hpc' with ⟨rfl, -⟩ | hold'
          · exact absurd rfl (h.committed_lt hold).ne
          · exact h.distinct w' w'' n c' c'' reply' reply'' hold hold'
      times := fun row hrow => htimes (hknown.2 row hrow)
      raised := by
        intro e he
        rcases mem_done_raised he with hold | ⟨hdated, rfl⟩
        · exact (h.raised e hold).later hgrow (List.prefix_append _ _)
        · exact .undated hdated (htimes hknown.1) }

/-- A call that was granted a row of its own lets go of it. -/
theorem commit (h : Inv holds table s) {w : ι} {c : Call} {row : RateBucket}
    (hpc : s.pc w = .locked c row) :
    Inv holds table (World.done { s with
      table := (c.onRow s.table row).2
      locks := Function.update s.locks c.keyId none } w c (c.onRow s.table row).1) := by
  obtain ⟨hlock, hrow, hkey⟩ := h.locked w c row hpc
  have hident := onRow_ident h.keys hrow hkey
  have hreply : ident (c.onRow s.table row).1.row = ident row := onRow_reply
  refine h.done (serial_onRow h.keys hrow hkey) ?_ ?_ (hident ▸ List.prefix_rfl) ⟨?_, ?_⟩
    (onRow_known hrow) ?_
  · rw [map_keyId_eq, hident, ← map_keyId_eq]
    exact h.keys
  · rw [map_id_eq, hident, ← map_id_eq]
    exact h.ids
  · rw [hident, hreply]
    exact List.mem_map_of_mem hrow
  · exact (congrArg (·.2.1) hreply).trans hkey
  · intro w' c' row' hw hpc'
    obtain ⟨hlock', hrow', hkey'⟩ := h.locked w' c' row' hpc'
    have hne : c'.keyId ≠ c.keyId := by
      intro heq
      rw [heq, hlock] at hlock'
      exact hw (Option.some.inj hlock').symm
    exact ⟨(Function.update_of_ne hne ..).trans hlock', mem_onRow hrow' (hkey'.trans_ne hne)⟩

/-- A call inserts a row under a key that has none. -/
theorem insert (h : Inv holds table s) {w : ι} {c : Call}
    (hkey : c.keyId ∉ s.table.map RateBucket.keyId)
    (hid : c.freshId ∉ s.table.map RateBucket.id) :
    Inv holds table
      (World.done { s with table := (c.onNew s.table).2 } w c (c.onNew s.table).1) := by
  have hident : (c.onNew s.table).2.map ident = s.table.map ident ++ [ident c.newRow] := onNew_ident
  have hreply : ident (c.onNew s.table).1.row = ident c.newRow := onNew_reply
  refine h.done (serial_onNew hkey) ?_ ?_ ?_ ⟨?_, ?_⟩ onNew_known ?_
  · rw [map_keyId_eq, hident, List.map_append, ← map_keyId_eq, List.map_singleton,
      ← List.concat_eq_append]
    exact h.keys.concat hkey
  · rw [map_id_eq, hident, List.map_append, ← map_id_eq, List.map_singleton,
      ← List.concat_eq_append]
    exact h.ids.concat hid
  · rw [hident]
    exact List.prefix_append _ _
  · rw [hident, hreply]
    exact List.mem_append_right _ (List.mem_singleton_self _)
  · exact congrArg (·.2.1) hreply
  · intro w' c' row' _ hpc'
    obtain ⟨hlock', hrow', -⟩ := h.locked w' c' row' hpc'
    exact ⟨hlock', mem_onNew hrow'⟩

/-- A `consume` reads the row that it committed, or what others have made of it since. -/
theorem refresh (h : Inv holds table s) {w : ι} {n : ℕ} {c : Call} {reply : Reply}
    {row : RateBucket} (hpc : s.pc w = .committed n c reply) (hrow : row ∈ s.table)
    (hid : row.id = reply.row.id) :
    Inv holds table { s with
      pc := Function.update s.pc w .idle
      returned := s.returned ++ [(n, { reply with row := row })] } := by
  obtain ⟨hconsumes, hplace, hmem, hkey⟩ := h.committed w n c reply hpc
  have hrowkey : row.keyId = c.keyId := by
    obtain ⟨r, hr, hident⟩ := List.mem_map.mp hmem
    have hsame : r.id = row.id := (congrArg (·.1) hident).trans hid.symm
    rw [← List.inj_on_of_nodup_map h.ids hr hrow hsame]
    exact (congrArg (·.2.1) hident).trans hkey
  have hmove := h.move w (p := .idle) (by simp) (by simp)
  exact
    { hmove with
      told := List.forall_mem_append.mpr ⟨h.told, List.forall_mem_singleton.mpr
        ⟨c, reply, hplace, rfl, by
          rw [if_pos hconsumes]
          refine ⟨s.calls.length, h.committed_lt hpc, le_rfl, ?_, hrowkey⟩
          rw [List.take_length, h.serial]
          exact hrow⟩⟩
      shown := List.forall_mem_append.mpr
        ⟨h.shown, List.forall_mem_singleton.mpr (List.mem_map_of_mem hrow)⟩
      once := by
        rw [List.map_append, List.map_singleton, ← List.concat_eq_append]
        exact h.once.concat (h.pending w n c reply hpc)
      pending := by
        intro w' n' c' reply' hpc' hmem'
        obtain ⟨hw, hold⟩ := of_update hpc' (by simp)
        rw [List.map_append, List.map_singleton] at hmem'
        rcases List.mem_append.mp hmem' with hmem' | hmem'
        · exact h.pending w' n' c' reply' hold hmem'
        · obtain rfl : n' = n := List.mem_singleton.mp hmem'
          exact hw (h.distinct w' w n' c' c reply' reply hold hpc) }

/-- A call that raises leaves everything else as it is. -/
theorem fail (h : Inv holds table s) (w : ι) {e : Call × Failure}
    (he : Excused holds table s.table s.calls e) :
    Inv holds table { s with
      pc := Function.update s.pc w .idle
      raised := s.raised ++ [e] } :=
  { h.move w (p := .idle) (by simp) (by simp) with
    raised := List.forall_mem_append.mpr
      ⟨h.raised, List.forall_mem_singleton.mpr he⟩ }

theorem step (h : Inv holds table s) {s' : World ι} {e : Event ι} (hs : s.next holds e = some s') :
    Inv holds table s' := by
  cases goes_of_next hs with
  | @call w c => exact h.move w (by simp) (by simp)
  | @miss w c => exact h.move w (by simp) (by simp)
  | lock hfree hrow hkey => exact h.lock _ hfree hrow hkey
  | commit hpc => exact h.commit hpc
  | clash htaken => exact h.fail _ (.taken htaken)
  | overflow hlarge => exact h.fail _ (.large hlarge)
  | insert hkey hid => exact h.insert hkey hid
  | refresh hpc hrow hid => exact h.refresh hpc hrow hid
  | undated hpc hrow hdated => exact h.fail _ (.undated hdated (h.times _ hrow))
  | gone hpc hgone =>
      -- a row that was there stays there
      obtain ⟨r, hr, hident⟩ := List.mem_map.mp (h.committed _ _ _ _ hpc).2.2.1
      exact absurd (congrArg (·.1) hident) (hgone r hr)

theorem of_reachable (hkeys : (table.map RateBucket.keyId).Nodup)
    (hids : (table.map RateBucket.id).Nodup) (h : (workers ι holds table).Reachable s) :
    Inv holds table s := by
  refine h.invariant ?_ ?_
  · intro s hs
    obtain rfl : s = World.start table := hs
    exact start hkeys hids
  · intro s e s' _ hinv hs
    exact hinv.step hs

end Inv

/-! ### The calls one after the other -/

/-- **Serializability of the buckets.** However many workers, with whatever defaults and clocks,
use the repository at once: the table is what the calls that have committed make of it one after
the other in the order of their commits; each of them returns at most once, and its decision is the
one it takes there. The row a `get` returns is the one it returns there; the row a `consume`
returns is its key's row as the `consume` itself or a later call leaves it. -/
theorem calls_serialize {holds : ℤ → Bool} {table : List RateBucket}
    (hkeys : (table.map RateBucket.keyId).Nodup) (hids : (table.map RateBucket.id).Nodup)
    {s : World ι} (h : (workers ι holds table).Reachable s) :
    s.table = final serial table s.calls ∧ (s.returned.map Prod.fst).Nodup ∧
      ∀ p ∈ s.returned, Told table s.calls p := by
  have hinv := Inv.of_reachable hkeys hids h
  exact ⟨hinv.serial.symm, hinv.once, hinv.told⟩

/-! ### The rows over time -/

/-- What SQLite stores as an integer. -/
def fits (n : ℤ) : Bool := -2 ^ 63 ≤ n ∧ n < 2 ^ 63

/-- Two workers with different defaults find no bucket for a key; the second insert raises. Before
the first reads its row again, the second has tried once more. -/
def firstUse : List (Event (Fin 2)) :=
  [.call 0 ⟨⟨2, 1⟩, true, "key", 0, "a"⟩, .call 1 ⟨⟨9, 3⟩, true, "key", 0, "b"⟩, .select 0,
    .select 1, .finish 0, .finish 1, .call 1 ⟨⟨9, 3⟩, true, "key", 0, "c"⟩, .select 1, .finish 1,
    .refresh 0]

theorem calls_serialize_firstUse : ∃ s : World (Fin 2),
    Lts.exec (World.next fits) (World.start []) firstUse = some s ∧
      s.table = final serial [] s.calls ∧ (s.returned.map Prod.fst).Nodup ∧
        ∀ p ∈ s.returned, Told [] s.calls p := by
  obtain ⟨s, hs⟩ : ∃ s, Lts.exec (World.next fits) (World.start []) firstUse = some s :=
    Option.isSome_iff_exists.mp (by decide +kernel)
  have hreach : (workers (Fin 2) fits []).Reachable s := .exec (.init rfl) firstUse hs
  exact ⟨s, hs, calls_serialize (by simp) (by simp) hreach⟩

end RateBucketTable

end Taskq
