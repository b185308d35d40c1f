import Mathlib.Data.List.Lex
import Taskq.Lib.Browse
import Taskq.Repository.TaskList

/-!
# Taskq.Repository.Browse

A client goes through the task list while others create and delete tasks.

Each page is selected from the tasks there are at that moment, behind the cursor the page
before has given. That cursor selects by days (`behind_cursor`), so the days of the pages
go up, and a task of a day that a page ends in is shown on that page or not at all
(`Shows`).
-/

namespace Taskq.TaskList

open Unicode

variable (realText : Json.Float → List Char)

/-- Pages that are asked for with the cursor of the one before, each of the database as it
is then; `done` when the last has no `next_cursor`. -/
inductive Browsing (limit : ℤ) (status : Option String) :
    List Database → Option PyStr → List (List TaskDict) → Bool → Prop
  | stop {cursor} : Browsing limit status [] cursor [] false
  | last {db cursor page} (h : list realText db limit cursor status = .ok (page, none)) :
      Browsing limit status [db] cursor [page] true
  | more {db dbs cursor page token pages done}
      (h : list realText db limit cursor status = .ok (page, some token))
      (hrest : Browsing limit status dbs (some token) pages done) :
      Browsing limit status (db :: dbs) cursor (page :: pages) done

/-- What the pages are of the tasks in the databases they were taken from. -/
structure Shows (status : Option String) (dbs : List Database) (pages : List (List Task))
    (done : Bool) : Prop where
  there : List.Forall₂ (fun db page => page.Sublist (matching db status)) dbs pages
  apart : pages.Pairwise fun p q => ∀ a ∈ p, ∀ b ∈ q, a.createdAt.date < b.createdAt.date
  once : pages.flatten.Nodup
  shown : done = true → ∀ t, (∀ db ∈ dbs, t ∈ matching db status) →
    ((∃ page ∈ pages, t ∈ page) ↔
      ∀ page ∈ pages, ∀ last, page.getLast? = some last →
        last.createdAt.date = t.createdAt.date → t ∈ page)

/-- The day of a task. -/
def day (t : Task) : List ℕ := t.createdAt.date

theorem matching_sorted (db : Database) (status : Option String) :
    Browse.Sorted day (matching db status) :=
  (matching_pairwise db status).imp fun hab => not_lt.mp hab.date

/-- What is selected behind a task with an id. -/
theorem selection_eq_behind {db : Database} {status : Option String} {c : Option Task}
    (hc : ∀ r ∈ c, r.id ≠ "") :
    selection db status c = Browse.behind day (matching db status) c := by
  cases c with
  | none => rfl
  | some r =>
      rw [selection, if_neg (hc r rfl)]
      exact List.filter_congr fun t _ => decide_eq_decide.mpr Iff.rfl

/-- The page of the rows behind a task with an id, or from the start. -/
theorem list_behind {limit : ℤ} (hlow : 1 ≤ limit) (hhigh : limit ≤ 200) {status : Option String}
    {db : Database} {c : Option Task} (hc : ∀ r ∈ c, r.id ≠ "") :
    list realText db limit (c.map cursorFor) status =
      .ok (((Browse.behind day (matching db status) c).take limit.toNat).map taskToDict,
        (boundary? limit.toNat (Browse.behind day (matching db status) c)).map cursorFor) := by
  rw [list_cursorFor realText hlow hhigh c, selection_eq_behind hc]

/-- **Browsing the list is paging through the days of its tasks.** -/
theorem pages_of_browsing {limit : ℤ} (hlow : 1 ≤ limit) (hhigh : limit ≤ 200)
    {status : Option String} {dbs : List Database} (hids : ∀ db ∈ dbs, ∀ t ∈ db.tasks, t.id ≠ "")
    {c : Option Task} (hc : ∀ r ∈ c, r.id ≠ "") {pages : List (List TaskDict)} {done : Bool}
    (h : Browsing realText limit status dbs (c.map cursorFor) pages done) :
    ∃ rows, pages = rows.map (List.map taskToDict) ∧
      Browse.Pages day limit.toNat (dbs.map fun db => matching db status) c rows done := by
  have hlimit : 0 < limit.toNat := by omega
  -- by induction on the pages; the cursor fed in is always that of a task
  generalize hcursor : c.map cursorFor = cursor at h
  induction h generalizing c with
  | stop => exact ⟨[], rfl, .stop⟩
  | last hok =>
      rw [← hcursor, list_behind realText hlow hhigh hc, Except.ok.injEq, Prod.mk.injEq,
        Option.map_eq_none_iff, boundary?_eq_none hlimit] at hok
      obtain ⟨rfl, hshort⟩ := hok
      rw [List.take_of_length_le hshort]
      exact ⟨[_], rfl, .last hshort⟩
  | @more db dbs _ _ _ _ _ hok hrest ih =>
      obtain ⟨hdb, hdbs⟩ := List.forall_mem_cons.mp hids
      rw [← hcursor, list_behind realText hlow hhigh hc, Except.ok.injEq, Prod.mk.injEq,
        Option.map_eq_some_iff] at hok
      obtain ⟨rfl, last, hboundary, htoken⟩ := hok
      obtain ⟨hlong, hget⟩ := boundary?_eq_some.mp hboundary
      have hlast : ∀ r ∈ some last, r.id ≠ "" := by
        intro r hr
        cases hr
        have hmem := Browse.behind_sublist.subset (List.mem_of_getElem? hget)
        exact hdb last (mem_tasks_of_matching hmem)
      obtain ⟨rows, rfl, hpages⟩ := ih hdbs hlast (congrArg some htoken)
      exact ⟨_ :: rows, rfl, .more hlong hget hpages⟩

/-- Pages that are parts of tables without repetitions, the days of which go up. -/
theorem nodup_flatten_of_apart {dbs : List Database} {status : Option String}
    {pages : List (List Task)}
    (hthere : List.Forall₂ (fun db page => page.Sublist (matching db status)) dbs pages)
    (hapart : pages.Pairwise fun p q => ∀ a ∈ p, ∀ b ∈ q, day a < day b) :
    pages.flatten.Nodup := by
  refine List.nodup_flatten.mpr ⟨?_, ?_⟩
  · intro page hpage
    induction hthere with
    | nil => cases hpage
    | @cons db page' _ _ hsub _ ih =>
        rcases List.mem_cons.mp hpage with rfl | hpage
        · exact (matching_nodup db status).sublist hsub
        · exact ih (List.pairwise_cons.mp hapart).2 hpage
  · refine hapart.imp fun hlt => ?_
    intro a ha ha'
    exact absurd (hlt a ha a ha') (lt_irrefl _)

/-- **Going through a list that changes.** Whatever others do to the tasks between the pages,
the days go up from page to page, so no task is shown twice; and once the last page has
been shown, a task that was there all the time has been shown exactly when no page has
ended on its day without it. -/
theorem browsing_shows {limit : ℤ} (hlow : 1 ≤ limit) (hhigh : limit ≤ 200)
    {status : Option String} {dbs : List Database} (hids : ∀ db ∈ dbs, ∀ t ∈ db.tasks, t.id ≠ "")
    {pages : List (List TaskDict)} {done : Bool}
    (h : Browsing realText limit status dbs none pages done) :
    ∃ rows, pages = rows.map (List.map taskToDict) ∧ Shows status dbs rows done := by
  have hlimit : 0 < limit.toNat := by omega
  obtain ⟨rows, rfl, hpages⟩ :=
    pages_of_browsing realText hlow hhigh hids (c := none) (by simp) h
  have hsorted : ∀ table ∈ dbs.map fun db => matching db status, Browse.Sorted day table := by
    intro table htable
    obtain ⟨db, -, rfl⟩ := List.mem_map.mp htable
    exact matching_sorted db status
  have hthere := List.forall₂_map_left_iff.mp hpages.sublist
  have hapart := hpages.apart hlimit hsorted
  refine ⟨rows, rfl, hthere, hapart, nodup_flatten_of_apart hthere hapart, ?_⟩
  intro hdone t ht
  subst hdone
  refine hpages.shown_iff hlimit hsorted ?_ (by simp [Browse.Beyond])
  intro table htable
  obtain ⟨db, hdb, rfl⟩ := List.mem_map.mp htable
  exact ht db hdb

/-- The first of the two tasks is deleted between the pages. -/
def deletedBetween : List Database := [twoDays, twoDays.removeTask "a"]

theorem browsing_shows_deletedBetween :
    (∀ db ∈ deletedBetween, ∀ t ∈ db.tasks, t.id ≠ "") ∧
      ∃ pages, Browsing (fun _ => []) 1 none deletedBetween none pages true ∧
        ∃ rows, pages = rows.map (List.map taskToDict) ∧ Shows none deletedBetween rows true := by
  have hids : ∀ db ∈ deletedBetween, ∀ t ∈ db.tasks, t.id ≠ "" := by decide
  let a : Task := sampleTask "a" (noon 2 (by decide))
  have hfirst : list (fun _ => []) twoDays 1 (none.map cursorFor) none = .ok (_, some _) :=
    list_behind (fun _ => []) (by decide) (by decide) (by simp)
  have hsecond : list (fun _ => []) (twoDays.removeTask "a") 1 ((some a).map cursorFor) none
      = .ok (_, none) := list_behind (fun _ => []) (by decide) (by decide) (by decide)
  have hbrowsing := Browsing.more hfirst (.last hsecond)
  exact ⟨hids, _, hbrowsing, browsing_shows (fun _ => []) (by decide) (by decide) hids hbrowsing⟩

end Taskq.TaskList
