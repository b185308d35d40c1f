import Mathlib.Data.List.Nodup
import Mathlib.Data.Nat.Basic
import Mathlib.Order.Lattice

/-!
# Taskq.Lib.Browse

Paging through a table that changes between the pages.

Each page is taken from the rows there are when it is asked for, sorted by rank, behind
the rank of the last row of the page before. What was shown is then of lower rank than
what is to come, whatever happens to the table, so no rank comes twice. A row that is
there throughout is left out when a page ends in the middle of its rank, before it, and
not otherwise (`Pages.shown_iff`).
-/

namespace Browse

variable {α δ : Type*} [LinearOrder δ] (rank : α → δ)

/-- The rows behind a cursor, or from the start. -/
def behind (rows : List α) : Option α → List α
  | none => rows
  | some r => rows.filter fun a => rank r < rank a

/-- Pages that were asked for one after the other, of tables that may all be different;
`done` when the last of them said that there are no more. -/
inductive Pages (limit : ℕ) : List (List α) → Option α → List (List α) → Bool → Prop
  | stop {c : Option α} : Pages limit [] c [] false
  | last {rows : List α} {c : Option α} (hlen : (behind rank rows c).length ≤ limit) :
      Pages limit [rows] c [behind rank rows c] true
  | more {rows : List α} {tables : List (List α)} {c : Option α} {last : α}
      {pages : List (List α)} {done : Bool} (hlen : limit < (behind rank rows c).length)
      (hlast : (behind rank rows c)[limit - 1]? = some last)
      (hrest : Pages limit tables (some last) pages done) :
      Pages limit (rows :: tables) c ((behind rank rows c).take limit :: pages) done

/-- The row is of a higher rank than the cursor. -/
def Beyond (c : Option α) (a : α) : Prop := ∀ r ∈ c, rank r < rank a

/-- The rows are in the order of their ranks. -/
def Sorted (rows : List α) : Prop := rows.Pairwise fun a b => rank a ≤ rank b

variable {rank} {limit : ℕ} {rows : List α} {tables : List (List α)} {c : Option α}
  {pages : List (List α)} {done : Bool}

theorem behind_sublist : (behind rank rows c).Sublist rows := by
  cases c with
  | none => exact List.Sublist.refl rows
  | some r => exact List.filter_sublist

theorem mem_behind {a : α} : a ∈ behind rank rows c ↔ a ∈ rows ∧ Beyond rank c a := by
  cases c with
  | none => simp [behind, Beyond]
  | some r => simp [behind, Beyond]

theorem Beyond.trans {last a : α} (h : Beyond rank c last) (ha : Beyond rank (some last) a) :
    Beyond rank c a :=
  fun r hr => (h r hr).trans (ha last rfl)

/-- The last row of a page of `limit` rows has the highest rank on it, and the lowest of
those that are left. -/
theorem Sorted.boundary (h : Sorted rank rows) (hlimit : 0 < limit) {last : α}
    (hlast : rows[limit - 1]? = some last) :
    (rows.take limit).getLast? = some last ∧ (∀ a ∈ rows.take limit, rank a ≤ rank last) ∧
      ∀ a ∈ rows, a ∉ rows.take limit → rank last ≤ rank a := by
  obtain ⟨hlt, rfl⟩ := List.getElem?_eq_some_iff.mp hlast
  have hget := List.pairwise_iff_getElem.mp h
  have hle : ∀ i j (hi : i < rows.length) (hj : j < rows.length), i ≤ j →
      rank rows[i] ≤ rank rows[j] := by
    intro i j hi hj hij
    rcases hij.lt_or_eq with hij | rfl
    · exact hget i j hi hj hij
    · exact le_refl _
  refine ⟨?_, ?_, ?_⟩
  · rw [List.getLast?_take, if_neg hlimit.ne', hlast, Option.some_or]
  · intro a ha
    obtain ⟨i, hi, rfl⟩ := List.mem_take_iff_getElem.mp ha
    exact hle _ _ _ _ (by omega)
  · intro a ha hout
    obtain ⟨i, hi, rfl⟩ := List.mem_iff_getElem.mp ha
    refine hle _ _ _ _ ?_
    by_contra hbefore
    exact hout (List.mem_take_iff_getElem.mpr ⟨i, by omega, rfl⟩)

theorem Sorted.behind (h : Sorted rank rows) : Sorted rank (behind rank rows c) :=
  h.sublist behind_sublist

/-- Everything shown is beyond the cursor. -/
theorem Pages.beyond (h : Pages rank limit tables c pages done) :
    ∀ page ∈ pages, ∀ a ∈ page, Beyond rank c a := by
  induction h with
  | stop => simp
  | last =>
      intro page hpage a ha
      rw [List.mem_singleton.mp hpage] at ha
      exact (mem_behind.mp ha).2
  | more hlen hlast hrest ih =>
      have hbeyond := (mem_behind.mp (List.mem_of_getElem? hlast)).2
      intro page hpage a ha
      rcases List.mem_cons.mp hpage with rfl | hpage
      · exact (mem_behind.mp (List.mem_of_mem_take ha)).2
      · exact hbeyond.trans (ih page hpage a ha)

/-- Each page is part of the table it was taken from. -/
theorem Pages.sublist (h : Pages rank limit tables c pages done) :
    List.Forall₂ (fun rows page => page.Sublist rows) tables pages := by
  induction h with
  | stop => exact .nil
  | last => exact .cons behind_sublist .nil
  | more _ _ _ ih => exact .cons ((List.take_sublist _ _).trans behind_sublist) ih

/-- **No rank comes back**: what is on a page has a lower rank than all on the pages behind. -/
theorem Pages.apart (h : Pages rank limit tables c pages done) (hlimit : 0 < limit)
    (hsorted : ∀ rows ∈ tables, Sorted rank rows) :
    pages.Pairwise fun p q => ∀ a ∈ p, ∀ b ∈ q, rank a < rank b := by
  induction h with
  | stop => exact .nil
  | last => exact List.pairwise_singleton _ _
  | more hlen hlast hrest ih =>
      obtain ⟨hrows, htables⟩ := List.forall_mem_cons.mp hsorted
      obtain ⟨-, hpage, -⟩ := hrows.behind.boundary hlimit hlast
      refine List.pairwise_cons.mpr ⟨?_, ih htables⟩
      intro q hq a ha b hb
      exact (hpage a ha).trans_lt (hrest.beyond q hq b hb _ rfl)

/-- **A row that is there throughout is shown** unless a page ends in its rank without it. -/
theorem Pages.shown_iff (h : Pages rank limit tables c pages true) (hlimit : 0 < limit)
    (hsorted : ∀ rows ∈ tables, Sorted rank rows) {t : α} (ht : ∀ rows ∈ tables, t ∈ rows)
    (hc : Beyond rank c t) :
    (∃ page ∈ pages, t ∈ page) ↔
      ∀ page ∈ pages, ∀ last, page.getLast? = some last → rank last = rank t → t ∈ page := by
  generalize hdone : true = done at h
  induction h with
  | stop => cases hdone
  | @last rows c hlen =>
      have hmem : t ∈ behind rank rows c :=
        mem_behind.mpr ⟨ht rows (List.mem_singleton_self rows), hc⟩
      exact iff_of_true ⟨_, List.mem_singleton_self _, hmem⟩ (by simp [hmem])
  | @more rows tables c last pages done hlen hlast hrest ih =>
      obtain ⟨hrows, htables⟩ := List.forall_mem_cons.mp hsorted
      obtain ⟨htrows, httables⟩ := List.forall_mem_cons.mp ht
      obtain ⟨hend, hpage, hleft⟩ := hrows.behind.boundary hlimit hlast
      have hlater : ∀ page ∈ pages, ∀ a ∈ page, rank last < rank a :=
        fun page hpage a ha => hrest.beyond page hpage a ha last rfl
      simp only [List.mem_cons, exists_eq_or_imp, forall_eq_or_imp]
      by_cases hmem : t ∈ (behind rank rows c).take limit
      · refine iff_of_true (Or.inl hmem) ⟨fun _ _ _ => hmem, ?_⟩
        intro page hin last' hlast' heq
        have hlt := hlater page hin last' (List.mem_of_getLast? hlast')
        exact absurd (hpage t hmem) (not_le.mpr (heq ▸ hlt))
      · have hle := hleft t (mem_behind.mpr ⟨htrows, hc⟩) hmem
        rcases hle.lt_or_eq with hlt | heq
        · -- it is still to come
          have hbeyond : Beyond rank (some last) t := by
            intro r hr
            cases hr
            exact hlt
          rw [or_iff_right hmem, ih htables httables hbeyond hdone]
          refine ⟨fun hrest => ⟨?_, hrest⟩, fun hboth => hboth.2⟩
          intro last' hlast' heq'
          rw [hend] at hlast'
          cases hlast'
          exact absurd heq' hlt.ne
        · -- the page has ended before it
          refine iff_of_false ?_ fun hboth => hmem (hboth.1 last hend heq)
          intro hshown
          obtain ⟨page, hin, hmem'⟩ := hshown.resolve_left hmem
          exact absurd (hlater page hin t hmem') (not_lt.mpr heq.ge)

end Browse
