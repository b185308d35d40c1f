import Mathlib.Algebra.Order.Ring.Nat
import Mathlib.Data.List.Basic
import Mathlib.Data.List.Nodup

/-!
# Taskq.Lib.Keyset

Paging through a sorted list by remembering the last row seen.

`next c` is what the store selects for the cursor `c`: everything at the start
(`none`), and after a page what it takes to lie behind the last row of that page. A
walk takes `limit` rows at a time, until a selection fits on one page.

Whether a walk shows every row exactly once is decided at the page boundaries alone
(`walk_iff`): at each, the selection has to resume right behind the boundary row.
Where a selection keeps a property that, once true, stays true down the list, that
is a question about the one row behind the boundary (`filter_eq_drop_iff`).
-/

namespace Keyset

variable {α : Type*}

/-- A complete walk from a cursor, and the rows its pages show. -/
inductive Walk (limit : ℕ) (next : Option α → List α) : Option α → List α → Prop
  | stop {c : Option α} (hlen : (next c).length ≤ limit) : Walk limit next c (next c)
  | more {c : Option α} {last : α} {rest : List α} (hlen : limit < (next c).length)
      (hlast : (next c)[limit - 1]? = some last) (hrest : Walk limit next (some last) rest) :
      Walk limit next c ((next c).take limit ++ rest)

variable {limit : ℕ} {next : Option α → List α}

/-- A walk starts with the first row selected. -/
theorem Walk.head? {c : Option α} {rows : List α} (h : Walk limit next c rows)
    (hlimit : 0 < limit) : rows.head? = (next c).head? := by
  cases h with
  | stop hlen => rfl
  | more hlen hlast hrest =>
      have hne : next c ≠ [] := by
        intro hnil
        rw [hnil] at hlen
        exact absurd hlen (by simp)
      obtain ⟨a, l, hcons⟩ := List.exists_cons_of_ne_nil hne
      obtain ⟨n, rfl⟩ := Nat.exists_eq_succ_of_ne_zero hlimit.ne'
      rw [hcons]
      rfl

/-- A suffix of a list without repetitions is known by its first row. -/
theorem drop_eq_of_head? {rows : List α} (hnodup : rows.Nodup) {m n : ℕ} {a : α}
    (hm : (rows.drop m).head? = some a) (hn : (rows.drop n).head? = some a) :
    rows.drop m = rows.drop n := by
  rw [List.head?_drop] at hm hn
  obtain ⟨hmlt, hma⟩ := List.getElem?_eq_some_iff.mp hm
  obtain ⟨hnlt, hna⟩ := List.getElem?_eq_some_iff.mp hn
  have hmn : m = n := (hnodup.getElem_inj_iff).mp (hma.trans hna.symm)
  rw [hmn]

/-- At every page boundary behind row `i`, the selection resumes right behind the
boundary row. -/
def Resumes (limit : ℕ) (next : Option α → List α) (rows : List α) (i : ℕ) : Prop :=
  ∀ k, 0 < k → i + k * limit < rows.length → ∀ r, rows[i + k * limit - 1]? = some r →
    next (some r) = rows.drop (i + k * limit)

/-- No boundary is left when the rest fits on one page. -/
theorem resumes_of_short {rows : List α} {i : ℕ} (h : rows.length - i ≤ limit) :
    Resumes limit next rows i := by
  intro k hk hlt
  have hle : limit ≤ k * limit := Nat.le_mul_of_pos_left limit hk
  omega

/-- The boundaries behind row `i` are the next one and those behind it. -/
theorem resumes_succ {rows : List α} {i : ℕ} {last : α} (hlt : i + limit < rows.length)
    (hlast : rows[i + limit - 1]? = some last) :
    Resumes limit next rows i ↔
      next (some last) = rows.drop (i + limit) ∧ Resumes limit next rows (i + limit) := by
  have hsucc : ∀ j, i + (j + 1) * limit = i + limit + j * limit := by
    intro j
    rw [Nat.succ_mul]
    omega
  refine ⟨?_, ?_⟩
  · intro h
    refine ⟨?_, ?_⟩
    · have hone := h 1 one_pos
      rw [one_mul] at hone
      exact hone hlt last hlast
    · intro k hk hbound r hr
      rw [← hsucc] at hbound hr ⊢
      exact h (k + 1) (Nat.succ_pos k) hbound r hr
  · intro hpages k hk hbound r hr
    obtain ⟨hfirst, hothers⟩ := hpages
    obtain ⟨j, rfl⟩ := Nat.exists_eq_succ_of_ne_zero hk.ne'
    rw [Nat.succ_eq_add_one, hsucc] at hbound hr ⊢
    cases j with
    | zero =>
        rw [zero_mul, add_zero, hlast] at hr
        cases hr
        rw [zero_mul, add_zero]
        exact hfirst
    | succ j => exact hothers (j + 1) (Nat.succ_pos j) hbound r hr

/-- A walk that shows the rows behind `i` on more than one page goes on from the last
row of the first page, and shows the rows behind that one. -/
theorem Walk.split {rows : List α} {i : ℕ} {c : Option α} {last : α}
    (h : Walk limit next c (rows.drop i)) (hc : next c = rows.drop i)
    (hlong : i + limit < rows.length) (hlast : (next c)[limit - 1]? = some last) :
    Walk limit next (some last) (rows.drop (i + limit)) := by
  obtain ⟨rest, hsplit, hrest⟩ : ∃ rest, rows.drop i = (next c).take limit ++ rest ∧
      Walk limit next (some last) rest := by
    generalize hrows : rows.drop i = out at h
    cases h with
    | stop hshort =>
        rw [hc, List.length_drop] at hshort
        omega
    | more _ hlast' hrest =>
        rw [hlast] at hlast'
        cases hlast'
        exact ⟨_, rfl, hrest⟩
  have hlength : (rows.drop i |>.take limit).length = limit := by
    rw [List.length_take, List.length_drop]
    omega
  rw [hc] at hsplit
  have hdrop := congrArg (List.drop limit) hsplit
  rw [List.drop_drop, List.drop_left' hlength] at hdrop
  rwa [hdrop]

/-- The walk from the middle of the list, at the boundaries that are left. -/
theorem walk_drop_iff {rows : List α} (hlimit : 0 < limit) (hnodup : rows.Nodup)
    (hsuffix : ∀ r ∈ rows, ∃ m, next (some r) = rows.drop m) :
    ∀ (n i : ℕ) (c : Option α), rows.length - i ≤ n → next c = rows.drop i →
      (Walk limit next c (rows.drop i) ↔ Resumes limit next rows i) := by
  intro n
  induction n with
  | zero =>
      intro i c hn hc
      refine iff_of_true ?_ (resumes_of_short (by omega))
      rw [← hc]
      exact Walk.stop (by rw [hc, List.length_drop]; omega)
  | succ n ih =>
      intro i c hn hc
      by_cases hlen : rows.length - i ≤ limit
      · refine iff_of_true ?_ (resumes_of_short hlen)
        rw [← hc]
        exact Walk.stop (by rw [hc, List.length_drop]; exact hlen)
      have hlong : i + limit < rows.length := by omega
      obtain ⟨last, hlast⟩ : ∃ last, rows[i + limit - 1]? = some last :=
        ⟨_, List.getElem?_eq_getElem (by omega)⟩
      have hpage : (next c)[limit - 1]? = some last := by
        rw [hc, List.getElem?_drop, ← hlast]
        congr 1
        omega
      have hstep := ih (i + limit) (some last) (by omega)
      rw [resumes_succ hlong hlast]
      refine ⟨?_, ?_⟩
      · intro hwalk
        have hrest := hwalk.split hc hlong hpage
        have hnext : next (some last) = rows.drop (i + limit) := by
          obtain ⟨m, hm⟩ := hsuffix last (List.mem_of_getElem? hlast)
          have hhead := hrest.head? hlimit
          obtain ⟨a, ha⟩ : ∃ a, (rows.drop (i + limit)).head? = some a := by
            rw [List.head?_drop]
            exact ⟨_, List.getElem?_eq_getElem hlong⟩
          rw [hm] at hhead ⊢
          exact drop_eq_of_head? hnodup (hhead ▸ ha) ha
        exact ⟨hnext, (hstep hnext).mp hrest⟩
      · intro hpages
        obtain ⟨hnext, hothers⟩ := hpages
        have hsplit : rows.drop i = (next c).take limit ++ rows.drop (i + limit) := by
          rw [hc, ← List.drop_drop, List.take_append_drop]
        rw [hsplit]
        refine Walk.more ?_ hpage ((hstep hnext).mpr hothers)
        rw [hc, List.length_drop]
        omega

/-- **A walk shows every row exactly once, in order, if and only if every selection
at a page boundary resumes right behind the boundary row.** -/
theorem walk_iff {rows : List α} (hlimit : 0 < limit) (hnodup : rows.Nodup)
    (hstart : next none = rows) (hsuffix : ∀ r ∈ rows, ∃ m, next (some r) = rows.drop m) :
    Walk limit next none rows ↔ Resumes limit next rows 0 :=
  walk_drop_iff hlimit hnodup hsuffix rows.length 0 none (by omega) hstart

/-! ### Selections that stay true down the list -/

/-- What a property that stays true down the list selects is a suffix. -/
theorem exists_filter_eq_drop {p : α → Bool} {rows : List α}
    (hup : rows.Pairwise fun a b => p a → p b) : ∃ m, rows.filter p = rows.drop m := by
  induction rows with
  | nil => exact ⟨0, rfl⟩
  | cons a rows ih =>
      obtain ⟨hhead, htail⟩ := List.pairwise_cons.mp hup
      by_cases ha : p a = true
      · refine ⟨0, ?_⟩
        rw [List.drop_zero, List.filter_eq_self]
        intro b hb
        rcases List.mem_cons.mp hb with rfl | hb
        · exact ha
        · exact hhead b hb ha
      · obtain ⟨m, hm⟩ := ih htail
        exact ⟨m + 1, by rw [List.filter_cons_of_neg ha, hm, List.drop_succ_cons]⟩

/-- Where the property fails at row `j`, it selects exactly the rows behind `j` if and
only if the next one has it. -/
theorem filter_eq_drop_iff {p : α → Bool} {rows : List α}
    (hup : rows.Pairwise fun a b => p a → p b) {j : ℕ} (hj : j + 1 < rows.length)
    (hnot : p rows[j] = false) : rows.filter p = rows.drop (j + 1) ↔ p rows[j + 1] = true := by
  have hget := List.pairwise_iff_getElem.mp hup
  have hbefore : (rows.take (j + 1)).filter p = [] := by
    rw [List.filter_eq_nil_iff]
    intro a ha hpa
    obtain ⟨i, hi, rfl⟩ := List.mem_take_iff_getElem.mp ha
    rcases Nat.lt_or_ge i j with hlt | hge
    · have hpj := hget i j (by omega) (by omega) hlt hpa
      rw [hnot] at hpj
      cases hpj
    · have hij : i = j := by omega
      subst hij
      rw [hnot] at hpa
      cases hpa
  have hsplit : rows.filter p = (rows.drop (j + 1)).filter p := by
    conv_lhs => rw [← List.take_append_drop (j + 1) rows]
    rw [List.filter_append, hbefore, List.nil_append]
  rw [hsplit, List.filter_eq_self]
  refine ⟨?_, ?_⟩
  · intro hall
    exact hall _ (by rw [List.drop_eq_getElem_cons hj]; exact List.mem_cons_self)
  · intro hnext a ha
    obtain ⟨i, hi, rfl⟩ := List.mem_drop_iff_getElem.mp ha
    cases i with
    | zero => exact hnext
    | succ i => exact hget (j + 1) (j + 1 + (i + 1)) hj (by omega) (by omega) hnext

end Keyset
