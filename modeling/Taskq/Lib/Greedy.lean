import Mathlib.Algebra.Order.Field.Basic
import Mathlib.Algebra.BigOperators.Group.List.Basic
import Mathlib.Data.List.Induction
import Mathlib.Tactic.Linarith
import Mathlib.Tactic.Ring

/-!
# Taskq.Lib.Greedy

The greedy policy of a linear envelope: at most `burst + rate * length` in any window.

Requests come at times; each one that fits is admitted and takes one unit. What is left
at a time, given what was taken before it, has two forms: step by step, a level that
grows at `rate` up to `burst` (`level`), and closed, the smallest slack over all the
windows that end there (`le_level_iff`). The second says that the policy is greedy:
a request is admitted exactly when no window refuses it (`run_admits_iff`).

The field is arbitrary and the rate may have any sign: nothing here asks for times to
go forward.
-/

namespace Greedy

section Takings

variable {K : Type*} [Field K]

/-- What was taken by a request that came at a time. -/
def taking (d : K × Bool) : K × K := (d.1, if d.2 then 1 else 0)

@[simp] theorem taking_fst (d : K × Bool) : (taking d).1 = d.1 := rfl

theorem sum_taking (ds : List (K × Bool)) :
    ((ds.map taking).map Prod.snd).sum = (ds.countP fun d => d.2 : ℕ) := by
  induction ds with
  | nil => simp
  | cons d ds ih =>
      rw [List.map_cons, List.map_cons, List.sum_cons, ih, List.countP_cons]
      cases hd : d.2 <;> simp [taking, hd, add_comm]

end Takings

variable {K : Type*} [Field K] [LinearOrder K]

/-- What is left at `now`, behind what was taken before, newest first. -/
def level (burst rate : K) : List (K × K) → K → K
  | [], _ => burst
  | (t, n) :: past, now => min burst (level burst rate past t - n + rate * (now - t))

/-- The decisions on a sequence of requests, each with its time. -/
def run (burst rate : K) (past : List (K × K)) : List K → List (K × Bool)
  | [] => []
  | t :: ts =>
      let d := (t, decide (1 ≤ level burst rate past t))
      d :: run burst rate (taking d :: past) ts

variable {burst rate : K} {past : List (K × K)} {now t : K} {ts : List K}

theorem level_le_burst : level burst rate past now ≤ burst := by
  cases past with
  | nil => exact le_rfl
  | cons p past => exact min_le_left _ _

@[simp] theorem run_nil : run burst rate past [] = [] := rfl

theorem run_cons : run burst rate past (t :: ts) =
    (t, decide (1 ≤ level burst rate past t)) ::
      run burst rate (taking (t, decide (1 ≤ level burst rate past t)) :: past) ts := rfl

theorem run_append {us : List K} : run burst rate past (ts ++ us) =
    run burst rate past ts ++
      run burst rate (((run burst rate past ts).map taking).reverse ++ past) us := by
  induction ts generalizing past with
  | nil => rfl
  | cons t ts ih =>
      rw [List.cons_append, run_cons, ih, run_cons, List.cons_append, List.map_cons,
        List.reverse_cons, List.append_assoc]
      rfl

theorem run_map_fst : (run burst rate past ts).map Prod.fst = ts := by
  induction ts generalizing past with
  | nil => rfl
  | cons t ts ih => rw [run_cons, List.map_cons, ih]

theorem length_run : (run burst rate past ts).length = ts.length := by
  rw [← List.length_map Prod.fst, run_map_fst]

theorem run_concat (burst rate : K) (ts : List K) (t : K) :
    ∃ ok, run burst rate [] (ts ++ [t]) = run burst rate [] ts ++ [(t, ok)] :=
  ⟨_, run_append⟩

/-- Where less than one fits, nothing is admitted. -/
theorem run_of_burst_lt_one (hburst : burst < 1) :
    ∀ d ∈ run burst rate past ts, d.2 = false := by
  induction ts generalizing past with
  | nil => simp
  | cons t ts ih =>
      intro d hd
      rw [run_cons, List.mem_cons] at hd
      rcases hd with rfl | hd
      · exact decide_eq_false (level_le_burst.trans_lt hburst).not_ge
      · exact ih d hd

/-- A request is decided by the level behind the decisions before it. -/
theorem run_decides {n : ℕ} {ok : Bool} (h : (run burst rate past ts)[n]? = some (t, ok)) :
    ok = decide (1 ≤ level burst rate
      ((((run burst rate past ts).take n).map taking).reverse ++ past) t) := by
  induction ts generalizing past n with
  | nil => simp at h
  | cons t' ts ih =>
      rw [run_cons] at h ⊢
      cases n with
      | zero =>
          simp only [List.getElem?_cons_zero, Option.some.injEq, Prod.mk.injEq] at h
          obtain ⟨rfl, rfl⟩ := h
          rfl
      | succ n =>
          rw [List.getElem?_cons_succ] at h
          rw [ih h, List.take_succ_cons, List.map_cons, List.reverse_cons, List.append_assoc]
          rfl

variable [IsStrictOrderedRing K]

/-- Accruing in two steps, each up to `burst`, is accruing in one. -/
theorem accrue_accrue {x s : K} (hrate : 0 ≤ rate) (h : t ≤ now) :
    min burst (min burst (x + rate * (t - s)) + rate * (now - t))
      = min burst (x + rate * (now - s)) := by
  have hmore : 0 ≤ rate * (now - t) := mul_nonneg hrate (sub_nonneg.mpr h)
  have hsplit : x + rate * (t - s) + rate * (now - t) = x + rate * (now - s) := by ring
  rw [← min_add_add_right, hsplit, ← min_assoc, min_eq_left (le_add_of_nonneg_right hmore)]

/-! ### The windows -/

/-- `x` more fits at `now`: alone, and together with what was taken since any earlier
request. -/
def Fits (burst rate : K) (past : List (K × K)) (now x : K) : Prop :=
  x ≤ burst ∧ ∀ newer t n older, past = newer ++ (t, n) :: older →
    (newer.map Prod.snd).sum + n + x ≤ burst + rate * (now - t)

/-- **The level is the least slack over all windows.** -/
theorem le_level_iff {x : K} : x ≤ level burst rate past now ↔ Fits burst rate past now x := by
  induction past generalizing now x with
  | nil =>
      refine ⟨fun h => ⟨h, ?_⟩, fun h => h.1⟩
      intro newer t n older hsplit
      simp at hsplit
  | cons p past ih =>
      obtain ⟨t, n⟩ := p
      have hstep : x ≤ level burst rate ((t, n) :: past) now ↔
          x ≤ burst ∧ x + n - rate * (now - t) ≤ level burst rate past t := by
        rw [level, le_min_iff]
        refine and_congr_right fun _ => ⟨?_, ?_⟩
        · intro h
          linarith
        · intro h
          linarith
      rw [hstep, ih]
      refine and_congr_right fun _ => ⟨?_, ?_⟩
      · intro hfits newer t' n' older hsplit
        -- the window that starts at the newest request, or one further back
        cases newer with
        | nil =>
            obtain ⟨hp, -⟩ := List.cons.inj hsplit
            cases hp
            have halone := hfits.1
            simp only [List.map_nil, List.sum_nil]
            linarith
        | cons q newer =>
            obtain ⟨hq, hrest⟩ := List.cons.inj hsplit
            subst hq
            have hwindow := hfits.2 newer t' n' older hrest
            have hrates : rate * (now - t') = rate * (now - t) + rate * (t - t') := by ring
            simp only [List.map_cons, List.sum_cons]
            linarith
      · intro hwindows
        refine ⟨?_, ?_⟩
        · have hnewest := hwindows [] t n past rfl
          simp only [List.map_nil, List.sum_nil] at hnewest
          linarith
        · intro newer t' n' older hsplit
          have hwindow := hwindows ((t, n) :: newer) t' n' older (by rw [hsplit]; rfl)
          have hrates : rate * (now - t') = rate * (now - t) + rate * (t - t') := by ring
          simp only [List.map_cons, List.sum_cons] at hwindow
          linarith

/-! ### The decisions -/

/-- Windows of a history, by the index of the request they start at. -/
theorem fits_reverse_iff {ds : List (K × Bool)} {x : K} :
    Fits burst rate (ds.map taking).reverse now x ↔
      x ≤ burst ∧ ∀ i d, ds[i]? = some d →
        ((ds.drop i).countP (fun d => d.2) : ℕ) + x ≤ burst + rate * (now - d.1) := by
  refine and_congr_right fun _ => ⟨?_, ?_⟩
  · intro h i d hi
    obtain ⟨hlt, hget⟩ := List.getElem?_eq_some_iff.mp hi
    have hdrop : ds.drop i = d :: ds.drop (i + 1) := by
      rw [List.drop_eq_getElem_cons hlt, hget]
    have hsplit : ds = ds.take i ++ d :: ds.drop (i + 1) := by
      rw [← hdrop, List.take_append_drop]
    have hwindow := h ((ds.drop (i + 1)).map taking).reverse (taking d).1 (taking d).2
      ((ds.take i).map taking).reverse (by
        conv_lhs => rw [hsplit]
        simp only [List.map_append, List.map_cons, List.reverse_append, List.reverse_cons,
          List.append_assoc, List.singleton_append])
    rw [hdrop, ← sum_taking, List.map_cons, List.map_cons, List.sum_cons]
    rw [List.map_reverse, List.sum_reverse] at hwindow
    rw [taking_fst] at hwindow
    linarith
  · intro h newer t n older hsplit
    have hds := congrArg List.reverse hsplit
    rw [List.reverse_reverse, List.reverse_append, List.reverse_cons, List.append_assoc] at hds
    obtain ⟨before, rest, rfl, hbefore, hrest⟩ := List.map_eq_append_iff.mp hds
    obtain ⟨d, after, rfl, hd, hafter⟩ := List.map_eq_cons_iff.mp hrest
    have hwindow := h before.length d (by simp)
    have ht : d.1 = t := by rw [← taking_fst, hd]
    have hsum : (((d :: after).map taking).map Prod.snd).sum
        = n + (newer.map Prod.snd).sum := by
      rw [List.map_cons, List.map_cons, List.sum_cons, hafter, hd, ← List.sum_reverse,
        ← List.map_reverse]
      simp
    rw [List.drop_left, ← sum_taking, hsum, ht] at hwindow
    linarith

/-- **A request is admitted exactly when every window has room for it.** -/
theorem run_admits_iff {n : ℕ} {ok : Bool} (h : (run burst rate [] ts)[n]? = some (t, ok)) :
    ok = true ↔ ∀ i d, i ≤ n → (run burst rate [] ts)[i]? = some d →
      ((((run burst rate [] ts).take n).drop i).countP (fun d => d.2) : ℕ) + 1
        ≤ burst + rate * (t - d.1) := by
  obtain ⟨hlt, -⟩ := List.getElem?_eq_some_iff.mp h
  rw [run_decides h, List.append_nil, decide_eq_true_iff, le_level_iff, fits_reverse_iff]
  refine ⟨?_, ?_⟩
  · intro hfits i d hi hd
    rcases hi.lt_or_eq with hi | rfl
    · exact hfits.2 i d (by rw [List.getElem?_take_of_lt hi, hd])
    · -- the window that starts at the request itself
      rw [h] at hd
      cases hd
      have hempty : ((run burst rate [] ts).take i).drop i = [] := by
        rw [List.drop_eq_nil_iff, List.length_take]
        exact min_le_left _ _
      rw [hempty, List.countP_nil, sub_self, mul_zero, add_zero, Nat.cast_zero, zero_add]
      exact hfits.1
  · intro hwindows
    refine ⟨?_, ?_⟩
    · have halone := hwindows n (t, ok) le_rfl h
      have hempty : ((run burst rate [] ts).take n).drop n = [] := by
        rw [List.drop_eq_nil_iff, List.length_take]
        exact min_le_left _ _
      rwa [hempty, List.countP_nil, sub_self, mul_zero, add_zero, Nat.cast_zero, zero_add]
        at halone
    · intro i d hd
      have hi : i < n := by
        by_contra hge
        have hnone : ((run burst rate [] ts).take n)[i]? = none := by
          rw [List.getElem?_eq_none_iff, List.length_take]
          omega
        rw [hnone] at hd
        cases hd
      exact hwindows i d hi.le (by rwa [List.getElem?_take_of_lt hi] at hd)

/-- As many requests at one time as there is room for are admitted. -/
theorem run_replicate {j : ℕ} (h : (j : K) ≤ level burst rate past t) :
    ∀ d ∈ run burst rate past (List.replicate j t), d.2 = true := by
  induction j generalizing past with
  | zero => simp
  | succ j ih =>
      push_cast at h
      have hj : (0 : K) ≤ j := j.cast_nonneg
      have hone : 1 ≤ level burst rate past t := by linarith
      intro d hd
      rw [List.replicate_succ, run_cons, List.mem_cons] at hd
      rcases hd with rfl | hd
      · exact decide_eq_true hone
      · refine ih ?_ d hd
        rw [decide_eq_true hone, taking, level, if_pos rfl, sub_self, mul_zero, add_zero,
          le_min_iff]
        have hburst : level burst rate past t ≤ burst := level_le_burst
        exact ⟨by linarith, by linarith⟩

/-- Of any more, as many are admitted. -/
theorem le_countP_replicate {j n : ℕ} (hj : (j : K) ≤ level burst rate past t) (hn : j ≤ n) :
    j ≤ (run burst rate past (List.replicate n t)).countP fun d => d.2 := by
  obtain ⟨m, rfl⟩ := Nat.exists_eq_add_of_le hn
  have hall : (run burst rate past (List.replicate j t)).countP (fun d => d.2) = j := by
    rw [List.countP_eq_length.mpr (run_replicate hj), length_run, List.length_replicate]
  rw [List.replicate_add, run_append, List.countP_append, hall]
  exact Nat.le_add_right _ _

/-- What was admitted before an admitted request fits in the window from the first one. -/
theorem countP_of_admitted {first : K} (hfirst : (ts ++ [t]).head? = some first)
    (h : run burst rate [] (ts ++ [t]) = run burst rate [] ts ++ [(t, true)]) :
    ((run burst rate [] ts).countP (fun d => d.2) : ℕ) + 1 ≤ burst + rate * (t - first) := by
  have hnth : (run burst rate [] (ts ++ [t]))[(run burst rate [] ts).length]? = some (t, true) := by
    rw [h, List.getElem?_concat_length]
  obtain ⟨d, hd⟩ : ∃ d, (run burst rate [] (ts ++ [t]))[0]? = some d :=
    ⟨_, List.getElem?_eq_getElem (by rw [h]; simp)⟩
  have hd1 : d.1 = first := by
    have hmap : ((run burst rate [] (ts ++ [t])).map Prod.fst).head? = some first := by
      rw [run_map_fst, hfirst]
    rw [List.head?_map, List.head?_eq_getElem?, hd, Option.map_some] at hmap
    exact Option.some.inj hmap
  have hwindow := (run_admits_iff hnth).mp rfl 0 d (Nat.zero_le _) hd
  rwa [h, List.take_left, List.drop_zero, hd1] at hwindow

/-- **A run on times that go forward stays within the envelope of its span.** -/
theorem countP_run_le (hburst : 0 ≤ burst) (hrate : 0 ≤ rate) {first last : K}
    (hts : ts.Pairwise (· ≤ ·)) (hfirst : ts.head? = some first)
    (hlast : ts.getLast? = some last) :
    ((run burst rate [] ts).countP (fun d => d.2) : K) ≤ burst + rate * (last - first) := by
  induction ts using List.reverseRecOn generalizing last with
  | nil => cases hfirst
  | append_singleton ts t ih =>
      obtain rfl : t = last := by simpa using hlast
      obtain ⟨hpair, -, hle⟩ := List.pairwise_append.mp hts
      obtain ⟨ok, hrun⟩ := run_concat burst rate ts t
      cases ok with
      | true =>
          have hfits := countP_of_admitted hfirst hrun
          rw [hrun, List.countP_append, List.countP_singleton]
          simpa using hfits
      | false =>
          -- nothing was added, and the span did not shrink
          rw [hrun, List.countP_append, List.countP_singleton]
          simp only [Bool.false_eq_true, if_false, add_zero]
          cases hback : ts.getLast? with
          | none =>
              obtain rfl : ts = [] := by simpa using hback
              obtain rfl : t = first := by simpa using hfirst
              simpa using hburst
          | some t' =>
              have hne : ts ≠ [] := by
                rintro rfl
                cases hback
              rw [List.head?_append_of_ne_nil _ hne] at hfirst
              have hbound := ih hpair hfirst hback
              have hlater : t' ≤ t :=
                hle t' (List.mem_of_mem_getLast? hback) t List.mem_cons_self
              have hmore : rate * (t' - first) ≤ rate * (t - first) :=
                mul_le_mul_of_nonneg_left (sub_le_sub_right hlater first) hrate
              linarith

end Greedy
