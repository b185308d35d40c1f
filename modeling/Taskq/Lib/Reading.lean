import Taskq.Lib.Scrub

/-!
# Taskq.Lib.Reading

Reading a text once, from left to right, with matches of any kind.

What a match is, is a relation here: between what was written last, a text, and what is
behind the match that begins with the text. `Reads` is the reading as a judgment. A pass
preserves it when what a match becomes in the pass is the mark, or a match again
(`Pattern.Preserves`), and passes that preserve a reading write, one after the other, what the
reading writes.
-/

namespace Scrub

universe u

variable {α : Type u}

/-- From `w`, behind `prev`, the reading comes to `rest`, behind `q`, and has written
`out`. -/
inductive Reads (M : Option α → List α → List α → Prop) (mark : List α) :
    Option α → List α → List α → Option α → List α → Prop
  | done {prev w} : Reads M mark prev w [] prev w
  | keep {prev c w out q rest} (h : ∀ r, ¬ M prev (c :: w) r)
      (hreads : Reads M mark (some c) w out q rest) : Reads M mark prev (c :: w) (c :: out) q rest
  | hit {prev w w' out q rest} (h : M prev w w')
      (hreads : Reads M mark mark.getLast? w' out q rest) :
      Reads M mark prev w (mark ++ out) q rest

/-- A match takes something, from the beginning of the text. -/
def Proper (M : Option α → List α → List α → Prop) : Prop :=
  ∀ ⦃prev w rest⦄, M prev w rest → ∃ hit, hit ≠ [] ∧ w = hit ++ rest

variable {M : Option α → List α → List α → Prop} {mark : List α} {prev q : Option α}
  {w out rest : List α}

theorem Reads.trans {q' : Option α} {rest' out' : List α} (h : Reads M mark prev w out q rest)
    (h' : Reads M mark q rest out' q' rest') : Reads M mark prev w (out ++ out') q' rest' := by
  induction h with
  | done => exact h'
  | keep hno _ ih => exact .keep hno (ih h')
  | hit hmatch _ ih =>
      rw [List.append_assoc]
      exact .hit hmatch (ih h')

/-- Every text is read to its end. -/
theorem exists_reads (hM : Proper M) (prev : Option α) (w : List α) :
    ∃ out q, Reads M mark prev w out q [] := by
  induction hn : w.length using Nat.strong_induction_on generalizing prev w with
  | _ n ih =>
      by_cases hmatch : ∃ rest, M prev w rest
      · obtain ⟨rest, hmatch⟩ := hmatch
        obtain ⟨hit, hne, hw⟩ := hM hmatch
        have hlt : rest.length < n := by
          have hpos := List.length_pos_iff.mpr hne
          rw [← hn, hw, List.length_append]
          omega
        obtain ⟨out, q, hreads⟩ := ih _ hlt mark.getLast? rest rfl
        exact ⟨mark ++ out, q, .hit hmatch hreads⟩
      · cases w with
        | nil => exact ⟨[], prev, .done⟩
        | cons c w =>
            obtain ⟨out, q, hreads⟩ := ih w.length (by rw [← hn]; simp) (some c) w rfl
            exact ⟨c :: out, q, .keep (fun r hr => hmatch ⟨r, hr⟩) hreads⟩

/-- Over a word in which no match begins the reading goes on. -/
theorem reads_stays {word : List α}
    (h : ∀ i < word.length, ∀ prev r, ¬ M prev ((word ++ w).drop i) r) (prev : Option α) :
    Reads M mark prev (word ++ w) word (word.getLast?.or prev) w := by
  induction word generalizing prev with
  | nil => exact .done
  | cons c word ih =>
      have hlater := ih (fun i hi => h (i + 1) (Nat.succ_lt_succ hi)) (some c)
      rw [← getLast?_or_cons]
      exact .keep (h 0 (Nat.zero_lt_succ _) prev) hlater

/-- A text without a match is left alone. -/
theorem Reads.eq_of_free (h : Reads M mark prev w out q [])
    (hfree : ∀ x y, w = x ++ y → ∀ r, ¬ M (x.getLast?.or prev) y r) : out = w := by
  generalize hnil : ([] : List α) = rest at h
  induction h with
  | done => exact hnil
  | @keep prev c w out q rest _ _ ih =>
      refine congrArg (c :: ·) (ih (fun x y hw r => ?_) hnil)
      rw [getLast?_or_cons]
      exact hfree (c :: x) y (congrArg (c :: ·) hw) r
  | hit hmatch _ _ => exact absurd hmatch (hfree [] _ rfl _)

/-- Where the text ends or begins with a symbol, what is written does too, or there was a
match. -/
theorem Reads.head?_eq (h : Reads M mark prev w out q []) :
    w.head? = out.head? ∨ (∃ r, M prev w r) ∧ mark <+: out := by
  cases h with
  | done => exact Or.inl rfl
  | keep _ _ => exact Or.inl rfl
  | hit hmatch _ => exact Or.inr ⟨⟨_, hmatch⟩, List.prefix_append mark _⟩

/-- A word whose symbols begin no mark was there before. -/
theorem Reads.word_kept {word : List α} (h : Reads M mark prev w (word ++ out) q [])
    (hmark : mark ≠ []) (hword : ∀ c ∈ word, mark.head? ≠ some c) :
    ∃ w', w = word ++ w' ∧ Reads M mark (word.getLast?.or prev) w' out q [] := by
  induction word generalizing prev w with
  | nil => exact ⟨w, rfl, h⟩
  | cons c word ih =>
      generalize hout : c :: word ++ out = o at h
      cases h with
      | done => cases hout
      | @keep _ d w _ _ _ _ hreads =>
          cases hout
          obtain ⟨w', rfl, hlater⟩ := ih hreads fun d hd => hword d (List.mem_cons_of_mem c hd)
          rw [getLast?_or_cons] at hlater
          exact ⟨w', rfl, hlater⟩
      | hit _ _ =>
          obtain ⟨d, mark, rfl⟩ := List.exists_cons_of_ne_nil hmark
          exact absurd (congrArg some (List.cons.inj hout).1.symm) (hword c List.mem_cons_self)

/-- Where what is written goes on with a symbol of no mark, the reading has come to this symbol,
and no match begins with it. -/
theorem Reads.cut {c : α} {y s : List α} (hM : Proper M)
    (h : Reads M mark prev w (y ++ c :: s) q []) (hc : c ∉ mark) :
    ∃ u w' q', w = u ++ c :: w' ∧ Reads M mark prev w y q' (c :: w') ∧
      (∀ r, ¬ M q' (c :: w') r) ∧ Reads M mark (some c) w' s q [] := by
  generalize hout : y ++ c :: s = o at h
  generalize hnil : ([] : List α) = rest at h
  induction h generalizing y with
  | done => simp at hout
  | @keep prev d w out q rest hno hreads ih =>
      subst hnil
      cases y with
      | nil =>
          cases hout
          exact ⟨[], w, prev, rfl, .done, hno, hreads⟩
      | cons e y =>
          cases hout
          obtain ⟨u, w', q', rfl, hfront, hhere, hbehind⟩ := ih rfl rfl
          exact ⟨d :: u, w', q', rfl, .keep hno hfront, hhere, hbehind⟩
  | @hit prev w w' out q rest hmatch hreads ih =>
      -- the mark of the match is written before the symbol
      obtain ⟨y', rfl, hy⟩ : ∃ y', y = mark ++ y' ∧ y' ++ c :: s = out := by
        rcases List.append_eq_append_iff.mp hout with ⟨a, ha, ha'⟩ | ⟨a, ha, ha'⟩
        · cases a with
          | nil => exact ⟨[], by simpa using ha.symm, ha'⟩
          | cons d a =>
              cases ha'
              exact absurd (by simp [ha]) hc
        · exact ⟨a, ha, ha'.symm⟩
      obtain ⟨u, w'', q', rfl, hfront, hhere, hbehind⟩ := ih hy hnil
      obtain ⟨hit, -, rfl⟩ := hM hmatch
      exact ⟨hit ++ u, w'', q', by rw [List.append_assoc], .hit hmatch hfront, hhere, hbehind⟩

/-! ### Passes -/

/-- A pass of `p` leaves the reading of a text with `I` as it is. -/
structure Pattern.Preserves (p : Pattern α) (M : Option α → List α → List α → Prop)
    (mark : List α) (I : List α → Prop) : Prop where
  suffix : ∀ {x y}, I (x ++ y) → I y
  /-- No match begins with a symbol of the mark. -/
  marks : ∀ c ∈ mark, ∀ prev w r, ¬ M prev (c :: w) r
  /-- What the pass finds is a match. -/
  find : ∀ {prev w r}, I w → p.find? prev w = some r → ∃ rest, M prev w rest
  /-- Where it finds nothing, it makes none. -/
  back : ∀ {prev c w w' q r}, I (c :: w) → Scan p mark prev (c :: w) (c :: w') q [] →
    p.find? prev (c :: w) = none → M prev (c :: w') r → ∃ rest, M prev (c :: w) rest
  /-- It puts the mark in the place of a match, or another match. -/
  hit : ∀ {prev w rest}, I w → M prev w rest → ∃ out q, Scan p mark prev w out q rest ∧
    (out = mark ∨ ∀ z q', Scan p mark q rest z q' [] → M prev (out ++ z) z)
  /-- Behind a match, what was before has no say. -/
  behind : ∀ {prev w rest}, M prev w rest → ∀ q q', p.find? q rest = p.find? q' rest

theorem scrub_congr {p : Pattern α} {q q' : Option α} (h : p.find? q w = p.find? q' w) :
    scrub p mark q 0 w = scrub p mark q' 0 w := by
  cases w with
  | nil => rfl
  | cons c w => rw [scrub, scrub, h]

/-- **What is read after the pass is what was read before it.** -/
theorem Pattern.Preserves.reads {p : Pattern α} {I : List α → Prop} (h : p.Preserves M mark I)
    (hmark : mark ≠ []) (hI : I w) (hreads : Reads M mark prev w out q []) :
    ∃ q', Reads M mark prev (scrub p mark prev 0 w) out q' [] := by
  generalize hnil : ([] : List α) = rest at hreads
  induction hreads with
  | done =>
      subst hnil
      exact ⟨_, .done⟩
  | @keep prev c w out q rest hno _ ih =>
      have hnone : p.find? prev (c :: w) = none := by
        by_contra hne
        obtain ⟨r, hfind⟩ := Option.ne_none_iff_exists'.mp hne
        obtain ⟨rest, hmatch⟩ := h.find hI hfind
        exact hno rest hmatch
      obtain ⟨q', hlater⟩ := ih (h.suffix (x := [c]) hI) hnil
      obtain ⟨q'', hscan⟩ : ∃ q'', Scan p mark (some c) w _ q'' [] := scan_scrub (some c) w
      rw [scrub_keep hnone]
      refine ⟨q', .keep (fun r hr => ?_) hlater⟩
      obtain ⟨rest, hmatch⟩ := h.back hI (.keep hnone hscan) hnone hr
      exact hno rest hmatch
  | @hit prev w w' out q rest hmatch _ ih =>
      obtain ⟨out₀, q₀, hscan, hout⟩ := h.hit hI hmatch
      obtain ⟨u, rfl, -⟩ := hscan.exists_append
      obtain ⟨q', hlater⟩ := ih (h.suffix hI) hnil
      obtain ⟨q'', hrest⟩ : ∃ q'', Scan p mark q₀ w' _ q'' [] := scan_scrub q₀ w'
      rw [hscan.scrub_eq]
      rw [scrub_congr (h.behind hmatch mark.getLast? q₀)] at hlater
      rcases hout with rfl | hout
      · have hlast : out₀.getLast?.or prev = out₀.getLast? := by
          rw [List.getLast?_eq_getLast_of_ne_nil hmark]
          rfl
        rw [← hlast] at hlater
        refine ⟨q', (reads_stays (fun i hi q r => ?_) prev).trans hlater⟩
        rw [List.drop_append_of_le_length (Nat.le_of_lt hi), List.drop_eq_getElem_cons hi]
        exact h.marks _ (List.getElem_mem hi) q _ r
      · exact ⟨q', .hit (hout _ _ hrest) hlater⟩

end Scrub
