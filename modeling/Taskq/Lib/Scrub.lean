import Mathlib.Algebra.GroupWithZero.Nat
import Mathlib.Data.List.Basic
import Mathlib.Data.List.TakeWhile

/-!
# Taskq.Lib.Scrub

Replacing every match of a pattern by a mark, from left to right.

A pattern is a prefix, read without ever going back, and behind it the longest run of one
class. That is what a regular expression does whose repetitions are each followed by
something they cannot take themselves.

`Scan` is the scanner as a judgment: what it has written on its way from one place in a
text to another. A scan can be cut at every place it comes to (`Scan.trans`,
`Scan.scrub_eq`), and what it writes is what it kept, with marks in between.
-/

namespace Scrub

universe u

variable {α : Type u}

/-! ### Patterns -/

/-- A piece of a prefix. -/
inductive Item (α : Type u)
  /-- One symbol of a class. -/
  | one (cls : α → Bool)
  /-- The longest run of a class, of at least so many. -/
  | many (cls : α → Bool) (least : ℕ)

/-- The symbols a piece takes. -/
def Item.cls : Item α → α → Bool
  | .one cls => cls
  | .many cls _ => cls

/-- What is left of a text behind a prefix. -/
def strip : List (Item α) → List α → Option (List α)
  | [], w => some w
  | .one _ :: _, [] => none
  | .one cls :: is, c :: w => if cls c then strip is w else none
  | .many cls least :: is, w =>
      if least ≤ (w.takeWhile cls).length then strip is (w.dropWhile cls) else none

structure Pattern (α : Type u) where
  /-- May a match begin behind this symbol? -/
  start : Option α → Bool
  /-- The first symbol of a match. -/
  first : α → Bool
  /-- The rest of the prefix, in the order the alternatives are tried. -/
  heads : List (List (Item α))
  body : α → Bool
  /-- How long the run behind the prefix is at least. -/
  least : ℕ

/-- Is this text a run of the body, long enough, and whatever follows? -/
def Pattern.Runs (p : Pattern α) (w : List α) : Prop := p.least ≤ (w.takeWhile p.body).length

instance (p : Pattern α) : DecidablePred p.Runs :=
  fun w => inferInstanceAs (Decidable (p.least ≤ (w.takeWhile p.body).length))

/-- What is behind the prefix of a match at this place; `none` when there is no match. -/
def Pattern.find? (p : Pattern α) (prev : Option α) : List α → Option (List α)
  | [] => none
  | c :: w =>
      if p.start prev ∧ p.first c then
        p.heads.findSome? fun h => (strip h w).filter fun r => p.Runs r
      else none

theorem Pattern.runs_append {p : Pattern α} {word : List α} (hword : ∀ c ∈ word, p.body c)
    (hleast : p.least ≤ word.length) (w : List α) : p.Runs (word ++ w) := by
  rw [Runs, List.takeWhile_append_of_pos hword, List.length_append]
  exact Nat.le_add_right_of_le hleast

theorem Pattern.runs_one {p : Pattern α} (h : p.least = 1) {w : List α} :
    p.Runs w ↔ ∃ c ∈ w.head?, p.body c := by
  rw [Runs, h]
  cases w with
  | nil => simp
  | cons c w => cases hc : p.body c <;> simp [hc]

/-- The scanner. It is inside a match for so many symbols. -/
def scrub (p : Pattern α) (mark : List α) : Option α → ℕ → List α → List α
  | _, _, [] => []
  | _, k + 1, c :: w => scrub p mark (some c) k w
  | prev, 0, c :: w =>
      match p.find? prev (c :: w) with
      | some r => mark ++ scrub p mark (some c) (w.length - (r.dropWhile p.body).length) w
      | none => c :: scrub p mark (some c) 0 w

/-- `re.sub(mark, text)`. -/
def Pattern.sub (p : Pattern α) (mark text : List α) : List α := scrub p mark none 0 text

/-! ### What a match is -/

theorem takeWhile_append_of_head {cls : α → Bool} {run w : List α} (hrun : ∀ c ∈ run, cls c)
    (hhead : ∀ c ∈ w.head?, cls c = false) : (run ++ w).takeWhile cls = run := by
  rw [List.takeWhile_append_of_pos hrun]
  cases w with
  | nil => simp
  | cons c w => simp [hhead c rfl]

theorem dropWhile_append_of_head {cls : α → Bool} {run w : List α} (hrun : ∀ c ∈ run, cls c)
    (hhead : ∀ c ∈ w.head?, cls c = false) : (run ++ w).dropWhile cls = w := by
  rw [List.dropWhile_append_of_pos hrun]
  cases w with
  | nil => rfl
  | cons c w => simp [hhead c rfl]

theorem head_dropWhile (cls : α → Bool) (w : List α) :
    ∀ c ∈ (w.dropWhile cls).head?, cls c = false := by
  intro c hc
  have hnot := List.head?_dropWhile_not cls w
  rwa [Option.mem_def.mp hc] at hnot

theorem exists_run (cls : α → Bool) (y : List α) :
    ∃ run z, y = run ++ z ∧ (∀ c ∈ run, cls c) ∧ ∀ c ∈ z.head?, cls c = false :=
  ⟨y.takeWhile cls, y.dropWhile cls, List.takeWhile_append_dropWhile.symm,
    fun _ hc => List.mem_takeWhile_imp hc, head_dropWhile cls y⟩

theorem exists_append_of_strip {items : List (Item α)} {w r : List α}
    (h : strip items w = some r) : ∃ pre, w = pre ++ r := by
  induction items generalizing w with
  | nil => exact ⟨[], by simpa [strip] using h⟩
  | cons item items ih =>
      cases item with
      | one cls =>
          cases w with
          | nil => simp [strip] at h
          | cons c w =>
              simp only [strip] at h
              split_ifs at h
              obtain ⟨pre, rfl⟩ := ih h
              exact ⟨c :: pre, rfl⟩
      | many cls least =>
          simp only [strip] at h
          split_ifs at h
          obtain ⟨pre, hpre⟩ := ih h
          refine ⟨w.takeWhile cls ++ pre, ?_⟩
          rw [List.append_assoc, ← hpre, List.takeWhile_append_dropWhile]

theorem strip_one {cls : α → Bool} {items : List (Item α)} {pre r : List α}
    (h : strip (.one cls :: items) (pre ++ r) = some r) :
    ∃ c tail, pre = c :: tail ∧ cls c ∧ strip items (tail ++ r) = some r := by
  cases pre with
  | cons c tail =>
      simp only [List.cons_append, strip] at h
      split_ifs at h with hc
      exact ⟨c, tail, rfl, hc, h⟩
  | nil =>
      cases r with
      | nil => simp [strip] at h
      | cons c r =>
          simp only [List.nil_append, strip] at h
          split_ifs at h
          obtain ⟨pre, hpre⟩ := exists_append_of_strip h
          have hlength := congrArg List.length hpre
          simp at hlength
          omega

theorem strip_many {cls : α → Bool} {least : ℕ} {items : List (Item α)} {pre r : List α}
    (h : strip (.many cls least :: items) (pre ++ r) = some r) :
    ∃ run tail, pre = run ++ tail ∧ (∀ c ∈ run, cls c) ∧ least ≤ run.length ∧
      (∀ c ∈ (tail ++ r).head?, cls c = false) ∧ strip items (tail ++ r) = some r := by
  simp only [strip] at h
  split_ifs at h with hleast
  obtain ⟨tail, htail⟩ := exists_append_of_strip h
  refine ⟨(pre ++ r).takeWhile cls, tail, ?_, fun c hc => List.mem_takeWhile_imp hc, hleast,
    htail ▸ head_dropWhile cls (pre ++ r), htail ▸ h⟩
  refine List.append_cancel_right (?_ : pre ++ r = _ ++ tail ++ r)
  rw [List.append_assoc, ← htail, List.takeWhile_append_dropWhile]

/-- No run of the prefix goes on into `w`, which stands where `r` stood. -/
def Stops (items : List (Item α)) (r w : List α) : Prop :=
  ∀ c ∈ w.head?, c ∈ r.head? ∨ ∀ cls least, .many cls least ∈ items → cls c = false

/-- A prefix is read without looking far behind it. -/
theorem strip_append {items : List (Item α)} {pre r w : List α}
    (h : strip items (pre ++ r) = some r) (hstop : Stops items r w) :
    strip items (pre ++ w) = some w := by
  induction items generalizing pre with
  | nil =>
      have hpre : pre = [] := by simpa [strip] using h
      rw [hpre, strip, List.nil_append]
  | cons item items ih =>
      have hstop' : Stops items r w := fun c hc => (hstop c hc).imp_right fun hcls cls least hmem =>
        hcls cls least (List.mem_cons_of_mem item hmem)
      cases item with
      | one cls =>
          obtain ⟨c, tail, rfl, hc, hlater⟩ := strip_one h
          rw [List.cons_append, strip, if_pos hc]
          exact ih hlater hstop'
      | many cls least =>
          obtain ⟨run, tail, rfl, hrun, hleast, hbehind, hlater⟩ := strip_many h
          have hhead : ∀ c ∈ (tail ++ w).head?, cls c = false := by
            intro c hc
            cases tail with
            | cons d tail => exact hbehind c hc
            | nil =>
                rcases hstop c hc with hr | hcls
                · exact hbehind c hr
                · exact hcls cls least List.mem_cons_self
          rw [List.append_assoc, strip, takeWhile_append_of_head hrun hhead,
            dropWhile_append_of_head hrun hhead, if_pos hleast]
          exact ih hlater hstop'

/-- A prefix is made of symbols of its pieces. -/
theorem mem_cls_of_strip {items : List (Item α)} {pre r : List α}
    (h : strip items (pre ++ r) = some r) : ∀ c ∈ pre, ∃ item ∈ items, item.cls c := by
  induction items generalizing pre with
  | nil =>
      have hpre : pre = [] := by simpa [strip] using h
      simp [hpre]
  | cons item items ih =>
      intro c hc
      cases item with
      | one cls =>
          obtain ⟨d, tail, rfl, hd, hlater⟩ := strip_one h
          rcases List.mem_cons.mp hc with rfl | hc
          · exact ⟨.one cls, List.mem_cons_self, hd⟩
          · obtain ⟨item', hmem, hcls⟩ := ih hlater c hc
            exact ⟨item', List.mem_cons_of_mem _ hmem, hcls⟩
      | many cls least =>
          obtain ⟨run, tail, rfl, hrun, -, -, hlater⟩ := strip_many h
          rcases List.mem_append.mp hc with hc | hc
          · exact ⟨.many cls least, List.mem_cons_self, hrun c hc⟩
          · obtain ⟨item', hmem, hcls⟩ := ih hlater c hc
            exact ⟨item', List.mem_cons_of_mem _ hmem, hcls⟩

/-- Every piece that takes a symbol at all is in a prefix. -/
theorem exists_cls_of_strip {items : List (Item α)} {pre r : List α}
    (h : strip items (pre ++ r) = some r) {item : Item α} (hitem : item ∈ items)
    (hleast : ∀ cls, item ≠ .many cls 0) : ∃ c ∈ pre, item.cls c := by
  induction items generalizing pre with
  | nil => cases hitem
  | cons first items ih =>
      cases first with
      | one cls =>
          obtain ⟨c, tail, rfl, hc, hlater⟩ := strip_one h
          rcases List.mem_cons.mp hitem with rfl | hitem
          · exact ⟨c, List.mem_cons_self, hc⟩
          · obtain ⟨d, hd, hcls⟩ := ih hlater hitem
            exact ⟨d, List.mem_cons_of_mem c hd, hcls⟩
      | many cls least =>
          obtain ⟨run, tail, rfl, hrun, hlong, -, hlater⟩ := strip_many h
          rcases List.mem_cons.mp hitem with rfl | hitem
          · cases run with
            | nil => exact absurd (by rw [Nat.le_zero.mp hlong]) (hleast cls)
            | cons c run => exact ⟨c, List.mem_cons_self, hrun c List.mem_cons_self⟩
          · obtain ⟨d, hd, hcls⟩ := ih hlater hitem
            exact ⟨d, List.mem_append_right run hd, hcls⟩

theorem strip_concat (items items' : List (Item α)) (w : List α) :
    strip (items ++ items') w = (strip items w).bind (strip items') := by
  induction items generalizing w with
  | nil => rfl
  | cons item items ih =>
      cases item with
      | one cls =>
          cases w with
          | nil => rfl
          | cons c w =>
              rw [List.cons_append, strip, strip]
              split_ifs
              · exact ih w
              · rfl
      | many cls least =>
          rw [List.cons_append, strip, strip]
          split_ifs
          · exact ih _
          · rfl

theorem strip_concat_one {items : List (Item α)} {cls : α → Bool} {pre r : List α}
    (h : strip (items ++ [.one cls]) (pre ++ r) = some r) : ∃ x c, pre = x ++ [c] ∧ cls c := by
  rw [strip_concat, Option.bind_eq_some_iff] at h
  obtain ⟨w, hitems, hone⟩ := h
  obtain ⟨last, rfl⟩ := exists_append_of_strip hone
  obtain ⟨x, hx⟩ := exists_append_of_strip hitems
  obtain ⟨c, tail, rfl, hc, hnil⟩ := strip_one hone
  obtain rfl : tail = [] := by simpa [strip] using hnil
  rw [← List.append_assoc] at hx
  exact ⟨x, c, List.append_cancel_right hx, hc⟩

theorem strip_concat_many {items : List (Item α)} {cls : α → Bool} {least : ℕ} {pre r : List α}
    (h : strip (items ++ [.many cls least]) (pre ++ r) = some r) :
    ∃ x run, pre = x ++ run ∧ (∀ c ∈ run, cls c) ∧ least ≤ run.length ∧
      strip items (x ++ (run ++ r)) = some (run ++ r) := by
  rw [strip_concat, Option.bind_eq_some_iff] at h
  obtain ⟨w, hitems, hmany⟩ := h
  obtain ⟨last, rfl⟩ := exists_append_of_strip hmany
  obtain ⟨x, hx⟩ := exists_append_of_strip hitems
  obtain ⟨run, tail, rfl, hrun, hleast, -, hnil⟩ := strip_many hmany
  obtain rfl : tail = [] := by simpa [strip] using hnil
  rw [List.append_nil] at hx hitems
  have hpre : pre = x ++ run := List.append_cancel_right (hx.trans (List.append_assoc _ _ _).symm)
  rw [hx] at hitems
  exact ⟨x, run, hpre, hrun, hleast, hitems⟩

/-- `p` matches `hit` here, and `w` comes behind it. -/
def Pattern.Hits (p : Pattern α) (prev : Option α) (hit w : List α) : Prop :=
  ∃ r, p.find? prev (hit ++ w) = some r ∧ r.dropWhile p.body = w

theorem Pattern.find?_some {p : Pattern α} {prev : Option α} {w r : List α}
    (h : p.find? prev w = some r) :
    ∃ c pre, w = c :: (pre ++ r) ∧ p.start prev ∧ p.first c ∧ p.Runs r ∧
      ∃ head ∈ p.heads, strip head (pre ++ r) = some r := by
  cases w with
  | nil => cases h
  | cons c w =>
      simp only [find?] at h
      split_ifs at h with hfirst
      obtain ⟨head, hhead, hfound⟩ := List.exists_of_findSome?_eq_some h
      obtain ⟨hstrip, hruns⟩ := Option.filter_eq_some_iff.mp hfound
      obtain ⟨pre, rfl⟩ := exists_append_of_strip hstrip
      exact ⟨c, pre, rfl, hfirst.1, hfirst.2, by simpa using hruns, head, hhead, hstrip⟩

/-- A match is not empty, and begins as the pattern says. -/
theorem Pattern.find?_hits {p : Pattern α} {prev : Option α} {w r : List α}
    (h : p.find? prev w = some r) :
    ∃ c hit, w = c :: hit ++ r.dropWhile p.body ∧ p.first c ∧
      p.Hits prev (c :: hit) (r.dropWhile p.body) := by
  obtain ⟨c, pre, rfl, -, hfirst, -⟩ := find?_some h
  have hsplit : c :: (pre ++ r) = c :: (pre ++ r.takeWhile p.body) ++ r.dropWhile p.body := by
    simp [List.takeWhile_append_dropWhile]
  refine ⟨c, pre ++ r.takeWhile p.body, hsplit, hfirst, r, ?_, rfl⟩
  rw [← hsplit]
  exact h

theorem Pattern.Hits.exists_cons {p : Pattern α} {prev : Option α} {hit w : List α}
    (h : p.Hits prev hit w) : ∃ c tail, hit = c :: tail ∧ p.first c := by
  obtain ⟨r, hfind, rfl⟩ := h
  obtain ⟨c, tail, hw, hfirst, -⟩ := find?_hits hfind
  exact ⟨c, tail, List.append_cancel_right hw, hfirst⟩

/-! ### The scanner as a judgment -/

/-- From `w`, behind `prev`, the scanner comes to `rest`, behind `q`, and has written
`out`. -/
inductive Scan (p : Pattern α) (mark : List α) :
    Option α → List α → List α → Option α → List α → Prop
  | done {prev w} : Scan p mark prev w [] prev w
  | keep {prev c w out q rest} (h : p.find? prev (c :: w) = none)
      (hscan : Scan p mark (some c) w out q rest) : Scan p mark prev (c :: w) (c :: out) q rest
  | hit {prev hit w out q rest} (h : p.Hits prev hit w)
      (hscan : Scan p mark hit.getLast? w out q rest) :
      Scan p mark prev (hit ++ w) (mark ++ out) q rest

variable {p : Pattern α} {mark : List α}

theorem Scan.trans {prev q r : Option α} {w mid rest out out' : List α}
    (h : Scan p mark prev w out q mid) (h' : Scan p mark q mid out' r rest) :
    Scan p mark prev w (out ++ out') r rest := by
  induction h with
  | done => exact h'
  | keep hnone _ ih => exact .keep hnone (ih h')
  | hit hhit _ ih =>
      rw [List.append_assoc]
      exact .hit hhit (ih h')

/-- Inside a match the scanner writes nothing. -/
theorem scrub_inside (pre w : List α) (prev : Option α) :
    scrub p mark prev pre.length (pre ++ w) = scrub p mark (pre.getLast?.or prev) 0 w := by
  induction pre generalizing prev with
  | nil => rfl
  | cons c pre ih =>
      rw [List.length_cons, List.cons_append, scrub, ih]
      cases pre with
      | nil => rfl
      | cons d pre =>
          rw [List.getLast?_cons_cons, List.getLast?_eq_getLast_of_ne_nil (List.cons_ne_nil d pre)]
          rfl

theorem scrub_hit {prev : Option α} {hit w : List α} (h : p.Hits prev hit w) :
    scrub p mark prev 0 (hit ++ w) = mark ++ scrub p mark hit.getLast? 0 w := by
  obtain ⟨c, tail, rfl, -⟩ := h.exists_cons
  obtain ⟨r, hfind, rfl⟩ := h
  have hlength : (tail ++ r.dropWhile p.body).length - (r.dropWhile p.body).length =
      tail.length := by simp
  rw [List.cons_append] at hfind ⊢
  simp only [scrub, hfind]
  rw [hlength, scrub_inside]
  cases tail with
  | nil => rfl
  | cons d tail =>
      rw [List.getLast?_cons_cons, List.getLast?_eq_getLast_of_ne_nil (List.cons_ne_nil d tail)]
      rfl

theorem scrub_keep {prev : Option α} {c : α} {w : List α} (h : p.find? prev (c :: w) = none) :
    scrub p mark prev 0 (c :: w) = c :: scrub p mark (some c) 0 w := by
  simp only [scrub, h]

/-- **Cutting rule.** Behind a place that the scan comes to, the text is scanned on its
own. -/
theorem Scan.scrub_eq {prev q : Option α} {w out rest : List α}
    (h : Scan p mark prev w out q rest) :
    scrub p mark prev 0 w = out ++ scrub p mark q 0 rest := by
  induction h with
  | done => rfl
  | keep hnone _ ih => rw [scrub_keep hnone, ih, List.cons_append]
  | hit hhit _ ih => rw [scrub_hit hhit, ih, List.append_assoc]

/-- Every text is scanned to its end. -/
theorem scan_scrub (prev : Option α) (w : List α) :
    ∃ q, Scan p mark prev w (scrub p mark prev 0 w) q [] := by
  induction hn : w.length using Nat.strong_induction_on generalizing prev w with
  | _ n ih =>
      cases w with
      | nil => exact ⟨prev, .done⟩
      | cons c w =>
          cases hfind : p.find? prev (c :: w) with
          | none =>
              obtain ⟨q, hscan⟩ := ih w.length (by rw [← hn]; simp) (some c) w rfl
              rw [scrub_keep hfind]
              exact ⟨q, .keep hfind hscan⟩
          | some r =>
              obtain ⟨d, hit, hw, -, hhits⟩ := Pattern.find?_hits hfind
              have hlt : (r.dropWhile p.body).length < n := by
                rw [← hn, hw, List.cons_append, List.length_cons, List.length_append]
                omega
              obtain ⟨q, hscan⟩ := ih _ hlt (d :: hit).getLast? (r.dropWhile p.body) rfl
              rw [hw, scrub_hit hhits]
              exact ⟨q, .hit hhits hscan⟩

/-! ### What the scanner writes -/

theorem Pattern.find?_of_not_first {prev : Option α} {c : α} {w : List α}
    (h : p.first c = false) : p.find? prev (c :: w) = none := by
  simp [find?, h]

theorem Pattern.find?_prev {prev prev' : Option α} (h : p.start prev = p.start prev')
    (w : List α) : p.find? prev w = p.find? prev' w := by
  cases w with
  | nil => rfl
  | cons c w => rw [find?, find?, h]

/-- Where no match begins, it does not matter what was before. -/
theorem scrub_prev {prev prev' : Option α} {w : List α} (h : ∀ c ∈ w.head?, p.first c = false) :
    scrub p mark prev 0 w = scrub p mark prev' 0 w := by
  cases w with
  | nil => rfl
  | cons c w =>
      have hc := h c rfl
      rw [scrub_keep (Pattern.find?_of_not_first hc), scrub_keep (Pattern.find?_of_not_first hc)]

theorem getLast?_or_cons (c : α) (w : List α) (prev : Option α) :
    w.getLast?.or (some c) = (c :: w).getLast?.or prev := by
  rw [List.getLast?_cons]
  cases w.getLast? <;> rfl

/-- Over a word in which no match begins the scan goes on. -/
theorem scan_stays {word w : List α}
    (h : ∀ i < word.length, ∀ prev, p.find? prev ((word ++ w).drop i) = none) (prev : Option α) :
    Scan p mark prev (word ++ w) word (word.getLast?.or prev) w := by
  induction word generalizing prev with
  | nil => exact .done
  | cons c word ih =>
      have hlater := ih (fun i hi => h (i + 1) (Nat.succ_lt_succ hi)) (some c)
      rw [← getLast?_or_cons]
      exact .keep (h 0 (Nat.zero_lt_succ _) prev) hlater

/-- What the scanner writes first: what was there, or a mark. -/
theorem Scan.cases_head {prev q : Option α} {w out rest : List α}
    (h : Scan p mark prev w out q rest) :
    w = rest ∧ out = [] ∧ q = prev ∨
      (∃ c w' out', w = c :: w' ∧ out = c :: out' ∧ p.find? prev (c :: w') = none ∧
        Scan p mark (some c) w' out' q rest) ∨
      ∃ hit w' out', w = hit ++ w' ∧ out = mark ++ out' ∧ p.Hits prev hit w' ∧
        Scan p mark hit.getLast? w' out' q rest := by
  cases h with
  | done => exact Or.inl ⟨rfl, rfl, rfl⟩
  | keep hnone hscan => exact Or.inr (Or.inl ⟨_, _, _, rfl, rfl, hnone, hscan⟩)
  | hit hhit hscan => exact Or.inr (Or.inr ⟨_, _, _, rfl, rfl, hhit, hscan⟩)

/-- A scan that writes nothing has not moved. -/
theorem Scan.eq_of_nil {prev q : Option α} {w rest : List α}
    (h : Scan p mark prev w [] q rest) (hmark : mark ≠ []) : w = rest := by
  rcases h.cases_head with ⟨hw, -⟩ | ⟨_, _, _, -, hout, -⟩ | ⟨_, _, _, -, hout, -⟩
  · exact hw
  · cases hout
  · exact absurd (List.append_eq_nil_iff.mp hout.symm).1 hmark

/-- A scan ends in the text it began in. -/
theorem Scan.exists_append {prev q : Option α} {w out rest : List α}
    (h : Scan p mark prev w out q rest) : ∃ u, w = u ++ rest ∧ q = u.getLast?.or prev := by
  induction h with
  | done => exact ⟨[], rfl, rfl⟩
  | @keep prev c w out q rest _ _ ih =>
      obtain ⟨u, rfl, rfl⟩ := ih
      exact ⟨c :: u, rfl, getLast?_or_cons c u prev⟩
  | @hit prev hit w out q rest hhit _ ih =>
      obtain ⟨u, rfl, rfl⟩ := ih
      obtain ⟨c, tail, rfl, -⟩ := hhit.exists_cons
      refine ⟨c :: tail ++ u, (List.append_assoc _ _ _).symm, ?_⟩
      rw [List.getLast?_append, List.getLast?_cons]
      cases u.getLast? <;> rfl

/-- A symbol that begins no mark was there before. -/
theorem Scan.head_kept {prev q : Option α} {c : α} {w out rest : List α}
    (h : Scan p mark prev w (c :: out) q rest) (hmark : mark ≠ []) (hc : mark.head? ≠ some c) :
    ∃ w', w = c :: w' ∧ p.find? prev (c :: w') = none ∧ Scan p mark (some c) w' out q rest := by
  rcases h.cases_head with ⟨-, hout, -⟩ | ⟨d, w', out', rfl, hout, hnone, hscan⟩ |
    ⟨hit, w', out', -, hout, -, -⟩
  · cases hout
  · cases hout
    exact ⟨w', rfl, hnone, hscan⟩
  · cases mark with
    | nil => exact absurd rfl hmark
    | cons m mark =>
        cases hout
        exact absurd rfl hc

/-- A word whose symbols begin no mark was there before. -/
theorem Scan.word_kept {prev q : Option α} {word w out rest : List α}
    (h : Scan p mark prev w (word ++ out) q rest) (hmark : mark ≠ [])
    (hword : ∀ c ∈ word, mark.head? ≠ some c) :
    ∃ w', w = word ++ w' ∧ Scan p mark (word.getLast?.or prev) w' out q rest := by
  induction word generalizing prev w with
  | nil => exact ⟨w, rfl, h⟩
  | cons c word ih =>
      obtain ⟨w', rfl, -, hscan⟩ := h.head_kept hmark (hword c List.mem_cons_self)
      obtain ⟨w'', rfl, hrest⟩ := ih hscan fun d hd => hword d (List.mem_cons_of_mem c hd)
      rw [getLast?_or_cons] at hrest
      exact ⟨w'', rfl, hrest⟩

/-- Where the text ends or begins with a symbol, what is written does too, or there was a
match. -/
theorem Scan.head?_eq {prev q : Option α} {w out : List α} (h : Scan p mark prev w out q []) :
    w.head? = out.head? ∨ (∃ c ∈ w.head?, p.first c) ∧ mark <+: out := by
  rcases h.cases_head with ⟨rfl, rfl, -⟩ | ⟨c, w', out', rfl, rfl, -, -⟩ |
    ⟨hit, w', out', rfl, rfl, hhit, -⟩
  · exact Or.inl rfl
  · exact Or.inl rfl
  · obtain ⟨c, tail, rfl, hfirst⟩ := hhit.exists_cons
    exact Or.inr ⟨⟨c, rfl, hfirst⟩, List.prefix_append mark out'⟩

/-- Where what is written goes on with a symbol of no mark, the scan has come to this symbol,
behind what was written before it, or behind a match. -/
theorem Scan.cut {prev q : Option α} {c : α} {w pre s rest : List α}
    (h : Scan p mark prev w (pre ++ c :: s) q rest) (hmark : mark ≠ []) (hc : c ∉ mark) :
    ∃ u w', w = u ++ c :: w' ∧ Scan p mark prev w pre (u.getLast?.or prev) (c :: w') ∧
      p.find? (u.getLast?.or prev) (c :: w') = none ∧ Scan p mark (some c) w' s q rest ∧
      (u.getLast?.or prev = pre.getLast?.or prev ∨
        ∃ prev' hit, p.Hits prev' hit (c :: w')) := by
  generalize hout : pre ++ c :: s = out at h
  induction h generalizing pre with
  | done =>
      simp at hout
  | @keep prev d w out q rest hnone hscan ih =>
      cases pre with
      | nil =>
          cases hout
          exact ⟨[], w, rfl, .done, hnone, hscan, Or.inl rfl⟩
      | cons e pre =>
          cases hout
          obtain ⟨u, w', rfl, hfront, hnone', hscan', hlast⟩ := ih rfl
          rw [getLast?_or_cons d u prev] at hfront hnone' hlast
          rw [getLast?_or_cons d pre prev] at hlast
          exact ⟨d :: u, w', rfl, .keep hnone hfront, hnone', hscan', hlast⟩
  | @hit prev hit w out q rest hhit hscan ih =>
      -- the mark of the match is written before the symbol
      obtain ⟨pre', rfl, rfl⟩ : ∃ pre', pre = mark ++ pre' ∧ out = pre' ++ c :: s := by
        rcases List.append_eq_append_iff.mp hout with ⟨a, ha, ha'⟩ | ⟨a, ha, ha'⟩
        · cases a with
          | nil => exact ⟨[], by simpa using ha.symm, ha'.symm⟩
          | cons d a =>
              cases ha'
              exact absurd (by simp [ha]) hc
        · exact ⟨a, ha, ha'⟩
      cases pre' with
      | nil =>
          obtain ⟨w', rfl, hnone, hscan'⟩ := hscan.head_kept hmark fun heq =>
            hc (List.mem_of_mem_head? heq)
          obtain ⟨d, tail, rfl, -⟩ := hhit.exists_cons
          have hor : (d :: tail).getLast? = (d :: tail).getLast?.or prev := by
            rw [List.getLast?_cons]
            rfl
          rw [hor] at hnone
          refine ⟨d :: tail, w', rfl, ?_, hnone, hscan', Or.inr ⟨prev, _, hhit⟩⟩
          rw [← hor]
          exact .hit hhit .done
      | cons e pre =>
          obtain ⟨u, w', rfl, hfront, hnone, hscan', hlast⟩ := ih rfl
          obtain ⟨d, tail, rfl, -⟩ := hhit.exists_cons
          have hor : ((d :: tail) ++ u).getLast?.or prev =
              u.getLast?.or (d :: tail).getLast? := by
            rw [List.getLast?_append, List.getLast?_cons (a := d)]
            cases u.getLast? <;> rfl
          refine ⟨(d :: tail) ++ u, w', (List.append_assoc _ _ _).symm, ?_, ?_, hscan', ?_⟩
          · rw [hor]
            exact .hit hhit hfront
          · rw [hor]
            exact hnone
          · refine hlast.imp_left fun heq => ?_
            rw [hor, heq, List.getLast?_append, List.getLast?_cons (a := e)]
            rfl

/-- A word in which no match begins stays. -/
theorem Scan.word_stays {prev q : Option α} {word w out : List α}
    (h : Scan p mark prev (word ++ w) out q [])
    (hword : ∀ i < word.length, ∀ prev', p.find? prev' ((word ++ w).drop i) = none) :
    ∃ prev' out', out = word ++ out' ∧ Scan p mark prev' w out' q [] := by
  induction word generalizing prev out with
  | nil => exact ⟨prev, out, rfl, h⟩
  | cons c word ih =>
      have hhere := hword 0 (Nat.zero_lt_succ _)
      have hlater : ∀ i < word.length, ∀ prev', p.find? prev' ((word ++ w).drop i) = none :=
        fun i hi => hword (i + 1) (Nat.succ_lt_succ hi)
      rcases h.cases_head with ⟨hw, -⟩ | ⟨d, w', out', hw, rfl, -, hscan⟩ |
        ⟨hit, w', out', hw, -, ⟨r, hfind, -⟩, -⟩
      · cases hw
      · cases hw
        obtain ⟨prev', out'', rfl, hrest⟩ := ih hscan hlater
        exact ⟨prev', out'', rfl, hrest⟩
      · rw [← hw] at hfind
        exact absurd hfind (by rw [show p.find? prev (c :: word ++ w) = none from hhere prev]; simp)

/-- The same up to a place the scan comes to. -/
theorem Scan.head_front {prev q : Option α} {g out rest : List α}
    (h : Scan p mark prev (g ++ rest) out q rest) :
    g.head? = out.head? ∨ ∃ c ∈ g.head?, p.first c := by
  rcases h.cases_head with ⟨hg, rfl, -⟩ | ⟨c, w', out', hw, rfl, -, hscan⟩ |
    ⟨hit, w', out', hw, -, hhit, hscan⟩
  · rw [List.append_left_eq_self.mp hg]
    exact Or.inl rfl
  · obtain ⟨u, rfl, -⟩ := hscan.exists_append
    rw [← List.cons_append] at hw
    rw [List.append_cancel_right hw]
    exact Or.inl rfl
  · obtain ⟨u, rfl, -⟩ := hscan.exists_append
    obtain ⟨c, tail, rfl, hfirst⟩ := hhit.exists_cons
    rw [← List.append_assoc] at hw
    rw [List.append_cancel_right hw]
    exact Or.inr ⟨c, rfl, hfirst⟩

/-- A run that no mark begins in was there before, up to a place the scan comes to, when it
goes on behind this place. -/
theorem Scan.runs_front {p₀ : Pattern α} {prev q : Option α} {g out rest : List α}
    (h : Scan p mark prev (g ++ rest) out q rest) (hmark : mark ≠ [])
    (hbody : ∀ c ∈ mark.head?, p₀.body c = false) {t : List α} (hruns : p₀.Runs (out ++ t)) :
    p₀.Runs (g ++ t) := by
  obtain ⟨run, z, rfl, hrun, hstop⟩ := exists_run p₀.body out
  obtain ⟨w', hw, hscan⟩ := h.word_kept hmark fun c hc hhead => by
    have hc := hrun c hc
    rw [hbody c hhead] at hc
    cases hc
  obtain ⟨u, rfl, -⟩ := hscan.exists_append
  rw [← List.append_assoc] at hw
  rw [List.append_cancel_right hw]
  cases z with
  | nil =>
      rw [List.append_left_eq_self.mp (hscan.eq_of_nil hmark)]
      exact hruns
  | cons d z =>
      rw [Pattern.Runs, List.append_assoc, takeWhile_append_of_head hrun (by exact hstop)] at hruns
      rw [List.append_assoc]
      exact Pattern.runs_append hrun hruns _

/-- So it was over the whole text. -/
theorem Scan.runs_kept {p₀ : Pattern α} {prev q : Option α} {w out : List α}
    (h : Scan p mark prev w out q []) (hmark : mark ≠ [])
    (hbody : ∀ c ∈ mark.head?, p₀.body c = false) (hruns : p₀.Runs out) : p₀.Runs w := by
  rw [← List.append_nil w] at h
  rw [← List.append_nil out] at hruns
  have hfront := h.runs_front hmark hbody hruns
  rwa [List.append_nil] at hfront

/-- Every symbol that is written was there before, or is one of the mark. -/
theorem Scan.mem_out {prev q : Option α} {w out rest : List α} (h : Scan p mark prev w out q rest)
    {c : α} (hc : c ∈ out) : c ∈ w ∨ c ∈ mark := by
  induction h with
  | done => cases hc
  | @keep prev d w out q rest hnone hscan ih =>
      rcases List.mem_cons.mp hc with rfl | hc
      · exact Or.inl List.mem_cons_self
      · exact (ih hc).imp_left (List.mem_cons_of_mem d)
  | @hit prev hit w out q rest hhit hscan ih =>
      rcases List.mem_append.mp hc with hc | hc
      · exact Or.inr hc
      · exact (ih hc).imp_left (List.mem_append_right hit)

theorem Pattern.mem_sub {text : List α} {c : α} (h : c ∈ p.sub mark text) :
    c ∈ text ∨ c ∈ mark := by
  obtain ⟨q, hscan⟩ : ∃ q, Scan p mark none text (p.sub mark text) q [] := scan_scrub none text
  exact hscan.mem_out h

theorem Pattern.mem_foldl_sub {ps : List (Pattern α)} {text : List α} {c : α}
    (h : c ∈ ps.foldl (fun value p => p.sub mark value) text) : c ∈ text ∨ c ∈ mark := by
  induction ps generalizing text with
  | nil => exact Or.inl h
  | cons p ps ih =>
      rcases ih h with h | h
      · exact Pattern.mem_sub h
      · exact Or.inr h

/-! ### What is behind a prefix -/

/-- The prefix of `p` is at the beginning of `s`, and `r` behind it. -/
def Pattern.Opens (p : Pattern α) (s r : List α) : Prop :=
  ∃ c w, s = c :: w ∧ p.first c ∧ ∃ head ∈ p.heads, strip head w = some r

/-- Wherever in the text the prefix of `p` is, `Q` holds of what is before it, of the prefix and
of what is behind it. -/
def Pattern.Everywhere (p : Pattern α) (Q : List α → List α → List α → Prop)
    (text : List α) : Prop :=
  ∀ u pre r, text = u ++ (pre ++ r) → p.Opens (pre ++ r) r → Q u pre r

theorem Pattern.Opens.exists_strip {pre r : List α} (h : p.Opens (pre ++ r) r) :
    ∃ c x, pre = c :: x ∧ p.first c ∧ ∃ head ∈ p.heads, strip head (x ++ r) = some r := by
  obtain ⟨c, w, hw, hfirst, head, hhead, hstrip⟩ := h
  obtain ⟨x, rfl⟩ := exists_append_of_strip hstrip
  exact ⟨c, x, List.append_cancel_right hw, hfirst, head, hhead, hstrip⟩

/-- A prefix takes something, from the beginning of the text. -/
theorem Pattern.Opens.exists_append {s r : List α} (h : p.Opens s r) :
    ∃ pre, pre ≠ [] ∧ s = pre ++ r := by
  obtain ⟨c, x, rfl, -, head, -, hstrip⟩ := h
  obtain ⟨pre, rfl⟩ := exists_append_of_strip hstrip
  exact ⟨c :: pre, List.cons_ne_nil c pre, rfl⟩

theorem Pattern.Opens.find?_ne_none {prev : Option α} {s r : List α} (h : p.Opens s r)
    (hstart : p.start prev) (hruns : p.Runs r) : p.find? prev s ≠ none := by
  obtain ⟨c, w, rfl, hfirst, head, hhead, hstrip⟩ := h
  intro hnone
  rw [find?, if_pos ⟨hstart, hfirst⟩, List.findSome?_eq_none_iff] at hnone
  have hfilter := hnone head hhead
  rw [hstrip] at hfilter
  simp [hruns] at hfilter

theorem Pattern.opens_of_find? {prev : Option α} {s r : List α} (h : p.find? prev s = some r) :
    p.Opens s r := by
  obtain ⟨c, pre, rfl, -, hfirst, -, head, hhead, hstrip⟩ := Pattern.find?_some h
  exact ⟨c, pre ++ r, rfl, hfirst, head, hhead, hstrip⟩

theorem Pattern.find?_eq_none {prev : Option α} {s : List α}
    (h : ∀ r, p.Opens s r → ¬ p.Runs r) : p.find? prev s = none := by
  by_contra hne
  obtain ⟨r, hfind⟩ := Option.ne_none_iff_exists'.mp hne
  obtain ⟨c, pre, -, -, -, hruns, -⟩ := Pattern.find?_some hfind
  exact h r (Pattern.opens_of_find? hfind) hruns

/-- With one alternative there is one way to read the prefix. -/
theorem Pattern.Opens.unique {head : List (Item α)} {s r r' : List α} (hone : p.heads = [head])
    (h : p.Opens s r) (h' : p.Opens s r') : r = r' := by
  obtain ⟨c, w, rfl, -, head₁, hhead₁, hstrip₁⟩ := h
  obtain ⟨d, w', hw, -, head₂, hhead₂, hstrip₂⟩ := h'
  obtain rfl : w = w' := (List.cons.inj hw).2
  rw [hone, List.mem_singleton] at hhead₁ hhead₂
  subst hhead₁ hhead₂
  exact Option.some.inj (hstrip₁.symm.trans hstrip₂)

/-- The prefix of `p₀` is not begun by the mark and does not go on with it, and no match of `p`
goes on with the prefix. -/
structure Pattern.Apart (p₀ p : Pattern α) (mark : List α) : Prop where
  first : ∀ c ∈ mark, p₀.first c = false
  heads : ∀ head ∈ p₀.heads, ∀ item ∈ head, ∀ c ∈ mark.head?, item.cls c = false
  behind : ∀ head ∈ p₀.heads, ∀ cls least, .many cls least ∈ head → ∀ c, p.first c → cls c = false

/-- **Backwards.** A prefix that is there afterwards was there before, the scan came to it, no
match began there, and what is behind it was scanned on its own. -/
theorem Scan.opens {p₀ : Pattern α} {prev q : Option α} {text y s r rest : List α}
    (h : Scan p mark prev (text ++ rest) (y ++ s) q rest) (hapart : p₀.Apart p mark)
    (hmark : mark ≠ []) (hopens : p₀.Opens s r) :
    ∃ u pre w, text = u ++ (pre ++ w) ∧ s = pre ++ r ∧ p₀.Opens (pre ++ w) w ∧
      Scan p mark prev (text ++ rest) y (u.getLast?.or prev) (pre ++ (w ++ rest)) ∧
      p.find? (u.getLast?.or prev) (pre ++ (w ++ rest)) = none ∧
      Scan p mark (u.getLast?.or prev) (pre ++ (w ++ rest)) (pre ++ r) q rest ∧
      Scan p mark pre.getLast? (w ++ rest) r q rest ∧
      (u.getLast?.or prev = y.getLast?.or prev ∨
        ∃ prev' hit, p.Hits prev' hit (pre ++ (w ++ rest))) := by
  obtain ⟨c, t, rfl, hfirst, head, hhead, hstrip⟩ := hopens
  obtain ⟨pre, rfl⟩ := exists_append_of_strip hstrip
  have hc : c ∉ mark := by
    intro hmem
    rw [hapart.first c hmem] at hfirst
    cases hfirst
  have hpre : ∀ d ∈ pre, mark.head? ≠ some d := by
    intro d hd heq
    obtain ⟨item, hitem, hcls⟩ := mem_cls_of_strip hstrip d hd
    rw [hapart.heads head hhead item hitem d heq] at hcls
    cases hcls
  obtain ⟨u, w₁, htext, hfront, hnone, hscan, hlast⟩ := h.cut hmark hc
  obtain ⟨w₂, rfl, hscan'⟩ := hscan.word_kept hmark hpre
  obtain ⟨w, rfl, -⟩ := hscan'.exists_append
  have htext' : text ++ rest = u ++ (c :: pre ++ w) ++ rest := by
    rw [htext]
    simp
  rw [getLast?_or_cons c pre none, Option.or_none] at hscan'
  refine ⟨u, c :: pre, w, List.append_cancel_right htext', rfl, ?_, hfront, hnone,
    .keep hnone hscan, hscan', hlast⟩
  refine ⟨c, pre ++ w, rfl, hfirst, head, hhead, strip_append hstrip fun d hd => ?_⟩
  rcases hscan'.head_front with heq | ⟨e, he, hfirst'⟩
  · exact Or.inl (heq ▸ hd)
  · obtain rfl : d = e := Option.mem_unique hd he
    exact Or.inr fun cls least hmem => hapart.behind head hhead cls least hmem d hfirst'

/-! ### What runs into a place -/

/-- A prefix cannot be read on into what begins with no symbol of its pieces. -/
theorem strip_front {items : List (Item α)} {x y : List α}
    (hy : ∀ c ∈ y.head?, ∀ item ∈ items, item.cls c = false) :
    strip items (x ++ y) = (strip items x).map (· ++ y) := by
  induction items generalizing x with
  | nil => rfl
  | cons item items ih =>
      have hlater := fun x' => ih (x := x') fun c hc item' hitem =>
        hy c hc item' (List.mem_cons_of_mem item hitem)
      cases item with
      | one cls =>
          cases x with
          | cons c x =>
              rw [List.cons_append, strip, strip]
              split_ifs
              · exact hlater x
              · rfl
          | nil =>
              cases y with
              | nil => rfl
              | cons d y =>
                  have hd := hy d rfl (.one cls) List.mem_cons_self
                  rw [Item.cls] at hd
                  simp [strip, hd]
      | many cls least =>
          obtain ⟨run, z, rfl, hrun, hstop⟩ := exists_run cls x
          have hstop' : ∀ c ∈ (z ++ y).head?, cls c = false := by
            intro c hc
            cases z with
            | cons d z => exact hstop c hc
            | nil => exact hy c hc (.many cls least) List.mem_cons_self
          rw [List.append_assoc, strip, strip, takeWhile_append_of_head hrun hstop',
            dropWhile_append_of_head hrun hstop', takeWhile_append_of_head hrun hstop,
            dropWhile_append_of_head hrun hstop]
          split_ifs
          · exact hlater z
          · rfl

/-- `t` halts the matches of `p` that begin before it: no prefix goes on into it, and it is
enough of the text to say whether a run is long enough. -/
structure Pattern.Halts (p : Pattern α) (t : List α) : Prop where
  ne_nil : t ≠ []
  heads : ∀ c ∈ t.head?, ∀ head ∈ p.heads, ∀ item ∈ head, item.cls c = false
  runs : p.least ≤ 1 ∨ ∃ c ∈ t, p.body c = false

theorem Pattern.Halts.opens {t v w r : List α} (h : p.Halts t) (hv : v ≠ []) :
    p.Opens (v ++ (t ++ w)) r ↔ ∃ g, r = g ++ (t ++ w) ∧ p.Opens v g := by
  obtain ⟨c, x, rfl⟩ := List.exists_cons_of_ne_nil hv
  have hstrip : ∀ head ∈ p.heads, strip head (x ++ (t ++ w))
      = (strip head x).map (· ++ (t ++ w)) := by
    intro head hhead
    refine strip_front fun d hd item hitem => h.heads d ?_ head hhead item hitem
    rwa [List.head?_append_of_ne_nil _ h.ne_nil] at hd
  constructor
  · intro hopens
    obtain ⟨d, x', hx, hfirst, head, hhead, hr⟩ := hopens
    cases hx
    change strip head (x ++ (t ++ w)) = some r at hr
    rw [hstrip head hhead, Option.map_eq_some_iff] at hr
    obtain ⟨g, hg, rfl⟩ := hr
    exact ⟨g, rfl, c, x, rfl, hfirst, head, hhead, hg⟩
  · intro hopens
    obtain ⟨g, rfl, d, x', hx, hfirst, head, hhead, hg⟩ := hopens
    cases hx
    refine ⟨c, _, rfl, hfirst, head, hhead, ?_⟩
    show strip head (x ++ (t ++ w)) = _
    rw [hstrip head hhead, hg, Option.map_some]

theorem Pattern.Halts.runs_iff {t g w : List α} (h : p.Halts t) :
    p.Runs (g ++ (t ++ w)) ↔ p.Runs (g ++ t) := by
  rw [← List.append_assoc]
  rcases h.runs with hone | ⟨c, hc, hbody⟩
  · obtain ⟨d, x, hx⟩ := List.exists_cons_of_ne_nil fun hnil => h.ne_nil
      (List.append_eq_nil_iff.mp hnil : g = [] ∧ t = []).2
    rw [hx]
    rcases Nat.le_one_iff_eq_zero_or_eq_one.mp hone with hzero | hone
    · simp [Pattern.Runs, hzero]
    · rw [List.cons_append, Pattern.runs_one hone, Pattern.runs_one hone]
      rfl
  · have hstop : ¬ ((g ++ t).takeWhile p.body).length = (g ++ t).length := by
      intro hlength
      have hall := List.takeWhile_eq_self_iff.mp
        ((List.takeWhile_prefix p.body).eq_of_length hlength)
      rw [hall c (List.mem_append_right g hc)] at hbody
      cases hbody
    rw [Pattern.Runs, Pattern.Runs, List.takeWhile_append, if_neg hstop]

theorem findSome?_map {β γ : Type*} {f f' : β → Option γ} {g : γ → γ} {l : List β}
    (h : ∀ x ∈ l, f x = (f' x).map g) : l.findSome? f = (l.findSome? f').map g := by
  induction l with
  | nil => rfl
  | cons x l ih =>
      rw [List.findSome?_cons, List.findSome?_cons, h x List.mem_cons_self]
      cases f' x with
      | none => exact ih fun y hy => h y (List.mem_cons_of_mem x hy)
      | some y => rfl

/-- What is behind the place has no say in what begins before it. -/
theorem Pattern.Halts.find? {t v w : List α} (h : p.Halts t) (hv : v ≠ []) (prev : Option α) :
    p.find? prev (v ++ (t ++ w)) = (p.find? prev (v ++ t)).map (· ++ w) := by
  obtain ⟨c, x, rfl⟩ := List.exists_cons_of_ne_nil hv
  have hhead : ∀ head ∈ p.heads, (strip head (x ++ (t ++ w))).filter (fun r => p.Runs r) =
      ((strip head (x ++ t)).filter fun r => p.Runs r).map (· ++ w) := by
    intro head hhead
    have hstrip : ∀ w, strip head (x ++ (t ++ w)) = (strip head x).map (· ++ (t ++ w)) := by
      intro w
      refine strip_front fun d hd item hitem => h.heads d ?_ head hhead item hitem
      rwa [List.head?_append_of_ne_nil _ h.ne_nil] at hd
    have hstrip₀ := hstrip []
    rw [List.append_nil] at hstrip₀
    rw [hstrip, hstrip₀]
    cases strip head x with
    | none => rfl
    | some g =>
        rw [Option.map_some, Option.map_some, Option.filter_some, Option.filter_some]
        simp only [h.runs_iff]
        split_ifs <;> simp
  rw [List.cons_append, List.cons_append, Pattern.find?, Pattern.find?]
  split_ifs
  · exact findSome?_map hhead
  · rfl

/-! ### How long a match is -/

/-- How many symbols a piece takes at least. -/
def Item.least : Item α → ℕ
  | .one _ => 1
  | .many _ least => least

theorem sum_least_le {items : List (Item α)} {pre r : List α}
    (h : strip items (pre ++ r) = some r) : (items.map Item.least).sum ≤ pre.length := by
  induction items generalizing pre with
  | nil => simp
  | cons item items ih =>
      rw [List.map_cons, List.sum_cons]
      cases item with
      | one cls =>
          obtain ⟨c, tail, rfl, -, hlater⟩ := strip_one h
          have hle := ih hlater
          rw [Item.least, List.length_cons]
          omega
      | many cls least =>
          obtain ⟨run, tail, rfl, -, hleast, -, hlater⟩ := strip_many h
          have hle := ih hlater
          rw [Item.least, List.length_append]
          omega

/-- No match has fewer symbols. -/
def Pattern.Spans (p : Pattern α) (n : ℕ) : Prop :=
  ∀ head ∈ p.heads, n ≤ 1 + (head.map Item.least).sum + p.least

instance (p : Pattern α) (n : ℕ) : Decidable (p.Spans n) :=
  inferInstanceAs (Decidable (∀ head ∈ p.heads, _))

theorem Pattern.Hits.le_length {n : ℕ} {prev : Option α} {hit w : List α} (h : p.Hits prev hit w)
    (hn : p.Spans n) : n ≤ hit.length := by
  obtain ⟨r, hfind, rfl⟩ := h
  obtain ⟨c, pre, heq, -, -, hruns, head, hhead, hstrip⟩ := find?_some hfind
  have hprefix := sum_least_le hstrip
  have hleast := hn head hhead
  have hruns' : p.least ≤ (r.takeWhile p.body).length := hruns
  have hsplit := congrArg List.length (List.takeWhile_append_dropWhile (p := p.body) (l := r))
  have hlength := congrArg List.length heq
  simp only [List.length_append, List.length_cons] at hsplit hlength
  omega

theorem Scan.length_le {prev q : Option α} {w out rest : List α}
    (h : Scan p mark prev w out q rest) (hn : p.Spans mark.length) :
    out.length + rest.length ≤ w.length := by
  induction h with
  | done => simp
  | keep _ _ ih =>
      rw [List.length_cons, List.length_cons]
      omega
  | hit hhit _ ih =>
      have hle := hhit.le_length hn
      rw [List.length_append, List.length_append]
      omega

/-- **A mark no longer than a match makes no text longer.** -/
theorem Pattern.length_sub_le (hn : p.Spans mark.length) (text : List α) :
    (p.sub mark text).length ≤ text.length := by
  obtain ⟨q, hscan⟩ : ∃ q, Scan p mark none text (p.sub mark text) q [] := scan_scrub none text
  exact hscan.length_le hn

/-! ### Texts without a match -/

/-- No match begins anywhere in the text. -/
def Pattern.Free (p : Pattern α) (text : List α) : Prop :=
  ∀ pre w, text = pre ++ w → p.find? pre.getLast? w = none

theorem Pattern.free_nil (p : Pattern α) : p.Free [] := by
  intro pre w h
  rw [(List.append_eq_nil_iff.mp h.symm).2, find?]

theorem Pattern.Free.sub_eq {text : List α} (h : p.Free text) : p.sub mark text = text := by
  have hrest : ∀ w pre, text = pre ++ w → scrub p mark pre.getLast? 0 w = w := by
    intro w
    induction w with
    | nil => intro pre _; rfl
    | cons c w ih =>
        intro pre htext
        have hlater := ih (pre ++ [c]) (by rw [htext, List.append_assoc, List.singleton_append])
        rw [List.getLast?_concat] at hlater
        rw [scrub_keep (h pre (c :: w) htext), hlater]
  exact hrest text [] rfl

/-- A scan for `p` makes no match of `p₀`: the mark begins none and goes on no prefix, a
match of `p` goes on over what could begin one, and no run comes to be. -/
structure Pattern.Spares (p₀ p : Pattern α) (mark : List α) : Prop extends p₀.Apart p mark where
  next : ∀ c, p₀.first c → p.body c
  runs : ∀ prev w r q, Scan p mark prev w r q [] → p₀.Runs r → p₀.Runs w

/-- A run of one symbol was there before, when what begins a match is such a symbol too. -/
theorem Scan.runs_one_kept {p₀ : Pattern α} {prev q : Option α} {w r : List α}
    (h : Scan p mark prev w r q []) (hone : p₀.least = 1) (hfirst : ∀ c, p.first c → p₀.body c)
    (hruns : p₀.Runs r) : p₀.Runs w := by
  rw [Pattern.runs_one hone] at hruns ⊢
  obtain ⟨c, hc, hbody⟩ := hruns
  rcases h.head?_eq with heq | ⟨⟨d, hd, hd'⟩, -⟩
  · exact ⟨c, heq ▸ hc, hbody⟩
  · exact ⟨d, hd, hfirst d hd'⟩

/-- A prefix that is there afterwards is as free to begin a match as it was before. -/
theorem Pattern.Spares.start {p₀ : Pattern α} (hspares : p₀.Spares p mark) {b b' : Option α}
    {s r w : List α} (hopens : p₀.Opens s r)
    (hlast : b = b' ∨ ∃ prev hit, p.Hits prev hit (s ++ w)) : b = b' := by
  refine hlast.resolve_right fun hhit => ?_
  -- a match of `p` before it would have gone on over its first symbol
  obtain ⟨prev, hit, r', -, hr'⟩ := hhit
  obtain ⟨c, t, rfl, hfirst, -⟩ := hopens
  have hstop := head_dropWhile p.body r' c (by rw [hr']; rfl)
  rw [hspares.next c hfirst] at hstop
  cases hstop

/-- **What is free stays free**, and of its own matches a scan leaves none. -/
theorem Scan.free {p₀ : Pattern α} {q : Option α} {w out : List α}
    (h : Scan p mark none w out q []) (hspares : p₀.Spares p mark) (hmark : mark ≠ [])
    (hfree : p₀ = p ∨ p₀.Free w) : p₀.Free out := by
  intro y s hout
  by_contra hne
  obtain ⟨r, hfind⟩ := Option.ne_none_iff_exists'.mp hne
  obtain ⟨-, -, -, hstart, -, hruns, -⟩ := Pattern.find?_some hfind
  rw [hout, ← List.append_nil w] at h
  obtain ⟨u, pre, w', rfl, rfl, hopens, -, hnone, -, hscan, hlast⟩ :=
    h.opens hspares.toApart hmark (Pattern.opens_of_find? hfind)
  simp only [← List.append_assoc] at hlast
  have hprev := hspares.start hopens hlast
  simp only [List.append_nil, Option.or_none] at hnone hscan hprev
  have hfound : p₀.find? u.getLast? (pre ++ w') ≠ none :=
    hopens.find?_ne_none (hprev ▸ hstart) (hspares.runs _ _ _ _ hscan hruns)
  rcases hfree with rfl | hfree
  · exact hfound hnone
  · exact hfound (hfree u _ rfl)

theorem Pattern.Free.sub {p₀ : Pattern α} {w : List α} (hspares : p₀.Spares p mark)
    (hmark : mark ≠ []) (hfree : p₀ = p ∨ p₀.Free w) : p₀.Free (p.sub mark w) := by
  obtain ⟨q, hscan⟩ : ∃ q, Scan p mark none w (p.sub mark w) q [] := scan_scrub none w
  exact hscan.free hspares hmark hfree

/-- **The passes come to an end**: with no pass making a match of another's pattern, no match
of any of them is left. -/
theorem Pattern.foldl_free {ps : List (Pattern α)} (hmark : mark ≠ [])
    (hspares : ∀ p₀ ∈ ps, ∀ p ∈ ps, p₀.Spares p mark) (text : List α) :
    ∀ p₀ ∈ ps, p₀.Free (ps.foldl (fun text p => p.sub mark text) text) := by
  have hrest : ∀ later done : List (Pattern α), (∀ p ∈ later, p ∈ ps) → (∀ p ∈ done, p ∈ ps) →
      ∀ text, (∀ p₀ ∈ done, p₀.Free text) → ∀ p₀, p₀ ∈ done ∨ p₀ ∈ later →
        p₀.Free (later.foldl (fun text p => p.sub mark text) text) := by
    intro later
    induction later with
    | nil =>
        intro done _ _ text hfree p₀ hp₀
        exact hfree p₀ (hp₀.resolve_right List.not_mem_nil)
    | cons p later ih =>
        intro done hlater hdone text hfree p₀ hp₀
        have hp := hlater p List.mem_cons_self
        have hdone' : ∀ p' ∈ p :: done, p' ∈ ps := List.forall_mem_cons.mpr ⟨hp, hdone⟩
        refine ih (p :: done) (fun p' hp' => hlater p' (List.mem_cons_of_mem p hp')) hdone' _ ?_ p₀
          ?_
        · intro p' hp'
          exact Pattern.Free.sub (hspares p' (hdone' p' hp') p hp) hmark
            ((List.mem_cons.mp hp').imp_right (hfree p'))
        · rcases hp₀ with hp₀ | hp₀
          · exact Or.inl (List.mem_cons_of_mem p hp₀)
          · rcases List.mem_cons.mp hp₀ with rfl | hp₀
            · exact Or.inl List.mem_cons_self
            · exact Or.inr hp₀
  exact fun p₀ hp₀ => hrest ps [] (fun _ hp => hp) (by simp) text (by simp) p₀ (Or.inr hp₀)

/-- A text without a match is left alone by every pass. -/
theorem Pattern.foldl_of_free {ps : List (Pattern α)} {text : List α}
    (hfree : ∀ p ∈ ps, p.Free text) : ps.foldl (fun text p => p.sub mark text) text = text := by
  induction ps with
  | nil => rfl
  | cons p ps ih =>
      rw [List.foldl_cons, (hfree p List.mem_cons_self).sub_eq]
      exact ih fun p' hp' => hfree p' (List.mem_cons_of_mem p hp')

end Scrub
