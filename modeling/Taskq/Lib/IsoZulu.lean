import Taskq.Lib.IsoFormat

/-!
# Taskq.Lib.IsoZulu

`Z` and `+00:00` in the texts that `datetime.fromisoformat` reads.

A `Z` ends whatever is read before it, and so does a sign; up to the first `Z` the
reader goes the same way over both texts. A text that is read as it stands, and also
with `+00:00` for every `Z`, is therefore read as one `datetime`
(`fromisoformat?_zulu`).
-/

open Decimal

namespace IsoFormat

/-! ### What a reader takes of its text -/

theorem value?_isDigit {cs : List Char} {v : ℕ} (h : value? cs = some v) :
    ∀ c ∈ cs, c.isDigit = true := by
  have hgo : ∀ (cs : List Char) (acc : ℕ),
      (cs.foldlM (fun acc c => (digitVal? c).map (acc * 10 + ·)) acc).isSome →
        ∀ c ∈ cs, c.isDigit = true := by
    intro cs
    induction cs with
    | nil => simp
    | cons d cs ih =>
        intro acc hread
        rw [List.foldlM_cons] at hread
        unfold digitVal? at hread
        split_ifs at hread with hd
        · refine List.forall_mem_cons.mpr ⟨?_, ih _ hread⟩
          simpa [Char.isDigit, Char.le_def] using hd
        · cases hread
  exact hgo cs 0 (by rw [← value?, h]; rfl)

theorem parseDigits_sound {n v : ℕ} {cs rest : List Char}
    (h : parseDigits n cs = some (v, rest)) :
    ∃ ds, cs = ds ++ rest ∧ ds.length = n ∧ value? ds = some v := by
  unfold parseDigits at h
  split_ifs at h with hn
  obtain ⟨w, hw, heq⟩ := Option.map_eq_some_iff.mp h
  cases heq
  exact ⟨cs.take n, (List.take_append_drop n cs).symm, List.length_take_of_le hn, hw⟩

theorem parseDigits_append {n v : ℕ} {ds : List Char} (hlen : ds.length = n)
    (hds : value? ds = some v) (rest : List Char) :
    parseDigits n (ds ++ rest) = some (v, rest) := by
  have hn : n ≤ (ds ++ rest).length := by
    rw [List.length_append]
    omega
  rw [parseDigits, if_pos hn, List.take_left' hlen, List.drop_left' hlen, hds]
  rfl

/-- Digits are read in front of whatever is none, and what follows does not matter. -/
theorem parseDigits_frame {n v : ℕ} {q t rest : List Char} {a : Char} (ha : a.isDigit = false)
    (h : parseDigits n (q ++ a :: t) = some (v, rest)) :
    ∃ q', rest = q' ++ a :: t ∧ ∀ t', parseDigits n (q ++ t') = some (v, q' ++ t') := by
  obtain ⟨ds, hsplit, hlen, hds⟩ := parseDigits_sound h
  rcases List.append_eq_append_iff.mp hsplit with ⟨m, hm, htail⟩ | ⟨q', rfl, rfl⟩
  · cases m with
    | nil =>
        rw [List.append_nil] at hm
        rw [List.nil_append] at htail
        subst hm
        exact ⟨[], htail.symm, parseDigits_append hlen hds⟩
    | cons d m =>
        obtain rfl : a = d := (List.cons.inj htail).1
        have hmem : a ∈ ds := by simp [hm]
        rw [value?_isDigit hds a hmem] at ha
        cases ha
  · refine ⟨q', rfl, fun t' => ?_⟩
    rw [List.append_assoc]
    exact parseDigits_append hlen hds _

theorem parseDigits_le {n v : ℕ} {cs rest : List Char}
    (h : parseDigits n cs = some (v, rest)) : n ≤ cs.length := by
  obtain ⟨ds, rfl, rfl, -⟩ := parseDigits_sound h
  simp

/-- A component that is not the last character of its text. -/
theorem parseComponents_cons {k v : ℕ} {sep : Option Bool} {cs tl : List Char} {c : Char}
    (h : parseDigits 2 cs = some (v, c :: tl)) (htl : tl ≠ []) :
    parseComponents (k + 1) sep cs =
      if sep.getD (c = ':') = true ∧ c = ':' then
        (parseComponents k (some true) tl).map fun r => (v :: r.1, r.2)
      else if c = '.' ∨ c = ',' then (parseFraction tl).map fun r => ([v], r)
      else if sep.getD (c = ':') = true then none
      else (parseComponents k (some false) (c :: tl)).map fun r => (v :: r.1, r.2) := by
  cases tl with
  | nil => exact absurd rfl htl
  | cons d more =>
      rw [parseComponents, h]
      simp only [Option.bind_eq_bind, Option.bind_some]
      split_ifs with hcolon hpoint hsep
      · rw [hcolon.1]
        cases parseComponents k (some true) (d :: more) <;> rfl
      · cases parseFraction (d :: more) <;> rfl
      · rfl
      · rw [Bool.not_eq_true] at hsep
        rw [hsep]
        cases parseComponents k (some false) (c :: d :: more) <;> rfl

/-! ### Up to a `Z` -/

theorem leftover_frame {q t : List Char}
    (h : leftover ((q ++ 'Z' :: t).dropWhile Char.isDigit) = false) (t' : List Char) :
    leftover ((q ++ t').dropWhile Char.isDigit) = false := by
  have hZ : Char.isDigit 'Z' = false := by decide
  rw [List.dropWhile_append] at h ⊢
  cases hq : q.dropWhile Char.isDigit with
  | nil =>
      rw [hq, List.dropWhile_cons, hZ] at h
      simp [leftover] at h
  | cons c l =>
      rw [hq] at h
      simpa [leftover] using h

theorem parseFraction_frame {q t : List Char} {us : ℕ}
    (h : parseFraction (q ++ 'Z' :: t) = some (us, false)) (t' : List Char) :
    parseFraction (q ++ t') = some (us, false) := by
  obtain ⟨⟨v, rest⟩, hread, hend⟩ := Option.bind_eq_some_iff.mp h
  obtain ⟨q', rfl, hframe⟩ := parseDigits_frame (by decide) hread
  have hle := parseDigits_le (hframe [])
  rw [List.append_nil, List.length_append, List.length_cons] at hle
  have hsix : ∀ t : List Char, min 6 (q ++ t).length = 6 := by
    intro t
    rw [List.length_append]
    omega
  simp only [hsix] at hframe hend
  obtain ⟨rfl, hleft⟩ := Prod.ext_iff.mp (Option.some.inj hend)
  simp only [parseFraction, hsix, hframe, leftover_frame hleft t', Option.bind_eq_bind,
    Option.bind_some]
  rfl

/-- No component starts with a `Z`. -/
theorem parseComponents_zulu (k : ℕ) (sep : Option Bool) (t : List Char) :
    parseComponents k sep ('Z' :: t) = none := by
  have hnone : ∀ n, parseDigits (n + 1) ('Z' :: t) = none := by
    intro n
    cases hread : parseDigits (n + 1) ('Z' :: t) with
    | none => rfl
    | some r =>
        obtain ⟨q', -, hframe⟩ := parseDigits_frame (q := []) (by decide) hread
        exact absurd (parseDigits_le (hframe [])) (by simp)
  cases k with
  | zero =>
      have hsucc : min 6 ('Z' :: t).length = min 5 t.length + 1 := by
        rw [List.length_cons]
        omega
      rw [parseComponents, parseFraction, hsucc, hnone]
      rfl
  | succ k => rw [parseComponents, hnone]; rfl

/-- What is read up to a `Z`, with nothing left over, is read up to anything else. -/
theorem parseComponents_frame {t t' : List Char} (b : Char) (k : ℕ) :
    ∀ {sep : Option Bool} {q : List Char} {vs : List ℕ} {us : ℕ},
      parseComponents k sep (q ++ 'Z' :: t) = some (vs, us, false) →
        parseComponents k sep (q ++ b :: t') = some (vs, us, false) := by
  induction k with
  | zero =>
      intro sep q vs us h
      obtain ⟨⟨us', left⟩, hread, hend⟩ := Option.bind_eq_some_iff.mp h
      cases hend
      rw [parseComponents, parseFraction_frame hread]
      rfl
  | succ k ih =>
      intro sep q vs us h
      obtain ⟨⟨v, rest⟩, hread, -⟩ := Option.bind_eq_some_iff.mp h
      obtain ⟨q', rfl, hframe⟩ := parseDigits_frame (by decide) hread
      cases q' with
      | nil =>
          rw [List.nil_append] at hread
          cases t with
          | nil =>
              rw [parseComponents, hread] at h
              simp [leftover] at h
          | cons d t =>
              rw [parseComponents_cons hread (by simp), parseComponents_zulu] at h
              simp at h
      | cons c q' =>
          replace hframe : ∀ t', parseDigits 2 (q ++ t') = some (v, c :: (q' ++ t')) := hframe
          rw [parseComponents_cons (hframe ('Z' :: t)) (by simp)] at h
          rw [parseComponents_cons (hframe (b :: t')) (by simp)]
          split_ifs at h ⊢ with hcolon hpoint hsep
          · obtain ⟨⟨vs', us', left⟩, hrest, hend⟩ := Option.map_eq_some_iff.mp h
            cases hend
            rw [ih hrest]
            rfl
          · obtain ⟨⟨us', left⟩, hrest, hend⟩ := Option.map_eq_some_iff.mp h
            cases hend
            rw [parseFraction_frame hrest]
            rfl
          · obtain ⟨⟨vs', us', left⟩, hrest, hend⟩ := Option.map_eq_some_iff.mp h
            cases hend
            rw [← List.cons_append] at hrest
            rw [← List.cons_append, ih hrest]
            rfl

theorem parseZone_frame {sign b : Char} {q t t' : List Char} {o : UtcOffset}
    (h : parseZone sign (q ++ 'Z' :: t) = some o) : parseZone sign (q ++ b :: t') = some o := by
  obtain ⟨⟨clock, left⟩, hread, hend⟩ := Option.bind_eq_some_iff.mp h
  obtain ⟨⟨vs, us, left⟩, hcomponents, heq⟩ := Option.bind_eq_some_iff.mp hread
  cases heq
  cases left with
  | true => cases hend
  | false =>
      have hclock : parseClock (q ++ b :: t') =
          some (⟨vs.getD 0 0, vs.getD 1 0, vs.getD 2 0, us⟩, false) := by
        rw [parseClock, parseComponents_frame b 3 hcomponents]
        rfl
      rw [parseZone, hclock]
      exact hend

/-! ### The offset a `Z` stands for -/

/-- What every `Z` of a text is written as, and every other character as itself. -/
def Zulu (g : Char → List Char) : Prop := ∀ c, c ≠ 'Z' → g c = [c]

theorem parseDigits_zero (t : List Char) : parseDigits 2 ('0' :: '0' :: t) = some (0, t) :=
  @parseDigits_append 2 0 ['0', '0'] rfl rfl t

/-- `00:00`, with something after it that is not the end of the text. -/
theorem parseComponents_midnight {c d : Char} {t : List Char} (hcolon : c ≠ ':')
    (hpoint : c ≠ '.' ∧ c ≠ ',') :
    parseComponents 3 none ('0' :: '0' :: ':' :: '0' :: '0' :: c :: d :: t) = none := by
  rw [parseComponents_cons (parseDigits_zero _) (by simp),
    parseComponents_cons (parseDigits_zero _) (by simp)]
  simp [hcolon, hpoint]

theorem parseZone_midnight {g : Char → List Char} (hg : Zulu g) {post : List Char}
    (hpost : leftover post = false) {o : UtcOffset}
    (h : parseZone '+' ('0' :: '0' :: ':' :: '0' :: '0' :: post.flatMap g) = some o) :
    o = UtcOffset.utc := by
  have hutc : parseZone '+' ['0', '0', ':', '0', '0'] = some UtcOffset.utc := by decide
  have hend : parseZone '+' ['0', '0', ':', '0', '0', '\x00'] = some UtcOffset.utc := by decide
  cases post with
  | nil =>
      rw [List.flatMap_nil, hutc] at h
      exact (Option.some.inj h).symm
  | cons c post =>
      obtain rfl : c = '\x00' := by simpa [leftover] using hpost
      rw [List.flatMap_cons, hg _ (by decide), List.singleton_append] at h
      cases htail : post.flatMap g with
      | nil =>
          rw [htail, hend] at h
          exact (Option.some.inj h).symm
      | cons d tail =>
          rw [htail, parseZone, parseClock,
            parseComponents_midnight (by decide) (by decide)] at h
          cases h

/-! ### The time of day -/

theorem zone_split {clock rest : List Char} {c : Char} (hclock : ∀ x ∈ clock, isZoneChar x = false)
    (hc : isZoneChar c = true) :
    (clock ++ c :: rest).takeWhile (fun x => !isZoneChar x) = clock ∧
      (clock ++ c :: rest).dropWhile (fun x => !isZoneChar x) = c :: rest := by
  have hpos : ∀ x ∈ clock, (!isZoneChar x) = true := fun x hx => by rw [hclock x hx]; rfl
  rw [List.takeWhile_append_of_pos hpos, List.dropWhile_append_of_pos hpos, List.takeWhile_cons,
    List.dropWhile_cons, hc]
  simp

/-- A time with an offset that starts with a sign. -/
theorem parseTime_sign {clock rest : List Char} {sign : Char}
    (hclock : ∀ x ∈ clock, isZoneChar x = false) (hsign : isZoneChar sign = true)
    (hZ : sign ≠ 'Z') :
    parseTime (clock ++ sign :: rest) = (parseClock clock).bind fun r =>
      (parseZone sign rest).map fun o => (r.1, some o) := by
  obtain ⟨htake, hdrop⟩ := @zone_split clock rest sign hclock hsign
  rw [parseTime, htake]
  cases parseClock clock with
  | none => rfl
  | some r =>
      simp only [Option.bind_eq_bind, Option.bind_some, hdrop]
      cases parseZone sign rest <;> rfl

/-- A time with a `Z`. -/
theorem parseTime_Z {clock rest : List Char} (hclock : ∀ x ∈ clock, isZoneChar x = false) :
    parseTime (clock ++ 'Z' :: rest) = (parseClock clock).bind fun r =>
      if leftover rest = true then none else some (r.1, some UtcOffset.utc) := by
  obtain ⟨htake, hdrop⟩ := @zone_split clock rest 'Z' hclock (by decide)
  rw [parseTime, htake, hdrop]
  rfl

theorem parseTime_zulu {g : Char → List Char} (hg : Zulu g) {q post : List Char}
    (hq : 'Z' ∉ q) {r r' : Clock × Option UtcOffset} (h : parseTime (q ++ 'Z' :: post) = some r)
    (h' : parseTime (q ++ '+' :: '0' :: '0' :: ':' :: '0' :: '0' :: post.flatMap g) = some r') :
    r' = r := by
  cases hfind : q.find? isZoneChar with
  | none =>
      have hzone : ∀ x ∈ q, isZoneChar x = false := by simpa using hfind
      rw [parseTime_Z hzone] at h
      rw [parseTime_sign hzone (by decide) (by decide)] at h'
      obtain ⟨⟨clock, left⟩, hclock, hend⟩ := Option.bind_eq_some_iff.mp h
      rw [hclock, Option.bind_some] at h'
      obtain ⟨o, ho, rfl⟩ := Option.map_eq_some_iff.mp h'
      split_ifs at hend with hpost
      cases hend
      rw [parseZone_midnight hg (Bool.not_eq_true _ ▸ hpost) ho]
  | some sign =>
      -- the offset starts before the `Z`
      obtain ⟨hsign, clock, rest, rfl, hnone⟩ := List.find?_eq_some_iff_append.mp hfind
      have hclock : ∀ x ∈ clock, isZoneChar x = false := by simpa using hnone
      have hZ : sign ≠ 'Z' := fun hZ => hq (by simp [hZ])
      rw [List.append_assoc, List.cons_append, parseTime_sign hclock hsign hZ] at h h'
      obtain ⟨r, hr, hend⟩ := Option.bind_eq_some_iff.mp h
      obtain ⟨o, ho, rfl⟩ := Option.map_eq_some_iff.mp hend
      rw [hr, Option.bind_some, parseZone_frame ho] at h'
      exact (Option.some.inj h').symm

/-! ### The date -/

/-- What a date takes of its text has no `Z`, and is as long as where the date ends says. -/
theorem parseDate_sound {cs : List Char} {d : ℕ × ℕ × ℕ} (h : parseDate cs = some d) :
    ∃ used rest, cs = used ++ rest ∧ 'Z' ∉ used ∧
      (rest = [] ∨ 10 ≤ used.length ∨ 8 ≤ used.length ∧ cs[4]? ≠ some '-') := by
  have hdigits : ∀ {ds v}, value? ds = some v → 'Z' ∉ ds := fun hds hmem =>
    absurd (value?_isDigit hds _ hmem) (by decide)
  obtain ⟨⟨year, rest⟩, hyear, hdate⟩ := Option.bind_eq_some_iff.mp h
  obtain ⟨y, rfl, hy, hyears⟩ := parseDigits_sound hyear
  by_cases hsep : rest.head? = some '-'
  · obtain ⟨rest, rfl⟩ := List.head?_eq_some_iff.mp hsep
    simp only [List.head?_cons, List.tail_cons, if_true] at hdate
    split at hdate
    next =>
        obtain ⟨⟨week, more⟩, hweek, hday⟩ := Option.bind_eq_some_iff.mp hdate
        obtain ⟨w, rfl, hw, hweeks⟩ := parseDigits_sound hweek
        cases more with
        | nil =>
            refine ⟨y ++ '-' :: 'W' :: w, [], by simp, ?_, Or.inl rfl⟩
            simp [hdigits hyears, hdigits hweeks]
        | cons c more =>
            simp only [true_and] at hday
            split_ifs at hday with hc
            obtain ⟨⟨day, tail⟩, hday, -⟩ := Option.bind_eq_some_iff.mp hday
            obtain ⟨d, rfl, hd, hdays⟩ := parseDigits_sound hday
            refine ⟨y ++ '-' :: 'W' :: (w ++ '-' :: d), tail, ?_, ?_, Or.inr (Or.inl ?_)⟩
            · simpa using Classical.not_not.mp hc
            · simp [hdigits hyears, hdigits hweeks, hdigits hdays]
            · simp [hy, hw, hd]
    next =>
        obtain ⟨⟨month, more⟩, hmonth, hday⟩ := Option.bind_eq_some_iff.mp hdate
        obtain ⟨m, rfl, hm, hmonths⟩ := parseDigits_sound hmonth
        simp only [true_and] at hday
        split_ifs at hday with hc
        obtain ⟨more, rfl⟩ := List.head?_eq_some_iff.mp (Classical.not_not.mp hc)
        obtain ⟨⟨day, tail⟩, hday, -⟩ := Option.bind_eq_some_iff.mp hday
        obtain ⟨d, rfl, hd, hdays⟩ := parseDigits_sound hday
        refine ⟨y ++ '-' :: (m ++ '-' :: d), tail, by simp, ?_, Or.inr (Or.inl ?_)⟩
        · simp [hdigits hyears, hdigits hmonths, hdigits hdays]
        · simp [hy, hm, hd]
  · have hfour : (y ++ rest)[4]? ≠ some '-' := by
      rw [List.getElem?_append_right (by omega), hy, Nat.sub_self, ← List.head?_eq_getElem?]
      exact hsep
    simp only [hsep, if_false, false_and] at hdate
    split at hdate
    next =>
        obtain ⟨⟨week, more⟩, hweek, hday⟩ := Option.bind_eq_some_iff.mp hdate
        obtain ⟨w, rfl, hw, hweeks⟩ := parseDigits_sound hweek
        cases more with
        | nil =>
            refine ⟨y ++ 'W' :: w, [], by simp, ?_, Or.inl rfl⟩
            simp [hdigits hyears, hdigits hweeks]
        | cons c more =>
            obtain ⟨⟨day, tail⟩, hday, -⟩ := Option.bind_eq_some_iff.mp hday
            obtain ⟨d, hsplit, hd, hdays⟩ := parseDigits_sound hday
            rw [hsplit] at hfour ⊢
            refine ⟨y ++ 'W' :: (w ++ d), tail, by simp, ?_, Or.inr (Or.inr ⟨?_, hfour⟩)⟩
            · simp [hdigits hyears, hdigits hweeks, hdigits hdays]
            · simp [hy, hw, hd]
    next =>
        obtain ⟨⟨month, more⟩, hmonth, hday⟩ := Option.bind_eq_some_iff.mp hdate
        obtain ⟨m, rfl, hm, hmonths⟩ := parseDigits_sound hmonth
        obtain ⟨⟨day, tail⟩, hday, -⟩ := Option.bind_eq_some_iff.mp hday
        obtain ⟨d, rfl, hd, hdays⟩ := parseDigits_sound hday
        refine ⟨y ++ (m ++ d), tail, by simp, ?_, Or.inr (Or.inr ⟨?_, hfour⟩)⟩
        · simp [hdigits hyears, hdigits hmonths, hdigits hdays]
        · simp [hy, hm, hd]

theorem separatorLocation_bounds {cs : List Char} {loc : ℕ} (h : separatorLocation cs = some loc) :
    7 ≤ loc ∧ loc ≤ 10 ∧ (cs[4]? ≠ some '-' → loc ≤ 8) := by
  unfold separatorLocation at h
  simp only at h
  split_ifs at h <;> cases h <;> simp_all
  omega

/-- A date that is read ends before the first `Z`. -/
theorem separatorLocation_le {pre post : List Char} {loc : ℕ} {d : ℕ × ℕ × ℕ}
    (h : separatorLocation (pre ++ 'Z' :: post) = some loc)
    (hdate : parseDate ((pre ++ 'Z' :: post).take loc) = some d) : loc ≤ pre.length := by
  obtain ⟨used, rest, hsplit, hZ, hlong⟩ := parseDate_sound hdate
  obtain ⟨-, hten, height⟩ := separatorLocation_bounds h
  have hlen : used.length + rest.length ≤ loc := by
    rw [← List.length_append, ← hsplit]
    exact List.length_take_le ..
  have hrest : rest = [] := by
    rcases hlong with hnil | hlong | ⟨hlong, hfour⟩
    · exact hnil
    · exact List.length_eq_zero_iff.mp (by omega)
    · rw [List.getElem?_take_of_lt (by omega)] at hfour
      have := height hfour
      exact List.length_eq_zero_iff.mp (by omega)
  rw [hrest, List.append_nil] at hsplit
  by_contra hlt
  refine hZ ?_
  obtain ⟨n, hn⟩ : ∃ n, loc - pre.length = n + 1 := ⟨loc - pre.length - 1, by omega⟩
  rw [← hsplit, List.take_append, hn, List.take_succ_cons]
  simp

/-- Where a date ends before a `Z` it ends before the offset as well. -/
theorem separatorLocation_zulu {pre post more : List Char} {loc : ℕ}
    (h : separatorLocation (pre ++ 'Z' :: post) = some loc) (hloc : loc ≤ pre.length) :
    separatorLocation (pre ++ '+' :: '0' :: '0' :: ':' :: '0' :: '0' :: more) = some loc := by
  obtain ⟨hseven, -, -⟩ := separatorLocation_bounds h
  have hlong : ∀ (c : Char) (t : List Char),
      (pre ++ c :: t).length = pre.length + t.length + 1 := by
    intro c t
    rw [List.length_append, List.length_cons]
    omega
  have hget : ∀ (c : Char) (t : List Char) (i : ℕ), i < 7 → (pre ++ c :: t)[i]? = pre[i]? :=
    fun c t i hi => List.getElem?_append_left (by omega)
  have hrun : ∀ (c : Char) (t : List Char), c.isDigit = false →
      ((pre ++ c :: t).drop 7).takeWhile Char.isDigit = (pre.drop 7).takeWhile Char.isDigit := by
    intro c t hc
    rw [List.drop_append_of_le_length (by omega), List.takeWhile_append,
      List.takeWhile_cons_of_neg (by simp [hc]), List.append_nil]
    split_ifs with hall
    · exact ((List.takeWhile_prefix _).eq_of_length hall).symm
    · rfl
  have hat : ∀ (c : Char) (t : List Char) (i : ℕ),
      (pre ++ c :: t)[pre.length + i]? = (c :: t)[i]? := by
    intro c t i
    rw [List.getElem?_append_right (by omega), Nat.add_sub_cancel_left]
  unfold separatorLocation at h ⊢
  simp only [hlong, hget _ _ 4 (by decide), hget _ _ 5 (by decide), hrun 'Z' _ (by decide),
    hrun '+' _ (by decide), List.length_cons] at h ⊢
  rw [if_neg (by omega)] at h ⊢
  by_cases hweek : pre[4]? = some '-' ∧ pre[5]? = some 'W'
  case neg =>
      rw [not_and_or] at hweek
      split_ifs at h ⊢ <;> first | exact h | simp_all
  rw [if_pos hweek.1, if_pos hweek.2] at h ⊢
  have height : 8 ≤ loc := by split_ifs at h <;> cases h <;> omega
  by_cases hdash : pre.length = 8
  · -- the offset stands where a second dash would
    have h8 : ∀ (c : Char) (t : List Char), (pre ++ c :: t)[8]? = some c := by
      intro c t
      rw [← hdash]
      exact hat c t 0
    rw [h8, if_neg (by simp)] at h ⊢
    exact h
  have h8 : ∀ (c : Char) (t : List Char), (pre ++ c :: t)[8]? = pre[8]? :=
    fun c t => List.getElem?_append_left (by omega)
  rw [h8] at h ⊢
  by_cases hday : pre[8]? = some '-'
  case neg =>
      rw [if_neg (fun h => hday h.2)] at h ⊢
      exact h
  rw [if_pos ⟨by omega, hday⟩, if_neg (by omega)] at h ⊢
  obtain hlen | hlen | hlen : pre.length = 9 ∨ pre.length = 10 ∨ 11 ≤ pre.length := by omega
  · -- the day would start with the offset: the date ends before it
    have h10 : ∀ (c d : Char) (t : List Char), (pre ++ c :: d :: t)[10]? = some d := by
      intro c d t
      exact (congrArg _ (by rw [hlen])).trans (hat c (d :: t) 1)
    have hloc : loc = 8 := by split_ifs at h <;> cases h <;> omega
    rw [h10, hloc]
    rfl
  · have h10 : ∀ (c : Char) (t : List Char), (pre ++ c :: t)[10]? = some c := by
      intro c t
      rw [← hlen]
      exact hat c t 0
    rw [h10] at h ⊢
    exact h
  · have h10 : ∀ (c : Char) (t : List Char), (pre ++ c :: t)[10]? = pre[10]? :=
      fun c t => List.getElem?_append_left (by omega)
    rw [h10] at h ⊢
    exact h

/-! ### The whole text -/

/-- A time that is read starts with two digits. -/
theorem parseTime_digits {cs : List Char} {r : Clock × Option UtcOffset}
    (h : parseTime cs = some r) :
    ∃ a b t, cs = a :: b :: t ∧ a.isDigit = true ∧ b.isDigit = true := by
  obtain ⟨⟨clock, left⟩, hclock, -⟩ := Option.bind_eq_some_iff.mp h
  obtain ⟨⟨vs, us, left⟩, hcomponents, -⟩ := Option.bind_eq_some_iff.mp hclock
  obtain ⟨⟨v, rest⟩, hread, -⟩ := Option.bind_eq_some_iff.mp hcomponents
  obtain ⟨ds, hsplit, hlen, hds⟩ := parseDigits_sound hread
  match ds, hlen, value?_isDigit hds with
  | [a, b], _, hdigits =>
      obtain ⟨t, ht⟩ := List.takeWhile_prefix (l := cs) (fun c => !isZoneChar c)
      refine ⟨a, b, rest ++ t, ?_, hdigits a (by simp), hdigits b (by simp)⟩
      rw [← ht, hsplit]
      simp

/-- No time of day has more digits after `00:00`. -/
theorem parseTime_midnight {a b : Char} (ha : a.isDigit = true) (hb : b.isDigit = true)
    (t : List Char) : parseTime ('0' :: '0' :: ':' :: '0' :: '0' :: a :: b :: t) = none := by
  have hne : ∀ c d : Char, c.isDigit = true → d.isDigit = false → c ≠ d := by
    intro c d hc hd heq
    subst heq
    rw [hc] at hd
    cases hd
  have hplain : ∀ c : Char, c.isDigit = true → isZoneChar c = false := by
    intro c hc
    simp [isZoneChar, hne c '+' hc (by decide), hne c '-' hc (by decide), hne c 'Z' hc (by decide)]
  have htake : ('0' :: '0' :: ':' :: '0' :: '0' :: a :: b :: t).takeWhile (fun c => !isZoneChar c)
      = '0' :: '0' :: ':' :: '0' :: '0' :: a :: b :: t.takeWhile (fun c => !isZoneChar c) := by
    have hzero : isZoneChar '0' = false := by decide
    have hcolon : isZoneChar ':' = false := by decide
    simp [hzero, hcolon, hplain a ha, hplain b hb]
  rw [parseTime, htake, parseClock, parseComponents_midnight (hne a ':' ha (by decide))
    ⟨hne a '.' ha (by decide), hne a ',' ha (by decide)⟩]
  rfl

/-- **A `Z` is read as `+00:00`**, wherever both are read. -/
theorem fromisoformat?_zulu {g : Char → List Char} (hg : Zulu g) {pre post : List Char}
    (hpre : 'Z' ∉ pre) {d d' : PyDateTime} (h : fromisoformat? (pre ++ 'Z' :: post) = some d)
    (h' : fromisoformat? (pre ++ '+' :: '0' :: '0' :: ':' :: '0' :: '0' :: post.flatMap g)
      = some d') : d' = d := by
  unfold fromisoformat? at h h'
  split_ifs at h h'
  obtain ⟨loc, hloc, h⟩ := Option.bind_eq_some_iff.mp h
  obtain ⟨⟨year, month, day⟩, hdate, h⟩ := Option.bind_eq_some_iff.mp h
  have hle := separatorLocation_le hloc hdate
  rw [separatorLocation_zulu hloc hle] at h'
  rw [List.take_append_of_le_length hle] at hdate
  simp only [Option.bind_eq_bind, Option.bind_some, List.take_append_of_le_length hle, hdate,
    List.drop_append_of_le_length hle] at h h'
  cases hdrop : pre.drop loc with
  | nil =>
      -- the `Z` is the separator
      rw [hdrop] at h h'
      obtain ⟨r, hr, -⟩ := Option.bind_eq_some_iff.mp h
      obtain ⟨r', hr', -⟩ := Option.bind_eq_some_iff.mp h'
      obtain ⟨a, b, t, rfl, ha, hb⟩ := parseTime_digits hr
      have hplain : ∀ c : Char, c.isDigit = true → g c = [c] := by
        intro c hc
        refine hg c ?_
        intro heq
        subst heq
        cases hc
      replace hr' : parseTime ('0' :: '0' :: ':' :: '0' :: '0' :: (a :: b :: t).flatMap g)
        = some r' := hr'
      rw [List.flatMap_cons, List.flatMap_cons, hplain a ha, hplain b hb, List.singleton_append,
        List.singleton_append, parseTime_midnight ha hb] at hr'
      cases hr'
  | cons c q =>
      rw [hdrop] at h h'
      obtain ⟨r, hr, hmake⟩ := Option.bind_eq_some_iff.mp h
      obtain ⟨r', hr', hmake'⟩ := Option.bind_eq_some_iff.mp h'
      have hq : 'Z' ∉ q := by
        intro hmem
        refine hpre (List.mem_of_mem_drop (i := loc) ?_)
        rw [hdrop]
        exact List.mem_cons_of_mem c hmem
      obtain rfl : r' = r := parseTime_zulu hg hq hr hr'
      exact Option.some.inj (hmake'.symm.trans hmake)

end IsoFormat
