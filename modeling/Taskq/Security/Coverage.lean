import Taskq.Security.Reading

/-!
# Taskq.Security.Coverage

What NFR-04 names, against what the four patterns find.

The expression of NFR-04 has an alternative the module does not have (`token=`), and where
both have one, the classes differ: a short or punctuated token, a quote in a connection
string. Such a secret still comes out clean when a match takes a part of its prefix
(`postgres://h/token=x`), or takes its value up to the next space (`token=password=x`). The
passes being one reading of the text, both are said of the text.
-/

namespace Taskq.Redact

open Scrub Unicode

/-! ### What NFR-04 asks -/

/-- `\S`. -/
def isNonSpace (c : CodePoint) : Bool := !isSpace c

/-- `token=\S+`. -/
def tokenSpec : Pattern CodePoint where
  start _ := true
  first := isOneOf ['t']
  heads := [literal ['o', 'k', 'e', 'n', '=']]
  body := isNonSpace
  least := 1

/-- `Bearer\s+\S+`. -/
def bearerSpec : Pattern CodePoint := { bearer with body := isNonSpace, least := 1 }

/-- `postgres(ql)?://[^\s]+`. -/
def dsnSpec : Pattern CodePoint := { dsn with body := isNonSpace }

/-- The alternatives of the expression. -/
def specified : List (Pattern CodePoint) := [apiKey, tokenSpec, bearerSpec, dsnSpec]

/-- Every specified secret in the text has nothing but the marker behind its prefix. -/
def Clean (text : PyStr) : Prop :=
  ∀ p ∈ specified,
    p.Everywhere (fun _ _ r => p.Runs r → r.takeWhile p.body = redactionMarker) text

/-! ### What the patterns find -/

/-- The text ends, or goes on with a space. -/
def EndsWord (w : PyStr) : Prop := ∀ c ∈ w.head?, isSpace c

/-- Up to the next space there is nothing but the marker. -/
def OnlyMarker (r : PyStr) : Prop := ∃ w, r = redactionMarker ++ w ∧ EndsWord w

/-- Up to the next space there is nothing but one match, or the marker already. -/
def Replaced (data : CharacterData) (prev : Option CodePoint) (r : PyStr) : Prop :=
  OnlyMarker r ∨ ∃ rest, Match data prev r rest ∧ EndsWord rest

/-- The reading comes to `s`, and no match begins there. -/
def Missed (data : CharacterData) (text s : PyStr) : Prop :=
  ∃ out q, Reads (Match data) redactionMarker none text out q s ∧ ∀ rest, ¬ Match data q s rest

/-- Where no match takes a specified prefix or a part of it, one takes the value. -/
def Covered (data : CharacterData) (text : PyStr) : Prop :=
  ∀ p ∈ specified, p.Everywhere
    (fun _ pre r => p.Runs r → Missed data text (pre ++ r) → Replaced data pre.getLast? r) text

/-! ### Prefixes -/

theorem prefix_all : specified.all fun p => redactionMarker.all fun c =>
    !p.first c && p.heads.all fun head => head.all fun item => !item.cls c := by decide

theorem tail_all : specified.all fun p => p.heads.all fun head => head.all fun item =>
    capitals.all fun c => !item.cls c := by decide

theorem key_tail_all : [apiKey, tokenSpec].all fun p => p.heads.all fun head => head.all fun item =>
    !item.cls (CodePoint.ofChar 's') := by decide

variable {data : CharacterData} {p₀ : Pattern CodePoint} {prev q : Option CodePoint}
  {w r x out rest text : PyStr} {c : CodePoint}

theorem spec_spaces (h₀ : p₀ ∈ specified) : ∀ head ∈ p₀.heads, ∀ cls least,
    .many cls least ∈ head → cls = isSpace := by
  simp only [specified, List.mem_cons, List.not_mem_nil, or_false] at h₀
  rcases h₀ with rfl | rfl | rfl | rfl
  all_goals simp [apiKey, tokenSpec, bearerSpec, bearer, dsnSpec, dsn, literal]

/-- A match begins with a key, or with a letter that is in no prefix behind its first. -/
theorem Match.opening (h : Match data prev w rest) :
    apiKey.find? none w ≠ none ∨ ∃ c ∈ w.head?, c ∈ capitals := by
  have hfirst : ∀ {p : Pattern CodePoint} {r : PyStr}, p ∈ patterns data → p ≠ apiKey →
      p.Opens w r → ∃ c ∈ w.head?, c ∈ capitals := by
    intro p r hp hkey hopens
    obtain ⟨c, y, rfl, hc, -⟩ := hopens
    exact ⟨c, rfl, first_capital hp hkey hc⟩
  cases h with
  | early h =>
      cases h with
      | key hopens hruns => exact Or.inl (hopens.find?_ne_none rfl hruns)
      | token hopens _ =>
          exact Or.inr (hfirst (bearer_mem data) (precedes_bearer data).ne_apiKey hopens)
  | url hp _ hopens _ _ =>
      refine Or.inr (hfirst (url_mem hp) ?_ hopens)
      rcases hp with rfl | rfl
      · exact (precedes_dsn (Or.inl rfl) : Precedes data apiKey dsn).ne_apiKey
      · exact (precedes_password (Or.inl rfl)).ne_apiKey

/-- No match begins in a specified prefix behind its first character. -/
theorem prefix_quiet (h₀ : p₀ ∈ specified) (hopens : p₀.Opens (c :: x ++ r) r) :
    ∀ i < x.length, ∀ q rest, ¬ Match data q ((x ++ r).drop i) rest := by
  intro i hi q rest h
  obtain ⟨_, _, hx, -, head, hhead, hstrip⟩ := hopens.exists_strip
  cases hx
  obtain ⟨item, hitem, hcls⟩ := mem_cls_of_strip hstrip x[i] (List.getElem_mem hi)
  have hdrop : (x ++ r).drop i = x[i] :: (x.drop (i + 1) ++ r) := by
    rw [List.drop_append_of_le_length (Nat.le_of_lt hi), List.drop_eq_getElem_cons hi]
    rfl
  rcases h.opening with hkey | ⟨d, hd, hcapital⟩
  · have hmem : p₀ ∈ [apiKey, tokenSpec] ∨ Silent apiKey (c :: x) := by
      simp only [specified, List.mem_cons, List.not_mem_nil, or_false] at h₀
      rcases h₀ with rfl | rfl | rfl | rfl
      · exact Or.inl (by simp)
      · exact Or.inl (by simp)
      · exact Or.inr (apiKey_silent (bearer_mem data) (precedes_bearer data).ne_apiKey hopens)
      · exact Or.inr (apiKey_silent (dsn_mem data)
          (precedes_dsn (Or.inl rfl) : Precedes data apiKey dsn).ne_apiKey hopens)
    rcases hmem with hmem | hsilent
    · obtain ⟨y, hfind⟩ := Option.ne_none_iff_exists'.mp hkey
      have hs := (apiKey_find?.mp hfind).1
      rw [hdrop] at hs
      have hall := List.all_eq_true.mp key_tail_all p₀ hmem
      have hnot := List.all_eq_true.mp (List.all_eq_true.mp hall head hhead) item hitem
      rw [(List.cons.inj hs).1] at hcls
      simp [hcls] at hnot
    · exact hkey (hsilent r (i + 1) (Nat.succ_lt_succ hi) none)
  · rw [hdrop] at hd
    obtain rfl : x[i] = d := Option.some.inj hd
    have hall := List.all_eq_true.mp tail_all p₀ h₀
    have hnot := List.all_eq_true.mp (List.all_eq_true.mp hall head hhead) item hitem
    have hcapital := List.all_eq_true.mp hnot _ hcapital
    simp [hcls] at hcapital

/-! ### Words -/

theorem isSpace_firsts : firsts.all fun c => !isSpace c := by decide

theorem first_not_space (hc : c ∈ firsts) : isSpace c = false := by
  simpa using List.all_eq_true.mp isSpace_firsts c hc

/-- What the reading writes begins as the text does, or neither with a space. -/
theorem reads_head (h : Reads (Match data) redactionMarker prev w out q []) :
    w.head? = out.head? ∨
      (∃ c ∈ w.head?, isSpace c = false) ∧ ∃ c ∈ out.head?, isSpace c = false := by
  refine h.head?_eq.imp_right ?_
  rintro ⟨⟨rest, hmatch⟩, t, rfl⟩
  obtain ⟨c, hc, hfirst⟩ := hmatch.first
  exact ⟨⟨c, hc, first_not_space hfirst⟩, _, rfl, by decide⟩

theorem endsWord_reads (h : Reads (Match data) redactionMarker prev w out q []) :
    EndsWord w ↔ EndsWord out := by
  rcases reads_head h with heq | ⟨⟨c, hc, hspace⟩, d, hd, hspace'⟩
  · rw [EndsWord, EndsWord, heq]
  · refine iff_of_false (fun hend => ?_) (fun hend => ?_)
    · rw [hend c hc] at hspace
      cases hspace
    · rw [hend d hd] at hspace'
      cases hspace'

theorem runs_reads (hone : p₀.least = 1) (hbody : p₀.body = isNonSpace)
    (h : Reads (Match data) redactionMarker prev w out q []) : p₀.Runs w ↔ p₀.Runs out := by
  have hnot : ∀ {w : PyStr}, p₀.Runs w ↔ ∃ c ∈ w.head?, isSpace c = false := by
    intro w
    rw [Pattern.runs_one hone, hbody]
    simp only [isNonSpace, Bool.not_eq_true']
  rw [hnot, hnot]
  rcases reads_head h with heq | ⟨hw, hout⟩
  · rw [heq]
  · exact iff_of_true hw hout

theorem onlyMarker_iff : r.takeWhile isNonSpace = redactionMarker ↔ OnlyMarker r := by
  constructor
  · intro htake
    refine ⟨r.dropWhile isNonSpace, ?_, fun c hc => ?_⟩
    · rw [← htake, List.takeWhile_append_dropWhile]
    · have hnot := head_dropWhile isNonSpace r c hc
      simpa [isNonSpace] using hnot
  · intro honly
    obtain ⟨w, rfl, hend⟩ := honly
    have hmarker : redactionMarker.all isNonSpace := by decide
    refine takeWhile_append_of_head (List.all_eq_true.mp hmarker) fun c hc => ?_
    rw [isNonSpace, hend c hc]
    rfl

/-! ### Values -/

/-- The reading writes the marker for such a value, -/
theorem Replaced.reads (h : Replaced data prev r) :
    ∃ q w, Reads (Match data) redactionMarker prev r redactionMarker q w ∧ EndsWord w := by
  rcases h with ⟨w, rfl, hend⟩ | ⟨w, hmatch, hend⟩
  · refine ⟨_, w, reads_stays (fun i hi q rest hmatch => ?_) prev, hend⟩
    rw [List.drop_append_of_le_length (Nat.le_of_lt hi), List.drop_eq_getElem_cons hi] at hmatch
    exact (preserves (apiKey_mem data)).marks _ (List.getElem_mem hi) q _ rest hmatch
  · have hreads : Reads (Match data) redactionMarker prev r (redactionMarker ++ []) _ w :=
      .hit hmatch .done
    exact ⟨_, w, List.append_nil redactionMarker ▸ hreads, hend⟩

theorem marker_cons : redactionMarker = CodePoint.ofChar '[' :: redactionMarker.tail := rfl

theorem tail_marker : ∀ c ∈ redactionMarker.tail, redactionMarker.head? ≠ some c := by
  have hall : redactionMarker.tail.all fun c => c ≠ CodePoint.ofChar '[' := by decide
  intro c hc heq
  have hne := List.all_eq_true.mp hall c hc
  rw [marker_cons, List.head?_cons] at heq
  simp [Option.some.inj heq] at hne

/-- and for no other. -/
theorem replaced_of_reads (h : Reads (Match data) redactionMarker prev r out q [])
    (honly : OnlyMarker out) : Replaced data prev r := by
  obtain ⟨y, rfl, hend⟩ := honly
  generalize hout : redactionMarker ++ y = o at h
  cases h with
  | done => cases hout
  | keep hno hreads =>
      rw [marker_cons, List.cons_append] at hout
      obtain ⟨rfl, rfl⟩ := List.cons.inj hout
      obtain ⟨w, rfl, hlater⟩ := hreads.word_kept marker_ne_nil tail_marker
      exact Or.inl ⟨w, rfl, (endsWord_reads hlater).mpr hend⟩
  | hit hmatch hreads =>
      obtain rfl := List.append_cancel_left hout
      exact Or.inr ⟨_, hmatch, (endsWord_reads hreads).mpr hend⟩

/-! ### The condition -/

theorem spec_cases (h₀ : p₀ ∈ specified) :
    p₀ = apiKey ∨ p₀.least = 1 ∧ p₀.body = isNonSpace := by
  simp only [specified, List.mem_cons, List.not_mem_nil, or_false] at h₀
  rcases h₀ with rfl | rfl | rfl | rfl
  · exact Or.inl rfl
  all_goals exact Or.inr ⟨rfl, rfl⟩

/-- Over a missed prefix the reading goes on. -/
theorem reads_across {y pre : PyStr} (h₀ : p₀ ∈ specified) (hopens : p₀.Opens (pre ++ r) r)
    (hreads : Reads (Match data) redactionMarker none text y q (pre ++ r))
    (hno : ∀ rest, ¬ Match data q (pre ++ r) rest) :
    Reads (Match data) redactionMarker none text (y ++ pre) pre.getLast? r := by
  obtain ⟨c, x, rfl, -⟩ := hopens.exists_strip
  have htail : Reads (Match data) redactionMarker (some c) (x ++ r) x (x.getLast?.or (some c)) r :=
    reads_stays (prefix_quiet h₀ hopens) (some c)
  rw [getLast?_or_cons c x none, Option.or_none] at htail
  exact hreads.trans (.keep hno htail)

theorem opens_of_reads {pre : PyStr} (h₀ : p₀ ∈ specified) (hopens : p₀.Opens (pre ++ r) r)
    (h : Reads (Match data) redactionMarker prev r out q []) : p₀.Opens (pre ++ out) out := by
  refine opens_of_head (spec_spaces h₀) hopens fun c hc => ?_
  rcases reads_head h with heq | ⟨-, d, hd, hspace⟩
  · exact Or.inl (heq ▸ hc)
  · exact Or.inr (Option.mem_unique hd hc ▸ hspace)

/-- **Backwards.** A specified prefix that is there afterwards was there before, and the reading
has missed it. -/
theorem missed_of_reads {y pre : PyStr} (h₀ : p₀ ∈ specified) (hopens : p₀.Opens (pre ++ out) out)
    (h : Reads (Match data) redactionMarker none text (y ++ (pre ++ out)) q []) :
    ∃ u r q', text = u ++ (pre ++ r) ∧ p₀.Opens (pre ++ r) r ∧
      Reads (Match data) redactionMarker none text y q' (pre ++ r) ∧
      (∀ rest, ¬ Match data q' (pre ++ r) rest) ∧
      Reads (Match data) redactionMarker pre.getLast? r out q [] := by
  obtain ⟨c, x, rfl, hfirst, head, hhead, hstrip⟩ := hopens.exists_strip
  have hnot : ∀ d ∈ redactionMarker, p₀.first d = false ∧
      ∀ head ∈ p₀.heads, ∀ item ∈ head, item.cls d = false := by
    have hall := List.all_eq_true.mp prefix_all p₀ h₀
    simpa using hall
  have hc : c ∉ redactionMarker := by
    intro hmem
    rw [(hnot c hmem).1] at hfirst
    cases hfirst
  have hx : ∀ d ∈ x, redactionMarker.head? ≠ some d := by
    intro d hd heq
    obtain ⟨item, hitem, hcls⟩ := mem_cls_of_strip hstrip d hd
    rw [(hnot d (List.mem_of_mem_head? heq)).2 head hhead item hitem] at hcls
    cases hcls
  obtain ⟨u, w, q', rfl, hfront, hno, hbehind⟩ := h.cut (match_proper data) hc
  obtain ⟨r, rfl, hlater⟩ := hbehind.word_kept marker_ne_nil hx
  rw [getLast?_or_cons c x none, Option.or_none] at hlater
  refine ⟨u, r, q', rfl, ?_, hfront, hno, hlater⟩
  refine opens_of_head (spec_spaces h₀) hopens fun d hd => ?_
  rcases reads_head hlater with heq | ⟨⟨e, he, hspace⟩, -⟩
  · exact Or.inl (heq ▸ hd)
  · exact Or.inr (Option.mem_unique he hd ▸ hspace)

theorem covered_of_clean (h : Clean (redactText data text)) : Covered data text := by
  intro p₀ h₀ u pre r _ hopens hruns hmissed
  obtain ⟨y, q, hreads, hno⟩ := hmissed
  rcases spec_cases h₀ with rfl | ⟨hone, hbody⟩
  · -- a key is never missed
    exact absurd (.early (.key hopens hruns)) (hno _)
  · obtain ⟨out, q', hlater⟩ :
        ∃ out q', Reads (Match data) redactionMarker pre.getLast? r out q' [] :=
      exists_reads (match_proper data) _ r
    have htext := redact_text_reads data ((reads_across h₀ hopens hreads hno).trans hlater)
    rw [List.append_assoc] at htext
    have hword := h p₀ h₀ y pre out htext (opens_of_reads h₀ hopens hlater)
      ((runs_reads hone hbody hlater).mp hruns)
    rw [hbody] at hword
    exact replaced_of_reads hlater (onlyMarker_iff.mp hword)

theorem clean_of_covered (h : Covered data text) : Clean (redactText data text) := by
  intro p₀ h₀ y pre out htext hopens hruns
  rcases spec_cases h₀ with rfl | ⟨hone, hbody⟩
  · -- and none is left
    exact absurd ((redact_text_fixpoint data text).1 apiKey (apiKey_mem data) y _ htext)
      (hopens.find?_ne_none rfl hruns)
  · obtain ⟨all, q, hall⟩ : ∃ all q, Reads (Match data) redactionMarker none text all q [] :=
      exists_reads (match_proper data) none text
    rw [redact_text_reads data hall] at htext
    subst htext
    obtain ⟨u, r, q', htext, hopens', hfront, hno, hlater⟩ := missed_of_reads h₀ hopens hall
    have hvalue := h p₀ h₀ u pre r htext hopens' ((runs_reads hone hbody hlater).mpr hruns)
      ⟨y, q', hfront, hno⟩
    obtain ⟨q₁, w, hreads, hend⟩ := hvalue.reads
    obtain ⟨z, q₂, hrest⟩ : ∃ z q₂, Reads (Match data) redactionMarker q₁ w z q₂ [] :=
      exists_reads (match_proper data) q₁ w
    -- there is one reading, so this is what it has written
    have hsame := (redact_text_reads data hall).symm.trans (redact_text_reads data
      ((reads_across h₀ hopens' hfront hno).trans (hreads.trans hrest)))
    rw [List.append_assoc] at hsame
    obtain rfl := List.append_cancel_left (List.append_cancel_left hsame)
    rw [hbody]
    exact onlyMarker_iff.mpr ⟨z, rfl, (endsWord_reads hrest).mp hend⟩

/-- **What redaction removes.** A text comes out clean exactly when every specified prefix with a
value behind it is taken by a match, in part or as a whole, or its value is. -/
theorem redact_text_covers_iff (data : CharacterData) (text : PyStr) :
    Clean (redactText data text) ↔ Covered data text :=
  ⟨covered_of_clean, clean_of_covered⟩

/-- `token=`. -/
def tokenPrefix : PyStr := PyStr.ofChars ['t', 'o', 'k', 'e', 'n', '=']

/-- `token=abc`. -/
def tokenText : PyStr := tokenPrefix ++ PyStr.ofChars ['a', 'b', 'c']

theorem token_leaks : ¬ Clean (redactText asciiData tokenText) := by
  have hstays : redactText asciiData tokenText = tokenText := by decide
  rw [hstays]
  intro hclean
  have hword := hclean tokenSpec (by simp [specified]) [] tokenPrefix _ rfl
    ⟨_, _, rfl, rfl, _, List.mem_singleton_self _, rfl⟩ (by decide)
  exact absurd hword (by decide)

end Taskq.Redact
