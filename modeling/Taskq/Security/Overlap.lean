import Taskq.Security.Passes

/-!
# Taskq.Security.Overlap

Where matches of different patterns can overlap.

A pass keeps the prefixes of the patterns behind it (`Precedes.silent`), and a match that begins
before such a prefix cannot read its own prefix on into it (`halts`). A key, and a connection
string, goes no further than the run of URL characters it is in (`scan_url`); a key in a token,
or a Bearer token in a run, does (`Whole`).
-/

namespace Taskq.Redact

open Scrub Unicode

variable {data : CharacterData} {p p₀ : Pattern CodePoint}

/-! ### Classes -/

theorem isTokenChar_of_key {c : CodePoint} (h : isKeyChar c) : isTokenChar c := by
  simp only [isKeyChar, isTokenChar, isOneOf, Bool.or_eq_true, List.any_cons, List.any_nil] at h ⊢
  tauto

theorem val_of_token {c : CodePoint} (h : isTokenChar c) :
    45 ≤ c.val ∧ c.val ≤ 122 ∧ c.val ≠ 60 ∧ c.val ≠ 62 := by
  rcases Bool.or_eq_true_iff.mp h with h | h
  · simp only [isAsciiAlnum, Bool.or_eq_true, Bool.and_eq_true, decide_eq_true_eq] at h
    omega
  · obtain ⟨d, hd, rfl⟩ := exists_of_isOneOf h
    revert d
    decide

theorem isUrlChar_of_token {c : CodePoint} (h : isTokenChar c) : isUrlChar c := by
  have hval := val_of_token h
  have hspace : isSpace c = false := by
    simp only [isSpace, Bool.or_eq_false_iff, Bool.and_eq_false_iff, decide_eq_false_iff_not]
    omega
  have hquote : isQuote c = false := by
    refine Bool.eq_false_iff.mpr fun hone => ?_
    obtain ⟨d, hd, rfl⟩ := exists_of_isOneOf hone
    revert d
    decide
  rw [isUrlChar, hspace, hquote]
  rfl

/-! ### The order of the patterns -/

/-- The pass of `p₀` comes before the pass of `p`. -/
def Precedes (data : CharacterData) (p₀ p : Pattern CodePoint) : Prop :=
  ∃ before after, patterns data = before ++ p :: after ∧ p₀ ∈ before

theorem Precedes.cases (h : Precedes data p₀ p) :
    (p = bearer ∧ p₀ = apiKey) ∨ (p = dsn ∧ (p₀ = apiKey ∨ p₀ = bearer)) ∨
      (p = password data ∧ (p₀ = apiKey ∨ p₀ = bearer ∨ p₀ = dsn)) := by
  obtain ⟨before, after, heq, hmem⟩ := h
  rcases before with _ | ⟨a, _ | ⟨b, _ | ⟨c, _ | ⟨d, before⟩⟩⟩⟩
  · cases hmem
  · cases heq
    exact Or.inl ⟨rfl, by simpa using hmem⟩
  · cases heq
    exact Or.inr (Or.inl ⟨rfl, by simpa using hmem⟩)
  · cases heq
    exact Or.inr (Or.inr ⟨rfl, by simpa using hmem⟩)
  · have hlength := congrArg List.length heq
    simp [patterns] at hlength

theorem Precedes.early (h : Precedes data p₀ p) : p₀ = apiKey ∨ p₀ = bearer ∨ p₀ = dsn := by
  rcases h.cases with ⟨-, rfl⟩ | ⟨-, rfl | rfl⟩ | ⟨-, rfl | rfl | rfl⟩
  all_goals simp

theorem Precedes.ne_apiKey (h : Precedes data p₀ p) : p ≠ apiKey := by
  rintro rfl
  rcases h.cases with ⟨heq, -⟩ | ⟨heq, -⟩ | ⟨heq, -⟩
  all_goals exact Bool.false_ne_true (congrArg (fun p => p.first (CodePoint.ofChar 's')) heq).symm

/-! ### Prefixes -/

variable {pre r : PyStr}

/-- What a prefix other than that of a key begins with. -/
def capitals : PyStr := PyStr.ofChars ['B', 'p', 'P']

theorem heads_capitals (hp : p ∈ patterns data) : p.heads.all fun head => head.all fun item =>
    capitals.all fun c => !item.cls c := by
  rcases mem_patterns hp with rfl | rfl | rfl | rfl
  all_goals rfl

theorem first_capital (hp : p ∈ patterns data) (hkey : p ≠ apiKey) {c : CodePoint}
    (hc : p.first c) : c ∈ capitals := by
  have hone : isOneOf ['B', 'p', 'P'] c := by
    rcases mem_patterns hp with rfl | rfl | rfl | rfl
    · exact absurd rfl hkey
    all_goals
      simp [bearer, dsn, password, anyCase, isOneOf] at hc ⊢
      tauto
  obtain ⟨d, hd, rfl⟩ := exists_of_isOneOf hone
  exact List.mem_map_of_mem hd

theorem space_not_token {c : CodePoint} (h : isSpace c) : isTokenChar c = false := by
  refine Bool.eq_false_iff.mpr fun htoken => ?_
  have hurl := isUrlChar_of_token htoken
  rw [isUrlChar, h] at hurl
  cases hurl

/-- No run of key or token characters takes a whole prefix. -/
theorem exists_gap (hp : p ∈ patterns data) (hkey : p ≠ apiKey) (h : p.Opens (pre ++ r) r) :
    ∃ c ∈ pre, isTokenChar c = false := by
  obtain ⟨c, x, rfl, -, head, hhead, hstrip⟩ := h.exists_strip
  have hitem : ∃ item ∈ head, (∀ cls, item ≠ .many cls 0) ∧
      ∀ d, item.cls d → isTokenChar d = false := by
    rcases mem_patterns hp with rfl | rfl | rfl | rfl
    · exact absurd rfl hkey
    · rw [List.mem_singleton.mp hhead]
      exact ⟨.many isSpace 1, by simp, by simp, fun d hd => space_not_token hd⟩
    · refine ⟨.one (isOneOf [':']), ?_, by simp, fun d hd => by rw [eq_of_isOneOf hd]; decide⟩
      simp only [dsn, List.mem_cons, List.not_mem_nil, or_false] at hhead
      rcases hhead with rfl | rfl <;> simp [literal]
    · rw [List.mem_singleton.mp hhead]
      exact ⟨.one (isOneOf ['=']), by simp [literal], by simp,
        fun d hd => by rw [eq_of_isOneOf hd]; decide⟩
  obtain ⟨item, hmem, hleast, hcls⟩ := hitem
  obtain ⟨d, hd, hone⟩ := exists_cls_of_strip hstrip hmem hleast
  exact ⟨d, List.mem_cons_of_mem c hd, hcls d hone⟩

/-- Nothing in a prefix goes on with a match that begins before it. -/
theorem halts (hp : p ∈ patterns data) (hkey : p ≠ apiKey) (h₀ : p₀ ∈ patterns data)
    (h : p.Opens (pre ++ r) r) : p₀.Halts pre := by
  obtain ⟨d, hd, hgap⟩ := exists_gap hp hkey h
  obtain ⟨c, x, rfl, hfirst, -⟩ := h.exists_strip
  refine ⟨List.cons_ne_nil c x, fun e he head hhead item hitem => ?_, ?_⟩
  · obtain rfl : c = e := Option.some.inj he
    have hall := List.all_eq_true.mp (List.all_eq_true.mp (heads_capitals h₀) head hhead) item hitem
    simpa using List.all_eq_true.mp hall c (first_capital hp hkey hfirst)
  · rcases mem_patterns h₀ with rfl | rfl | rfl | rfl
    · refine Or.inr ⟨d, hd, Bool.eq_false_iff.mpr fun hbody => ?_⟩
      rw [isTokenChar_of_key hbody] at hgap
      cases hgap
    · exact Or.inr ⟨d, hd, hgap⟩
    · exact Or.inl le_rfl
    · exact Or.inl le_rfl

theorem heads_no_k (hp : p ∈ patterns data) (hkey : p ≠ apiKey) : p.heads.all fun head =>
    head.all fun item => !item.cls (CodePoint.ofChar 'k') := by
  rcases mem_patterns hp with rfl | rfl | rfl | rfl
  · exact absurd rfl hkey
  all_goals rfl

theorem heads_no_capital (hp : p = dsn ∨ p = password data) : p.heads.all fun head =>
    head.all fun item => !item.cls (CodePoint.ofChar 'B') := by
  rcases hp with rfl | rfl
  all_goals rfl

theorem not_mem_opening {c : CodePoint} (h : p.Opens (pre ++ r) r) (hfirst : p.first c = false)
    (hheads : p.heads.all fun head => head.all fun item => !item.cls c) : c ∉ pre := by
  obtain ⟨d, x, rfl, hd, head, hhead, hstrip⟩ := h.exists_strip
  intro hmem
  rcases List.mem_cons.mp hmem with rfl | hmem
  · rw [hd] at hfirst
    cases hfirst
  · obtain ⟨item, hitem, hcls⟩ := mem_cls_of_strip hstrip c hmem
    have hall := List.all_eq_true.mp (List.all_eq_true.mp hheads head hhead) item hitem
    simp [hcls] at hall

/-- In a prefix behind its first character there is none that another begins with. -/
theorem tail_not_capital (hp : p ∈ patterns data) (h : p.Opens (pre ++ r) r) :
    ∀ c ∈ pre.tail, c ∉ capitals := by
  obtain ⟨c, x, rfl, -, head, hhead, hstrip⟩ := h.exists_strip
  intro d hd hcapital
  obtain ⟨item, hitem, hcls⟩ := mem_cls_of_strip hstrip d hd
  have hall := List.all_eq_true.mp (heads_capitals hp) head hhead
  have hnot := List.all_eq_true.mp (List.all_eq_true.mp hall item hitem) d hcapital
  simp [hcls] at hnot

/-- The prefix of a Bearer token ends with a space. -/
theorem last_space (h : bearer.Opens (pre ++ r) r) : ∃ x c, pre = x ++ [c] ∧ isSpace c := by
  obtain ⟨d, x, rfl, -, head, hhead, hstrip⟩ := h.exists_strip
  rw [List.mem_singleton.mp hhead] at hstrip
  obtain ⟨y, run, rfl, hrun, hlong, -⟩ := strip_concat_many hstrip
  have hne : run ≠ [] := List.ne_nil_of_length_pos hlong
  refine ⟨d :: (y ++ run.dropLast), run.getLast hne, ?_, hrun _ (List.getLast_mem hne)⟩
  rw [List.cons_append, List.append_assoc, List.dropLast_append_getLast hne]

/-- The last character of a prefix is a space, `/` or `=`. -/
theorem last_of_prefix (hp : p ∈ patterns data) (hkey : p ≠ apiKey) (h : p.Opens (pre ++ r) r) :
    ∀ c ∈ pre.getLast?, c ≠ CodePoint.ofChar 's' := by
  have hspace : ∀ {x : PyStr} {d : CodePoint}, isSpace d →
      ∀ c ∈ (x ++ [d]).getLast?, c ≠ CodePoint.ofChar 's' := by
    rintro x d hd c hc rfl
    rw [List.getLast?_concat] at hc
    rw [Option.some.inj hc] at hd
    exact absurd hd (by decide)
  rcases mem_patterns hp with rfl | rfl | rfl | rfl
  · exact absurd rfl hkey
  · obtain ⟨x, d, rfl, hd⟩ := last_space h
    exact hspace hd
  · intro c hc
    rcases dsn_opens h with heq | heq
    all_goals
      rw [List.append_cancel_right heq] at hc
      obtain rfl : CodePoint.ofChar '/' = c := Option.some.inj hc
      decide
  · obtain ⟨d, x, rfl, -, head, hhead, hstrip⟩ := h.exists_strip
    rw [List.mem_singleton.mp hhead] at hstrip
    obtain ⟨y, run, rfl, hrun, -, hbefore⟩ := strip_concat_many hstrip
    rcases List.eq_nil_or_concat' run with rfl | ⟨run, e, rfl⟩
    · obtain ⟨z, e, rfl, he⟩ := strip_concat_one hbefore
      intro c hc
      rw [List.append_nil, ← List.cons_append, List.getLast?_concat, eq_of_isOneOf he] at hc
      obtain rfl : CodePoint.ofChar '=' = c := Option.some.inj hc
      decide
    · rw [← List.append_assoc, ← List.cons_append]
      exact hspace (hrun e (by simp))

theorem silent_of_not_mem {c : CodePoint} {word : PyStr} (hfirst : ∀ d, p.first d → d = c)
    (hmem : c ∉ word) : Silent p word := by
  intro w i hi prev
  rw [List.drop_append_of_le_length (Nat.le_of_lt hi), List.drop_eq_getElem_cons hi]
  refine Pattern.find?_of_not_first (Bool.eq_false_iff.mpr fun hone => hmem ?_)
  rw [← hfirst _ hone]
  exact List.getElem_mem hi

theorem apiKey_silent (hp : p ∈ patterns data) (hkey : p ≠ apiKey) (h : p.Opens (pre ++ r) r) :
    Silent apiKey pre := by
  have hk : CodePoint.ofChar 'k' ∉ pre := by
    refine not_mem_opening h ?_ (heads_no_k hp hkey)
    rcases mem_patterns hp with rfl | rfl | rfl | rfl
    all_goals rfl
  intro w i hi prev
  rw [List.drop_append_of_le_length (Nat.le_of_lt hi)]
  have hsuffix : pre.drop i <:+ pre := List.drop_suffix i pre
  by_contra hne
  obtain ⟨r', hfind⟩ := Option.ne_none_iff_exists'.mp hne
  have heq := (apiKey_find?.mp hfind).1
  rcases hdrop : pre.drop i with _ | ⟨c, _ | ⟨d, y⟩⟩
  · rw [List.drop_eq_nil_iff] at hdrop
    omega
  all_goals
    rw [hdrop] at heq hsuffix
    obtain ⟨hc, hd⟩ := List.cons.inj heq
  · refine last_of_prefix hp hkey h c ?_ hc
    obtain ⟨x, rfl⟩ := hsuffix
    exact List.getLast?_concat
  · refine hk (hsuffix.subset ?_)
    rw [(List.cons.inj hd).1]
    exact List.mem_cons_of_mem c List.mem_cons_self

theorem dsn_silent (h : (password data).Opens (pre ++ r) r) : Silent dsn pre := by
  obtain ⟨c, x, rfl, -, head, hhead, hstrip⟩ := h.exists_strip
  rw [List.mem_singleton.mp hhead] at hstrip
  have hp : CodePoint.ofChar 'p' ∉ x := by
    intro hmem
    obtain ⟨item, hitem, hcls⟩ := mem_cls_of_strip hstrip _ hmem
    revert item
    decide
  obtain ⟨d, y, rfl, hd, -⟩ := strip_one hstrip
  intro w i hi prev
  cases i with
  | succ i =>
      exact silent_of_not_mem (fun e he => eq_of_isOneOf he) hp w i (Nat.lt_of_succ_lt_succ hi) prev
  | zero =>
      refine Pattern.find?_eq_none fun r' hopens => ?_
      have heq : d = CodePoint.ofChar 'o' := by
        rcases dsn_opens hopens with heq | heq
        all_goals exact (List.cons.inj (List.cons.inj heq).2).1
      rw [heq] at hd
      cases hd

/-- A pass keeps the prefixes of the patterns behind it. -/
theorem Precedes.silent (horder : Precedes data p₀ p) (h : p.Opens (pre ++ r) r) :
    Silent p₀ pre := by
  have hp : p ∈ patterns data := by
    obtain ⟨before, after, heq, -⟩ := horder
    simp [heq]
  have hbearer : p = dsn ∨ p = password data → Silent bearer pre := by
    intro hor
    refine silent_of_not_mem (fun e he => eq_of_isOneOf he) (not_mem_opening h ?_
      (heads_no_capital hor))
    rcases hor with rfl | rfl
    all_goals rfl
  have hkey := apiKey_silent hp horder.ne_apiKey h
  rcases horder.cases with ⟨-, rfl⟩ | ⟨rfl, rfl | rfl⟩ | ⟨rfl, rfl | rfl | rfl⟩
  · exact hkey
  · exact hkey
  · exact hbearer (Or.inl rfl)
  · exact hkey
  · exact hbearer (Or.inr rfl)
  · exact dsn_silent h

/-! ### Bodies -/

variable {prev : Option CodePoint} {body body' rest : PyStr}

/-- No match of `p` begins in the word, in front of `w`. -/
def Avoids (p : Pattern CodePoint) (word w : PyStr) : Prop :=
  ∀ x y, word = x ++ y → y ≠ [] → p.find? none (y ++ w) = none

theorem avoids_of_not_first {word : PyStr} (h : word.all fun c => !p.first c) (w : PyStr) :
    Avoids p word w := by
  intro x y hword hne
  obtain ⟨c, z, rfl⟩ := List.exists_cons_of_ne_nil hne
  refine Pattern.find?_of_not_first ?_
  simpa using List.all_eq_true.mp h c (by simp [hword])

theorem Avoids.suffix {x y : PyStr} (h : Avoids p (x ++ y) rest) : Avoids p y rest :=
  fun x' y' hy hne => h (x ++ x') y' (by rw [hy, List.append_assoc]) hne

theorem Avoids.silent (h₀ : p₀ = apiKey ∨ p₀ = bearer) (h : Avoids p₀ body rest) :
    ∀ i < body.length, ∀ prev, p₀.find? prev ((body ++ rest).drop i) = none := by
  intro i hi prev
  have hstart : p₀.start prev = p₀.start none := by
    rcases h₀ with rfl | rfl
    all_goals rfl
  have hne : body.drop i ≠ [] := by
    rw [Ne, List.drop_eq_nil_iff]
    omega
  rw [List.drop_append_of_le_length (Nat.le_of_lt hi), Pattern.find?_prev hstart]
  exact h (body.take i) (body.drop i) (List.take_append_drop i body).symm hne

theorem Avoids.stays (h₀ : p₀ = apiKey ∨ p₀ = bearer) (h : Avoids p₀ body rest)
    (prev : Option CodePoint) :
    Scan p₀ redactionMarker prev (body ++ rest) body (body.getLast?.or prev) rest :=
  scan_stays (h.silent h₀) prev

/-- The prefix of `p`, a body as long as the run behind it, and the rest of the text. -/
structure Secret (data : CharacterData) (p : Pattern CodePoint) (pre body rest : PyStr) :
    Prop where
  known : p ∈ patterns data
  opens : p.Opens (pre ++ (body ++ rest)) (body ++ rest)
  run : ∀ c ∈ body, p.body c
  long : p.least ≤ body.length
  stop : ∀ c ∈ rest.head?, p.body c = false

/-- No pass before its own takes a part of the body only, or something behind it, too: no key
begins in a token, and no token in a connection string or in the value of a password. -/
def Whole (p : Pattern CodePoint) (body rest : PyStr) : Prop :=
  (p = bearer → Avoids apiKey body rest) ∧ (p ≠ apiKey → p ≠ bearer → Avoids bearer body rest)

theorem least_pos (hp : p ∈ patterns data) : 0 < p.least := by
  rcases mem_patterns hp with rfl | rfl | rfl | rfl
  all_goals exact Nat.succ_pos _

theorem opens_unique (hp : p ∈ patterns data) {s r' : PyStr} (h : p.Opens s r)
    (h' : p.Opens s r') : r = r' := by
  rcases mem_patterns hp with rfl | rfl | rfl | rfl
  · exact h.unique rfl h'
  · exact h.unique rfl h'
  · exact dsn_opens_unique h h'
  · exact h.unique rfl h'

/-- The runs in a prefix are of spaces. -/
theorem runs_spaces (hp : p ∈ patterns data) : ∀ head ∈ p.heads, ∀ cls least,
    .many cls least ∈ head → cls = isSpace := by
  rcases mem_patterns hp with rfl | rfl | rfl | rfl
  all_goals simp [apiKey, bearer, dsn, password, literal]

theorem body_not_space (hp : p ∈ patterns data) {c : CodePoint} (hc : p.body c) :
    isSpace c = false := by
  have hurl : isUrlChar c := by
    rcases mem_patterns hp with rfl | rfl | rfl | rfl
    · exact isUrlChar_of_token (isTokenChar_of_key hc)
    · exact isUrlChar_of_token hc
    · exact hc
    · exact hc
  simpa using (Bool.and_eq_true_iff.mp hurl).1

namespace Secret

theorem body_ne_nil (h : Secret data p pre body rest) : body ≠ [] := by
  rintro rfl
  exact absurd h.long (Nat.not_le_of_lt (least_pos h.known))

theorem rest_head (h : Secret data p pre body rest) : ∀ c ∈ rest.head?, c ∉ firsts := by
  intro c hc hmem
  have hbody := List.all_eq_true.mp (body_firsts h.known) c hmem
  rw [h.stop c hc] at hbody
  cases hbody

theorem runs (h : Secret data p pre body rest) : p.Runs (body ++ rest) :=
  Pattern.runs_append h.run h.long rest

/-- The prefix does not care which body it has. -/
theorem of_body (h : Secret data p pre body rest) {rest' : PyStr} (hrun : ∀ c ∈ body', p.body c)
    (hlong : p.least ≤ body'.length) (hstop : ∀ c ∈ rest'.head?, p.body c = false) :
    Secret data p pre body' rest' := by
  refine ⟨h.known, ?_, hrun, hlong, hstop⟩
  obtain ⟨c, x, rfl, hfirst, head, hhead, hstrip⟩ := h.opens.exists_strip
  refine ⟨c, _, rfl, hfirst, head, hhead, strip_append hstrip fun d hd => Or.inr ?_⟩
  have hne : body' ≠ [] := List.ne_nil_of_length_pos (lt_of_lt_of_le (least_pos h.known) hlong)
  rw [List.head?_append_of_ne_nil _ hne] at hd
  intro cls least hmem
  rw [runs_spaces h.known head hhead cls least hmem]
  exact body_not_space h.known (hrun d (List.mem_of_mem_head? hd))

/-- It is a match where one may begin. -/
theorem hits (h : Secret data p pre body rest) (hstart : p.start prev) :
    p.Hits prev (pre ++ body) rest := by
  obtain ⟨r, hfind⟩ := Option.ne_none_iff_exists'.mp (h.opens.find?_ne_none hstart h.runs)
  obtain rfl := opens_unique h.known (Pattern.opens_of_find? hfind) h.opens
  exact ⟨body ++ rest, by rwa [List.append_assoc], dropWhile_append_of_head h.run h.stop⟩

end Secret

theorem marker_url : redactionMarker.all isUrlChar := by decide

theorem keyPrefix_url : keyPrefix.all isUrlChar := by decide

theorem dsnPrefix_url : ([['p', 'o', 's', 't', 'g', 'r', 'e', 's', 'q', 'l', ':', '/', '/'],
    ['p', 'o', 's', 't', 'g', 'r', 'e', 's', ':', '/', '/']].all fun cs =>
      (PyStr.ofChars cs).all isUrlChar) := by decide

/-- A key and a connection string have no spaces. -/
theorem url_of_hits {prev : Option CodePoint} {hit w : PyStr} (hp : p = apiKey ∨ p = dsn)
    (h : p.Hits prev hit w) : ∀ c ∈ hit, isUrlChar c := by
  obtain ⟨r, hfind, rfl⟩ := h
  have hopens := Pattern.opens_of_find? hfind
  have hsplit : ∀ pre : PyStr, hit ++ r.dropWhile p.body = pre ++ r →
      (∀ c ∈ pre, isUrlChar c) → (∀ c, p.body c → isUrlChar c) → ∀ c ∈ hit, isUrlChar c := by
    intro pre heq hpre hbody c hc
    have hhit : hit = pre ++ r.takeWhile p.body := by
      refine List.append_cancel_right (?_ : _ ++ r.dropWhile p.body = _)
      rw [heq, List.append_assoc, List.takeWhile_append_dropWhile]
    rw [hhit] at hc
    rcases List.mem_append.mp hc with hc | hc
    · exact hpre c hc
    · exact hbody c (List.mem_takeWhile_imp hc)
  rcases hp with rfl | rfl
  · exact hsplit keyPrefix (apiKey_find?.mp hfind).1 (List.all_eq_true.mp keyPrefix_url)
      fun c hc => isUrlChar_of_token (isTokenChar_of_key hc)
  · have hall := List.all_eq_true.mp dsnPrefix_url
    rcases dsn_opens hopens with heq | heq
    · exact hsplit _ heq (List.all_eq_true.mp (hall _ (by simp))) fun _ hc => hc
    · exact hsplit _ heq (List.all_eq_true.mp (hall _ (by simp))) fun _ hc => hc

/-- A key or a connection string in such a body ends with it, if not before. -/
theorem hit_in_body (hp : p = apiKey ∨ p = dsn) (hrest : ∀ c ∈ rest.head?, isUrlChar c = false)
    (hfind : p.find? prev (body ++ rest) = some r) :
    ∃ hit a, body = hit ++ a ∧ hit ≠ [] ∧ r.dropWhile p.body = a ++ rest ∧
      p.Hits prev hit (a ++ rest) := by
  obtain ⟨d, hit, hw, -, hhit⟩ := Pattern.find?_hits hfind
  obtain ⟨a, ha, ha'⟩ : ∃ a, body = d :: hit ++ a ∧ r.dropWhile p.body = a ++ rest := by
    rcases List.append_eq_append_iff.mp hw with ⟨a, ha, ha'⟩ | ⟨a, ha, ha'⟩
    · cases a with
      | nil => exact ⟨[], by simpa using ha.symm, ha'.symm⟩
      | cons e a =>
          have hurl := url_of_hits hp hhit e (by rw [ha]; simp)
          rw [hrest e (by rw [ha']; rfl)] at hurl
          cases hurl
    · exact ⟨a, ha, ha'⟩
  exact ⟨d :: hit, a, ha, List.cons_ne_nil d hit, ha', ha' ▸ hhit⟩

/-- Such a pass comes to the end of the body. -/
theorem scan_url (hp : p = apiKey ∨ p = dsn) (hbody : ∀ c ∈ body, isUrlChar c)
    (hrest : ∀ c ∈ rest.head?, isUrlChar c = false) (prev : Option CodePoint) :
    ∃ out q, Scan p redactionMarker prev (body ++ rest) out q rest ∧
      ∀ c ∈ out, isUrlChar c := by
  induction hn : body.length using Nat.strong_induction_on generalizing body prev with
  | _ n ih =>
      cases body with
      | nil => exact ⟨[], prev, .done, by simp⟩
      | cons c x =>
          cases hfind : p.find? prev (c :: x ++ rest) with
          | none =>
              obtain ⟨out, q, hscan, hout⟩ := ih x.length (by rw [← hn]; simp)
                (fun d hd => hbody d (List.mem_cons_of_mem c hd)) (some c) rfl
              refine ⟨c :: out, q, .keep hfind hscan, ?_⟩
              exact List.forall_mem_cons.mpr ⟨hbody c List.mem_cons_self, hout⟩
          | some r =>
              obtain ⟨hit, a, ha, hne, -, hhit⟩ := hit_in_body hp hrest hfind
              have hlt : a.length < n := by
                have hpos := List.length_pos_iff.mpr hne
                rw [← hn, ha, List.length_append]
                omega
              obtain ⟨out, q, hscan, hout⟩ := ih a.length hlt
                (fun e he => hbody e (ha ▸ List.mem_append_right _ he)) hit.getLast? rfl
              refine ⟨redactionMarker ++ out, q, ?_, ?_⟩
              · rw [ha, List.append_assoc]
                exact .hit hhit hscan
              · exact List.forall_mem_append.mpr ⟨List.all_eq_true.mp marker_url, hout⟩

/-- The prefix of a key. -/
theorem Secret.pre_of_key (h : Secret data apiKey pre body rest) : pre = keyPrefix := by
  have hsome : apiKey.find? none (pre ++ (body ++ rest)) ≠ none :=
    h.opens.find?_ne_none rfl h.runs
  obtain ⟨r, hfind⟩ := Option.ne_none_iff_exists'.mp hsome
  obtain rfl := opens_unique h.known (Pattern.opens_of_find? hfind) h.opens
  exact List.append_cancel_right (apiKey_find?.mp hfind).1

/-- What a key is that begins in front of a key: it is none, or it goes on into that key, or it ends
before it. -/
theorem key_ahead {v : PyStr} (hv : v ≠ []) :
    (∀ w prev, apiKey.find? prev (v ++ (keyPrefix ++ w)) = none) ∨
      (∃ run, v = keyPrefix ++ run ∧ ∀ c ∈ run, isKeyChar c) ∨
      ∃ run z, v = keyPrefix ++ run ++ z ∧ z ≠ [] ∧ ∀ w prev,
        apiKey.Hits prev (keyPrefix ++ run) (z ++ w) := by
  have hnone : (∀ w r, v ++ (keyPrefix ++ w) = keyPrefix ++ r → ¬ apiKey.Runs r) →
      ∀ w prev, apiKey.find? prev (v ++ (keyPrefix ++ w)) = none := by
    intro hno w prev
    by_contra hne
    obtain ⟨r, hfind⟩ := Option.ne_none_iff_exists'.mp hne
    obtain ⟨heq, hruns⟩ := apiKey_find?.mp hfind
    exact hno w r heq hruns
  by_cases hpre : keyPrefix <+: v
  · obtain ⟨y, rfl⟩ := hpre
    obtain ⟨run, z, rfl, hrun, hstop⟩ := exists_run isKeyChar y
    by_cases hz : z = []
    · exact Or.inr (Or.inl ⟨run, by rw [hz, List.append_nil], hrun⟩)
    have hstop' : ∀ w, ∀ c ∈ (z ++ w).head?, isKeyChar c = false := by
      intro w
      rwa [List.head?_append_of_ne_nil _ hz]
    by_cases hlong : 8 ≤ run.length
    · exact Or.inr (Or.inr ⟨run, z, (List.append_assoc _ _ _).symm, hz,
        fun w _ => hits_key hrun hlong (hstop' w)⟩)
    · refine Or.inl (hnone fun w r heq hruns => hlong ?_)
      rw [List.append_assoc, List.append_assoc] at heq
      rw [← List.append_cancel_left heq] at hruns
      change 8 ≤ ((run ++ (z ++ (keyPrefix ++ w))).takeWhile isKeyChar).length at hruns
      rwa [takeWhile_append_of_head hrun (hstop' _)] at hruns
  · exact Or.inl (hnone fun w r heq _ => hpre (not_straddling heq hv))

/-- A match that ends with the key, and what is behind it. -/
theorem Secret.scrub_hit_key {hit : PyStr} (h : Secret data apiKey keyPrefix body rest)
    (hhit : apiKey.Hits prev (hit ++ body) rest) :
    scrub apiKey redactionMarker prev 0 (hit ++ (body ++ rest)) =
      redactionMarker ++ scrub apiKey redactionMarker none 0 rest := by
  rw [← List.append_assoc, scrub_hit hhit,
    scrub_prev fun c hc => not_first (apiKey_mem data) (h.rest_head c hc)]

/-- **A key goes in the first pass**, whatever is before it. -/
theorem scrub_key (data : CharacterData) (front : PyStr) (prev : Option CodePoint) :
    ∃ out, ∀ body rest, Secret data apiKey keyPrefix body rest →
      scrub apiKey redactionMarker prev 0 (front ++ (keyPrefix ++ (body ++ rest))) =
        out ++ scrub apiKey redactionMarker none 0 rest := by
  induction hn : front.length using Nat.strong_induction_on generalizing front prev with
  | _ n ih =>
      by_cases hne : front = []
      · subst hne
        exact ⟨redactionMarker, fun body rest h => h.scrub_hit_key (h.hits rfl)⟩
      rcases key_ahead hne with hnone | ⟨run, rfl, hrun⟩ | ⟨run, z, rfl, hz, hhit⟩
      · obtain ⟨c, x, rfl⟩ := List.exists_cons_of_ne_nil hne
        obtain ⟨out, hout⟩ := ih x.length (by simp [← hn]) x (some c) rfl
        refine ⟨c :: out, fun body rest h => ?_⟩
        have hkeep : apiKey.find? prev (c :: (x ++ (keyPrefix ++ (body ++ rest)))) = none :=
          hnone (body ++ rest) prev
        rw [List.cons_append, scrub_keep hkeep, hout body rest h, List.cons_append]
      · -- the run of the one before goes on over this key
        refine ⟨redactionMarker, fun body rest h => ?_⟩
        have hall : ∀ c ∈ run ++ (keyPrefix ++ body), isKeyChar c :=
          List.forall_mem_append.mpr ⟨hrun, List.forall_mem_append.mpr
            ⟨List.all_eq_true.mp key_all, h.run⟩⟩
        have hlong : 8 ≤ (run ++ (keyPrefix ++ body)).length := by
          have hbody : 8 ≤ body.length := h.long
          simp only [List.length_append]
          omega
        rw [← List.append_assoc]
        refine h.scrub_hit_key ?_
        simpa only [List.append_assoc] using hits_key hall hlong h.stop
      · have hlt : z.length < n := by
          have hpos : 0 < (keyPrefix ++ run).length :=
            List.length_pos_iff.mpr (List.cons_ne_nil _ _)
          rw [← hn, List.length_append]
          omega
        obtain ⟨out, hout⟩ := ih z.length hlt z (keyPrefix ++ run).getLast? rfl
        refine ⟨redactionMarker ++ out, fun body rest h => ?_⟩
        rw [List.append_assoc (keyPrefix ++ run), scrub_hit (hhit _ prev), hout body rest h,
          List.append_assoc]

end Taskq.Redact
