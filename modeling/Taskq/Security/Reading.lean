import Taskq.Lib.Reading
import Taskq.Security.Overlap

/-!
# Taskq.Security.Reading

The four passes of `redact_text` are one reading of the text, from left to right.

What a pass finds depends on what the passes before it have left, and the marker they leave is
itself part of a connection string. Read in one go, a key is a match wherever it is, a
Bearer token ends where a key begins, and in a connection string or in the value of a password a
key and a whole Bearer token count as one URL character. A later pattern cannot take a part of
an earlier match, since its run goes on over the whole of it, nor an earlier one a part of a
prefix behind it in the order (`Precedes.silent`).
-/

namespace Taskq.Redact

open Scrub Unicode

/-! ### Matches -/

/-- `v` is a token: no key begins in it, and it ends where a key or another character follows. -/
structure Token (v rest : PyStr) : Prop where
  run : ∀ c ∈ v, isTokenChar c
  long : bearer.least ≤ v.length
  keys : Avoids apiKey v rest
  stop : ∀ c ∈ rest.head?, isTokenChar c = false ∨ apiKey.find? none rest ≠ none

/-- A key or a Bearer token at the beginning of the text, and what is behind it. -/
inductive Early : PyStr → PyStr → Prop
  | key {s r} (hopens : apiKey.Opens s r) (hruns : apiKey.Runs r) : Early s (r.dropWhile isKeyChar)
  | token {s v rest} (hopens : bearer.Opens s (v ++ rest)) (htoken : Token v rest) : Early s rest

/-- A run of URL characters, keys and Bearer tokens, and what is behind it. -/
inductive UrlRun : PyStr → PyStr → Prop
  | stop {w} (hstop : ∀ c ∈ w.head?, isUrlChar c = false) : UrlRun w w
  | early {w w' rest} (h : Early w w') (hrun : UrlRun w' rest) : UrlRun w rest
  | char {c w rest} (hc : isUrlChar c) (hno : ∀ w', ¬ Early (c :: w) w') (hrun : UrlRun w rest) :
      UrlRun (c :: w) rest

/-- A match of one of the four patterns at the beginning of the text, behind this character, and
what is behind the match. -/
inductive Match (data : CharacterData) (prev : Option CodePoint) : PyStr → PyStr → Prop
  | early {s rest} (h : Early s rest) : Match data prev s rest
  | url {p s r rest} (hp : p = dsn ∨ p = password data) (hstart : p.start prev)
      (hopens : p.Opens s r) (hruns : p.Runs r) (hrun : UrlRun r rest) : Match data prev s rest

variable {data : CharacterData} {p p₀ : Pattern CodePoint} {prev q : Option CodePoint}
  {w r v s out rest : PyStr}

theorem Early.proper (h : Early s rest) : ∃ hit, hit ≠ [] ∧ s = hit ++ rest := by
  cases h with
  | @key r hopens _ =>
      obtain ⟨pre, hne, rfl⟩ := hopens.exists_append
      refine ⟨pre ++ r.takeWhile isKeyChar, by simp [hne], ?_⟩
      rw [List.append_assoc, List.takeWhile_append_dropWhile]
  | @token v _ hopens _ =>
      obtain ⟨pre, hne, rfl⟩ := hopens.exists_append
      exact ⟨pre ++ v, by simp [hne], (List.append_assoc _ _ _).symm⟩

theorem UrlRun.exists_append (h : UrlRun r rest) : ∃ u, r = u ++ rest := by
  induction h with
  | stop _ => exact ⟨[], rfl⟩
  | early h _ ih =>
      obtain ⟨u, rfl⟩ := ih
      obtain ⟨hit, -, rfl⟩ := h.proper
      exact ⟨hit ++ u, (List.append_assoc _ _ _).symm⟩
  | @char c _ _ _ _ _ ih =>
      obtain ⟨u, rfl⟩ := ih
      exact ⟨c :: u, rfl⟩

theorem match_proper (data : CharacterData) : Proper (Match data) := by
  intro prev w rest h
  cases h with
  | early h => exact h.proper
  | url hp hstart hopens hruns hrun =>
      obtain ⟨pre, hne, rfl⟩ := hopens.exists_append
      obtain ⟨u, rfl⟩ := hrun.exists_append
      exact ⟨pre ++ u, by simp [hne], (List.append_assoc _ _ _).symm⟩

theorem Early.first (h : Early s rest) : ∃ c ∈ s.head?, c ∈ firsts := by
  have hfirst : ∀ {p : Pattern CodePoint} {r : PyStr}, p ∈ patterns asciiData → p.Opens s r →
      ∃ c ∈ s.head?, c ∈ firsts := by
    intro p r hp hopens
    obtain ⟨c, x, rfl, hc, -⟩ := hopens
    exact ⟨c, rfl, first_mem hp hc⟩
  cases h with
  | key hopens _ => exact hfirst (apiKey_mem _) hopens
  | token hopens _ => exact hfirst (bearer_mem _) hopens

/-! ### Texts without a match -/

/-- No match of `p` begins anywhere in the text. -/
def Bare (p : Pattern CodePoint) (w : PyStr) : Prop :=
  ∀ x y, w = x ++ y → ∀ prev, p.find? prev y = none

/-- No match of a pattern before `p` does. -/
def Before (data : CharacterData) (p : Pattern CodePoint) (w : PyStr) : Prop :=
  ∀ p₀, Precedes data p₀ p → Bare p₀ w

theorem Bare.suffix {x y : PyStr} (h : Bare p (x ++ y)) : Bare p y :=
  fun x' y' hy => h (x ++ x') y' (by rw [hy, List.append_assoc])

theorem Bare.avoids (h : Bare p (v ++ w)) : Avoids p v w := by
  intro x y hv _
  exact h x (y ++ w) (by rw [hv, List.append_assoc]) none

theorem precedes_bearer (data : CharacterData) : Precedes data apiKey bearer :=
  ⟨[apiKey], [dsn, password data], rfl, List.mem_singleton_self _⟩

theorem precedes_dsn (h : p = apiKey ∨ p = bearer) : Precedes data p dsn :=
  ⟨[apiKey, bearer], [password data], rfl, by simpa using h⟩

theorem precedes_password (h : p = apiKey ∨ p = bearer ∨ p = dsn) :
    Precedes data p (password data) :=
  ⟨[apiKey, bearer, dsn], [], rfl, by simpa using h⟩

/-- What begins a match afterwards began one before. -/
theorem opens_back (h₀ : p₀ ∈ patterns data) (hp : p ∈ patterns data)
    (hscan : Scan p redactionMarker prev s out q []) (hopens : p₀.Opens out r)
    (hruns : p₀.Runs r) :
    ∃ w q', p₀.Opens s w ∧ p₀.Runs w ∧ Scan p redactionMarker q' w r q [] := by
  rw [← List.append_nil s, ← List.nil_append out] at hscan
  obtain ⟨u, pre, w, -, -, hopens', hfront, -, -, hbehind, -⟩ :=
    hscan.opens (spares h₀ hp).toApart marker_ne_nil hopens
  have hs := hfront.eq_of_nil marker_ne_nil
  simp only [List.append_nil] at hs hbehind
  exact ⟨w, _, hs ▸ hopens', runs_of_scan h₀ hp hbehind hruns, hbehind⟩

/-- A pass leaves no match of its own pattern, and makes none of another. -/
theorem Bare.scan (h₀ : p₀ ∈ patterns data) (hstart : ∀ q, p₀.start q) (hp : p ∈ patterns data)
    (hscan : Scan p redactionMarker prev w out q []) (h : p₀ = p ∨ Bare p₀ w) : Bare p₀ out := by
  intro x y hout prev'
  by_contra hne
  obtain ⟨r, hfind⟩ := Option.ne_none_iff_exists'.mp hne
  obtain ⟨-, -, -, -, -, hruns, -⟩ := Pattern.find?_some hfind
  rw [hout, ← List.append_nil w] at hscan
  obtain ⟨u, pre, w', rfl, -, hopens, -, hnone, -, hbehind, -⟩ :=
    hscan.opens (spares h₀ hp).toApart marker_ne_nil (Pattern.opens_of_find? hfind)
  rw [List.append_nil] at hnone hbehind
  have hfound := fun q => hopens.find?_ne_none (hstart q) (runs_of_scan h₀ hp hbehind hruns)
  rcases h with rfl | h
  · exact hfound _ hnone
  · exact hfound none (h u _ rfl none)

/-! ### Tokens -/

theorem Token.runs (h : Token v rest) : bearer.Runs (v ++ rest) :=
  Pattern.runs_append h.run h.long rest

/-- Every text begins with something like a token, if only a short one. -/
theorem exists_token (r : PyStr) :
    ∃ v rest, r = v ++ rest ∧ (∀ c ∈ v, isTokenChar c) ∧ Avoids apiKey v rest ∧
      ∀ c ∈ rest.head?, isTokenChar c = false ∨ apiKey.find? none rest ≠ none := by
  induction r with
  | nil => exact ⟨[], [], rfl, by simp, by simp [Avoids], by simp⟩
  | cons c w ih =>
      by_cases hc : isTokenChar c ∧ apiKey.find? none (c :: w) = none
      · obtain ⟨v, rest, rfl, htoken, havoids, hstop⟩ := ih
        refine ⟨c :: v, rest, rfl, List.forall_mem_cons.mpr ⟨hc.1, htoken⟩, fun x y hxy hne => ?_,
          hstop⟩
        cases x with
        | nil =>
            rw [List.nil_append] at hxy
            rw [← hxy]
            exact hc.2
        | cons d x => exact havoids x y (List.cons.inj hxy).2 hne
      · refine ⟨[], c :: w, rfl, by simp, by simp [Avoids], fun d hd => ?_⟩
        obtain rfl : c = d := Option.some.inj hd
        exact (not_and_or.mp hc).imp_left Bool.eq_false_iff.mpr

/-- Where there is no key, a token goes on to the first character of another kind. -/
theorem Token.of_bare (hkeys : Bare apiKey r) (hruns : bearer.Runs r) :
    Token (r.takeWhile isTokenChar) (r.dropWhile isTokenChar) where
  run _ hc := List.mem_takeWhile_imp hc
  long := hruns
  keys := Bare.avoids (by rwa [List.takeWhile_append_dropWhile])
  stop c hc := Or.inl (head_dropWhile isTokenChar r c hc)

theorem Token.stop_of_bare (h : Token v rest) (hkeys : Bare apiKey rest) :
    ∀ c ∈ rest.head?, isTokenChar c = false := fun c hc =>
  (h.stop c hc).resolve_right fun hkey => hkey (hkeys [] rest rfl none)

/-- What the first pass makes of it, and of what is behind it. -/
theorem scan_token (hkeys : Avoids apiKey v rest)
    (hstop : ∀ c ∈ rest.head?, isTokenChar c = false ∨ apiKey.find? none rest ≠ none)
    (h : Scan apiKey redactionMarker prev (v ++ rest) out q []) :
    ∃ y prev', out = v ++ y ∧ Scan apiKey redactionMarker prev' rest y q [] ∧
      ∀ c ∈ y.head?, isTokenChar c = false := by
  obtain ⟨prev', y, rfl, hscan⟩ := h.word_stays (hkeys.silent (Or.inl rfl))
  refine ⟨y, prev', rfl, hscan, fun c hc => ?_⟩
  -- the marker ends a token, and so does what ended it before
  rcases hscan.cases_head with ⟨-, rfl, -⟩ | ⟨d, z, y, rfl, rfl, hnone, -⟩ |
    ⟨hit, z, y, rfl, rfl, -, -⟩
  · cases hc
  · obtain rfl : d = c := Option.some.inj hc
    refine (hstop d rfl).resolve_right fun hkey => hkey ?_
    rwa [Pattern.find?_prev rfl] at hnone
  · obtain rfl : CodePoint.ofChar '[' = c := Option.some.inj hc
    decide

/-- A token stays one, -/
theorem Token.scan {z : PyStr} (h : Token v rest)
    (hscan : Scan apiKey redactionMarker prev (v ++ rest) (v ++ z) q []) : Token v z := by
  obtain ⟨y, prev', hy, -, hhead⟩ := scan_token h.keys h.stop hscan
  obtain rfl := List.append_cancel_left hy
  refine ⟨h.run, h.long, Bare.avoids ?_, fun c hc => Or.inl (hhead c hc)⟩
  exact Bare.scan (apiKey_mem asciiData) (fun _ => rfl) (apiKey_mem asciiData) hscan (Or.inl rfl)

/-- and was one. -/
theorem Token.back {z : PyStr} (h : Token v z)
    (hscan : Scan apiKey redactionMarker prev r (v ++ z) q []) :
    ∃ v' z', r = v' ++ z' ∧ Token v' z' := by
  obtain ⟨v', z', rfl, hrun, hkeys, hstop⟩ := exists_token r
  refine ⟨v', z', rfl, hrun, ?_, hkeys, hstop⟩
  obtain ⟨y, prev', hy, -, hhead⟩ := scan_token hkeys hstop hscan
  have hruns := h.runs
  change bearer.least ≤ ((v ++ z).takeWhile isTokenChar).length at hruns
  rwa [hy, takeWhile_append_of_head hrun hhead] at hruns

/-- The first pass makes no match of the first two patterns. -/
theorem Early.back (h : Early out rest) (hscan : Scan apiKey redactionMarker prev s out q []) :
    ∃ rest', Early s rest' := by
  cases h with
  | @key r hopens hruns =>
      obtain ⟨w, q', hopens', hruns', -⟩ :=
        opens_back (apiKey_mem asciiData) (apiKey_mem asciiData) hscan hopens hruns
      exact ⟨_, .key hopens' hruns'⟩
  | @token v _ hopens htoken =>
      obtain ⟨w, q', hopens', -, hscan'⟩ :=
        opens_back (bearer_mem asciiData) (apiKey_mem asciiData) hscan hopens htoken.runs
      obtain ⟨v', z', rfl, htoken'⟩ := htoken.back hscan'
      exact ⟨z', .token hopens' htoken'⟩

/-- What the second pass finds is a token, where there is no key. -/
theorem early_of_runs (hkeys : Bare apiKey s) (hopens : bearer.Opens s r) (hruns : bearer.Runs r) :
    ∃ rest, Early s rest := by
  obtain ⟨pre, -, rfl⟩ := hopens.exists_append
  have htoken := Token.of_bare hkeys.suffix hruns
  refine ⟨_, .token ?_ htoken⟩
  rwa [List.takeWhile_append_dropWhile]

/-! ### Runs of URL characters -/

/-- Every text has a run at its beginning. -/
theorem exists_urlRun (r : PyStr) : ∃ rest, UrlRun r rest := by
  induction hn : r.length using Nat.strong_induction_on generalizing r with
  | _ n ih =>
      by_cases hearly : ∃ w, Early r w
      · obtain ⟨w, hearly⟩ := hearly
        obtain ⟨hit, hne, rfl⟩ := hearly.proper
        have hlt : w.length < n := by
          have hpos := List.length_pos_iff.mpr hne
          rw [← hn, List.length_append]
          omega
        obtain ⟨rest, hrun⟩ := ih _ hlt w rfl
        exact ⟨rest, .early hearly hrun⟩
      · cases r with
        | nil => exact ⟨[], .stop (by simp)⟩
        | cons c w =>
            by_cases hc : isUrlChar c
            · obtain ⟨rest, hrun⟩ := ih w.length (by simp [← hn]) w rfl
              exact ⟨rest, .char hc (fun w' hw' => hearly ⟨w', hw'⟩) hrun⟩
            · refine ⟨c :: w, .stop fun d hd => ?_⟩
              obtain rfl : c = d := Option.some.inj hd
              exact Bool.eq_false_iff.mpr hc

theorem UrlRun.stops (h : UrlRun r rest) : ∀ c ∈ rest.head?, isUrlChar c = false := by
  induction h with
  | stop hstop => exact hstop
  | early _ _ ih => exact ih
  | char _ _ _ ih => exact ih

theorem UrlRun.trans {t : PyStr} (h : UrlRun w t) (h' : UrlRun t rest) : UrlRun w rest := by
  induction h with
  | stop _ => exact h'
  | early hearly _ ih => exact .early hearly (ih h')
  | char hc hno _ ih => exact .char hc hno (ih h')

/-- Characters with which nothing begins belong to a run. -/
theorem UrlRun.word {word : PyStr} (hword : ∀ c ∈ word, isUrlChar c ∧ c ∉ firsts)
    (h : UrlRun w rest) : UrlRun (word ++ w) rest := by
  induction word with
  | nil => exact h
  | cons c word ih =>
      obtain ⟨⟨hc, hnot⟩, hword⟩ := List.forall_mem_cons.mp hword
      refine .char hc (fun w' hearly => ?_) (ih hword)
      obtain ⟨d, hd, hfirst⟩ := hearly.first
      obtain rfl : c = d := Option.some.inj hd
      exact hnot hfirst

theorem marker_word : ∀ c ∈ redactionMarker, isUrlChar c ∧ c ∉ firsts := by
  have hall : redactionMarker.all fun c => isUrlChar c && !firsts.contains c := by decide
  simpa using hall

/-- Nothing begins where there is no match of the first two patterns. -/
theorem Bare.not_early (hkeys : Bare apiKey w) (htokens : Bare bearer w) : ¬ Early w rest := by
  intro hearly
  cases hearly with
  | key hopens hruns => exact hopens.find?_ne_none rfl hruns (hkeys [] w rfl none)
  | token hopens htoken => exact hopens.find?_ne_none rfl htoken.runs (htokens [] w rfl none)

/-- There a run has URL characters only. -/
theorem UrlRun.plain (h : UrlRun w rest) (hkeys : Bare apiKey w) (htokens : Bare bearer w) :
    ∃ body, w = body ++ rest ∧ ∀ c ∈ body, isUrlChar c := by
  induction h with
  | stop _ => exact ⟨[], rfl, by simp⟩
  | early hearly _ _ => exact absurd hearly (hkeys.not_early htokens)
  | @char c w rest hc _ _ ih =>
      obtain ⟨body, rfl, hbody⟩ := ih (hkeys.suffix (x := [c])) (htokens.suffix (x := [c]))
      exact ⟨c :: body, rfl, List.forall_mem_cons.mpr ⟨hc, hbody⟩⟩

/-- URL characters in which no token begins are a run, keys or not. -/
theorem UrlRun.of_avoids {body : PyStr} (hbody : ∀ c ∈ body, isUrlChar c)
    (hstop : ∀ c ∈ rest.head?, isUrlChar c = false) (havoids : Avoids bearer body rest) :
    UrlRun (body ++ rest) rest := by
  induction hn : body.length using Nat.strong_induction_on generalizing body with
  | _ n ih =>
      cases body with
      | nil => exact .stop hstop
      | cons c x =>
          have hno : ∀ v t, bearer.Opens (c :: x ++ rest) (v ++ t) → ¬ Token v t := by
            intro v t hopens htoken
            exact hopens.find?_ne_none rfl htoken.runs (havoids [] (c :: x) rfl
              (List.cons_ne_nil c x))
          by_cases hkey : ∃ r, apiKey.Opens (c :: x ++ rest) r ∧ apiKey.Runs r
          · obtain ⟨r, hopens, hruns⟩ := hkey
            have hstart : apiKey.start none := rfl
            obtain ⟨r', hfind⟩ :=
              Option.ne_none_iff_exists'.mp (hopens.find?_ne_none hstart hruns)
            obtain rfl := opens_unique (apiKey_mem asciiData) (Pattern.opens_of_find? hfind) hopens
            obtain ⟨hit, a, ha, hne, hdrop, -⟩ := hit_in_body (Or.inl rfl) hstop hfind
            have hlt : a.length < n := by
              have hpos := List.length_pos_iff.mpr hne
              rw [← hn, ha, List.length_append]
              omega
            have hearly : Early (c :: x ++ rest) (a ++ rest) := hdrop ▸ .key hopens hruns
            rw [ha] at hbody havoids
            exact .early hearly (ih a.length hlt
              (fun d hd => hbody d (List.mem_append_right hit hd)) havoids.suffix rfl)
          · refine .char (hbody c List.mem_cons_self) (fun w' hearly => ?_) (ih x.length
              (by simp [← hn]) (fun d hd => hbody d (List.mem_cons_of_mem c hd))
              (Avoids.suffix (x := [c]) havoids) rfl)
            cases hearly with
            | key hopens hruns => exact hkey ⟨_, hopens, hruns⟩
            | token hopens htoken => exact hno _ _ hopens htoken

/-- The pass of a match puts the marker in its place. -/
theorem scan_hit (hp : p ∈ patterns data) (hstart : p.start prev) (hopens : p.Opens s r)
    (hruns : p.Runs r) :
    ∃ q, Scan p redactionMarker prev s redactionMarker q (r.dropWhile p.body) := by
  obtain ⟨r', hfind⟩ := Option.ne_none_iff_exists'.mp (hopens.find?_ne_none hstart hruns)
  obtain rfl := opens_unique hp (Pattern.opens_of_find? hfind) hopens
  obtain ⟨c, hit, rfl, -, hhit⟩ := Pattern.find?_hits hfind
  have hscan : Scan p redactionMarker prev _ (redactionMarker ++ []) _ _ := .hit hhit .done
  exact ⟨_, List.append_nil redactionMarker ▸ hscan⟩

theorem stops_scan (hp : p ∈ patterns data) (hstop : ∀ c ∈ w.head?, isUrlChar c = false)
    (hscan : Scan p redactionMarker prev w out q []) : ∀ c ∈ out.head?, isUrlChar c = false := by
  intro c hc
  rcases hscan.head?_eq with heq | ⟨⟨d, hd, hfirst⟩, -⟩
  · exact hstop c (heq ▸ hc)
  · have hurl : isUrlChar d := body_of_first (dsn_mem data) hp hfirst
    rw [hstop d hd] at hurl
    cases hurl

/-- A prefix is one in front of another text, too, that does not begin with a space of its own. -/
theorem opens_of_head {pre : PyStr} (hspaces : ∀ head ∈ p.heads, ∀ cls least,
    .many cls least ∈ head → cls = isSpace) (h : p.Opens (pre ++ r) r)
    (hhead : ∀ c ∈ out.head?, c ∈ r.head? ∨ isSpace c = false) : p.Opens (pre ++ out) out := by
  obtain ⟨d, x, rfl, hfirst, head, hhead', hstrip⟩ := h.exists_strip
  refine ⟨d, x ++ out, rfl, hfirst, head, hhead', strip_append hstrip fun c hc => ?_⟩
  refine (hhead c hc).imp_right fun hnot cls least hmem => ?_
  rw [hspaces head hhead' cls least hmem]
  exact hnot

/-- What a scan writes begins as the text does, or with the marker. -/
theorem head_scan (hscan : Scan p redactionMarker prev w out q []) :
    ∀ c ∈ out.head?, c ∈ w.head? ∨ isSpace c = false := by
  intro c hc
  rcases hscan.head?_eq with heq | ⟨-, t, rfl⟩
  · exact Or.inl (heq ▸ hc)
  · obtain rfl : CodePoint.ofChar '[' = c := Option.some.inj hc
    exact Or.inr (by decide)

/-- What the first pass makes of a run: it comes to the end of it, and leaves a run. -/
theorem UrlRun.scan_key (h : UrlRun w rest) (prev : Option CodePoint) :
    ∃ out q, Scan apiKey redactionMarker prev w out q rest ∧
      ∀ z q', Scan apiKey redactionMarker q rest z q' [] → UrlRun (out ++ z) z := by
  induction h generalizing prev with
  | stop hstop =>
      exact ⟨[], prev, .done, fun z q' hscan =>
        .stop (stops_scan (apiKey_mem asciiData) hstop hscan)⟩
  | @early w t rest hearly _ ih =>
      cases hearly with
      | key hopens hruns =>
          have hstart : apiKey.start prev := rfl
          obtain ⟨q₀, hhit⟩ := scan_hit (apiKey_mem asciiData) hstart hopens hruns
          obtain ⟨out, q, hscan, hrun⟩ := ih q₀
          refine ⟨redactionMarker ++ out, q, hhit.trans hscan, fun z q' hz => ?_⟩
          rw [List.append_assoc]
          exact (hrun z q' hz).word marker_word
      | @token v _ hopens htoken =>
          obtain ⟨pre, hne, rfl⟩ := hopens.exists_append
          have hsilent := (precedes_bearer asciiData).silent hopens
          have hpre : Scan apiKey redactionMarker prev _ pre _ _ :=
            scan_stays (hsilent (v ++ t)) prev
          have hv := htoken.keys.stays (Or.inl rfl) (pre.getLast?.or prev)
          obtain ⟨out, q, hscan, hrun⟩ := ih (v.getLast?.or (pre.getLast?.or prev))
          refine ⟨pre ++ (v ++ out), q, hpre.trans (hv.trans hscan), fun z q' hz => ?_⟩
          have hall := hv.trans (hscan.trans hz)
          simp only [List.append_assoc]
          exact .early (.token (opens_of_head (runs_spaces (bearer_mem asciiData)) hopens
            (head_scan hall)) (htoken.scan hall)) (hrun z q' hz)
  | @char c w rest hc hno _ ih =>
      have hnone : apiKey.find? prev (c :: w) = none :=
        Pattern.find?_eq_none fun r hopens hruns => hno _ (.key hopens hruns)
      obtain ⟨out, q, hscan, hrun⟩ := ih (some c)
      refine ⟨c :: out, q, .keep hnone hscan, fun z q' hz => ?_⟩
      refine .char hc (fun w' hearly => ?_) (hrun z q' hz)
      obtain ⟨w'', hearly'⟩ := hearly.back (.keep hnone (hscan.trans hz))
      exact hno w'' hearly'

/-- The second pass takes the tokens out of it. -/
theorem UrlRun.scan_bearer (h : UrlRun w rest) (hkeys : Bare apiKey w) (prev : Option CodePoint) :
    ∃ out q, Scan bearer redactionMarker prev w out q rest ∧ ∀ c ∈ out, isUrlChar c := by
  induction h generalizing prev with
  | stop _ => exact ⟨[], prev, .done, by simp⟩
  | @early w t rest hearly _ ih =>
      cases hearly with
      | key hopens hruns => exact absurd (hkeys [] _ rfl none) (hopens.find?_ne_none rfl hruns)
      | @token v _ hopens htoken =>
          obtain ⟨pre, hne, rfl⟩ := hopens.exists_append
          have hstart : bearer.start prev := rfl
          obtain ⟨q₀, hhit⟩ := scan_hit (bearer_mem asciiData) hstart hopens htoken.runs
          rw [← List.append_assoc] at hkeys
          rw [show bearer.body = isTokenChar from rfl,
            dropWhile_append_of_head htoken.run (htoken.stop_of_bare hkeys.suffix)] at hhit
          obtain ⟨out, q, hscan, hout⟩ := ih hkeys.suffix q₀
          exact ⟨redactionMarker ++ out, q, hhit.trans hscan, List.forall_mem_append.mpr
            ⟨List.all_eq_true.mp marker_url, hout⟩⟩
  | @char c w rest hc hno _ ih =>
      have hnone : bearer.find? prev (c :: w) = none := by
        refine Pattern.find?_eq_none fun r hopens hruns => ?_
        obtain ⟨w', hearly⟩ := early_of_runs hkeys hopens hruns
        exact hno w' hearly
      obtain ⟨out, q, hscan, hout⟩ := ih (hkeys.suffix (x := [c])) (some c)
      exact ⟨c :: out, q, .keep hnone hscan, List.forall_mem_cons.mpr ⟨hc, hout⟩⟩

/-- **An earlier pass** comes to the end of a run, and leaves a run. -/
theorem UrlRun.scan (h : UrlRun w rest) (hp : p = apiKey ∨ p = bearer ∨ p = dsn)
    (hbefore : Before data p w) (prev : Option CodePoint) :
    ∃ out q, Scan p redactionMarker prev w out q rest ∧
      ∀ z q', Scan p redactionMarker q rest z q' [] → UrlRun (out ++ z) z := by
  have hplain : p ∈ patterns data → p = bearer ∨ Bare bearer w →
      (∃ out q, Scan p redactionMarker prev w out q rest ∧ ∀ c ∈ out, isUrlChar c) →
      ∃ out q, Scan p redactionMarker prev w out q rest ∧
        ∀ z q', Scan p redactionMarker q rest z q' [] → UrlRun (out ++ z) z := by
    intro hp htokens hscan
    obtain ⟨out, q, hscan, hout⟩ := hscan
    refine ⟨out, q, hscan, fun z q' hz => .of_avoids hout (stops_scan hp h.stops hz) ?_⟩
    exact (Bare.scan (bearer_mem data) (fun _ => rfl) hp (hscan.trans hz)
      (htokens.imp_left Eq.symm)).avoids
  rcases hp with rfl | rfl | rfl
  · exact h.scan_key prev
  · have hkeys := hbefore apiKey (precedes_bearer data)
    exact hplain (bearer_mem data) (Or.inl rfl) (h.scan_bearer hkeys prev)
  · have hkeys := hbefore apiKey (precedes_dsn (Or.inl rfl))
    have htokens := hbefore bearer (precedes_dsn (Or.inr rfl))
    refine hplain (dsn_mem data) (Or.inr htokens) ?_
    obtain ⟨body, rfl, hbody⟩ := h.plain hkeys htokens
    exact scan_url (Or.inr rfl) hbody h.stops prev

/-! ### The four passes -/

theorem url_mem (h : p = dsn ∨ p = password data) : p ∈ patterns data := by
  rcases h with rfl | rfl
  · exact dsn_mem data
  · exact password_mem data

theorem Match.first (h : Match data prev s rest) : ∃ c ∈ s.head?, c ∈ firsts := by
  cases h with
  | early h => exact h.first
  | url hp _ hopens _ _ =>
      obtain ⟨c, x, rfl, hc, -⟩ := hopens
      exact ⟨c, rfl, first_mem (url_mem hp) hc⟩

/-- Behind a match, no match begins that asks what was before. -/
theorem Match.behind (h : Match data prev s rest) :
    ∀ c ∈ rest.head?, (password data).first c = false := by
  intro c hc
  refine Bool.eq_false_iff.mpr fun hfirst => ?_
  have hbody : ∀ {p : Pattern CodePoint}, p ∈ patterns data → p.body c = false → False := by
    intro p hp hnot
    rw [body_of_first hp (password_mem data) hfirst] at hnot
    cases hnot
  cases h with
  | early h =>
      cases h with
      | key _ _ => exact hbody (apiKey_mem data) (head_dropWhile isKeyChar _ c hc)
      | token _ htoken =>
          rcases htoken.stop c hc with hstop | hkey
          · exact hbody (bearer_mem data) hstop
          · obtain ⟨r, hfind⟩ := Option.ne_none_iff_exists'.mp hkey
            rw [(apiKey_find?.mp hfind).1] at hc
            obtain rfl : CodePoint.ofChar 's' = c := Option.some.inj hc
            cases hfirst
  | url _ _ _ _ hrun => exact hbody (dsn_mem data) (hrun.stops c hc)

/-- Where a pattern finds something, a match begins. -/
theorem exists_match (hp : p ∈ patterns data) (hstart : p.start prev) (hopens : p.Opens s r)
    (hruns : p.Runs r) (hkeys : p = bearer → Bare apiKey s) : ∃ rest, Match data prev s rest := by
  have hurl : p = dsn ∨ p = password data → ∃ rest, Match data prev s rest := by
    intro hp
    obtain ⟨rest, hrun⟩ := exists_urlRun r
    exact ⟨rest, .url hp hstart hopens hruns hrun⟩
  rcases mem_patterns hp with rfl | rfl | rfl | rfl
  · exact ⟨_, .early (.key hopens hruns)⟩
  · obtain ⟨rest, hearly⟩ := early_of_runs (hkeys rfl) hopens hruns
    exact ⟨rest, .early hearly⟩
  · exact hurl (Or.inl rfl)
  · exact hurl (Or.inr rfl)

theorem precedes_of_ne (hp : p ∈ patterns data) (hkey : p ≠ apiKey) : Precedes data apiKey p := by
  rcases mem_patterns hp with rfl | rfl | rfl | rfl
  · exact absurd rfl hkey
  · exact precedes_bearer data
  · exact precedes_dsn (Or.inl rfl)
  · exact precedes_password (Or.inl rfl)

/-- A pass comes before a later one, behind an earlier one, or is the pass of the pattern. -/
theorem url_order (hp : p ∈ patterns data) (h₀ : p₀ = dsn ∨ p₀ = password data) :
    p = p₀ ∨ Precedes data p p₀ ∨ Precedes data p₀ p := by
  rcases h₀ with rfl | rfl <;> rcases mem_patterns hp with rfl | rfl | rfl | rfl
  · exact Or.inr (Or.inl (precedes_dsn (Or.inl rfl)))
  · exact Or.inr (Or.inl (precedes_dsn (Or.inr rfl)))
  · exact Or.inl rfl
  · exact Or.inr (Or.inr (precedes_password (by simp)))
  · exact Or.inr (Or.inl (precedes_password (by simp)))
  · exact Or.inr (Or.inl (precedes_password (by simp)))
  · exact Or.inr (Or.inl (precedes_password (by simp)))
  · exact Or.inl rfl

theorem url_runs_scan (h₀ : p₀ = dsn ∨ p₀ = password data)
    (hscan : Scan p redactionMarker prev w out q []) (hruns : p₀.Runs w) : p₀.Runs out := by
  have hone : p₀.least = 1 := by rcases h₀ with rfl | rfl <;> rfl
  have hbody : p₀.body = isUrlChar := by rcases h₀ with rfl | rfl <;> rfl
  rw [Pattern.runs_one hone, hbody] at hruns ⊢
  rcases hscan.head?_eq with heq | ⟨-, t, rfl⟩
  · rwa [← heq]
  · exact ⟨_, rfl, by decide⟩

/-- A pass makes no match. -/
theorem Match.back (hp : p ∈ patterns data) (hbefore : Before data p s)
    (hscan : Scan p redactionMarker prev s out q []) (h : Match data prev out rest) :
    ∃ rest', Match data prev s rest' := by
  cases h with
  | early h =>
      suffices hearly : ∃ rest', Early s rest' by
        obtain ⟨rest', hearly⟩ := hearly
        exact ⟨rest', .early hearly⟩
      by_cases hkey : p = apiKey
      · subst hkey
        exact h.back hscan
      · have hkeys := hbefore apiKey (precedes_of_ne hp hkey)
        cases h with
        | key hopens hruns =>
            obtain ⟨w, -, hopens', hruns', -⟩ := opens_back (apiKey_mem data) hp hscan hopens hruns
            exact ⟨_, .key hopens' hruns'⟩
        | token hopens htoken =>
            obtain ⟨w, -, hopens', hruns', -⟩ :=
              opens_back (bearer_mem data) hp hscan hopens htoken.runs
            exact early_of_runs hkeys hopens' hruns'
  | url h₀ hstart hopens hruns _ =>
      obtain ⟨w, -, hopens', hruns', -⟩ := opens_back (url_mem h₀) hp hscan hopens hruns
      obtain ⟨rest', hrun⟩ := exists_urlRun w
      exact ⟨rest', .url h₀ hstart hopens' hruns' hrun⟩

/-- A pattern before this one would have found it. -/
theorem Before.not_opens (hbefore : Before data p s) (horder : Precedes data p₀ p)
    (hstart : p₀.start prev) (hopens : p₀.Opens s r) (hruns : p₀.Runs r) : False :=
  hopens.find?_ne_none hstart hruns (hbefore p₀ horder [] s rfl prev)

/-- The pass of a key or of a token puts the marker in its place; the pass of a key leaves a
token. -/
theorem Early.scan (hp : p ∈ patterns data) (hbefore : Before data p s) (h : Early s rest)
    (prev : Option CodePoint) :
    ∃ out q, Scan p redactionMarker prev s out q rest ∧ (out = redactionMarker ∨
      ∀ z q', Scan p redactionMarker q rest z q' [] → Early (out ++ z) z) := by
  cases h with
  | key hopens hruns =>
      by_cases hkey : p = apiKey
      · subst hkey
        have hstart : apiKey.start prev := rfl
        obtain ⟨q, hscan⟩ := scan_hit (apiKey_mem data) hstart hopens hruns
        exact ⟨_, q, hscan, Or.inl rfl⟩
      · have hstart : apiKey.start prev := rfl
        exact (hbefore.not_opens (precedes_of_ne hp hkey) hstart hopens hruns).elim
  | @token v _ hopens htoken =>
      have hstart : bearer.start prev := rfl
      obtain ⟨pre, -, rfl⟩ := hopens.exists_append
      rcases mem_patterns hp with rfl | rfl | rfl | rfl
      · have hsilent := (precedes_bearer data).silent hopens
        have hpre : Scan apiKey redactionMarker prev _ pre _ _ :=
          scan_stays (hsilent (v ++ rest)) prev
        have hv := htoken.keys.stays (Or.inl rfl) (pre.getLast?.or prev)
        refine ⟨pre ++ v, _, hpre.trans hv, Or.inr fun z q' hz => ?_⟩
        have hall := hv.trans hz
        rw [List.append_assoc]
        exact .token (opens_of_head (runs_spaces (bearer_mem data)) hopens (head_scan hall))
          (htoken.scan hall)
      · have hkeys : Bare apiKey rest := by
          have hall := hbefore apiKey (precedes_bearer data)
          rw [← List.append_assoc] at hall
          exact hall.suffix
        obtain ⟨q, hscan⟩ := scan_hit (bearer_mem data) hstart hopens htoken.runs
        rw [show bearer.body = isTokenChar from rfl,
          dropWhile_append_of_head htoken.run (htoken.stop_of_bare hkeys)] at hscan
        exact ⟨_, q, hscan, Or.inl rfl⟩
      · exact (hbefore.not_opens (precedes_dsn (Or.inr rfl)) hstart hopens htoken.runs).elim
      · exact (hbefore.not_opens (precedes_password (Or.inr (Or.inl rfl))) hstart hopens
          htoken.runs).elim

/-- Its own pass puts the marker in the place of a match, and an earlier one another match. -/
theorem Match.scan (hp : p ∈ patterns data) (hbefore : Before data p s)
    (h : Match data prev s rest) :
    ∃ out q, Scan p redactionMarker prev s out q rest ∧ (out = redactionMarker ∨
      ∀ z q', Scan p redactionMarker q rest z q' [] → Match data prev (out ++ z) z) := by
  cases h with
  | early h =>
      obtain ⟨out, q, hscan, hout⟩ := h.scan hp hbefore prev
      exact ⟨out, q, hscan, hout.imp_right fun hlater z q' hz => .early (hlater z q' hz)⟩
  | @url p₀ _ r _ h₀ hstart hopens hruns hrun =>
      obtain ⟨pre, -, rfl⟩ := hopens.exists_append
      rcases url_order hp h₀ with rfl | horder | horder
      · have hbare : ∀ {p₁ : Pattern CodePoint}, p₁ = apiKey ∨ p₁ = bearer → Bare p₁ r := by
          intro p₁ h₁
          refine (hbefore p₁ ?_).suffix
          rcases h₀ with rfl | rfl
          · exact precedes_dsn h₁
          · exact precedes_password (h₁.imp_right Or.inl)
        have hbody : p.body = isUrlChar := by rcases h₀ with rfl | rfl <;> rfl
        obtain ⟨q, hscan⟩ := scan_hit hp hstart hopens hruns
        obtain ⟨body, rfl, hurl⟩ := hrun.plain (hbare (Or.inl rfl)) (hbare (Or.inr rfl))
        rw [hbody, dropWhile_append_of_head hurl hrun.stops] at hscan
        exact ⟨_, q, hscan, Or.inl rfl⟩
      · obtain ⟨out, q, hscan, hlater⟩ := hrun.scan horder.early
          (fun p₁ h₁ => (hbefore p₁ h₁).suffix) (pre.getLast?.or prev)
        have hpre : Scan p redactionMarker prev _ pre _ _ :=
          scan_stays (horder.silent hopens r) prev
        refine ⟨pre ++ out, q, hpre.trans hscan, Or.inr fun z q' hz => ?_⟩
        have hall := hscan.trans hz
        rw [List.append_assoc]
        exact .url h₀ hstart (opens_of_head (runs_spaces (url_mem h₀)) hopens (head_scan hall))
          (url_runs_scan h₀ hall hruns) (hlater z q' hz)
      · exact (hbefore.not_opens horder hstart hopens hruns).elim

/-- A pass leaves the reading as it is when the passes before it have been made. -/
theorem preserves (hp : p ∈ patterns data) :
    p.Preserves (Match data) redactionMarker (Before data p) where
  suffix h p₀ h₀ := (h p₀ h₀).suffix
  marks c hc prev w r h := by
    obtain ⟨d, hd, hfirst⟩ := h.first
    obtain rfl : c = d := Option.some.inj hd
    exact (marker_word c hc).2 hfirst
  find hbefore hfind := by
    obtain ⟨-, -, -, hstart, -, hruns, -⟩ := Pattern.find?_some hfind
    refine exists_match hp hstart (Pattern.opens_of_find? hfind) hruns ?_
    rintro rfl
    exact hbefore apiKey (precedes_bearer data)
  back hbefore hscan _ h := h.back hp hbefore hscan
  hit hbefore h := h.scan hp hbefore
  behind {prev w rest} h q q' := by
    rcases mem_patterns hp with rfl | rfl | rfl | rfl
    · exact Pattern.find?_prev rfl rest
    · exact Pattern.find?_prev rfl rest
    · exact Pattern.find?_prev rfl rest
    · cases rest with
      | nil => rfl
      | cons c rest =>
          rw [Pattern.find?_of_not_first (h.behind c rfl), Pattern.find?_of_not_first
            (h.behind c rfl)]

theorem Before.first (w : PyStr) : Before data apiKey w :=
  fun _ horder => absurd rfl horder.ne_apiKey

theorem Before.second (hkeys : Bare apiKey w) : Before data bearer w := by
  intro p₀ horder
  have hB : ∀ {p : Pattern CodePoint}, bearer = p → p.first (CodePoint.ofChar 'B') :=
    fun heq => heq ▸ rfl
  rcases horder.cases with ⟨-, rfl⟩ | ⟨heq, -⟩ | ⟨heq, -⟩
  · exact hkeys
  · cases hB heq
  · cases hB heq

theorem Before.third (hkeys : Bare apiKey w) (htokens : Bare bearer w) : Before data dsn w := by
  intro p₀ horder
  have hP : ∀ {p : Pattern CodePoint}, dsn = p → p.first (CodePoint.ofChar 'P') = false ∧
      p.first (CodePoint.ofChar 'B') = false := fun heq => heq ▸ ⟨rfl, rfl⟩
  rcases horder.cases with ⟨heq, -⟩ | ⟨-, rfl | rfl⟩ | ⟨heq, -⟩
  · cases (hP heq).2
  · exact hkeys
  · exact htokens
  · cases (hP heq).1

theorem Before.fourth (hkeys : Bare apiKey w) (htokens : Bare bearer w) (hdsns : Bare dsn w) :
    Before data (password data) w := by
  intro p₀ horder
  rcases horder.early with rfl | rfl | rfl
  · exact hkeys
  · exact htokens
  · exact hdsns

/-- Where there is a match, a pattern finds something. -/
theorem Match.found (h : Match data prev s rest) :
    ∃ p ∈ patterns data, p.find? prev s ≠ none := by
  cases h with
  | early h =>
      cases h with
      | key hopens hruns => exact ⟨apiKey, apiKey_mem data, hopens.find?_ne_none rfl hruns⟩
      | token hopens htoken =>
          exact ⟨bearer, bearer_mem data, hopens.find?_ne_none rfl htoken.runs⟩
  | url h₀ hstart hopens hruns _ => exact ⟨_, url_mem h₀, hopens.find?_ne_none hstart hruns⟩

theorem Bare.sub (h₀ : p₀ ∈ patterns data) (hstart : ∀ q, p₀.start q) (hp : p ∈ patterns data)
    (h : p₀ = p ∨ Bare p₀ w) : Bare p₀ (p.sub redactionMarker w) := by
  obtain ⟨q, hscan⟩ : ∃ q, Scan p redactionMarker none w _ q [] := scan_scrub none w
  exact Bare.scan h₀ hstart hp hscan h

/-- **The four passes are one reading from left to right.** -/
theorem redact_text_reads (data : CharacterData) {text : PyStr}
    (h : Reads (Match data) redactionMarker none text out q []) : redactText data text = out := by
  have htrue : ∀ q : Option CodePoint, apiKey.start q := fun _ => rfl
  have hkeys₁ := Bare.sub (w := text) (apiKey_mem data) htrue (apiKey_mem data) (Or.inl rfl)
  have hkeys₂ := Bare.sub (apiKey_mem data) htrue (bearer_mem data) (Or.inr hkeys₁)
  have htokens₂ := Bare.sub (w := apiKey.sub redactionMarker text) (bearer_mem data) (fun _ => rfl)
    (bearer_mem data) (Or.inl rfl)
  have hkeys₃ := Bare.sub (apiKey_mem data) htrue (dsn_mem data) (Or.inr hkeys₂)
  have htokens₃ := Bare.sub (bearer_mem data) (fun _ => rfl) (dsn_mem data) (Or.inr htokens₂)
  have hdsns₃ := Bare.sub (w := bearer.sub redactionMarker (apiKey.sub redactionMarker text))
    (dsn_mem data) (fun _ => rfl) (dsn_mem data) (Or.inl rfl)
  obtain ⟨q₁, h₁⟩ := (preserves (apiKey_mem data)).reads marker_ne_nil (.first text) h
  obtain ⟨q₂, h₂⟩ := (preserves (bearer_mem data)).reads marker_ne_nil (.second hkeys₁) h₁
  obtain ⟨q₃, h₃⟩ := (preserves (dsn_mem data)).reads marker_ne_nil (.third hkeys₂ htokens₂) h₂
  obtain ⟨q₄, h₄⟩ := (preserves (password_mem data)).reads marker_ne_nil
    (.fourth hkeys₃ htokens₃ hdsns₃) h₃
  have hfree := (redact_text_fixpoint data text).1
  rw [redactText_eq] at hfree ⊢
  refine (h₄.eq_of_free fun x y hw r => ?_).symm
  rw [Option.or_none]
  intro hmatch
  obtain ⟨p, hp, hfound⟩ := hmatch.found
  exact hfound (hfree p hp x y hw)

end Taskq.Redact
