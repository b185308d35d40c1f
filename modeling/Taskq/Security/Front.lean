import Taskq.Security.Reading

/-!
# Taskq.Security.Front

Matches that begin before a prefix.

The prefix of a Bearer token, of a connection string or of a password has a character that
no key and no token goes over, and a match that begins before it cannot read its own prefix on
into it. So, whatever comes behind the prefix, the reading of what is before it comes to the
prefix, or to a match that ends inside of it, or to a run of URL characters that takes the
prefix and what belongs to it.
-/

namespace Taskq.Redact

open Scrub Unicode

variable {data : CharacterData} {p : Pattern CodePoint} {prev q : Option CodePoint}
  {pre r y v w rest : PyStr}

/-! ### Keys and tokens -/

theorem key_inside (hp : p ∈ patterns data) (hkey : p ≠ apiKey) (h : p.Opens (pre ++ r) r)
    (hy : y ≠ []) (hplace : y <:+ pre) (w : PyStr) : apiKey.find? none (y ++ w) = none := by
  obtain ⟨u, rfl⟩ := hplace
  have hlt : u.length < (u ++ y).length := by
    rw [List.length_append]
    exact Nat.lt_add_of_pos_right (List.length_pos_iff.mpr hy)
  have hnone := apiKey_silent hp hkey h w u.length hlt none
  rwa [List.append_assoc, List.drop_left] at hnone

/-- Whether a key begins in front of `w`, or in the prefix before it, does not depend on `w`. -/
theorem key_front (hp : p ∈ patterns data) (hkey : p ≠ apiKey) (h : p.Opens (pre ++ r) r)
    (hy : y ≠ []) (hplace : y <:+ pre ∨ ∃ v, y = v ++ pre) (w : PyStr) :
    apiKey.find? none (y ++ w) = none ↔ apiKey.find? none y = none := by
  have hinside : y <:+ pre →
      (apiKey.find? none (y ++ w) = none ↔ apiKey.find? none y = none) := by
    intro hsuffix
    have hnil := key_inside hp hkey h hy hsuffix []
    rw [List.append_nil] at hnil
    exact iff_of_true (key_inside hp hkey h hy hsuffix w) hnil
  rcases hplace with hsuffix | ⟨v, rfl⟩
  · exact hinside hsuffix
  · by_cases hv : v = []
    · subst hv
      exact hinside (List.suffix_refl pre)
    · rw [List.append_assoc, (halts hp hkey (apiKey_mem data) h).find? hv, Option.map_eq_none_iff]

/-- There is one way to read a token. -/
theorem token_unique {v' rest' : PyStr} (heq : v ++ rest = v' ++ rest')
    (hrun : ∀ c ∈ v, isTokenChar c) (hrun' : ∀ c ∈ v', isTokenChar c)
    (hkeys : Avoids apiKey v rest) (hkeys' : Avoids apiKey v' rest')
    (hstop : ∀ c ∈ rest.head?, isTokenChar c = false ∨ apiKey.find? none rest ≠ none)
    (hstop' : ∀ c ∈ rest'.head?, isTokenChar c = false ∨ apiKey.find? none rest' ≠ none) :
    v = v' := by
  -- neither goes on where the other stops
  have hnil : ∀ {v a rest rest' : PyStr}, rest = a ++ rest' → (∀ c ∈ v ++ a, isTokenChar c) →
      Avoids apiKey (v ++ a) rest' →
      (∀ c ∈ rest.head?, isTokenChar c = false ∨ apiKey.find? none rest ≠ none) → a = [] := by
    intro v a rest rest' hrest hrun hkeys hstop
    cases a with
    | nil => rfl
    | cons c a =>
        subst hrest
        rcases hstop c rfl with htoken | hkey
        · rw [hrun c (by simp)] at htoken
          cases htoken
        · exact absurd (hkeys v (c :: a) rfl (List.cons_ne_nil c a)) hkey
  rcases List.append_eq_append_iff.mp heq with ⟨a, rfl, hrest⟩ | ⟨a, rfl, hrest⟩
  · rw [hnil hrest hrun' hkeys' hstop, List.append_nil]
  · rw [hnil hrest hrun hkeys hstop', List.append_nil]

theorem place_of_suffix {g : PyStr} (h : y <:+ g ++ pre) : y <:+ pre ∨ ∃ v, y = v ++ pre := by
  obtain ⟨u, hu⟩ := h
  rcases List.append_eq_append_iff.mp hu with ⟨a, -, rfl⟩ | ⟨a, -, rfl⟩
  · exact Or.inr ⟨a, rfl⟩
  · exact Or.inl ⟨a, rfl⟩

/-- What looks like a token in front of the prefix looks like one whatever comes behind. -/
theorem token_front (hp : p ∈ patterns data) (hkey : p ≠ apiKey) (h : p.Opens (pre ++ r) r)
    {g z : PyStr} (hsplit : g ++ pre = v ++ z) (hz : z ≠ []) (w : PyStr) :
    (Avoids apiKey v (z ++ w) ↔ Avoids apiKey v z) ∧
      ((∀ c ∈ (z ++ w).head?, isTokenChar c = false ∨ apiKey.find? none (z ++ w) ≠ none) ↔
        ∀ c ∈ z.head?, isTokenChar c = false ∨ apiKey.find? none z ≠ none) := by
  have hsame : ∀ x y, v = x ++ y →
      (apiKey.find? none (y ++ z ++ w) = none ↔ apiKey.find? none (y ++ z) = none) := by
    intro x y hv
    refine key_front hp hkey h (by simp [hz]) (place_of_suffix (g := g) ⟨x, ?_⟩) w
    rw [hsplit, hv, List.append_assoc]
  constructor
  · refine forall₂_congr fun x y => forall₂_congr fun hv _ => ?_
    rw [← List.append_assoc]
    exact hsame x y hv
  · rw [List.head?_append_of_ne_nil _ hz]
    refine forall₂_congr fun c _ => or_congr_right (not_congr ?_)
    have hhere := hsame v [] (List.append_nil v).symm
    rwa [List.nil_append] at hhere

theorem stops_at_gap {cls : CodePoint → Bool} {t : PyStr} (hgap : ∃ d ∈ t, cls d = false) :
    ∃ run z, t = run ++ z ∧ z ≠ [] ∧ ∀ w, (t ++ w).dropWhile cls = z ++ w := by
  obtain ⟨run, z, rfl, hrun, hstop⟩ := exists_run cls t
  have hz : z ≠ [] := by
    rintro rfl
    obtain ⟨d, hd, hnot⟩ := hgap
    rw [List.append_nil] at hd
    rw [hrun d hd] at hnot
    cases hnot
  refine ⟨run, z, rfl, hz, fun w => ?_⟩
  rw [List.append_assoc]
  refine dropWhile_append_of_head hrun ?_
  rwa [List.head?_append_of_ne_nil _ hz]

/-- A key or a token that begins before the prefix ends before the end of it, whatever comes
behind. -/
theorem early_front (hp : p ∈ patterns data) (hkey : p ≠ apiKey) (h : p.Opens (pre ++ r) r)
    (hv : v ≠ []) :
    (∀ w r, ¬ Early (v ++ (pre ++ w)) r) ∨
      ∃ hit z, v ++ pre = hit ++ z ∧ hit ≠ [] ∧ z ≠ [] ∧
        ∀ w, Early (v ++ (pre ++ w)) (z ++ w) := by
  have hkeys := halts hp hkey (apiKey_mem data) h
  have htokens := halts hp hkey (bearer_mem data) h
  obtain ⟨d, hd, hgap⟩ := exists_gap hp hkey h
  by_cases hfound : ∃ g, apiKey.Opens v g ∧ apiKey.Runs (g ++ pre)
  · obtain ⟨g, hopens, hruns⟩ := hfound
    have hnot : isKeyChar d = false := Bool.eq_false_iff.mpr fun hone => by
      rw [isTokenChar_of_key hone] at hgap
      cases hgap
    obtain ⟨run, z, hsplit, hz, hdrop⟩ := stops_at_gap ⟨d, List.mem_append_right g hd, hnot⟩
    obtain ⟨s, hs, rfl⟩ := hopens.exists_append
    refine Or.inr ⟨s ++ run, z, ?_, by simp [hs], hz, fun w => ?_⟩
    · rw [List.append_assoc, hsplit, List.append_assoc]
    · rw [← hdrop w, List.append_assoc g]
      exact .key ((hkeys.opens hv).mpr ⟨g, rfl, hopens⟩) (hkeys.runs_iff.mpr hruns)
  have hne : ∀ {g v₀ z : PyStr}, g ++ pre = v₀ ++ z → (∀ c ∈ v₀, isTokenChar c) → z ≠ [] := by
    rintro g v₀ z hsplit hrun rfl
    rw [List.append_nil] at hsplit
    rw [hrun d (hsplit ▸ List.mem_append_right g hd)] at hgap
    cases hgap
  by_cases htoken : ∃ g v₀ z, bearer.Opens v g ∧ g ++ pre = v₀ ++ z ∧ Token v₀ z
  · obtain ⟨g, v₀, z, hopens, hsplit, htoken⟩ := htoken
    have hz := hne hsplit htoken.run
    obtain ⟨s, hs, rfl⟩ := hopens.exists_append
    refine Or.inr ⟨s ++ v₀, z, ?_, by simp [hs], hz, fun w => ?_⟩
    · rw [List.append_assoc, hsplit, List.append_assoc]
    · obtain ⟨havoids, hstop⟩ := token_front hp hkey h hsplit hz w
      have hopens' := (htokens.opens (w := w) hv).mpr ⟨g, rfl, hopens⟩
      rw [← List.append_assoc g, hsplit, List.append_assoc v₀] at hopens'
      exact .token hopens' ⟨htoken.run, htoken.long, havoids.mpr htoken.keys,
        hstop.mpr htoken.stop⟩
  · refine Or.inl fun w r' hearly => ?_
    cases hearly with
    | key hopens hruns =>
        obtain ⟨g, rfl, hg⟩ := (hkeys.opens hv).mp hopens
        exact hfound ⟨g, hg, hkeys.runs_iff.mp hruns⟩
    | @token v' _ hopens htoken' =>
        obtain ⟨g, hg, hopens'⟩ := (htokens.opens hv).mp hopens
        obtain ⟨v₀, z, hsplit, hrun, havoids, hstop⟩ := exists_token (g ++ pre)
        obtain ⟨havoids', hstop'⟩ := token_front hp hkey h hsplit (hne hsplit hrun) w
        rw [← List.append_assoc, hsplit, List.append_assoc] at hg
        -- the token that is read with `w` is the one that is read without it
        obtain rfl := token_unique hg htoken'.run hrun htoken'.keys (havoids'.mpr havoids)
          htoken'.stop (hstop'.mpr hstop)
        exact htoken ⟨g, v', z, hopens', hsplit, hrun, htoken'.long, havoids, hstop⟩

/-! ### Runs of URL characters -/

/-- What a key or a token can be at a place before or in the prefix. -/
theorem early_place (hp : p ∈ patterns data) (hkey : p ≠ apiKey) (h : p.Opens (pre ++ r) r)
    (hy : y ≠ []) (hplace : y <:+ pre ∨ ∃ v, y = v ++ pre) :
    (∀ w r, ¬ Early (y ++ w) r) ∨
      (∃ hit z, y = hit ++ z ∧ hit ≠ [] ∧ z ≠ [] ∧ ∀ w, Early (y ++ w) (z ++ w)) ∨
      (y = pre ∧ p = bearer) := by
  have hinside : y <:+ pre → (y = pre → p ≠ bearer) → ∀ w r, ¬ Early (y ++ w) r := by
    intro hsuffix hnot w r' hearly
    cases hearly with
    | key hopens hruns =>
        exact hopens.find?_ne_none rfl hruns (key_inside hp hkey h hy hsuffix w)
    | token hopens htoken =>
        obtain ⟨c, x, rfl⟩ := List.exists_cons_of_ne_nil hy
        obtain ⟨d, z, hd, hfirst, -⟩ := hopens
        obtain ⟨rfl, -⟩ := List.cons.inj hd
        obtain ⟨u, rfl⟩ := hsuffix
        cases u with
        | nil =>
            obtain ⟨e, z', he, hfirst', -⟩ := h
            obtain ⟨rfl, -⟩ := List.cons.inj he
            rw [eq_of_isOneOf hfirst] at hfirst'
            rcases mem_patterns hp with rfl | rfl | rfl | rfl
            · exact hkey rfl
            · exact hnot rfl rfl
            · cases hfirst'
            · cases hfirst'
        | cons e u =>
            refine tail_not_capital hp h c (by simp) ?_
            exact first_capital (bearer_mem data) (precedes_bearer data).ne_apiKey hfirst
  rcases hplace with hsuffix | ⟨v, rfl⟩
  · by_cases hboth : y = pre ∧ p = bearer
    · exact Or.inr (Or.inr hboth)
    · exact Or.inl (hinside hsuffix fun heq hbearer => hboth ⟨heq, hbearer⟩)
  · by_cases hv : v = []
    · subst hv
      by_cases hbearer : p = bearer
      · exact Or.inr (Or.inr ⟨rfl, hbearer⟩)
      · exact Or.inl (hinside (List.suffix_refl pre) fun _ => hbearer)
    · rcases early_front hp hkey h hv with hno | ⟨hit, z, hsplit, hhit, hz, hearly⟩
      · refine Or.inl fun w r' => ?_
        rw [List.append_assoc]
        exact hno w r'
      · refine Or.inr (Or.inl ⟨hit, z, hsplit, hhit, hz, fun w => ?_⟩)
        rw [List.append_assoc]
        exact hearly w

theorem Secret.token {body : PyStr} (h : Secret data bearer pre body rest)
    (hwhole : Whole bearer body rest) : Token body rest :=
  ⟨h.run, h.long, hwhole.1 rfl, fun c hc => Or.inl (h.stop c hc)⟩

theorem Secret.urlRun {body : PyStr} (h : Secret data p pre body rest)
    (hurl : p = dsn ∨ p = password data) (hwhole : Whole p body rest) :
    UrlRun (body ++ rest) rest := by
  have hbody : p.body = isUrlChar := by rcases hurl with rfl | rfl <;> rfl
  have hne : p ≠ apiKey ∧ p ≠ bearer := by
    constructor
    all_goals
      rintro rfl
      exact absurd (congrFun hbody (CodePoint.ofChar '[')) (by decide)
  exact UrlRun.of_avoids (hbody ▸ h.run) (hbody ▸ h.stop) (hwhole.2 hne.1 hne.2)

/-- **A run in front of a prefix** stops before the end of it, or takes the prefix and what belongs
to it. -/
theorem urlRun_front (hp : p ∈ patterns data) (hkey : p ≠ apiKey) (h : p.Opens (pre ++ r) r)
    (hy : y ≠ []) (hplace : y <:+ pre ∨ ∃ v, y = v ++ pre) :
    (∃ u z, y = u ++ z ∧ z ≠ [] ∧ ∀ w, UrlRun (y ++ w) (z ++ w)) ∨
      ∀ body rest rest', Secret data p pre body rest → Whole p body rest → UrlRun rest rest' →
        UrlRun (y ++ (body ++ rest)) rest' := by
  induction hn : y.length using Nat.strong_induction_on generalizing y with
  | _ n ih =>
      have hlater : ∀ {u z : PyStr}, y = u ++ z → z <:+ pre ∨ ∃ v, z = v ++ pre := by
        rintro u z rfl
        rcases hplace with hsuffix | ⟨v, hv⟩
        · exact Or.inl ((List.suffix_append u z).trans hsuffix)
        · exact place_of_suffix (g := v) (hv ▸ List.suffix_append u z)
      rcases early_place hp hkey h hy hplace with hno | ⟨hit, z, rfl, hhit, hz, hearly⟩ |
        ⟨rfl, rfl⟩
      · obtain ⟨c, x, rfl⟩ := List.exists_cons_of_ne_nil hy
        by_cases hc : isUrlChar c
        · by_cases hx : x = []
          · -- the whole prefix is read, and its last character is no space
            subst hx
            have hurl : p = dsn ∨ p = password data := by
              rcases mem_patterns hp with rfl | rfl | hurl
              · exact absurd rfl hkey
              · exfalso
                obtain ⟨x, d, rfl, hspace⟩ := last_space h
                have hlast : c = d := by
                  rcases hplace with ⟨u, hu⟩ | ⟨v, hv⟩
                  · exact (List.append_inj' hu rfl).2 |> List.singleton_inj.mp
                  · rw [← List.append_assoc] at hv
                    exact (List.append_inj' ((List.nil_append [c]).trans hv) rfl).2 |>
                      List.singleton_inj.mp
                rw [hlast, isUrlChar, hspace] at hc
                cases hc
              · exact hurl
            exact Or.inr fun body rest rest' hsecret hwhole hrun =>
              .char hc (hno _) ((hsecret.urlRun hurl hwhole).trans hrun)
          · refine (ih x.length (by simp [← hn]) hx (hlater (u := [c]) rfl) rfl).imp ?_ ?_
            · rintro ⟨u, z, rfl, hz, hrun⟩
              exact ⟨c :: u, z, rfl, hz, fun w => .char hc (hno w) (hrun w)⟩
            · exact fun hrun body rest rest' hsecret hwhole hrest =>
                .char hc (hno _) (hrun body rest rest' hsecret hwhole hrest)
        · refine Or.inl ⟨[], c :: x, rfl, List.cons_ne_nil c x, fun w => .stop fun d hd => ?_⟩
          obtain rfl : c = d := Option.some.inj hd
          exact Bool.eq_false_iff.mpr hc
      · have hlt : z.length < n := by
          have hpos := List.length_pos_iff.mpr hhit
          rw [← hn, List.length_append]
          omega
        refine (ih z.length hlt hz (hlater rfl) rfl).imp ?_ ?_
        · rintro ⟨u, z', rfl, hz', hrun⟩
          exact ⟨hit ++ u, z', (List.append_assoc _ _ _).symm, hz',
            fun w => .early (hearly w) (hrun w)⟩
        · exact fun hrun body rest rest' hsecret hwhole hrest =>
            .early (hearly _) (hrun body rest rest' hsecret hwhole hrest)
      · exact Or.inr fun body rest rest' hsecret hwhole hrest =>
          .early (.token hsecret.opens (hsecret.token hwhole)) hrest

/-! ### Matches -/

/-- **A match in front of a prefix** ends before the end of it, or takes the prefix and what belongs
to it. -/
theorem match_front (hp : p ∈ patterns data) (hkey : p ≠ apiKey) (h : p.Opens (pre ++ r) r)
    (hv : v ≠ []) (prev : Option CodePoint) :
    (∀ w r, ¬ Match data prev (v ++ (pre ++ w)) r) ∨
      (∃ hit z, v ++ pre = hit ++ z ∧ hit ≠ [] ∧
        ∀ w, Match data prev (v ++ (pre ++ w)) (z ++ w)) ∨
      ∀ body rest rest', Secret data p pre body rest → Whole p body rest → UrlRun rest rest' →
        Match data prev (v ++ (pre ++ (body ++ rest))) rest' := by
  rcases early_front hp hkey h hv with hno | ⟨hit, z, hsplit, hhit, -, hearly⟩
  · by_cases hfound : ∃ p₀ g, (p₀ = dsn ∨ p₀ = password data) ∧ p₀.start prev ∧ p₀.Opens v g ∧
        p₀.Runs (g ++ pre)
    · obtain ⟨p₀, g, h₀, hstart, hopens, hruns⟩ := hfound
      have hhalts := halts hp hkey (url_mem h₀) h
      have hopens' : ∀ w, p₀.Opens (v ++ (pre ++ w)) (g ++ (pre ++ w)) :=
        fun w => (hhalts.opens hv).mpr ⟨g, rfl, hopens⟩
      have hruns' : ∀ w, p₀.Runs (g ++ (pre ++ w)) := fun w => hhalts.runs_iff.mpr hruns
      obtain ⟨s, hs, rfl⟩ := hopens.exists_append
      have hne : g ++ pre ≠ [] := by simp [hhalts.ne_nil]
      rcases urlRun_front hp hkey h hne (Or.inr ⟨g, rfl⟩) with ⟨u, z, hsplit, -, hrun⟩ | hrun
      · refine Or.inr (Or.inl ⟨s ++ u, z, ?_, by simp [hs], fun w => ?_⟩)
        · rw [List.append_assoc, hsplit, List.append_assoc]
        · refine .url h₀ hstart (hopens' w) (hruns' w) ?_
          rw [← List.append_assoc]
          exact hrun w
      · refine Or.inr (Or.inr fun body rest rest' hsecret hwhole hrest => ?_)
        refine .url h₀ hstart (hopens' _) (hruns' _) ?_
        rw [← List.append_assoc]
        exact hrun body rest rest' hsecret hwhole hrest
    · refine Or.inl fun w r' hmatch => ?_
      cases hmatch with
      | early hearly => exact hno w r' hearly
      | url h₀ hstart hopens hruns _ =>
          have hhalts := halts hp hkey (url_mem h₀) h
          obtain ⟨g, rfl, hg⟩ := (hhalts.opens hv).mp hopens
          exact hfound ⟨_, g, h₀, hstart, hg, hhalts.runs_iff.mp hruns⟩
  · exact Or.inr (Or.inl ⟨hit, z, hsplit, hhit, fun w => .early (hearly w)⟩)

/-! ### The reading -/

/-- Whatever comes behind the prefix, a match that begins before it ends inside of it. -/
def Breaks (data : CharacterData) (prev : Option CodePoint) (front pre : PyStr) : Prop :=
  ∃ y q u v x z, front = u ++ v ∧ v ≠ [] ∧ pre = x ++ z ∧ x ≠ [] ∧ ∀ w,
    Reads (Match data) redactionMarker prev (front ++ (pre ++ w)) y q (v ++ (pre ++ w)) ∧
      Match data q (v ++ (pre ++ w)) (z ++ w)

/-- The reading comes to the prefix. -/
def Arrives (data : CharacterData) (prev : Option CodePoint) (front pre : PyStr) : Prop :=
  ∃ y q, (q = front.getLast?.or prev ∨ q = redactionMarker.getLast?) ∧
    ∀ w, Reads (Match data) redactionMarker prev (front ++ (pre ++ w)) y q (pre ++ w)

/-- A match that begins before it takes the prefix and what belongs to it. -/
def Covers (data : CharacterData) (p : Pattern CodePoint) (prev : Option CodePoint)
    (front pre : PyStr) : Prop :=
  ∃ y, ∀ body rest rest', Secret data p pre body rest → Whole p body rest → UrlRun rest rest' →
    Reads (Match data) redactionMarker prev (front ++ (pre ++ (body ++ rest)))
      (y ++ redactionMarker) redactionMarker.getLast? rest'

/-- **What is before a prefix**, read from left to right. -/
theorem reads_front (hp : p ∈ patterns data) (hkey : p ≠ apiKey) (h : p.Opens (pre ++ r) r)
    (front : PyStr) (prev : Option CodePoint) :
    Arrives data prev front pre ∨ Breaks data prev front pre ∨ Covers data p prev front pre := by
  induction hn : front.length using Nat.strong_induction_on generalizing front prev with
  | _ n ih =>
      by_cases hne : front = []
      · subst hne
        exact Or.inl ⟨[], prev, Or.inl rfl, fun _ => .done⟩
      rcases match_front hp hkey h hne prev with hno | ⟨hit, z, hsplit, hhit, hmatch⟩ | hmatch
      · obtain ⟨c, x, rfl⟩ := List.exists_cons_of_ne_nil hne
        rcases ih x.length (by simp [← hn]) x (some c) rfl with ⟨y, q, hq, hreads⟩ |
          ⟨y, q, u, v, a, z, rfl, hv, hpre, ha, hreads⟩ | ⟨y, hreads⟩
        · rw [getLast?_or_cons] at hq
          exact Or.inl ⟨c :: y, q, hq, fun w => .keep (hno w) (hreads w)⟩
        · exact Or.inr (Or.inl ⟨c :: y, q, c :: u, v, a, z, rfl, hv, hpre, ha,
            fun w => ⟨.keep (hno w) (hreads w).1, (hreads w).2⟩⟩)
        · exact Or.inr (Or.inr ⟨c :: y, fun body rest rest' hsecret hwhole hrun =>
            .keep (hno _) (hreads body rest rest' hsecret hwhole hrun)⟩)
      · rcases List.append_eq_append_iff.mp hsplit with ⟨x, rfl, rfl⟩ | ⟨x, rfl, rfl⟩
        · -- the match ends in the prefix, or right before it
          by_cases hx : x = []
          · subst hx
            rw [List.nil_append] at hmatch
            exact Or.inl ⟨redactionMarker ++ [], _, Or.inr rfl, fun w => .hit (hmatch w) .done⟩
          · exact Or.inr (Or.inl ⟨[], prev, [], front, x, z, rfl, hne, rfl, hx,
              fun w => ⟨.done, hmatch w⟩⟩)
        · -- and here it ends before it
          have hlt : x.length < n := by
            have hpos := List.length_pos_iff.mpr hhit
            rw [← hn, List.length_append]
            omega
          have hmatch' : ∀ w, Match data prev (hit ++ x ++ (pre ++ w)) (x ++ (pre ++ w)) := by
            intro w
            rw [← List.append_assoc x]
            exact hmatch w
          rcases ih x.length hlt x redactionMarker.getLast? rfl with ⟨y, q, hq, hreads⟩ |
            ⟨y, q, u, v, a, z, rfl, hv, hpre, ha, hreads⟩ | ⟨y, hreads⟩
          · refine Or.inl ⟨redactionMarker ++ y, q, ?_, fun w => .hit (hmatch' w) (hreads w)⟩
            rw [List.getLast?_append]
            cases hlast : x.getLast? with
            | none =>
                rw [hlast, Option.none_or, or_self] at hq
                exact Or.inr hq
            | some e =>
                rw [hlast] at hq
                exact hq
          · exact Or.inr (Or.inl ⟨redactionMarker ++ y, q, hit ++ u, v, a, z, by simp, hv, hpre,
              ha, fun w => ⟨.hit (hmatch' w) (hreads w).1, (hreads w).2⟩⟩)
          · refine Or.inr (Or.inr ⟨redactionMarker ++ y,
              fun body rest rest' hsecret hwhole hrun => ?_⟩)
            rw [List.append_assoc redactionMarker]
            exact .hit (hmatch' _) (hreads body rest rest' hsecret hwhole hrun)
      · refine Or.inr (Or.inr ⟨[], fun body rest rest' hsecret hwhole hrun => ?_⟩)
        have hreads : Reads (Match data) redactionMarker prev _ (redactionMarker ++ []) _ rest' :=
          .hit (hmatch body rest rest' hsecret hwhole hrun) .done
        rwa [List.append_nil] at hreads

/-! ### What cannot be seen -/

variable {front body body' : PyStr}

theorem start_marker (hp : p ∈ patterns data) : p.start redactionMarker.getLast? := by
  rcases mem_patterns hp with rfl | rfl | rfl | rfl
  · rfl
  · rfl
  · rfl
  · have hbracket : data.isWord (CodePoint.ofChar ']') = false := by
      rw [CharacterData.isWord, data.ascii _ (by decide)]
      rfl
    change (!data.isWord (CodePoint.ofChar ']')) = true
    rw [hbracket]
    rfl

/-- A secret that no earlier pattern has a part of is a match. -/
theorem Secret.match (h : Secret data p pre body rest) (hwhole : Whole p body rest)
    (hkey : p ≠ apiKey) (hstart : p.start q) : Match data q (pre ++ (body ++ rest)) rest := by
  rcases mem_patterns h.known with rfl | rfl | hurl
  · exact absurd rfl hkey
  · exact .early (.token h.opens (h.token hwhole))
  · exact .url hurl hstart h.opens h.runs (h.urlRun hurl hwhole)

/-- **A secret is hidden** when it is a match and no match that begins before it ends in its
prefix. -/
theorem redactText_hides (hkey : p ≠ apiKey) (h : Secret data p pre body rest)
    (hwhole : Whole p body rest) (h' : Secret data p pre body' rest) (hwhole' : Whole p body' rest)
    (hstart : p.start front.getLast?) (hno : ¬ Breaks data none front pre) :
    redactText data (front ++ (pre ++ (body ++ rest))) =
      redactText data (front ++ (pre ++ (body' ++ rest))) := by
  obtain ⟨y, t, hreads, hreads'⟩ : ∃ y t,
      Reads (Match data) redactionMarker none (front ++ (pre ++ (body ++ rest)))
        (y ++ redactionMarker) redactionMarker.getLast? t ∧
      Reads (Match data) redactionMarker none (front ++ (pre ++ (body' ++ rest)))
        (y ++ redactionMarker) redactionMarker.getLast? t := by
    rcases reads_front h.known hkey h.opens front none with ⟨y, q, hq, hreads⟩ | hbreaks |
      ⟨y, hreads⟩
    · have hstart' : p.start q := by
        rcases hq with rfl | rfl
        · rwa [Option.or_none]
        · exact start_marker h.known
      have hmark : ∀ {s : PyStr}, Match data q s rest → Reads (Match data) redactionMarker q s
          redactionMarker redactionMarker.getLast? rest := by
        intro s hmatch
        have hhit : Reads (Match data) redactionMarker q s (redactionMarker ++ []) _ rest :=
          .hit hmatch .done
        rwa [List.append_nil] at hhit
      exact ⟨y, rest, (hreads _).trans (hmark (h.match hwhole hkey hstart')),
        (hreads _).trans (hmark (h'.match hwhole' hkey hstart'))⟩
    · exact absurd hbreaks hno
    · obtain ⟨t, hrun⟩ := exists_urlRun rest
      exact ⟨y, t, hreads body rest t h hwhole hrun, hreads body' rest t h' hwhole' hrun⟩
  obtain ⟨out, q, hrest⟩ :
      ∃ out q, Reads (Match data) redactionMarker redactionMarker.getLast? t out q [] :=
    exists_reads (match_proper data) _ t
  rw [redact_text_reads data (hreads.trans hrest), redact_text_reads data (hreads'.trans hrest)]

/-- A key is hidden, whatever is before it. -/
theorem redactText_hides_key (h : Secret data apiKey pre body rest)
    (h' : Secret data apiKey pre body' rest) (front : PyStr) :
    redactText data (front ++ (pre ++ (body ++ rest))) =
      redactText data (front ++ (pre ++ (body' ++ rest))) := by
  obtain rfl := h.pre_of_key
  obtain ⟨out, hout⟩ := scrub_key data front none
  rw [redactText_eq, redactText_eq]
  simp only [Pattern.sub, hout body rest h, hout body' rest h']

/-- What a match that begins before a prefix leaves of it, and what is behind it, is seen. -/
theorem Breaks.shows (h : Breaks data none front pre) :
    ∃ y z, z <:+ pre.tail ∧ ∀ word, Quiet data (z ++ word) → ∀ rest, ∃ w,
      redactText data (front ++ (pre ++ (word ++ rest))) = y ++ (z ++ word ++ w) := by
  obtain ⟨y, q, u, v, x, z, rfl, hv, rfl, hx, hreads⟩ := h
  obtain ⟨c, x, rfl⟩ := List.exists_cons_of_ne_nil hx
  refine ⟨y ++ redactionMarker, z, List.suffix_append x z, fun word hquiet rest => ?_⟩
  obtain ⟨hfront, hmatch⟩ := hreads (word ++ rest)
  rw [← List.append_assoc z] at hmatch
  have hstays : Reads (Match data) redactionMarker redactionMarker.getLast? (z ++ word ++ rest)
      (z ++ word) ((z ++ word).getLast?.or redactionMarker.getLast?) rest := by
    refine reads_stays (fun i hi q r hmatch => ?_) _
    obtain ⟨p, hp, hfound⟩ := hmatch.found
    exact hfound (hquiet p hp rest i hi q)
  obtain ⟨out, q', hrest⟩ : ∃ out q', Reads (Match data) redactionMarker
      ((z ++ word).getLast?.or redactionMarker.getLast?) rest out q' [] :=
    exists_reads (match_proper data) _ rest
  refine ⟨out, ?_⟩
  rw [redact_text_reads data (hfront.trans (.hit hmatch (hstays.trans hrest)))]
  simp only [List.append_assoc]

end Taskq.Redact
