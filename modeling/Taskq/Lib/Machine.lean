import Mathlib.Init

/-!
# Taskq.Lib.Machine

Machines that answer: a step takes a request to an answer and a new state.

Two of them are compared on what they answer to a sequence of requests. A relation
between their states carries the comparison as long as they agree; where each step says
exactly when the two answers are one, so does the whole run (`Agreement.answers_eq_iff`).
-/

namespace Machine

variable {σ τ α β : Type*}

/-- What a request is answered, and the state after it. -/
abbrev Step (σ α β : Type*) := σ → α → β × σ

/-- The answers along a run. -/
def answers (M : Step σ α β) : σ → List α → List β
  | _, [] => []
  | s, a :: as => (M s a).1 :: answers M (M s a).2 as

/-- The state a run ends in. -/
def final (M : Step σ α β) : σ → List α → σ
  | s, [] => s
  | s, a :: as => final M (M s a).2 as

/-- The requests of a run, each with its answer. -/
def transcript (M : Step σ α β) : σ → List α → List (α × β)
  | _, [] => []
  | s, a :: as => (a, (M s a).1) :: transcript M (M s a).2 as

/-- Every request of a run meets `ok` in the state it comes to. -/
def Along (M : Step σ α β) (ok : σ → α → Prop) : σ → List α → Prop
  | _, [] => True
  | s, a :: as => ok s a ∧ Along M ok (M s a).2 as

instance Along.decidable (M : Step σ α β) (ok : σ → α → Prop) [∀ s a, Decidable (ok s a)] :
    ∀ s as, Decidable (Along M ok s as)
  | _, [] => isTrue trivial
  | s, a :: as =>
      haveI := Along.decidable M ok (M s a).2 as
      inferInstanceAs (Decidable (_ ∧ _))

/-- A condition met throughout, from a relation that each step keeps. -/
theorem Along.of_invariant {M : Step σ α β} {ok : σ → α → Prop} {I : σ → List α → Prop}
    (hok : ∀ s a as, I s (a :: as) → ok s a)
    (hstep : ∀ s a as, I s (a :: as) → I (M s a).2 as) {s : σ} {as : List α} (h : I s as) :
    Along M ok s as := by
  induction as generalizing s with
  | nil => trivial
  | cons a as ih => exact ⟨hok s a as h, ih (hstep s a as h)⟩

/-- `R` relates the states of two machines whose answers to an admissible request are one
exactly when it is `good`, and keeps relating them where they are. -/
structure Agreement (M : Step σ α β) (N : Step τ α β) (R : σ → τ → Prop) (ok : σ → α → Prop)
    (good : τ → α → Prop) : Prop where
  answer : ∀ s t a, R s t → ok s a → ((M s a).1 = (N t a).1 ↔ good t a)
  step : ∀ s t a, R s t → ok s a → good t a → R (M s a).2 (N t a).2

variable {M : Step σ α β} {N : Step τ α β} {R : σ → τ → Prop} {ok : σ → α → Prop}
  {good : τ → α → Prop}

/-- **Agreement rule.** Two runs have the same answers if and only if every request is
good in the state it comes to. -/
theorem Agreement.answers_eq_iff (h : Agreement M N R ok good) {s : σ} {t : τ} {as : List α}
    (hR : R s t) (hok : Along M ok s as) : answers M s as = answers N t as ↔ Along N good t as := by
  induction as generalizing s t with
  | nil => exact iff_of_true rfl trivial
  | cons a as ih =>
      obtain ⟨hhead, htail⟩ := hok
      have hanswer := h.answer s t a hR hhead
      rw [answers, answers, List.cons_eq_cons, hanswer]
      exact and_congr_right fun hgood => ih (h.step s t a hR hhead hgood) htail

/-- Where no step leaves the relation, runs end in it. -/
theorem final_rel (hstep : ∀ s t a, R s t → ok s a → R (M s a).2 (N t a).2) {s : σ} {t : τ}
    {as : List α} (hR : R s t) (hok : Along M ok s as) : R (final M s as) (final N t as) := by
  induction as generalizing s t with
  | nil => exact hR
  | cons a as ih => exact ih (hstep s t a hR hok.1) hok.2

/-! ### One party's view -/

theorem transcript_map_fst (s : σ) (as : List α) : (transcript M s as).map Prod.fst = as := by
  induction as generalizing s with
  | nil => rfl
  | cons a as ih => rw [transcript, List.map_cons, ih]

theorem transcript_map_snd (s : σ) (as : List α) :
    (transcript M s as).map Prod.snd = answers M s as := by
  induction as generalizing s with
  | nil => rfl
  | cons a as ih => rw [transcript, List.map_cons, ih, answers]

/-- A machine that reads part of its requests. -/
theorem answers_comap {γ : Type*} (f : γ → α) (s : σ) (cs : List γ) :
    answers (fun s c => M s (f c)) s cs = answers M s (cs.map f) := by
  induction cs generalizing s with
  | nil => rfl
  | cons c cs ih => rw [answers, List.map_cons, answers, ih]

theorem final_concat (s : σ) (as : List α) (a : α) :
    final M s (as ++ [a]) = (M (final M s as) a).2 := by
  induction as generalizing s with
  | nil => rfl
  | cons b as ih => exact ih (M s b).2

theorem transcript_length (s : σ) (as : List α) : (transcript M s as).length = as.length := by
  rw [← List.length_map Prod.fst, transcript_map_fst]

theorem transcript_concat (s : σ) (as : List α) (a : α) :
    transcript M s (as ++ [a]) = transcript M s as ++ [(a, (M (final M s as) a).1)] := by
  induction as generalizing s with
  | nil => rfl
  | cons b as ih => exact congrArg _ (ih (M s b).2)

/-- What the next request is told, in its place. -/
theorem transcript_getElem?_length (s : σ) (as : List α) (a : α) :
    (transcript M s (as ++ [a]))[as.length]? = some (a, (M (final M s as) a).1) := by
  rw [transcript_concat, ← transcript_length (M := M) s, List.getElem?_concat_length]

/-- What was told stays as it was. -/
theorem transcript_getElem?_concat {s : σ} {as : List α} {n : Nat} {q : α × β} (a : α)
    (h : (transcript M s as)[n]? = some q) : (transcript M s (as ++ [a]))[n]? = some q := by
  obtain ⟨hlt, -⟩ := List.getElem?_eq_some_iff.mp h
  rw [transcript_concat, List.getElem?_append_left hlt, h]

theorem lt_of_transcript_getElem? {s : σ} {as : List α} {n : Nat} {q : α × β}
    (h : (transcript M s as)[n]? = some q) : n < as.length := by
  obtain ⟨hlt, -⟩ := List.getElem?_eq_some_iff.mp h
  rwa [transcript_length] at hlt

theorem mem_of_mem_transcript {s : σ} {as : List α} {q : α × β} (h : q ∈ transcript M s as) :
    q.1 ∈ as := by
  have hfst := List.mem_map_of_mem (f := Prod.fst) h
  rwa [transcript_map_fst] at hfst

/-- `N` is what `M` is to the requests in `mine`: those it answers alike, and the others
leave the relation as it is. -/
structure Projection (M : Step σ α β) (N : Step τ α β) (R : σ → τ → Prop) (mine : α → Bool) :
    Prop where
  answer : ∀ s t a, R s t → mine a = true → (M s a).1 = (N t a).1
  step : ∀ s t a, R s t → mine a = true → R (M s a).2 (N t a).2
  skip : ∀ s t a, R s t → mine a = false → R (M s a).2 t

/-- **Projection rule.** What one party sees of a run is the run of its requests alone. -/
theorem Projection.transcript_filter {mine : α → Bool} (h : Projection M N R mine) {s : σ} {t : τ}
    {as : List α} (hR : R s t) :
    (transcript M s as).filter (fun p => mine p.1) = transcript N t (as.filter mine) := by
  induction as generalizing s t with
  | nil => rfl
  | cons a as ih =>
      rw [transcript, List.filter_cons, List.filter_cons]
      cases hmine : mine a with
      | true =>
          simp only [if_true]
          rw [transcript, h.answer s t a hR hmine, ih (h.step s t a hR hmine)]
      | false => simpa using ih (h.skip s t a hR hmine)

/-- What the requests before `as` leave, when none of them is in `mine`. -/
theorem Projection.final_skip {mine : α → Bool} (h : Projection M N R mine) {s : σ} {t : τ}
    {as : List α} (hR : R s t) (hskip : ∀ a ∈ as, mine a = false) : R (final M s as) t := by
  induction as generalizing s with
  | nil => exact hR
  | cons a as ih =>
      exact ih (h.skip s t a hR (hskip a List.mem_cons_self))
        fun a' ha' => hskip a' (List.mem_cons_of_mem _ ha')

end Machine
