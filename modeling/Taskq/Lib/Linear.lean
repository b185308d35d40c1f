import Mathlib.Data.List.Nodup

/-!
# Taskq.Lib.Linear

Histories of requests that overlap, and the sequential runs that explain them.

A history says when each request was made and when it was answered. A specification says
what one request does to a state when nothing else goes on, as a relation, since an answer
may leave room (an id that is drawn). An order of the requests explains a history when the
specification takes them one after the other with the answers they got, and no request
comes before one that had been answered when it was made.

An explanation is found as the history goes on: a request is put at the end of the order
at the moment it takes effect, which is after it was made and before it is answered. Each
of these three is a rule (`Explains.invoke`, `Explains.effect`, `Explains.respond`). How it
will be answered need not be settled when it takes effect: as long as it is not answered, its
place in the order can be given another answer (`Explains.amend`).
-/

namespace Linear

variable {σ ρ α : Type*}

/-- What a client sees of request `i`. -/
inductive Mark (ρ α : Type*)
  | invoke (i : ℕ) (call : ρ)
  | respond (i : ℕ) (answer : α)

/-- A request in the order, with its answer. -/
structure Entry (ρ α : Type*) where
  request : ℕ
  call : ρ
  answer : α

variable (spec : σ → ρ → α → σ → Prop)

/-- The specification takes the entries one after the other. -/
inductive Replays (s₀ : σ) : List (Entry ρ α) → σ → Prop
  | nil : Replays s₀ [] s₀
  | snoc {order : List (Entry ρ α)} {s s' : σ} {e : Entry ρ α} :
      Replays s₀ order s → spec s e.call e.answer s' → Replays s₀ (order ++ [e]) s'

/-- The order explains the history, and leads from `s₀` to `s`. -/
structure Explains (s₀ : σ) (history : List (Mark ρ α)) (order : List (Entry ρ α)) (s : σ) :
    Prop where
  legal : Replays spec s₀ order s
  once : (order.map Entry.request).Nodup
  made : ∀ e ∈ order, .invoke e.request e.call ∈ history
  answered : ∀ i a, .respond i a ∈ history → ∃ e ∈ order, e.request = i ∧ e.answer = a
  realTime : ∀ e ∈ order, ∀ e' ∈ order, ∀ a call,
    [.respond e.request a, .invoke e'.request call].Sublist history → [e, e'].Sublist order

variable {spec} {s₀ s s' : σ} {history : List (Mark ρ α)} {order : List (Entry ρ α)}

/-- Two in a row of a list that has become longer by one. -/
theorem pair_sublist_concat {β : Type*} {l : List β} {x y z : β} (h : [x, y].Sublist (l ++ [z])) :
    [x, y].Sublist l ∨ x ∈ l ∧ y = z := by
  obtain ⟨l₁, l₂, heq, hl₁, hl₂⟩ := List.sublist_append_iff.mp h
  rcases List.sublist_singleton.mp hl₂ with rfl | rfl
  · rw [List.append_nil] at heq
    subst heq
    exact Or.inl hl₁
  · obtain ⟨rfl, heq⟩ : [x] = l₁ ∧ [y] = [z] := List.append_inj' heq rfl
    cases heq
    exact Or.inr ⟨List.singleton_sublist.mp hl₁, rfl⟩

theorem Explains.nil : Explains spec s₀ [] [] s₀ where
  legal := .nil
  once := List.nodup_nil
  made := by simp
  answered := by simp
  realTime := by simp

/-- A request is made. -/
theorem Explains.invoke (h : Explains spec s₀ history order s) {i : ℕ}
    (hnew : ∀ call, .invoke i call ∉ history) (call : ρ) :
    Explains spec s₀ (history ++ [.invoke i call]) order s where
  legal := h.legal
  once := h.once
  made e he := List.mem_append_left _ (h.made e he)
  answered j a hmem := by
    rcases List.mem_append.mp hmem with hmem | hmem
    · exact h.answered j a hmem
    · cases List.mem_singleton.mp hmem
  realTime e he e' he' a call' hpair := by
    rcases pair_sublist_concat hpair with hpair | ⟨-, heq⟩
    · exact h.realTime e he e' he' a call' hpair
    · -- what is in the order was made before
      obtain ⟨rfl, -⟩ : e'.request = i ∧ call' = call := by simpa using heq
      exact absurd (h.made e' he') (hnew _)

/-- A request takes effect. -/
theorem Explains.effect (h : Explains spec s₀ history order s) {e : Entry ρ α}
    (hmade : .invoke e.request e.call ∈ history) (hnew : e.request ∉ order.map Entry.request)
    (hspec : spec s e.call e.answer s') :
    Explains spec s₀ history (order ++ [e]) s' where
  legal := .snoc h.legal hspec
  once := by
    rw [List.map_append, List.map_singleton, List.nodup_append_comm, List.singleton_append,
      List.nodup_cons]
    exact ⟨hnew, h.once⟩
  made e' he' := by
    rcases List.mem_append.mp he' with he' | he'
    · exact h.made e' he'
    · rw [List.mem_singleton.mp he']
      exact hmade
  answered i a hmem := by
    obtain ⟨e', he', heq⟩ := h.answered i a hmem
    exact ⟨e', List.mem_append_left _ he', heq⟩
  realTime e₁ he₁ e₂ he₂ a call hpair := by
    have hold : e₁ ∈ order := by
      rcases List.mem_append.mp he₁ with he₁ | he₁
      · exact he₁
      · -- it has not been answered yet
        rw [List.mem_singleton.mp he₁] at hpair
        obtain ⟨e', he', heq, -⟩ := h.answered _ _ (hpair.subset List.mem_cons_self)
        exact absurd (List.mem_map.mpr ⟨e', he', heq⟩) hnew
    rcases List.mem_append.mp he₂ with he₂ | he₂
    · exact (h.realTime e₁ hold e₂ he₂ a call hpair).trans (List.sublist_append_left _ _)
    · rw [List.mem_singleton.mp he₂]
      exact (List.singleton_sublist.mpr hold).append (List.Sublist.refl [e])

/-- The entry, with another answer if it is of request `i`. -/
def Entry.amend (i : ℕ) (a : α) (e : Entry ρ α) : Entry ρ α :=
  if e.request = i then { e with answer := a } else e

@[simp] theorem Entry.amend_request (i : ℕ) (a : α) (e : Entry ρ α) :
    (e.amend i a).request = e.request := by
  unfold Entry.amend
  split_ifs <;> rfl

@[simp] theorem Entry.amend_call (i : ℕ) (a : α) (e : Entry ρ α) :
    (e.amend i a).call = e.call := by
  unfold Entry.amend
  split_ifs <;> rfl

theorem Entry.amend_of_eq {i : ℕ} {e : Entry ρ α} (h : e.request = i) (a : α) :
    e.amend i a = { e with answer := a } := if_pos h

theorem Entry.amend_of_ne {i : ℕ} {e : Entry ρ α} (h : e.request ≠ i) (a : α) :
    e.amend i a = e := if_neg h

theorem Replays.amend {i : ℕ} {a : α} (h : Replays spec s₀ order s)
    (hspec : ∀ e ∈ order, e.request = i → ∀ s s', spec s e.call e.answer s' → spec s e.call a s') :
    Replays spec s₀ (order.map (Entry.amend i a)) s := by
  induction h with
  | nil => exact .nil
  | @snoc order s s' e _ hlast ih =>
      rw [List.map_append, List.map_singleton]
      refine .snoc (ih fun e' he' => hspec e' (List.mem_append_left _ he')) ?_
      by_cases hi : e.request = i
      · rw [Entry.amend_of_eq hi]
        exact hspec e (by simp) hi s s' hlast
      · rw [Entry.amend_of_ne hi]
        exact hlast

/-- A request that is not answered yet may be answered otherwise, where the specification takes
the one answer for the other. -/
theorem Explains.amend (h : Explains spec s₀ history order s) {e : Entry ρ α} (he : e ∈ order)
    (hopen : ∀ a, .respond e.request a ∉ history) {a : α}
    (hspec : ∀ s s', spec s e.call e.answer s' → spec s e.call a s') :
    Explains spec s₀ history (order.map (Entry.amend e.request a)) s where
  legal := h.legal.amend fun e' he' heq => by
    obtain rfl : e' = e := List.inj_on_of_nodup_map h.once he' he heq
    exact hspec
  once := by
    have hrequests : (order.map (Entry.amend e.request a)).map Entry.request
        = order.map Entry.request := by
      simp [Function.comp_def]
    rw [hrequests]
    exact h.once
  made e' he' := by
    obtain ⟨e₀, he₀, rfl⟩ := List.mem_map.mp he'
    rw [Entry.amend_request, Entry.amend_call]
    exact h.made e₀ he₀
  answered j b hmem := by
    obtain ⟨e₀, he₀, rfl, hb⟩ := h.answered j b hmem
    have hother : e₀.request ≠ e.request := fun heq => hopen b (heq ▸ hmem)
    exact ⟨e₀, List.mem_map.mpr ⟨e₀, he₀, Entry.amend_of_ne hother a⟩, rfl, hb⟩
  realTime f₁ hf₁ f₂ hf₂ b call hpair := by
    obtain ⟨e₁, he₁, rfl⟩ := List.mem_map.mp hf₁
    obtain ⟨e₂, he₂, rfl⟩ := List.mem_map.mp hf₂
    rw [Entry.amend_request, Entry.amend_request] at hpair
    exact (h.realTime e₁ he₁ e₂ he₂ b call hpair).map _

/-- A request that has taken effect is answered. -/
theorem Explains.respond (h : Explains spec s₀ history order s) {e : Entry ρ α} (he : e ∈ order) :
    Explains spec s₀ (history ++ [.respond e.request e.answer]) order s where
  legal := h.legal
  once := h.once
  made e' he' := List.mem_append_left _ (h.made e' he')
  answered i a hmem := by
    rcases List.mem_append.mp hmem with hmem | hmem
    · exact h.answered i a hmem
    · cases List.mem_singleton.mp hmem
      exact ⟨e, he, rfl, rfl⟩
  realTime e₁ he₁ e₂ he₂ a call hpair := by
    rcases pair_sublist_concat hpair with hpair | ⟨-, heq⟩
    · exact h.realTime e₁ he₁ e₂ he₂ a call hpair
    · cases heq

end Linear
