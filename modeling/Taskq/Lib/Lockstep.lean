import Mathlib.Data.List.Forall2

/-!
# Taskq.Lib.Lockstep

Two systems that show the same.

A system takes an input, shows something and moves on, and may have a choice how. Where a relation
between the states of two of them keeps up with one between their inputs, so that whatever one of
them does the other can do and show alike, they show the same over whole runs (`shows_iff`).
-/

namespace Lockstep

variable {σ τ α β ω : Type*}

/-- From a state, on an input: what is shown, and the state after it. -/
abbrev System (σ α ω : Type*) := σ → α → ω → σ → Prop

/-- A run on a list of inputs. -/
inductive Run (M : System σ α ω) : σ → List α → List ω → σ → Prop
  | nil {s} : Run M s [] [] s
  | cons {s s' s'' a as o os} : M s a o s' → Run M s' as os s'' → Run M s (a :: as) (o :: os) s''

/-- What a system can show on a list of inputs. -/
def Shows (M : System σ α ω) (s : σ) (as : List α) (os : List ω) : Prop := ∃ s', Run M s as os s'

/-- What `M` does on an input, `N` can do and show on a related one, from related states to related
states. -/
def Follows (M : System σ α ω) (N : System τ β ω) (R : σ → τ → Prop) (L : α → β → Prop) : Prop :=
  ∀ {s t a b o s'}, R s t → L a b → M s a o s' → ∃ t', N t b o t' ∧ R s' t'

variable {M : System σ α ω} {N : System τ β ω} {R : σ → τ → Prop} {L : α → β → Prop} {s : σ} {t : τ}
  {as : List α} {bs : List β} {os : List ω}

/-- **Lockstep rule.** Whole runs are followed to related states. -/
theorem Follows.run (h : Follows M N R L) (hR : R s t) (hL : List.Forall₂ L as bs) {s' : σ}
    (hrun : Run M s as os s') : ∃ t', Run N t bs os t' ∧ R s' t' := by
  induction hrun generalizing t bs with
  | nil =>
      cases hL
      exact ⟨t, .nil, hR⟩
  | cons hstep _ ih =>
      cases hL with
      | cons hab hrest =>
          obtain ⟨t₁, hfirst, hR₁⟩ := h hR hab hstep
          obtain ⟨t', hrun', hR'⟩ := ih hR₁ hrest
          exact ⟨t', .cons hfirst hrun', hR'⟩

/-- **What is shown is the same**, where each follows the other. -/
theorem shows_iff (h : Follows M N R L) (h' : Follows N M (flip R) (flip L)) (hR : R s t)
    (hL : List.Forall₂ L as bs) : Shows M s as os ↔ Shows N t bs os := by
  refine ⟨?_, ?_⟩
  · rintro ⟨s', hrun⟩
    obtain ⟨t', hrun', -⟩ := h.run hR hL hrun
    exact ⟨t', hrun'⟩
  · rintro ⟨t', hrun⟩
    obtain ⟨s', hrun', -⟩ := h'.run (R := flip R) hR hL.flip hrun
    exact ⟨s', hrun'⟩

end Lockstep
