import Mathlib.Logic.Basic

/-!
# Taskq.Lib.Ledger

What is known of a map from what is said of its changes.

For each key a message means a change of what is under it: most leave it, some put an entry there
or take it away. Where every change of the map is said, what was learned from all the messages is
the map (`agrees_concat`); a message may also leave in doubt whether a change was made, and then
what is under the key is as learned, or what the change would have made of it.
-/

namespace Ledger

universe u v w

variable {κ : Type u} {ν : Type v} {α : Type w}

/-- What a message means for a key, given what was under it. -/
abbrev Meaning (κ : Type u) (ν : Type v) (α : Type w) := α → κ → Option ν → Option ν

variable (means : Meaning κ ν α) (doubts : α → κ → Option ν → Prop) (view : κ → Option ν)

/-- What is known after one more message. -/
def learn (view : κ → Option ν) (a : α) : κ → Option ν := fun k => means a k (view k)

/-- What is known after some messages. -/
def learned (h : List α) : κ → Option ν := h.foldl (learn means) view

@[simp] theorem learned_concat (h : List α) (a : α) :
    learned means view (h ++ [a]) = learn means (learned means view h) a := by
  rw [learned, List.foldl_append]
  rfl

/-- What a message changes under a key it makes the same of, whatever was there. -/
def Overwrites : Prop :=
  ∀ a k, (∀ old, means a k old = old) ∨ ∀ old, means a k old = means a k none

/-- The map is what was learned, but where a message has left a doubt. -/
def Agrees (h : List α) (m : κ → Option ν) : Prop :=
  ∀ k, m k = learned means view h k ∨ ∃ a ∈ h, doubts a k (m k)

/-- The next message tells of the change from one map to another. -/
def Tells (m : κ → Option ν) (a : α) (m' : κ → Option ν) : Prop :=
  ∀ k, m' k = learn means m a k ∨ doubts a k (m' k)

variable {means doubts view}

theorem agrees_nil : Agrees means doubts view [] view := fun _ => Or.inl rfl

/-- **Ledger rule.** -/
theorem agrees_concat (hmeans : Overwrites means) {h : List α} {m m' : κ → Option ν} {a : α}
    (hagrees : Agrees means doubts view h m) (htells : Tells means doubts m a m') :
    Agrees means doubts view (h ++ [a]) m' := by
  intro k
  rw [learned_concat]
  rcases htells k with hnow | hdoubt
  · rw [learn] at hnow ⊢
    rcases hagrees k with hold | ⟨b, hb, hdoubt⟩
    · left
      rw [hnow, hold]
    · rcases hmeans a k with hleaves | hsame
      · rw [hnow, hleaves]
        exact Or.inr ⟨b, List.mem_append_left _ hb, hdoubt⟩
      · exact Or.inl (hnow.trans ((hsame _).trans (hsame _).symm))
  · exact Or.inr ⟨a, by simp, hdoubt⟩

/-- What is under a key was learned, or in doubt. -/
theorem Agrees.learned_or_doubt {h : List α} {m : κ → Option ν}
    (hagrees : Agrees means doubts view h m) {k : κ} {o : Option ν} (hk : m k = o) :
    learned means view h k = o ∨ ∃ a ∈ h, doubts a k o := by
  subst hk
  exact (hagrees k).imp_left Eq.symm

/-- Without any doubt what was learned is the map, message by message. -/
theorem learned_concat_eq {h : List α} {m m' : κ → Option ν} {a : α}
    (hlearned : learned means view h = m) (hnext : m' = learn means m a) :
    learned means view (h ++ [a]) = m' := by
  rw [learned_concat, hlearned, hnext]

end Ledger
