import Mathlib.Data.Set.Finite.Basic

/-!
# Taskq.Lib.Registry

Finite maps whose entries have distinct names.

The name of an entry is a function of it, and that no two entries share one is a field,
so an operation that would break it cannot be written. Registering is possible while the
name is free; erasing an entry frees the name it had.
-/

universe u v w

/-- A finite map from keys to entries, no two of which have one name. -/
@[ext] structure Registry (κ : Type u) (ν : Type v) {ι : Type w} (name : ν → ι) where
  entry : κ → Option ν
  finite : {k | entry k ≠ none}.Finite
  distinct : ∀ i j v w, entry i = some v → entry j = some w → name v = name w → i = j

namespace Registry

variable {κ : Type u} {ν : Type v} {ι : Type w} {name : ν → ι} [DecidableEq κ]

/-- Is there an entry under this key? -/
def Has (m : Registry κ ν name) (k : κ) : Prop := ∃ v, m.entry k = some v

/-- Does some entry have this name? -/
def Taken (m : Registry κ ν name) (n : ι) : Prop := ∃ k v, m.entry k = some v ∧ name v = n

/-- Put an entry whose name is free under a key. -/
def insert (m : Registry κ ν name) (k : κ) (v : ν) (hfree : ¬ m.Taken (name v)) :
    Registry κ ν name where
  entry j := if j = k then some v else m.entry j
  finite := by
    refine (m.finite.insert k).subset ?_
    intro j hj
    by_cases hjk : j = k
    · exact Or.inl hjk
    · exact Or.inr (by simpa [hjk] using hj)
  distinct := by
    intro i j a b hi hj hname
    split_ifs at hi hj with hik hjk hjk
    · exact hik.trans hjk.symm
    · cases hi
      exact absurd ⟨j, b, hj, hname.symm⟩ hfree
    · cases hj
      exact absurd ⟨i, a, hi, hname⟩ hfree
    · exact m.distinct i j a b hi hj hname

/-- Take the entry under a key away. -/
def erase (m : Registry κ ν name) (k : κ) : Registry κ ν name where
  entry j := if j = k then none else m.entry j
  finite := by
    refine m.finite.subset ?_
    intro j hj hnone
    have hj' : (if j = k then none else m.entry j) ≠ none := hj
    rw [hnone, ite_self] at hj'
    exact hj' rfl
  distinct := by
    intro i j a b hi hj hname
    split_ifs at hi hj
    exact m.distinct i j a b hi hj hname

theorem insert_entry (m : Registry κ ν name) (k : κ) (v : ν) (hfree : ¬ m.Taken (name v)) (j : κ) :
    (m.insert k v hfree).entry j = if j = k then some v else m.entry j := rfl

theorem erase_entry (m : Registry κ ν name) (k j : κ) :
    (m.erase k).entry j = if j = k then none else m.entry j := rfl

/-- **Erasing frees the name**: nobody else had it. -/
theorem not_taken_erase {m : Registry κ ν name} {k : κ} {v : ν} (h : m.entry k = some v) :
    ¬ (m.erase k).Taken (name v) := by
  intro htaken
  obtain ⟨j, w, hj, hname⟩ := htaken
  rw [erase_entry] at hj
  split_ifs at hj with hjk
  exact hjk (m.distinct j k w v hj h hname)

end Registry
