import Mathlib.Algebra.GroupWithZero.Nat
import Mathlib.Data.List.Nodup

/-!
# Taskq.Lib.Keyed

Rows under unique keys.

A table is a list, `key` what its unique index is on, and `(l.map key).Nodup` that the
index holds. A key then leads to one row, wherever it is looked for: by `find?`, by
position, or in what a filter has left of the table. Replacing a row keeps the keys, and
lightens a sum over the rows with it.
-/

namespace Keyed

variable {α β κ : Type*} {key : α → κ} {l : List α}

/-- A row is found under its key. -/
theorem find?_eq_some [DecidableEq κ] (hkeys : (l.map key).Nodup) {a : α} (ha : a ∈ l) {k : κ}
    (hk : key a = k) : l.find? (fun b => key b = k) = some a := by
  obtain ⟨b, hfind⟩ : ∃ b, l.find? (fun b => key b = k) = some b := by
    rw [← Option.isSome_iff_exists, List.find?_isSome]
    exact ⟨a, ha, by simpa using hk⟩
  have hkb : key b = k := by simpa using List.find?_some hfind
  have hmem := List.mem_of_find?_eq_some hfind
  rw [hfind, List.inj_on_of_nodup_map hkeys hmem ha (hkb.trans hk.symm)]

/-- Looking up after the rows under `k` were replaced by one with the same key. -/
theorem find?_replace [DecidableEq κ] {k k' : κ} {b : α} (hb : key b = k) :
    (l.map fun a => if key a = k then b else a).find? (fun a => key a = k') =
      (l.find? fun a => key a = k').map fun a => if key a = k then b else a := by
  rw [List.find?_map]
  have hsame : (fun a => decide (key a = k')) ∘ (fun a => if key a = k then b else a)
      = fun a => decide (key a = k') := by
    funext a
    simp only [Function.comp_apply]
    split_ifs with h
    · rw [hb, h]
    · rfl
  rw [hsame]

/-- One row is left where a key is asked for. -/
theorem filter_eq_singleton [DecidableEq κ] (hkeys : (l.map key).Nodup) {a : α} (ha : a ∈ l) {k : κ}
    (hk : key a = k) : l.filter (fun b => key b = k) = [a] := by
  have hnodup : l.Nodup := List.Nodup.of_map _ hkeys
  refine List.perm_singleton.mp ?_
  refine (List.perm_ext_iff_of_nodup (hnodup.filter _) (List.nodup_singleton a)).mpr fun b => ?_
  rw [List.mem_filter, List.mem_singleton, decide_eq_true_eq]
  refine ⟨?_, ?_⟩
  · intro hb
    exact List.inj_on_of_nodup_map hkeys hb.1 ha (hb.2.trans hk.symm)
  · intro heq
    subst heq
    exact ⟨ha, hk⟩

/-- Two positions with one key are one. -/
theorem index_eq (hkeys : (l.map key).Nodup) {i j : ℕ} {a b : α} (ha : l[i]? = some a)
    (hb : l[j]? = some b) (hkey : key a = key b) : i = j := by
  have hi : (l.map key)[i]? = some (key a) := by rw [List.getElem?_map, ha, Option.map_some]
  have hj : (l.map key)[j]? = some (key a) := by rw [List.getElem?_map, hb, Option.map_some, hkey]
  obtain ⟨hlt, heq⟩ := List.getElem?_eq_some_iff.mp hi
  obtain ⟨hlt', heq'⟩ := List.getElem?_eq_some_iff.mp hj
  exact hkeys.getElem_inj_iff.mp (heq.trans heq'.symm)

/-- Replacing a row by one with the same key leaves the keys alone. -/
theorem map_set {i : ℕ} {a b : α} (h : l[i]? = some a) (hkey : key b = key a) :
    (l.set i b).map key = l.map key := by
  refine List.ext_getElem? fun j => ?_
  rw [List.getElem?_map, List.getElem?_map, List.getElem?_set]
  split_ifs with hij hi
  · rw [← hij, h, Option.map_some, Option.map_some, hkey]
  · rw [← hij, List.getElem?_eq_none (Nat.not_lt.mp hi)]
  · rfl

/-- Replacing an entry by a lighter one lightens the sum. -/
theorem sum_map_set_lt {f : α → ℕ} {a b : α} (hf : f b < f a) :
    ∀ {i : ℕ}, l[i]? = some a → ((l.set i b).map f).sum < (l.map f).sum := by
  induction l with
  | nil =>
      intro i h
      cases h
  | cons d l ih =>
      intro i h
      cases i with
      | zero =>
          obtain rfl : d = a := by simpa using h
          simpa using hf
      | succ i => simpa using ih (by simpa using h)

/-- Where what is kept of a row has the row's key, the keys kept are some of those there
were. -/
theorem map_filterMap_sublist {f : α → Option β} {g : β → κ}
    (h : ∀ a ∈ l, ∀ b, f a = some b → g b = key a) :
    ((l.filterMap f).map g).Sublist (l.map key) := by
  induction l with
  | nil => exact List.Sublist.slnil
  | cons a l ih =>
      have hrest := ih fun a ha => h a (List.mem_cons_of_mem _ ha)
      rw [List.filterMap_cons]
      cases hf : f a with
      | none => exact hrest.cons _
      | some b =>
          show (g b :: _).Sublist (key a :: _)
          rw [h a List.mem_cons_self b hf]
          exact hrest.cons_cons _

end Keyed
