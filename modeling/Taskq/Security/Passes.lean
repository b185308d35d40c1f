import Taskq.Security.Redact

/-!
# Taskq.Security.Passes

What the four passes of `redact_text` leave: a text that is no longer than before and in
which no pattern matches any more, so that redacting it again changes nothing.

The marker begins with a bracket, which no prefix has, and has none of the letters a match
begins with. A match goes on over every symbol of its last class, these letters among them,
so behind a marker no match begins that did not begin there before, whatever the marker
does to a word boundary.
-/

namespace Taskq.Redact

open Scrub Unicode

variable {data : CharacterData} {p p₀ : Pattern CodePoint}

/-! ### No match is left -/

theorem heads_bracket (hp : p ∈ patterns data) : p.heads.all fun head => head.all fun item =>
    !item.cls (CodePoint.ofChar '[') := by
  rcases mem_patterns hp with rfl | rfl | rfl | rfl
  all_goals rfl

theorem heads_runs (hp : p ∈ patterns data) : p.heads.all fun head => head.all fun item =>
    match item with
    | .one _ => true
    | .many cls _ => firsts.all fun c => !cls c := by
  rcases mem_patterns hp with rfl | rfl | rfl | rfl
  all_goals rfl

theorem body_firsts (hp : p ∈ patterns data) : firsts.all p.body := by
  rcases mem_patterns hp with rfl | rfl | rfl | rfl
  all_goals rfl

theorem body_of_first (hp : p ∈ patterns data) (h₀ : p₀ ∈ patterns data) {c : CodePoint}
    (hc : p₀.first c) : p.body c :=
  List.all_eq_true.mp (body_firsts hp) c (first_mem h₀ hc)

/-- A run without brackets was there before; one of a single symbol was, since a match begins
with such a symbol too. -/
theorem runs_of_scan (h₀ : p₀ ∈ patterns data) (hp : p ∈ patterns data) {prev q : Option CodePoint}
    {w r : PyStr} (h : Scan p redactionMarker prev w r q []) (hruns : p₀.Runs r) : p₀.Runs w := by
  have hone : ∀ c, p.first c → p₀.body c := fun c hc => body_of_first h₀ hp hc
  rcases mem_patterns h₀ with rfl | rfl | rfl | rfl
  · exact h.runs_kept marker_ne_nil (marker_head (by decide)) hruns
  · exact h.runs_kept marker_ne_nil (marker_head (by decide)) hruns
  · exact h.runs_one_kept rfl hone hruns
  · exact h.runs_one_kept rfl hone hruns

theorem spares (h₀ : p₀ ∈ patterns data) (hp : p ∈ patterns data) :
    p₀.Spares p redactionMarker where
  first := first_marker h₀
  heads := by
    intro head hhead item hitem c hc
    obtain rfl : _ = c := Option.some.inj hc
    have hall := List.all_eq_true.mp (List.all_eq_true.mp (heads_bracket h₀) head hhead) item hitem
    simpa using hall
  behind := by
    intro head hhead cls least hmem c hc
    have hall := List.all_eq_true.mp (List.all_eq_true.mp (heads_runs h₀) head hhead) _ hmem
    simpa using List.all_eq_true.mp hall c (first_mem hp hc)
  next := fun c hc => body_of_first hp h₀ hc
  runs := fun _ _ _ _ hscan hruns => runs_of_scan h₀ hp hscan hruns

/-- **What `redact_text` returns has no match of its patterns**, and so it is a fixpoint. -/
theorem redact_text_fixpoint (data : CharacterData) (x : PyStr) :
    (∀ p ∈ patterns data, p.Free (redactText data x)) ∧
      redactText data (redactText data x) = redactText data x := by
  have hfree : ∀ p ∈ patterns data, p.Free (redactText data x) := by
    rw [redactText_foldl]
    exact Pattern.foldl_free marker_ne_nil (fun p₀ h₀ p hp => spares h₀ hp) x
  refine ⟨hfree, ?_⟩
  rw [redactText_foldl data (redactText data x)]
  exact Pattern.foldl_of_free hfree

/-! ### No text gets longer -/

/-- The shortest match, `password=x`, is as long as the marker. -/
theorem spans_marker (hp : p ∈ patterns data) : p.Spans redactionMarker.length := by
  rcases mem_patterns hp with rfl | rfl | rfl | rfl
  all_goals exact of_decide_eq_true rfl

theorem length_foldl_le {ps : List (Pattern CodePoint)} (hps : ∀ p ∈ ps, p ∈ patterns data)
    (text : PyStr) :
    (ps.foldl (fun value p => p.sub redactionMarker value) text).length ≤ text.length := by
  induction ps generalizing text with
  | nil => exact le_rfl
  | cons p ps ih =>
      have hpass := Pattern.length_sub_le (spans_marker (hps p List.mem_cons_self)) text
      exact (ih (fun p' hp' => hps p' (List.mem_cons_of_mem p hp')) _).trans hpass

theorem length_redactText_le (data : CharacterData) (text : PyStr) :
    (redactText data text).length ≤ text.length := by
  rw [redactText_foldl]
  exact length_foldl_le (fun _ hp => hp) text

end Taskq.Redact
