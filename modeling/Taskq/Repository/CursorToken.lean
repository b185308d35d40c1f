import Taskq.Lib.QueryString
import Taskq.Repository.TaskList

/-!
# Taskq.Repository.CursorToken

A cursor on its way out and back (`_encode_cursor`, `_decode_cursor`).

The token is written with the URL-safe alphabet and sheds its padding, so a query string
carries it as it is. What comes back is the payload as JSON reads it: two escapes that make
a surrogate pair are read as one character. So a payload comes back as it was when it has
no surrogate pair in it, and text never has one.
-/

namespace Taskq.TaskList

open QueryString Unicode

/-- A letter, a digit, `-` or `_`. -/
def IsCursorChar (c : CodePoint) : Prop :=
  ∃ d : Char, c = CodePoint.ofChar d ∧ (d.isAlphanum ∨ d = '-' ∨ d = '_')

/-- A payload, decoded. -/
def payload (createdAt id : PyStr) : Json.Value :=
  .obj [(createdAtKey, .str createdAt), (idKey, .str id)]

/-- The name of the query parameter. -/
def cursorParam : PyStr := PyStr.ofChars ['c', 'u', 'r', 's', 'o', 'r']

theorem alphabet_all :
    Base64.alphabet.all (fun c => c.isAlphanum || c = '-' || c = '_') = true := by decide

theorem isCursorChar_cursorToken (createdAt id : PyStr) :
    ∀ c ∈ cursorToken createdAt id, IsCursorChar c := by
  intro c hc
  obtain ⟨d, hd, rfl⟩ := List.mem_map.mp hc
  have hall := List.all_eq_true.mp alphabet_all d (Base64.bare_mem _ d hd)
  simp only [Bool.or_eq_true, decide_eq_true_eq, or_assoc] at hall
  exact ⟨d, rfl, hall⟩

/-- What a query string gives a meaning to is no character of a cursor. -/
theorem IsCursorChar.plain {c : CodePoint} (h : IsCursorChar c) :
    c ∉ [percent, plus, ampersand, equals] := by
  obtain ⟨d, rfl, hd⟩ := h
  have hnot : ∀ e ∈ ['%', '+', '&', '='], d ≠ e := by
    intro e he heq
    subst heq
    simp only [List.mem_cons, List.not_mem_nil, or_false] at he
    rcases he with rfl | rfl | rfl | rfl <;> revert hd <;> decide
  intro hmem
  have hmem' : CodePoint.ofChar d ∈ ['%', '+', '&', '='].map CodePoint.ofChar := hmem
  obtain ⟨e, he, heq⟩ := List.mem_map.mp hmem'
  exact hnot e he (CodePoint.ofChar_injective heq).symm

theorem payload_inj {createdAt id createdAt' id' : PyStr} :
    payload createdAt id = payload createdAt' id' ↔ createdAt = createdAt' ∧ id = id' := by
  simp [payload]

/-- **A cursor survives the query string, and decodes to its payload exactly when neither
string has a surrogate pair in it.** -/
theorem cursor_roundTrip_iff (createdAt id : PyStr) :
    ∃ token, encodeCursor createdAt id = .ok token ∧
      (∀ c ∈ token, IsCursorChar c) ∧
      parseQsl (cursorParam ++ equals :: token) = [(cursorParam, token)] ∧
      (decodeCursor token = some (payload createdAt id) ↔
        Json.Unpaired createdAt ∧ Json.Unpaired id) := by
  refine ⟨cursorToken createdAt id, encodeCursor_eq createdAt id,
    isCursorChar_cursorToken createdAt id, ?_, ?_⟩
  · have hname : Plain cursorParam := by
      intro c hc
      obtain ⟨d, hd, rfl⟩ := List.mem_map.mp hc
      have hall : ['c', 'u', 'r', 's', 'o', 'r'].all Char.isAlphanum = true := by decide
      exact IsCursorChar.plain ⟨d, rfl, Or.inl (List.all_eq_true.mp hall d hd)⟩
    exact parseQsl_field hname fun c hc => (isCursorChar_cursorToken createdAt id c hc).plain
  · rw [decodeCursor_cursorToken_eq, Option.some_inj, ← Json.stable_iff, ← Json.stable_iff]
    exact payload_inj

/-- Two surrogates that make a pair come back as one character. -/
theorem surrogate_pair_is_joined : ¬ ∀ createdAt id token,
    encodeCursor createdAt id = .ok token →
      decodeCursor token = some (payload createdAt id) := by
  intro h
  have hback := h [0xD83D, 0xDE00] [] _ (encodeCursor_eq _ _)
  rw [decodeCursor_cursorToken_eq, Option.some_inj] at hback
  have hsame := (payload_inj.mp hback).1
  revert hsame
  decide

end Taskq.TaskList
